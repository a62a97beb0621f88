import CollationRules.CommandLine.Run
import CollationRules.Proofs.CommandLine.Requests

/-! A run of the command line leaves all or nothing. Whether there is an output is known before
anything is written, so that a run that fails changes no file and prints no markup, and a run that
succeeds gives the whole of the markup that the arguments ask for. -/

namespace CollationRules.CommandLine

/-! ### Files -/

/-- What can be seen of the states of a system. -/
structure View (W : Type) where
  File : Type
  content? : W → File → Option (List UInt8)
  /-- The file that a name leads to. -/
  named? : W → String → Option File
  /-- What has been written to the standard output. -/
  printed : W → List UInt8
  /-- The files that the standard streams lead to, if they lead to files. -/
  streams : List File

namespace View

variable {W : Type} (view : View W)

/-- Some files may have changed, and no others. -/
def ChangesOnly (before after : W) (files : List view.File) : Prop :=
  ∀ file, file ∉ files → view.content? after file = view.content? before file

/-- No file but those behind the standard streams has changed, and nothing has been printed. -/
structure IsSilent (before after : W) : Prop where
  kept : view.ChangesOnly before after view.streams
  unprinted : view.printed after = view.printed before

/-- No file has changed, and nothing has been printed. -/
structure IsSame (before after : W) : Prop where
  kept : view.ChangesOnly before after []
  unprinted : view.printed after = view.printed before

/-- The file that is named has a text. -/
def Holds (w : W) (name : String) (text : List Char) : Prop :=
  ∃ file found, view.named? w name = some file ∧ view.content? w file = some found ∧
    Text.decode? found = some text

/-- A text has been printed, or written to the file that is named for it, and no other file has
changed. -/
inductive Delivers (before after : W) (text : List Char) : Option String → Prop
  | printed (out : view.printed after = view.printed before ++ Text.encode text)
      (kept : view.ChangesOnly before after view.streams) : Delivers before after text none
  | saved {name : String} {file : view.File} (named : view.named? after name = some file)
      (written : view.content? after file = some (Text.encode text))
      (kept : view.ChangesOnly before after [file])
      (unprinted : view.printed after = view.printed before) :
      Delivers before after text (some name)

/-- Reads and writes succeed entirely, or fail and leave the files as they were. -/
structure Reliable (sys : System (StateM W)) : Prop where
  read : ∀ w name, view.IsSame w (sys.read name w).2
  read_ok : ∀ w name found, (sys.read name w).1 = .ok found →
    ∃ file, view.named? w name = some file ∧ view.content? w file = some found
  write_ok : ∀ w name bytes, (sys.write name bytes w).1 = .ok () →
    view.printed (sys.write name bytes w).2 = view.printed w ∧
      ∃ file, view.named? (sys.write name bytes w).2 name = some file ∧
        view.content? (sys.write name bytes w).2 file = some bytes ∧
        view.ChangesOnly w (sys.write name bytes w).2 [file]
  write_error : ∀ w name bytes message, (sys.write name bytes w).1 = .error message →
    view.IsSame w (sys.write name bytes w).2
  print_ok : ∀ w bytes, (sys.print bytes w).1 = .ok () →
    view.printed (sys.print bytes w).2 = view.printed w ++ bytes ∧
      view.ChangesOnly w (sys.print bytes w).2 view.streams
  print_error : ∀ w bytes message, (sys.print bytes w).1 = .error message →
    view.IsSame w (sys.print bytes w).2
  report : ∀ w bytes, view.IsSilent w (sys.report bytes w).2

end View

/-- A standard stream does not take what is written to it. -/
def System.Refuses {W : Type} (sys : System (StateM W)) : Prop :=
  ∃ w bytes message,
    (sys.print bytes w).1 = .error message ∨ (sys.report bytes w).1 = .error message

section

variable {W : Type} {view : View W} {sys : System (StateM W)} {before between after : W}

theorem View.ChangesOnly.mono {files more : List view.File}
    (h : view.ChangesOnly before after files) (hfiles : files ⊆ more) :
    view.ChangesOnly before after more := fun file hfile => h file fun hmem => hfile (hfiles hmem)

theorem View.ChangesOnly.trans {files : List view.File}
    (first : view.ChangesOnly before between files)
    (second : view.ChangesOnly between after files) : view.ChangesOnly before after files :=
  fun file hfile => (second file hfile).trans (first file hfile)

theorem View.IsSilent.trans (first : view.IsSilent before between)
    (second : view.IsSilent between after) : view.IsSilent before after :=
  ⟨first.kept.trans second.kept, second.unprinted.trans first.unprinted⟩

theorem View.IsSame.isSilent (h : view.IsSame before after) : view.IsSilent before after :=
  ⟨h.kept.mono (List.nil_subset _), h.unprinted⟩

/-- What is delivered is delivered also from an earlier state that is the same. -/
theorem View.Delivers.of_same {text : List Char} {output : Option String}
    (same : view.IsSame before between) (h : view.Delivers between after text output) :
    view.Delivers before after text output := by
  have hkept {files : List view.File} (kept : view.ChangesOnly between after files) :
      view.ChangesOnly before after files :=
    (same.kept.mono (List.nil_subset _)).trans kept
  cases h with
  | printed out kept => exact .printed (by rw [out, same.unprinted]) (hkept kept)
  | saved named written kept unprinted =>
    exact .saved named written (hkept kept) (unprinted.trans same.unprinted)

end

section

variable {W : Type} {view : View W} {sys : System (StateM W)}

/-! ### Calls -/

theorem readText_apply (name : String) (w : W) :
    sys.readText name w =
      match sys.read name w with
      | (.error message, after) => (.error message, after)
      | (.ok found, after) =>
        match Text.decode? found with
        | some text => (.ok text, after)
        | none => (.error notTextMessage, after) := by
  unfold System.readText
  simp only [bind, StateT.bind]
  rcases sys.read name w with ⟨message | found, after⟩
  · rfl
  · dsimp only
    cases Text.decode? found <;> rfl

theorem complain_apply (text : String) (next : StateM W UInt32) (w : W) :
    sys.complain text next w =
      match sys.report (bytes text) w with
      | (.ok (), after) => next after
      | (.error _, after) => (panicCode, after) := by
  unfold System.complain
  simp only [bind, StateT.bind]
  rcases sys.report (bytes text) w with ⟨_ | _, _⟩ <;> rfl

theorem showText_apply (text : String) (code : UInt32) (w : W) :
    sys.showText text code w =
      match sys.print (bytes text) w with
      | (.ok (), after) => (code, after)
      | (.error _, after) => (panicCode, after) := by
  unfold System.showText
  simp only [bind, StateT.bind]
  rcases sys.print (bytes text) w with ⟨_ | _, _⟩ <;> rfl

section

variable (reliable : view.Reliable sys)

include reliable

/-- A reading changes no file, and finds the text of the file that is named. -/
theorem readText_spec {name : String} {w after : W} {result : Except String (List Char)}
    (h : sys.readText name w = (result, after)) :
    view.IsSame w after ∧ ∀ text, result = .ok text → view.Holds w name text := by
  have hsame := reliable.read w name
  have hfound := reliable.read_ok w name
  rw [readText_apply] at h
  rcases hread : sys.read name w with ⟨message | found, next⟩ <;> rw [hread] at h hsame hfound
  · cases h
    exact ⟨hsame, nofun⟩
  · obtain ⟨file, hnamed, hcontent⟩ := hfound found rfl
    dsimp only at h
    split at h
    · rename_i text hdecoded
      cases h
      refine ⟨hsame, fun other hother => ?_⟩
      cases hother
      exact ⟨file, found, hnamed, hcontent, hdecoded⟩
    · cases h
      exact ⟨hsame, nofun⟩

/-- A text is delivered in full, or nothing is changed. -/
theorem deliver_spec {output : Option String} {text : List Char} {w after : W}
    {result : Except String Unit} (h : sys.deliver output text w = (result, after)) :
    (result = .ok () → view.Delivers w after text output) ∧
      ∀ message, result = .error message → view.IsSame w after := by
  cases output with
  | none =>
    have hok := reliable.print_ok w (Text.encode text)
    have herror := reliable.print_error w (Text.encode text)
    rw [show sys.print (Text.encode text) w = (result, after) from h] at hok herror
    exact ⟨fun hresult => .printed (hok hresult).1 (hok hresult).2, herror⟩
  | some name =>
    have hok := reliable.write_ok w name (Text.encode text)
    have herror := reliable.write_error w name (Text.encode text)
    rw [show sys.write name (Text.encode text) w = (result, after) from h] at hok herror
    refine ⟨fun hresult => ?_, herror⟩
    obtain ⟨hunprinted, file, hnamed, hwritten, hkept⟩ := hok hresult
    exact .saved hnamed hwritten hkept hunprinted

/-- After a complaint a run goes on, or it panics if the complaint is refused. -/
theorem complain_spec (text : String) (next : StateM W UInt32) (w : W) :
    ∃ after, view.IsSilent w after ∧
      (sys.complain text next w = next after ∨
        sys.complain text next w = (panicCode, after) ∧ sys.Refuses) := by
  refine ⟨(sys.report (bytes text) w).2, reliable.report w (bytes text), ?_⟩
  rw [complain_apply]
  rcases hresult : sys.report (bytes text) w with ⟨message | _, after⟩
  · exact .inr ⟨rfl, w, bytes text, message, .inr (congrArg (·.1) hresult)⟩
  · exact .inl rfl

/-- A text is shown at the end of a run, or the run panics and has shown nothing. -/
theorem showText_spec (text : String) (code : UInt32) (w : W) :
    ∃ after, sys.showText text code w = (code, after) ∧
        view.ChangesOnly w after view.streams ∨
      sys.showText text code w = (panicCode, after) ∧ view.IsSame w after ∧ sys.Refuses := by
  have hok := reliable.print_ok w (bytes text)
  have herror := reliable.print_error w (bytes text)
  refine ⟨(sys.print (bytes text) w).2, ?_⟩
  rw [showText_apply]
  rcases hresult : sys.print (bytes text) w with ⟨message | _, after⟩
  · rw [hresult] at herror
    exact .inr ⟨rfl, herror message rfl, w, bytes text, message, .inl (congrArg (·.1) hresult)⟩
  · rw [hresult] at hok
    exact .inl ⟨rfl, (hok rfl).2⟩

end

/-! ### Jobs -/

/-- Why there is no output for an input file. -/
inductive Fails (sys : System (StateM W)) (before : W) (input : String) (output : Option String)
    (compiles : List Char → Except Failure (List Char) → Prop) : Prop
  | unread {message : String} (failed : (sys.readText input before).1 = .error message)
  | invalid {source : List Char} {failure : Failure}
      (read : (sys.readText input before).1 = .ok source)
      (failed : compiles source (.error failure))
  | undelivered {source text : List Char} {message : String}
      (read : (sys.readText input before).1 = .ok source) (compiled : compiles source (.ok text))
      (failed : (sys.deliver output text (sys.readText input before).2).1 = .error message)

/-- How the run of a job ends. -/
inductive Job.Ends (view : View W) (sys : System (StateM W)) (job : Job) (before : W) :
    UInt32 × W → Prop
  | delivers {source text : List Char} {after : W} (held : view.Holds before job.input source)
      (markup : job.markup? source = some (.ok text))
      (delivered : view.Delivers before after text job.output) : Ends view sys job before (0, after)
  | fails {after : W}
      (why : Fails sys before job.input job.output fun source result =>
        job.markup? source = some result)
      (silent : view.IsSilent before after) : Ends view sys job before (failureCode, after)
  | overflows {source : List Char} {after : W} (markup : job.markup? source = none)
      (silent : view.IsSilent before after) : Ends view sys job before (panicCode, after)
  | refused {after : W} (refuses : sys.Refuses) (silent : view.IsSilent before after) :
      Ends view sys job before (panicCode, after)

section

variable (reliable : view.Reliable sys) {job : Job} {before : W}

include reliable

/-- A complaint leaves it open how the run of a job ends. -/
theorem Job.Ends.complain {next : StateM W UInt32}
    (hnext : ∀ after, view.IsSilent before after → job.Ends view sys before (next after))
    {w : W} (hw : view.IsSilent before w) (text : String) :
    job.Ends view sys before (sys.complain text next w) := by
  obtain ⟨after, hsilent, hgoes | ⟨hpanics, hrefuses⟩⟩ := complain_spec reliable text next w
  · rw [hgoes]
    exact hnext after (hw.trans hsilent)
  · rw [hpanics]
    exact .refused hrefuses (hw.trans hsilent)

theorem Job.run_ends (job : Job) (before : W) : job.Ends view sys before (job.run sys before) := by
  unfold run
  simp only [bind, StateT.bind]
  rcases hread : sys.readText job.input before with ⟨message | source, w⟩
  all_goals obtain ⟨hsame, hheld⟩ := readText_spec reliable hread
  · have why : Fails sys before job.input job.output fun source result =>
        job.markup? source = some result := .unread (congrArg (·.1) hread)
    exact Ends.complain reliable (fun after => .fails why) hsame.isSilent _
  · have hsource : (sys.readText job.input before).1 = .ok source := congrArg (·.1) hread
    dsimp only
    cases hmarkup : job.markup? source with
    | none => exact .overflows hmarkup hsame.isSilent
    | some result =>
      cases result with
      | error failure =>
        exact Ends.complain reliable (fun after hafter =>
          Ends.complain reliable (fun after => .fails (.invalid hsource hmarkup)) hafter _)
          hsame.isSilent _
      | ok text =>
        simp only [StateT.bind]
        rcases hdeliver : sys.deliver job.output text w with ⟨message | _, after⟩
        all_goals obtain ⟨hok, herror⟩ := deliver_spec reliable hdeliver
        · have why : Fails sys before job.input job.output fun source result =>
              job.markup? source = some result := by
            have hfailed : (sys.deliver job.output text
                (sys.readText job.input before).2).1 = .error message := by
              rw [hread]
              exact congrArg (·.1) hdeliver
            exact .undelivered hsource hmarkup hfailed
          exact Ends.complain reliable (fun after => .fails why)
            (hsame.isSilent.trans (herror message rfl).isSilent) _
        · exact .delivers (hheld source rfl) hmarkup ((hok rfl).of_same hsame)

end

/-! ### Outcomes -/

/-- What the arguments behind the name of a program are as words. -/
def HasWords (vector : List (List UInt8)) (words : List String) : Prop :=
  ∃ program texts, vector.mapM Text.decode? = some (program :: texts) ∧
    words = texts.map String.ofList

theorem HasWords.unique {vector : List (List UInt8)} {words other : List String}
    (h : HasWords vector words) (hother : HasWords vector other) : other = words := by
  obtain ⟨program, texts, hvector, rfl⟩ := h
  obtain ⟨_, _, hvector', rfl⟩ := hother
  rw [hvector] at hvector'
  cases hvector'
  rfl

/-- Why a program panics. -/
inductive Panics (sys : System (StateM W)) (vector : List (List UInt8)) : Prop
  | unnamed (empty : vector = [])
  | notText {argument : List UInt8} (given : argument ∈ vector)
      (wrong : Text.decode? argument = none)
  /-- The indentation is too long for memory. -/
  | overflows {words : List String} {args : Arguments} {count : Nat} (text : HasWords vector words)
      (given : args.AreGiven words) (request : args.IsRequest) (spaces : args.GivesSpaces count)
      (large : 2 ^ 62 ≤ count)
  | refused (refuses : sys.Refuses)

theorem exists_of_mapM_eq_none {α β : Type} {f : α → Option β} {xs : List α}
    (h : xs.mapM f = none) : ∃ x ∈ xs, f x = none := by
  by_contra hsome
  have hall : ∀ x ∈ xs, (f x).isSome := fun x hx =>
    Option.isSome_iff_ne_none.2 fun hnone => hsome ⟨x, hx, hnone⟩
  induction xs with
  | nil => cases h
  | cons x xs ih =>
    obtain ⟨y, hy⟩ := Option.isSome_iff_exists.1 (hall x List.mem_cons_self)
    have hrest : ∀ x' ∈ xs, (f x').isSome := fun x' hx' => hall x' (List.mem_cons_of_mem x hx')
    rw [List.mapM_cons, hy] at h
    cases htail : xs.mapM f with
    | none => exact ih htail (fun ⟨x', hx', hnone⟩ => by simpa [hnone] using hrest x' hx') hrest
    | some ys =>
      rw [htail] at h
      cases h

theorem eq_nil_of_mapM_eq_some_nil {α β : Type} {f : α → Option β} {xs : List α}
    (h : xs.mapM f = some []) : xs = [] := by
  cases xs with
  | nil => rfl
  | cons x xs =>
    rw [List.mapM_cons] at h
    cases hx : f x <;> cases htail : xs.mapM f <;> rw [hx, htail] at h <;> cases h

/-- What a run comes to: nothing, or all that is asked for. -/
structure AllOrNothing (view : View W) (sys : System (StateM W)) (vector : List (List UInt8))
    (before : W) (result : UInt32 × W) : Prop where
  code : result.1 = 0 ∨ result.1 = 1 ∨ result.1 = 64 ∨ result.1 = 101
  /-- A run that does not succeed changes no file, apart from what the standard streams lead to. -/
  kept : result.1 ≠ 0 → view.ChangesOnly before result.2 view.streams
  /-- A run that fails or panics prints nothing. -/
  unprinted : result.1 = 1 ∨ result.1 = 101 → view.printed result.2 = view.printed before
  fails : result.1 = 1 → ∃ (words : List String) (args : Arguments) (input : String),
    HasWords vector words ∧ args.AreGiven words ∧ args.free = [input] ∧
      Fails sys before input (args.value? .output) args.Compiles
  unfit : result.1 = 64 → ∃ words, HasWords vector words ∧
    ∀ args : Arguments, args.AreGiven words → args.has .help = false ∧ ¬args.IsRequest
  panics : result.1 = 101 → Panics sys vector
  /-- A compilation that succeeds gives the whole markup that is asked for, and changes nothing
  else. -/
  delivers : ∀ (words : List String) (args : Arguments), HasWords vector words →
    args.AreGiven words → args.has .help = false → result.1 = 0 →
      ∃ input source text, args.free = [input] ∧ view.Holds before input source ∧
        args.Compiles source (.ok text) ∧
        view.Delivers before result.2 text (args.value? .output)

section

variable {vector : List (List UInt8)} {before after : W}

theorem AllOrNothing.of_panics (why : Panics sys vector) (silent : view.IsSilent before after) :
    AllOrNothing view sys vector before (panicCode, after) where
  code := .inr (.inr (.inr rfl))
  kept _ := silent.kept
  unprinted _ := silent.unprinted
  fails := nofun
  unfit := nofun
  panics _ := why
  delivers _ _ _ _ _ := nofun

theorem Fails.serves {job : Job} {args : Arguments} (serves : job.Serves args)
    (h : Fails sys before job.input job.output fun source result =>
      job.markup? source = some result) :
    Fails sys before job.input (args.value? .output) args.Compiles := by
  rw [serves.output]
  cases h with
  | unread failed => exact .unread failed
  | invalid read failed => exact .invalid read (serves.markup _ _ failed)
  | undelivered read compiled failed =>
    exact .undelivered read (serves.markup _ _ compiled) failed

variable {words : List String} (hwords : HasWords vector words)

include hwords

theorem AllOrNothing.of_unfit
    (unfit : ∀ args : Arguments, args.AreGiven words → args.has .help = false ∧ ¬args.IsRequest)
    (kept : view.ChangesOnly before after view.streams) :
    AllOrNothing view sys vector before (usageCode, after) where
  code := .inr (.inr (.inl rfl))
  kept _ := kept
  unprinted := nofun
  fails := nofun
  unfit _ := ⟨words, hwords, unfit⟩
  panics := nofun
  delivers _ _ _ _ _ := nofun

variable {parser : OptionParser} (documented : parser.Documented) {args : Arguments}
  (given : args.AreGiven words)

include documented given

theorem AllOrNothing.of_help (help : args.has .help) :
    AllOrNothing view sys vector before (0, after) where
  code := .inl rfl
  kept := nofun
  unprinted := nofun
  fails := nofun
  unfit := nofun
  panics := nofun
  delivers other otherArgs hother hgiven hhelp _ := by
    rw [hwords.unique hother] at hgiven
    rw [given.unique documented hgiven, help] at hhelp
    cases hhelp

theorem AllOrNothing.of_ends {job : Job} (request : args.IsRequest) (serves : job.Serves args)
    {result : UInt32 × W} (h : job.Ends view sys before result) :
    AllOrNothing view sys vector before result := by
  cases h with
  | @delivers source text after held markup delivered =>
    refine ⟨.inl rfl, nofun, nofun, nofun, nofun, nofun, ?_⟩
    intro other otherArgs hother hgiven _ _
    rw [hwords.unique hother] at hgiven
    rw [given.unique documented hgiven, serves.output]
    exact ⟨job.input, source, text, serves.input, held, serves.markup _ _ markup, delivered⟩
  | fails why silent =>
    exact ⟨.inr (.inl rfl), fun _ => silent.kept, fun _ => silent.unprinted,
      fun _ => ⟨words, args, job.input, hwords, given, serves.input, why.serves serves⟩, nofun,
      nofun, fun _ _ _ _ _ => nofun⟩
  | overflows markup silent =>
    obtain ⟨count, spaces, large⟩ := serves.overflow _ markup
    exact .of_panics (.overflows hwords given request spaces large) silent
  | refused refuses silent => exact .of_panics (.refused refuses) silent

end

end

/-! ### A directory without directories -/

/-- Files by their names, and what has been written to the standard streams. -/
structure Flat where
  files : String → Option (List UInt8)
  out : List UInt8 := []
  err : List UInt8 := []

namespace Flat

def view : View Flat where
  File := String
  content? w := w.files
  named? _ name := some name
  printed w := w.out
  streams := []

/-- A system that fails only where there is no file to read. -/
def system : System (StateM Flat) where
  read name w :=
    match w.files name with
    | some found => (.ok found, w)
    | none => (.error "No such file or directory (os error 2)", w)
  write name bytes w := (.ok (), { w with files := Function.update w.files name (some bytes) })
  print bytes w := (.ok (), { w with out := w.out ++ bytes })
  report bytes w := (.ok (), { w with err := w.err ++ bytes })

theorem reliable_system : view.Reliable system where
  read w name := by
    simp only [system]
    cases w.files name <;> exact ⟨fun _ _ => rfl, rfl⟩
  read_ok w name found h := by
    refine ⟨name, rfl, ?_⟩
    simp only [system] at h
    show w.files name = some found
    cases hfound : w.files name with
    | none =>
      rw [hfound] at h
      cases h
    | some other =>
      rw [hfound] at h
      cases h
      rfl
  write_ok w name bytes _ := by
    refine ⟨rfl, name, rfl, Function.update_self name _ w.files, fun other hother => ?_⟩
    have hne : @Ne String other name := fun h => hother (List.mem_singleton.2 h)
    exact Function.update_of_ne hne (some bytes) w.files
  write_error _ _ _ _ := nofun
  print_ok _ _ _ := ⟨rfl, fun _ _ => rfl⟩
  print_error _ _ _ := nofun
  report _ _ := ⟨fun _ _ => rfl, rfl⟩

/-- Two files. -/
def sample : Flat where
  files
    | "in" => some (bytes "&a<b")
    | "out" => some [0]
    | _ => none

end Flat

/-! ### Runs -/

end CollationRules.CommandLine
