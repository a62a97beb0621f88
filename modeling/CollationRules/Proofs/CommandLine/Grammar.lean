import CollationRules.CommandLine.Parsing
import CollationRules.Proofs.Rule.Decoding

/-! The grammar of the words of a command line, and a parser that reads it. -/

namespace CollationRules.CommandLine

/-! ### Words -/

/-- The names that an option has behind two dashes: its word, and its letter. -/
def Flag.IsNamed (flag : Flag) (name : List Char) : Prop :=
  name = flag.word.toList ∨ ∃ c, flag.letter? = some c ∧ name = [c]

/-- A cluster of letters, with the options that it gives and the one whose value is in the next
word. A letter whose option takes a value takes what follows it. -/
inductive Cluster : List Char → List (Flag × Option String) → Option Flag → Prop
  | nil : Cluster [] [] none
  | switch {flag : Flag} {c : Char} {letters : List Char} {given : List (Flag × Option String)}
      {pending : Option Flag} (letter : flag.letter? = some c) (alone : flag.hint? = none)
      (rest : Cluster letters given pending) :
      Cluster (c :: letters) ((flag, none) :: given) pending
  | attached {flag : Flag} {c : Char} {value : List Char} (letter : flag.letter? = some c)
      (valued : flag.hint? ≠ none) (nonempty : value ≠ []) :
      Cluster (c :: value) [(flag, some (String.ofList value))] none
  | detached {flag : Flag} {c : Char} (letter : flag.letter? = some c)
      (valued : flag.hint? ≠ none) : Cluster [c] [] (some flag)

/-- What stands behind the first dash of a word, with the options that it gives and the one whose
value is in the next word. -/
inductive Asks : List Char → List (Flag × Option String) → Option Flag → Prop
  | word {flag : Flag} {name : List Char} (named : flag.IsNamed name) (alone : flag.hint? = none) :
      Asks ('-' :: name) [(flag, none)] none
  | attached {flag : Flag} {name : List Char} (named : flag.IsNamed name)
      (valued : flag.hint? ≠ none) (value : List Char) :
      Asks ('-' :: (name ++ '=' :: value)) [(flag, some (String.ofList value))] none
  | detached {flag : Flag} {name : List Char} (named : flag.IsNamed name)
      (valued : flag.hint? ≠ none) : Asks ('-' :: name) [] (some flag)
  | letters {letters : List Char} {given : List (Flag × Option String)} {pending : Option Flag}
      (cluster : Cluster letters given pending) (nonempty : letters ≠ []) :
      Asks letters given pending

/-- Words and the arguments that they give. -/
inductive Spells : List String → Arguments → Prop
  | nil : Spells [] {}
  /-- Two dashes alone end the options. -/
  | stop (free : List String) : Spells ("--" :: free) { free }
  | free {word : String} {words : List String} {args : Arguments}
      (plain : word.toList.head? ≠ some '-' ∨ word = "-") (rest : Spells words args) :
      Spells (word :: words) { args with free := word :: args.free }
  | options {text : List Char} {given : List (Flag × Option String)} {words : List String}
      {args : Arguments} (asks : Asks text given none) (rest : Spells words args) :
      Spells (String.ofList ('-' :: text) :: words) (args.give given)
  | valued {text : List Char} {given : List (Flag × Option String)} {flag : Flag} {value : String}
      {words : List String} {args : Arguments} (asks : Asks text given (some flag))
      (rest : Spells words args) :
      Spells (String.ofList ('-' :: text) :: value :: words)
        (args.give (given ++ [(flag, some value)]))

/-- Words that give arguments, no option twice. -/
structure Arguments.AreGiven (args : Arguments) (words : List String) : Prop where
  spelled : Spells words args
  once : ∀ flag, args.count flag ≤ 1

/-- What is documented of a parser: it accepts the words that are in the grammar and give no option
twice, and reads them as the grammar does. -/
def OptionParser.Documented (parser : OptionParser) : Prop :=
  ∀ words args, parser.parse words = .ok args ↔ args.AreGiven words

/-! ### Letters and names -/

theorem Flag.ofLetter?_eq_some_iff {c : Char} {flag : Flag} :
    ofLetter? c = some flag ↔ flag.letter? = some c := by
  constructor
  · intro h
    simpa using List.find?_some h
  · intro h
    cases flag <;> cases h <;> rfl

theorem Flag.ofWord?_eq_some_iff {name : List Char} {flag : Flag} :
    ofWord? name = some flag ↔ flag.IsNamed name := by
  unfold ofWord? IsNamed
  split
  · rename_i c
    have hword : [c] ≠ flag.word.toList := by
      intro h
      have hlength := congrArg List.length h
      cases flag <;> cases hlength
    rw [ofLetter?_eq_some_iff]
    simp [hword]
  · rename_i hname
    have hletter : ∀ c, name ≠ [c] := hname
    constructor
    · intro h
      have hword := List.find?_some h
      exact .inl (beq_iff_eq.1 hword).symm
    · rintro (rfl | ⟨c, -, h⟩)
      · cases flag <;> rfl
      · exact absurd h (hletter c)

/-- No letter is a dash. -/
theorem Flag.letter?_ne_dash {flag : Flag} {c : Char} (h : flag.letter? = some c) : c ≠ '-' := by
  cases flag <;> cases h <;> decide

theorem Flag.IsNamed.no_equals {flag : Flag} {name : List Char} (h : flag.IsNamed name) :
    ∀ c ∈ name, (c != '=') = true := by
  refine List.all_eq_true.1 ?_
  rcases h with rfl | ⟨c, hletter, rfl⟩
  · cases flag <;> rfl
  · cases flag <;> cases hletter <;> rfl

theorem Flag.IsNamed.ne_nil {flag : Flag} {name : List Char} (h : flag.IsNamed name) :
    name ≠ [] := by
  rcases h with rfl | ⟨c, -, rfl⟩
  · cases flag <;> decide
  · exact List.cons_ne_nil c []

/-- No cluster begins with a dash. -/
theorem Cluster.ne_dash {c : Char} {rest : List Char} {given : List (Flag × Option String)}
    {pending : Option Flag} (h : Cluster (c :: rest) given pending) : c ≠ '-' := by
  cases h with
  | switch letter alone rest => exact Flag.letter?_ne_dash letter
  | attached letter valued nonempty => exact Flag.letter?_ne_dash letter
  | detached letter valued => exact Flag.letter?_ne_dash letter

/-! ### Requests -/

/-- A word is read as what it asks for. -/
def Request.Reads (result : Except UsageError Request) (given : List (Flag × Option String))
    (pending : Option Flag) : Prop :=
  ∃ request, result = .ok request ∧ request.given = given ∧ request.pending.map (·.1) = pending

namespace Request

variable {given : List (Flag × Option String)} {pending : Option Flag}

theorem cluster_of_ofLetters {letters : List Char} {request : Request}
    (h : ofLetters letters = .ok request) :
    Cluster letters request.given (request.pending.map (·.1)) := by
  induction letters generalizing request with
  | nil =>
    cases h
    exact .nil
  | cons c rest ih =>
    unfold ofLetters at h
    split at h
    · cases h
    · rename_i flag hflag
      have hletter := Flag.ofLetter?_eq_some_iff.1 hflag
      split at h
      · rename_i halone
        obtain ⟨tail, htail, rfl⟩ := map_eq_ok_iff.1 h
        exact .switch hletter (Option.isNone_iff_eq_none.1 halone) (ih htail)
      · rename_i hvalued
        have hhint : flag.hint? ≠ none := fun h => hvalued (Option.isNone_iff_eq_none.2 h)
        split at h
        · rename_i hrest
          obtain rfl := List.isEmpty_iff.1 hrest
          cases h
          exact .detached hletter hhint
        · rename_i hrest
          cases h
          exact .attached hletter hhint fun h => hrest (List.isEmpty_iff.2 h)

theorem reads_of_cluster {letters : List Char} (h : Cluster letters given pending) :
    Reads (ofLetters letters) given pending := by
  induction h with
  | nil => exact ⟨_, rfl, rfl, rfl⟩
  | switch letter alone rest ih =>
    obtain ⟨request, hread, rfl, rfl⟩ := ih
    rw [ofLetters, Flag.ofLetter?_eq_some_iff.2 letter, hread]
    simp only [alone]
    exact ⟨_, rfl, rfl, rfl⟩
  | attached letter valued nonempty =>
    rw [ofLetters, Flag.ofLetter?_eq_some_iff.2 letter]
    simp only [Option.isNone_iff_eq_none, List.isEmpty_iff, if_neg valued, if_neg nonempty]
    exact ⟨_, rfl, rfl, rfl⟩
  | detached letter valued =>
    rw [ofLetters, Flag.ofLetter?_eq_some_iff.2 letter]
    simp only [Option.isNone_iff_eq_none, if_neg valued]
    exact ⟨_, rfl, rfl, rfl⟩

theorem reads_ofLetters_iff {letters : List Char} :
    Reads (ofLetters letters) given pending ↔ Cluster letters given pending := by
  constructor
  · rintro ⟨request, hread, rfl, rfl⟩
    exact cluster_of_ofLetters hread
  · exact reads_of_cluster

/-- A word is read as a name up to its first equals sign. -/
theorem split_name {flag : Flag} {name : List Char} (named : flag.IsNamed name) (text : List Char)
    (hstop : ∀ c, text.head? = some c → (c != '=') = false) :
    (name ++ text).takeWhile (· != '=') = name ∧ (name ++ text).dropWhile (· != '=') = text := by
  rw [List.takeWhile_append_of_pos named.no_equals, List.dropWhile_append_of_pos named.no_equals]
  cases text with
  | nil => exact ⟨List.append_nil name, rfl⟩
  | cons c rest =>
    have hc := hstop c rfl
    rw [List.takeWhile_cons_of_neg (by simp [hc]), List.dropWhile_cons_of_neg (by simp [hc])]
    exact ⟨List.append_nil name, rfl⟩

theorem ofWord_name {flag : Flag} {name : List Char} (named : flag.IsNamed name) :
    ofWord name =
      if flag.hint?.isNone then .ok { given := [(flag, none)] }
      else .ok { given := [], pending := some (flag, String.ofList name) } := by
  have hsplit := split_name named [] nofun
  rw [List.append_nil] at hsplit
  rw [ofWord, hsplit.1, hsplit.2, Flag.ofWord?_eq_some_iff.2 named]

theorem ofWord_equals {flag : Flag} {name : List Char} (named : flag.IsNamed name)
    (value : List Char) :
    ofWord (name ++ '=' :: value) =
      if flag.hint?.isNone then .error (.unexpectedValue (String.ofList name))
      else .ok { given := [(flag, some (String.ofList value))] } := by
  have hsplit := split_name named ('=' :: value) (by simp)
  rw [ofWord, hsplit.1, hsplit.2, Flag.ofWord?_eq_some_iff.2 named]

theorem asks_of_ofWord {text : List Char} {request : Request} (h : ofWord text = .ok request) :
    Asks ('-' :: text) request.given (request.pending.map (·.1)) := by
  have hsplit := List.takeWhile_append_dropWhile (p := (· != '=')) (l := text)
  have hstop := List.head?_dropWhile_not (· != '=') text
  unfold ofWord at h
  dsimp only at h
  split at h
  · cases h
  · rename_i flag hflag hrest
    have named := Flag.ofWord?_eq_some_iff.1 hflag
    rw [hrest, List.append_nil] at hsplit
    rw [hsplit] at named
    split at h
    · rename_i halone
      cases h
      exact .word named (Option.isNone_iff_eq_none.1 halone)
    · rename_i hvalued
      cases h
      exact .detached named fun h => hvalued (Option.isNone_iff_eq_none.2 h)
  · rename_i flag c value hflag hrest
    have named := Flag.ofWord?_eq_some_iff.1 hflag
    rw [hrest] at hsplit hstop
    obtain rfl : c = '=' := by simpa using hstop
    split at h
    · cases h
    · rename_i hvalued
      cases h
      rw [← hsplit]
      exact .attached named (fun h => hvalued (Option.isNone_iff_eq_none.2 h)) value

theorem reads_ofWord_iff {text : List Char} :
    Reads (ofWord text) given pending ↔ Asks ('-' :: text) given pending := by
  constructor
  · rintro ⟨request, hread, rfl, rfl⟩
    exact asks_of_ofWord hread
  · intro h
    -- A cluster of letters does not begin with a dash.
    generalize hword : '-' :: text = word at h
    cases h with
    | word named alone =>
      cases hword
      rw [ofWord_name named]
      exact ⟨_, if_pos (Option.isNone_iff_eq_none.2 alone), rfl, rfl⟩
    | attached named valued value =>
      cases hword
      rw [ofWord_equals named]
      exact ⟨_, if_neg fun h => valued (Option.isNone_iff_eq_none.1 h), rfl, rfl⟩
    | detached named valued =>
      cases hword
      rw [ofWord_name named]
      exact ⟨_, if_neg fun h => valued (Option.isNone_iff_eq_none.1 h), rfl, rfl⟩
    | letters cluster nonempty =>
      rw [← hword] at cluster
      exact absurd rfl cluster.ne_dash

theorem reads_ofOption_iff {text : List Char} :
    Reads (ofOption text) given pending ∧ text ≠ [] ↔ Asks text given pending := by
  unfold ofOption
  split
  · rename_i word
    rw [reads_ofWord_iff]
    exact and_iff_left (List.cons_ne_nil '-' word)
  · rename_i hdash
    rw [reads_ofLetters_iff]
    constructor
    · exact fun ⟨cluster, nonempty⟩ => .letters cluster nonempty
    · intro h
      cases h with
      | letters cluster nonempty => exact ⟨cluster, nonempty⟩
      | _ => exact absurd rfl (hdash _)

end Request

/-! ### Words -/

theorem Asks.ne_nil {text : List Char} {given : List (Flag × Option String)}
    {pending : Option Flag} (h : Asks text given pending) : text ≠ [] ∧ text ≠ ['-'] := by
  cases h with
  | word named alone => exact ⟨nofun, fun h => named.ne_nil (List.cons.inj h).2⟩
  | attached named valued value => simp
  | detached named valued => exact ⟨nofun, fun h => named.ne_nil (List.cons.inj h).2⟩
  | letters cluster nonempty =>
    refine ⟨nonempty, ?_⟩
    rintro rfl
    exact cluster.ne_dash rfl

theorem eq_ofList {word : String} {text : List Char} (h : word.toList = text) :
    word = String.ofList text := by
  rw [← h, String.ofList_toList]

namespace Arguments

/-- An option is read with the words behind it. -/
theorem read_option {text : List Char} (h : text ≠ [] ∧ text ≠ ['-']) (words : List String) :
    read (String.ofList ('-' :: text) :: words) =
      match Request.ofOption text with
      | .error e => .error e
      | .ok ⟨given, none⟩ => (read words).map (·.give given)
      | .ok ⟨given, some (flag, name)⟩ =>
        match words with
        | [] => .error (.missingValue name)
        | value :: rest => (read rest).map (·.give (given ++ [(flag, some value)])) := by
  rw [read, String.toList_ofList]
  cases text with
  | nil => exact absurd rfl h.1
  | cons c letters =>
    split
    · rename_i hdashes
      exact absurd (List.cons.inj hdashes).2 h.2
    · rename_i hword
      cases hword
      rfl
    · rename_i hword
      exact absurd rfl (hword c letters)

theorem read_eq_ok_of_spells {words : List String} {args : Arguments} (h : Spells words args) :
    read words = .ok args := by
  induction h with
  | nil => rfl
  | stop free => rfl
  | @free word words args plain rest ih =>
    rw [read, ih]
    split
    · rename_i hword
      rcases plain with hplain | rfl
      · simp [hword] at hplain
      · cases hword
    · rename_i hword
      rcases plain with hplain | rfl
      · simp [hword] at hplain
      · cases hword
    · rfl
  | @options text given words args asks rest ih =>
    obtain ⟨⟨_, pending⟩, hread, rfl, hpending⟩ := (Request.reads_ofOption_iff.2 asks).1
    obtain rfl := Option.map_eq_none_iff.1 hpending
    rw [read_option asks.ne_nil, hread, ih]
    rfl
  | @valued text given flag value words args asks rest ih =>
    obtain ⟨⟨_, pending⟩, hread, rfl, hpending⟩ := (Request.reads_ofOption_iff.2 asks).1
    obtain ⟨⟨_, name⟩, rfl, rfl⟩ := Option.map_eq_some_iff.1 hpending
    rw [read_option asks.ne_nil, hread]
    simp only [ih]
    rfl

theorem spells_of_read {words : List String} {args : Arguments} (h : read words = .ok args) :
    Spells words args := by
  fun_induction read words generalizing args with
  | case1 =>
    cases h
    exact .nil
  | case2 word rest hword =>
    cases h
    rw [eq_ofList hword]
    exact .stop rest
  | case3 | case5 => cases h
  | case4 word rest c letters _ hword given hread ih =>
    obtain ⟨more, hmore, rfl⟩ := map_eq_ok_iff.1 h
    rw [eq_ofList hword]
    exact .options (Request.reads_ofOption_iff.1 ⟨⟨_, hread, rfl, rfl⟩, nofun⟩) (ih hmore)
  | case6 word c letters _ hword given flag name hread value rest ih =>
    obtain ⟨more, hmore, rfl⟩ := map_eq_ok_iff.1 h
    rw [eq_ofList hword]
    exact .valued (Request.reads_ofOption_iff.1 ⟨⟨_, hread, rfl, rfl⟩, nofun⟩) (ih hmore)
  | case7 word rest _ hword ih =>
    obtain ⟨more, hmore, rfl⟩ := map_eq_ok_iff.1 h
    refine .free ?_ (ih hmore)
    by_cases hdash : word.toList.head? = some '-'
    · obtain ⟨letters, hletters⟩ := List.head?_eq_some_iff.1 hdash
      cases letters with
      | nil => exact .inr (eq_ofList hletters)
      | cons c letters => exact absurd hletters (hword c letters)
    · exact .inl hdash

/-- The parser of the command line does what is documented of it. -/
theorem documented_standard : OptionParser.standard.Documented := by
  intro words args
  have honce : Flag.all.find? (1 < args.count ·) = none ↔ ∀ flag, args.count flag ≤ 1 := by
    rw [List.find?_eq_none]
    constructor
    · intro h flag
      have hflag := h flag (by cases flag <;> decide)
      simpa using hflag
    · exact fun h flag _ => by simpa using h flag
  show parse words = .ok args ↔ _
  rw [parse]
  constructor
  · intro h
    cases hresult : read words with
    | error e =>
      rw [hresult] at h
      cases h
    | ok found =>
      rw [hresult] at h
      dsimp only [bind, Except.bind] at h
      split at h
      · cases h
      · rename_i hnone
        cases h
        exact ⟨spells_of_read hresult, honce.1 hnone⟩
  · rintro ⟨spelled, once⟩
    rw [read_eq_ok_of_spells spelled]
    simp only [bind, Except.bind, honce.2 once]

end Arguments

end CollationRules.CommandLine
