import CollationRules.Proofs.Rule.Opening

/-! What a scan takes. A scan takes characters one after the other until one of them ends the token
or is an error, or until none is left, and what holds of a token is shown for one character at a
time. -/

namespace CollationRules

open Text (byteLength)

namespace Draft

/-! ### Steps -/

/-- The draft that a character leaves, unless it is an error. -/
def Step.draft? : Step → Option Draft
  | take d | stop d => some d
  | fail _ => none

/-- Where a token starts is settled once. -/
theorem step_start {first : Bool} {d next : Draft} {offset start : Nat} {c : Char}
    (h : (d.step first offset c).draft? = some next) (hstart : d.start = some start) :
    next.start = some start := by
  have hbegun : some (d.start.getD offset) = some start := by
    rw [hstart]
    rfl
  have houtcome := d.outcome_step first offset c
  generalize d.step first offset c = step at h houtcome
  cases houtcome with
  | skipped | quoted =>
    cases h
    exact hstart
  | implied | begun | aside | exclamation | ended | inside =>
    cases h
    exact hbegun
  | strengthened =>
    cases h
    unfold strengthen
    split <;> exact hstart
  | failed => cases h

theorem step_fresh_skipped {c : Char} (h : isSkipped c) (first : Bool) (offset : Nat) :
    ({} : Draft).step first offset c = .take {} := by
  simp [step, stepPlain, h]

theorem step_fresh_start {first : Bool} {next : Draft} {offset : Nat} {c : Char}
    (hc : isSkipped c = false) (h : (({} : Draft).step first offset c).draft? = some next) :
    next.start = some offset := by
  have houtcome := ({} : Draft).outcome_step first offset c
  generalize ({} : Draft).step first offset c = step at h houtcome
  cases houtcome with
  | skipped _ skip =>
    rw [hc] at skip
    cases skip
  | implied | begun | aside | exclamation | ended | inside =>
    cases h
    rfl
  | strengthened angled => cases angled
  | quoted marked => cases marked
  | failed => cases h

/-- A character that ends a token leaves nothing open in it and changes neither its kind nor its
text. Only where the token has no kind yet it is made the implicit reset, by a relation. -/
theorem step_stop_cases {first : Bool} {d last : Draft} {offset : Nat} {c : Char}
    (h : d.step first offset c = .stop last) :
    d.unfinished? = none ∧
      (last.lexeme? = d.lexeme? ∨
        (d.kind = none ∧ first ∧ (∃ strength, operator? c = some (.relation strength)) ∧
          last.kind = some .reset ∧ last.text = d.text ++ implicitReset.toArray)) := by
  have houtcome := d.outcome_step first offset c
  rw [h] at houtcome
  cases houtcome with
  | implied closed fresh isFirst operator =>
    exact ⟨closed, .inr ⟨fresh, isFirst, ⟨_, operator⟩, rfl, rfl⟩⟩
  | ended closed => exact ⟨closed, .inl rfl⟩

/-- After an operator a character can change the kind of a token only to that of a relation. -/
theorem step_take_cases {first : Bool} {d next : Draft} {offset : Nat} {c : Char}
    (h : d.step first offset c = .take next) (hkind : d.kind.isSome) :
    next.kind = d.kind ∨ ∃ strength, next.kind = some (.relation strength) := by
  have houtcome := d.outcome_step first offset c
  rw [h] at houtcome
  cases houtcome with
  | skipped | exclamation | inside | quoted => exact .inl rfl
  | begun _ fresh | aside _ fresh =>
    rw [fresh] at hkind
    cases hkind
  | strengthened =>
    unfold strengthen
    split
    · exact .inr ⟨_, rfl⟩
    · exact .inr ⟨_, rfl⟩

/-! ### Scans -/

/-- A draft takes the characters of a text, from a byte offset on, and becomes another. -/
inductive Takes (first : Bool) : Draft → Nat → List Char → Draft → Prop
  | nil (d : Draft) (offset : Nat) : Takes first d offset [] d
  | cons {d next last : Draft} {offset : Nat} {c : Char} {text : List Char}
      (step : d.step first offset c = .take next)
      (rest : Takes first next (offset + c.utf8Size) text last) :
      Takes first d offset (c :: text) last

/-- How a scan ends at a byte offset, with a draft that takes no more of what is left. -/
inductive Ends (first : Bool) (last : Draft) (offset : Nat) : List Char → Scan → Prop
  | finished (closed : last.unfinished? = none) :
      Ends first last offset [] ⟨.ok (last.finish offset), offset, []⟩
  | unfinished {fault : SyntaxCause × Nat} (unclosed : last.unfinished? = some fault) :
      Ends first last offset [] ⟨.error fault, offset, []⟩
  | stopped {final : Draft} {c : Char} {rest : List Char}
      (stop : last.step first offset c = .stop final) :
      Ends first last offset (c :: rest) ⟨.ok (final.finish offset), offset, c :: rest⟩
  | failed {cause : SyntaxCause} {c : Char} {rest : List Char}
      (fail : last.step first offset c = .fail cause) :
      Ends first last offset (c :: rest) ⟨.error (cause, offset), offset, c :: rest⟩

/-- All that a scan can do. -/
theorem scan_cases (first : Bool) (d : Draft) (offset : Nat) (input : List Char) :
    ∃ taken rest last, input = taken ++ rest ∧ Takes first d offset taken last ∧
      Ends first last (offset + byteLength taken) rest (d.scan first offset input) := by
  induction input generalizing d offset with
  | nil =>
    refine ⟨[], [], d, rfl, .nil d offset, ?_⟩
    unfold scan
    cases hfault : d.unfinished? with
    | none => exact .finished hfault
    | some fault => exact .unfinished hfault
  | cons c input ih =>
    unfold scan
    cases hstep : d.step first offset c with
    | take next =>
      obtain ⟨taken, rest, last, rfl, htakes, hends⟩ := ih next (offset + c.utf8Size)
      refine ⟨c :: taken, rest, last, rfl, .cons hstep htakes, ?_⟩
      rwa [Text.byteLength_cons, ← Nat.add_assoc]
    | stop final => exact ⟨[], c :: input, d, rfl, .nil d offset, .stopped hstep⟩
    | fail cause => exact ⟨[], c :: input, d, rfl, .nil d offset, .failed hstep⟩

section Takes

variable {first : Bool} {d last : Draft} {offset : Nat} {text : List Char}

theorem Takes.start (h : Takes first d offset text last) {start : Nat}
    (hstart : d.start = some start) : last.start = some start := by
  induction h with
  | nil => exact hstart
  | cons step _ ih => exact ih (step_start (congrArg Step.draft? step) hstart)

/-- Characters that are skipped, and the part of a token that a draft has taken after them. -/
structure Begins (first : Bool) (offset : Nat) (lead piece : List Char) (last : Draft) : Prop where
  skipped : ∀ c ∈ lead, isSkipped c
  begun : ∀ c ∈ piece.head?, isSkipped c = false
  takes : Takes first {} (offset + byteLength lead) piece last
  start : piece ≠ [] → last.start = some (offset + byteLength lead)

/-- A token starts at the first character that is not skipped, and before that it is nothing. -/
theorem Takes.exists_piece (h : Takes first {} offset text last) :
    ∃ lead piece, text = lead ++ piece ∧ Begins first offset lead piece last := by
  induction text generalizing offset with
  | nil => exact ⟨[], [], rfl, nofun, nofun, h, fun hne => absurd rfl hne⟩
  | cons c text ih =>
    cases hc : isSkipped c with
    | true =>
      cases h with
      | cons step rest =>
        rw [step_fresh_skipped hc] at step
        cases step
        obtain ⟨lead, piece, rfl, hlead, hpiece, htakes, hstart⟩ := ih rest
        rw [Nat.add_assoc] at htakes hstart
        exact ⟨c :: lead, piece, rfl, List.forall_mem_cons.2 ⟨hc, hlead⟩, hpiece, htakes, hstart⟩
    | false =>
      refine ⟨[], c :: text, rfl, nofun, by simpa using hc, h, fun _ => ?_⟩
      cases h with
      | cons step rest => exact rest.start (step_fresh_start hc (congrArg Step.draft? step))

theorem Takes.kind_isSome (h : Takes first d offset text last) (hkind : d.kind.isSome) :
    last.kind.isSome := by
  induction h with
  | nil => exact hkind
  | cons step _ ih =>
    refine ih ?_
    rcases step_take_cases step hkind with hsame | ⟨strength, hsome⟩
    · rwa [hsame]
    · rw [hsome]
      rfl

theorem Takes.isRelation (h : Takes first d offset text last)
    (hkind : ∃ strength, d.kind = some (.relation strength)) :
    ∃ strength, last.kind = some (.relation strength) := by
  induction h with
  | nil => exact hkind
  | cons step _ ih =>
    refine ih ?_
    obtain ⟨strength, hstrength⟩ := hkind
    rcases step_take_cases step (by rw [hstrength]; rfl) with hsame | hrelation
    · exact ⟨strength, hsame.trans hstrength⟩
    · exact hrelation

/-- What is taken is read by a pass. -/
theorem Takes.read (h : Takes first d offset text last) (found : List Lexeme) :
    (⟨first, found, d.unplaced, none⟩ : Pass).read text = ⟨first, found, last.unplaced, none⟩ := by
  induction h with
  | nil => rfl
  | cons step _ ih => rw [Pass.read_cons, Pass.step_take first found step, ih]

end Takes

end Draft

namespace Scanner

variable {s : Scanner}

/-- What a call takes of a rule string. -/
theorem exists_taken (s : Scanner) :
    ∃ taken last, s.rest = taken ++ s.next.2.rest ∧
      s.next.2.offset = s.offset + byteLength taken ∧
      Draft.Takes s.first {} s.offset taken last := by
  obtain ⟨taken, rest, last, hinput, htakes, hends⟩ :=
    Draft.scan_cases s.first {} s.offset s.rest
  refine ⟨taken, last, ?_⟩
  simp only [next]
  rw [hinput] at hends ⊢
  generalize ({} : Draft).scan s.first s.offset (taken ++ rest) = scan at hends
  cases hends <;> exact ⟨rfl, rfl, htakes⟩

theorem found_of_ok {token : Token} (h : s.next.1 = .ok token) :
    (({} : Draft).scan s.first s.offset s.rest).found = .ok token := by
  rw [next] at h
  cases hfound : (({} : Draft).scan s.first s.offset s.rest).found with
  | error fault =>
    rw [hfound] at h
    cases h
  | ok found =>
    rw [hfound] at h
    cases h
    rfl

theorem exists_found_of_error {e : SyntaxError} (h : s.next.1 = .error e) :
    ∃ cause place, (({} : Draft).scan s.first s.offset s.rest).found = .error (cause, place) ∧
      SyntaxError.locate cause s.source place = e := by
  rw [next] at h
  cases hfound : (({} : Draft).scan s.first s.offset s.rest).found with
  | error fault =>
    rw [hfound] at h
    exact ⟨_, _, rfl, Except.error.inj h⟩
  | ok found =>
    rw [hfound] at h
    cases h

end Scanner
end CollationRules
