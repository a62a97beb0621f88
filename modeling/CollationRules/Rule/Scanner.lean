import CollationRules.Rule.Draft

/-! The scanner, which divides a rule string into tokens. A token begins at an operator and ends
before the next one. -/

namespace CollationRules

/-- What one scan has found, and where it has come to. -/
structure Scan where
  /-- The token, or what is wrong and at which byte offset. -/
  found : Except (SyntaxCause × Nat) Token
  offset : Nat
  rest : List Char

/-- Scan on from a byte offset until the token ends. -/
def Draft.scan (first : Bool) (d : Draft) (offset : Nat) : List Char → Scan
  | [] =>
    match d.unfinished? with
    | some fault => ⟨.error fault, offset, []⟩
    | none => ⟨.ok (d.finish offset), offset, []⟩
  | c :: rest =>
    match d.step first offset c with
    | .take next => next.scan first (offset + c.utf8Size) rest
    | .stop last => ⟨.ok (last.finish offset), offset, c :: rest⟩
    | .fail cause => ⟨.error (cause, offset), offset, c :: rest⟩

/-- A place in a rule string from which the next token is scanned. -/
structure Scanner where
  source : List Char
  rest : List Char
  offset : Nat := 0
  /-- Whether no token has been asked for. -/
  first : Bool := true
deriving Repr

namespace Scanner

/-- The scanner at the start of a rule string. -/
def ofSource (source : List Char) : Scanner := { source, rest := source }

/-- The next token or an error, and the scanner after it. The scanner stays at a character that is
an error. -/
def next (s : Scanner) : Except SyntaxError Token × Scanner :=
  let scan := Draft.scan s.first {} s.offset s.rest
  (scan.found.mapError fun (cause, offset) => SyntaxError.locate cause s.source offset,
    { s with rest := scan.rest, offset := scan.offset, first := false })

end Scanner

theorem Draft.scan_rest_length (first : Bool) (d : Draft) (offset : Nat) (input : List Char) :
    (d.scan first offset input).rest.length ≤ input.length := by
  induction input generalizing d offset with
  | nil => simp only [scan]; split <;> simp
  | cons c rest ih =>
    simp only [scan]
    split
    · exact Nat.le_succ_of_le (ih _ _)
    · simp
    · simp

/-- A character before any operator never ends a token, save for the implicit reset. -/
theorem Draft.stepPlain_ne_stop {d last : Draft} {offset : Nat} {c : Char} (hd : d.kind = none) :
    d.stepPlain false offset c ≠ .stop last := by
  unfold stepPlain stepOutside
  simp only [hd, Option.isNone_none, if_true, Bool.false_and, Bool.false_eq_true, if_false]
  repeat' split
  all_goals simp

/-- What is left to scan, with one more for the implicit reset. -/
def Scanner.work (s : Scanner) : Nat := s.rest.length + s.first.toNat

/-- A token other than the end of the rules takes something away from the work. -/
theorem Scanner.work_next_lt {s : Scanner} {token : Token} (h : s.next.1 = .ok token)
    (ht : token.isFinish = false) : s.next.2.work < s.work := by
  have hle := Draft.scan_rest_length s.first {} s.offset s.rest
  cases hf : s.first with
  | true => rw [hf] at hle; simp [work, next, hf]; omega
  | false =>
    cases hr : s.rest with
    | nil =>
      have hd : ({} : Draft).scan false s.offset [] =
          ⟨.ok (({} : Draft).finish s.offset), s.offset, []⟩ := rfl
      simp only [next, hf, hr, hd] at h
      rw [← Except.ok.inj h] at ht
      simp [Draft.finish, Token.finish, Token.isFinish] at ht
    | cons c rest =>
      simp only [work, next, hf, hr, Draft.scan, Draft.step] at h ⊢
      split at h
      · rename_i d' _
        have := Draft.scan_rest_length false d' (s.offset + c.utf8Size) rest
        simp only [List.length_cons]
        omega
      · rename_i last hd
        exact absurd hd (Draft.stepPlain_ne_stop rfl)
      · cases h

/-- The answers of a scanner asked again and again, each with the scanner after it, up to the end
of the rules or the first error. -/
def Scanner.answers (s : Scanner) : List (Except SyntaxError Token × Scanner) :=
  match _h : s.next.1 with
  | .error e => [(.error e, s.next.2)]
  | .ok token =>
    if _ht : token.isFinish then [(.ok token, s.next.2)]
    else (.ok token, s.next.2) :: s.next.2.answers
termination_by s.work
decreasing_by exact Scanner.work_next_lt _h (by simpa using _ht)

/-- The first `count` answers of a scanner, errors and the end of the rules not excepted. -/
def Scanner.ask (s : Scanner) : Nat → List (Except SyntaxError Token × Scanner)
  | 0 => []
  | count + 1 => s.next :: s.next.2.ask count

/-- The token in an answer, unless it is the end of the rules. -/
def answeredToken? : Except SyntaxError Token → Option Token
  | .ok token => if token.isFinish then none else some token
  | .error _ => none

/-- The error in an answer. -/
def answeredError? : Except SyntaxError Token → Option SyntaxError
  | .ok _ => none
  | .error e => some e

/-- A scanner that is asked for tokens until it has found an error. -/
structure TokenStream where
  scanner : Scanner
  /-- Whether an error has been found. -/
  failed : Bool := false
deriving Repr

namespace TokenStream

/-- The stream of a rule string. -/
def ofSource (source : List Char) : TokenStream := { scanner := .ofSource source }

/-- The next token or the first error, and the stream after it. Nothing is given at the end of the
rules or after an error. -/
def next (t : TokenStream) : Option (Except SyntaxError Token) × TokenStream :=
  if t.failed then (none, t)
  else
    match t.scanner.next with
    | (.ok token, scanner) =>
      (if token.isFinish then none else some (.ok token), { t with scanner })
    | (.error e, scanner) => (some (.error e), ⟨scanner, true⟩)

/-- What a stream gives after it has been asked some number of times. -/
def item? (t : TokenStream) : Nat → Option (Except SyntaxError Token)
  | 0 => t.next.1
  | count + 1 => t.next.2.item? count

end TokenStream

/-- The tokens of a rule string, up to its end or the first error. -/
def tokens (source : List Char) : List Token :=
  (Scanner.ofSource source).answers.filterMap fun answer => answeredToken? answer.1

/-- The first error in the syntax of a rule string. -/
def syntaxError? (source : List Char) : Option SyntaxError :=
  (Scanner.ofSource source).answers.findSome? fun answer => answeredError? answer.1

end CollationRules
