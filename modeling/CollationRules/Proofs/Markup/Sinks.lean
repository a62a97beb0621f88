import CollationRules.Markup.Writer

/-! Sinks of limited room. A piece of markup goes to a sink in parts, and a part in as many calls as
the sink needs to take it. Wherever the room ends, what has arrived is the beginning of what a sink
without a limit gets, and nothing arrives of a piece that is refused. -/

namespace CollationRules.Markup

/-- The parts that are written in front of content to end an open tag. -/
def WriterState.endParts? : WriterState → Option (List (List Char))
  | outside => some []
  | inTag => some [['>']]
  | afterName => none

/-- The parts in which a piece of markup is written, unless it cannot stand where the writer is. -/
def Token.parts? (state : WriterState) : Token → Option (List (List Char))
  | openTag name => state.endParts?.map (· ++ [['<'], name.toList])
  | closeTag name => state.endParts?.map (· ++ [['<', '/'], name.toList, ['>']])
  | closeEmpty => if state = .inTag then some [['/', '>']] else none
  | attributeName name => if state = .inTag then some [[' '], name.toList] else none
  | attributeValue value =>
    if state = .afterName then some [['=', '"'], escapeAttribute value, ['"']] else none
  | characters text => state.endParts?.map (· ++ [escape text])
  | spacing s => state.endParts?.map (· ++ [s.text])

theorem Token.write?_eq (state : WriterState) (token : Token) :
    token.write? state = (token.parts? state).map List.flatten := by
  cases token <;> cases state <;>
    simp [write?, parts?, WriterState.content?, WriterState.endParts?]

/-- How many bytes of a buffer a sink takes in one call: one at least while there is room. -/
structure Intake where
  count : Sink → List UInt8 → Nat
  le_room : ∀ sink buffer, count sink buffer ≤ sink.room
  le_length : ∀ sink buffer, count sink buffer ≤ buffer.length
  pos : ∀ sink buffer, 0 < sink.room → buffer ≠ [] → 0 < count sink buffer

namespace Sink

/-- The sink with as many of some bytes as it has room for, and whether these are all. -/
def fill (sink : Sink) (bytes : List UInt8) : Sink × Bool :=
  (⟨sink.room - bytes.length, sink.bytes ++ bytes.take sink.room⟩, bytes.length ≤ sink.room)

/-- The sink after calls that each take some of a buffer, until nothing is left of it or nothing is
taken, and whether nothing is left. -/
def putAll (intake : Intake) (sink : Sink) (buffer : List UInt8) : Sink × Bool :=
  if _hbuffer : buffer = [] then (sink, true)
  else
    let count := intake.count sink buffer
    if _hcount : count = 0 then (sink, false)
    else
      putAll intake ⟨sink.room - count, sink.bytes ++ buffer.take count⟩ (buffer.drop count)
termination_by buffer.length
decreasing_by
  have hpos := List.length_pos_iff.2 _hbuffer
  rw [List.length_drop]
  omega

/-- The sink after parts of a text, up to one that does not fit, and whether all fit. -/
def putParts (intake : Intake) (sink : Sink) : List (List Char) → Sink × Bool
  | [] => (sink, true)
  | part :: rest =>
    match sink.putAll intake (Text.encode part) with
    | (next, true) => next.putParts intake rest
    | (next, false) => (next, false)

/-- Pieces of markup written in their parts, up to one that is refused or does not fit. -/
def writeParts (intake : Intake) (sink : Sink) (state : WriterState) :
    List Token → Sink × Except WriteError WriterState
  | [] => (sink, .ok state)
  | token :: rest =>
    match token.parts? state with
    | none => (sink, .error (.unexpected token state))
    | some parts =>
      match sink.putParts intake parts with
      | (next, true) => next.writeParts intake token.stateAfter rest
      | (next, false) => (next, .error .full)

/-! ### Parts and calls make no difference -/

section Fill

variable {sink : Sink} {bytes : List UInt8}

theorem fill_of_le (h : bytes.length ≤ sink.room) :
    sink.fill bytes = (⟨sink.room - bytes.length, sink.bytes ++ bytes⟩, true) := by
  rw [fill, List.take_of_length_le h, decide_eq_true h]

theorem fill_of_lt (h : sink.room < bytes.length) :
    sink.fill bytes = (⟨0, sink.bytes ++ bytes.take sink.room⟩, false) := by
  rw [fill, Nat.sub_eq_zero_of_le (Nat.le_of_lt h), decide_eq_false (Nat.not_le.2 h)]

end Fill

theorem fill_nil (sink : Sink) : sink.fill [] = (sink, true) := by
  simp [fill]

theorem fill_append (sink : Sink) (first second : List UInt8) :
    sink.fill (first ++ second) =
      match sink.fill first with
      | (next, true) => next.fill second
      | (next, false) => (next, false) := by
  rcases Nat.lt_or_ge sink.room first.length with hlt | hle
  · have hlt' : sink.room < (first ++ second).length := by
      rw [List.length_append]
      omega
    rw [fill_of_lt hlt, fill_of_lt hlt', List.take_append_of_le_length (Nat.le_of_lt hlt)]
  · have hroom : first.length + second.length ≤ sink.room ↔
        second.length ≤ sink.room - first.length := by omega
    have hbytes : sink.bytes ++ (first ++ second.take (sink.room - first.length)) =
        sink.bytes ++ first ++ second.take (sink.room - first.length) :=
      Array.toList_inj.1 (by simp)
    rw [fill_of_le hle]
    simp only [fill, List.length_append, List.take_append, List.take_of_length_le hle, hbytes,
      hroom, Nat.sub_sub]

theorem putAll_eq (intake : Intake) (sink : Sink) (buffer : List UInt8) :
    sink.putAll intake buffer = sink.fill buffer := by
  induction sink, buffer using putAll.induct intake with
  | case1 sink =>
    rw [putAll, fill_nil]
    simp
  | case2 sink buffer hbuffer count hcount =>
    have hroom : sink.room = 0 := Nat.eq_zero_of_not_pos fun hpos =>
      absurd hcount (Nat.ne_of_gt (intake.pos sink buffer hpos hbuffer))
    have hlt : sink.room < buffer.length := by
      rw [hroom]
      exact List.length_pos_iff.2 hbuffer
    have hfull : sink.fill buffer = (sink, false) := by
      obtain ⟨room, bytes⟩ := sink
      obtain rfl : room = 0 := hroom
      rw [fill_of_lt hlt]
      simp
    rw [putAll, dif_neg hbuffer, hfull]
    exact dif_pos hcount
  | case3 sink buffer hbuffer count hcount ih =>
    have hlength : (buffer.take count).length = count := by
      rw [List.length_take]
      exact Nat.min_eq_left (intake.le_length sink buffer)
    have hfirst : sink.fill (buffer.take count) =
        (⟨sink.room - count, sink.bytes ++ buffer.take count⟩, true) := by
      rw [fill_of_le (by rw [hlength]; exact intake.le_room sink buffer), hlength]
    have happend := fill_append sink (buffer.take count) (buffer.drop count)
    rw [List.take_append_drop, hfirst] at happend
    rw [putAll, dif_neg hbuffer, happend]
    exact (dif_neg hcount).trans ih

theorem put_append (sink : Sink) (first second : List Char) :
    sink.put (first ++ second) =
      match sink.put first with
      | (next, true) => next.put second
      | (next, false) => (next, false) := by
  have h := sink.fill_append (Text.encode first) (Text.encode second)
  rwa [← Text.encode_append] at h

theorem putParts_eq (intake : Intake) (sink : Sink) (parts : List (List Char)) :
    sink.putParts intake parts = sink.put parts.flatten := by
  induction parts generalizing sink with
  | nil => exact sink.fill_nil.symm
  | cons part rest ih =>
    rw [List.flatten_cons, put_append, putParts, putAll_eq]
    show _ = match sink.fill (Text.encode part) with
      | (next, true) => next.put rest.flatten
      | (next, false) => (next, false)
    simp only [ih]

theorem writeParts_eq (intake : Intake) (sink : Sink) (state : WriterState) (pieces : List Token) :
    sink.writeParts intake state pieces = sink.write state pieces := by
  induction pieces generalizing sink state with
  | nil => rfl
  | cons token rest ih =>
    rw [writeParts, write, token.write?_eq]
    cases token.parts? state with
    | none => rfl
    | some parts =>
      simp only [Option.map_some, putParts_eq]
      rcases sink.put parts.flatten with ⟨next, _ | _⟩
      · rfl
      · exact ih next token.stateAfter

/-! ### The room -/

/-- A sink gets as much as it has room for of what is written without a limit. The error that ends
the writing is that of the writer only if all that comes before it fits. -/
theorem write_eq_put (sink : Sink) (state : WriterState) (pieces : List Token) :
    sink.write state pieces =
      ((sink.put (Markup.write state pieces).text).1,
        if (sink.put (Markup.write state pieces).text).2 then (Markup.write state pieces).result
        else .error .full) := by
  induction pieces generalizing sink state with
  | nil =>
    have hput : sink.put [] = (sink, true) := sink.fill_nil
    simp only [write, Markup.write, hput]
    rfl
  | cons token rest ih =>
    cases htoken : token.write? state with
    | none =>
      have hput : sink.put [] = (sink, true) := sink.fill_nil
      simp only [write, Markup.write, htoken, hput]
      rfl
    | some text =>
      simp only [write, Markup.write, htoken, put_append]
      rcases sink.put text with ⟨next, _ | _⟩
      · rfl
      · exact ih next token.stateAfter

end Sink

/-- A piece that stops a writer stops it behind the text of the pieces before. -/
theorem exists_of_write_error {state : WriterState} {pieces : List Token} {e : WriteError}
    (h : (write state pieces).result = .error e) :
    ∃ before token after last, pieces = before ++ token :: after ∧ e = .unexpected token last ∧
      write state before = ⟨(write state pieces).text, .ok last⟩ := by
  induction pieces generalizing state with
  | nil => cases h
  | cons token rest ih =>
    cases htoken : token.write? state with
    | none =>
      simp only [write, htoken, Except.error.injEq] at h ⊢
      exact ⟨[], token, rest, state, rfl, h.symm, rfl⟩
    | some text =>
      simp only [write, htoken] at h ⊢
      obtain ⟨before, stopping, after, last, rfl, he, hbefore⟩ := ih h
      refine ⟨token :: before, stopping, after, last, rfl, he, ?_⟩
      simp only [write, htoken, hbefore]

/-- Writing to a sink that has room for `limit` bytes, whatever it takes in one call: either all
that is written without a limit fits and is there, with the same result, or the sink is full and has
the beginning of it. What is written without a limit ends in front of a piece that is refused. -/
theorem Sink.write_bounded (intake : Intake) (limit : Nat) (state : WriterState)
    (pieces : List Token) :
    let whole := Markup.write state pieces
    let full := Text.encode whole.text
    let sink : Sink := ⟨limit, #[]⟩
    sink.writeParts intake state pieces = sink.write state pieces ∧
      (sink.write state pieces).1.bytes.toList = full.take limit ∧
      (full.length ≤ limit → (sink.write state pieces).1.bytes.toList = full ∧
        (sink.write state pieces).2 = whole.result) ∧
      (limit < full.length → (sink.write state pieces).2 = .error .full) ∧
      ∀ token last, whole.result = .error (.unexpected token last) →
        ∃ before after, pieces = before ++ token :: after ∧
          Markup.write state before = ⟨whole.text, .ok last⟩ ∧
          (sink.write state before).1 = (sink.write state pieces).1 := by
  intro whole full sink
  have hwrite := sink.write_eq_put state pieces
  have hput : sink.put whole.text = sink.fill full := rfl
  rw [hput] at hwrite
  have hbytes : (sink.fill full).1.bytes.toList = full.take limit := by simp [fill, sink]
  refine ⟨writeParts_eq .., ?_, fun hle => ?_, fun hlt => ?_, fun token last h => ?_⟩
  · rw [hwrite, hbytes]
  · rw [hwrite, hbytes, List.take_of_length_le hle, fill_of_le hle]
    exact ⟨rfl, rfl⟩
  · rw [hwrite, fill_of_lt hlt]
    rfl
  · obtain ⟨before, stopping, after, state', hpieces, he, hbefore⟩ := exists_of_write_error h
    cases he
    refine ⟨before, after, hpieces, hbefore, ?_⟩
    rw [hwrite, sink.write_eq_put state before, hbefore]
    rfl

/-- A sink that takes one byte at a time. -/
def Intake.single : Intake where
  count sink buffer := min 1 (min sink.room buffer.length)
  le_room sink buffer := by omega
  le_length sink buffer := by omega
  pos sink buffer hroom hbuffer := by
    have hlength := List.length_pos_iff.2 hbuffer
    omega

/-- The room ends in a character, and just in front of a piece that is refused. -/
theorem Sink.write_bounded_cut :
    let pieces : List Token := [.openTag "é", .closeEmpty, .closeEmpty]
    let full := Text.encode "<é/>".toList
    let small : Sink := ⟨2, #[]⟩
    let large : Sink := ⟨5, #[]⟩
    small.writeParts .single .outside pieces = small.write .outside pieces ∧
      (small.write .outside pieces).1.bytes.toList = full.take 2 ∧
      (small.write .outside pieces).2 = .error .full ∧
      (large.write .outside pieces).1.bytes.toList = full ∧
      (large.write .outside pieces).2 = .error (.unexpected .closeEmpty .outside) := by
  intro pieces full small large
  have hfull : full = Text.encode (Markup.write .outside pieces).text := by decide
  obtain ⟨hparts, hbytes, -, hcut, -⟩ := Sink.write_bounded .single 2 .outside pieces
  obtain ⟨-, -, hexact, -, -⟩ := Sink.write_bounded .single 5 .outside pieces
  obtain ⟨hall, hresult⟩ := hexact (by decide)
  exact ⟨hparts, hfull ▸ hbytes, hcut (by decide), hfull ▸ hall, hresult⟩

end CollationRules.Markup
