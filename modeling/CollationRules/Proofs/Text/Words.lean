import CollationRules.Text.Characters
import Mathlib.Data.List.TakeWhile

/-! The words of a text. They are what blanks divide it into, however many these are. -/

namespace CollationRules.Text

/-- Whether a text is words with blanks between them, and perhaps around them. -/
inductive HasWords : List Char → List (List Char) → Prop
  | blanks {lead : List Char} (hlead : ∀ c ∈ lead, isBlank c) : HasWords lead []
  | word {lead word rest : List Char} {others : List (List Char)} (hlead : ∀ c ∈ lead, isBlank c)
      (hne : word ≠ []) (hword : ∀ c ∈ word, ¬isBlank c) (hend : ∀ c ∈ rest.head?, isBlank c)
      (hrest : HasWords rest others) : HasWords (lead ++ word ++ rest) (word :: others)

theorem words_append_blanks {lead : List Char} (h : ∀ c ∈ lead, isBlank c) (rest : List Char) :
    words (lead ++ rest) = words rest := by
  induction lead with
  | nil => rfl
  | cons c lead ih =>
    rw [List.forall_mem_cons] at h
    rw [List.cons_append, words, if_pos h.1, ih h.2]

theorem words_of_blanks {lead : List Char} (h : ∀ c ∈ lead, isBlank c) : words lead = [] := by
  have hwords := words_append_blanks h []
  rwa [List.append_nil] at hwords

/-- A word ends in front of a blank and at the end of the text. -/
theorem words_append_word {word rest : List Char} (hne : word ≠ [])
    (hword : ∀ c ∈ word, ¬isBlank c) (hend : ∀ c ∈ rest.head?, isBlank c) :
    words (word ++ rest) = word :: words rest := by
  induction word with
  | nil => exact absurd rfl hne
  | cons c word ih =>
    rw [List.forall_mem_cons] at hword
    rw [List.cons_append, words, if_neg hword.1]
    cases word with
    | nil =>
      have hlast : (rest.head?.map isBlank).getD true := by
        cases hhead : rest.head? with
        | none => rfl
        | some d => exact hend d hhead
      rw [List.nil_append, if_pos hlast]
    | cons d word =>
      have hnext : ¬(((d :: word ++ rest).head?.map isBlank).getD true) :=
        hword.2 d List.mem_cons_self
      rw [if_neg hnext, ih (by simp) hword.2]

theorem HasWords.cons_blank {c : Char} (hc : isBlank c) {rest : List Char}
    {found : List (List Char)} (h : HasWords rest found) : HasWords (c :: rest) found := by
  cases h with
  | blanks hlead => exact .blanks (List.forall_mem_cons.2 ⟨hc, hlead⟩)
  | word hlead hne hword hend hrest =>
    exact .word (List.forall_mem_cons.2 ⟨hc, hlead⟩) hne hword hend hrest

/-- A character that is not blank is a word where a blank follows, and otherwise belongs to the
first word. -/
theorem HasWords.cons_char {c d : Char} (hc : ¬isBlank c) (hd : ¬isBlank d) {rest : List Char}
    {found : List (List Char)} (h : HasWords (d :: rest) found) :
    ∃ word others, found = word :: others ∧ HasWords (c :: d :: rest) ((c :: word) :: others) := by
  generalize htext : d :: rest = text at h
  cases h with
  | blanks hlead =>
    subst htext
    exact absurd (hlead d List.mem_cons_self) hd
  | @word lead word after others hlead hne hword hend hrest =>
    refine ⟨word, others, rfl, ?_⟩
    cases lead with
    | nil =>
      have hfound : HasWords ([] ++ (c :: word) ++ after) ((c :: word) :: others) :=
        .word hlead (by simp) (List.forall_mem_cons.2 ⟨hc, hword⟩) hend hrest
      exact hfound
    | cons e lead =>
      obtain ⟨rfl, -⟩ := List.cons.inj htext
      exact absurd (hlead d List.mem_cons_self) hd

theorem hasWords_words (text : List Char) : HasWords text (words text) := by
  induction text with
  | nil => exact .blanks nofun
  | cons c rest ih =>
    by_cases hc : isBlank c
    · rw [words, if_pos hc]
      exact ih.cons_blank hc
    · by_cases hend : ∀ d ∈ rest.head?, isBlank d
      · have hword := @words_append_word [c] rest (by simp) (by simpa using hc) hend
        rw [List.singleton_append] at hword
        have hfound : HasWords ([] ++ [c] ++ rest) ([c] :: words rest) :=
          .word (by simp) (by simp) (by simpa using hc) hend ih
        rw [hword]
        exact hfound
      · obtain ⟨d, after, rfl, hd⟩ : ∃ d after, rest = d :: after ∧ ¬isBlank d := by
          cases rest with
          | nil => simp at hend
          | cons d after => exact ⟨d, after, rfl, by simpa using hend⟩
        obtain ⟨word, others, hwords, h⟩ := ih.cons_char hc hd
        have hnext : ¬(((d :: after).head?.map isBlank).getD true) := hd
        rw [words, if_neg hc, if_neg hnext, hwords]
        exact h

/-- The words of a text are the only ones with which it is words and blanks. -/
theorem words_eq_iff {text : List Char} {found : List (List Char)} :
    words text = found ↔ HasWords text found := by
  constructor
  · rintro rfl
    exact hasWords_words text
  · intro h
    induction h with
    | blanks hlead => exact words_of_blanks hlead
    | word hlead hne hword hend _ ih =>
      rw [List.append_assoc, words_append_blanks hlead, words_append_word hne hword hend, ih]

end CollationRules.Text
