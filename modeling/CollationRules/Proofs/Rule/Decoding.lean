import Mathlib.Data.List.Forall2

/-! Decodings one after the other. They succeed if each of them does, and otherwise fail as the
first that fails. -/

namespace CollationRules

variable {α β ε : Type} {f : α → Except ε β}

theorem map_eq_error_iff {g : α → β} {x : Except ε α} {e : ε} :
    x.map g = .error e ↔ x = .error e := by
  cases x <;> simp [Except.map]

theorem map_eq_ok_iff {g : α → β} {x : Except ε α} {y : β} :
    x.map g = .ok y ↔ ∃ a, x = .ok a ∧ g a = y := by
  cases x <;> simp [Except.map]

theorem mapM_cons_eq (x : α) (xs : List α) :
    (x :: xs).mapM f =
      match f x with
      | .ok y => (xs.mapM f).map (y :: ·)
      | .error e => .error e := by
  rw [List.mapM_cons]
  cases f x with
  | error e => rfl
  | ok y => cases xs.mapM f <;> rfl

theorem mapM_eq_ok_iff {xs : List α} {ys : List β} :
    xs.mapM f = .ok ys ↔ List.Forall₂ (fun x y => f x = .ok y) xs ys := by
  induction xs generalizing ys with
  | nil => simp [pure, Except.pure, eq_comm]
  | cons x xs ih =>
    rw [mapM_cons_eq, List.forall₂_cons_left_iff]
    simp only [← ih]
    cases f x with
    | error e => simp
    | ok y => cases xs.mapM f <;> simp [Except.map, eq_comm]

theorem exists_of_mapM_eq_ok {xs : List α} {ys : List β} (h : xs.mapM f = .ok ys) {y : β}
    (hy : y ∈ ys) : ∃ x ∈ xs, f x = .ok y := by
  have hall := mapM_eq_ok_iff.1 h
  clear h
  induction hall with
  | nil => cases hy
  | @cons x _ xs _ hx _ ih =>
    rcases List.mem_cons.1 hy with rfl | hy
    · exact ⟨x, List.mem_cons_self, hx⟩
    · obtain ⟨x', hx', hy'⟩ := ih hy
      exact ⟨x', List.mem_cons_of_mem x hx', hy'⟩

theorem mapM_eq_error_iff {xs : List α} {e : ε} :
    xs.mapM f = .error e ↔
      ∃ before x after, xs = before ++ x :: after ∧ (∀ w ∈ before, ∃ y, f w = .ok y) ∧
        f x = .error e := by
  induction xs with
  | nil => simp [pure, Except.pure]
  | cons x xs ih =>
    rw [mapM_cons_eq]
    constructor
    · intro h
      cases hx : f x with
      | error e' =>
        rw [hx] at h
        cases h
        exact ⟨[], x, xs, rfl, nofun, hx⟩
      | ok y =>
        simp only [hx, map_eq_error_iff] at h
        obtain ⟨before, x', after, rfl, hbefore, hx'⟩ := ih.1 h
        exact ⟨x :: before, x', after, rfl, List.forall_mem_cons.2 ⟨⟨y, hx⟩, hbefore⟩, hx'⟩
    · rintro ⟨before, x', after, hxs, hbefore, hx'⟩
      cases before with
      | nil =>
        obtain ⟨rfl, rfl⟩ := List.cons.inj hxs
        rw [hx']
      | cons w before =>
        obtain ⟨rfl, hrest⟩ := List.cons.inj hxs
        rw [List.forall_mem_cons] at hbefore
        obtain ⟨⟨y, hy⟩, hbefore⟩ := hbefore
        simp only [hy, map_eq_error_iff]
        exact ih.2 ⟨before, x', after, hrest, hbefore, hx'⟩

end CollationRules
