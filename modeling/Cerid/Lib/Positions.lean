import Cerid.Lib.Dict
import Mathlib.Data.List.GetD

/-!
# Positions by key

A dictionary beside a list that grows and whose elements are changed in place: for each key
the position of the element that has it.  An element may have no key.
-/

namespace Cerid

variable {κ α : Type} [DecidableEq κ] {key : α → Option κ} {d : Dict κ Nat} {xs : List α}

/-- The dictionary says where the element of each key stands. -/
def Positions (key : α → Option κ) (d : Dict κ Nat) (xs : List α) : Prop :=
  ∀ k i, d.get? k = some i ↔ ∃ x, xs[i]? = some x ∧ key x = some k

namespace Positions

theorem nil : Positions key .empty [] := by
  intro k i
  constructor
  · intro h
    cases h
  · rintro ⟨x, hx, -⟩
    cases hx

/-- A key without a position is no element's. -/
theorem get?_eq_none (h : Positions key d xs) {k : κ} :
    d.get? k = none ↔ ∀ x ∈ xs, key x ≠ some k := by
  constructor
  · intro hnone x hx hk
    obtain ⟨i, hi⟩ := List.mem_iff_getElem?.mp hx
    have hsome := (h k i).mpr ⟨x, hi, hk⟩
    rw [hnone] at hsome
    cases hsome
  · intro hall
    cases hget : d.get? k with
    | none => rfl
    | some i =>
      obtain ⟨x, hx, hk⟩ := (h k i).mp hget
      exact absurd hk (hall x (List.mem_of_getElem? hx))

theorem append_of_none (h : Positions key d xs) {x : α} (hx : key x = none) :
    Positions key d (xs ++ [x]) := by
  intro k i
  rw [h k i]
  constructor
  · rintro ⟨y, hy, hk⟩
    obtain ⟨hlt, -⟩ := List.getElem?_eq_some_iff.mp hy
    exact ⟨y, by rwa [List.getElem?_append_left hlt], hk⟩
  · rintro ⟨y, hy, hk⟩
    rw [List.getElem?_append] at hy
    split at hy
    · exact ⟨y, hy, hk⟩
    · obtain rfl := List.mem_singleton.mp (List.mem_of_getElem? hy)
      rw [hx] at hk
      cases hk

/-- An element with a new key is put at the end. -/
theorem append (h : Positions key d xs) {k : κ} (hnew : d.get? k = none) {x : α}
    (hx : key x = some k) : Positions key (d.set k xs.length) (xs ++ [x]) := by
  intro k' i
  rw [Dict.get?_set]
  by_cases hk : k' = k
  · subst hk
    rw [if_pos rfl]
    constructor
    · intro hi
      obtain rfl := Option.some.inj hi
      exact ⟨x, List.getElem?_concat_length, hx⟩
    · rintro ⟨y, hy, hyk⟩
      rw [List.getElem?_append] at hy
      split at hy
      · exact absurd hyk (h.get?_eq_none.mp hnew y (List.mem_of_getElem? hy))
      · obtain ⟨hlt, -⟩ := List.getElem?_eq_some_iff.mp hy
        rw [List.length_singleton] at hlt
        exact congrArg some (by omega)
  · rw [if_neg hk, h k' i]
    constructor
    · rintro ⟨y, hy, hyk⟩
      obtain ⟨hlt, -⟩ := List.getElem?_eq_some_iff.mp hy
      exact ⟨y, by rwa [List.getElem?_append_left hlt], hyk⟩
    · rintro ⟨y, hy, hyk⟩
      rw [List.getElem?_append] at hy
      split at hy
      · exact ⟨y, hy, hyk⟩
      · obtain rfl := List.mem_singleton.mp (List.mem_of_getElem? hy)
        exact absurd (Option.some.inj (hyk.symm.trans hx)) hk

/-- A change in place that keeps the keys. -/
theorem modify (h : Positions key d xs) {f : α → α} (hf : ∀ x, key (f x) = key x) (n : Nat) :
    Positions key d (xs.modify n f) := by
  intro k i
  rw [h k i, List.getElem?_modify]
  cases hx : xs[i]? with
  | none => simp
  | some x =>
    by_cases hn : n = i
    · simp [hn, hf]
    · simp [hn]

end Positions

end Cerid
