import Mathlib.Data.List.Nodup

/-!
# Items that are met for the first time

`firstOf` goes through a list and keeps an item if its key was not seen yet, in a set that starts
with some keys and grows by the keys of what is kept.
-/

namespace Cerid

variable {α β : Type} [DecidableEq β] (key : α → β)

def firstOf (seen : List β) : List α → List α
  | [] => []
  | x :: rest => if key x ∈ seen then firstOf seen rest else x :: firstOf (key x :: seen) rest

/-- The same, for the first `n` of them only. -/
def firstOfUpTo : Nat → List β → List α → List α
  | 0, _, _ => []
  | _ + 1, _, [] => []
  | n + 1, seen, x :: rest =>
    if key x ∈ seen then firstOfUpTo (n + 1) seen rest else x :: firstOfUpTo n (key x :: seen) rest

variable {key}

theorem firstOfUpTo_eq_take (n : Nat) (seen : List β) (xs : List α) :
    firstOfUpTo key n seen xs = (firstOf key seen xs).take n := by
  induction xs generalizing n seen with
  | nil => cases n <;> simp [firstOfUpTo, firstOf]
  | cons x rest ih =>
    cases n with
    | zero => rfl
    | succ n =>
      rw [firstOfUpTo, firstOf]
      split
      · exact ih (n + 1) seen
      · rw [ih n, List.take_succ_cons]

theorem firstOf_sublist (seen : List β) (xs : List α) : (firstOf key seen xs).Sublist xs := by
  induction xs generalizing seen with
  | nil => exact List.Sublist.refl _
  | cons x rest ih =>
    rw [firstOf]
    split
    · exact (ih seen).cons x
    · exact (ih (key x :: seen)).cons_cons x

theorem mem_keys_firstOf {seen : List β} {xs : List α} {k : β} :
    k ∈ (firstOf key seen xs).map key ↔ k ∈ xs.map key ∧ k ∉ seen := by
  induction xs generalizing seen with
  | nil => simp [firstOf]
  | cons x rest ih =>
    rw [firstOf, List.map_cons, List.mem_cons]
    split
    · rename_i hx
      rw [ih]
      refine and_congr_left fun hk => (or_iff_right ?_).symm
      rintro rfl
      exact hk hx
    · rename_i hx
      rw [List.map_cons, List.mem_cons, ih, List.mem_cons, not_or]
      by_cases hk : k = key x
      · subst hk
        exact iff_of_true (Or.inl rfl) ⟨Or.inl rfl, hx⟩
      · simp only [hk, false_or, not_false_eq_true, true_and]

theorem nodup_keys_firstOf (seen : List β) (xs : List α) :
    ((firstOf key seen xs).map key).Nodup := by
  induction xs generalizing seen with
  | nil => exact List.nodup_nil
  | cons x rest ih =>
    rw [firstOf]
    split
    · exact ih seen
    · rw [List.map_cons]
      refine List.nodup_cons.mpr ⟨fun hmem => ?_, ih (key x :: seen)⟩
      exact (mem_keys_firstOf.mp hmem).2 List.mem_cons_self

theorem firstOf_eq_nil {seen : List β} {xs : List α} (h : ∀ x ∈ xs, key x ∈ seen) :
    firstOf key seen xs = [] := by
  induction xs with
  | nil => rfl
  | cons x rest ih =>
    rw [firstOf, if_pos (h x List.mem_cons_self)]
    exact ih fun y hy => h y (List.mem_cons_of_mem x hy)

theorem firstOf_append (key : α → β) (seen : List β) (xs ys : List α) :
    ∃ more, firstOf key seen (xs ++ ys) = firstOf key seen xs ++ more := by
  induction xs generalizing seen with
  | nil => exact ⟨firstOf key seen ys, rfl⟩
  | cons x rest ih =>
    rw [List.cons_append, firstOf, firstOf]
    split
    · exact ih seen
    · obtain ⟨more, hmore⟩ := ih (key x :: seen)
      exact ⟨more, by rw [hmore, List.cons_append]⟩

/-- What was met before is not met for the first time. -/
theorem firstOf_insert {seen : List β} {front back : List α} {x : α}
    (h : key x ∈ front.map key ∨ key x ∈ seen) :
    firstOf key seen (front ++ x :: back) = firstOf key seen (front ++ back) := by
  induction front generalizing seen with
  | nil =>
    have hx : key x ∈ seen := h.resolve_left List.not_mem_nil
    rw [List.nil_append, List.nil_append, firstOf, if_pos hx]
  | cons y front ih =>
    rw [List.cons_append, List.cons_append, firstOf, firstOf]
    rw [List.map_cons, List.mem_cons, or_assoc, or_left_comm] at h
    split
    · rename_i hy
      refine ih (h.imp_right fun h => h.elim (fun heq => heq ▸ hy) id)
    · refine congrArg (y :: ·) (ih (h.imp_right fun h => ?_))
      exact List.mem_cons.mpr h

/-- What has distinct keys is kept as it is. -/
theorem firstOf_eq_self {seen : List β} {xs : List α} (hnodup : (xs.map key).Nodup)
    (hseen : ∀ x ∈ xs, key x ∉ seen) : firstOf key seen xs = xs := by
  induction xs generalizing seen with
  | nil => rfl
  | cons x rest ih =>
    rw [List.map_cons, List.nodup_cons] at hnodup
    rw [firstOf, if_neg (hseen x List.mem_cons_self)]
    refine congrArg (x :: ·) (ih hnodup.2 fun y hy => ?_)
    rw [List.mem_cons, not_or]
    refine ⟨fun heq => hnodup.1 ?_, hseen y (List.mem_cons_of_mem x hy)⟩
    rw [← heq]
    exact List.mem_map_of_mem hy

theorem firstOf_id {α : Type} [DecidableEq α] (seen xs : List α) :
    firstOf id seen xs = (xs.filter (· ∉ seen)).eraseDups := by
  induction xs generalizing seen with
  | nil => rfl
  | cons x rest ih =>
    rw [firstOf, id_eq]
    by_cases hx : x ∈ seen
    · rw [if_pos hx, ih, List.filter_cons_of_neg (by simpa using hx)]
    · rw [if_neg hx, ih, List.filter_cons_of_pos (by simpa using hx), List.eraseDups_cons,
        List.filter_filter]
      simp only [List.mem_cons, not_or, Bool.decide_and, decide_not]
      rfl

end Cerid
