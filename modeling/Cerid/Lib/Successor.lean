import Mathlib.Data.List.Basic
import Mathlib.Data.List.Nodup

/-!
# The next element of a list

In a list without duplicates every element but the last has a next one.
-/

variable {α : Type} [DecidableEq α]

/-- The element after `a`. -/
def nextIn (l : List α) (a : α) : Option α :=
  ((l.zip l.tail).find? (fun p => p.1 = a)).map Prod.snd

@[simp] theorem nextIn_nil (a : α) : nextIn [] a = none := rfl

@[simp] theorem nextIn_singleton (b a : α) : nextIn [b] a = none := rfl

@[simp] theorem nextIn_cons_cons (b c : α) (l : List α) (a : α) :
    nextIn (b :: c :: l) a = if b = a then some c else nextIn (c :: l) a := by
  by_cases h : b = a <;> simp [nextIn, h]

theorem nextIn_eq_some_mem {l : List α} {a b : α} (h : nextIn l a = some b) : a ∈ l ∧ b ∈ l := by
  induction l with
  | nil => simp at h
  | cons c l ih =>
    cases l with
    | nil => simp at h
    | cons d l =>
      rw [nextIn_cons_cons] at h
      split at h
      · rename_i hc
        rw [Option.some.injEq] at h
        subst hc h
        simp
      · exact ⟨List.mem_cons_of_mem c (ih h).1, List.mem_cons_of_mem c (ih h).2⟩

theorem nextIn_eq_none_of_not_mem {l : List α} {a : α} (h : a ∉ l) : nextIn l a = none := by
  cases hn : nextIn l a with
  | none => rfl
  | some b => exact absurd (nextIn_eq_some_mem hn).1 h

theorem nextIn_eq_none_iff {l : List α} (hl : l.Nodup) {a : α} (ha : a ∈ l) :
    nextIn l a = none ↔ l.getLast? = some a := by
  induction l with
  | nil => simp at ha
  | cons c l ih =>
    cases l with
    | nil =>
      obtain rfl : a = c := by simpa using ha
      simp
    | cons d l =>
      rw [List.nodup_cons] at hl
      rw [nextIn_cons_cons, List.getLast?_cons_cons]
      by_cases hc : c = a
      · subst hc
        rw [if_pos rfl]
        refine iff_of_false (by simp) fun hlast => hl.1 (List.mem_of_getLast? hlast)
      · rw [if_neg hc]
        exact ih hl.2 ((List.mem_cons.mp ha).resolve_left fun h => hc h.symm)
