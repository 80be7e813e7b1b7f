import Mathlib.Data.List.Induction
import Mathlib.Data.List.Nodup

/-!
# Events that count once, and streaks

Of a log of keyed events each key counts at its first.  A streak is the run of equal values
that a list ends in.
-/

namespace Cerid

/-! ## Each key at its first -/

section Once

variable {κ α : Type*} [DecidableEq κ] (key : α → κ)

/-- The log with one more event, unless its key is there already. -/
def countOne (counted : List α) (e : α) : List α :=
  if key e ∈ counted.map key then counted else counted ++ [e]

/-- The events of a log that count. -/
def once (log : List α) : List α := log.foldl (countOne key) []

theorem once_append_one (log : List α) (e : α) :
    once key (log ++ [e]) = countOne key (once key log) e := by
  unfold once
  rw [List.foldl_append, List.foldl_cons, List.foldl_nil]

theorem mem_keys_once (log : List α) (k : κ) :
    k ∈ (once key log).map key ↔ k ∈ log.map key := by
  induction log using List.reverseRecOn with
  | nil => exact Iff.rfl
  | append_singleton log e ih =>
    rw [once_append_one, List.map_append, List.mem_append, ← ih]
    unfold countOne
    split
    · next h =>
      rw [List.map_cons, List.map_nil, List.mem_singleton]
      constructor
      · exact Or.inl
      · intro hk
        rcases hk with hk | hk
        · exact hk
        · exact hk ▸ h
    · rw [List.map_append, List.mem_append]

end Once

/-! ## Streaks -/

section Streak

variable {ο : Type*} [DecidableEq ο]

def streak (xs : List ο) : Nat :=
  match xs.reverse with
  | [] => 0
  | x :: rest => (rest.takeWhile (· = x)).length + 1

theorem streak_append_one (xs : List ο) (x : ο) :
    streak (xs ++ [x]) = if xs.getLast? = some x then streak xs + 1 else 1 := by
  unfold streak
  rw [List.reverse_append, List.reverse_singleton, List.singleton_append]
  dsimp only
  have hlast : xs.getLast? = xs.reverse.head? := List.head?_reverse.symm
  rw [hlast]
  cases hxs : xs.reverse with
  | nil => rfl
  | cons y rest =>
    rw [List.head?_cons]
    dsimp only
    by_cases h : y = x
    · subst h
      have htake : (y :: rest).takeWhile (· = y) = y :: rest.takeWhile (· = y) :=
        List.takeWhile_cons_of_pos (by simp)
      rw [if_pos rfl, htake, List.length_cons]
    · rw [if_neg (fun hsome => h (Option.some.inj hsome)),
        List.takeWhile_cons_of_neg (by simpa using h)]
      rfl

end Streak

end Cerid
