import Mathlib.Algebra.Order.Group.Basic
import Mathlib.Data.List.Count

/-!
# Sliding windows

Events are let through at certain times, and a log keeps those that may still count.  As
long as the clock does not go back, a log from which only what has left the window was
dropped counts like the whole history (`Keeps`); and if an event is let through only while
fewer than `limit` count, no window has more than `limit` (`Bounded`).
-/

namespace Cerid.SlidingWindow

variable {T : Type} [AddCommGroup T] [LinearOrder T] [IsOrderedAddMonoid T]

/-- The times that count at `now`. -/
def fresh (now window : T) (times : List T) : List T := times.filter fun t => now - t < window

/-- From `clock` on the log counts like the history. -/
def Keeps (clock window : T) (history log : List T) : Prop :=
  ∀ now, clock ≤ now → fresh now window history = fresh now window log

/-- No two times of the set are a window apart. -/
def Narrow (window : T) (inside : T → Bool) : Prop :=
  ∀ x y, inside x = true → inside y = true → y - x < window

/-- At most `limit` in every window, wherever it starts. -/
def Bounded (limit : Nat) (window : T) (history : List T) : Prop :=
  ∀ inside, Narrow window inside → history.countP inside ≤ limit

section Log

variable {clock clock' now window window' : T} {history log : List T}

omit [IsOrderedAddMonoid T] in
theorem fresh_append (t : T) :
    fresh now window (log ++ [t]) = fresh now window log ++ fresh now window [t] :=
  List.filter_append ..

/-- What has left a longer window earlier does not count. -/
theorem fresh_fresh (hc : clock ≤ now) (hw : window ≤ window') :
    fresh now window (fresh clock window' log) = fresh now window log := by
  rw [fresh, fresh, fresh, List.filter_filter]
  refine List.filter_congr fun t _ => ?_
  by_cases ht : now - t < window
  · have hclock : clock - t < window' := (sub_le_sub_right hc t).trans_lt (ht.trans_le hw)
    simp [ht, hclock]
  · simp [ht]

omit [IsOrderedAddMonoid T] in
theorem Keeps.nil : Keeps clock window [] [] := fun _ _ => rfl

omit [IsOrderedAddMonoid T] in
theorem Keeps.later (h : Keeps clock window history log) (hc : clock ≤ clock') :
    Keeps clock' window history log := fun now hnow => h now (hc.trans hnow)

theorem Keeps.prune (h : Keeps clock window history log) (hc : clock ≤ clock')
    (hw : window ≤ window') : Keeps clock' window history (fresh clock' window' log) := by
  intro now hnow
  rw [fresh_fresh hnow hw]
  exact h now (hc.trans hnow)

/-- A log in which nothing counts may go. -/
theorem Keeps.drop (h : Keeps clock window history log) (hc : clock ≤ clock')
    (hw : window ≤ window') (hnone : fresh clock' window' log = []) :
    Keeps clock' window history [] :=
  hnone ▸ h.prune hc hw

omit [IsOrderedAddMonoid T] in
theorem Keeps.append (h : Keeps clock window history log) (t : T) :
    Keeps clock window (history ++ [t]) (log ++ [t]) := by
  intro now hnow
  rw [fresh_append, fresh_append, h now hnow]

end Log

omit [IsOrderedAddMonoid T] in
theorem Bounded.nil (limit : Nat) (window : T) : Bounded limit window [] :=
  fun _ _ => Nat.zero_le limit

omit [IsOrderedAddMonoid T] in
/-- An event that is let through while fewer than `limit` count. -/
theorem Bounded.append {limit : Nat} {now window : T} {history : List T}
    (h : Bounded limit window history) (hlt : (fresh now window history).length < limit) :
    Bounded limit window (history ++ [now]) := by
  intro inside hnarrow
  rw [List.countP_append, List.countP_singleton]
  by_cases hnow : inside now = true
  · have hle : history.countP inside ≤ (fresh now window history).length := by
      rw [fresh, ← List.countP_eq_length_filter]
      exact List.countP_mono_left fun t _ ht => decide_eq_true (hnarrow t now ht hnow)
    rw [if_pos hnow]
    omega
  · rw [if_neg hnow]
    exact h inside hnarrow

/-- A window that ends at `stop`, and has it. -/
theorem narrow_ending (stop window : T) :
    Narrow window fun t => decide (stop - window < t ∧ t ≤ stop) := by
  intro x y hx hy
  have hstop : stop - x < window := sub_lt_comm.mp (of_decide_eq_true hx).1
  exact (sub_le_sub_right (of_decide_eq_true hy).2 x).trans_lt hstop

/-- A window that starts at `start`, and has it. -/
theorem narrow_starting (start window : T) :
    Narrow window fun t => decide (start ≤ t ∧ t < start + window) := by
  intro x y hx hy
  have hstart : y - start < window := sub_lt_iff_lt_add'.mpr (of_decide_eq_true hy).2
  exact (sub_le_sub_left (of_decide_eq_true hx).1 y).trans_lt hstart

end Cerid.SlidingWindow
