import Mathlib.Data.List.Infix

/-!
# Pieces that cover a sequence

A sequence is handed out in pieces.  A piece may begin with a repeat of the end of the piece
before it; with the repeats taken out, the pieces together have each element that counts, in
order.
-/

namespace Cerid

variable {α : Type} {keep : α → Bool}

/-- The pieces have the elements that count, after a piece `before`. -/
inductive Covers (keep : α → Bool) : List α → List (List α) → List α → Prop
  | nil {before : List α} : Covers keep before [] []
  | cons {before rest : List α} {pieces : List (List α)} (repeated new : List α)
      (hrepeated : repeated <:+ before) (hrest : Covers keep (repeated ++ new) pieces rest) :
      Covers keep before ((repeated ++ new) :: pieces) (new.filter keep ++ rest)

namespace Covers

variable {before s t : List α} {a b : List (List α)}

/-- A piece without a repeat. -/
theorem cons_new (new : List α) (h : Covers keep new a s) :
    Covers keep before (new :: a) (new.filter keep ++ s) :=
  .cons [] new List.nil_suffix h

theorem single (new : List α) : Covers keep before [new] (new.filter keep) := by
  have h : Covers keep before [new] _ := cons_new new .nil
  rwa [List.append_nil] at h

/-- Pieces that repeat nothing of what is before them may come after anything. -/
theorem weaken (h : Covers keep [] a s) : Covers keep before a s := by
  cases h with
  | nil => exact .nil
  | cons repeated new hrepeated hrest =>
    obtain rfl := List.suffix_nil.mp hrepeated
    exact .cons [] new List.nil_suffix hrest

theorem append (h : Covers keep before a s)
    (h' : Covers keep (a.getLast?.getD before) b t) : Covers keep before (a ++ b) (s ++ t) := by
  induction h with
  | nil => exact h'
  | @cons before rest pieces repeated new hrepeated _ ih =>
    rw [List.cons_append, List.append_assoc]
    refine .cons repeated new hrepeated (ih ?_)
    cases pieces with
    | nil => exact h'
    | cons piece more => rwa [List.getLast?_cons_cons] at h'

/-- One more piece at the end. -/
theorem concat (h : Covers keep before a s) {repeated : List α}
    (hrepeated : repeated <:+ a.getLast?.getD before) (new : List α) :
    Covers keep before (a ++ [repeated ++ new]) (s ++ new.filter keep) := by
  have hlast : Covers keep (a.getLast?.getD before) [repeated ++ new] _ :=
    .cons repeated new hrepeated .nil
  rw [List.append_nil] at hlast
  exact h.append hlast

end Covers

end Cerid
