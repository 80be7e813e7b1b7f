import Mathlib.Algebra.BigOperators.Group.List.Basic
import Mathlib.Algebra.GroupWithZero.Nat

/-!
# Gathering in order

Items are taken one by one into a group.  An item that the group has no room for closes it, and
what is kept of it begins the next group; an item that stands alone closes the group and is not
taken into one.
-/

namespace Cerid

/-- How items are gathered. -/
structure NextFit (α : Type) where
  weight : α → Nat
  cap : Nat
  alone : α → Bool
  kept : List α → List α

namespace NextFit

variable {α : Type} (P : NextFit α)

def load (group : List α) : Nat := (group.map P.weight).sum

def Full (group : List α) (x : α) : Prop := P.cap < P.load group + P.weight x

instance (group : List α) (x : α) : Decidable (P.Full group x) :=
  inferInstanceAs (Decidable (P.cap < P.load group + P.weight x))

def add (group : List α) (x : α) : List α :=
  if P.alone x then []
  else if group ≠ [] ∧ P.Full group x then P.kept group ++ [x]
  else group ++ [x]

/-- The group that is open after the items. -/
def opened (xs : List α) : List α := xs.foldl P.add []

/-- The item closes the group. -/
def Closes (group : List α) (x : α) : Prop := P.alone x = true ∨ P.Full group x

/-- The groups of the items; the end closes the last one. -/
def IsGroup (xs group : List α) : Prop :=
  group ≠ [] ∧ ∃ before after, xs = before ++ after ∧ P.opened before = group ∧
    ∀ x ∈ after.head?, P.Closes group x

/-- The groups that an item has closed. -/
def Closed (xs group : List α) : Prop :=
  group ≠ [] ∧ ∃ before x after, xs = before ++ x :: after ∧ P.opened before = group ∧
    P.Closes group x

variable {P} {xs group : List α} {x : α}

theorem load_snoc : P.load (group ++ [x]) = P.load group + P.weight x := by
  simp [load]

theorem opened_snoc : P.opened (xs ++ [x]) = P.add (P.opened xs) x := by
  rw [opened, List.foldl_append]
  rfl

theorem not_closed_nil : ¬ P.Closed [] group := by
  rintro ⟨-, before, x, after, hxs, -⟩
  exact List.cons_ne_nil _ _ (List.append_eq_nil_iff.mp hxs.symm).2

theorem closed_snoc : P.Closed (xs ++ [x]) group ↔
    P.Closed xs group ∨ (group ≠ [] ∧ P.opened xs = group ∧ P.Closes group x) := by
  constructor
  · rintro ⟨hne, before, y, after, hxs, hopened, hcloses⟩
    rcases List.eq_nil_or_concat after with rfl | ⟨front, last, rfl⟩
    · obtain ⟨rfl, hy⟩ := List.append_inj' hxs rfl
      obtain rfl := List.singleton_inj.mp hy
      exact Or.inr ⟨hne, hopened, hcloses⟩
    · rw [List.concat_eq_append, ← List.cons_append, ← List.append_assoc] at hxs
      exact Or.inl ⟨hne, before, y, front, (List.append_inj' hxs rfl).1, hopened, hcloses⟩
  · rintro (⟨hne, before, y, after, rfl, hopened, hcloses⟩ | ⟨hne, hopened, hcloses⟩)
    · exact ⟨hne, before, y, after ++ [x], by rw [List.append_assoc, List.cons_append], hopened,
        hcloses⟩
    · exact ⟨hne, xs, x, [], rfl, hopened, hcloses⟩

theorem isGroup_iff : P.IsGroup xs group ↔
    P.Closed xs group ∨ (group ≠ [] ∧ P.opened xs = group) := by
  constructor
  · rintro ⟨hne, before, after, rfl, hopened, hcloses⟩
    cases after with
    | nil => exact Or.inr ⟨hne, by rwa [List.append_nil]⟩
    | cons y more => exact Or.inl ⟨hne, before, y, more, rfl, hopened, hcloses y rfl⟩
  · rintro (⟨hne, before, y, after, rfl, hopened, hcloses⟩ | ⟨hne, hopened⟩)
    · refine ⟨hne, before, y :: after, rfl, hopened, ?_⟩
      intro z hz
      cases hz
      exact hcloses
    · exact ⟨hne, xs, [], (List.append_nil xs).symm, hopened, nofun⟩

end NextFit

end Cerid
