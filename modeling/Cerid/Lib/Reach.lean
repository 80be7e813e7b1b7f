import Mathlib.Logic.Relation

/-!
# Reachability by a list of waypoints

`through` decides whether an edge relation leads from one point to another by
paths whose inner points are taken from a list, one waypoint after another.  When
the list holds every point that an edge enters, these are all the paths.
-/

namespace Cerid

variable {α : Type*} {edge : α → α → Bool}

/-- A path of one edge or more, its inner points among the waypoints. -/
def through (edge : α → α → Bool) : List α → α → α → Bool
  | [], a, b => edge a b
  | p :: rest, a, b => through edge rest a b || through edge rest a p && through edge rest p b

theorem through_edge (points : List α) {a b : α} (h : edge a b = true) :
    through edge points a b = true := by
  induction points with
  | nil => exact h
  | cons p rest ih => rw [through, ih, Bool.true_or]

theorem through_join {points : List α} {a p b : α} (hp : p ∈ points)
    (hap : through edge points a p = true) (hpb : through edge points p b = true) :
    through edge points a b = true := by
  induction points generalizing a b with
  | nil => cases hp
  | cons q rest ih =>
    rw [through, Bool.or_eq_true, Bool.and_eq_true] at hap hpb ⊢
    rcases List.mem_cons.mp hp with rfl | hp
    · exact Or.inr ⟨hap.elim id And.left, hpb.elim id And.right⟩
    · rcases hap, hpb with ⟨hap | hap, hpb | hpb⟩
      · exact Or.inl (ih hp hap hpb)
      · exact Or.inr ⟨ih hp hap hpb.1, hpb.2⟩
      · exact Or.inr ⟨hap.1, ih hp hap.2 hpb⟩
      · exact Or.inr ⟨hap.1, hpb.2⟩

theorem transGen_of_through {points : List α} {a b : α} (h : through edge points a b = true) :
    Relation.TransGen (fun x y => edge x y = true) a b := by
  induction points generalizing a b with
  | nil => exact Relation.TransGen.single h
  | cons p rest ih =>
    rw [through, Bool.or_eq_true, Bool.and_eq_true] at h
    rcases h with h | ⟨hap, hpb⟩
    · exact ih h
    · exact (ih hap).trans (ih hpb)

/-- With a waypoint wherever an edge enters, every path is found. -/
theorem through_iff (edge : α → α → Bool) {points : List α}
    (hpoints : ∀ x y, edge x y = true → y ∈ points) (a b : α) :
    through edge points a b = true ↔ Relation.TransGen (fun x y => edge x y = true) a b := by
  refine ⟨transGen_of_through, fun h => ?_⟩
  induction h with
  | single hab => exact through_edge points hab
  | tail hab hbc ih =>
    obtain ⟨x, -, hxb⟩ := Relation.TransGen.tail'_iff.mp hab
    exact through_join (hpoints x _ hxb) ih (through_edge points hbc)

end Cerid
