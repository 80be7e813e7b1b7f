import Mathlib.Data.List.Sort

/-!
# Sorted sets

Members with scores, the highest score first and each member once.  Members of one score
stand in no order that a reader may rely on.
-/

namespace Cerid

structure SortedSet (α : Type*) where
  items : List (α × Nat)
  nodup : (items.map Prod.fst).Nodup
  ordered : items.Pairwise fun a b => b.2 ≤ a.2

namespace SortedSet

variable {α : Type*}

def empty : SortedSet α := ⟨[], List.nodup_nil, List.Pairwise.nil⟩

def members (s : SortedSet α) : List α := s.items.map Prod.fst

/-- The items for which `p` holds. -/
def keep (s : SortedSet α) (p : α × Nat → Bool) : SortedSet α where
  items := s.items.filter p
  nodup := s.nodup.sublist (List.filter_sublist.map Prod.fst)
  ordered := s.ordered.sublist List.filter_sublist

/-- The `n` items of the highest scores. -/
def top (s : SortedSet α) (n : Nat) : SortedSet α where
  items := s.items.take n
  nodup := s.nodup.sublist ((List.take_sublist n s.items).map Prod.fst)
  ordered := s.ordered.sublist (List.take_sublist n s.items)

theorem mem_keep {s : SortedSet α} {p : α × Nat → Bool} {e : α × Nat} :
    e ∈ (s.keep p).items ↔ e ∈ s.items ∧ p e = true := List.mem_filter

theorem mem_of_mem_top {s : SortedSet α} {n : Nat} {e : α × Nat} (h : e ∈ (s.top n).items) :
    e ∈ s.items := List.mem_of_mem_take h

theorem length_keep_le (s : SortedSet α) (p : α × Nat → Bool) :
    (s.keep p).items.length ≤ s.items.length := List.length_filter_le p s.items

theorem length_top_le (s : SortedSet α) (n : Nat) : (s.top n).items.length ≤ n :=
  List.length_take_le n s.items

theorem mem_members {s : SortedSet α} {a : α} : a ∈ s.members ↔ ∃ score, (a, score) ∈ s.items := by
  simp [members]

section Add

variable [DecidableEq α]

/-- The member gets the score, whatever score it had. -/
def add (s : SortedSet α) (a : α) (score : Nat) : SortedSet α where
  items := (s.items.filter (·.1 ≠ a)).orderedInsert (fun x y => y.2 ≤ x.2) (a, score)
  nodup := by
    have hperm := (List.perm_orderedInsert (fun x y : α × Nat => y.2 ≤ x.2) (a, score)
      (s.items.filter (·.1 ≠ a))).map Prod.fst
    refine hperm.nodup_iff.mpr (List.nodup_cons.mpr ⟨fun h => ?_, ?_⟩)
    · obtain ⟨e, he, hea⟩ := List.mem_map.mp h
      exact of_decide_eq_true (List.mem_filter.mp he).2 hea
    · exact s.nodup.sublist (List.filter_sublist.map Prod.fst)
  ordered := by
    have : Std.Total fun x y : α × Nat => y.2 ≤ x.2 := ⟨fun x y => Nat.le_total y.2 x.2⟩
    have : IsTrans (α × Nat) fun x y => y.2 ≤ x.2 := ⟨fun _ _ _ h h' => Nat.le_trans h' h⟩
    exact (s.ordered.sublist List.filter_sublist).orderedInsert _ _

theorem mem_add {s : SortedSet α} {a : α} {score : Nat} {e : α × Nat} :
    e ∈ (s.add a score).items ↔ e = (a, score) ∨ e ∈ s.items ∧ e.1 ≠ a := by
  rw [add, List.mem_orderedInsert, List.mem_filter, decide_eq_true_eq]

theorem mem_members_add {s : SortedSet α} {a b : α} {score : Nat} :
    b ∈ (s.add a score).members ↔ b = a ∨ b ∈ s.members := by
  rw [mem_members, mem_members]
  constructor
  · rintro ⟨score', h⟩
    rcases mem_add.mp h with h | h
    · exact Or.inl (congrArg Prod.fst h)
    · exact Or.inr ⟨score', h.1⟩
  · by_cases hb : b = a
    · exact fun _ => ⟨score, mem_add.mpr (Or.inl (by rw [hb]))⟩
    · rintro (h | ⟨score', h⟩)
      · exact absurd h hb
      · exact ⟨score', mem_add.mpr (Or.inr ⟨h, hb⟩)⟩

theorem length_add_le (s : SortedSet α) (a : α) (score : Nat) :
    (s.add a score).items.length ≤ s.items.length + 1 := by
  rw [add, List.orderedInsert_length]
  exact Nat.succ_le_succ (List.length_filter_le _ s.items)

end Add

end SortedSet

end Cerid
