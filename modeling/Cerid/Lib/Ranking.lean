import Mathlib.Data.List.Sort
import Mathlib.Algebra.Order.Field.Rat

/-!
# Rankings

A list ranked by a score, the highest first and equals in the order they came in.  A
ranking filtered is the ranking of what passes the filter.
-/

namespace Cerid

variable {α : Type} (score : α → ℚ)

/-- `sorted(…, reverse=True)`. -/
def rank (l : List α) : List α := l.insertionSort (fun a b => score b ≤ score a)

theorem perm_rank (l : List α) : (rank score l).Perm l := List.perm_insertionSort _ l

theorem pairwise_rank (l : List α) : (rank score l).Pairwise (fun a b => score b ≤ score a) := by
  have : Std.Total (fun a b : α => score b ≤ score a) := ⟨fun a b => le_total _ _⟩
  have : IsTrans α (fun a b => score b ≤ score a) := ⟨fun _ _ _ hab hbc => hbc.trans hab⟩
  exact List.pairwise_insertionSort _ l

/-- What is cut off ranks no higher than what is kept. -/
theorem score_le_of_not_mem_take {l : List α} {k : Nat} {a : α} (ha : a ∈ l)
    (hcut : a ∉ (rank score l).take k) : ∀ b ∈ (rank score l).take k, score a ≤ score b := by
  have hmem := (perm_rank score l).mem_iff.mpr ha
  have hpair := pairwise_rank score l
  rw [← List.take_append_drop k (rank score l)] at hmem hpair
  intro b hb
  have hdrop := (List.mem_append.mp hmem).resolve_left hcut
  exact (List.pairwise_append.mp hpair).2.2 b hb a hdrop

/-! ## Filters -/

section Filter

variable {r : α → α → Prop} [DecidableRel r] [IsTrans α r]

theorem filter_orderedInsert (p : α → Bool) (a : α) {l : List α} (hl : l.Pairwise r) :
    (l.orderedInsert r a).filter p =
      if p a then (l.filter p).orderedInsert r a else l.filter p := by
  induction l with
  | nil => by_cases h : p a <;> simp [h]
  | cons b rest ih =>
    obtain ⟨hb, hrest⟩ := List.pairwise_cons.mp hl
    have ih := ih hrest
    rw [List.orderedInsert_cons]
    by_cases hab : r a b
    · have hfront : ((b :: rest).filter p).orderedInsert r a = a :: (b :: rest).filter p := by
        cases hf : (b :: rest).filter p with
        | nil => rfl
        | cons c cs =>
          have hc : c ∈ b :: rest := List.mem_of_mem_filter (hf ▸ List.mem_cons_self)
          have hca : r a c := by
            rcases List.mem_cons.mp hc with rfl | hc
            · exact hab
            · exact IsTrans.trans a b c hab (hb c hc)
          rw [List.orderedInsert_cons, if_pos hca]
      rw [if_pos hab, hfront, List.filter_cons]
    · rw [if_neg hab]
      by_cases hpb : p b = true
      · rw [List.filter_cons_of_pos hpb, List.filter_cons_of_pos hpb, ih, List.orderedInsert_cons,
          if_neg hab]
        split <;> rfl
      · rw [List.filter_cons_of_neg hpb, List.filter_cons_of_neg hpb, ih]

/-- Sorting is stable: what passes a filter is sorted as it would be alone. -/
theorem filter_insertionSort [Std.Total r] (p : α → Bool) (l : List α) :
    (l.insertionSort r).filter p = (l.filter p).insertionSort r := by
  induction l with
  | nil => rfl
  | cons a rest ih =>
    rw [List.insertionSort_cons, filter_orderedInsert p a (List.pairwise_insertionSort r rest), ih]
    by_cases h : p a = true
    · rw [if_pos h, List.filter_cons_of_pos h, List.insertionSort_cons]
    · rw [if_neg h, List.filter_cons_of_neg h]

end Filter

theorem filter_rank (p : α → Bool) (l : List α) :
    (rank score l).filter p = rank score (l.filter p) := by
  have : Std.Total (fun a b : α => score b ≤ score a) := ⟨fun a b => le_total _ _⟩
  have : IsTrans α (fun a b => score b ≤ score a) := ⟨fun _ _ _ hab hbc => hbc.trans hab⟩
  exact filter_insertionSort p l

/-- A cut before the filter leaves the first `k` of what passes, if none of these was cut
off. -/
theorem take_filter_take_iff (p : α → Bool) {l : List α} (hnd : l.Nodup) (n k : Nat) :
    ((l.take n).filter p).take k = (l.filter p).take k ↔
      ∀ a ∈ (l.filter p).take k, a ∈ l.take n := by
  have hpre : (l.take n).filter p <+: l.filter p := (List.take_prefix n l).filter p
  constructor
  · intro heq a ha
    rw [← heq] at ha
    exact List.mem_of_mem_filter (List.mem_of_mem_take ha)
  · intro hall
    have hsub : (l.filter p).take k ⊆ (l.take n).filter p := fun a ha =>
      List.mem_filter.mpr ⟨hall a ha, (List.mem_filter.mp (List.mem_of_mem_take ha)).2⟩
    have htake : ((l.filter p).take k).Nodup := (hnd.filter p).sublist (List.take_sublist k _)
    have hlen := htake.length_le_of_subset hsub
    have hlong := hpre.length_le
    have hcut := List.prefix_iff_eq_take.mp hpre
    generalize (l.take n).filter p = kept at hcut hlen hlong
    rw [List.length_take] at hlen
    rw [hcut, List.take_take, List.take_eq_take_iff]
    omega

end Cerid
