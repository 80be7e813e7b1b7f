import Cerid.Lib.Greedy
import Cerid.Lib.Ranking
import Cerid.Memory.Similarity
import Mathlib.Data.List.Flatten
import Mathlib.Data.String.Basic

/-!
# Groups of duplicate memories

The memories are taken from the newest on, and each joins the first group whose keeper it is alike
enough to.  A negation stays out of the group of what it negates only if the veto sees it.
-/

namespace Cerid.MemoryDedup

open Cluster
open Text (CaseFold)

structure Memory where
  id : String
  text : Option (List Char) := none
  createdAt : Option String := none
deriving DecidableEq

/-- `str(mem.get("text") or "")`. -/
def Memory.content (m : Memory) : List Char := m.text.getD []

/-- `str(m.get("created_at") or "")`. -/
def Memory.created (m : Memory) : String := m.createdAt.getD ""

def dedupSimilarityThreshold : ℚ := 9 / 10

/-- `sorted(memories, key=created_at, reverse=True)`. -/
def ordered (memories : List Memory) : List Memory :=
  memories.insertionSort fun a b => b.created ≤ a.created

section

variable (F : CaseFold) (W : CharClass) (threshold : ℚ)

def Near (m keeper : Memory) : Prop :=
  threshold ≤ memorySimilarity F W m.content keeper.content

instance : DecidableRel (Near F W threshold) := fun _ _ => inferInstanceAs (Decidable (_ ≤ _))

def findDuplicateGroups (memories : List Memory) : List (Cluster Memory) :=
  (clusters (Near F W threshold) (ordered memories)).filter fun g => !g.others.isEmpty

/-! ## What is asked of the groups -/

/-- What is left when every member but the keepers is removed. -/
def remaining (groups : List (Cluster Memory)) (memories : List Memory) : List Memory :=
  memories.filter fun m => m.id ∉ (groups.flatMap others).map Memory.id

def Opposed (x y : Memory) (n : List Word) : Prop :=
  Negates F W x.content y.content n ∨ Negates F W y.content x.content n

structure Right (memories : List Memory) (groups : List (Cluster Memory)) : Prop where
  several : ∀ g ∈ groups, 2 ≤ g.members.length
  disjoint : (groups.flatMap members).Subperm memories
  newest : ∀ g ∈ groups, ∀ m ∈ g.others, m.created ≤ g.keeper.created
  similar : ∀ g ∈ groups, ∀ m ∈ g.others,
    threshold ≤ memorySimilarity F W m.content g.keeper.content
  apart : ∀ g ∈ groups, g.members.Pairwise fun x y => ∀ n, ¬ Opposed F W x y n
  again : findDuplicateGroups F W threshold (remaining groups memories) = []

/-- The veto sees whatever negates a member of the group that `m` joins, or is negated by it: it
has effect at all, and a word of the negation has a listed token that the other text does not
have. -/
def Covered (groups : List (Cluster Memory)) (m : Memory) : Prop :=
  ∀ g, groups.find? (fun g => Near F W threshold m g.keeper) = some g → ∀ x ∈ g.members, ∀ n,
    (Negates F W x.content m.content n → 0 < threshold ∧ Seen F W x.content n) ∧
      (Negates F W m.content x.content n → 0 < threshold ∧ Seen F W m.content n)

end

variable {F : CaseFold} {W : CharClass} {threshold : ℚ}

/-! ## The order -/

theorem pairwise_ordered (memories : List Memory) :
    (ordered memories).Pairwise fun a b => b.created ≤ a.created := by
  have : Std.Total (fun a b : Memory => b.created ≤ a.created) := ⟨fun a b => le_total _ _⟩
  have : IsTrans Memory (fun a b => b.created ≤ a.created) := ⟨fun _ _ _ hab hbc => hbc.trans hab⟩
  exact List.pairwise_insertionSort _ memories

theorem filter_ordered (p : Memory → Bool) (memories : List Memory) :
    (ordered memories).filter p = ordered (memories.filter p) := by
  have : Std.Total (fun a b : Memory => b.created ≤ a.created) := ⟨fun a b => le_total _ _⟩
  have : IsTrans Memory (fun a b => b.created ≤ a.created) := ⟨fun _ _ _ hab hbc => hbc.trans hab⟩
  exact filter_insertionSort p memories

/-! ## Every group but for negations -/

theorem mem_findDuplicateGroups {memories : List Memory} {g : Cluster Memory} :
    g ∈ findDuplicateGroups F W threshold memories ↔
      g ∈ clusters (Near F W threshold) (ordered memories) ∧ g.others ≠ [] := by
  unfold findDuplicateGroups
  rw [List.mem_filter, Bool.not_eq_true', List.isEmpty_eq_false_iff]

theorem groups_disjoint (memories : List Memory) :
    ((findDuplicateGroups F W threshold memories).flatMap members).Subperm memories := by
  have hsub : ((findDuplicateGroups F W threshold memories).flatMap members).Sublist
      ((clusters (Near F W threshold) (ordered memories)).flatMap members) :=
    List.filter_sublist.flatMap members
  exact hsub.subperm.trans
    ((perm_clusters (ordered memories)).trans (List.perm_insertionSort _ memories)).subperm

theorem group_newest {memories : List Memory} {g : Cluster Memory}
    (hg : g ∈ findDuplicateGroups F W threshold memories) :
    ∀ m ∈ g.others, m.created ≤ g.keeper.created := by
  have hsub := members_sublist (mem_findDuplicateGroups.mp hg).1
  exact (List.pairwise_cons.mp ((pairwise_ordered memories).sublist hsub)).1

/-- Of what remains no memory is alike enough to one before it. -/
theorem again_nil (memories : List Memory) :
    findDuplicateGroups F W threshold
      (remaining (findDuplicateGroups F W threshold memories) memories) = [] := by
  have hremoved : ∀ g ∈ clusters (Near F W threshold) (ordered memories), ∀ y ∈ g.others,
      decide (y.id ∉ ((findDuplicateGroups F W threshold memories).flatMap others).map
        Memory.id) = false := by
    intro g hg y hy
    rw [decide_eq_false_iff_not, not_not]
    have hgroup := mem_findDuplicateGroups.mpr ⟨hg, List.ne_nil_of_mem hy⟩
    exact List.mem_map_of_mem (List.mem_flatMap.mpr ⟨g, hgroup, hy⟩)
  have hsub := filter_sublist_keepers hremoved
  rw [filter_ordered] at hsub
  have halone := clusters_of_pairwise ((pairwise_keepers _).sublist hsub)
  unfold remaining
  rw [findDuplicateGroups, halone, List.filter_eq_nil_iff]
  intro g hg
  obtain ⟨m, -, rfl⟩ := List.mem_map.mp hg
  exact Bool.false_ne_true

/-! ## Negations -/

/-- The groups are alike to their keepers, and no two members are opposed. -/
def Apart (F : CaseFold) (W : CharClass) (threshold : ℚ) (groups : List (Cluster Memory)) : Prop :=
  ∀ g ∈ groups, (∀ y ∈ g.others, Near F W threshold y g.keeper) ∧
    g.members.Pairwise fun x y => ∀ n, ¬ Opposed F W x y n

/-- The members of a group have the same listed tokens. -/
theorem listed_member {g : Cluster Memory} (hnear : ∀ y ∈ g.others, Near F W threshold y g.keeper)
    (hpositive : 0 < threshold) {x : Memory} (hx : x ∈ g.members) {t : Word}
    (ht : t ∈ negationTokens) : t ∈ tokens F W x.content ↔ t ∈ tokens F W g.keeper.content := by
  rcases List.mem_cons.mp hx with rfl | hx
  · exact Iff.rfl
  · exact listed_iff (hpositive.trans_le (hnear x hx)) ht

theorem apart_place {groups : List (Cluster Memory)} {m : Memory}
    (hapart : Apart F W threshold groups) (hcovered : Covered F W threshold groups m) :
    Apart F W threshold (place (Near F W threshold) groups m) := by
  intro g hg
  rcases mem_place hg with hg | ⟨g', hg', hnear, hfind, rfl⟩ | rfl
  · exact hapart g hg
  · obtain ⟨hothers, hpair⟩ := hapart g' hg'
    refine ⟨fun y hy => ?_, ?_⟩
    · rw [others_add, List.mem_append, List.mem_singleton] at hy
      rcases hy with hy | rfl
      · exact hothers y hy
      · exact hnear
    · rw [members_add, List.pairwise_append]
      refine ⟨hpair, List.pairwise_singleton _ _, fun x hx y hy n hopposed => ?_⟩
      rw [List.mem_singleton] at hy
      subst hy
      obtain ⟨hjoined, hjoining⟩ := hcovered g' hfind x hx n
      have hsame : 0 < threshold → ∀ t ∈ negationTokens,
          t ∈ tokens F W x.content ↔ t ∈ tokens F W y.content := fun hpositive t ht =>
        (listed_member hothers hpositive hx ht).trans
          (listed_iff (hpositive.trans_le hnear) ht).symm
      rcases hopposed with h | h
      · obtain ⟨hpositive, hseen⟩ := hjoined h
        exact not_negates_of_seen hseen (hsame hpositive) h
      · obtain ⟨hpositive, hseen⟩ := hjoining h
        exact not_negates_of_seen hseen (fun t ht => (hsame hpositive t ht).symm) h
  · exact ⟨fun y hy => absurd hy List.not_mem_nil, List.pairwise_singleton _ _⟩

/-- The member that joins a group stays in it with those that were there. -/
theorem joined_group {memories before rest : List Memory} {m : Memory} {g : Cluster Memory}
    (heq : ordered memories = before ++ m :: rest)
    (hfind : (before.foldl (place (Near F W threshold)) []).find?
      (fun g => Near F W threshold m g.keeper) = some g) :
    ∃ g' ∈ findDuplicateGroups F W threshold memories, (g.members ++ [m]).Sublist g'.members := by
  have hadd : g.add m ∈ place (Near F W threshold)
      (before.foldl (place (Near F W threshold)) []) m := by
    rcases place_cases (Near F W threshold) (before.foldl (place (Near F W threshold)) []) m with
      ⟨front, h, rest', -, -, hfind', hplace⟩ | ⟨hnone, -⟩
    · rw [hplace]
      obtain rfl := Option.some.inj (hfind'.symm.trans hfind)
      exact List.mem_append_right _ List.mem_cons_self
    · have hnear := List.find?_some hfind
      exact absurd (of_decide_eq_true hnear) (hnone g (List.mem_of_find?_eq_some hfind))
  obtain ⟨g', hg', hkeeper, hothers⟩ := foldl_kept (Near F W threshold) hadd rest
  have hclusters : g' ∈ clusters (Near F W threshold) (ordered memories) := by
    unfold clusters
    rw [heq, List.foldl_append, List.foldl_cons]
    exact hg'
  have hmem : m ∈ g'.others := hothers.subset (List.mem_append_right _ (List.mem_singleton_self m))
  refine ⟨g', mem_findDuplicateGroups.mpr ⟨hclusters, List.ne_nil_of_mem hmem⟩, ?_⟩
  unfold members
  rw [hkeeper]
  exact (hothers.sublist).cons_cons _

/-- The groups are right exactly if the veto sees every negation between a memory and the members
of the group that it joins. -/
theorem findDuplicateGroups_right_iff (F : CaseFold) (W : CharClass) (threshold : ℚ)
    (memories : List Memory) :
    Right F W threshold memories (findDuplicateGroups F W threshold memories) ↔
      Along (place (Near F W threshold)) (Covered F W threshold) [] (ordered memories) := by
  constructor
  · intro hright
    rw [along_iff_split]
    intro before m rest heq g hfind x hx n
    obtain ⟨g', hg', hsub⟩ := joined_group heq hfind
    have hpair := (List.pairwise_append.mp ((hright.apart g' hg').sublist hsub)).2.2 x hx m
      (List.mem_singleton_self m) n
    exact ⟨fun h => absurd (Or.inl h) hpair, fun h => absurd (Or.inr h) hpair⟩
  · intro halong
    have hapart : Apart F W threshold (clusters (Near F W threshold) (ordered memories)) :=
      halong.invariant (Apart F W threshold) (fun _ _ => apart_place)
        (fun g hg => absurd hg List.not_mem_nil)
    have hclusters : ∀ g ∈ findDuplicateGroups F W threshold memories,
        g ∈ clusters (Near F W threshold) (ordered memories) := fun g hg =>
      (mem_findDuplicateGroups.mp hg).1
    refine { several := fun g hg => ?_, disjoint := groups_disjoint memories
             newest := fun g hg => group_newest hg
             similar := fun g hg => near_keeper (hclusters g hg)
             apart := fun g hg => (hapart g (hclusters g hg)).2
             again := again_nil memories }
    have hothers := List.length_pos_of_ne_nil (mem_findDuplicateGroups.mp hg).2
    exact Nat.succ_le_succ hothers

def parkingMemory : Memory where
  id := "a"
  text := some "You can use the new parking lot".toList
  createdAt := some "2026-02-02"

def noParkingMemory : Memory where
  id := "b"
  text := some "You can't use the new parking lot".toList
  createdAt := some "2026-02-01"

/-- What is left of "can't" is no listed token. -/
theorem cant_joins_can :
    ¬ Right CaseFold.lower CharClass.english dedupSimilarityThreshold
      [parkingMemory, noParkingMemory]
      (findDuplicateGroups CaseFold.lower CharClass.english dedupSimilarityThreshold
        [parkingMemory, noParkingMemory]) := by
  have hnear : Near CaseFold.lower CharClass.english dedupSimilarityThreshold noParkingMemory
      parkingMemory := by
    refine le_trans ?_ (containment_le (by decide +kernel) (by decide +kernel) (by decide +kernel))
    decide +kernel
  have hordered : ordered [parkingMemory, noParkingMemory] = [parkingMemory, noParkingMemory] := by
    decide +kernel
  have hgroups : findDuplicateGroups CaseFold.lower CharClass.english dedupSimilarityThreshold
      [parkingMemory, noParkingMemory] = [⟨parkingMemory, [noParkingMemory]⟩] := by
    rw [findDuplicateGroups, hordered, clusters, List.foldl_cons, place, List.foldl_cons, place,
      if_pos hnear]
    rfl
  rw [hgroups]
  intro hright
  have hpair := hright.apart _ (List.mem_singleton_self _)
  have hnot := (List.pairwise_cons.mp hpair).1 noParkingMemory (List.mem_singleton_self _)
    ["can't".toList]
  refine hnot (Or.inl ⟨["you".toList], ["can".toList],
    ["use", "the", "new", "parking", "lot"].map String.toList, ?_, ?_, ?_⟩)
  · decide +kernel
  · decide +kernel
  · decide +kernel

end Cerid.MemoryDedup
