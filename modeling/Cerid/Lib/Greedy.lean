import Cerid.Lib.Run
import Mathlib.Data.List.Basic
import Mathlib.Data.List.Induction

/-!
# Greedy clusters

Items are taken one after the other.  An item joins the first cluster whose keeper it is near to;
where there is none it is the keeper of a cluster of its own.
-/

namespace Cerid

structure Cluster (α : Type*) where
  keeper : α
  others : List α

namespace Cluster

variable {α : Type*}

def members (g : Cluster α) : List α := g.keeper :: g.others

def add (g : Cluster α) (x : α) : Cluster α := { g with others := g.others ++ [x] }

@[simp] theorem keeper_add (g : Cluster α) (x : α) : (g.add x).keeper = g.keeper := rfl

@[simp] theorem others_add (g : Cluster α) (x : α) : (g.add x).others = g.others ++ [x] := rfl

theorem members_add (g : Cluster α) (x : α) : (g.add x).members = g.members ++ [x] := rfl

variable (near : α → α → Prop) [DecidableRel near]

def place (gs : List (Cluster α)) (x : α) : List (Cluster α) :=
  match gs with
  | [] => [⟨x, []⟩]
  | g :: rest => if near x g.keeper then g.add x :: rest else g :: place rest x

def clusters (xs : List α) : List (Cluster α) := xs.foldl (place near) []

variable {near}

/-- An item joins the first cluster that it is near to, or starts one. -/
theorem place_cases (near : α → α → Prop) [DecidableRel near] (gs : List (Cluster α)) (x : α) :
    (∃ front g rest, gs = front ++ g :: rest ∧ near x g.keeper ∧
      gs.find? (fun g => near x g.keeper) = some g ∧
      place near gs x = front ++ g.add x :: rest) ∨
    ((∀ g ∈ gs, ¬ near x g.keeper) ∧ place near gs x = gs ++ [⟨x, []⟩]) := by
  induction gs with
  | nil => exact Or.inr ⟨fun g hg => absurd hg List.not_mem_nil, rfl⟩
  | cons h gs ih =>
    rw [place, List.find?_cons]
    by_cases hnear : near x h.keeper
    · refine Or.inl ⟨[], h, gs, rfl, hnear, ?_, ?_⟩
      · rw [decide_eq_true hnear]
      · rw [if_pos hnear, List.nil_append]
    · rw [if_neg hnear, decide_eq_false hnear]
      rcases ih with ⟨front, g, rest, rfl, hg, hfind, hplace⟩ | ⟨hnone, hplace⟩
      · exact Or.inl ⟨h :: front, g, rest, rfl, hg, hfind, by rw [hplace, List.cons_append]⟩
      · exact Or.inr ⟨List.forall_mem_cons.mpr ⟨hnear, hnone⟩, by rw [hplace, List.cons_append]⟩

/-- A cluster after a step is as it was, has got the item, or is the item's own. -/
theorem mem_place {gs : List (Cluster α)} {x : α} {g : Cluster α} (h : g ∈ place near gs x) :
    g ∈ gs ∨ (∃ g' ∈ gs, near x g'.keeper ∧ gs.find? (fun g => near x g.keeper) = some g' ∧
      g = g'.add x) ∨ g = ⟨x, []⟩ := by
  rcases place_cases near gs x with ⟨front, g', rest, rfl, hnear, hfind, hplace⟩ | ⟨-, hplace⟩
  · rw [hplace, List.mem_append, List.mem_cons] at h
    have hmem : g' ∈ front ++ g' :: rest := List.mem_append_right _ List.mem_cons_self
    rcases h with h | h | h
    · exact Or.inl (List.mem_append_left _ h)
    · exact Or.inr (Or.inl ⟨g', hmem, hnear, hfind, h⟩)
    · exact Or.inl (List.mem_append_right _ (List.mem_cons_of_mem g' h))
  · rw [hplace, List.mem_append, List.mem_singleton] at h
    exact h.imp_right Or.inr

/-- A cluster only grows. -/
theorem place_kept (near : α → α → Prop) [DecidableRel near] {gs : List (Cluster α)}
    {g : Cluster α} (hg : g ∈ gs) (x : α) :
    ∃ g' ∈ place near gs x, g'.keeper = g.keeper ∧ g.others <+: g'.others := by
  rcases place_cases near gs x with ⟨front, h, rest, rfl, -, -, hplace⟩ | ⟨-, hplace⟩
  · rw [hplace]
    rw [List.mem_append, List.mem_cons] at hg
    rcases hg with hg | rfl | hg
    · exact ⟨g, List.mem_append_left _ hg, rfl, List.prefix_refl _⟩
    · exact ⟨g.add x, List.mem_append_right _ List.mem_cons_self, rfl, List.prefix_append _ _⟩
    · exact ⟨g, List.mem_append_right _ (List.mem_cons_of_mem _ hg), rfl, List.prefix_refl _⟩
  · rw [hplace]
    exact ⟨g, List.mem_append_left _ hg, rfl, List.prefix_refl _⟩

theorem foldl_kept (near : α → α → Prop) [DecidableRel near] {gs : List (Cluster α)}
    {g : Cluster α} (hg : g ∈ gs) (xs : List α) :
    ∃ g' ∈ xs.foldl (place near) gs, g'.keeper = g.keeper ∧ g.others <+: g'.others := by
  induction xs generalizing gs g with
  | nil => exact ⟨g, hg, rfl, List.prefix_refl _⟩
  | cons x rest ih =>
    obtain ⟨h, hh, hkeeper, hothers⟩ := place_kept near hg x
    obtain ⟨g', hg', hkeeper', hothers'⟩ := ih hh
    exact ⟨g', hg', hkeeper'.trans hkeeper, hothers.trans hothers'⟩

theorem clusters_concat (xs : List α) (x : α) :
    clusters near (xs ++ [x]) = place near (clusters near xs) x := by
  unfold clusters
  rw [List.foldl_append, List.foldl_cons, List.foldl_nil]

/-! ## What clusters are made of -/

/-- Every item is in one cluster, once. -/
theorem perm_clusters (xs : List α) : ((clusters near xs).flatMap members).Perm xs := by
  induction xs using List.reverseRecOn with
  | nil => exact List.Perm.refl _
  | append_singleton xs x ih =>
    have hstep : ((place near (clusters near xs) x).flatMap members).Perm
        ((clusters near xs).flatMap members ++ [x]) := by
      rcases place_cases near (clusters near xs) x with
        ⟨front, g, rest, heq, -, -, hplace⟩ | ⟨-, hplace⟩
      · rw [hplace, heq]
        simp only [List.flatMap_append, List.flatMap_cons, members_add, List.append_assoc]
        exact (List.perm_append_comm.append_left g.members).append_left _
      · rw [hplace, List.flatMap_append, List.flatMap_singleton]
        exact List.Perm.refl _
    rw [clusters_concat]
    exact hstep.trans (ih.append_right [x])

/-- The members of a cluster stand in their order. -/
theorem members_sublist {xs : List α} {g : Cluster α} (hg : g ∈ clusters near xs) :
    g.members.Sublist xs := by
  induction xs using List.reverseRecOn generalizing g with
  | nil => exact absurd hg List.not_mem_nil
  | append_singleton xs x ih =>
    rw [clusters_concat] at hg
    rcases mem_place hg with hg | ⟨g', hg', -, -, rfl⟩ | rfl
    · exact (ih hg).trans (List.sublist_append_left xs [x])
    · rw [members_add]
      exact (ih hg').append (List.Sublist.refl [x])
    · exact List.sublist_append_right xs [x]

theorem near_keeper {xs : List α} {g : Cluster α} (hg : g ∈ clusters near xs) :
    ∀ y ∈ g.others, near y g.keeper := by
  induction xs using List.reverseRecOn generalizing g with
  | nil => exact absurd hg List.not_mem_nil
  | append_singleton xs x ih =>
    rw [clusters_concat] at hg
    rcases mem_place hg with hg | ⟨g', hg', hnear, -, rfl⟩ | rfl
    · exact ih hg
    · intro y hy
      rw [others_add, List.mem_append, List.mem_singleton] at hy
      rcases hy with hy | rfl
      · exact ih hg' y hy
      · exact hnear
    · exact fun y hy => absurd hy List.not_mem_nil

/-! ## A second run -/

/-- No keeper is near to one before it. -/
theorem pairwise_keepers (xs : List α) :
    ((clusters near xs).map keeper).Pairwise fun k k' => ¬ near k' k := by
  induction xs using List.reverseRecOn with
  | nil => exact List.Pairwise.nil
  | append_singleton xs x ih =>
    rw [clusters_concat]
    rcases place_cases near (clusters near xs) x with
      ⟨front, g, rest, heq, -, -, hplace⟩ | ⟨hnone, hplace⟩
    · rw [heq] at ih
      rw [hplace]
      simpa only [List.map_append, List.map_cons, keeper_add] using ih
    · rw [hplace, List.map_append, List.pairwise_append]
      refine ⟨ih, List.pairwise_singleton _ _, fun k hk k' hk' => ?_⟩
      obtain ⟨g, hg, rfl⟩ := List.mem_map.mp hk
      rw [List.map_singleton, List.mem_singleton] at hk'
      subst hk'
      exact hnone g hg

/-- What is left when all but the keepers are dropped. -/
theorem filter_sublist_keepers {xs : List α} {p : α → Bool}
    (hp : ∀ g ∈ clusters near xs, ∀ y ∈ g.others, p y = false) :
    (xs.filter p).Sublist ((clusters near xs).map keeper) := by
  induction xs using List.reverseRecOn with
  | nil => exact List.Sublist.refl _
  | append_singleton xs x ih =>
    rw [clusters_concat] at hp
    have hbefore : ∀ g ∈ clusters near xs, ∀ y ∈ g.others, p y = false := by
      intro g hg y hy
      obtain ⟨g', hg', -, hothers⟩ := place_kept near hg x
      exact hp g' hg' y (hothers.subset hy)
    have ih := ih hbefore
    rw [clusters_concat, List.filter_append]
    rcases place_cases near (clusters near xs) x with
      ⟨front, g, rest, heq, -, -, hplace⟩ | ⟨-, hplace⟩
    · have hx : p x = false := by
        refine hp (g.add x) ?_ x (List.mem_append_right _ (List.mem_singleton_self x))
        rw [hplace]
        exact List.mem_append_right _ List.mem_cons_self
      rw [heq] at ih
      rw [hplace, List.filter_cons_of_neg (by rw [hx]; exact Bool.false_ne_true), List.filter_nil,
        List.append_nil]
      simpa only [List.map_append, List.map_cons, keeper_add] using ih
    · rw [hplace, List.map_append, List.map_singleton]
      refine ih.append ?_
      exact List.filter_sublist

/-- Where no item is near to one before it, every cluster has one member. -/
theorem clusters_of_pairwise {xs : List α} (h : xs.Pairwise fun k k' => ¬ near k' k) :
    clusters near xs = xs.map fun x => ⟨x, []⟩ := by
  induction xs using List.reverseRecOn with
  | nil => rfl
  | append_singleton xs x ih =>
    rw [List.pairwise_append] at h
    rw [clusters_concat, ih h.1, List.map_append, List.map_singleton]
    rcases place_cases near (xs.map fun x => (⟨x, []⟩ : Cluster α)) x with
      ⟨front, g, rest, heq, hnear, -, -⟩ | ⟨-, hplace⟩
    · have hg : g ∈ xs.map fun x => (⟨x, []⟩ : Cluster α) := by
        rw [heq]
        exact List.mem_append_right _ List.mem_cons_self
      obtain ⟨y, hy, rfl⟩ := List.mem_map.mp hg
      exact absurd hnear (h.2.2 y hy x (List.mem_singleton_self x))
    · exact hplace

end Cluster

end Cerid
