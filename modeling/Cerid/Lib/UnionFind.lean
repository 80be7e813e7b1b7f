import Mathlib.Algebra.Order.Group.Nat
import Mathlib.Data.List.Induction
import Mathlib.Data.Nat.Find
import Mathlib.Logic.Function.Iterate
import Mathlib.Logic.Relation

/-!
# Union-find

A forest is a map to parents from which every element comes to a root, an element that is its own
parent; one that no union has met is a root.  `find` halves the path it climbs, which moves no
element to another root (`root_find`), and `union` joins two trees (`root_union`).  So two elements
have one root exactly if the unions connect them (`root_unions`).
-/

namespace Cerid

structure Forest (α : Type) where
  parent : α → α
  grounded : ∀ x, ∃ n, parent (parent^[n] x) = parent^[n] x

namespace Forest

variable {α : Type} [DecidableEq α]

/-- How far an element is below its root. -/
def depth (F : Forest α) (x : α) : Nat := Nat.find (F.grounded x)

def root (F : Forest α) (x : α) : α := F.parent^[F.depth x] x

theorem depth_eq_zero (F : Forest α) {x : α} : F.depth x = 0 ↔ F.parent x = x :=
  Nat.find_eq_zero _

theorem depth_parent (F : Forest α) {x : α} (h : F.parent x ≠ x) :
    F.depth x = F.depth (F.parent x) + 1 := by
  unfold depth
  rw [Nat.find_eq_iff]
  refine ⟨?_, fun n hn => ?_⟩
  · rw [Function.iterate_succ_apply]
    exact Nat.find_spec (F.grounded (F.parent x))
  · cases n with
    | zero => exact h
    | succ n =>
      rw [Function.iterate_succ_apply]
      exact Nat.find_min (F.grounded (F.parent x)) (Nat.lt_of_succ_lt_succ hn)

theorem parent_root (F : Forest α) (x : α) : F.parent (F.root x) = F.root x :=
  Nat.find_spec (F.grounded x)

theorem root_of_fixed (F : Forest α) {x : α} (h : F.parent x = x) : F.root x = x := by
  unfold root
  rw [F.depth_eq_zero.mpr h]
  rfl

theorem root_parent (F : Forest α) (x : α) : F.root (F.parent x) = F.root x := by
  by_cases h : F.parent x = x
  · rw [h]
  · unfold root
    rw [F.depth_parent h, Function.iterate_succ_apply]

theorem root_root (F : Forest α) (x : α) : F.root (F.root x) = F.root x :=
  F.root_of_fixed (F.parent_root x)

/-- A number that falls from every element to its parent bounds the depth. -/
theorem depth_le (F : Forest α) (rank : α → Nat)
    (h : ∀ x, F.parent x ≠ x → rank (F.parent x) < rank x) (x : α) : F.depth x ≤ rank x := by
  induction hn : F.depth x generalizing x with
  | zero => exact Nat.zero_le _
  | succ n ih =>
    have hx : F.parent x ≠ x := fun heq => by
      rw [F.depth_eq_zero.mpr heq] at hn
      cases hn
    have hparent : F.depth (F.parent x) = n := Nat.succ.inj ((F.depth_parent hx).symm.trans hn)
    exact Nat.succ_le_of_lt (Nat.lt_of_le_of_lt (ih _ hparent) (h x hx))

/-- The forest of a map along which a number falls. -/
def ofRank (parent : α → α) (rank : α → Nat)
    (h : ∀ x, parent x ≠ x → rank (parent x) < rank x) : Forest α where
  parent := parent
  grounded := by
    intro x
    induction hn : rank x using Nat.strong_induction_on generalizing x with
    | _ n ih =>
      by_cases hx : parent x = x
      · exact ⟨0, hx⟩
      · obtain ⟨m, hm⟩ := ih _ (hn ▸ h x hx) (parent x) rfl
        exact ⟨m + 1, hm⟩

/-- The root is the only map that fixes the roots and is the same on an element and its
parent. -/
theorem eq_root (F : Forest α) {f : α → α} (hfixed : ∀ x, F.parent x = x → f x = x)
    (hparent : ∀ x, F.parent x ≠ x → f (F.parent x) = f x) (x : α) : f x = F.root x := by
  induction hn : F.depth x generalizing x with
  | zero =>
    have hx := F.depth_eq_zero.mp hn
    rw [hfixed x hx, F.root_of_fixed hx]
  | succ n ih =>
    have hx : F.parent x ≠ x := fun heq => by
      rw [F.depth_eq_zero.mpr heq] at hn
      cases hn
    have hn' : F.depth (F.parent x) = n := Nat.succ.inj ((F.depth_parent hx).symm.trans hn)
    rw [← hparent x hx, ih _ hn', F.root_parent]

/-! ## Finding -/

theorem depth_grandparent (F : Forest α) {x : α} (h : F.parent x ≠ x) :
    F.depth (F.parent (F.parent x)) < F.depth x := by
  have hx := F.depth_parent h
  by_cases hp : F.parent (F.parent x) = F.parent x
  · rw [hp]
    omega
  · have hparent := F.depth_parent hp
    omega

theorem grandparent_ne (F : Forest α) {x : α} (h : F.parent x ≠ x) :
    F.parent (F.parent x) ≠ x := by
  intro heq
  have hlt := F.depth_grandparent h
  rw [heq] at hlt
  exact Nat.lt_irrefl _ hlt

theorem halved_falls (F : Forest α) (x y : α)
    (hy : Function.update F.parent x (F.parent (F.parent x)) y ≠ y) :
    F.depth (Function.update F.parent x (F.parent (F.parent x)) y) < F.depth y := by
  by_cases hxy : y = x
  · subst hxy
    rw [Function.update_self] at hy ⊢
    refine F.depth_grandparent (fun heq => hy ?_)
    rw [heq, heq]
  · rw [Function.update_of_ne hxy] at hy ⊢
    have hdepth := F.depth_parent hy
    omega

/-- `parent[x] = parent[parent[x]]`. -/
def halve (F : Forest α) (x : α) : Forest α :=
  ofRank (Function.update F.parent x (F.parent (F.parent x))) F.depth (F.halved_falls x)

theorem parent_halve (F : Forest α) (x y : α) :
    (F.halve x).parent y = if y = x then F.parent (F.parent x) else F.parent y :=
  Function.update_apply F.parent x _ y

theorem depth_halve (F : Forest α) {x : α} (h : F.parent x ≠ x) :
    (F.halve x).depth ((F.halve x).parent x) < F.depth x := by
  rw [F.parent_halve, if_pos rfl]
  exact Nat.lt_of_le_of_lt ((F.halve x).depth_le F.depth (F.halved_falls x) _)
    (F.depth_grandparent h)

theorem root_halve (F : Forest α) (x y : α) : (F.halve x).root y = F.root y := by
  refine ((F.halve x).eq_root (f := F.root) (fun z hz => ?_) (fun z _ => ?_) y).symm
  · rw [F.parent_halve] at hz
    split at hz
    · rename_i hzx
      subst hzx
      by_contra hroot
      exact F.grandparent_ne (fun heq => hroot (F.root_of_fixed heq)) hz
    · exact F.root_of_fixed hz
  · rw [F.parent_halve]
    split
    · rename_i hzx
      rw [F.root_parent, F.root_parent, hzx]
    · exact F.root_parent z

/-- Climb to the root, halving the path on the way. -/
def find (F : Forest α) (x : α) : Forest α × α :=
  if F.parent x = x then (F, x) else (F.halve x).find ((F.halve x).parent x)
termination_by F.depth x
decreasing_by exact F.depth_halve ‹_›

theorem find_spec (F : Forest α) (x : α) :
    (F.find x).2 = F.root x ∧ ∀ y, (F.find x).1.root y = F.root y := by
  fun_induction find F x with
  | case1 F x h => exact ⟨(F.root_of_fixed h).symm, fun _ => rfl⟩
  | case2 F x h ih =>
    refine ⟨?_, fun y => ?_⟩
    · rw [ih.1, root_parent, root_halve]
    · rw [ih.2, root_halve]

theorem find_snd (F : Forest α) (x : α) : (F.find x).2 = F.root x := (F.find_spec x).1

theorem root_find (F : Forest α) (x y : α) : (F.find x).1.root y = F.root y := (F.find_spec x).2 y

/-! ## Unions -/

theorem linked_falls (F : Forest α) {r s : α} (hr : F.root r = r) (hs : F.root s ≠ r) (x : α)
    (hx : Function.update F.parent r s x ≠ x) :
    F.depth (Function.update F.parent r s x) +
        (if F.root (Function.update F.parent r s x) = r then F.depth s + 1 else 0) <
      F.depth x + (if F.root x = r then F.depth s + 1 else 0) := by
  by_cases hxr : x = r
  · subst hxr
    rw [Function.update_self, if_neg hs, if_pos hr]
    omega
  · rw [Function.update_of_ne hxr] at hx ⊢
    rw [F.root_parent]
    have hdepth := F.depth_parent hx
    omega

/-- `parent[r] = s`, for a root `r` that is not the one of `s`. -/
def link (F : Forest α) (r s : α) (hr : F.root r = r) (hs : F.root s ≠ r) : Forest α :=
  ofRank (Function.update F.parent r s)
    (fun x => F.depth x + if F.root x = r then F.depth s + 1 else 0) (F.linked_falls hr hs)

theorem root_link (F : Forest α) {r s : α} (hr : F.root r = r) (hs : F.root s ≠ r) (x : α) :
    (F.link r s hr hs).root x = if F.root x = r then F.root s else F.root x := by
  have hparent : ∀ y, (F.link r s hr hs).parent y = if y = r then s else F.parent y :=
    fun y => Function.update_apply F.parent r s y
  refine ((F.link r s hr hs).eq_root
    (f := fun y => if F.root y = r then F.root s else F.root y) (fun y hy => ?_)
    (fun y _ => ?_) x).symm
  · rw [hparent] at hy
    by_cases hyr : y = r
    · rw [if_pos hyr] at hy
      subst hyr
      rw [hy] at hs
      exact absurd hr hs
    · rw [if_neg hyr] at hy
      rw [F.root_of_fixed hy, if_neg hyr]
  · rw [hparent]
    by_cases hyr : y = r
    · rw [if_pos hyr, if_neg hs, hyr, if_pos hr]
    · rw [if_neg hyr, F.root_parent]

/-- The roots of the two are found, and the first is put below the second. -/
def union (F : Forest α) (a b : α) : Forest α :=
  let Fa := F.find a
  let Fb := Fa.1.find b
  if h : Fa.2 = Fb.2 then Fb.1
  else Fb.1.link Fa.2 Fb.2
    (by rw [root_find, root_find, find_snd, root_root])
    (fun hs => h (by rw [← hs, root_find, find_snd, root_root]))

theorem root_union (F : Forest α) (a b x : α) :
    (F.union a b).root x = if F.root x = F.root a then F.root b else F.root x := by
  have hb : ((F.find a).1.find b).2 = F.root b := by rw [find_snd, root_find]
  unfold union
  dsimp only
  split
  · rename_i h
    rw [find_snd, hb] at h
    rw [root_find, root_find]
    split
    · rename_i hx
      rw [hx, h]
    · rfl
  · rw [root_link, root_find, root_find, root_find, root_find, find_snd, hb, root_root]

/-- Every element on its own. -/
def discrete : Forest α where
  parent := id
  grounded := fun _ => ⟨0, rfl⟩

def unions (pairs : List (α × α)) : Forest α :=
  pairs.foldl (fun F p => F.union p.1 p.2) discrete

/-- A path of pairs, taken either way, goes from one to the other. -/
def Connected (pairs : List (α × α)) : α → α → Prop :=
  Relation.EqvGen (fun a b => (a, b) ∈ pairs)

omit [DecidableEq α] in
theorem Connected.mono {pairs pairs' : List (α × α)} (h : pairs ⊆ pairs') {a b : α}
    (hab : Connected pairs a b) : Connected pairs' a b :=
  Relation.EqvGen.mono (fun _ _ hmem => h hmem) a b hab

theorem root_unions_of_connected {pairs : List (α × α)} {F : Forest α} {p : α × α}
    (ih : ∀ a b, Connected pairs a b → F.root a = F.root b) {a b : α}
    (h : Connected (pairs ++ [p]) a b) :
    (F.union p.1 p.2).root a = (F.union p.1 p.2).root b := by
  induction h with
  | rel a b hmem =>
    rcases List.mem_append.mp hmem with hmem | hmem
    · rw [root_union, root_union, ih a b (Relation.EqvGen.rel a b hmem)]
    · rw [List.mem_singleton] at hmem
      subst hmem
      rw [root_union, root_union, if_pos rfl]
      split <;> rfl
  | refl a => rfl
  | symm a b _ ih' => exact ih'.symm
  | trans a b c _ _ h₁ h₂ => exact h₁.trans h₂

theorem connected_of_root_union {pairs : List (α × α)} {F : Forest α} {p : α × α}
    (ih : ∀ a b, F.root a = F.root b → Connected pairs a b) {a b : α}
    (h : (F.union p.1 p.2).root a = (F.union p.1 p.2).root b) :
    Connected (pairs ++ [p]) a b := by
  have hold : ∀ x y, F.root x = F.root y → Connected (pairs ++ [p]) x y :=
    fun x y hxy => (ih x y hxy).mono (List.subset_append_left _ _)
  have hnew : Connected (pairs ++ [p]) p.1 p.2 :=
    Relation.EqvGen.rel _ _ (List.mem_append_right _ (List.mem_singleton_self p))
  rw [root_union, root_union] at h
  by_cases ha : F.root a = F.root p.1
  · by_cases hb : F.root b = F.root p.1
    · exact hold a b (ha.trans hb.symm)
    · rw [if_pos ha, if_neg hb] at h
      exact ((hold a p.1 ha).trans _ _ _ hnew).trans _ _ _ (hold p.2 b h)
  · by_cases hb : F.root b = F.root p.1
    · rw [if_neg ha, if_pos hb] at h
      exact ((hold a p.2 h).trans _ _ _ (hnew.symm _ _)).trans _ _ _ (hold p.1 b hb.symm)
    · rw [if_neg ha, if_neg hb] at h
      exact hold a b h

theorem root_unions (pairs : List (α × α)) (a b : α) :
    (unions pairs).root a = (unions pairs).root b ↔ Connected pairs a b := by
  induction pairs using List.reverseRecOn generalizing a b with
  | nil =>
    have hdiscrete : ∀ x, (unions ([] : List (α × α))).root x = x :=
      fun x => root_of_fixed _ rfl
    rw [hdiscrete, hdiscrete]
    constructor
    · rintro rfl
      exact Relation.EqvGen.refl a
    · intro h
      induction h with
      | rel a b hmem => exact absurd hmem List.not_mem_nil
      | refl a => rfl
      | symm a b _ ih => exact ih.symm
      | trans a b c _ _ h₁ h₂ => exact h₁.trans h₂
  | append_singleton pairs p ih =>
    have hunion : unions (pairs ++ [p]) = (unions pairs).union p.1 p.2 := by
      unfold unions
      rw [List.foldl_append]
      rfl
    rw [hunion]
    constructor
    · exact connected_of_root_union fun x y => (ih x y).mp
    · exact root_unions_of_connected fun x y => (ih x y).mpr

end Forest

end Cerid
