import Cerid.Lib.Dict
import Cerid.Lib.UnionFind
import Mathlib.Data.List.MinMax
import Mathlib.Data.Prod.Lex
import Mathlib.Order.Bounds.Basic

/-!
# Clusters of merge pairs

The pairs of a sweep are the edges of a graph, and its components with more than one member are
merged: into the member of the highest rank, with the confidence of the least similar pair.  The
components are read off a union-find forest that every look-up rewrites.

Similarities are of any linear order.
-/

namespace Cerid.EntityGraph.Clusters

structure MergePair (σ : Type) where
  aId : String
  bId : String
  similarity : σ
  band : String

/-- An entity, as `_load` lists it. -/
structure Entity where
  canonicalId : String
  name : Option String
  entityType : Option String
  mentionCount : Option Int

structure Cluster (σ : Type) where
  survivorId : String
  loserIds : List String
  entityType : String
  survivorName : String
  mergeMethod : String
  mergeConfidence : Option σ

def MERGE_METHOD_EMBEDDING_AUTO : String := "embedding_auto"
def MERGE_METHOD_EMBEDDING_ADJUDICATED : String := "embedding_adjudicated"

/-- `x or default`, of a text. -/
def orElse (text : Option String) (default : String) : String :=
  match text with
  | none => default
  | some s => if s = "" then default else s

section Rank

variable (entities : List Entity)

/-- `{e["canonical_id"]: e for e in entities}`. -/
def byId : Dict String Entity := entities.foldl (fun d e => d.set e.canonicalId e) .empty

def info (cid : String) : Option Entity := (byId entities).get? cid

/-- The order of ranks, by the computable orders of the counts and the lengths. -/
instance preorderRank : Preorder (ℤ ×ₗ ℕ) := @Prod.Lex.instPreorder ℤ ℕ Int.instLinearOrder.toPreorder _

/-- `_rank`. -/
def rank (cid : String) : ℤ ×ₗ ℕ :=
  toLex (((info entities cid).bind Entity.mentionCount).getD 0,
    (orElse ((info entities cid).bind Entity.name) "").length)

end Rank

variable {σ : Type} [LinearOrder σ]

/-! ## The loops -/

def MergePair.ends (p : MergePair σ) : String × String := (p.aId, p.bId)

/-- `components.setdefault(root, [])`, and the id put at its end unless it is there. -/
def addMember (components : Dict String (List String)) (root cid : String) :
    Dict String (List String) :=
  let members := (components.get? root).getD []
  components.set root (if cid ∈ members then members else members ++ [cid])

def gather (s : Forest String × Dict String (List String)) (cid : String) :
    Forest String × Dict String (List String) :=
  let found := s.1.find cid
  (found.1, addMember s.2 found.2 cid)

/-- What is known of the pairs of the components, by their roots. -/
structure Provenance (σ : Type) where
  forest : Forest String
  minSim : Dict String σ
  adjudicated : Dict String Bool

def Provenance.step (s : Provenance σ) (p : MergePair σ) : Provenance σ :=
  let found := s.forest.find p.aId
  { forest := found.1
    minSim := s.minSim.set found.2
      (match s.minSim.get? found.2 with
      | none => p.similarity
      | some prior => min prior p.similarity)
    adjudicated := if p.band = "adjudicate" then s.adjudicated.set found.2 true else s.adjudicated }

/-- The cluster of a component, unless the survivor is alone in it. -/
def cluster (entities : List Entity) (s : Provenance σ) (component : String × List String) :
    Option (Cluster σ) :=
  match component.2.argmax (rank entities) with
  | none => none
  | some survivor =>
    let losers := component.2.filter (· ≠ survivor)
    if losers = [] then none
    else some
      { survivorId := survivor
        loserIds := losers
        entityType := orElse ((info entities survivor).bind Entity.entityType) ""
        survivorName := orElse ((info entities survivor).bind Entity.name) survivor
        mergeMethod :=
          if (s.adjudicated.get? component.1).getD false then MERGE_METHOD_EMBEDDING_ADJUDICATED
          else MERGE_METHOD_EMBEDDING_AUTO
        mergeConfidence := s.minSim.get? component.1 }

def pairIds (pairs : List (MergePair σ)) : List String := pairs.flatMap fun p => [p.aId, p.bId]

/-- The forest of the unions, and the components by their roots. -/
def components (pairs : List (MergePair σ)) : Forest String × Dict String (List String) :=
  (pairIds pairs).foldl gather (Forest.unions (pairs.map MergePair.ends), .empty)

def provenance (pairs : List (MergePair σ)) : Provenance σ :=
  pairs.foldl Provenance.step
    { forest := (components pairs).1, minSim := .empty, adjudicated := .empty }

/-- `_cluster_pairs`. -/
def clusterPairs (pairs : List (MergePair σ)) (entities : List Entity) : List (Cluster σ) :=
  (components pairs).2.items.filterMap (cluster entities (provenance pairs))

/-! ## What is asked of the clusters -/

/-- A path of pairs goes from one entity to the other. -/
def Linked (pairs : List (MergePair σ)) : String → String → Prop :=
  Forest.Connected (pairs.map MergePair.ends)

def Cluster.members (c : Cluster σ) : List String := c.survivorId :: c.loserIds

/-- The pairs of a cluster. -/
def Cluster.pairs (c : Cluster σ) (pairs : List (MergePair σ)) : Set (MergePair σ) :=
  fun p => p ∈ pairs ∧ p.aId ∈ c.members

/-- The clusters are the components of more than one member, each with the survivor, the
confidence and the method of its pairs. -/
structure Right (pairs : List (MergePair σ)) (entities : List Entity)
    (clusters : List (Cluster σ)) : Prop where
  component : ∀ c ∈ clusters, ∀ x, x ∈ c.members ↔ Linked pairs c.survivorId x
  several : ∀ c ∈ clusters, c.loserIds ≠ []
  distinct : ∀ c ∈ clusters, c.members.Nodup
  complete : ∀ a b, a ≠ b → Linked pairs a b → ∃ c ∈ clusters, a ∈ c.members
  once : clusters.Pairwise fun c d => c.members.Disjoint d.members
  survivor : ∀ c ∈ clusters, ∀ x ∈ c.members, rank entities x ≤ rank entities c.survivorId
  confidence : ∀ c ∈ clusters, ∃ least, c.mergeConfidence = some least ∧
    IsLeast (Set.image MergePair.similarity (c.pairs pairs)) least
  method : ∀ c ∈ clusters, c.mergeMethod = MERGE_METHOD_EMBEDDING_ADJUDICATED ↔
    ∃ p ∈ c.pairs pairs, p.band = "adjudicate"

/-- Clusters that differ in the order of their losers at most. -/
structure Cluster.Same (c d : Cluster σ) : Prop where
  survivorId : c.survivorId = d.survivorId
  loserIds : c.loserIds.Perm d.loserIds
  entityType : c.entityType = d.entityType
  survivorName : c.survivorName = d.survivorName
  mergeMethod : c.mergeMethod = d.mergeMethod
  mergeConfidence : c.mergeConfidence = d.mergeConfidence

/-! ## The components -/

variable {pairs pairs' : List (MergePair σ)} {entities : List Entity}

/-- The root of an entity once the unions are done. -/
def rootOf (pairs : List (MergePair σ)) : String → String :=
  (Forest.unions (pairs.map MergePair.ends)).root

omit [LinearOrder σ] in
theorem rootOf_eq_iff (a b : String) : rootOf pairs a = rootOf pairs b ↔ Linked pairs a b :=
  Forest.root_unions _ a b

/-- The members that the ids so far are put under. -/
structure Gathered (root : String → String) (ids : List String)
    (s : Forest String × Dict String (List String)) : Prop where
  forest : ∀ x, s.1.root x = root x
  nodup : ∀ r members, s.2.get? r = some members → members.Nodup
  mem : ∀ r members, s.2.get? r = some members → ∀ c, c ∈ members ↔ c ∈ ids ∧ root c = r
  found : ∀ c ∈ ids, ∃ members, s.2.get? (root c) = some members

theorem Gathered.step {root : String → String} {ids : List String}
    {s : Forest String × Dict String (List String)} (h : Gathered root ids s) (cid : String) :
    Gathered root (ids ++ [cid]) (gather s cid) := by
  have hroot : (s.1.find cid).2 = root cid := (s.1.find_snd cid).trans (h.forest cid)
  have hget : ∀ r, (gather s cid).2.get? r =
      if r = root cid then
        some (if cid ∈ (s.2.get? (root cid)).getD [] then (s.2.get? (root cid)).getD []
          else (s.2.get? (root cid)).getD [] ++ [cid])
      else s.2.get? r := by
    intro r
    unfold gather addMember
    rw [Dict.get?_set, hroot]
  have hold : ∀ c, c ∈ (s.2.get? (root cid)).getD [] ↔ c ∈ ids ∧ root c = root cid := by
    intro c
    cases hm : s.2.get? (root cid) with
    | none =>
      refine iff_of_false List.not_mem_nil fun hc => ?_
      obtain ⟨members, hmembers⟩ := h.found c hc.1
      rw [hc.2, hm] at hmembers
      cases hmembers
    | some members => exact h.mem _ members hm c
  have hnodup : ((s.2.get? (root cid)).getD []).Nodup := by
    cases hm : s.2.get? (root cid) with
    | none => exact List.nodup_nil
    | some members => exact h.nodup _ members hm
  refine { forest := fun x => ?_, nodup := fun r members hr => ?_, mem := fun r members hr c => ?_
           found := fun c hc => ?_ }
  · rw [← h.forest x]
    exact s.1.root_find cid x
  · rw [hget] at hr
    split at hr
    · rw [← Option.some.inj hr]
      split
      · exact hnodup
      · rename_i hnew
        rw [← List.concat_eq_append]
        exact hnodup.concat hnew
    · exact h.nodup r members hr
  · rw [hget] at hr
    split at hr
    · rename_i heq
      rw [heq, ← Option.some.inj hr, List.mem_append, List.mem_singleton, or_and_right, ← hold c]
      split
      · rename_i hthere
        refine ⟨Or.inl, fun hc => hc.elim id ?_⟩
        rintro ⟨rfl, -⟩
        exact hthere
      · rw [List.mem_append, List.mem_singleton]
        refine or_congr_right ⟨?_, And.left⟩
        rintro rfl
        exact ⟨rfl, rfl⟩
    · rename_i hne
      rw [h.mem r members hr, List.mem_append, List.mem_singleton]
      refine ⟨fun hc => ⟨Or.inl hc.1, hc.2⟩, fun hc => ⟨hc.1.resolve_right ?_, hc.2⟩⟩
      rintro rfl
      exact hne hc.2.symm
  · rw [hget]
    split
    · exact ⟨_, rfl⟩
    · rename_i hne
      rcases List.mem_append.mp hc with hc | hc
      · exact h.found c hc
      · exact absurd (congrArg root (List.mem_singleton.mp hc)) hne

omit [LinearOrder σ] in
theorem gathered_components (pairs : List (MergePair σ)) :
    Gathered (rootOf pairs) (pairIds pairs) (components pairs) := by
  unfold components
  induction pairIds pairs using List.reverseRecOn with
  | nil =>
    refine { forest := fun _ => rfl, nodup := fun _ _ h => ?_, mem := fun _ _ h => ?_
             found := fun _ h => absurd h List.not_mem_nil }
    · cases h
    · cases h
  | append_singleton ids cid ih =>
    rw [List.foldl_append]
    exact ih.step cid

/-! ## Their pairs -/

/-- What is known of the pairs so far. -/
structure Known (root : String → String) (pairs : List (MergePair σ)) (s : Provenance σ) :
    Prop where
  forest : ∀ x, s.forest.root x = root x
  least : ∀ p ∈ pairs, ∃ m, s.minSim.get? (root p.aId) = some m ∧ m ≤ p.similarity
  reached : ∀ r m, s.minSim.get? r = some m → ∃ p ∈ pairs, root p.aId = r ∧ p.similarity = m
  adjudicated : ∀ r, (s.adjudicated.get? r).getD false = true ↔
    ∃ p ∈ pairs, root p.aId = r ∧ p.band = "adjudicate"

theorem Known.step {root : String → String} {s : Provenance σ} (h : Known root pairs s)
    (p : MergePair σ) : Known root (pairs ++ [p]) (s.step p) := by
  have hroot : (s.forest.find p.aId).2 = root p.aId :=
    (s.forest.find_snd p.aId).trans (h.forest p.aId)
  have hmin : ∀ r, (s.step p).minSim.get? r =
      if r = root p.aId then
        some (match s.minSim.get? (root p.aId) with
          | none => p.similarity
          | some prior => min prior p.similarity)
      else s.minSim.get? r := by
    intro r
    unfold Provenance.step
    dsimp only
    rw [Dict.get?_set, hroot]
  refine { forest := fun x => ?_, least := fun q hq => ?_, reached := fun r m hm => ?_
           adjudicated := fun r => ?_ }
  · rw [← h.forest x]
    exact s.forest.root_find p.aId x
  · rw [hmin]
    by_cases hr : root q.aId = root p.aId
    · rw [if_pos hr]
      rcases List.mem_append.mp hq with hq | hq
      · obtain ⟨m, hm, hle⟩ := h.least q hq
        rw [hr] at hm
        rw [hm]
        exact ⟨_, rfl, (min_le_left _ _).trans hle⟩
      · rw [List.mem_singleton] at hq
        subst hq
        refine ⟨_, rfl, ?_⟩
        cases s.minSim.get? (root q.aId) with
        | none => exact le_rfl
        | some prior => exact min_le_right _ _
    · rw [if_neg hr]
      rcases List.mem_append.mp hq with hq | hq
      · exact h.least q hq
      · exact absurd (congrArg (fun q => root q.aId) (List.mem_singleton.mp hq)) hr
  · have hlift : (∃ q ∈ pairs, root q.aId = r ∧ q.similarity = m) →
        ∃ q ∈ pairs ++ [p], root q.aId = r ∧ q.similarity = m := by
      rintro ⟨q, hq, hqr⟩
      exact ⟨q, List.mem_append_left _ hq, hqr⟩
    have hthis : p ∈ pairs ++ [p] := List.mem_append_right _ (List.mem_singleton_self p)
    rw [hmin] at hm
    split at hm
    · rename_i hr
      have hm := Option.some.inj hm
      cases hprior : s.minSim.get? (root p.aId) with
      | none =>
        rw [hprior] at hm
        exact ⟨p, hthis, hr.symm, hm⟩
      | some prior =>
        have hmin : min prior p.similarity = m := by
          rw [hprior] at hm
          exact hm
        rcases min_choice prior p.similarity with hchoice | hchoice
        · exact hlift (h.reached r m (by rw [hr, hprior, ← hmin, hchoice]))
        · exact ⟨p, hthis, hr.symm, hchoice.symm.trans hmin⟩
    · exact hlift (h.reached r m hm)
  · have hsplit : (∃ q ∈ pairs ++ [p], root q.aId = r ∧ q.band = "adjudicate") ↔
        (∃ q ∈ pairs, root q.aId = r ∧ q.band = "adjudicate") ∨
          root p.aId = r ∧ p.band = "adjudicate" := by
      simp only [List.mem_append, List.mem_singleton, or_and_right, exists_or, exists_eq_left]
    rw [hsplit, ← h.adjudicated r]
    unfold Provenance.step
    dsimp only
    split
    · rename_i hband
      rw [Dict.get?_set, hroot]
      split
      · rename_i hr
        exact iff_of_true rfl (Or.inr ⟨hr.symm, hband⟩)
      · rename_i hr
        exact (or_iff_left fun hp => hr hp.1.symm).symm
    · rename_i hband
      exact (or_iff_left fun hp => hband hp.2).symm

theorem known_provenance (pairs : List (MergePair σ)) :
    Known (rootOf pairs) pairs (provenance pairs) := by
  have hforest := (gathered_components pairs).forest
  unfold provenance
  generalize rootOf pairs = root at hforest ⊢
  generalize (components pairs).1 = forest at hforest ⊢
  induction pairs using List.reverseRecOn with
  | nil =>
    refine { forest := hforest, least := fun _ h => absurd h List.not_mem_nil
             reached := fun _ _ h => ?_, adjudicated := fun _ => ?_ }
    · cases h
    · exact iff_of_false Bool.false_ne_true fun ⟨_, h, _⟩ => absurd h List.not_mem_nil
  | append_singleton pairs p ih =>
    rw [List.foldl_append]
    exact ih.step p

/-! ## One cluster -/

/-- What a cluster is made of, from its root and its members. -/
structure Made (entities : List Entity) (s : Provenance σ) (root : String) (members : List String)
    (c : Cluster σ) : Prop where
  perm : c.members.Perm members
  several : c.loserIds ≠ []
  survivor : c.survivorId ∈ members.argmax (rank entities)
  entityType : c.entityType = orElse ((info entities c.survivorId).bind Entity.entityType) ""
  survivorName :
    c.survivorName = orElse ((info entities c.survivorId).bind Entity.name) c.survivorId
  mergeMethod : c.mergeMethod = if (s.adjudicated.get? root).getD false then
    MERGE_METHOD_EMBEDDING_ADJUDICATED else MERGE_METHOD_EMBEDDING_AUTO
  mergeConfidence : c.mergeConfidence = s.minSim.get? root

omit [LinearOrder σ] in
theorem made_cluster {s : Provenance σ} {root : String} {members : List String}
    (hnodup : members.Nodup) {c : Cluster σ} (h : cluster entities s (root, members) = some c) :
    Made entities s root members c := by
  unfold cluster at h
  dsimp only at h
  split at h
  · cases h
  · rename_i survivor hsurvivor
    split at h
    · cases h
    · rename_i hlosers
      obtain rfl := Option.some.inj h
      refine { perm := ?_, several := hlosers, survivor := hsurvivor, entityType := rfl
               survivorName := rfl, mergeMethod := rfl, mergeConfidence := rfl }
      have hmem : survivor ∈ members := List.argmax_mem hsurvivor
      have herase : members.erase survivor = members.filter (· ≠ survivor) := by
        rw [hnodup.erase_eq_filter survivor]
        refine List.filter_congr fun x _ => ?_
        rw [Bool.eq_iff_iff, bne_iff_ne, decide_eq_true_iff]
      have hperm := List.perm_cons_erase hmem
      rw [herase] at hperm
      exact hperm.symm

omit [LinearOrder σ] in
theorem cluster_isSome (entities : List Entity) (s : Provenance σ) (root : String)
    {members : List String} {a b : String} (ha : a ∈ members) (hb : b ∈ members) (hab : a ≠ b) :
    ∃ c, cluster entities s (root, members) = some c := by
  unfold cluster
  dsimp only
  cases hsurvivor : members.argmax (rank entities) with
  | none =>
    rw [List.argmax_eq_none] at hsurvivor
    subst hsurvivor
    exact absurd ha List.not_mem_nil
  | some survivor =>
    have hlosers : members.filter (· ≠ survivor) ≠ [] := by
      by_cases heq : a = survivor
      · refine List.ne_nil_of_mem (List.mem_filter.mpr ⟨hb, decide_eq_true ?_⟩)
        rw [← heq]
        exact hab.symm
      · exact List.ne_nil_of_mem (List.mem_filter.mpr ⟨ha, decide_eq_true heq⟩)
    exact ⟨_, if_neg hlosers⟩

/-! ## All clusters -/

omit [LinearOrder σ] in
theorem mem_pairIds_of_linked {a b : String} (h : Linked pairs a b) :
    a = b ∨ (a ∈ pairIds pairs ∧ b ∈ pairIds pairs) := by
  induction h with
  | rel a b hmem =>
    obtain ⟨p, hp, hends⟩ := List.mem_map.mp hmem
    obtain ⟨rfl, rfl⟩ := Prod.mk.inj hends
    exact Or.inr ⟨List.mem_flatMap.mpr ⟨p, hp, List.mem_cons_self⟩,
      List.mem_flatMap.mpr ⟨p, hp, List.mem_cons_of_mem _ (List.mem_singleton_self _)⟩⟩
  | refl a => exact Or.inl rfl
  | symm a b _ ih => exact ih.imp Eq.symm And.symm
  | trans a b c _ _ h₁ h₂ =>
    rcases h₁ with rfl | h₁
    · exact h₂
    · rcases h₂ with rfl | h₂
      · exact Or.inr h₁
      · exact Or.inr ⟨h₁.1, h₂.2⟩

/-- A cluster comes from the members of one root. -/
theorem exists_made {c : Cluster σ} (h : c ∈ clusterPairs pairs entities) :
    ∃ root members, (components pairs).2.get? root = some members ∧
      Made entities (provenance pairs) root members c := by
  obtain ⟨⟨root, members⟩, hmem, hc⟩ := List.mem_filterMap.mp h
  have hget := (Dict.mem_items_iff _ _ _).mp hmem
  exact ⟨root, members, hget, made_cluster ((gathered_components pairs).nodup root members hget) hc⟩

theorem Made.mem_iff {root : String} {members : List String} {c : Cluster σ}
    (h : Made entities (provenance pairs) root members c)
    (hget : (components pairs).2.get? root = some members) (x : String) :
    x ∈ c.members ↔ x ∈ pairIds pairs ∧ rootOf pairs x = root := by
  rw [h.perm.mem_iff]
  exact (gathered_components pairs).mem root members hget x

theorem Made.component {root : String} {members : List String} {c : Cluster σ}
    (h : Made entities (provenance pairs) root members c)
    (hget : (components pairs).2.get? root = some members) (x : String) :
    x ∈ c.members ↔ Linked pairs c.survivorId x := by
  have hself := (h.mem_iff hget c.survivorId).mp List.mem_cons_self
  rw [h.mem_iff hget, ← rootOf_eq_iff, hself.2]
  refine ⟨fun hx => hx.2.symm, fun hx => ⟨?_, hx.symm⟩⟩
  rw [← hself.2, rootOf_eq_iff] at hx
  rcases mem_pairIds_of_linked hx with heq | hids
  · rw [← heq]
    exact hself.1
  · exact hids.2

theorem Made.pair_iff {root : String} {members : List String} {c : Cluster σ}
    (h : Made entities (provenance pairs) root members c)
    (hget : (components pairs).2.get? root = some members) (p : MergePair σ) :
    p ∈ c.pairs pairs ↔ p ∈ pairs ∧ rootOf pairs p.aId = root := by
  refine and_congr_right fun hp => ?_
  rw [h.mem_iff hget]
  exact and_iff_right (List.mem_flatMap.mpr ⟨p, hp, List.mem_cons_self⟩)

/-- Every member of a cluster is in a pair of it. -/
theorem Made.pair {root : String} {members : List String} {c : Cluster σ}
    (h : Made entities (provenance pairs) root members c)
    (hget : (components pairs).2.get? root = some members) : ∃ p, p ∈ c.pairs pairs := by
  obtain ⟨hids, hroot⟩ := (h.mem_iff hget c.survivorId).mp List.mem_cons_self
  obtain ⟨p, hp, hend⟩ := List.mem_flatMap.mp hids
  refine ⟨p, (h.pair_iff hget p).mpr ⟨hp, ?_⟩⟩
  rcases List.mem_pair.mp hend with heq | heq
  · rw [← heq]
    exact hroot
  · rw [← hroot, rootOf_eq_iff, heq]
    exact Relation.EqvGen.rel _ _ (List.mem_map_of_mem hp)

theorem Made.confidence {root : String} {members : List String} {c : Cluster σ}
    (h : Made entities (provenance pairs) root members c)
    (hget : (components pairs).2.get? root = some members) :
    ∃ least, c.mergeConfidence = some least ∧
      IsLeast (Set.image MergePair.similarity (c.pairs pairs)) least := by
  have hknown := known_provenance pairs
  obtain ⟨p, hp⟩ := h.pair hget
  obtain ⟨hmem, hroot⟩ := (h.pair_iff hget p).mp hp
  obtain ⟨least, hleast, -⟩ := hknown.least p hmem
  rw [hroot] at hleast
  refine ⟨least, h.mergeConfidence.trans hleast, ?_, ?_⟩
  · obtain ⟨q, hq, hqroot, hqleast⟩ := hknown.reached root least hleast
    exact ⟨q, (h.pair_iff hget q).mpr ⟨hq, hqroot⟩, hqleast⟩
  · rintro _ ⟨q, hq, rfl⟩
    obtain ⟨hqmem, hqroot⟩ := (h.pair_iff hget q).mp hq
    obtain ⟨m, hm, hle⟩ := hknown.least q hqmem
    rw [hqroot, hleast] at hm
    rw [Option.some.inj hm]
    exact hle

theorem Made.method {root : String} {members : List String} {c : Cluster σ}
    (h : Made entities (provenance pairs) root members c)
    (hget : (components pairs).2.get? root = some members) :
    c.mergeMethod = MERGE_METHOD_EMBEDDING_ADJUDICATED ↔
      ∃ p ∈ c.pairs pairs, p.band = "adjudicate" := by
  have hadjudicated := (known_provenance pairs).adjudicated root
  have hpairs : (∃ p ∈ c.pairs pairs, p.band = "adjudicate") ↔
      ∃ p ∈ pairs, rootOf pairs p.aId = root ∧ p.band = "adjudicate" := by
    constructor
    · rintro ⟨p, hp, hband⟩
      obtain ⟨hmem, hroot⟩ := (h.pair_iff hget p).mp hp
      exact ⟨p, hmem, hroot, hband⟩
    · rintro ⟨p, hmem, hroot, hband⟩
      exact ⟨p, (h.pair_iff hget p).mpr ⟨hmem, hroot⟩, hband⟩
  rw [h.mergeMethod, hpairs, ← hadjudicated]
  split
  · exact iff_of_true rfl ‹_›
  · exact iff_of_false (by decide) ‹_›

theorem right_clusterPairs (pairs : List (MergePair σ)) (entities : List Entity) :
    Right pairs entities (clusterPairs pairs entities) := by
  refine { component := fun c hc => ?_, several := fun c hc => ?_, distinct := fun c hc => ?_
           complete := fun a b hab hlinked => ?_, once := ?_, survivor := fun c hc x hx => ?_
           confidence := fun c hc => ?_, method := fun c hc => ?_ }
  · obtain ⟨root, members, hget, hmade⟩ := exists_made hc
    exact hmade.component hget
  · obtain ⟨root, members, hget, hmade⟩ := exists_made hc
    exact hmade.several
  · obtain ⟨root, members, hget, hmade⟩ := exists_made hc
    exact hmade.perm.nodup_iff.mpr ((gathered_components pairs).nodup root members hget)
  · have hids := (mem_pairIds_of_linked hlinked).resolve_left hab
    have hroot := (rootOf_eq_iff a b).mpr hlinked
    obtain ⟨members, hget⟩ := (gathered_components pairs).found a hids.1
    have hmem := (gathered_components pairs).mem _ members hget
    have ha := (hmem a).mpr ⟨hids.1, rfl⟩
    have hb := (hmem b).mpr ⟨hids.2, hroot.symm⟩
    obtain ⟨c, hc⟩ := cluster_isSome entities (provenance pairs) (rootOf pairs a) ha hb hab
    refine ⟨c, List.mem_filterMap.mpr ⟨_, (Dict.mem_items_iff _ _ _).mpr hget, hc⟩, ?_⟩
    have hmade := made_cluster ((gathered_components pairs).nodup _ members hget) hc
    exact hmade.perm.mem_iff.mpr ha
  · unfold clusterPairs
    rw [List.pairwise_filterMap]
    have hkeys := (components pairs).2.nodup
    rw [List.Nodup, List.pairwise_map] at hkeys
    refine hkeys.imp_of_mem fun {x y} hx hy hne c hc d hd => ?_
    have hgetx := (Dict.mem_items_iff _ _ _).mp hx
    have hgety := (Dict.mem_items_iff _ _ _).mp hy
    have hmadex := made_cluster ((gathered_components pairs).nodup _ _ hgetx) hc
    have hmadey := made_cluster ((gathered_components pairs).nodup _ _ hgety) hd
    intro e hec hed
    exact hne (((hmadex.mem_iff hgetx e).mp hec).2.symm.trans ((hmadey.mem_iff hgety e).mp hed).2)
  · obtain ⟨root, members, hget, hmade⟩ := exists_made hc
    exact List.le_of_mem_argmax (hmade.perm.mem_iff.mp hx) hmade.survivor
  · obtain ⟨root, members, hget, hmade⟩ := exists_made hc
    exact hmade.confidence hget
  · obtain ⟨root, members, hget, hmade⟩ := exists_made hc
    exact hmade.method hget

/-! ## The order of the pairs -/

/-- No two entities of the pairs have one rank. -/
def DistinctRanks (pairs : List (MergePair σ)) (entities : List Entity) : Prop :=
  ∀ a ∈ pairIds pairs, ∀ b ∈ pairIds pairs, rank entities a = rank entities b → a = b

omit [LinearOrder σ] in
theorem DistinctRanks.perm (h : DistinctRanks pairs entities) (hperm : pairs'.Perm pairs) :
    DistinctRanks pairs' entities := by
  have hids : ∀ x, x ∈ pairIds pairs' → x ∈ pairIds pairs :=
    fun x hx => ((hperm.flatMap_right _).mem_iff).mp hx
  exact fun a ha b hb => h a (hids a ha) b (hids b hb)

omit [LinearOrder σ] in
theorem linked_perm (hperm : pairs'.Perm pairs) (a b : String) :
    Linked pairs' a b ↔ Linked pairs a b := by
  have hends := hperm.map MergePair.ends
  exact ⟨fun h => h.mono hends.subset, fun h => h.mono hends.symm.subset⟩

theorem same_of_perm (hranks : DistinctRanks pairs entities) (hperm : pairs'.Perm pairs)
    {c : Cluster σ} (hc : c ∈ clusterPairs pairs entities) :
    ∃ d ∈ clusterPairs pairs' entities, c.Same d := by
  have hright := right_clusterPairs pairs entities
  have hright' := right_clusterPairs pairs' entities
  obtain ⟨loser, hloser⟩ := List.exists_mem_of_ne_nil _ (hright.several c hc)
  have hne : c.survivorId ≠ loser := by
    rintro rfl
    exact (List.nodup_cons.mp (hright.distinct c hc)).1 hloser
  have hlinked := (hright.component c hc loser).mp (List.mem_cons_of_mem _ hloser)
  obtain ⟨d, hd, hsurvivor⟩ := hright'.complete _ _ hne ((linked_perm hperm _ _).mpr hlinked)
  have hcomponent : ∀ x, x ∈ c.members ↔ x ∈ d.members := by
    have hcd := (linked_perm hperm _ _).mp ((hright'.component d hd _).mp hsurvivor)
    intro x
    rw [hright.component c hc, hright'.component d hd, linked_perm hperm]
    exact ⟨fun h => hcd.trans _ _ _ h, fun h => (hcd.symm _ _).trans _ _ _ h⟩
  have hpairs : c.pairs pairs = d.pairs pairs' := by
    ext p
    exact and_congr hperm.mem_iff.symm (hcomponent p.aId)
  obtain ⟨root, members, hget, hmade⟩ := exists_made hc
  obtain ⟨root', members', hget', hmade'⟩ := exists_made hd
  have hsame : c.survivorId = d.survivorId := by
    have hmem : ∀ x ∈ c.members, x ∈ pairIds pairs := fun x hx => ((hmade.mem_iff hget x).mp hx).1
    have hd' : d.survivorId ∈ c.members := (hcomponent _).mpr List.mem_cons_self
    refine hranks _ (hmem _ List.mem_cons_self) _ (hmem _ hd') (le_antisymm ?_ ?_)
    · exact hright'.survivor d hd _ hsurvivor
    · exact hright.survivor c hc _ hd'
  refine ⟨d, hd, { survivorId := hsame, loserIds := ?_, entityType := ?_, survivorName := ?_
                   mergeMethod := ?_, mergeConfidence := ?_ }⟩
  · have hall := (List.perm_ext_iff_of_nodup (hright.distinct c hc) (hright'.distinct d hd)).mpr
      hcomponent
    unfold Cluster.members at hall
    rw [hsame] at hall
    exact hall.cons_inv
  · rw [hmade.entityType, hmade'.entityType, hsame]
  · rw [hmade.survivorName, hmade'.survivorName, hsame]
  · have hmethod := hmade.method hget
    rw [hpairs, ← hmade'.method hget', hmade.mergeMethod, hmade'.mergeMethod] at hmethod
    rw [hmade.mergeMethod, hmade'.mergeMethod]
    split at hmethod <;> split at hmethod
    · rw [if_pos ‹_›, if_pos ‹_›]
    · exact absurd (hmethod.mp rfl) (by decide)
    · exact absurd (hmethod.mpr rfl) (by decide)
    · rw [if_neg ‹_›, if_neg ‹_›]
  · obtain ⟨least, hleast, hisLeast⟩ := hmade.confidence hget
    obtain ⟨least', hleast', hisLeast'⟩ := hmade'.confidence hget'
    rw [hpairs] at hisLeast
    rw [hleast, hleast', hisLeast.unique hisLeast']

/-- The clusters are the components of the pairs, and those of the same pairs in another order
differ in the order of the losers at most, if no two entities have one rank. -/
theorem clusterPairs_right (pairs : List (MergePair σ)) (entities : List Entity) :
    Right pairs entities (clusterPairs pairs entities) ∧
      (DistinctRanks pairs entities → ∀ pairs', pairs'.Perm pairs →
        (∀ c ∈ clusterPairs pairs entities, ∃ d ∈ clusterPairs pairs' entities, c.Same d) ∧
        ∀ d ∈ clusterPairs pairs' entities, ∃ c ∈ clusterPairs pairs entities, d.Same c) := by
  refine ⟨right_clusterPairs pairs entities, fun hranks pairs' hperm => ⟨?_, ?_⟩⟩
  · exact fun c hc => same_of_perm hranks hperm hc
  · exact fun d hd => same_of_perm (hranks.perm hperm) hperm.symm hd

end Cerid.EntityGraph.Clusters
