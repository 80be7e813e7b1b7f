import Cerid.EntityGraph.Counts

/-!
# Runs of extraction, re-ingestion, merges and unmerges

Which steps keep the mention counts what they are the number of.
-/

namespace Cerid.EntityGraph

inductive Op where
  /-- Ingestion writes an artifact or a memory. -/
  | addSource (src : Source)
  | upsert (artifactId : String) (entities : List Extracted) (chunkIds : List String) (now : String)
  | upsertMemory (memoryId : String) (entities : List Extracted) (now : String)
  | remove (artifactId : String)
  /-- The mentions removed, and those of the new content written. -/
  | reingest (artifactId : String) (entities : List Extracted) (chunkIds : List String)
      (now : String)
  | merge (c : MergeCall)
  | unmerge (loser : String)

def reingested (g : Graph) (artifactId : String) (entities : List Extracted)
    (chunkIds : List String) (now : String) : Graph :=
  upserted (removeMentionsForArtifact g artifactId).1 artifactId entities chunkIds now

def apply (first : FirstRow) (g : Graph) : Op → Graph
  | .addSource src => { g with sources := src :: g.sources }
  | .upsert artifactId entities chunkIds now => upserted g artifactId entities chunkIds now
  | .upsertMemory memoryId entities now => (upsertEntitiesForMemory g memoryId entities now).1
  | .remove artifactId => (removeMentionsForArtifact g artifactId).1
  | .reingest artifactId entities chunkIds now => reingested g artifactId entities chunkIds now
  | .merge c => mergeEntities c g
  | .unmerge loser => (unmergeEntity first loser g).getD g

/-- Run again with the same arguments, the operation changes no count. -/
def Stable (first : FirstRow) (g : Graph) (op : Op) : Prop :=
  ∀ id, (apply first (apply first g op) op).count id = (apply first g op).count id

/-- When an operation keeps the counts right, and may be run again: nothing is removed, no
artifact mentions two of the entities that are merged, and an unmerge has nothing to take
from the survivor. -/
def Meets (first : FirstRow) (g : Graph) : Op → Prop
  | .remove artifactId => ∀ id, Source.mk .artifact artifactId ∉ g.artifactsOf id
  | .reingest artifactId entities _ _ =>
    (∀ id, Source.mk .artifact artifactId ∉ g.artifactsOf id) ∧
      (entities = [] ∨ Source.mk .artifact artifactId ∉ g.sources)
  | .merge c => Apart g (c.survivorId :: c.loserIds)
  | .unmerge loser => ∀ t survivor, readTombstone first g loser = some (t, survivor) →
      t.mentionCount = (g.artifactsOf loser ∪ restored g t).card ∧
        (t.mentionCount = 0 ∨ g.count survivor = 0)
  | _ => True

/-! ## What the operations keep -/

section Memories

variable (memoryId now : String)

theorem foldl_memory_sound (entities : List Extracted) {g : Graph} (hs : g.Sound) :
    (entities.foldl (mentionFromMemory memoryId now) g).Sound := by
  induction entities generalizing g with
  | nil => exact hs
  | cons p rest ih => exact ih (mentionFromMemory_sound memoryId now hs p)

theorem foldl_memory_counts (entities : List Extracted) (g : Graph) (k : String) :
    (entities.foldl (mentionFromMemory memoryId now) g).count k = g.count k ∧
      (entities.foldl (mentionFromMemory memoryId now) g).artifactsOf k = g.artifactsOf k := by
  induction entities generalizing g with
  | nil => exact ⟨rfl, rfl⟩
  | cons p rest ih =>
    obtain ⟨hcount, hart⟩ := mentionFromMemory_counts memoryId now g p k
    rw [List.foldl_cons, (ih _).1, (ih _).2, hcount, hart]
    exact ⟨rfl, rfl⟩

theorem upsertMemory_keeps (entities : List Extracted) {g : Graph} (hs : g.Sound) :
    (upsertEntitiesForMemory g memoryId entities now).1.Sound ∧
      ∀ k, (upsertEntitiesForMemory g memoryId entities now).1.count k = g.count k ∧
        (upsertEntitiesForMemory g memoryId entities now).1.artifactsOf k = g.artifactsOf k := by
  rw [upsertEntitiesForMemory]
  split
  · exact ⟨foldl_memory_sound memoryId now entities hs, foldl_memory_counts memoryId now entities g⟩
  · exact ⟨hs, fun _ => ⟨rfl, rfl⟩⟩

end Memories

theorem unmerge_cases (first : FirstRow) (g : Graph) (loser : String) :
    readTombstone first g loser = none ∧ apply first g (.unmerge loser) = g ∨
      ∃ t survivor, readTombstone first g loser = some (t, survivor) ∧
        apply first g (.unmerge loser) = unmerged loser survivor t g := by
  show _ ∧ (unmergeEntity first loser g).getD g = g ∨ _
  cases h : readTombstone first g loser with
  | none =>
    refine Or.inl ⟨rfl, ?_⟩
    rw [unmergeEntity, h]
    rfl
  | some row =>
    refine Or.inr ⟨row.1, row.2, rfl, ?_⟩
    show (unmergeEntity first loser g).getD g = _
    rw [unmergeEntity_eq first h]
    rfl

theorem apply_sound (first : FirstRow) {g : Graph} (hs : g.Sound) (op : Op) :
    (apply first g op).Sound := by
  cases op with
  | addSource src => exact ⟨hs.attached, hs.into⟩
  | upsert artifactId entities chunkIds now => exact upserted_sound artifactId chunkIds now hs entities
  | upsertMemory memoryId entities now => exact (upsertMemory_keeps memoryId now entities hs).1
  | remove artifactId => exact remove_sound hs artifactId
  | reingest artifactId entities chunkIds now =>
    exact upserted_sound artifactId chunkIds now (remove_sound hs artifactId) entities
  | merge c => exact (mergeEntities_sound c hs).1
  | unmerge loser =>
    rcases unmerge_cases first g loser with ⟨-, heq⟩ | ⟨t, survivor, -, heq⟩
    · rw [heq]
      exact hs
    · rw [heq]
      exact unmerged_sound hs

theorem upserted_sources (g : Graph) (artifactId : String) (entities : List Extracted)
    (chunkIds : List String) (now : String) :
    (upserted g artifactId entities chunkIds now).sources = g.sources := by
  have hrow : ∀ (g : Graph) p,
      (mentionFromArtifact artifactId chunkIds now g p).sources = g.sources := by
    intro g p
    rw [mentionFromArtifact]
    split <;> rfl
  rw [upserted_eq]
  split
  · clear * - hrow
    induction entities generalizing g with
    | nil => rfl
    | cons p rest ih => rw [List.foldl_cons, ih, hrow]
  · rfl

/-- A re-ingestion run again counts the new mentions once more. -/
theorem reingest_stable_iff (first : FirstRow) (g : Graph) (artifactId : String)
    (entities : List Extracted) (chunkIds : List String) (now : String) :
    Stable first g (.reingest artifactId entities chunkIds now) ↔
      entities = [] ∨ Source.mk .artifact artifactId ∉ g.sources := by
  have hsources : (removeMentionsForArtifact (reingested g artifactId entities chunkIds now)
      artifactId).1.sources = g.sources :=
    upserted_sources (removeMentionsForArtifact g artifactId).1 artifactId entities chunkIds now
  constructor
  · intro hstable
    by_contra hnot
    rw [not_or, not_not] at hnot
    obtain ⟨p, rest, rfl⟩ := List.exists_cons_of_ne_nil hnot.1
    have hgone : Source.mk .artifact artifactId ∉ (removeMentionsForArtifact
        (reingested g artifactId (p :: rest) chunkIds now) artifactId).1.artifactsOf
          p.canonicalId := by
      rw [artifactsOf_remove]
      exact Finset.notMem_erase _ _
    have hlt := upserted_count_lt artifactId chunkIds now (hsources ▸ hnot.2)
      (List.mem_cons_self (a := p) (l := rest)) hgone
    exact absurd (hstable p.canonicalId) (Nat.ne_of_gt hlt)
  · intro h id
    show (upserted _ artifactId entities chunkIds now).count id = _
    rcases h with rfl | h
    · rw [upserted_eq, List.foldl_nil, ite_self]
      rfl
    · rw [upserted_eq, if_neg (hsources ▸ h)]
      rfl

/-- All other operations may be run again. -/
theorem apply_stable (first : FirstRow) {g : Graph} (hs : g.Sound) (op : Op)
    (hop : ∀ artifactId entities chunkIds now, op ≠ .reingest artifactId entities chunkIds now) :
    Stable first g op := by
  intro id
  cases op with
  | addSource src => rfl
  | upsert artifactId entities chunkIds now =>
    show (upserted (upserted g artifactId entities chunkIds now) artifactId entities chunkIds
      now).count id = (upserted g artifactId entities chunkIds now).count id
    by_cases hsrc : Source.mk .artifact artifactId ∈ g.sources
    · refine upserted_count_same artifactId chunkIds now (fun p hp => ?_) id
      rw [upserted_eq, if_pos hsrc, foldl_mention_artifactsOf, if_pos ⟨p, hp, rfl⟩]
      exact Finset.mem_insert_self _ _
    · rw [upserted_eq, upserted_sources, if_neg hsrc]
  | upsertMemory memoryId entities now =>
    have hkeep := upsertMemory_keeps memoryId now entities hs
    exact ((upsertMemory_keeps memoryId now entities hkeep.1).2 id).1
  | remove artifactId => rfl
  | reingest artifactId entities chunkIds now => exact absurd rfl (hop _ _ _ _)
  | merge c =>
    show (mergeEntities c (mergeEntities c g)).count id = (mergeEntities c g).count id
    rw [mergeEntities_again c g, count_upsertSurvivor]
  | unmerge loser =>
    rcases unmerge_cases first g loser with ⟨-, heq⟩ | ⟨t, survivor, -, heq⟩
    · rw [heq, heq]
    · rcases unmerge_cases first (apply first g (.unmerge loser)) loser with
        ⟨-, hagain⟩ | ⟨t', survivor', hread, -⟩
      · rw [hagain]
      · rw [heq, readTombstone_unmerged] at hread
        cases hread

theorem reingested_counted_iff {g : Graph} (hs : g.Sound) (hc : Counted g) (artifactId : String)
    (entities : List Extracted) (chunkIds : List String) (now : String) :
    Counted (reingested g artifactId entities chunkIds now) ↔
      ∀ id, Source.mk .artifact artifactId ∉ g.artifactsOf id := by
  rw [reingested, upserted_counted_iff artifactId chunkIds now (remove_sound hs artifactId),
    remove_counted_iff hs hc]

/-- One step: it keeps the counts right and may be run again if and only if it meets the
condition. -/
theorem apply_counted_iff (first : FirstRow) {g : Graph} (hs : g.Sound) (hc : Counted g)
    (op : Op) : Counted (apply first g op) ∧ Stable first g op ↔ Meets first g op := by
  cases op with
  | addSource src =>
    exact ⟨fun _ => trivial, fun _ => ⟨hc, apply_stable first hs _ (fun _ _ _ _ => by simp)⟩⟩
  | upsert artifactId entities chunkIds now =>
    refine ⟨fun _ => trivial, fun _ => ⟨?_, apply_stable first hs _ (fun _ _ _ _ => by simp)⟩⟩
    exact (upserted_counted_iff artifactId chunkIds now hs entities).mpr hc
  | upsertMemory memoryId entities now =>
    refine ⟨fun _ => trivial, fun _ => ⟨?_, apply_stable first hs _ (fun _ _ _ _ => by simp)⟩⟩
    have hkeep := upsertMemory_keeps memoryId now entities hs
    refine (counted_iff hkeep.1).mpr fun k => ?_
    rw [(hkeep.2 k).1, (hkeep.2 k).2, hc.eq hs k]
  | remove artifactId =>
    refine Iff.trans ?_ (remove_counted_iff hs hc artifactId)
    exact and_iff_left (apply_stable first hs _ (fun _ _ _ _ => by simp))
  | reingest artifactId entities chunkIds now =>
    exact and_congr (reingested_counted_iff hs hc artifactId entities chunkIds now)
      (reingest_stable_iff first g artifactId entities chunkIds now)
  | merge c =>
    refine Iff.trans ?_ (mergeEntities_counted_iff c hs hc)
    exact and_iff_left (apply_stable first hs _ (fun _ _ _ _ => by simp))
  | unmerge loser =>
    rw [and_iff_left (apply_stable first hs (.unmerge loser) (fun _ _ _ _ => by simp))]
    rcases unmerge_cases first g loser with ⟨hread, heq⟩ | ⟨t, survivor, hread, heq⟩
    · rw [heq]
      refine ⟨fun _ t survivor h => ?_, fun _ => hc⟩
      rw [hread] at h
      cases h
    · rw [heq, unmerged_counted_iff first hs hc hread]
      constructor
      · intro h t' survivor' hread'
        rw [hread] at hread'
        cases hread'
        exact h
      · exact fun h => h t survivor hread

/-- Along a run, every step leaves the counts right and may be run again if and only if every
step meets the condition. -/
theorem runs_counted (first : FirstRow) {g : Graph} (hs : g.Sound) (hc : Counted g)
    (ops : List Op) :
    Along (apply first) (fun g op => Counted (apply first g op) ∧ Stable first g op) g ops ↔
      Along (apply first) (Meets first) g ops :=
  along_iff (fun g => g.Sound ∧ Counted g)
    (fun _ op hinv => apply_counted_iff first hinv.1 hinv.2 op)
    (fun _ op hinv hmeets => ⟨apply_sound first hinv.1 op,
      ((apply_counted_iff first hinv.1 hinv.2 op).mpr hmeets).1⟩) ⟨hs, hc⟩

/-! ## Runs that count wrongly -/

theorem empty_sound : Graph.empty.Sound where
  attached _ _ _ h := by cases h
  into _ _ h := by cases h

theorem empty_counted : Counted Graph.empty := fun _ h => by cases h

/-- An artifact that is ingested again is counted twice, and one that mentions both of two
merged entities is too. -/
theorem reingest_and_merge_miscount :
    ¬ Counted ([Op.addSource ⟨.artifact, "a"⟩, .upsert "a" [ada] ["c1"] "t1",
        .reingest "a" [ada] ["c2"] "t2"].foldl (apply oldestRow) .empty) ∧
      ¬ Counted ([Op.addSource ⟨.artifact, "a"⟩, .upsert "a" [ada, adaLovelace] ["c1"] "t1",
        .merge mergeAda].foldl (apply oldestRow) .empty) := by
  constructor
  · intro h
    exact absurd (h "person:ada" (by decide +kernel)) (by decide +kernel)
  · intro h
    exact absurd (h "person:ada-lovelace" (by decide +kernel)) (by decide +kernel)

/-- Two artifacts, an entity each, and the entities merged. -/
theorem runs_counted_merge :
    Along (apply oldestRow)
      (fun g op => Counted (apply oldestRow g op) ∧ Stable oldestRow g op) .empty
      [.addSource ⟨.artifact, "a"⟩, .addSource ⟨.artifact, "b"⟩, .upsert "a" [ada] ["c1"] "t1",
        .upsert "b" [adaLovelace] ["c2"] "t2", .merge mergeAda] := by
  refine (runs_counted oldestRow empty_sound empty_counted _).mpr
    ⟨trivial, trivial, trivial, trivial, ?_, trivial⟩
  show Apart _ _
  decide +kernel

end Cerid.EntityGraph
