import Cerid.EntityGraph.Effects
import Cerid.Lib.Run

/-!
# Mention counts

The count that an entity carries, beside the artifacts that mention it, through extraction,
re-ingestion, merges and unmerges.
-/

namespace Cerid.EntityGraph

/-- Each entity's count is the number of artifacts that mention it. -/
def Counted (g : Graph) : Prop := ∀ id, g.hasEntity id = true → g.count id = (g.artifactsOf id).card

theorem Counted.eq {g : Graph} (hs : g.Sound) (h : Counted g) (id : String) :
    g.count id = (g.artifactsOf id).card := by
  cases hid : g.hasEntity id with
  | true => exact h id hid
  | false =>
    rw [Graph.count_of_not_hasEntity hid, hs.artifactsOf_eq_empty hid]
    rfl

theorem counted_iff {g : Graph} (hs : g.Sound) :
    Counted g ↔ ∀ id, g.count id = (g.artifactsOf id).card :=
  ⟨fun h id => h.eq hs id, fun h id _ => h id⟩

/-! ## Extraction -/

theorem get?_ensureEntity (g : Graph) (p : Extracted) (k : String) :
    (ensureEntity g p).entities.get? k =
      if k = p.canonicalId then
        some ((g.entities.get? p.canonicalId).getD
          { name := some p.name, entityType := some p.entityType, mentionCount := some 0 })
      else g.entities.get? k :=
  Dict.get?_setDefault _ _ _ _

theorem hasEntity_ensureEntity (g : Graph) (p : Extracted) (k : String) :
    (ensureEntity g p).hasEntity k = (decide (k = p.canonicalId) || g.hasEntity k) := by
  rw [Graph.hasEntity, get?_ensureEntity]
  by_cases h : k = p.canonicalId
  · simp [h]
  · simp [h, Graph.hasEntity]

theorem count_ensureEntity (g : Graph) (p : Extracted) (k : String) :
    (ensureEntity g p).count k = g.count k := by
  rw [Graph.count, get?_ensureEntity, Graph.count]
  by_cases h : k = p.canonicalId
  · subst h
    rw [if_pos rfl]
    cases g.entities.get? p.canonicalId <;> rfl
  · rw [if_neg h]

/-- The edges of a graph with one more. -/
theorem artifactsOf_set (g : Graph) (src : Source) (id : String) (m : Mention) (k : String) :
    ({ g with mentions := g.mentions.set (src, id) m } : Graph).artifactsOf k =
      if k = id ∧ src.label = .artifact then insert src (g.artifactsOf k) else g.artifactsOf k := by
  ext x
  have hx : x ∈ ({ g with mentions := g.mentions.set (src, id) m } : Graph).artifactsOf k ↔
      x.label = .artifact ∧ ((x = src ∧ k = id) ∨ ∃ m, g.mentions.get? (x, k) = some m) := by
    rw [Graph.mem_artifactsOf]
    show _ ∧ (∃ m', (g.mentions.set (src, id) m).get? (x, k) = some m') ↔ _
    rw [Dict.get?_set]
    by_cases h : x = src ∧ k = id
    · simp [h]
    · simp [Prod.mk.injEq, h]
  rw [hx]
  split
  · rename_i h
    rw [Finset.mem_insert, Graph.mem_artifactsOf]
    constructor
    · rintro ⟨hl, ⟨rfl, -⟩ | hm⟩
      · exact Or.inl rfl
      · exact Or.inr ⟨hl, hm⟩
    · rintro (rfl | ⟨hl, hm⟩)
      · exact ⟨h.2, Or.inl ⟨rfl, h.1⟩⟩
      · exact ⟨hl, Or.inr hm⟩
  · rename_i h
    rw [Graph.mem_artifactsOf]
    constructor
    · rintro ⟨hl, ⟨rfl, rfl⟩ | hm⟩
      · exact absurd ⟨rfl, hl⟩ h
      · exact ⟨hl, hm⟩
    · rintro ⟨hl, hm⟩
      exact ⟨hl, Or.inr hm⟩

section Row

variable (artifactId : String) (chunkIds : List String) (now : String)

/-- A row adds one edge at most, and counts it. -/
theorem mentionFromArtifact_effect (g : Graph) (p : Extracted) (k : String) :
    (mentionFromArtifact artifactId chunkIds now g p).artifactsOf k =
        (if k = p.canonicalId then insert ⟨.artifact, artifactId⟩ (g.artifactsOf k)
          else g.artifactsOf k) ∧
      (mentionFromArtifact artifactId chunkIds now g p).count k =
        if k = p.canonicalId ∧ ⟨.artifact, artifactId⟩ ∉ g.artifactsOf k then g.count k + 1
        else g.count k := by
  have hmem : ∀ id, Source.mk .artifact artifactId ∈ g.artifactsOf id ↔
      ∃ m, g.mentions.get? (⟨.artifact, artifactId⟩, id) = some m := fun id => by
    rw [Graph.mem_artifactsOf]
    exact ⟨fun h => h.2, fun h => ⟨rfl, h⟩⟩
  have hset : ∀ m, ({ g with
      mentions := g.mentions.set (⟨.artifact, artifactId⟩, p.canonicalId) m } : Graph).artifactsOf k =
        if k = p.canonicalId then insert ⟨.artifact, artifactId⟩ (g.artifactsOf k)
        else g.artifactsOf k := fun m => by
    rw [artifactsOf_set]
    simp
  have hm : (ensureEntity g p).mentions = g.mentions := rfl
  cases hget : g.mentions.get? (Source.mk .artifact artifactId, p.canonicalId) with
  | none =>
    have hnot : ¬ (Source.mk .artifact artifactId ∈ g.artifactsOf p.canonicalId) := by
      rw [hmem, hget]
      simp
    simp only [mentionFromArtifact, hm, hget]
    refine ⟨hset _, ?_⟩
    show Graph.count ((ensureEntity g p).setEntity p.canonicalId _) k = _
    by_cases hk : k = p.canonicalId
    · subst hk
      rw [if_pos ⟨rfl, hnot⟩, ← count_ensureEntity g p, Graph.count, Graph.get?_setEntity,
        if_pos rfl, Graph.count, get?_ensureEntity, if_pos rfl]
      rfl
    · rw [if_neg (fun h => hk h.1), ← count_ensureEntity g p, Graph.count, Graph.get?_setEntity,
        if_neg hk]
      rfl
  | some m =>
    have hnot : ¬ (k = p.canonicalId ∧ Source.mk .artifact artifactId ∉ g.artifactsOf k) := by
      rintro ⟨rfl, h⟩
      exact h ((hmem _).mpr ⟨m, hget⟩)
    simp only [mentionFromArtifact, hm, hget]
    refine ⟨hset _, ?_⟩
    rw [if_neg hnot]
    exact count_ensureEntity g p k

/-- A row changes a count as it changes the artifacts. -/
theorem mentionFromArtifact_balance (g : Graph) (p : Extracted) (k : String) :
    (mentionFromArtifact artifactId chunkIds now g p).count k + (g.artifactsOf k).card =
      g.count k + ((mentionFromArtifact artifactId chunkIds now g p).artifactsOf k).card := by
  obtain ⟨hart, hcount⟩ := mentionFromArtifact_effect artifactId chunkIds now g p k
  rw [hart, hcount]
  by_cases hk : k = p.canonicalId
  · by_cases hmem : Source.mk .artifact artifactId ∈ g.artifactsOf k
    · rw [if_neg (fun h => h.2 hmem), if_pos hk, Finset.insert_eq_of_mem hmem]
    · rw [if_pos ⟨hk, hmem⟩, if_pos hk, Finset.card_insert_of_notMem hmem]
      omega
  · rw [if_neg (fun h => hk h.1), if_neg hk]

theorem mentionFromArtifact_sound {g : Graph} (hs : g.Sound) (p : Extracted) :
    (mentionFromArtifact artifactId chunkIds now g p).Sound := by
  have hhas : ∀ k, (mentionFromArtifact artifactId chunkIds now g p).hasEntity k =
      (decide (k = p.canonicalId) || g.hasEntity k) := by
    intro k
    rw [← hasEntity_ensureEntity, mentionFromArtifact]
    split
    · exact Graph.hasEntity_setEntity (ensureEntity g p) _ _ k
    · rfl
  have hmentions : ∃ m, (mentionFromArtifact artifactId chunkIds now g p).mentions =
      g.mentions.set (⟨.artifact, artifactId⟩, p.canonicalId) m := by
    rw [mentionFromArtifact]
    split
    · exact ⟨_, rfl⟩
    · exact ⟨_, rfl⟩
  have hinto : (mentionFromArtifact artifactId chunkIds now g p).mergedInto = g.mergedInto := by
    rw [mentionFromArtifact]
    split <;> rfl
  constructor
  · intro src id m hm
    obtain ⟨m', hset⟩ := hmentions
    rw [hset, Dict.get?_set] at hm
    rw [hhas, Bool.or_eq_true, decide_eq_true_eq]
    split at hm
    · rename_i hk
      exact Or.inl (congrArg Prod.snd hk)
    · exact Or.inr (hs.attached src id m hm)
  · intro l s hm
    rw [hinto] at hm
    rw [hhas, Bool.or_eq_true]
    exact ⟨Or.inr (hs.into l s hm).1, (hs.into l s hm).2⟩

end Row

/-- The graph after `upsertEntitiesForArtifact`. -/
def upserted (g : Graph) (artifactId : String) (entities : List Extracted)
    (chunkIds : List String) (now : String) : Graph :=
  (upsertEntitiesForArtifact g artifactId entities chunkIds now).1

section Upsert

variable (artifactId : String) (chunkIds : List String) (now : String)

theorem upserted_eq (g : Graph) (entities : List Extracted) :
    upserted g artifactId entities chunkIds now =
      if Source.mk .artifact artifactId ∈ g.sources then
        entities.foldl (mentionFromArtifact artifactId chunkIds now) g
      else g := by
  rw [upserted, upsertEntitiesForArtifact]
  split <;> rfl

theorem foldl_mention_balance (entities : List Extracted) (g : Graph) (k : String) :
    (entities.foldl (mentionFromArtifact artifactId chunkIds now) g).count k +
        (g.artifactsOf k).card =
      g.count k +
        ((entities.foldl (mentionFromArtifact artifactId chunkIds now) g).artifactsOf k).card := by
  induction entities generalizing g with
  | nil => rfl
  | cons p rest ih =>
    have hstep := mentionFromArtifact_balance artifactId chunkIds now g p k
    have hrest := ih (mentionFromArtifact artifactId chunkIds now g p)
    rw [List.foldl_cons]
    omega

theorem foldl_mention_artifactsOf (entities : List Extracted) (g : Graph) (k : String) :
    (entities.foldl (mentionFromArtifact artifactId chunkIds now) g).artifactsOf k =
      if ∃ p ∈ entities, p.canonicalId = k then
        insert ⟨.artifact, artifactId⟩ (g.artifactsOf k)
      else g.artifactsOf k := by
  induction entities generalizing g with
  | nil => simp
  | cons p rest ih =>
    rw [List.foldl_cons, ih, (mentionFromArtifact_effect artifactId chunkIds now g p k).1]
    by_cases hk : k = p.canonicalId
    · subst hk
      simp
    · have hk' : ¬ p.canonicalId = k := fun h => hk h.symm
      simp [hk, hk']

theorem upserted_balance (g : Graph) (entities : List Extracted) (k : String) :
    (upserted g artifactId entities chunkIds now).count k + (g.artifactsOf k).card =
      g.count k + ((upserted g artifactId entities chunkIds now).artifactsOf k).card := by
  rw [upserted_eq]
  split
  · exact foldl_mention_balance artifactId chunkIds now entities g k
  · rfl

theorem upserted_sound {g : Graph} (hs : g.Sound) (entities : List Extracted) :
    (upserted g artifactId entities chunkIds now).Sound := by
  rw [upserted_eq]
  split
  · induction entities generalizing g with
    | nil => exact hs
    | cons p rest ih =>
      refine ih (mentionFromArtifact_sound artifactId chunkIds now hs p) ?_
      have hsources : (mentionFromArtifact artifactId chunkIds now g p).sources = g.sources := by
        rw [mentionFromArtifact]
        split <;> rfl
      rw [hsources]
      assumption
  · exact hs

/-- Counts are right after an upsert if and only if they were right before. -/
theorem upserted_counted_iff {g : Graph} (hs : g.Sound) (entities : List Extracted) :
    Counted (upserted g artifactId entities chunkIds now) ↔ Counted g := by
  rw [counted_iff (upserted_sound artifactId chunkIds now hs entities), counted_iff hs]
  refine forall_congr' fun k => ?_
  have h := upserted_balance artifactId chunkIds now g entities k
  omega

/-- Where the artifact mentions all of the entities already, no count changes. -/
theorem upserted_count_same {g : Graph} {entities : List Extracted}
    (hall : ∀ p ∈ entities, Source.mk .artifact artifactId ∈ g.artifactsOf p.canonicalId)
    (k : String) : (upserted g artifactId entities chunkIds now).count k = g.count k := by
  have hbalance := upserted_balance artifactId chunkIds now g entities k
  have hsame : (upserted g artifactId entities chunkIds now).artifactsOf k = g.artifactsOf k := by
    rw [upserted_eq]
    split
    · rw [foldl_mention_artifactsOf]
      split
      · rename_i hp
        obtain ⟨p, hp, rfl⟩ := hp
        exact Finset.insert_eq_of_mem (hall p hp)
      · rfl
    · rfl
  rw [hsame] at hbalance
  omega

/-- An artifact that mentioned an entity nowhere raises the entity's count. -/
theorem upserted_count_lt {g : Graph} {entities : List Extracted} {p : Extracted}
    (hsrc : Source.mk .artifact artifactId ∈ g.sources) (hp : p ∈ entities)
    (hnot : Source.mk .artifact artifactId ∉ g.artifactsOf p.canonicalId) :
    g.count p.canonicalId < (upserted g artifactId entities chunkIds now).count p.canonicalId := by
  have hbalance := upserted_balance artifactId chunkIds now g entities p.canonicalId
  have hart : (upserted g artifactId entities chunkIds now).artifactsOf p.canonicalId =
      insert ⟨.artifact, artifactId⟩ (g.artifactsOf p.canonicalId) := by
    rw [upserted_eq, if_pos hsrc, foldl_mention_artifactsOf, if_pos ⟨p, hp, rfl⟩]
  rw [hart, Finset.card_insert_of_notMem hnot] at hbalance
  omega

end Upsert

/-! ## Memories and removals -/

theorem mentionFromMemory_effect (memoryId now : String) (g : Graph) (p : Extracted) :
    (mentionFromMemory memoryId now g p).entities = (ensureEntity g p).entities ∧
      (mentionFromMemory memoryId now g p).mergedInto = g.mergedInto ∧
      (mentionFromMemory memoryId now g p).sources = g.sources ∧
      ∃ m, (mentionFromMemory memoryId now g p).mentions =
        g.mentions.set (⟨.memory, memoryId⟩, p.canonicalId) m := by
  rw [mentionFromMemory]
  split
  · exact ⟨rfl, rfl, rfl, _, rfl⟩
  · exact ⟨rfl, rfl, rfl, _, rfl⟩

theorem mentionFromMemory_sound (memoryId now : String) {g : Graph} (hs : g.Sound) (p : Extracted) :
    (mentionFromMemory memoryId now g p).Sound := by
  obtain ⟨hentities, hinto, -, m, hmentions⟩ := mentionFromMemory_effect memoryId now g p
  have hhas : ∀ k, (mentionFromMemory memoryId now g p).hasEntity k =
      (decide (k = p.canonicalId) || g.hasEntity k) := fun k => by
    rw [hasEntity_congr hentities, hasEntity_ensureEntity]
  constructor
  · intro src id m' hm
    rw [hmentions, Dict.get?_set] at hm
    rw [hhas, Bool.or_eq_true, decide_eq_true_eq]
    split at hm
    · rename_i hk
      exact Or.inl (congrArg Prod.snd hk)
    · exact Or.inr (hs.attached src id m' hm)
  · intro l s hm
    rw [hinto] at hm
    rw [hhas, Bool.or_eq_true]
    exact ⟨Or.inr (hs.into l s hm).1, (hs.into l s hm).2⟩

/-- A memory's mentions are no artifact's, and they are not counted. -/
theorem mentionFromMemory_counts (memoryId now : String) (g : Graph) (p : Extracted) (k : String) :
    (mentionFromMemory memoryId now g p).count k = g.count k ∧
      (mentionFromMemory memoryId now g p).artifactsOf k = g.artifactsOf k := by
  obtain ⟨hentities, -, -, m, hmentions⟩ := mentionFromMemory_effect memoryId now g p
  constructor
  · rw [Graph.count_congr hentities, count_ensureEntity]
  · have hset := artifactsOf_set g ⟨.memory, memoryId⟩ p.canonicalId m k
    rw [if_neg (fun h => by cases h.2)] at hset
    rw [← hset]
    exact Graph.artifactsOf_congr (by rw [hmentions]) k

theorem artifactsOf_remove (g : Graph) (artifactId k : String) :
    (removeMentionsForArtifact g artifactId).1.artifactsOf k =
      (g.artifactsOf k).erase ⟨.artifact, artifactId⟩ := by
  ext x
  rw [Finset.mem_erase, Graph.mem_artifactsOf, Graph.mem_artifactsOf]
  show _ ∧ (∃ m, (g.mentions.filter _).get? (x, k) = some m) ↔ _
  rw [Dict.get?_filter]
  by_cases hx : x = ⟨.artifact, artifactId⟩
  · cases g.mentions.get? (x, k) <;> simp [hx, Option.filter]
  · cases g.mentions.get? (x, k) <;> simp [hx, Option.filter]

theorem remove_sound {g : Graph} (hs : g.Sound) (artifactId : String) :
    (removeMentionsForArtifact g artifactId).1.Sound := by
  constructor
  · intro src id m hm
    change (g.mentions.filter _).get? (src, id) = some m at hm
    rw [Dict.get?_filter, Option.filter_eq_some_iff] at hm
    exact hs.attached src id m hm.1
  · exact hs.into

/-- A removal keeps the counts right only where it removes nothing. -/
theorem remove_counted_iff {g : Graph} (hs : g.Sound) (hc : Counted g) (artifactId : String) :
    Counted (removeMentionsForArtifact g artifactId).1 ↔
      ∀ id, Source.mk .artifact artifactId ∉ g.artifactsOf id := by
  rw [counted_iff (remove_sound hs artifactId)]
  refine forall_congr' fun id => ?_
  show g.count id = _ ↔ _
  rw [hc.eq hs id, artifactsOf_remove]
  constructor
  · intro hcard hmem
    have hlt := Finset.card_erase_lt_of_mem hmem
    omega
  · intro hnot
    rw [Finset.erase_eq_of_notMem hnot]

/-! ## Merges -/

theorem artifactsOf_upsertSurvivor (c : MergeCall) (g : Graph) (k : String) :
    (upsertSurvivor c g).artifactsOf k = g.artifactsOf k :=
  Graph.artifactsOf_congr (upsertSurvivor_keeps c g).1 k

section Folded

variable {c : MergeCall} {g : Graph} {loser : String} (h : loser ≠ c.survivorId) {e : Entity}
  (hget : g.entities.get? loser = some e) (hg : g.hasEntity c.survivorId = true)

include h hget hg

theorem artifactsOf_foldLoser (k : String) :
    (foldLoser c g loser).artifactsOf k =
      if k = loser then ∅
      else if k = c.survivorId then g.artifactsOf c.survivorId ∪ g.artifactsOf loser
      else g.artifactsOf k := by
  ext src
  rw [Graph.mem_artifactsOf, get?_foldLoser_mentions h hget hg]
  by_cases hk : k = loser
  · rw [if_pos hk, if_pos hk]
    simp
  · rw [if_neg hk, if_neg hk]
    by_cases hs : k = c.survivorId
    · rw [if_pos hs, if_pos hs, Finset.mem_union, Graph.mem_artifactsOf, Graph.mem_artifactsOf]
      cases g.mentions.get? (src, c.survivorId) with
      | none => simp
      | some m => simpa using fun hl _ _ => hl
    · rw [if_neg hs, if_neg hs, Graph.mem_artifactsOf]

theorem foldLoser_sound_of_eq (hs : g.Sound) : (foldLoser c g loser).Sound := by
  constructor
  · intro src id m hm
    rw [get?_foldLoser_mentions h hget hg] at hm
    rw [hasEntity_foldLoser h hget hg]
    split at hm
    · cases hm
    · rename_i hl
      split at hm
      · rename_i hid
        rw [hid] at hl
        simp [hid, hl, hg]
      · simp [hl, hs.attached src id m hm]
  · intro x y hm
    rw [get?_foldLoser_mergedInto h hget hg] at hm
    rw [hasEntity_foldLoser h hget hg]
    split at hm
    · cases hm
    · rename_i hl
      split at hm
      · rename_i hxy
        obtain ⟨rfl, rfl⟩ := hxy
        exact ⟨by simp [hl, hg], h⟩
      · have hinto := hs.into x y hm
        exact ⟨by simp [hl, hinto.1], hinto.2⟩

end Folded

theorem foldLoser_sound (c : MergeCall) {g : Graph} (hs : g.Sound)
    (hg : g.hasEntity c.survivorId = true) (l : String) :
    (foldLoser c g l).Sound ∧ (foldLoser c g l).hasEntity c.survivorId = true := by
  refine ⟨?_, hasEntity_survivor_foldLoser c hg l⟩
  rcases foldLoser_cases c g l with ⟨heq, -⟩ | ⟨hl, e, hget⟩
  · rw [heq]
    exact hs
  · exact foldLoser_sound_of_eq hl hget hg hs

theorem mergeEntities_sound (c : MergeCall) {g : Graph} (hs : g.Sound) :
    (mergeEntities c g).Sound ∧ (mergeEntities c g).hasEntity c.survivorId = true := by
  have hg := hasEntity_survivor_upsertSurvivor c g
  exact foldl_invariant (foldLoser c)
    (fun g => g.Sound ∧ g.hasEntity c.survivorId = true) (p := fun _ => True)
    (fun g l hinv _ => foldLoser_sound c hinv.1 hinv.2 l) ⟨upsertSurvivor_sound c hs, hg⟩
    (fun _ _ => trivial)

/-- No artifact mentions two of these entities. -/
def Apart (g : Graph) (ids : List String) : Prop :=
  ∀ x ∈ ids, ∀ y ∈ ids, x ≠ y → Disjoint (g.artifactsOf x) (g.artifactsOf y)

instance (g : Graph) (ids : List String) : Decidable (Apart g ids) :=
  inferInstanceAs (Decidable (∀ x ∈ ids, ∀ y ∈ ids, x ≠ y →
    Disjoint (g.artifactsOf x) (g.artifactsOf y)))

theorem apart_cons_same {g : Graph} {s l : String} {rest : List String}
    (h : l = s ∨ g.artifactsOf l = ∅) : Apart g (s :: l :: rest) ↔ Apart g (s :: rest) := by
  constructor
  · intro hap x hx y hy
    refine hap x ?_ y ?_
    · rcases List.mem_cons.mp hx with rfl | hx <;> simp [*]
    · rcases List.mem_cons.mp hy with rfl | hy <;> simp [*]
  · intro hap x hx y hy hxy
    have hmem : ∀ z ∈ s :: l :: rest, g.artifactsOf z = ∅ ∨ z ∈ s :: rest := by
      intro z hz
      rcases List.mem_cons.mp hz with rfl | hz
      · exact Or.inr List.mem_cons_self
      · rcases List.mem_cons.mp hz with rfl | hz
        · rcases h with rfl | h
          · exact Or.inr List.mem_cons_self
          · exact Or.inl h
        · exact Or.inr (List.mem_cons_of_mem _ hz)
    rcases hmem x hx with hx | hx
    · rw [hx]
      exact Finset.disjoint_empty_left _
    · rcases hmem y hy with hy | hy
      · rw [hy]
        exact Finset.disjoint_empty_right _
      · exact hap x hx y hy hxy

/-- A loser that is folded brings its artifacts to the survivor: what was apart of the two
is apart of the one. -/
theorem apart_cons_folded {c : MergeCall} {g : Graph} {l : String} {rest : List String}
    (h : l ≠ c.survivorId) {e : Entity} (hget : g.entities.get? l = some e)
    (hg : g.hasEntity c.survivorId = true) :
    Apart g (c.survivorId :: l :: rest) ↔
      Disjoint (g.artifactsOf c.survivorId) (g.artifactsOf l) ∧
        Apart (foldLoser c g l) (c.survivorId :: rest) := by
  have hart := artifactsOf_foldLoser h hget hg
  have hs : (foldLoser c g l).artifactsOf c.survivorId =
      g.artifactsOf c.survivorId ∪ g.artifactsOf l := by
    rw [hart, if_neg (Ne.symm h), if_pos rfl]
  have hother : ∀ y, y ≠ c.survivorId → y ≠ l →
      (foldLoser c g l).artifactsOf y = g.artifactsOf y := fun y hy hl => by
    rw [hart, if_neg hl, if_neg hy]
  have hgone : (foldLoser c g l).artifactsOf l = ∅ := by rw [hart, if_pos rfl]
  constructor
  · intro hap
    refine ⟨hap _ List.mem_cons_self l (by simp) (Ne.symm h), ?_⟩
    -- the survivor against the rest, and the rest among themselves
    have hsurvivor : ∀ y ∈ rest, y ≠ c.survivorId → Disjoint
        ((foldLoser c g l).artifactsOf c.survivorId) ((foldLoser c g l).artifactsOf y) := by
      intro y hy hys
      by_cases hyl : y = l
      · rw [hyl, hgone]
        exact Finset.disjoint_empty_right _
      · rw [hs, hother y hys hyl, Finset.disjoint_union_left]
        exact ⟨hap _ List.mem_cons_self y (by simp [hy]) (Ne.symm hys),
          hap l (by simp) y (by simp [hy]) (Ne.symm hyl)⟩
    intro x hx y hy hxy
    by_cases hxs : x = c.survivorId
    · subst hxs
      exact hsurvivor y ((List.mem_cons.mp hy).resolve_left (Ne.symm hxy)) (Ne.symm hxy)
    · have hx' := (List.mem_cons.mp hx).resolve_left hxs
      by_cases hys : y = c.survivorId
      · subst hys
        exact (hsurvivor x hx' hxs).symm
      · have hy' := (List.mem_cons.mp hy).resolve_left hys
        by_cases hxl : x = l
        · rw [hxl, hgone]
          exact Finset.disjoint_empty_left _
        · by_cases hyl : y = l
          · rw [hyl, hgone]
            exact Finset.disjoint_empty_right _
          · rw [hother x hxs hxl, hother y hys hyl]
            exact hap x (by simp [hx']) y (by simp [hy']) hxy
  · rintro ⟨hsl, hap⟩
    have hsurvivor : ∀ y ∈ rest, y ≠ c.survivorId → y ≠ l →
        Disjoint (g.artifactsOf c.survivorId) (g.artifactsOf y) ∧
          Disjoint (g.artifactsOf l) (g.artifactsOf y) := by
      intro y hy hys hyl
      have hd := hap _ List.mem_cons_self y (by simp [hy]) (Ne.symm hys)
      rw [hs, hother y hys hyl, Finset.disjoint_union_left] at hd
      exact hd
    -- the three kinds of entity: survivor, loser, the rest
    have hkind : ∀ z ∈ c.survivorId :: l :: rest, z = c.survivorId ∨ z = l ∨
        (z ∈ rest ∧ z ≠ c.survivorId ∧ z ≠ l) := by
      intro z hz
      by_cases hzs : z = c.survivorId
      · exact Or.inl hzs
      · by_cases hzl : z = l
        · exact Or.inr (Or.inl hzl)
        · simp only [List.mem_cons, hzs, hzl, false_or] at hz
          exact Or.inr (Or.inr ⟨hz, hzs, hzl⟩)
    intro x hx y hy hxy
    rcases hkind x hx with rfl | rfl | ⟨hx', hxs, hxl⟩
    · rcases hkind y hy with rfl | rfl | ⟨hy', hys, hyl⟩
      · exact absurd rfl hxy
      · exact hsl
      · exact (hsurvivor y hy' hys hyl).1
    · rcases hkind y hy with rfl | rfl | ⟨hy', hys, hyl⟩
      · exact hsl.symm
      · exact absurd rfl hxy
      · exact (hsurvivor y hy' hys hyl).2
    · rcases hkind y hy with rfl | rfl | ⟨hy', hys, hyl⟩
      · exact (hsurvivor x hx' hxs hxl).1.symm
      · exact (hsurvivor x hx' hxs hxl).2.symm
      · have hd := hap x (by simp [hx']) y (by simp [hy']) hxy
        rw [hother x hxs hxl, hother y hys hyl] at hd
        exact hd

/-- Over a merge, the other counts stay right, and the survivor's does if and only if it was
and no artifact is counted twice. -/
theorem foldl_foldLoser_counts (c : MergeCall) (ids : List String) {g : Graph} (hs : g.Sound)
    (hg : g.hasEntity c.survivorId = true)
    (hother : ∀ id, id ≠ c.survivorId → g.count id = (g.artifactsOf id).card)
    (hle : (g.artifactsOf c.survivorId).card ≤ g.count c.survivorId) :
    (∀ id, id ≠ c.survivorId → (ids.foldl (foldLoser c) g).count id =
        ((ids.foldl (foldLoser c) g).artifactsOf id).card) ∧
      ((ids.foldl (foldLoser c) g).count c.survivorId =
          ((ids.foldl (foldLoser c) g).artifactsOf c.survivorId).card ↔
        g.count c.survivorId = (g.artifactsOf c.survivorId).card ∧
          Apart g (c.survivorId :: ids)) := by
  induction ids generalizing g with
  | nil =>
    have hap : Apart g [c.survivorId] := by
      intro x hx y hy hxy
      rw [List.mem_singleton] at hx hy
      exact absurd (hx.trans hy.symm) hxy
    exact ⟨hother, fun h => ⟨h, hap⟩, fun h => h.1⟩
  | cons l rest ih =>
    rw [List.foldl_cons]
    rcases foldLoser_cases c g l with ⟨heq, hskip⟩ | ⟨hl, e, hget⟩
    · rw [heq, apart_cons_same (hskip.imp_right hs.artifactsOf_eq_empty)]
      exact ih hs hg hother hle
    · obtain ⟨hs', hg'⟩ := foldLoser_sound c hs hg l
      have hcount := count_foldLoser hl hget hg
      have hart := artifactsOf_foldLoser hl hget hg
      have hcl := hother l hl
      have hunion := Finset.card_union_add_card_inter (g.artifactsOf c.survivorId)
        (g.artifactsOf l)
      have hcs : (foldLoser c g l).count c.survivorId = g.count c.survivorId + g.count l := by
        rw [hcount, if_neg (Ne.symm hl), if_pos rfl]
      have has : (foldLoser c g l).artifactsOf c.survivorId =
          g.artifactsOf c.survivorId ∪ g.artifactsOf l := by
        rw [hart, if_neg (Ne.symm hl), if_pos rfl]
      have hother' : ∀ id, id ≠ c.survivorId →
          (foldLoser c g l).count id = ((foldLoser c g l).artifactsOf id).card := by
        intro id hid
        rw [hcount, hart]
        split
        · rfl
        · exact hother id hid
      obtain ⟨ihother, ihs⟩ := ih hs' hg' hother' (by rw [hcs, has]; omega)
      refine ⟨ihother, ihs.trans ?_⟩
      rw [apart_cons_folded hl hget hg, hcs, has, ← and_assoc]
      refine and_congr_left fun _ => ?_
      rw [Finset.disjoint_iff_inter_eq_empty, ← Finset.card_eq_zero]
      omega

theorem mergeEntities_counted_iff (c : MergeCall) {g : Graph} (hs : g.Sound) (hc : Counted g) :
    Counted (mergeEntities c g) ↔ Apart g (c.survivorId :: c.loserIds) := by
  have hs' := upsertSurvivor_sound c hs
  have hg := hasEntity_survivor_upsertSurvivor c g
  have hcounts : ∀ id, (upsertSurvivor c g).count id = ((upsertSurvivor c g).artifactsOf id).card :=
    fun id => by rw [count_upsertSurvivor, artifactsOf_upsertSurvivor, hc.eq hs id]
  obtain ⟨hother, hsurvivor⟩ := foldl_foldLoser_counts c c.loserIds hs' hg
    (fun id _ => hcounts id) (hcounts _).ge
  have hap : Apart (upsertSurvivor c g) (c.survivorId :: c.loserIds) ↔
      Apart g (c.survivorId :: c.loserIds) := by
    simp only [Apart, artifactsOf_upsertSurvivor]
  rw [counted_iff (mergeEntities_sound c hs).1, ← hap]
  constructor
  · intro h
    exact (hsurvivor.mp (h c.survivorId)).2
  · intro h id
    by_cases hid : id = c.survivorId
    · rw [hid]
      exact hsurvivor.mpr ⟨hcounts _, h⟩
    · exact hother id hid

/-! ## Unmerges -/

section Unmerges

variable (first : FirstRow) {g : Graph} {loser survivor : String} {t : Tombstone}

theorem unmergeEntity_eq (h : readTombstone first g loser = some (t, survivor)) :
    unmergeEntity first loser g = some (unmerged loser survivor t g) := by
  rw [unmergeEntity, h]
  rfl

/-- The row that was read is a tombstone's, and leads to an entity. -/
theorem readTombstone_spec (h : readTombstone first g loser = some (t, survivor)) :
    g.tombstones.get? loser = some t ∧ g.mergedInto.get? (loser, survivor) = some () := by
  rw [readTombstone] at h
  cases ht : g.tombstones.get? loser with
  | none =>
    rw [ht] at h
    cases h
  | some t' =>
    rw [ht] at h
    obtain ⟨s, hs, heq⟩ := Option.map_eq_some_iff.mp h
    cases heq
    refine ⟨rfl, ?_⟩
    have hmem := first.mem _ _ hs
    obtain ⟨⟨x, y⟩, hk, hy⟩ := List.mem_map.mp hmem
    obtain ⟨hk, hx⟩ := List.mem_filter.mp hk
    obtain ⟨u, hu⟩ := (Dict.mem_keys_iff _ _).mp hk
    have hxl : x = loser := of_decide_eq_true hx
    subst hxl hy
    exact hu

theorem readTombstone_unmerged : readTombstone first (unmerged loser survivor t g) loser = none := by
  rw [readTombstone, unmerged_tombstones, Dict.get?_erase, if_pos rfl]

/-- The artifacts of a snapshot that are still there. -/
def restored (g : Graph) (t : Tombstone) : Finset Source :=
  (g.sources.filter (fun src => src.label = .artifact ∧
    src.id ∈ t.mentionsSnapshot.map SnapshotRow.artId)).toFinset

theorem artifactsOf_unmerged (k : String) :
    (unmerged loser survivor t g).artifactsOf k =
      if k = loser then g.artifactsOf k ∪ restored g t else g.artifactsOf k := by
  ext src
  rw [Graph.mem_artifactsOf, get?_unmerged_mentions]
  by_cases hk : k = loser
  · have hres : src ∈ restored g t ↔ src ∈ g.sources ∧ src.label = .artifact ∧
        ∃ b, t.mentionsSnapshot.find? (fun b => b.artId = src.id) = some b := by
      rw [restored, List.mem_toFinset, List.mem_filter, decide_eq_true_eq, List.mem_map]
      refine and_congr_right fun _ => and_congr_right fun _ => ?_
      rw [← Option.isSome_iff_exists, List.find?_isSome]
      simp
    rw [if_pos hk, Finset.mem_union, Graph.mem_artifactsOf, hres]
    by_cases hsrc : src ∈ g.sources
    · rw [if_pos ⟨hk, hsrc⟩]
      cases hget : g.mentions.get? (src, k) with
      | some m => simpa using fun _ hl _ _ => hl
      | none => simp [hsrc]
    · rw [if_neg (fun h => hsrc h.2)]
      simp [hsrc]
  · rw [if_neg hk, if_neg (fun h => hk h.1), Graph.mem_artifactsOf]

theorem unmerged_sound (hs : g.Sound) : (unmerged loser survivor t g).Sound := by
  constructor
  · intro src id m hm
    rw [get?_unmerged_mentions] at hm
    rw [hasEntity_unmerged, Bool.or_eq_true, decide_eq_true_eq]
    split at hm
    · rename_i h
      exact Or.inl h.1
    · exact Or.inr (hs.attached src id m hm)
  · intro x y hm
    rw [get?_unmerged_mergedInto] at hm
    rw [hasEntity_unmerged, Bool.or_eq_true]
    split at hm
    · cases hm
    · exact ⟨Or.inr (hs.into x y hm).1, (hs.into x y hm).2⟩

/-- An unmerge keeps the counts right if and only if the tombstone's count is that of the
artifacts the entity now has, and there is nothing to take from the survivor. -/
theorem unmerged_counted_iff (hs : g.Sound) (hc : Counted g)
    (h : readTombstone first g loser = some (t, survivor)) :
    Counted (unmerged loser survivor t g) ↔
      t.mentionCount = (g.artifactsOf loser ∪ restored g t).card ∧
        (t.mentionCount = 0 ∨ g.count survivor = 0) := by
  have hne := (hs.into _ _ (readTombstone_spec first h).2).2
  rw [counted_iff (unmerged_sound hs)]
  constructor
  · intro hall
    have hl := hall loser
    have hsv := hall survivor
    rw [count_unmerged survivor t _ hne, artifactsOf_unmerged, if_pos rfl, if_pos rfl] at hl
    rw [count_unmerged survivor t _ hne, artifactsOf_unmerged, if_neg (Ne.symm hne), if_pos rfl,
      if_neg (Ne.symm hne), ← hc.eq hs survivor] at hsv
    refine ⟨hl, ?_⟩
    omega
  · rintro ⟨hl, hsv⟩ k
    rw [count_unmerged survivor t _ hne, artifactsOf_unmerged]
    by_cases hk : k = loser
    · rw [if_pos hk, if_pos hk, hk]
      exact hl
    · rw [if_neg hk, if_neg hk, ← hc.eq hs k]
      by_cases hks : k = survivor
      · rw [if_pos hks, hks]
        omega
      · rw [if_neg hks]

end Unmerges

end Cerid.EntityGraph
