import Cerid.EntityGraph.Fold

/-!
# What a merge and an unmerge leave

The entities, the mentions and the tombstones after each part of a merge, and after an
unmerge.
-/

namespace Cerid.EntityGraph

namespace Graph

theorem count_congr {g g' : Graph} (h : g'.entities = g.entities) (id : String) :
    g'.count id = g.count id := by
  rw [count, count, h]

theorem artifactsOf_congr {g g' : Graph} (h : g'.mentions = g.mentions) (id : String) :
    g'.artifactsOf id = g.artifactsOf id := by
  rw [artifactsOf, artifactsOf, h]

theorem count_of_not_hasEntity {g : Graph} {id : String} (h : g.hasEntity id = false) :
    g.count id = 0 := by
  rw [hasEntity, Option.isSome_eq_false_iff, Option.isNone_iff_eq_none] at h
  rw [count, h]
  rfl

theorem hasEntity_setEntity (g : Graph) (id : String) (f : Entity → Entity) (k : String) :
    (g.setEntity id f).hasEntity k = g.hasEntity k := by
  rw [hasEntity, get?_setEntity]
  split
  · rw [Option.isSome_map]
    rfl
  · rfl

/-- A `SET` of other properties leaves the counts. -/
theorem count_setEntity_same (g : Graph) (id : String) {f : Entity → Entity}
    (hf : ∀ e, (f e).mentionCount = e.mentionCount) (k : String) :
    (g.setEntity id f).count k = g.count k := by
  rw [count, get?_setEntity, count]
  split
  · cases g.entities.get? k with
    | none => rfl
    | some e => simp [hf e]
  · rfl

/-- An entity that nothing mentions, as nothing mentions what is not there. -/
theorem Sound.artifactsOf_eq_empty {g : Graph} (hs : g.Sound) {id : String}
    (h : g.hasEntity id = false) : g.artifactsOf id = ∅ := by
  refine Finset.eq_empty_of_forall_notMem fun src hsrc => ?_
  obtain ⟨-, m, hm⟩ := (mem_artifactsOf g id src).mp hsrc
  rw [hs.attached src id m hm] at h
  cases h

end Graph

/-! ## The survivor -/

theorem hasEntity_upsertSurvivor (c : MergeCall) (g : Graph) (k : String) :
    (upsertSurvivor c g).hasEntity k = (decide (k = c.survivorId) || g.hasEntity k) := by
  cases hget : g.entities.get? c.survivorId with
  | none =>
    simp only [upsertSurvivor, hget]
    show ((g.entities.set _ _).get? k).isSome = _
    rw [Dict.get?_set]
    by_cases hk : k = c.survivorId
    · simp [hk]
    · simp [hk, Graph.hasEntity]
  | some e =>
    simp only [upsertSurvivor, hget]
    rw [Graph.hasEntity_setEntity]
    by_cases hk : k = c.survivorId
    · simp [hk, Graph.hasEntity, hget]
    · simp [hk]

theorem upsertSurvivor_keeps (c : MergeCall) (g : Graph) :
    (upsertSurvivor c g).mentions = g.mentions ∧ (upsertSurvivor c g).mergedInto = g.mergedInto ∧
      (upsertSurvivor c g).tombstones = g.tombstones ∧
      (upsertSurvivor c g).sources = g.sources := by
  rw [upsertSurvivor]
  split <;> exact ⟨rfl, rfl, rfl, rfl⟩

theorem count_upsertSurvivor (c : MergeCall) (g : Graph) (k : String) :
    (upsertSurvivor c g).count k = g.count k := by
  cases hget : g.entities.get? c.survivorId with
  | none =>
    simp only [upsertSurvivor, hget]
    show (((g.entities.set _ _).get? k).bind _).getD 0 = _
    rw [Dict.get?_set, Graph.count]
    by_cases hk : k = c.survivorId
    · simp [hk, hget]
    · simp [hk]
  | some e =>
    simp only [upsertSurvivor, hget]
    rw [Graph.count_setEntity_same]
    intro e
    rfl

theorem upsertSurvivor_sound (c : MergeCall) {g : Graph} (hs : g.Sound) :
    (upsertSurvivor c g).Sound := by
  obtain ⟨hmentions, hinto, -, -⟩ := upsertSurvivor_keeps c g
  constructor
  · intro src id m hm
    rw [hmentions] at hm
    rw [hasEntity_upsertSurvivor, hs.attached src id m hm, Bool.or_true]
  · intro l s hm
    rw [hinto] at hm
    rw [hasEntity_upsertSurvivor, (hs.into l s hm).1, Bool.or_true]
    exact ⟨rfl, (hs.into l s hm).2⟩

/-! ## The snapshot -/

/-- The pages are the rows. -/
theorem readPages_eq {chunk : Nat} (hchunk : 1 ≤ chunk) (rows : List SnapshotRow)
    (fuel skip : Nat) (hfuel : rows.length < fuel + skip) :
    readPages chunk rows fuel skip = rows.drop skip := by
  induction fuel generalizing skip with
  | zero =>
    rw [readPages, List.drop_eq_nil_of_le (by omega)]
  | succ fuel ih =>
    have hlen : ((rows.drop skip).take chunk).length = min chunk (rows.length - skip) := by
      rw [List.length_take, List.length_drop]
    rw [readPages]
    split
    · rename_i h
      rw [List.drop_eq_nil_of_le (by omega)]
    · split
      · rename_i h
        rw [List.take_of_length_le]
        rw [List.length_drop]
        omega
      · rename_i hne hfull
        have hfull' : ((rows.drop skip).take chunk).length = chunk := by omega
        rw [hfull', ih (skip + chunk) (by omega), ← List.drop_drop, List.take_append_drop]

theorem snapshotMentions_eq (g : Graph) (loser : String) {chunk : Nat} (hchunk : 1 ≤ chunk) :
    snapshotMentions g loser chunk = mentionRows g loser := by
  rw [snapshotMentions, readPages_eq hchunk _ _ _ (by omega), List.drop_zero]

theorem length_mentionRows (g : Graph) (loser : String) :
    (mentionRows g loser).length = ((repointMentions loser loser).rows g.mentions).length := by
  rw [mentionRows, List.length_insertionSort, List.length_map]

theorem mem_mentionRows (g : Graph) (loser : String) (b : SnapshotRow) :
    b ∈ mentionRows g loser ↔
      ∃ src m, g.mentions.get? (src, loser) = some m ∧ b = snapshotRow ((src, loser), m) := by
  rw [mentionRows, List.mem_insertionSort, List.mem_map]
  constructor
  · rintro ⟨⟨⟨src, id⟩, m⟩, hp, rfl⟩
    obtain ⟨hget, hid⟩ := (Dict.Repoint.mem_rows_iff _ _ _).mp hp
    have hid : id = loser := of_decide_eq_true hid
    subst hid
    exact ⟨src, m, hget, rfl⟩
  · rintro ⟨src, m, hget, rfl⟩
    exact ⟨((src, loser), m),
      (Dict.Repoint.mem_rows_iff _ _ _).mpr ⟨hget, decide_eq_true rfl⟩, rfl⟩

/-! ## One loser -/

theorem filter_of_forall {β : Type} {p : β → Bool} (hp : ∀ x, p x = true) (o : Option β) :
    o.filter p = o := by
  cases o with
  | none => rfl
  | some x => exact Option.filter_some_pos (hp x)

variable {c : MergeCall} {g : Graph} {loser : String}

/-- The identity that is read of an entity. -/
def identityOf (c : MergeCall) (g : Graph) (loser : String) (e : Entity) : Identity where
  name := e.name
  entityType := e.entityType
  mentionCount := e.mentionCount.getD 0
  mentionsSnapshot := snapshotMentions g loser c.chunk

theorem foldLoser_survivor : foldLoser c g c.survivorId = g := if_pos rfl

theorem foldLoser_gone (h : g.entities.get? loser = none) : foldLoser c g loser = g := by
  rw [foldLoser, readIdentity, h]
  exact ite_self g

theorem foldLoser_eq (h : loser ≠ c.survivorId) {e : Entity}
    (hget : g.entities.get? loser = some e) :
    foldLoser c g loser =
      detachDelete loser (writeTombstone c loser (identityOf c g loser e)
        (addMentionCount c.survivorId (e.mentionCount.getD 0)
          (Drain.runAll (foldDrains c loser) g))) := by
  rw [foldLoser, if_neg h, readIdentity, hget]
  rfl

theorem hasEntity_addMentionCount (survivor : String) (delta : Nat) (g : Graph) (k : String) :
    (addMentionCount survivor delta g).hasEntity k = g.hasEntity k :=
  Graph.hasEntity_setEntity g survivor _ k

section Folded

variable (h : loser ≠ c.survivorId) {e : Entity} (hget : g.entities.get? loser = some e)
  (hg : g.hasEntity c.survivorId = true)

include h hget hg

/-- With the survivor there, the tombstone is written. -/
theorem foldLoser_written :
    ∃ g', g' = Drain.runAll (foldDrains c loser) g ∧
      foldLoser c g loser =
        detachDelete loser
          { addMentionCount c.survivorId (e.mentionCount.getD 0) g' with
            tombstones := g.tombstones.set loser (tombstoneOf c loser (identityOf c g loser e))
            mergedInto := g.mergedInto.set (loser, c.survivorId) () } := by
  refine ⟨_, rfl, ?_⟩
  have htombstones := runAll_tombstones c loser g
  have hinto := runAll_mergedInto c loser g
  have hhas := hasEntity_congr (runAll_entities c loser g) c.survivorId
  rw [foldLoser_eq h hget]
  generalize Drain.runAll (foldDrains c loser) g = g' at htombstones hinto hhas
  have hs : (addMentionCount c.survivorId (e.mentionCount.getD 0) g').hasEntity c.survivorId =
      true := by
    rw [hasEntity_addMentionCount, hhas]
    exact hg
  rw [writeTombstone, if_pos hs, ← htombstones, ← hinto]
  rfl

theorem get?_foldLoser_entities (k : String) :
    (foldLoser c g loser).entities.get? k =
      if k = loser then none
      else if k = c.survivorId then
        (g.entities.get? k).map
          (fun s => { s with mentionCount := some (s.mentionCount.getD 0 + e.mentionCount.getD 0) })
      else g.entities.get? k := by
  obtain ⟨g', hg', heq⟩ := foldLoser_written h hget hg
  rw [heq]
  show ((addMentionCount c.survivorId _ g').entities.erase loser).get? k = _
  rw [Dict.get?_erase, addMentionCount, Graph.get?_setEntity, hg', runAll_entities]

theorem get?_foldLoser_mentions (src : Source) (k : String) :
    (foldLoser c g loser).mentions.get? (src, k) =
      if k = loser then none
      else if k = c.survivorId then
        (g.mentions.get? (src, c.survivorId)).or (g.mentions.get? (src, loser))
      else g.mentions.get? (src, k) := by
  obtain ⟨g', hg', heq⟩ := foldLoser_written h hget hg
  rw [heq]
  show (g'.mentions.filter _).get? (src, k) = _
  rw [Dict.get?_filter, hg', runAll_mentions h hg, get?_moveAll_mentions h]
  by_cases hk : k = loser
  · rw [if_pos hk]
    rfl
  · rw [if_neg hk]
    exact filter_of_forall (fun _ => decide_eq_true hk) _

theorem foldLoser_tombstones :
    (foldLoser c g loser).tombstones =
      g.tombstones.set loser (tombstoneOf c loser (identityOf c g loser e)) := by
  obtain ⟨g', -, heq⟩ := foldLoser_written h hget hg
  rw [heq]
  rfl

theorem get?_foldLoser_mergedInto (x y : String) :
    (foldLoser c g loser).mergedInto.get? (x, y) =
      if y = loser then none
      else if x = loser ∧ y = c.survivorId then some ()
      else g.mergedInto.get? (x, y) := by
  obtain ⟨g', -, heq⟩ := foldLoser_written h hget hg
  rw [heq]
  show ((g.mergedInto.set _ _).filter _).get? (x, y) = _
  rw [Dict.get?_filter, Dict.get?_set]
  by_cases hy : y = loser
  · rw [if_pos hy]
    exact Option.filter_eq_none_iff.mpr fun _ _ => by simp [hy]
  · rw [if_neg hy]
    rw [filter_of_forall (fun _ => decide_eq_true hy)]
    simp only [Prod.mk.injEq]

theorem foldLoser_sources : (foldLoser c g loser).sources = g.sources := by
  obtain ⟨g', hg', heq⟩ := foldLoser_written h hget hg
  rw [heq]
  show g'.sources = _
  rw [hg', runAll_sources]

theorem hasEntity_foldLoser (k : String) :
    (foldLoser c g loser).hasEntity k = (decide (k ≠ loser) && g.hasEntity k) := by
  rw [Graph.hasEntity, get?_foldLoser_entities h hget hg]
  by_cases hl : k = loser
  · simp [hl]
  · rw [if_neg hl]
    by_cases hs : k = c.survivorId
    · rw [if_pos hs, Option.isSome_map]
      simp [hl, Graph.hasEntity]
    · rw [if_neg hs]
      simp [hl, Graph.hasEntity]

theorem count_foldLoser (k : String) :
    (foldLoser c g loser).count k =
      if k = loser then 0
      else if k = c.survivorId then g.count k + g.count loser
      else g.count k := by
  have hl : g.count loser = e.mentionCount.getD 0 := by
    rw [Graph.count, hget]
    rfl
  rw [Graph.count, get?_foldLoser_entities h hget hg, hl]
  by_cases hk : k = loser
  · rw [if_pos hk, if_pos hk]
    rfl
  · rw [if_neg hk, if_neg hk]
    by_cases hs : k = c.survivorId
    · rw [if_pos hs, if_pos hs, Graph.count, hs]
      obtain ⟨s, hs⟩ := Option.isSome_iff_exists.mp hg
      rw [hs]
      rfl
    · rw [if_neg hs, if_neg hs, Graph.count]

end Folded

theorem foldLoser_cases (c : MergeCall) (g : Graph) (l : String) :
    foldLoser c g l = g ∧ (l = c.survivorId ∨ g.hasEntity l = false) ∨
      l ≠ c.survivorId ∧ ∃ e, g.entities.get? l = some e := by
  by_cases hl : l = c.survivorId
  · subst hl
    exact Or.inl ⟨foldLoser_survivor, Or.inl rfl⟩
  · cases hget : g.entities.get? l with
    | none =>
      refine Or.inl ⟨foldLoser_gone hget, Or.inr ?_⟩
      rw [Graph.hasEntity, hget]
      rfl
    | some e => exact Or.inr ⟨hl, e, rfl⟩

/-- The survivor is there throughout. -/
theorem hasEntity_survivor_foldLoser (c : MergeCall) {g : Graph}
    (hg : g.hasEntity c.survivorId = true) (l : String) :
    (foldLoser c g l).hasEntity c.survivorId = true := by
  rcases foldLoser_cases c g l with ⟨heq, -⟩ | ⟨hl, e, hget⟩
  · rw [heq]
    exact hg
  · rw [hasEntity_foldLoser hl hget hg, hg, decide_eq_true (Ne.symm hl)]
    rfl

theorem hasEntity_survivor_upsertSurvivor (c : MergeCall) (g : Graph) :
    (upsertSurvivor c g).hasEntity c.survivorId = true := by
  rw [hasEntity_upsertSurvivor, decide_eq_true rfl, Bool.true_or]

/-- Entities that are gone stay gone through a merge, and its losers go. -/
theorem foldl_foldLoser_gone (c : MergeCall) (ids : List String) {g : Graph}
    (hg : g.hasEntity c.survivorId = true) {l : String} (hl : l ≠ c.survivorId)
    (h : g.hasEntity l = false ∨ l ∈ ids) : (ids.foldl (foldLoser c) g).hasEntity l = false := by
  induction ids generalizing g with
  | nil => exact h.resolve_right List.not_mem_nil
  | cons x rest ih =>
    rw [List.foldl_cons]
    refine ih (hasEntity_survivor_foldLoser c hg x) ?_
    rcases foldLoser_cases c g x with ⟨heq, hskip⟩ | ⟨hx, e, hget⟩
    · rw [heq]
      rcases h with h | h
      · exact Or.inl h
      · rcases List.mem_cons.mp h with rfl | h
        · exact Or.inl (hskip.resolve_left hl)
        · exact Or.inr h
    · rw [hasEntity_foldLoser hx hget hg]
      rcases h with h | h
      · exact Or.inl (by rw [h, Bool.and_false])
      · rcases List.mem_cons.mp h with rfl | h
        · exact Or.inl (by simp)
        · exact Or.inr h

theorem mergeEntities_gone (c : MergeCall) (g : Graph) {l : String} (hmem : l ∈ c.loserIds)
    (hl : l ≠ c.survivorId) : (mergeEntities c g).hasEntity l = false :=
  foldl_foldLoser_gone c c.loserIds (hasEntity_survivor_upsertSurvivor c g) hl (Or.inr hmem)

/-- Losers that are all gone are all skipped. -/
theorem foldl_foldLoser_skip (c : MergeCall) {g : Graph} {ids : List String}
    (h : ∀ l ∈ ids, l = c.survivorId ∨ g.hasEntity l = false) : ids.foldl (foldLoser c) g = g := by
  induction ids with
  | nil => rfl
  | cons l rest ih =>
    have hskip : foldLoser c g l = g := by
      rcases foldLoser_cases c g l with ⟨heq, -⟩ | ⟨hl, e, hget⟩
      · exact heq
      · have hgone := (h l List.mem_cons_self).resolve_left hl
        rw [Graph.hasEntity, hget] at hgone
        cases hgone
    rw [List.foldl_cons, hskip]
    exact ih fun x hx => h x (List.mem_cons_of_mem l hx)

/-- A merge run again finds no loser. -/
theorem mergeEntities_again (c : MergeCall) (g : Graph) :
    mergeEntities c (mergeEntities c g) = upsertSurvivor c (mergeEntities c g) := by
  refine foldl_foldLoser_skip c fun l hmem => ?_
  by_cases hl : l = c.survivorId
  · exact Or.inl hl
  · refine Or.inr ?_
    rw [hasEntity_upsertSurvivor, mergeEntities_gone c g hmem hl, decide_eq_false hl]
    rfl

/-! ## Unmerge -/

theorem get?_restoreEntity_of_none {t : Tombstone} (hget : g.entities.get? loser = none)
    (k : String) :
    (restoreEntity loser t g).entities.get? k =
      if k = loser then
        some { name := some (strOr (some t.name) loser), entityType := some t.entityType,
               mentionCount := some t.mentionCount }
      else g.entities.get? k := by
  simp only [restoreEntity, hget]
  show (g.entities.set _ _).get? k = _
  rw [Dict.get?_set]

theorem count_restoreEntity (t : Tombstone) (k : String) :
    (restoreEntity loser t g).count k = if k = loser then t.mentionCount else g.count k := by
  cases hget : g.entities.get? loser with
  | none =>
    rw [Graph.count, get?_restoreEntity_of_none hget]
    by_cases hk : k = loser
    · simp [hk]
    · simp [hk, Graph.count]
  | some e =>
    simp only [restoreEntity, hget]
    rw [Graph.count, Graph.get?_setEntity]
    by_cases hk : k = loser
    · simp [hk, hget]
    · simp [hk, Graph.count]

theorem hasEntity_restoreEntity (t : Tombstone) (k : String) :
    (restoreEntity loser t g).hasEntity k = (decide (k = loser) || g.hasEntity k) := by
  cases hget : g.entities.get? loser with
  | none =>
    rw [Graph.hasEntity, get?_restoreEntity_of_none hget]
    by_cases hk : k = loser
    · simp [hk]
    · simp [hk, Graph.hasEntity]
  | some e =>
    simp only [restoreEntity, hget]
    rw [Graph.hasEntity_setEntity]
    by_cases hk : k = loser
    · simp [hk, Graph.hasEntity, hget]
    · simp [hk]

theorem restoreEntity_keeps (t : Tombstone) :
    (restoreEntity loser t g).mentions = g.mentions ∧
      (restoreEntity loser t g).mergedInto = g.mergedInto ∧
      (restoreEntity loser t g).sources = g.sources := by
  rw [restoreEntity]
  split <;> exact ⟨rfl, rfl, rfl⟩

/-- The rows of a snapshot restore mentions and nothing else. -/
theorem foldl_restoreMention (rows : List SnapshotRow) (g : Graph) :
    rows.foldl (restoreMention loser) g =
      { g with mentions := (rows.foldl (restoreMention loser) g).mentions } := by
  induction rows generalizing g with
  | nil => rfl
  | cons b rest ih =>
    rw [List.foldl_cons, ih]
    rfl

/-- What a snapshot row is for a source. -/
def SnapshotRow.mention (b : SnapshotRow) : Mention where
  confidence := b.confidence
  chunkIds := b.chunkIds
  createdAt := b.createdAt

theorem get?_foldl_setDefault_sources (m : Mention) (srcs : List Source)
    (d : Dict (Source × String) Mention) (src : Source) (k : String) :
    (srcs.foldl (fun d src => d.setDefault (src, loser) m) d).get? (src, k) =
      if k = loser ∧ src ∈ srcs then some ((d.get? (src, k)).getD m) else d.get? (src, k) := by
  induction srcs generalizing d with
  | nil => simp
  | cons s rest ih =>
    rw [List.foldl_cons, ih, Dict.get?_setDefault]
    by_cases hk : k = loser
    · subst hk
      by_cases hs : src = s
      · subst hs
        by_cases hr : src ∈ rest <;> simp [hr]
      · simp [hs]
    · simp [hk]

/-- The first row with the id of a node restores its mention, unless there is one. -/
theorem get?_restoreMentions (rows : List SnapshotRow) (g : Graph) (src : Source) (k : String) :
    (rows.foldl (restoreMention loser) g).mentions.get? (src, k) =
      if k = loser ∧ src ∈ g.sources then
        (g.mentions.get? (src, k)).or
          ((rows.find? (fun b => b.artId = src.id)).map SnapshotRow.mention)
      else g.mentions.get? (src, k) := by
  induction rows generalizing g with
  | nil => simp
  | cons b rest ih =>
    have hstep : (restoreMention loser g b).mentions.get? (src, k) =
        if k = loser ∧ src ∈ g.sources.filter (fun src => src.id = b.artId) then
          some ((g.mentions.get? (src, k)).getD b.mention)
        else g.mentions.get? (src, k) :=
      get?_foldl_setDefault_sources _ _ _ _ _
    have hsources : (restoreMention loser g b).sources = g.sources := rfl
    rw [List.foldl_cons, ih, hsources, hstep]
    by_cases hks : k = loser ∧ src ∈ g.sources
    · by_cases hb : src.id = b.artId
      · have hmem : k = loser ∧ src ∈ g.sources.filter (fun src => src.id = b.artId) :=
          ⟨hks.1, List.mem_filter.mpr ⟨hks.2, decide_eq_true hb⟩⟩
        rw [if_pos hks, if_pos hks, if_pos hmem,
          List.find?_cons_of_pos (by simpa using hb.symm)]
        cases g.mentions.get? (src, k) <;> simp
      · have hmem : ¬ (k = loser ∧ src ∈ g.sources.filter (fun src => src.id = b.artId)) := by
          intro h
          exact hb (of_decide_eq_true (List.mem_filter.mp h.2).2)
        have hb' : ¬ b.artId = src.id := fun h => hb h.symm
        rw [if_pos hks, if_pos hks, if_neg hmem, List.find?_cons_of_neg (by simpa using hb')]
    · have hmem : ¬ (k = loser ∧ src ∈ g.sources.filter (fun src => src.id = b.artId)) := by
        intro h
        exact hks ⟨h.1, (List.mem_filter.mp h.2).1⟩
      rw [if_neg hks, if_neg hks, if_neg hmem]

/-- An unmerge for which there is a tombstone. -/
def unmerged (loser survivor : String) (t : Tombstone) (g : Graph) : Graph :=
  deleteTombstone loser (decrementSurvivor survivor t.mentionCount
    (t.mentionsSnapshot.foldl (restoreMention loser) (restoreEntity loser t g)))

section Unmerged

variable (survivor : String) (t : Tombstone) (k : String)

theorem get?_unmerged_entities :
    (unmerged loser survivor t g).entities.get? k =
      if k = survivor then
        ((restoreEntity loser t g).entities.get? k).map
          (fun e => { e with mentionCount := some (e.mentionCount.getD 0 - t.mentionCount) })
      else (restoreEntity loser t g).entities.get? k := by
  show (decrementSurvivor survivor t.mentionCount _).entities.get? k = _
  rw [foldl_restoreMention, decrementSurvivor, Graph.get?_setEntity]

theorem hasEntity_unmerged :
    (unmerged loser survivor t g).hasEntity k = (decide (k = loser) || g.hasEntity k) := by
  rw [← hasEntity_restoreEntity t k, Graph.hasEntity, get?_unmerged_entities]
  split
  · rw [Option.isSome_map]
    rfl
  · rfl

theorem count_unmerged (h : loser ≠ survivor) :
    (unmerged loser survivor t g).count k =
      if k = loser then t.mentionCount
      else if k = survivor then g.count k - t.mentionCount
      else g.count k := by
  have hcount : (restoreEntity loser t g).count k =
      if k = loser then t.mentionCount else g.count k := count_restoreEntity t k
  rw [Graph.count, get?_unmerged_entities]
  by_cases hl : k = loser
  · have hs : ¬ k = survivor := fun hs => h (hl.symm.trans hs)
    rw [if_neg hs, if_pos hl]
    rw [if_pos hl] at hcount
    exact hcount
  · rw [if_neg hl]
    rw [if_neg hl] at hcount
    by_cases hs : k = survivor
    · rw [if_pos hs, if_pos hs, ← hcount, Graph.count]
      cases (restoreEntity loser t g).entities.get? k <;> simp
    · rw [if_neg hs, if_neg hs]
      exact hcount

theorem get?_unmerged_mentions (src : Source) :
    (unmerged loser survivor t g).mentions.get? (src, k) =
      if k = loser ∧ src ∈ g.sources then
        (g.mentions.get? (src, k)).or
          ((t.mentionsSnapshot.find? (fun b => b.artId = src.id)).map SnapshotRow.mention)
      else g.mentions.get? (src, k) := by
  have hmentions : (restoreEntity loser t g).mentions = g.mentions := (restoreEntity_keeps t).1
  have hsources : (restoreEntity loser t g).sources = g.sources := (restoreEntity_keeps t).2.2
  show (t.mentionsSnapshot.foldl (restoreMention loser) _).mentions.get? (src, k) = _
  rw [get?_restoreMentions, hmentions, hsources]

theorem get?_unmerged_mergedInto (x : String) :
    (unmerged loser survivor t g).mergedInto.get? (x, k) =
      if x = loser then none else g.mergedInto.get? (x, k) := by
  have hinto : (restoreEntity loser t g).mergedInto = g.mergedInto := (restoreEntity_keeps t).2.1
  show (Dict.filter (decrementSurvivor survivor t.mentionCount _).mergedInto _).get? (x, k) = _
  rw [foldl_restoreMention]
  show (Dict.filter (restoreEntity loser t g).mergedInto _).get? (x, k) = _
  rw [hinto, Dict.get?_filter]
  by_cases hx : x = loser
  · rw [if_pos hx]
    exact Option.filter_eq_none_iff.mpr fun _ _ => by simp [hx]
  · rw [if_neg hx]
    exact filter_of_forall (fun _ => decide_eq_true hx) _

theorem unmerged_tombstones :
    (unmerged loser survivor t g).tombstones = (restoreEntity loser t g).tombstones.erase loser := by
  show (decrementSurvivor survivor t.mentionCount _).tombstones.erase loser = _
  rw [foldl_restoreMention]
  rfl

end Unmerged

end Cerid.EntityGraph
