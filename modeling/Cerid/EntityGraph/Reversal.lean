import Cerid.EntityGraph.Counts
import Cerid.EntityGraph.Crash

/-!
# Unmerging what was merged

What an unmerge gives back when it comes right after its merge, and which entities can be
unmerged at all after a sequence of merges.
-/

namespace Cerid.EntityGraph

/-- Every `MENTIONS` edge begins at a node. -/
def Sourced (g : Graph) : Prop := ∀ src id m, g.mentions.get? (src, id) = some m → src ∈ g.sources

def nameOf (g : Graph) (id : String) : Option (Option String) :=
  (g.entities.get? id).map Entity.name

/-- Two graphs agree on the mentions, counts and names of the loser and the survivor, and on
the loser's contradictions and enrichments. -/
structure SameFor (loser survivor : String) (g g' : Graph) : Prop where
  mentionsLoser : ∀ src, g'.mentions.get? (src, loser) = g.mentions.get? (src, loser)
  mentionsSurvivor : ∀ src, g'.mentions.get? (src, survivor) = g.mentions.get? (src, survivor)
  countLoser : g'.count loser = g.count loser
  countSurvivor : g'.count survivor = g.count survivor
  nameLoser : nameOf g' loser = nameOf g loser
  nameSurvivor : nameOf g' survivor = nameOf g survivor
  contradictions : ∀ f, g'.hasContradiction.get? (loser, f) = g.hasContradiction.get? (loser, f)
  enrichments : ∀ r, g'.enrichedFrom.get? (loser, r) = g.enrichedFrom.get? (loser, r)

/-- The graph before the merge of the loser at hand: the one before the call, or the one its
earlier losers have left. -/
def beforeMerge (c : MergeCall) (g : Graph) (earlier : List String) : Graph :=
  if earlier = [] then g else earlier.foldl (foldLoser c) (upsertSurvivor c g)

/-- The losers of a list that are merged from a graph. -/
def MergedIn (c : MergeCall) (ids : List String) (g : Graph) (l : String) : Prop :=
  l ∈ ids ∧ l ≠ c.survivorId ∧ g.hasEntity l = true

/-- The loser that a call merges last is given back by an unmerge, whichever row the database
returns first. -/
def Restores (c : MergeCall) (g : Graph) : Prop :=
  ∀ earlier loser later, c.loserIds = earlier ++ loser :: later → loser ≠ c.survivorId →
    (beforeMerge c g earlier).hasEntity loser = true →
    (∀ x ∈ later, x = c.survivorId ∨ x = loser ∨
      (beforeMerge c g earlier).hasEntity x = false) →
    ∀ first, ∃ g', unmergeEntity first loser (mergeEntities c g) = some g' ∧
      SameFor loser c.survivorId (beforeMerge c g earlier) g'

/-- When it is: the survivor keeps its name and gets no mention it did not have, the loser has
a name and nothing that is not given back, and no other node or edge stands for it. -/
structure RestoredWhen (c : MergeCall) (loser : String) (g : Graph) : Prop where
  survivorNamed : Named c g
  loserNamed : ∃ e, g.entities.get? loser = some e ∧ e.name = some (strOr e.name loser)
  shared : ∀ src m, g.mentions.get? (src, loser) = some m →
    ∃ m', g.mentions.get? (src, c.survivorId) = some m'
  noNamesake : ∀ src m, g.mentions.get? (src, loser) = some m →
    ∀ other ∈ g.sources, other.id = src.id → g.mentions.get? (other, loser) = some m
  noContradiction : ∀ f, g.hasContradiction.get? (loser, f) = none
  noEnrichment : ∀ r, g.enrichedFrom.get? (loser, r) = none
  noOtherMerge : g.count loser = 0 ∨
    ∀ s, g.mergedInto.get? (loser, s) = some () → s = c.survivorId

/-! ## One merge and its unmerge -/

theorem strOr_strOr (name : Option String) (loser : String) :
    strOr (some (strOr name loser)) loser = strOr name loser := by
  by_cases h : strOr name loser = ""
  · rw [strOr, if_pos h]
    cases name with
    | none => rfl
    | some n =>
      rw [strOr] at h ⊢
      split
      · rfl
      · rename_i hn
        rw [if_neg hn] at h
        exact absurd h hn
  · rw [strOr, if_neg h]

theorem mem_survivorsOf (g : Graph) (loser s : String) :
    s ∈ survivorsOf g loser ↔ g.mergedInto.get? (loser, s) = some () := by
  rw [survivorsOf, List.mem_map]
  constructor
  · rintro ⟨⟨x, y⟩, hk, rfl⟩
    obtain ⟨hk, hx⟩ := List.mem_filter.mp hk
    obtain ⟨u, hu⟩ := (Dict.mem_keys_iff _ _).mp hk
    have hxl : x = loser := of_decide_eq_true hx
    subst hxl
    exact hu
  · intro h
    exact ⟨(loser, s), List.mem_filter.mpr
      ⟨(Dict.mem_keys_iff _ _).mpr ⟨(), h⟩, decide_eq_true rfl⟩, rfl⟩

/-- An unmerge is possible when there is a tombstone with an edge. -/
theorem isSome_unmergeEntity (first : FirstRow) (g : Graph) (loser : String) :
    (unmergeEntity first loser g).isSome = true ↔
      (∃ t, g.tombstones.get? loser = some t) ∧ ∃ s, g.mergedInto.get? (loser, s) = some () := by
  rw [unmergeEntity, Option.isSome_map, readTombstone]
  cases ht : g.tombstones.get? loser with
  | none => simp
  | some t =>
    dsimp only
    rw [Option.isSome_map]
    constructor
    · intro h
      obtain ⟨s, hs⟩ := Option.isSome_iff_exists.mp h
      exact ⟨⟨t, rfl⟩, s, (mem_survivorsOf g loser s).mp (first.mem _ _ hs)⟩
    · rintro ⟨-, s, hs⟩
      have hne : survivorsOf g loser ≠ [] :=
        List.ne_nil_of_mem ((mem_survivorsOf g loser s).mpr hs)
      exact Option.isSome_iff_ne_none.mpr (first.some_of_ne_nil _ hne)

/-- The row of one survivor is returned first, when it is found. -/
def preferring (s : String) : FirstRow where
  pick l := if s ∈ l then some s else l.head?
  mem l x h := by
    split at h
    · cases h
      assumption
    · exact List.mem_of_head? h
  some_of_ne_nil l h hnone := by
    split at hnone
    · cases hnone
    · exact h (List.head?_eq_none_iff.mp hnone)

theorem readTombstone_preferring {g : Graph} {loser s : String} {t : Tombstone}
    (ht : g.tombstones.get? loser = some t) (hs : g.mergedInto.get? (loser, s) = some ()) :
    readTombstone (preferring s) g loser = some (t, s) := by
  have hpick : (preferring s).pick (survivorsOf g loser) = some s :=
    if_pos ((mem_survivorsOf g loser s).mpr hs)
  rw [readTombstone, ht]
  dsimp only
  rw [hpick]
  rfl

theorem nameOf_unmerged (loser s k : String) (t : Tombstone) (g : Graph) :
    nameOf (unmerged loser s t g) k = nameOf (restoreEntity loser t g) k := by
  rw [nameOf, get?_unmerged_entities, nameOf]
  split
  · cases (restoreEntity loser t g).entities.get? k <;> rfl
  · rfl

/-- An unmerge gives no link back. -/
theorem unmerged_links (loser s : String) (t : Tombstone) (g : Graph) :
    (unmerged loser s t g).hasContradiction = g.hasContradiction ∧
      (unmerged loser s t g).enrichedFrom = g.enrichedFrom := by
  have hrestore : (restoreEntity loser t g).hasContradiction = g.hasContradiction ∧
      (restoreEntity loser t g).enrichedFrom = g.enrichedFrom := by
    rw [restoreEntity]
    split <;> exact ⟨rfl, rfl⟩
  rw [unmerged, foldl_restoreMention]
  exact hrestore

/-- The survivor's name, and the survivor itself, are as before if and only if the call did
not name it. -/
theorem nameOf_upsertSurvivor_iff (c : MergeCall) (g : Graph) :
    nameOf (upsertSurvivor c g) c.survivorId = nameOf g c.survivorId ↔ Named c g := by
  constructor
  · intro hname
    obtain ⟨e, hget, hlen⟩ := named_upsertSurvivor c g
    rw [nameOf, hget] at hname
    obtain ⟨e', hget', hname'⟩ := Option.map_eq_some_iff.mp hname.symm
    exact ⟨e', hget', by rw [hname']; exact hlen⟩
  · intro hnamed
    rw [upsertSurvivor_of_named hnamed]

section OneMerge

variable {c : MergeCall} {g : Graph} {loser : String} (h : loser ≠ c.survivorId) {e : Entity}
  (hget : g.entities.get? loser = some e)

/-- The graph after the merge of one loser. -/
def mergedOne (c : MergeCall) (g : Graph) (loser : String) : Graph :=
  foldLoser c (upsertSurvivor c g) loser

/-- The tombstone it leaves. -/
def tombstoneLeft (c : MergeCall) (g : Graph) (loser : String) (e : Entity) : Tombstone :=
  tombstoneOf c loser (identityOf c (upsertSurvivor c g) loser e)

include h hget

theorem mergedOne_entities (k : String) :
    (mergedOne c g loser).entities.get? k =
      if k = loser then none
      else if k = c.survivorId then
        ((upsertSurvivor c g).entities.get? k).map
          (fun s => { s with mentionCount := some (s.mentionCount.getD 0 + e.mentionCount.getD 0) })
      else (upsertSurvivor c g).entities.get? k :=
  get?_foldLoser_entities h ((upsertSurvivor_other c g h).trans hget)
    (hasEntity_survivor_upsertSurvivor c g) k

theorem mergedOne_mentions (src : Source) (k : String) :
    (mergedOne c g loser).mentions.get? (src, k) =
      if k = loser then none
      else if k = c.survivorId then
        (g.mentions.get? (src, c.survivorId)).or (g.mentions.get? (src, loser))
      else g.mentions.get? (src, k) := by
  rw [mergedOne, get?_foldLoser_mentions h ((upsertSurvivor_other c g h).trans hget)
    (hasEntity_survivor_upsertSurvivor c g), (upsertSurvivor_keeps c g).1]

theorem mergedOne_tombstones (k : String) :
    (mergedOne c g loser).tombstones.get? k =
      if k = loser then some (tombstoneLeft c g loser e) else g.tombstones.get? k := by
  rw [mergedOne, foldLoser_tombstones h ((upsertSurvivor_other c g h).trans hget)
    (hasEntity_survivor_upsertSurvivor c g), (upsertSurvivor_keeps c g).2.2.1, Dict.get?_set]
  rfl

theorem mergedOne_mergedInto (x y : String) :
    (mergedOne c g loser).mergedInto.get? (x, y) =
      if y = loser then none
      else if x = loser ∧ y = c.survivorId then some ()
      else g.mergedInto.get? (x, y) := by
  rw [mergedOne, get?_foldLoser_mergedInto h ((upsertSurvivor_other c g h).trans hget)
    (hasEntity_survivor_upsertSurvivor c g), (upsertSurvivor_keeps c g).2.1]

theorem mergedOne_sources : (mergedOne c g loser).sources = g.sources := by
  rw [mergedOne, foldLoser_sources h ((upsertSurvivor_other c g h).trans hget)
    (hasEntity_survivor_upsertSurvivor c g), (upsertSurvivor_keeps c g).2.2.2]

theorem mergedOne_links :
    (∀ f, (mergedOne c g loser).hasContradiction.get? (loser, f) = none) ∧
      ∀ r, (mergedOne c g loser).enrichedFrom.get? (loser, r) = none := by
  obtain ⟨g', -, heq⟩ := foldLoser_written h ((upsertSurvivor_other c g h).trans hget)
    (hasEntity_survivor_upsertSurvivor c g)
  rw [mergedOne, heq]
  constructor
  · intro f
    show (Dict.filter _ _).get? (loser, f) = none
    rw [Dict.get?_filter]
    exact Option.filter_eq_none_iff.mpr fun _ _ => by simp
  · intro r
    show (Dict.filter _ _).get? (loser, r) = none
    rw [Dict.get?_filter]
    exact Option.filter_eq_none_iff.mpr fun _ _ => by simp

theorem mergedOne_count_survivor :
    (mergedOne c g loser).count c.survivorId = g.count c.survivorId + g.count loser := by
  rw [mergedOne, count_foldLoser h ((upsertSurvivor_other c g h).trans hget)
    (hasEntity_survivor_upsertSurvivor c g), if_neg (Ne.symm h), if_pos rfl, count_upsertSurvivor,
    count_upsertSurvivor]

/-! ### What the unmerge gives back -/

section Unmerge

variable {s : String}

theorem back_mentions_survivor (src : Source) :
    (unmerged loser s (tombstoneLeft c g loser e) (mergedOne c g loser)).mentions.get?
        (src, c.survivorId) =
      (g.mentions.get? (src, c.survivorId)).or (g.mentions.get? (src, loser)) := by
  rw [get?_unmerged_mentions, if_neg (fun hk => h hk.1.symm), mergedOne_mentions h hget,
    if_neg (Ne.symm h), if_pos rfl]

theorem back_mentions_loser (src : Source) :
    (unmerged loser s (tombstoneLeft c g loser e) (mergedOne c g loser)).mentions.get?
        (src, loser) =
      if src ∈ g.sources then
        ((mentionRows g loser).find? (fun b => b.artId = src.id)).map SnapshotRow.mention
      else none := by
  have hrows : (tombstoneLeft c g loser e).mentionsSnapshot = mentionRows g loser := by
    show snapshotMentions (upsertSurvivor c g) loser c.chunk = _
    rw [snapshotMentions_eq _ _ c.chunk_pos, mentionRows, mentionRows, (upsertSurvivor_keeps c g).1]
  rw [get?_unmerged_mentions, mergedOne_mentions h hget, if_pos rfl, mergedOne_sources h hget, hrows,
    Option.none_or]
  simp

omit h in
theorem back_count_loser (hs : s ≠ loser) :
    (unmerged loser s (tombstoneLeft c g loser e) (mergedOne c g loser)).count loser =
      g.count loser := by
  rw [count_unmerged _ _ _ (Ne.symm hs), if_pos rfl, Graph.count, hget]
  rfl

theorem back_count_survivor (hs : s ≠ loser) :
    (unmerged loser s (tombstoneLeft c g loser e) (mergedOne c g loser)).count c.survivorId =
      g.count c.survivorId + if s = c.survivorId then 0 else g.count loser := by
  have hcount : (tombstoneLeft c g loser e).mentionCount = g.count loser := by
    rw [Graph.count, hget]
    rfl
  rw [count_unmerged _ _ _ (Ne.symm hs), if_neg (Ne.symm h), mergedOne_count_survivor h hget, hcount]
  by_cases hsv : s = c.survivorId
  · rw [if_pos hsv.symm, if_pos hsv]
    omega
  · rw [if_neg (Ne.symm hsv), if_neg hsv]

theorem back_name_loser :
    nameOf (unmerged loser s (tombstoneLeft c g loser e) (mergedOne c g loser)) loser =
      some (some (strOr e.name loser)) := by
  have hgone : (mergedOne c g loser).entities.get? loser = none := by
    rw [mergedOne_entities h hget, if_pos rfl]
  rw [nameOf_unmerged, nameOf, get?_restoreEntity_of_none hgone, if_pos rfl]
  show some (some (strOr (some (strOr e.name loser)) loser)) = _
  rw [strOr_strOr]

theorem back_name_survivor :
    nameOf (unmerged loser s (tombstoneLeft c g loser e) (mergedOne c g loser)) c.survivorId =
      nameOf (upsertSurvivor c g) c.survivorId := by
  have hgone : (mergedOne c g loser).entities.get? loser = none := by
    rw [mergedOne_entities h hget, if_pos rfl]
  rw [nameOf_unmerged, nameOf, get?_restoreEntity_of_none hgone, if_neg (Ne.symm h),
    mergedOne_entities h hget, if_neg (Ne.symm h), if_pos rfl, nameOf]
  cases (upsertSurvivor c g).entities.get? c.survivorId <;> rfl

/-- The mentions of the loser come back if and only if no other node has the id of one that
mentions it. -/
theorem back_mentions_loser_iff (hsrc : Sourced g) :
    (∀ src, (unmerged loser s (tombstoneLeft c g loser e) (mergedOne c g loser)).mentions.get?
        (src, loser) = g.mentions.get? (src, loser)) ↔
      ∀ src m, g.mentions.get? (src, loser) = some m →
        ∀ other ∈ g.sources, other.id = src.id → g.mentions.get? (other, loser) = some m := by
  constructor
  · intro hback src m hm other hother hid
    have hb := hback src
    have hb' := hback other
    rw [back_mentions_loser h hget, if_pos (hsrc src loser m hm), hm] at hb
    rw [back_mentions_loser h hget, if_pos hother, hid, hb] at hb'
    exact hb'.symm
  · intro hsame src
    rw [back_mentions_loser h hget]
    split
    · rename_i hmem
      cases hfind : (mentionRows g loser).find? (fun b => b.artId = src.id) with
      | none =>
        cases hm : g.mentions.get? (src, loser) with
        | none => rfl
        | some m =>
          have hrow := (mem_mentionRows g loser _).mpr ⟨src, m, hm, rfl⟩
          have hno := List.find?_eq_none.mp hfind _ hrow
          exact absurd (decide_eq_true rfl) hno
      | some b =>
        obtain ⟨x, m, hm, rfl⟩ := (mem_mentionRows g loser b).mp (List.mem_of_find?_eq_some hfind)
        have hid := List.find?_some hfind
        exact (hsame x m hm src hmem (of_decide_eq_true hid).symm).symm
    · rename_i hmem
      cases hm : g.mentions.get? (src, loser) with
      | none => rfl
      | some m => exact absurd (hsrc src loser m hm) hmem

/-- What an unmerge right after the merge gives back, when it reads the edge to `s`. -/
theorem sameFor_unmerged_iff (hsrc : Sourced g) (hs : s ≠ loser) :
    SameFor loser c.survivorId g
        (unmerged loser s (tombstoneLeft c g loser e) (mergedOne c g loser)) ↔
      Named c g ∧ e.name = some (strOr e.name loser) ∧
        (∀ src m, g.mentions.get? (src, loser) = some m →
          ∃ m', g.mentions.get? (src, c.survivorId) = some m') ∧
        (∀ src m, g.mentions.get? (src, loser) = some m →
          ∀ other ∈ g.sources, other.id = src.id → g.mentions.get? (other, loser) = some m) ∧
        (∀ f, g.hasContradiction.get? (loser, f) = none) ∧
        (∀ r, g.enrichedFrom.get? (loser, r) = none) ∧
        (s = c.survivorId ∨ g.count loser = 0) := by
  have hname : nameOf g loser = some e.name := by rw [nameOf, hget]; rfl
  obtain ⟨hcontra, henrich⟩ := unmerged_links loser s (tombstoneLeft c g loser e)
    (mergedOne c g loser)
  obtain ⟨hnoc, hnoe⟩ := mergedOne_links h hget
  constructor
  · intro hsame
    refine ⟨?_, ?_, ?_, (back_mentions_loser_iff h hget hsrc).mp hsame.mentionsLoser, ?_, ?_, ?_⟩
    · have hsv := hsame.nameSurvivor
      rw [back_name_survivor h hget] at hsv
      exact (nameOf_upsertSurvivor_iff c g).mp hsv
    · have hl := hsame.nameLoser
      rw [back_name_loser h hget, hname] at hl
      exact (Option.some.inj hl).symm
    · intro src m hm
      have hsv := hsame.mentionsSurvivor src
      rw [back_mentions_survivor h hget, hm] at hsv
      cases hget' : g.mentions.get? (src, c.survivorId) with
      | none =>
        rw [hget'] at hsv
        cases hsv
      | some m' => exact ⟨m', rfl⟩
    · intro f
      rw [← hsame.contradictions f, hcontra, hnoc]
    · intro r
      rw [← hsame.enrichments r, henrich, hnoe]
    · have hsv := hsame.countSurvivor
      rw [back_count_survivor h hget hs] at hsv
      by_cases hs' : s = c.survivorId
      · exact Or.inl hs'
      · rw [if_neg hs'] at hsv
        exact Or.inr (by omega)
  · rintro ⟨hnamed, hlname, hshared, hspare, hc, he, hedge⟩
    refine ⟨(back_mentions_loser_iff h hget hsrc).mpr hspare, fun src => ?_,
      back_count_loser hget hs, ?_, ?_, ?_, fun f => ?_, fun r => ?_⟩
    · rw [back_mentions_survivor h hget]
      cases hm : g.mentions.get? (src, loser) with
      | none => rw [Option.or_none]
      | some m =>
        obtain ⟨m', hm'⟩ := hshared src m hm
        rw [hm', Option.some_or]
    · rw [back_count_survivor h hget hs]
      rcases hedge with hs' | hzero
      · rw [if_pos hs']
        rfl
      · rw [hzero, ite_self]
        rfl
    · rw [back_name_loser h hget, hname, ← hlname]
    · rw [back_name_survivor h hget]
      exact (nameOf_upsertSurvivor_iff c g).mpr hnamed
    · rw [hcontra, hnoc, hc]
    · rw [henrich, hnoe, he]

end Unmerge

/-- One merge is taken back, whichever row is returned first, if and only if the condition
holds before it. -/
theorem mergedOne_restored_iff (hs : g.Sound) (hsrc : Sourced g) :
    (∀ first, ∃ g', unmergeEntity first loser (mergedOne c g loser) = some g' ∧
        SameFor loser c.survivorId g g') ↔ RestoredWhen c loser g := by
  have ht : (mergedOne c g loser).tombstones.get? loser = some (tombstoneLeft c g loser e) := by
    rw [mergedOne_tombstones h hget, if_pos rfl]
  have hown : (mergedOne c g loser).mergedInto.get? (loser, c.survivorId) = some () := by
    rw [mergedOne_mergedInto h hget, if_neg (Ne.symm h), if_pos ⟨rfl, rfl⟩]
  constructor
  · intro hall
    have hvia : ∀ s, (mergedOne c g loser).mergedInto.get? (loser, s) = some () →
        SameFor loser c.survivorId g
          (unmerged loser s (tombstoneLeft c g loser e) (mergedOne c g loser)) := by
      intro s hedge
      obtain ⟨g', hunmerge, hsame⟩ := hall (preferring s)
      rw [unmergeEntity_eq _ (readTombstone_preferring ht hedge)] at hunmerge
      exact Option.some.inj hunmerge ▸ hsame
    obtain ⟨hnamed, hlname, hshared, hspare, hc, he, -⟩ :=
      (sameFor_unmerged_iff h hget hsrc (Ne.symm h)).mp (hvia c.survivorId hown)
    refine ⟨hnamed, ⟨e, hget, hlname⟩, hshared, hspare, hc, he, ?_⟩
    by_cases hzero : g.count loser = 0
    · exact Or.inl hzero
    · refine Or.inr fun s hedge => ?_
      have hsl : s ≠ loser := Ne.symm (hs.into loser s hedge).2
      have hedge' : (mergedOne c g loser).mergedInto.get? (loser, s) = some () := by
        rw [mergedOne_mergedInto h hget, if_neg hsl]
        split
        · rfl
        · exact hedge
      obtain ⟨-, -, -, -, -, -, hlast⟩ :=
        (sameFor_unmerged_iff h hget hsrc hsl).mp (hvia s hedge')
      exact hlast.resolve_right hzero
  · rintro ⟨hnamed, ⟨e', hget', hlname⟩, hshared, hspare, hc, he, hother⟩ first
    rw [hget] at hget'
    cases hget'
    have hne : survivorsOf (mergedOne c g loser) loser ≠ [] :=
      List.ne_nil_of_mem ((mem_survivorsOf _ _ _).mpr hown)
    obtain ⟨s, hpick⟩ := Option.ne_none_iff_exists'.mp (first.some_of_ne_nil _ hne)
    have hedge := (mem_survivorsOf _ _ _).mp (first.mem _ _ hpick)
    have hread : readTombstone first (mergedOne c g loser) loser =
        some (tombstoneLeft c g loser e, s) := by
      rw [readTombstone, ht]
      dsimp only
      rw [hpick]
      rfl
    refine ⟨_, unmergeEntity_eq first hread, ?_⟩
    rw [mergedOne_mergedInto h hget] at hedge
    have hsl : s ≠ loser := by
      rintro rfl
      rw [if_pos rfl] at hedge
      cases hedge
    refine (sameFor_unmerged_iff h hget hsrc hsl).mpr
      ⟨hnamed, hlname, hshared, hspare, hc, he, ?_⟩
    rw [if_neg hsl] at hedge
    split at hedge
    · rename_i hls
      exact Or.inl hls.2
    · exact hother.symm.imp_left fun hall => hall s hedge

end OneMerge

/-! ## A call of several losers -/

theorem foldLoser_sourced (c : MergeCall) {g : Graph} (hg : g.hasEntity c.survivorId = true)
    (h : Sourced g) (l : String) : Sourced (foldLoser c g l) := by
  rcases foldLoser_cases c g l with ⟨heq, -⟩ | ⟨hl, e, hget⟩
  · rw [heq]
    exact h
  · intro src id m hm
    rw [foldLoser_sources hl hget hg]
    rw [get?_foldLoser_mentions hl hget hg] at hm
    split at hm
    · cases hm
    · split at hm
      · rw [Option.or_eq_some_iff] at hm
        rcases hm with hm | ⟨-, hm⟩
        · exact h src _ m hm
        · exact h src _ m hm
      · exact h src id m hm

theorem upsertSurvivor_sourced (c : MergeCall) {g : Graph} (h : Sourced g) :
    Sourced (upsertSurvivor c g) := by
  intro src id m hm
  rw [(upsertSurvivor_keeps c g).1] at hm
  rw [(upsertSurvivor_keeps c g).2.2.2]
  exact h src id m hm

theorem foldl_sound (c : MergeCall) (ids : List String) {g : Graph} (hs : g.Sound)
    (hsrc : Sourced g) (hg : g.hasEntity c.survivorId = true) :
    (ids.foldl (foldLoser c) g).Sound ∧ Sourced (ids.foldl (foldLoser c) g) ∧
      (ids.foldl (foldLoser c) g).hasEntity c.survivorId = true :=
  foldl_invariant (foldLoser c)
    (fun g => g.Sound ∧ Sourced g ∧ g.hasEntity c.survivorId = true) (p := fun _ => True)
    (fun _ l hinv _ => ⟨(foldLoser_sound c hinv.1 hinv.2.2 l).1,
      foldLoser_sourced c hinv.2.2 hinv.2.1 l, hasEntity_survivor_foldLoser c hinv.2.2 l⟩)
    ⟨hs, hsrc, hg⟩ (fun _ _ => trivial)

theorem mergeEntities_sourced (c : MergeCall) {g : Graph} (hs : g.Sound) (hsrc : Sourced g) :
    Sourced (mergeEntities c g) :=
  (foldl_sound c c.loserIds (upsertSurvivor_sound c hs) (upsertSurvivor_sourced c hsrc)
    (hasEntity_survivor_upsertSurvivor c g)).2.1

theorem beforeMerge_sound (c : MergeCall) {g : Graph} (hs : g.Sound) (hsrc : Sourced g)
    (earlier : List String) :
    (beforeMerge c g earlier).Sound ∧ Sourced (beforeMerge c g earlier) := by
  rw [beforeMerge]
  split
  · exact ⟨hs, hsrc⟩
  · have hall := foldl_sound c earlier (upsertSurvivor_sound c hs) (upsertSurvivor_sourced c hsrc)
      (hasEntity_survivor_upsertSurvivor c g)
    exact ⟨hall.1, hall.2.1⟩

/-- The earlier losers, with the survivor upserted. -/
theorem upsertSurvivor_beforeMerge (c : MergeCall) (g : Graph) (earlier : List String) :
    upsertSurvivor c (beforeMerge c g earlier) =
      earlier.foldl (foldLoser c) (upsertSurvivor c g) := by
  rw [beforeMerge]
  split
  · rename_i hnil
    rw [hnil, List.foldl_nil]
  · exact upsertSurvivor_of_named (named_foldl c earlier (named_upsertSurvivor c g))

/-- A call ends with the merge of the last loser that it merges. -/
theorem mergeEntities_last {c : MergeCall} {g : Graph} {earlier later : List String}
    {loser : String} (hids : c.loserIds = earlier ++ loser :: later)
    (h : loser ≠ c.survivorId) {e : Entity}
    (hget : (beforeMerge c g earlier).entities.get? loser = some e)
    (hlater : ∀ x ∈ later, x = c.survivorId ∨ x = loser ∨
      (beforeMerge c g earlier).hasEntity x = false) :
    mergeEntities c g = mergedOne c (beforeMerge c g earlier) loser := by
  rw [mergeEntities, hids, List.foldl_append, List.foldl_cons, ← upsertSurvivor_beforeMerge]
  refine foldl_foldLoser_skip c fun x hx => ?_
  by_cases hxs : x = c.survivorId
  · exact Or.inl hxs
  · refine Or.inr ?_
    rw [hasEntity_foldLoser h ((upsertSurvivor_other c _ h).trans hget)
      (hasEntity_survivor_upsertSurvivor c _), hasEntity_upsertSurvivor, decide_eq_false hxs,
      Bool.false_or]
    rcases (hlater x hx).resolve_left hxs with rfl | hno
    · simp
    · rw [hno, Bool.and_false]

/-- The condition for the loser that a call merges last. -/
def RestoresWhen (c : MergeCall) (g : Graph) : Prop :=
  ∀ earlier loser later, c.loserIds = earlier ++ loser :: later → loser ≠ c.survivorId →
    (beforeMerge c g earlier).hasEntity loser = true →
    (∀ x ∈ later, x = c.survivorId ∨ x = loser ∨
      (beforeMerge c g earlier).hasEntity x = false) →
    RestoredWhen c loser (beforeMerge c g earlier)

theorem restores_iff (c : MergeCall) {g : Graph} (hs : g.Sound) (hsrc : Sourced g) :
    Restores c g ↔ RestoresWhen c g := by
  refine forall_congr' fun earlier => forall_congr' fun loser => forall_congr' fun later =>
    forall_congr' fun hids => forall_congr' fun hl => forall_congr' fun hhas =>
    forall_congr' fun hlater => ?_
  obtain ⟨e, hget⟩ := Option.isSome_iff_exists.mp hhas
  obtain ⟨hs', hsrc'⟩ := beforeMerge_sound c hs hsrc earlier
  rw [mergeEntities_last hids hl hget hlater]
  exact mergedOne_restored_iff hl hget hs' hsrc'

/-! ## Chains of merges -/

/-- Whatever row is returned first, every entity with a tombstone can be unmerged. -/
def Possible (g : Graph) : Prop :=
  ∀ loser t, g.tombstones.get? loser = some t →
    ∀ first, (unmergeEntity first loser g).isSome = true

/-- A merge keeps a survivor for every entity merged before it: the entity is merged again,
or one of its survivors is not itself merged away. -/
def KeepsSurvivors (c : MergeCall) (g : Graph) : Prop :=
  ∀ loser t, g.tombstones.get? loser = some t →
    MergedIn c c.loserIds g loser ∨ ∃ s, g.mergedInto.get? (loser, s) = some () ∧ ¬ MergedIn c c.loserIds g s

theorem possible_iff (g : Graph) :
    Possible g ↔ ∀ loser t, g.tombstones.get? loser = some t →
      ∃ s, g.mergedInto.get? (loser, s) = some () := by
  constructor
  · intro h loser t ht
    exact ((isSome_unmergeEntity oldestRow g loser).mp (h loser t ht oldestRow)).2
  · intro h loser t ht first
    exact (isSome_unmergeEntity first g loser).mpr ⟨⟨t, ht⟩, h loser t ht⟩

theorem mergedIn_cons_skip {c : MergeCall} {g : Graph} {x l : String} {rest : List String}
    (hskip : x = c.survivorId ∨ g.hasEntity x = false) :
    MergedIn c (x :: rest) g l ↔ MergedIn c rest g l := by
  constructor
  · rintro ⟨hmem, hls, hhas⟩
    refine ⟨(List.mem_cons.mp hmem).resolve_left ?_, hls, hhas⟩
    rintro rfl
    rw [hskip.resolve_left hls] at hhas
    cases hhas
  · rintro ⟨hmem, hrest⟩
    exact ⟨List.mem_cons_of_mem x hmem, hrest⟩

theorem mergedIn_cons_folded {c : MergeCall} {g : Graph} {x l : String} {rest : List String}
    (hx : x ≠ c.survivorId) {e : Entity} (hget : g.entities.get? x = some e)
    (hg : g.hasEntity c.survivorId = true) :
    MergedIn c (x :: rest) g l ↔ l = x ∨ MergedIn c rest (foldLoser c g x) l := by
  have hhas : g.hasEntity x = true := by
    rw [Graph.hasEntity, hget]
    rfl
  rw [MergedIn, MergedIn, hasEntity_foldLoser hx hget hg]
  by_cases hl : l = x
  · simp [hl, hx, hhas]
  · simp [hl]

/-- The tombstones and edges that a list of losers leaves. -/
theorem foldl_provenance (c : MergeCall) (ids : List String) {g : Graph}
    (hg : g.hasEntity c.survivorId = true) (l : String) :
    ((∃ t, (ids.foldl (foldLoser c) g).tombstones.get? l = some t) ↔
        (∃ t, g.tombstones.get? l = some t) ∨ MergedIn c ids g l) ∧
      ∀ y, (ids.foldl (foldLoser c) g).mergedInto.get? (l, y) = some () ↔
        (y = c.survivorId ∧ MergedIn c ids g l) ∨
          (g.mergedInto.get? (l, y) = some () ∧ ¬ MergedIn c ids g y) := by
  induction ids generalizing g with
  | nil => simp [MergedIn]
  | cons x rest ih =>
    rw [List.foldl_cons]
    rcases foldLoser_cases c g x with ⟨heq, hskip⟩ | ⟨hx, e, hget⟩
    · rw [heq]
      simp only [mergedIn_cons_skip hskip]
      exact ih hg
    · obtain ⟨ihtomb, ihinto⟩ := ih (hasEntity_survivor_foldLoser c hg x)
      simp only [mergedIn_cons_folded hx hget hg]
      constructor
      · rw [ihtomb, foldLoser_tombstones hx hget hg, Dict.get?_set]
        by_cases hl : l = x
        · simp [hl]
        · simp [hl]
      · intro y
        rw [ihinto, get?_foldLoser_mergedInto hx hget hg]
        have hsurvivor : ¬ MergedIn c rest (foldLoser c g x) c.survivorId := fun h => h.2.1 rfl
        by_cases hy : y = x
        · simp [hy, hx]
        · by_cases hl : l = x ∧ y = c.survivorId
          · obtain ⟨rfl, rfl⟩ := hl
            simp [hsurvivor, Ne.symm hx]
          · rw [if_neg hy, if_neg hl]
            constructor
            · rintro (⟨hys, hm⟩ | ⟨hedge, hm⟩)
              · exact Or.inl ⟨hys, Or.inr hm⟩
              · exact Or.inr ⟨hedge, fun h => h.elim hy hm⟩
            · rintro (⟨hys, hm | hm⟩ | ⟨hedge, hm⟩)
              · exact absurd ⟨hm, hys⟩ hl
              · exact Or.inl ⟨hys, hm⟩
              · exact Or.inr ⟨hedge, fun h => hm (Or.inr h)⟩

/-- After a merge all tombstones can be unmerged if and only if each keeps a survivor. -/
theorem mergeEntities_possible_iff (c : MergeCall) (g : Graph) :
    Possible (mergeEntities c g) ↔ KeepsSurvivors c g := by
  have hmerged : ∀ l, MergedIn c c.loserIds (upsertSurvivor c g) l ↔ MergedIn c c.loserIds g l := by
    intro l
    refine and_congr_right fun _ => and_congr_right fun hl => ?_
    rw [hasEntity_upsertSurvivor, decide_eq_false hl, Bool.false_or]
  have hprov := foldl_provenance c c.loserIds (hasEntity_survivor_upsertSurvivor c g)
  simp only [hmerged, (upsertSurvivor_keeps c g).2.1, (upsertSurvivor_keeps c g).2.2.1] at hprov
  rw [possible_iff]
  constructor
  · intro h loser t ht
    obtain ⟨t', ht'⟩ := (hprov loser).1.mpr (Or.inl ⟨t, ht⟩)
    obtain ⟨s, hs⟩ := h loser t' ht'
    rcases ((hprov loser).2 s).mp hs with ⟨-, hm⟩ | hkept
    · exact Or.inl hm
    · exact Or.inr ⟨s, hkept⟩
  · intro h loser t ht
    rcases (hprov loser).1.mp ⟨t, ht⟩ with ⟨t', ht'⟩ | hm
    · rcases h loser t' ht' with hm | ⟨s, hkept⟩
      · exact ⟨c.survivorId, ((hprov loser).2 _).mpr (Or.inl ⟨rfl, hm⟩)⟩
      · exact ⟨s, ((hprov loser).2 s).mpr (Or.inr hkept)⟩
    · exact ⟨c.survivorId, ((hprov loser).2 _).mpr (Or.inl ⟨rfl, hm⟩)⟩

/-- Along a sequence of merges, every entity merged so far can be unmerged, and the one merged
last is given back, if and only if every merge keeps the survivors and meets the condition. -/
theorem merges_reversible {g : Graph} (hs : g.Sound) (hsrc : Sourced g) (calls : List MergeCall) :
    Along (fun g c => mergeEntities c g)
        (fun g c => Possible (mergeEntities c g) ∧ Restores c g) g calls ↔
      Along (fun g c => mergeEntities c g)
        (fun g c => KeepsSurvivors c g ∧ RestoresWhen c g) g calls :=
  along_iff (fun g => g.Sound ∧ Sourced g)
    (fun g c hinv => and_congr (mergeEntities_possible_iff c g) (restores_iff c hinv.1 hinv.2))
    (fun _ c hinv _ => ⟨(mergeEntities_sound c hinv.1).1, mergeEntities_sourced c hinv.1 hinv.2⟩)
    ⟨hs, hsrc⟩

/-! ## Merges of two and of three -/

/-- An artifact each. -/
def apartGraph : Graph :=
  upserted (upserted { Graph.empty with sources := [⟨.artifact, "a"⟩, ⟨.artifact, "b"⟩] }
    "a" [ada] ["c1"] "t1") "b" [adaLovelace] ["c2"] "t2"

/-- One artifact that mentions both. -/
def sharedGraph : Graph :=
  upserted { Graph.empty with sources := [⟨.artifact, "a"⟩] } "a" [ada, adaLovelace] ["c1"] "t1"

def mergeAway : MergeCall :=
  { mergeAda with
    survivorId := "person:augusta-ada-king", loserIds := ["person:ada-lovelace"],
    survivorName := some "Augusta Ada King" }

/-- The survivor keeps the mention of the artifact that mentioned the loser alone, and a
survivor that is merged away takes the edge of the loser's tombstone with it. -/
theorem survivor_keeps_mention_and_chain_is_lost :
    ¬ Restores mergeAda apartGraph ∧
      ¬ Possible (mergeEntities mergeAway (mergeEntities mergeAda apartGraph)) := by
  constructor
  · intro h
    obtain ⟨g', hback, hsame⟩ := h [] "person:ada" [] rfl (by decide) (by decide +kernel)
      (by simp) oldestRow
    have hmention : ((unmergeEntity oldestRow "person:ada" (mergeEntities mergeAda apartGraph)).bind
        (fun g => g.mentions.get? (⟨.artifact, "a"⟩, "person:ada-lovelace"))).isSome = true := by
      decide +kernel
    have hbefore : apartGraph.mentions.get? (⟨.artifact, "a"⟩, "person:ada-lovelace") = none := by
      decide +kernel
    have hkept : g'.mentions.get? (⟨.artifact, "a"⟩, "person:ada-lovelace") = none :=
      (hsame.mentionsSurvivor ⟨.artifact, "a"⟩).trans hbefore
    rw [hback, Option.bind_some, hkept] at hmention
    cases hmention
  · intro h
    have htomb : ((mergeEntities mergeAway (mergeEntities mergeAda apartGraph)).tombstones.get?
        "person:ada").isSome = true := by decide +kernel
    obtain ⟨t, ht⟩ := Option.isSome_iff_exists.mp htomb
    have hstuck : (unmergeEntity oldestRow "person:ada"
        (mergeEntities mergeAway (mergeEntities mergeAda apartGraph))).isSome = false := by
      decide +kernel
    rw [h "person:ada" t ht oldestRow] at hstuck
    cases hstuck

theorem sharedGraph_mentions (src : Source) (id : String) (m : Mention)
    (h : sharedGraph.mentions.get? (src, id) = some m) :
    src = ⟨.artifact, "a"⟩ ∧ m = ⟨some 1, some ["c1"], "t1"⟩ := by
  have hitems : sharedGraph.mentions.items =
      [((⟨.artifact, "a"⟩, "person:ada"), ⟨some 1, some ["c1"], "t1"⟩),
        ((⟨.artifact, "a"⟩, "person:ada-lovelace"), ⟨some 1, some ["c1"], "t1"⟩)] := by
    decide +kernel
  have hmem := (Dict.mem_items_iff _ _ _).mpr h
  rw [hitems] at hmem
  simp only [List.mem_cons, Prod.mk.injEq, List.not_mem_nil, or_false] at hmem
  rcases hmem with ⟨⟨hsrc, -⟩, hm⟩ | ⟨⟨hsrc, -⟩, hm⟩
  · exact ⟨hsrc, hm⟩
  · exact ⟨hsrc, hm⟩

theorem sharedGraph_sound : sharedGraph.Sound := by
  refine upserted_sound "a" ["c1"] "t1" ⟨?_, ?_⟩ [ada, adaLovelace]
  · intro src id m h
    cases h
  · intro l s h
    cases h

/-- Two entities of one artifact, merged. -/
theorem merges_reversible_shared :
    Along (fun g c => mergeEntities c g)
      (fun g c => Possible (mergeEntities c g) ∧ Restores c g) sharedGraph [mergeAda] := by
  have hsrc : Sourced sharedGraph := by
    intro src id m hm
    rw [(sharedGraph_mentions src id m hm).1]
    decide +kernel
  refine (merges_reversible sharedGraph_sound hsrc [mergeAda]).mpr ⟨⟨?_, ?_⟩, trivial⟩
  · intro loser t ht
    have hnone : sharedGraph.tombstones.items = [] := by decide +kernel
    have hmem := (Dict.mem_items_iff _ _ _).mpr ht
    rw [hnone] at hmem
    exact absurd hmem List.not_mem_nil
  · intro earlier loser later hids
    have hparts : earlier = [] ∧ loser = "person:ada" ∧ later = [] := by
      cases earlier with
      | nil =>
        cases hids
        exact ⟨rfl, rfl, rfl⟩
      | cons x rest =>
        have hlen := congrArg List.length hids
        simp only [List.length_append, List.length_cons] at hlen
        change 1 = _ at hlen
        omega
    obtain ⟨rfl, rfl, rfl⟩ := hparts
    intro _ _ _
    show RestoredWhen mergeAda "person:ada" sharedGraph
    refine ⟨⟨⟨some "Ada Lovelace", some "PERSON", some 1⟩, by decide +kernel, by decide +kernel⟩,
      ⟨⟨some "Ada", some "PERSON", some 1⟩, by decide +kernel, by decide +kernel⟩, ?_, ?_,
      fun _ => rfl, fun _ => rfl, Or.inr fun s hs => ?_⟩
    · intro src m hm
      rw [(sharedGraph_mentions src _ m hm).1]
      exact ⟨⟨some 1, some ["c1"], "t1"⟩, by decide +kernel⟩
    · intro src m hm other hother _
      obtain ⟨rfl, rfl⟩ := sharedGraph_mentions src _ m hm
      have hsources : sharedGraph.sources = [⟨.artifact, "a"⟩] := by decide +kernel
      rw [hsources, List.mem_singleton] at hother
      rw [hother]
      exact hm
    · have hnone : sharedGraph.mergedInto.items = [] := by decide +kernel
      have hmem := (Dict.mem_items_iff _ _ _).mpr hs
      rw [hnone] at hmem
      exact absurd hmem List.not_mem_nil

end Cerid.EntityGraph
