import Cerid.EntityGraph.Graph
import Cerid.Lib.Drain
import Cerid.Lib.Repoint
import Mathlib.Data.List.Sort

/-!
# Merging entities, and taking a merge back

A merge is a sequence of statements, each committed by itself.  The re-points and the fact
reconciliation are loops over a bounded statement; the rest are single statements.

Which row the database returns first, when a query that is read with `single()` finds
several, is a parameter.
-/

namespace Cerid.EntityGraph

/-- `s or default` of a string that may be missing. -/
def strOr (s : Option String) (default : String) : String :=
  match s with
  | none => default
  | some s => if s = "" then default else s

/-- Resolve the chunk size: argument, then settings, and one at least. -/
def mergeChunkSize (chunkSize : Option Int) (configured : Int) : Nat :=
  match chunkSize with
  | some n => (max 1 n).toNat
  | none => (max 1 configured).toNat

theorem one_le_mergeChunkSize (chunkSize : Option Int) (configured : Int) :
    1 ≤ mergeChunkSize chunkSize configured := by
  cases chunkSize <;> (simp only [mergeChunkSize]; omega)

/-! ## The re-points, by edge type -/

section Repoints

variable (loser survivor : String)

def repointMentions : Dict.Repoint (Source × String) Mention where
  mine k := k.2 = loser
  target k := some (k.1, survivor)
  onMatch old _ := old

/-- The weights are added; an edge to the survivor goes. -/
def repointCoMentionedOut : Dict.Repoint (String × String) (Option Nat) where
  mine k := k.1 = loser
  target k := if k.2 = survivor then none else some (survivor, k.2)
  onMatch old new := some (old.getD 0 + new.getD 0)

def repointCoMentionedIn : Dict.Repoint (String × String) (Option Nat) where
  mine k := k.2 = loser
  target k := if k.1 = survivor then none else some (k.1, survivor)
  onMatch old new := some (old.getD 0 + new.getD 0)

/-- The higher score is kept. -/
def keepMax (old new : Option ℚ) : Option ℚ := if new.getD 0 > old.getD 0 then new else old

def repointSimilarToOut : Dict.Repoint (String × String) (Option ℚ) where
  mine k := k.1 = loser
  target k := if k.2 = survivor then none else some (survivor, k.2)
  onMatch := keepMax

def repointSimilarToIn : Dict.Repoint (String × String) (Option ℚ) where
  mine k := k.2 = loser
  target k := if k.1 = survivor then none else some (k.1, survivor)
  onMatch := keepMax

def repointInCommunity : Dict.Repoint (String × String) Unit where
  mine k := k.1 = loser
  target k := some (survivor, k.2)
  onMatch old _ := old

def repointHasContradiction : Dict.Repoint (String × String) (Option String) where
  mine k := k.1 = loser
  target k := some (survivor, k.2)
  onMatch old _ := old

/-- The source is part of the edge that is looked for. -/
def repointEnrichedFrom : Dict.Repoint (String × String × String) (Option String) where
  mine k := k.1 = loser
  target k := some (survivor, k.2)
  onMatch old _ := old

def repointHasFact : Dict.Repoint (String × Nat) Unit where
  mine k := k.1 = loser
  target k := some (survivor, k.2)
  onMatch old _ := old

def repointFactObject : Dict.Repoint (Nat × String) Unit where
  mine k := k.2 = loser
  target k := some (k.1, survivor)
  onMatch old _ := old

end Repoints

/-- Where in the graph the edges of a type are. -/
structure Family (κ α : Type) where
  get : Graph → Dict κ α
  put : Graph → Dict κ α → Graph
  put_get : ∀ g, put g (get g) = g
  get_put : ∀ g d, get (put g d) = d
  put_entities : ∀ g d, (put g d).entities = g.entities

def mentionsFamily : Family (Source × String) Mention where
  get := Graph.mentions
  put g d := { g with mentions := d }
  put_get _ := rfl
  get_put _ _ := rfl
  put_entities _ _ := rfl

def coMentionedFamily : Family (String × String) (Option Nat) where
  get := Graph.coMentioned
  put g d := { g with coMentioned := d }
  put_get _ := rfl
  get_put _ _ := rfl
  put_entities _ _ := rfl

def similarToFamily : Family (String × String) (Option ℚ) where
  get := Graph.similarTo
  put g d := { g with similarTo := d }
  put_get _ := rfl
  get_put _ _ := rfl
  put_entities _ _ := rfl

def inCommunityFamily : Family (String × String) Unit where
  get := Graph.inCommunity
  put g d := { g with inCommunity := d }
  put_get _ := rfl
  get_put _ _ := rfl
  put_entities _ _ := rfl

def hasContradictionFamily : Family (String × String) (Option String) where
  get := Graph.hasContradiction
  put g d := { g with hasContradiction := d }
  put_get _ := rfl
  get_put _ _ := rfl
  put_entities _ _ := rfl

def enrichedFromFamily : Family (String × String × String) (Option String) where
  get := Graph.enrichedFrom
  put g d := { g with enrichedFrom := d }
  put_get _ := rfl
  get_put _ _ := rfl
  put_entities _ _ := rfl

def hasFactFamily : Family (String × Nat) Unit where
  get := Graph.hasFact
  put g d := { g with hasFact := d }
  put_get _ := rfl
  get_put _ _ := rfl
  put_entities _ _ := rfl

def factObjectFamily : Family (Nat × String) Unit where
  get := Graph.factObject
  put g d := { g with factObject := d }
  put_get _ := rfl
  get_put _ _ := rfl
  put_entities _ _ := rfl

/-- One re-point statement: at most `limit` edges of the loser, and none when the survivor
is not there. -/
def repointDrain {κ α : Type} [DecidableEq κ] (F : Family κ α) (r : Dict.Repoint κ α)
    (survivor : String) (limit : Nat) : Drain Graph where
  stmt g :=
    if g.hasEntity survivor then
      (F.put g (r.batch limit (F.get g)), min limit (r.rows (F.get g)).length)
    else (g, 0)
  left g := (r.rows (F.get g)).length

/-- `_ENTITY_EDGE_REPOINTS`, in its order. -/
def entityEdgeRepoints (loser survivor : String) (limit : Nat) : List (Drain Graph) :=
  [repointDrain mentionsFamily (repointMentions loser survivor) survivor limit,
    repointDrain coMentionedFamily (repointCoMentionedOut loser survivor) survivor limit,
    repointDrain coMentionedFamily (repointCoMentionedIn loser survivor) survivor limit,
    repointDrain similarToFamily (repointSimilarToOut loser survivor) survivor limit,
    repointDrain similarToFamily (repointSimilarToIn loser survivor) survivor limit,
    repointDrain inCommunityFamily (repointInCommunity loser survivor) survivor limit,
    repointDrain hasContradictionFamily (repointHasContradiction loser survivor) survivor limit,
    repointDrain enrichedFromFamily (repointEnrichedFrom loser survivor) survivor limit,
    repointDrain hasFactFamily (repointHasFact loser survivor) survivor limit,
    repointDrain factObjectFamily (repointFactObject loser survivor) survivor limit]

/-! ## The facts of a merged entity -/

/-- The uid of a loser's fact under the survivor. -/
def Fact.newUid (survivor : String) (f : Fact) : FactUid :=
  ⟨survivor, match f.sourceArtifactId with
    | none => f.factKey
    | some src => if src = "" then f.factKey else f.factKey ++ "|" ++ src⟩

/-- `MATCH (g:Fact {uid: uid})`; uids are unique in the database. -/
def factWithUid (facts : Dict Nat Fact) (uid : FactUid) : Option (Nat × Fact) :=
  facts.items.find? (fun p => p.2.uid = uid)

/-- The loser's facts whose new uid is free. -/
def freeRows (loser survivor : String) (facts : Dict Nat Fact) : List (Nat × Fact) :=
  facts.items.filter (fun p =>
    p.2.subjectId = loser ∧ (factWithUid facts (p.2.newUid survivor)).isNone)

/-- `SET f.subject_id = …, f.uid = …`. -/
def Fact.moveTo (survivor : String) (f : Fact) : Fact :=
  { f with subjectId := survivor, uidKey := (f.newUid survivor).key }

/-- `_RECONCILE_SUBJECT_NO_COLLISION`. -/
def reconcileFree (loser survivor : String) (limit : Nat) : Drain Graph where
  stmt g :=
    let picked := ((freeRows loser survivor g.facts).take limit).map Prod.fst
    ({ g with
        facts := g.facts.mapValues (fun n f => if n ∈ picked then f.moveTo survivor else f) },
      picked.length)
  left g := (freeRows loser survivor g.facts).length

/-- The loser's facts that the survivor has too. -/
def collidingRows (loser survivor : String) (facts : Dict Nat Fact) : List (Nat × Fact) :=
  facts.items.filter (fun p =>
    p.2.subjectId = loser ∧ (factWithUid facts (p.2.newUid survivor)).isSome)

def given (s : Option String) : Option String := s.filter (fun s => s ≠ "")

/-- The interval of the two facts: the earlier beginning, and open beats closed. -/
def Fact.absorb (g f : Fact) : Fact :=
  { g with
    validFrom :=
      match given f.validFrom, given g.validFrom with
      | none, _ => g.validFrom
      | some _, none => f.validFrom
      | some a, some b => if a < b then f.validFrom else g.validFrom
    validTo :=
      match f.validTo, g.validTo with
      | some a, some b => if a > b then some a else some b
      | _, _ => none
    invalidAt :=
      match f.invalidAt, g.invalidAt with
      | some a, some b => if a > b then some a else some b
      | _, _ => none
    source := if f.source = "verification" ∨ g.source = "verification" then "verification"
      else g.source }

/-- One row of `_RECONCILE_SUBJECT_COLLISION_FOLD`: fact `f` goes into the survivor's, with
its provenance and its object edges, and is deleted. -/
def foldFact (survivor : String) (g : Graph) (row : Nat × Fact) : Graph :=
  match factWithUid g.facts (row.2.newUid survivor) with
  | none => g
  | some (n, into) =>
    let artifacts := (g.factFrom.keys.filter (fun k => k.2 = row.1)).map Prod.fst
    let objects := (g.factObject.keys.filter (fun k => k.1 = row.1)).map Prod.snd
    { g with
      facts := (g.facts.set n (into.absorb row.2)).erase row.1
      factFrom := (artifacts.foldl (fun d a => d.set (a, n) ()) g.factFrom).filter
        (fun k _ => k.2 ≠ row.1)
      factObject := (objects.foldl (fun d o => d.set (n, o) ()) g.factObject).filter
        (fun k _ => k.1 ≠ row.1)
      hasFact := g.hasFact.filter (fun k _ => k.2 ≠ row.1) }

def reconcileColliding (loser survivor : String) (limit : Nat) : Drain Graph where
  stmt g :=
    let picked := (collidingRows loser survivor g.facts).take limit
    (picked.foldl (foldFact survivor) g, picked.length)
  left g := (collidingRows loser survivor g.facts).length

def objectRows (loser : String) (facts : Dict Nat Fact) : List (Nat × Fact) :=
  facts.items.filter (fun p => p.2.objectId = some loser)

/-- `_RECONCILE_OBJECT_ID`. -/
def reconcileObjectId (loser survivor : String) (limit : Nat) : Drain Graph where
  stmt g :=
    let picked := ((objectRows loser g.facts).take limit).map Prod.fst
    ({ g with
        facts := g.facts.mapValues
          (fun n f => if n ∈ picked then { f with objectId := some survivor } else f) },
      picked.length)
  left g := (objectRows loser g.facts).length

/-- `reconcile_fact_subjects` of one loser. -/
def reconcileFactSubjects (loser survivor : String) (limit : Nat) : List (Drain Graph) :=
  [reconcileFree loser survivor limit, reconcileColliding loser survivor limit,
    reconcileObjectId loser survivor limit]

/-! ## One loser -/

def snapshotRow (p : (Source × String) × Mention) : SnapshotRow where
  artId := p.1.1.id
  confidence := p.2.confidence
  chunkIds := p.2.chunkIds
  createdAt := p.2.createdAt

/-- What `_SNAPSHOT_MENTIONS` finds, ordered by the source's id. -/
def mentionRows (g : Graph) (loser : String) : List SnapshotRow :=
  (((repointMentions loser loser).rows g.mentions).map snapshotRow).insertionSort
    (fun a b => a.artId ≤ b.artId)

/-- The rows page by page, until a page is short. -/
def readPages (chunk : Nat) (rows : List SnapshotRow) : Nat → Nat → List SnapshotRow
  | 0, _ => []
  | fuel + 1, skip =>
    let page := (rows.drop skip).take chunk
    if page.length = 0 then []
    else if page.length < chunk then page
    else page ++ readPages chunk rows fuel (skip + page.length)

def snapshotMentions (g : Graph) (loser : String) (chunk : Nat) : List SnapshotRow :=
  let rows := mentionRows g loser
  readPages chunk rows (rows.length + 1) 0

/-- The arguments of `merge_entities`, with the chunk size resolved. -/
structure MergeCall where
  survivorId : String
  loserIds : List String
  survivorName : Option String
  entityType : Option String
  mergeMethod : String
  mergeConfidence : Option ℚ
  chunk : Nat
  chunk_pos : 1 ≤ chunk

/-- `_UPSERT_SURVIVOR`: a longer name replaces a shorter one. -/
def upsertSurvivor (c : MergeCall) (g : Graph) : Graph :=
  let name := strOr c.survivorName c.survivorId
  match g.entities.get? c.survivorId with
  | none =>
    { g with
      entities := g.entities.set c.survivorId
        { name := some name, entityType := some (strOr c.entityType ""),
          mentionCount := some 0 } }
  | some _ =>
    g.setEntity c.survivorId (fun e =>
      { e with name := if name.length > (e.name.getD "").length then some name else e.name })

/-- What a loser's fold reads before it writes. -/
structure Identity where
  name : Option String
  entityType : Option String
  mentionCount : Nat
  mentionsSnapshot : List SnapshotRow
deriving DecidableEq

def readIdentity (c : MergeCall) (g : Graph) (loser : String) : Option Identity :=
  (g.entities.get? loser).map fun e =>
    { name := e.name, entityType := e.entityType, mentionCount := e.mentionCount.getD 0,
      mentionsSnapshot := snapshotMentions g loser c.chunk }

/-- The loops of a loser's fold: every edge type, then the facts. -/
def foldDrains (c : MergeCall) (loser : String) : List (Drain Graph) :=
  entityEdgeRepoints loser c.survivorId c.chunk ++
    reconcileFactSubjects loser c.survivorId c.chunk

/-- `_ADD_MENTION_COUNT`. -/
def addMentionCount (survivor : String) (delta : Nat) (g : Graph) : Graph :=
  g.setEntity survivor (fun e => { e with mentionCount := some (e.mentionCount.getD 0 + delta) })

/-- The properties that `_WRITE_TOMBSTONE` sets. -/
def tombstoneOf (c : MergeCall) (loser : String) (i : Identity) : Tombstone where
  name := strOr i.name loser
  entityType := strOr i.entityType (strOr c.entityType "")
  mentionCount := i.mentionCount
  mergeConfidence := c.mergeConfidence
  mergeMethod := c.mergeMethod
  survivorId := c.survivorId
  mentionsSnapshot := i.mentionsSnapshot

/-- `_WRITE_TOMBSTONE`. -/
def writeTombstone (c : MergeCall) (loser : String) (i : Identity) (g : Graph) : Graph :=
  if g.hasEntity c.survivorId then
    { g with
      tombstones := g.tombstones.set loser (tombstoneOf c loser i)
      mergedInto := g.mergedInto.set (loser, c.survivorId) () }
  else g

/-- `_detach_delete_loser`: the node and every edge at it. -/
def detachDelete (loser : String) (g : Graph) : Graph :=
  { g with
    entities := g.entities.erase loser
    mentions := g.mentions.filter (fun k _ => k.2 ≠ loser)
    coMentioned := g.coMentioned.filter (fun k _ => k.1 ≠ loser ∧ k.2 ≠ loser)
    similarTo := g.similarTo.filter (fun k _ => k.1 ≠ loser ∧ k.2 ≠ loser)
    inCommunity := g.inCommunity.filter (fun k _ => k.1 ≠ loser)
    hasContradiction := g.hasContradiction.filter (fun k _ => k.1 ≠ loser)
    enrichedFrom := g.enrichedFrom.filter (fun k _ => k.1 ≠ loser)
    hasFact := g.hasFact.filter (fun k _ => k.1 ≠ loser)
    factObject := g.factObject.filter (fun k _ => k.2 ≠ loser)
    mergedInto := g.mergedInto.filter (fun k _ => k.2 ≠ loser) }

/-- A loser that is the survivor, or is already gone, is skipped. -/
def foldLoser (c : MergeCall) (g : Graph) (loser : String) : Graph :=
  if loser = c.survivorId then g
  else
    match readIdentity c g loser with
    | none => g
    | some i =>
      detachDelete loser (writeTombstone c loser i
        (addMentionCount c.survivorId i.mentionCount (Drain.runAll (foldDrains c loser) g)))

def mergeEntities (c : MergeCall) (g : Graph) : Graph :=
  c.loserIds.foldl (foldLoser c) (upsertSurvivor c g)

/-- The losers that were merged, in the order of the call. -/
def mergedLosers (c : MergeCall) : List String → Graph → List String
  | [], _ => []
  | l :: rest, g =>
    if l ≠ c.survivorId ∧ g.hasEntity l then l :: mergedLosers c rest (foldLoser c g l)
    else mergedLosers c rest g

/-! ## Unmerge -/

/-- The row that `single()` returns: one of those found, if any is. -/
structure FirstRow where
  pick : List String → Option String
  mem : ∀ l s, pick l = some s → s ∈ l
  some_of_ne_nil : ∀ l, l ≠ [] → pick l ≠ none

/-- The survivors that the tombstone's `MERGED_INTO` edges lead to. -/
def survivorsOf (g : Graph) (loser : String) : List String :=
  (g.mergedInto.keys.filter (fun k => k.1 = loser)).map Prod.snd

/-- `_READ_TOMBSTONE`. -/
def readTombstone (first : FirstRow) (g : Graph) (loser : String) : Option (Tombstone × String) :=
  match g.tombstones.get? loser with
  | none => none
  | some t => (first.pick (survivorsOf g loser)).map fun s => (t, s)

/-- `_RESTORE_ENTITY`. -/
def restoreEntity (loser : String) (t : Tombstone) (g : Graph) : Graph :=
  match g.entities.get? loser with
  | none =>
    { g with
      entities := g.entities.set loser
        { name := some (strOr (some t.name) loser), entityType := some t.entityType,
          mentionCount := some t.mentionCount } }
  | some _ => g.setEntity loser (fun e => { e with mentionCount := some t.mentionCount })

/-- One row of `_RESTORE_MENTIONS`: each node with that id is matched, an artifact or a
memory. -/
def restoreMention (loser : String) (g : Graph) (b : SnapshotRow) : Graph :=
  { g with
    mentions := (g.sources.filter (fun src => src.id = b.artId)).foldl
      (fun d src => d.setDefault (src, loser)
        { confidence := b.confidence, chunkIds := b.chunkIds, createdAt := b.createdAt })
      g.mentions }

/-- `_DECREMENT_SURVIVOR`, down to zero at most. -/
def decrementSurvivor (survivor : String) (delta : Nat) (g : Graph) : Graph :=
  g.setEntity survivor (fun e => { e with mentionCount := some (e.mentionCount.getD 0 - delta) })

def deleteTombstone (loser : String) (g : Graph) : Graph :=
  { g with
    tombstones := g.tombstones.erase loser
    mergedInto := g.mergedInto.filter (fun k _ => k.1 ≠ loser) }

/-- Nothing when there is no tombstone (`no_provenance`).  The batches of the snapshot are
its rows in their order. -/
def unmergeEntity (first : FirstRow) (loser : String) (g : Graph) : Option Graph :=
  (readTombstone first g loser).map fun (t, survivor) =>
    deleteTombstone loser (decrementSurvivor survivor t.mentionCount
      (t.mentionsSnapshot.foldl (restoreMention loser) (restoreEntity loser t g)))

/-! ## Two entities -/

/-- The oldest edge is returned first. -/
def oldestRow : FirstRow where
  pick := List.head?
  mem _ _ h := List.mem_of_head? h
  some_of_ne_nil _ h hnone := h (List.head?_eq_none_iff.mp hnone)

def ada : Extracted := ⟨"person:ada", "Ada", "PERSON", 1⟩

def adaLovelace : Extracted := ⟨"person:ada-lovelace", "Ada Lovelace", "PERSON", 1⟩

def mergeAda : MergeCall where
  survivorId := "person:ada-lovelace"
  loserIds := ["person:ada"]
  survivorName := some "Ada Lovelace"
  entityType := some "PERSON"
  mergeMethod := "structural_alias"
  mergeConfidence := none
  chunk := 5000
  chunk_pos := by decide

end Cerid.EntityGraph
