import Cerid.Lib.Dict
import Mathlib.Algebra.Order.Field.Rat
import Mathlib.Data.Finset.Card

/-!
# The entity graph

Entity nodes, and the edges that end at them.  The edges of a type are a dictionary with the
two ends as its key, as every statement that writes one is a `MERGE` on its ends.  The nodes
at the other end (artifacts, memories, communities, findings, references) are there with
their ids alone.

Times at which nodes were written are left out: nothing here reads them.  Scores are
rationals.
-/

namespace Cerid.EntityGraph

inductive Label where
  | artifact
  | memory
deriving DecidableEq, Repr

/-- A node that may have a `MENTIONS` edge to an entity. -/
structure Source where
  label : Label
  id : String
deriving DecidableEq, Repr

structure Entity where
  name : Option String
  entityType : Option String
  mentionCount : Option Nat
deriving DecidableEq, Repr

/-- The properties of a `MENTIONS` edge. -/
structure Mention where
  confidence : Option ℚ
  chunkIds : Option (List String)
  createdAt : String
deriving DecidableEq, Repr

/-- The key of a fact node: `"{subject_id}|{key}"`.  A subject id holds no bar. -/
structure FactUid where
  subjectId : String
  key : String
deriving DecidableEq, Repr

structure Fact where
  subjectId : String
  /-- What follows the subject in the fact's uid. -/
  uidKey : String
  objectId : Option String
  factKey : String
  sourceArtifactId : Option String
  validFrom : Option String
  validTo : Option String
  invalidAt : Option String
  source : String
deriving DecidableEq, Repr

def Fact.uid (f : Fact) : FactUid := ⟨f.subjectId, f.uidKey⟩

/-- A row of a tombstone's `mentions_snapshot`. -/
structure SnapshotRow where
  artId : String
  confidence : Option ℚ
  chunkIds : Option (List String)
  createdAt : String
deriving DecidableEq, Repr

/-- A `MergedEntity` node. -/
structure Tombstone where
  name : String
  entityType : String
  mentionCount : Nat
  mergeConfidence : Option ℚ
  mergeMethod : String
  survivorId : String
  mentionsSnapshot : List SnapshotRow
deriving DecidableEq, Repr

structure Graph where
  sources : List Source
  entities : Dict String Entity
  mentions : Dict (Source × String) Mention
  coMentioned : Dict (String × String) (Option Nat)
  similarTo : Dict (String × String) (Option ℚ)
  inCommunity : Dict (String × String) Unit
  /-- Entity, finding; with its `linked_at`. -/
  hasContradiction : Dict (String × String) (Option String)
  /-- Entity, reference, source; with its `fetched_at`. -/
  enrichedFrom : Dict (String × String × String) (Option String)
  facts : Dict Nat Fact
  hasFact : Dict (String × Nat) Unit
  factObject : Dict (Nat × String) Unit
  /-- Artifact, fact. -/
  factFrom : Dict (String × Nat) Unit
  tombstones : Dict String Tombstone
  /-- Tombstone, survivor. -/
  mergedInto : Dict (String × String) Unit

def Graph.empty : Graph where
  sources := []
  entities := .empty
  mentions := .empty
  coMentioned := .empty
  similarTo := .empty
  inCommunity := .empty
  hasContradiction := .empty
  enrichedFrom := .empty
  facts := .empty
  hasFact := .empty
  factObject := .empty
  factFrom := .empty
  tombstones := .empty
  mergedInto := .empty

/-- An entity that the extraction found in a text. -/
structure Extracted where
  canonicalId : String
  name : String
  entityType : String
  confidence : ℚ
deriving DecidableEq, Repr

namespace Graph

/-- `MATCH (e:Entity {canonical_id: id}) SET …`. -/
def setEntity (g : Graph) (id : String) (f : Entity → Entity) : Graph :=
  { g with entities := g.entities.mapValues (fun k e => if k = id then f e else e) }

/-- `coalesce(e.mention_count, 0)`. -/
def count (g : Graph) (id : String) : Nat :=
  ((g.entities.get? id).bind Entity.mentionCount).getD 0

/-- The artifacts with a `MENTIONS` edge to the entity. -/
def artifactsOf (g : Graph) (id : String) : Finset Source :=
  ((g.mentions.keys.filter (fun k => k.2 = id ∧ k.1.label = .artifact)).map Prod.fst).toFinset

def hasEntity (g : Graph) (id : String) : Bool := (g.entities.get? id).isSome

@[simp] theorem setEntity_mentions (g : Graph) (id : String) (f : Entity → Entity) :
    (g.setEntity id f).mentions = g.mentions := rfl

theorem get?_setEntity (g : Graph) (id : String) (f : Entity → Entity) (k : String) :
    (g.setEntity id f).entities.get? k =
      if k = id then (g.entities.get? k).map f else g.entities.get? k := by
  show (g.entities.mapValues _).get? k = _
  rw [Dict.get?_mapValues]
  by_cases h : k = id
  · simp [h]
  · simp [h]

theorem mem_artifactsOf (g : Graph) (id : String) (src : Source) :
    src ∈ g.artifactsOf id ↔ src.label = .artifact ∧ ∃ m, g.mentions.get? (src, id) = some m := by
  simp only [artifactsOf, List.mem_toFinset, List.mem_map, List.mem_filter, Dict.mem_keys_iff,
    decide_eq_true_eq, Prod.exists, exists_and_right, exists_eq_right]
  constructor
  · rintro ⟨id', hm, rfl, hl⟩
    exact ⟨hl, hm⟩
  · rintro ⟨hl, hm⟩
    exact ⟨id, hm, rfl, hl⟩

/-- Every edge ends at a node, and no entity was merged into itself. -/
structure Sound (g : Graph) : Prop where
  attached : ∀ src id m, g.mentions.get? (src, id) = some m → g.hasEntity id = true
  into : ∀ l s, g.mergedInto.get? (l, s) = some () → g.hasEntity s = true ∧ l ≠ s

end Graph

/-! ## Extraction: entities and their mentions -/

/-- `MERGE (e:Entity …) ON CREATE SET …`. -/
def ensureEntity (g : Graph) (p : Extracted) : Graph :=
  { g with
    entities := g.entities.setDefault p.canonicalId
      { name := some p.name, entityType := some p.entityType, mentionCount := some 0 } }

/-- The higher confidence; a missing one counts as none. -/
def raise (old : Option ℚ) (new : ℚ) : Option ℚ := if new > old.getD 0 then some new else old

/-- One row of the statement of `upsertEntitiesForArtifact`. -/
def mentionFromArtifact (artifactId : String) (chunkIds : List String) (now : String) (g : Graph)
    (p : Extracted) : Graph :=
  let g := ensureEntity g p
  let key := (Source.mk .artifact artifactId, p.canonicalId)
  match g.mentions.get? key with
  | none =>
    { g.setEntity p.canonicalId
        (fun e => { e with mentionCount := some (e.mentionCount.getD 0 + 1) }) with
      mentions := g.mentions.set key
        { confidence := some p.confidence, chunkIds := some chunkIds, createdAt := now } }
  | some m =>
    { g with
      mentions := g.mentions.set key
        { m with confidence := raise m.confidence p.confidence, chunkIds := some chunkIds } }

structure UpsertStats where
  entitiesUpserted : Nat
  edgesUpserted : Nat
deriving DecidableEq, Repr

def upsertStats (entities : List Extracted) : UpsertStats where
  entitiesUpserted := (entities.map Extracted.canonicalId).toFinset.card
  edgesUpserted := entities.length

/-- Without entities there is no statement, and without the artifact it finds no row. -/
def upsertEntitiesForArtifact (g : Graph) (artifactId : String) (entities : List Extracted)
    (chunkIds : List String) (now : String) : Graph × UpsertStats :=
  if Source.mk .artifact artifactId ∈ g.sources then
    (entities.foldl (mentionFromArtifact artifactId chunkIds now) g, upsertStats entities)
  else (g, ⟨0, 0⟩)

/-- One row of the statement of `upsertEntitiesForMemory`: the count stays, and there are no
chunk ids. -/
def mentionFromMemory (memoryId now : String) (g : Graph) (p : Extracted) : Graph :=
  let g := ensureEntity g p
  let key := (Source.mk .memory memoryId, p.canonicalId)
  match g.mentions.get? key with
  | none =>
    { g with
      mentions := g.mentions.set key
        { confidence := some p.confidence, chunkIds := none, createdAt := now } }
  | some m =>
    { g with mentions := g.mentions.set key { m with confidence := raise m.confidence p.confidence } }

def upsertEntitiesForMemory (g : Graph) (memoryId : String) (entities : List Extracted)
    (now : String) : Graph × UpsertStats :=
  if Source.mk .memory memoryId ∈ g.sources then
    (entities.foldl (mentionFromMemory memoryId now) g, upsertStats entities)
  else (g, ⟨0, 0⟩)

/-- The artifact's `MENTIONS` edges are deleted, and counted; nothing else is written. -/
def removeMentionsForArtifact (g : Graph) (artifactId : String) : Graph × Nat :=
  ({ g with mentions := g.mentions.filter (fun k _ => k.1 ≠ ⟨.artifact, artifactId⟩) },
    (g.mentions.keys.filter (fun k => k.1 = ⟨.artifact, artifactId⟩)).length)

end Cerid.EntityGraph
