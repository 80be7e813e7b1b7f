import Cerid.Ingest.Identity

/-!
# Ingests cut short, and the recovery of their rows

An ingest stages the rows of its document as pending, writes the artifact's node
and flips the rows to committed.  A recovery pass collects the pending rows,
groups them by artifact, and writes each artifact's node from what its rows say.

Of a node and a row only what the two paths write from the same metadata is kept:
the summary, the quality score and the timestamps are left out, and so are the
dead-letter list and the keyword indexes, which recovery does not touch.  A
collection is named after its domain.
-/

namespace Cerid.Recovery

open Ingest (ChunkId Chunk)

/-- `cerid_state`. -/
inductive RowState where
  | pending
  | committed
deriving DecidableEq, Repr

/-- A row of a collection.  `metadata` is what the ingest was given for the
document, the same on all its rows. -/
structure Row where
  artifactId : String
  domain : String
  metadata : Dict String String
  state : RowState
  pendingAt : Nat
  /-- `cerid_recovery_attempts` -/
  attempts : Nat

/-- An artifact node; its id is the key it is stored under. -/
structure Node where
  filename : String
  domain : String
  subCategory : String
  tags : String
  keywords : String
  clientSource : String
  contentHash : String
  chunkIds : List ChunkId
  chunkCount : Nat
deriving DecidableEq, Repr

/-- The rows of each collection. -/
abbrev Rows := String → ChunkId → Option Row

structure Stores where
  nodes : Dict String Node
  rows : Rows

/-- `collection.update`. -/
def updateRows (rows : Rows) (collection : String) (ids : List ChunkId) (f : Row → Row) : Rows :=
  fun k c => if k = collection ∧ c ∈ ids then (rows k c).map f else rows k c

/-- `collection.delete`. -/
def deleteRows (rows : Rows) (collection : String) (ids : List ChunkId) : Rows :=
  fun k c => if k = collection ∧ c ∈ ids then none else rows k c

/-- `create_artifact` merges on the id.  There is no result where the uniqueness
of `content_hash` refuses the node. -/
def createArtifact (nodes : Dict String Node) (id : String) (node : Node) :
    Option (Dict String Node) :=
  match nodes.get? id with
  | some n => some (nodes.set id { n with chunkIds := node.chunkIds, chunkCount := node.chunkCount })
  | none =>
    if nodes.values.any (fun n => n.contentHash = node.contentHash) then none
    else some (nodes.set id { node with
      subCategory := if node.subCategory = "" then "general" else node.subCategory })

/-! ## The ingest -/

/-- A document whose text is new: its id is the hash of the text. -/
structure Document where
  id : String
  domain : String
  metadata : Dict String String
  chunks : List Chunk
  stagedAt : Nat
  nonempty : chunks ≠ []
  distinct : (chunks.map Chunk.digest).Nodup

namespace Document

variable (d : Document)

/-- Parents and children alike. -/
def chunkIds : List ChunkId :=
  d.chunks.map fun c => { artifactId := d.id, digest := c.digest }

def childChunkIds : List ChunkId := Ingest.childChunkIds d.id d.chunks

def row (state : RowState) : Row where
  artifactId := d.id
  domain := d.domain
  metadata := d.metadata
  state
  pendingAt := d.stagedAt
  attempts := 0

/-- The arguments `ingest_content` gives `create_artifact`. -/
def node : Node where
  filename := (d.metadata.get? "filename").getD "text_input"
  domain := d.domain
  subCategory := (d.metadata.get? "sub_category").getD "general"
  tags := (d.metadata.get? "tags_json").getD "[]"
  keywords := (d.metadata.get? "keywords_json").getD "[]"
  clientSource := (d.metadata.get? "client_source").getD ""
  contentHash := d.id
  chunkIds := d.childChunkIds
  chunkCount := d.childChunkIds.length

end Document

/-- `collection.upsert`, and `_stage_chunks_pending`. -/
def stageChunks (s : Stores) (d : Document) : Stores :=
  { s with rows := fun k c =>
      if k = d.domain ∧ c ∈ d.chunkIds then some (d.row .pending) else s.rows k c }

/-- `_flip_chunks_committed`. -/
def flipChunks (s : Stores) (d : Document) : Stores :=
  { s with rows := updateRows s.rows d.domain d.chunkIds fun r => { r with state := .committed } }

/-- How far an ingest comes once its rows are staged.  An ingest whose graph write
fails stays at the first of these. -/
inductive CrashPoint where
  | staged
  | written
  | flipped
deriving DecidableEq, Repr

/-- `ingest_content` from the staging on. -/
def ingestContent (s : Stores) (d : Document) (crash : CrashPoint) : Stores :=
  let s := stageChunks s d
  match crash with
  | .staged => s
  | .written | .flipped =>
    match createArtifact s.nodes d.id d.node with
    -- `_rollback_chromadb`
    | none => { s with rows := deleteRows s.rows d.domain d.chunkIds }
    | some nodes =>
      if crash = .flipped then flipChunks { s with nodes } d else { s with nodes }

/-- Several ingests, each cut short somewhere. -/
def interrupted (lib : Stores) (docs : List (Document × CrashPoint)) : Stores :=
  docs.foldl (fun s p => ingestContent s p.1 p.2) lib

/-- The same ingests, none of them cut short. -/
def uninterrupted (lib : Stores) (docs : List (Document × CrashPoint)) : Stores :=
  docs.foldl (fun s p => ingestContent s p.1 .flipped) lib

/-! ## A recovery pass -/

/-- Which calls of the recovery of one artifact succeed. -/
structure Health where
  opens : Bool
  bumps : Bool
  reads : Bool
  writes : Bool
  flips : Bool
  deletes : Bool

/-- What a pass meets: the time, the collections it can list and read, the order in
which a collection lists its rows, and the health of the stores for each
artifact. -/
structure Pass where
  now : Nat
  maxAge : Nat
  collections : List String
  order : String → List ChunkId
  health : String → Health

structure OrphanRecord where
  chunkId : ChunkId
  collection : String
  row : Row

def scanMaxChunksPerCollection : Nat := 5000

def maxRecoveryAttempts : Nat := 2

def isStale (p : Pass) (o : OrphanRecord) : Bool :=
  o.row.pendingAt + p.maxAge ≤ p.now

/-- `_fetch_pending_chunks`; the age is looked at after the cap. -/
def fetchPendingChunks (s : Stores) (p : Pass) (collection : String) : List OrphanRecord :=
  let listed := (p.order collection).filterMap fun chunkId =>
    (s.rows collection chunkId).map fun row => ({ chunkId, collection, row } : OrphanRecord)
  ((listed.filter fun o => o.row.state = .pending).take scanMaxChunksPerCollection).filter (isStale p)

def scanOrphans (s : Stores) (p : Pass) : List OrphanRecord :=
  p.collections.flatMap (fetchPendingChunks s p)

def groupOrphansByArtifact (orphans : List OrphanRecord) : Dict String (List OrphanRecord) :=
  orphans.foldl (fun groups o =>
    groups.set o.row.artifactId ((groups.get? o.row.artifactId).getD [] ++ [o])) .empty

/-- `_graph_holds_chunks`, where the node can be read. -/
def graphHoldsChunks (nodes : Dict String Node) (id : String) (chunkIds : List ChunkId) : Bool :=
  (nodes.get? id).any fun n => n.chunkCount = chunkIds.length ∧ n.chunkIds.Perm chunkIds

/-- The arguments `_write_artifact` gives `create_artifact`. -/
def recoveredNode (lead : OrphanRecord) (chunkIds : List ChunkId) : Node where
  filename := (lead.row.metadata.get? "filename").getD "recovered_artifact"
  domain := lead.row.domain
  subCategory := (lead.row.metadata.get? "sub_category").getD "general"
  tags := (lead.row.metadata.get? "tags_json").getD "[]"
  keywords := (lead.row.metadata.get? "keywords_json").getD "[]"
  clientSource := (lead.row.metadata.get? "client_source").getD ""
  contentHash := (lead.row.metadata.get? "content_hash").getD ""
  chunkIds
  chunkCount := chunkIds.length

/-- `_write_artifact`: the nodes after it, or nothing where the write failed.  A
collision on `content_hash` counts as written. -/
def writeArtifact (nodes : Dict String Node) (writes : Bool) (lead : OrphanRecord)
    (chunkIds : List ChunkId) : Option (Dict String Node) :=
  if writes then
    some ((createArtifact nodes lead.row.artifactId (recoveredNode lead chunkIds)).getD nodes)
  else none

inductive RecoveryAction where
  | committed
  | purged
  | deferred
deriving DecidableEq, Repr

def recoverArtifact (s : Stores) (h : Health) : List OrphanRecord → Stores × RecoveryAction
  | [] => (s, .deferred)
  | lead :: rest =>
    let orphans := lead :: rest
    let chunkIds := orphans.map OrphanRecord.chunkId
    let newAttemptCount := (orphans.map fun o => o.row.attempts).foldl max 0 + 1
    if h.opens = false then (s, .deferred)
    else
      let rows :=
        if h.bumps then
          updateRows s.rows lead.collection chunkIds fun r => { r with attempts := newAttemptCount }
        else s.rows
      let written :=
        if h.reads ∧ graphHoldsChunks s.nodes lead.row.artifactId chunkIds then some s.nodes
        else writeArtifact s.nodes h.writes lead chunkIds
      match written with
      | some nodes =>
        let rows :=
          if h.flips then
            updateRows rows lead.collection chunkIds fun r => { r with state := .committed }
          else rows
        ({ nodes, rows }, .committed)
      | none =>
        if newAttemptCount < maxRecoveryAttempts then ({ s with rows }, .deferred)
        else
          let rows := if h.deletes then deleteRows rows lead.collection chunkIds else rows
          ({ s with rows }, .purged)

/-- `IngestRecoveryJob._run_recovery`. -/
def runRecovery (s : Stores) (p : Pass) : Stores :=
  (groupOrphansByArtifact (scanOrphans s p)).items.foldl
    (fun s group => (recoverArtifact s (p.health group.1) group.2).1) s

end Cerid.Recovery
