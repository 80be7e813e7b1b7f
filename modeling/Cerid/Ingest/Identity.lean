import Cerid.Lib.Dict
import Cerid.Lib.Run

/-!
# Which node a document lives in

An artifact node is created under the hash of its document's first text and keeps
that id when the text changes.  An ingest finds the node to write to by the hash
of the text, then by the document's path, then by its file name; failing these it
creates one.

Only what decides this is kept of an ingest: nothing is forgotten or dropped for
its quality, the graph answers every query, no source carries an external id, and
nodes are listed in the order of their `ingested_at`.  How a text is cut into
passages under an artifact id is an input, and so is the state of the file system.
-/

namespace Cerid.Ingest

/-- A chunk id, `"{artifact_id}_{digest}"`. -/
structure ChunkId where
  artifactId : String
  digest : String
deriving DecidableEq, Repr

/-- One of the `chunk_records` of a text. -/
structure Chunk where
  digest : String
  retrieveEligible : Bool
deriving DecidableEq, Repr

/-- A row of the vector store. -/
structure Row where
  closed : Bool
  retrieveEligible : Bool
deriving DecidableEq, Repr

/-- An artifact node; its id is the key it is stored under. -/
structure Node where
  filename : String
  domain : String
  contentHash : String
  chunkIds : List ChunkId
  sourcePath : String
deriving DecidableEq, Repr

structure Library where
  nodes : Dict String Node
  rows : ChunkId → Option Row

/-- What `note_source_path` asks the file system about a path. -/
structure Files where
  pathExists : String → Bool
  /-- The folder of the path is a directory that can be read. -/
  folderIsDir : String → Bool

/-- A file as `ingest_file` hands it to `ingest_content`: with a full path, and a
text whose passages get ids of their own under any artifact id. -/
structure Source where
  sourcePath : String
  filename : String
  domain : String
  text : String
  priorHashes : List String
  chunks : String → List Chunk
  files : Files
  forceReindex : Bool
  hasPath : sourcePath ≠ ""
  distinct : ∀ id, ((chunks id).map Chunk.digest).Nodup

/-! ## Looking for the node -/

def checkDuplicate (lib : Library) (hashes : List String) : Option (String × Node) :=
  lib.nodes.items.find? (fun p => p.2.contentHash ∈ hashes)

/-- `find_artifact_by_source_path`. -/
def findBySourcePath (lib : Library) (sourcePath domain : String) : Option (String × Node) :=
  if sourcePath = "" then none
  else lib.nodes.items.find? (fun p => p.2.sourcePath = sourcePath ∧ p.2.domain = domain)

/-- `find_artifact_by_filename`. -/
def findByFilename (lib : Library) (filename domain : String) (anyPath : Bool) :
    Option (String × Node) :=
  lib.nodes.items.find? (fun p => p.2.filename = filename ∧ p.2.domain = domain ∧
    (anyPath ∨ p.2.sourcePath = ""))

/-- Where `ingest_content` sends a text. -/
inductive Route where
  | duplicate (id : String)
  | reingest (id : String) (prev : Node)
  | create

/-- A node found for a text is re-ingested when its text differs, or when the
ingest is forced. -/
def accepts (forceReindex : Bool) (contentHash : String) (prev : Option (String × Node)) :
    Option (String × Node) :=
  prev.filter (fun p => forceReindex || decide (p.2.contentHash ≠ contentHash))

/-- The lookups of `ingest_content`, in its order. -/
def route (lib : Library) (contentHash : String) (f : Source) : Route :=
  match (if f.forceReindex then none else checkDuplicate lib (contentHash :: f.priorHashes)) with
  | some existing => .duplicate existing.1
  | none =>
    match accepts f.forceReindex contentHash (findBySourcePath lib f.sourcePath f.domain) with
    | some prev => .reingest prev.1 prev.2
    | none =>
      if f.filename = "text_input" then .create
      else
        let prev := findByFilename lib f.filename f.domain false
        let prev := if prev.isNone ∧ (f.sourcePath = "" ∨ f.forceReindex) then
          findByFilename lib f.filename f.domain true else prev
        match accepts f.forceReindex contentHash prev with
        | some prev => .reingest prev.1 prev.2
        | none => .create

/-! ## Writing -/

/-- `collection.upsert` of the passages of an artifact. -/
def upsert (rows : ChunkId → Option Row) (artifactId : String) (records : List Chunk) :
    ChunkId → Option Row := fun c =>
  if c.artifactId = artifactId then
    ((records.find? (fun r => r.digest = c.digest)).map
      (fun r => { closed := false, retrieveEligible := r.retrieveEligible })).or (rows c)
  else rows c

/-- The rows of the current version that the new passages leave out. -/
def closing (rows : ChunkId → Option Row) (artifactId : String) (records : List Chunk)
    (c : ChunkId) : Bool :=
  decide (c.artifactId = artifactId) && (rows c).any (fun r => !r.closed) &&
    records.all (fun r => r.digest ≠ c.digest)

/-- `_close_rows` after a new text, `_replace_rows` after the same text. -/
def closeRows (rows : ChunkId → Option Row) (contentChanged : Bool) (closing : ChunkId → Bool) :
    ChunkId → Option Row := fun c =>
  if closing c then
    if contentChanged then (rows c).map (fun r => { r with closed := true }) else none
  else rows c

/-- The ids a node lists: the passages that retrieval ranks. -/
def childChunkIds (artifactId : String) (records : List Chunk) : List ChunkId :=
  (records.filter Chunk.retrieveEligible).map (fun r => { artifactId, digest := r.digest })

/-- The uniqueness of `content_hash` refuses this hash to the node `id`. -/
def hashTaken (lib : Library) (id contentHash : String) : Bool :=
  lib.nodes.items.any (fun p => p.1 ≠ id ∧ p.2.contentHash = contentHash)

inductive Result where
  | success (id : String)
  | updated (id : String)
  | duplicate (id : String)
  | error (id : String)
deriving DecidableEq, Repr

def noteSourcePath (lib : Library) (files : Files) (id sourcePath filename : String) : Library :=
  match lib.nodes.get? id with
  | none => lib
  | some n =>
    if sourcePath = "" ∨ n.sourcePath = sourcePath ∨ (n.sourcePath ≠ "" ∧
        (files.pathExists n.sourcePath ∨ ¬ files.folderIsDir n.sourcePath)) then lib
    else { lib with nodes := lib.nodes.set id { n with
      sourcePath
      filename := if n.sourcePath ≠ "" ∧ filename ≠ "" then filename else n.filename } }

def reingestArtifact (lib : Library) (id : String) (prev : Node) (f : Source)
    (contentHash : String) : Library × Result :=
  let records := f.chunks id
  let leaving := closing lib.rows id records
  let rows := closeRows (upsert lib.rows id records) (prev.contentHash ≠ contentHash) leaving
  if hashTaken lib id contentHash then ({ lib with rows }, .error id)
  else
    let node := { prev with
      contentHash
      chunkIds := childChunkIds id records
      sourcePath := if f.sourcePath ≠ "" then f.sourcePath else prev.sourcePath }
    ({ rows, nodes := lib.nodes.set id node }, .updated id)

/-- The end of `ingest_content`: `create_artifact` merges on the content hash as
the node's id. -/
def createArtifact (lib : Library) (f : Source) (contentHash : String) : Library × Result :=
  let id := contentHash
  let records := f.chunks id
  let rows := upsert lib.rows id records
  let chunkIds := childChunkIds id records
  match lib.nodes.get? id with
  | some n =>
    let node := { n with
      chunkIds, sourcePath := if f.sourcePath ≠ "" then f.sourcePath else n.sourcePath }
    ({ rows, nodes := lib.nodes.set id node }, .success id)
  | none =>
    if hashTaken lib id contentHash then
      -- `_rollback_chromadb`
      ({ lib with rows := fun c =>
          if c.artifactId = id ∧ records.any (fun r => r.digest = c.digest) then none else rows c },
        .duplicate id)
    else
      let node := {
        filename := f.filename, domain := f.domain, contentHash, chunkIds
        sourcePath := f.sourcePath }
      ({ rows, nodes := lib.nodes.set id node }, .success id)

section

-- `_content_hash`
variable (contentHash : String → String)

def ingestContent (lib : Library) (f : Source) : Library × Result :=
  let h := contentHash f.text
  match route lib h f with
  | .duplicate id => (noteSourcePath lib f.files id f.sourcePath f.filename, .duplicate id)
  | .reingest id prev => reingestArtifact lib id prev f h
  | .create => createArtifact lib f h

def removeContent (lib : Library) (id : String) : Library where
  nodes := lib.nodes.erase id
  rows := fun c => if c.artifactId = id then none else lib.rows c

/-! ## Documents -/

/-- A document is a path in a domain. -/
abbrev Doc := String × String

/-- The stores, and what the ingests answered: the artifact of each live
document. -/
structure World where
  lib : Library
  docs : Doc → Option String

def World.empty : World :=
  { lib := { nodes := .empty, rows := fun _ => none }, docs := fun _ => none }

inductive Op where
  | ingest (f : Source)
  | delete (doc : Doc)

def assign (docs : Doc → Option String) (doc : Doc) (id : Option String) : Doc → Option String :=
  fun d => if d = doc then id else docs d

/-- A duplicate whose node took another path is a document that moved. -/
def moveDoc (before after : Library) (docs : Doc → Option String) (id : String) :
    Doc → Option String :=
  match before.nodes.get? id, after.nodes.get? id with
  | some n, some n' =>
    if n.sourcePath = n'.sourcePath then docs
    else
      let left := (n.sourcePath, n.domain)
      let docs := if docs left = some id then assign docs left none else docs
      assign docs (n'.sourcePath, n.domain) (some id)
  | _, _ => docs

/-- The documents after an ingest has answered. -/
def answer (w : World) (f : Source) (r : Library × Result) : World :=
  match r.2 with
  | .success id | .updated id =>
    { lib := r.1, docs := assign w.docs (f.sourcePath, f.domain) (some id) }
  | .duplicate id => { lib := r.1, docs := moveDoc w.lib r.1 w.docs id }
  | .error _ => { w with lib := r.1 }

def step (w : World) : Op → World
  | .ingest f => answer w f (ingestContent contentHash w.lib f)
  | .delete doc =>
    match w.docs doc with
    | none => w
    | some id => { lib := removeContent w.lib id, docs := assign w.docs doc none }

end

end Cerid.Ingest
