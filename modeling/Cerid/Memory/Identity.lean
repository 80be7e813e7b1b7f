import Cerid.Ingest.ChunkIds
import Cerid.Lib.Where
import Mathlib.Data.Finset.Lattice.Lemmas
import Mathlib.Logic.Function.Basic

/-!
# The identity of a memory

The recall rows of verified memories that were written under the old form of their id are moved
to the id of today, and the conversation of a memory is written on its node.  The migration is a
list of writes, and may stop before any of them.
-/

namespace Cerid.Memory

open Ingest.Chunking (ChunkIdAssigner)

abbrev Id := List Char

/-- A row of the collection of conversations. -/
structure Row where
  document : Option (List Char)
  metadata : Metadata
  embedding : List ℚ

/-- `extractedFrom` are the ids of the conversations the node has an edge to. -/
structure ArtifactNode where
  conversationId : Option Id
  extractedFrom : List Id
deriving DecidableEq

/-- `verifiedBy` are the conversations of the reports. -/
structure MemoryNode where
  conversationId : Option Id
  extractedFrom : List Id
  verifiedBy : List (Option Id)
deriving DecidableEq

structure Graph where
  artifacts : Dict Id ArtifactNode
  memories : Dict Id MemoryNode
  conversations : Finset Id

structure Library where
  graph : Graph
  rows : Dict Id Row

/-- What is outside: normalization and digest of a text, `str` of what is no string, the memories
that are forgotten, and whether the store refuses a call that names an id twice. -/
structure Setting where
  nfc : List Char → List Char
  h16 : List Char → List Char
  h16_length : ∀ text, (h16 text).length = 16
  repr : MetaValue → String
  forgotten : Id → Bool
  distinct : Bool

/-! ## The conversations -/

/-- `head(collect(c.id))`. -/
def ArtifactNode.named (a : ArtifactNode) : ArtifactNode :=
  match a.conversationId with
  | some _ => a
  | none => { a with conversationId := a.extractedFrom.head? }

/-- The conversation that the node is given. -/
def MemoryNode.found (m : MemoryNode) : Option Id :=
  match m.conversationId with
  | some _ => none
  | none => ((m.extractedFrom.head?).or (m.verifiedBy.filterMap id).head?).filter (· ≠ [])

def MemoryNode.named (m : MemoryNode) : MemoryNode :=
  match m.found with
  | none => m
  | some cid =>
    { m with
      conversationId := some cid
      extractedFrom := if cid ∈ m.extractedFrom then m.extractedFrom else m.extractedFrom ++ [cid] }

/-- `_ARTIFACT_CONVERSATIONS`. -/
def Graph.artifactConversations (g : Graph) : Graph :=
  { g with artifacts := g.artifacts.mapValues fun _ => ArtifactNode.named }

/-- `_VERIFIED_CONVERSATIONS`. -/
def Graph.verifiedConversations (g : Graph) : Graph :=
  { g with
    memories := g.memories.mapValues fun _ => MemoryNode.named
    conversations := g.conversations ∪ (g.memories.values.filterMap MemoryNode.found).toFinset }

/-- `conversation.get`, if it is not empty. -/
def Graph.conversationOf (g : Graph) (memoryId : Id) : Option Id :=
  ((g.memories.get? memoryId).bind MemoryNode.conversationId).filter (· ≠ [])

/-! ## The rows -/

def LEGACY_VERIFIED_MEMORY_PREFIX : Id := "verified_memory_".toList

def VERIFIED_MEMORY_SOURCE : String := "verification"

variable (st : Setting)

def isForgotten (memoryId : Id) : Bool := memoryId ≠ [] && st.forgotten memoryId

def verifiedMemoryRowId (memoryId text : List Char) : Id :=
  ((ChunkIdAssigner.start memoryId).assign st.nfc st.h16 .flat text).1

/-- The id has the old form. -/
def oldForm (id : Id) : Bool := LEGACY_VERIFIED_MEMORY_PREFIX.isPrefixOf id

def isLegacy (p : Id × Row) : Bool :=
  p.2.metadata "memory_source_type" = some (.str VERIFIED_MEMORY_SOURCE) && oldForm p.1

def legacyRows (rows : Dict Id Row) : List (Id × Row) := rows.items.filter isLegacy

/-- `str`. -/
def shown : MetaValue → Id
  | .str s => s.toList
  | v => (st.repr v).toList

def truthy : MetaValue → Bool
  | .str s => s ≠ ""
  | .num q => q ≠ 0
  | .bool b => b

/-- The memory of a legacy row. -/
def memoryId (p : Id × Row) : Id :=
  match (p.2.metadata "artifact_id").filter truthy with
  | some v => shown st v
  | none => p.1.drop LEGACY_VERIFIED_MEMORY_PREFIX.length

def newId (p : Id × Row) : Id := verifiedMemoryRowId st (memoryId st p) (p.2.document.getD [])

/-- The legacy rows that are moved: their new id is free, and their memory is not forgotten. -/
def moving (rows : Dict Id Row) : List (Id × Row) :=
  (legacyRows rows).filter fun p =>
    decide (newId st p ∉ rows.keys) && !isForgotten st (memoryId st p)

/-- Those that only go. -/
def stale (rows : Dict Id Row) : List (Id × Row) :=
  (legacyRows rows).filter fun p =>
    !(decide (newId st p ∉ rows.keys) && !isForgotten st (memoryId st p))

/-- `mapping[old]`. -/
def lookup (mapping : List (Id × Id)) (old : Id) : Option Id :=
  (mapping.find? fun p => p.1 = old).map Prod.snd

/-- The parent of a row follows the mapping. -/
def rekeyed (mapping : List (Id × Id)) (m : Metadata) : Metadata :=
  match m "parent_chunk_id" with
  | some (.str parent) =>
    if parent = "" then m
    else
      match lookup mapping parent.toList with
      | some new => Function.update m "parent_chunk_id" (some (.str (String.ofList new)))
      | none => m
  | _ => m

/-- The metadata that a moved row is given at last. -/
def taggedMeta (g : Graph) (p : Id × Row) : Metadata :=
  let m := Function.update p.2.metadata "artifact_id"
    (some (.str (String.ofList (memoryId st p))))
  match g.conversationOf (memoryId st p) with
  | some cid => Function.update m "conversation_id" (some (.str (String.ofList cid)))
  | none => m

/-! ## The writes -/

inductive Write
  | artifactConversations
  | verifiedConversations
  | upsert (rows : List (Id × Row))
  | delete (ids : List Id)
  | update (metadatas : List (Id × Metadata))

def setMeta (rows : Dict Id Row) (p : Id × Metadata) : Dict Id Row :=
  match rows.get? p.1 with
  | some row => rows.set p.1 { row with metadata := p.2 }
  | none => rows

def Write.apply (s : Library) : Write → Library
  | artifactConversations => { s with graph := s.graph.artifactConversations }
  | verifiedConversations => { s with graph := s.graph.verifiedConversations }
  | upsert rows => { s with rows := rows.foldl (fun acc p => acc.set p.1 p.2) s.rows }
  | delete ids => { s with rows := ids.foldl Dict.erase s.rows }
  | update metadatas => { s with rows := metadatas.foldl setMeta s.rows }

/-- A row under its new id, unless that is dropped. -/
def rekeyedRow (mapping : List (Id × Id)) (dropped : List Id) (p : Id × Row) : Option (Id × Row) :=
  match lookup mapping p.1 with
  | some new =>
    if new ∈ dropped then none
    else some (new, { p.2 with metadata := rekeyed mapping p.2.metadata })
  | none => none

/-- `_rekey_chroma`, for rows that the store has. -/
def rekeyChroma (rows : List (Id × Row)) (mapping : List (Id × Id)) (dropped : List Id) :
    List Write :=
  let kept := rows.filterMap (rekeyedRow mapping dropped)
  if rows = [] then []
  else (if kept = [] then [] else [.upsert kept]) ++ [.delete (rows.map Prod.fst)]

/-- The store refuses to look two rows up under one new id. -/
def Refused (s : Library) : Prop :=
  st.distinct = true ∧ ¬((legacyRows s.rows).map (newId st)).Nodup

instance (s : Library) : Decidable (Refused st s) := inferInstanceAs (Decidable (_ ∧ _))

/-- The writes to the rows, from what was read when the graph was written. -/
def rowWrites (s : Library) : List Write :=
  if Refused st s then []
  else
    let moved := moving st s.rows
    let stale := stale st s.rows
    let mapping := moved.map fun p => (p.1, newId st p)
    rekeyChroma moved mapping [] ++
      (if stale = [] then [] else [.delete (stale.map Prod.fst)]) ++
      (if moved = [] then []
        else [.update (moved.map fun p => (newId st p, taggedMeta st s.graph p))])

/-- The graph is written first. -/
def graphed (s : Library) : Library :=
  { s with graph := s.graph.artifactConversations.verifiedConversations }

def writes (s : Library) : List Write :=
  [.artifactConversations, .verifiedConversations] ++ rowWrites st (graphed s)

def migrateMemoryIdentity (s : Library) : Library := (writes st s).foldl Write.apply s

/-- The migration stops after `n` writes. -/
def crash (s : Library) (n : Nat) : Library := ((writes st s).take n).foldl Write.apply s

/-! ## What is wanted -/

/-- The same graph and the same rows. -/
def Same (s t : Library) : Prop := s.graph = t.graph ∧ ∀ id, s.rows.get? id = t.rows.get? id

/-- A row is of the memory: by what it says if its id has the old form, else by its id. -/
def RowOf (memory : Id) (p : Id × Row) : Prop :=
  if isLegacy p = true then memoryId st p = memory
  else ∃ text, p.1 = verifiedMemoryRowId st memory text

/-- The memory has a recall row. -/
def Recalls (s : Library) (memory : Id) : Prop :=
  ∃ id row, s.rows.get? id = some row ∧ RowOf st memory (id, row)

/-- The rows that the migration moves. -/
def movedRows (s : Library) : List (Id × Row) := if Refused st s then [] else moving st s.rows

/-- The migration may stop anywhere, and runs again. -/
structure Whole (s : Library) : Prop where
  rerun : ∀ n, Same (migrateMemoryIdentity st (crash st s n)) (migrateMemoryIdentity st s)
  again : Same (migrateMemoryIdentity st (migrateMemoryIdentity st s)) (migrateMemoryIdentity st s)
  tagged : ∀ p ∈ movedRows st s, ∃ row,
    (migrateMemoryIdentity st s).rows.get? (newId st p) = some row ∧
      row.metadata "artifact_id" = some (.str (String.ofList (memoryId st p))) ∧
      ∀ cid, (graphed s).graph.conversationOf (memoryId st p) = some cid →
        row.metadata "conversation_id" = some (.str (String.ofList cid))
  kept : ∀ memory, isForgotten st memory = false → Recalls st s memory →
    Recalls st (migrateMemoryIdentity st s) memory
  notGained : ∀ memory, isForgotten st memory = true → ¬Recalls st s memory →
    ¬Recalls st (migrateMemoryIdentity st s) memory

end Cerid.Memory
