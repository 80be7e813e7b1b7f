import Cerid.Lib.Dict
import Mathlib.Data.String.Basic

/-!
# What machines exchange

A machine exports its stores as files of JSON rows into a folder that all machines
share, and imports the folder.  A row is given as it is read: a key that the reader
looks up with a default is a `Cell`, any other key is an `Option`, and a line that is
not JSON is not there.

Times are ISO strings and are compared as strings.  An empty string counts as no
value wherever the source says `or`.
-/

namespace Cerid.Sync

/-- The value of a key: not there, `null`, or a value. -/
inductive Cell (α : Type) where
  | missing
  | null
  | value (a : α)
deriving DecidableEq, Repr

/-- `row.get(key, default)`. -/
def Cell.getD {α : Type} (c : Cell α) (default : α) : Option α :=
  match c with
  | .missing => some default
  | .null => none
  | .value a => some a

/-- `a or b`, of strings. -/
def orText (a b : Option String) : Option String :=
  match a with
  | some s => if s = "" then b else some s
  | none => b

/-- The string, when there is one to use. -/
def text (a : Option String) : Option String := orText a none

/-! ## Rows of the graph -/

/-- `LINEAGE_PROPS`. -/
structure Lineage where
  lineageId : Option String
  version : Option Nat
  versions : Option Nat
  validFrom : Option String
  validTo : Option String
  supersededBy : Option String
  supersededValidTo : Option String
  invalidAt : Option String
deriving DecidableEq, Repr

def Lineage.blank : Lineage :=
  { lineageId := none, version := none, versions := none, validFrom := none, validTo := none,
    supersededBy := none, supersededValidTo := none, invalidAt := none }

/-- The properties of one lineage written over those of another. -/
def Lineage.over (row held : Lineage) : Lineage :=
  { lineageId := row.lineageId.or held.lineageId
    version := row.version.or held.version
    versions := row.versions.or held.versions
    validFrom := row.validFrom.or held.validFrom
    validTo := row.validTo.or held.validTo
    supersededBy := row.supersededBy.or held.supersededBy
    supersededValidTo := row.supersededValidTo.or held.supersededValidTo
    invalidAt := row.invalidAt.or held.invalidAt }

/-- The synced properties of an artifact node, whose id is its key; the last two are
`IDENTITY_PROPS`. -/
structure Artifact where
  filename : Option String
  domain : Option String
  keywords : Option String
  summary : Option String
  chunkCount : Option Nat
  chunkIds : Option String
  contentHash : Option String
  ingestedAt : Option String
  modifiedAt : Option String
  recategorizedAt : Option String
  updatedAt : Option String
  lineage : Lineage
  memoryScope : Option String
  conversationId : Option String
deriving DecidableEq, Repr

def Artifact.blank : Artifact :=
  { filename := none, domain := none, keywords := none, summary := none, chunkCount := none,
    chunkIds := none, contentHash := none, ingestedAt := none, modifiedAt := none,
    recategorizedAt := none, updatedAt := none, lineage := .blank, memoryScope := none,
    conversationId := none }

structure ArtifactRow where
  id : Option String
  filename : Cell String
  domain : Cell String
  keywords : Cell String
  summary : Cell String
  chunkCount : Cell Nat
  chunkIds : Cell String
  contentHash : Cell String
  ingestedAt : Option String
  modifiedAt : Option String
  recategorizedAt : Option String
  updatedAt : Option String
  lineage : Lineage
  memoryScope : Option String
  conversationId : Option String
deriving DecidableEq, Repr

/-- The properties of a relationship between two artifacts. -/
structure Relation where
  reason : Option String
  overlapCount : Option Nat
  createdAt : Option String
deriving DecidableEq, Repr

structure RelationRow where
  sourceId : Option String
  targetId : Option String
  relType : Option String
  props : Relation
deriving DecidableEq, Repr

/-- A verified memory; `content` stands for its properties that no import reads. -/
structure Memory where
  updatedAt : Option String
  lineage : Lineage
  content : Option String
deriving DecidableEq, Repr

/-- `props` is `none` when the row has none. -/
structure MemoryRow where
  id : Option String
  props : Option Memory
deriving DecidableEq, Repr

/-- A row of `memory_edges.jsonl` or `conversation_edges.jsonl`. -/
structure EdgeRow where
  sourceId : Option String
  relType : Option String
  targetId : Option String
deriving DecidableEq, Repr

/-- The properties of a fact version; `content` stands for those of `FACT_PROPS` that
no import reads. -/
structure Fact where
  source : Option String
  validTo : Option String
  invalidAt : Option String
  closedBy : Option String
  content : Option String
deriving DecidableEq, Repr

structure FactRow where
  uid : Option String
  props : Fact
deriving DecidableEq, Repr

/-! ## Rows of the other stores -/

/-- The metadata of a passage, as far as the sync reads it. -/
structure Meta where
  artifactId : Option String
  filename : Option String
  conversationId : Option String
  parentChunkId : Option String
  memorySourceType : Option String
  lineage : Lineage
  versionClosed : Option Bool
deriving DecidableEq, Repr

def Meta.blank : Meta :=
  { artifactId := none, filename := none, conversationId := none, parentChunkId := none,
    memorySourceType := none, lineage := .blank, versionClosed := none }

/-- The coordinates of an embedding are opaque. -/
abbrev Embedding := List Nat

structure VectorRow where
  document : String
  metadata : Meta
  embedding : Embedding
deriving DecidableEq, Repr

/-- A row of `chroma/{collection}.jsonl`. -/
structure VectorFileRow where
  id : Option String
  document : String
  metadata : Meta
  embedding : Embedding
deriving DecidableEq, Repr

/-- A line of a keyword corpus. -/
structure LexicalRow where
  chunkId : Option String
  id : Option String
  body : String
  tenantId : Option String
deriving DecidableEq, Repr

/-- `row.get("chunk_id") or row.get("id")`, when there is one. -/
def LexicalRow.key (r : LexicalRow) : Option String := text (orText r.chunkId r.id)

/-- An audit entry; `body` stands for its other keys. -/
structure LogEntry where
  artifactId : Cell String
  timestamp : Cell String
  body : String
deriving DecidableEq, Repr

/-- The key two audit entries are compared by. -/
def LogEntry.key (e : LogEntry) : Option String × Option String :=
  (e.artifactId.getD "", e.timestamp.getD "")

instance lawfulBEqKey : LawfulBEq (Option String × Option String) := inferInstance

/-- An element of the audit list: an entry, or text that is not JSON. -/
inductive LogLine where
  | entry (e : LogEntry)
  | malformed (text : String)
deriving DecidableEq, Repr

/-- A row of `tombstones.jsonl`; `deletedAt` is the instant it reads as. -/
structure Tombstone where
  artifactId : Option String
  chunkIds : List String
  domain : Option String
  deletedAt : Option Nat
  machineId : Option String
deriving DecidableEq, Repr

/-! ## The two sides -/

/-- The stores of one machine.  Passages are kept by domain, keyword corpora by file,
and the audit list has its newest element first; `tombstoneLog` is its own deletion
log. -/
structure Stores where
  artifacts : Dict String Artifact
  relationships : Dict (String × String × String) Relation
  memories : Dict String Memory
  memoryEdges : List (String × String × String)
  facts : Dict String Fact
  conversations : List String
  conversationEdges : List (String × String × String)
  vectors : String → Dict String VectorRow
  corpora : Dict String (List LexicalRow)
  log : List LogLine
  tombstoneLog : List Tombstone

/-- A machine that holds nothing. -/
def Stores.fresh : Stores :=
  { artifacts := .empty, relationships := .empty, memories := .empty, memoryEdges := [],
    facts := .empty, conversations := [], conversationEdges := [], vectors := fun _ => .empty,
    corpora := .empty, log := [], tombstoneLog := [] }

/-- The files of the sync folder; `vectors` and `auditLog` tell a missing file from an
empty one. -/
structure Folder where
  lastExportedAt : Option String
  tombstones : List Tombstone
  artifacts : List ArtifactRow
  relationships : List RelationRow
  memories : List MemoryRow
  memoryEdges : List EdgeRow
  facts : List FactRow
  conversationEdges : List EdgeRow
  vectors : String → Option (List VectorFileRow)
  bm25 : Dict String (List LexicalRow)
  auditLog : Option (List LogEntry)

def Folder.empty : Folder :=
  { lastExportedAt := none, tombstones := [], artifacts := [], relationships := [],
    memories := [], memoryEdges := [], facts := [], conversationEdges := [],
    vectors := fun _ => none, bm25 := .empty, auditLog := none }

def conversationsDomain : String := "conversations"

/-- A taxonomy of two domains. -/
theorem conversations_mem : conversationsDomain ∈ ["general", "conversations"] := by
  decide

/-- What a machine is configured with; `now` is what its clock reads, and `instant` the
same as a time to reckon with. -/
structure Settings where
  machineId : String
  domains : List String
  defaultDomain : String
  relationshipTypes : List String
  logMax : Nat
  ttl : Nat
  now : String
  instant : Nat
  /-- The taxonomy always has the domain of the transcripts. -/
  conversations : conversationsDomain ∈ domains

/-! ## Time stamps -/

@[simp] theorem orText_none (b : Option String) : orText none b = b := rfl

theorem orText_some {s : String} (h : s ≠ "") (b : Option String) : orText (some s) b = some s :=
  if_neg h

@[simp] theorem orText_empty (b : Option String) : orText (some "") b = b := rfl

theorem text_eq_some {a : Option String} {s : String} : text a = some s ↔ a = some s ∧ s ≠ "" := by
  cases a with
  | none => simp [text]
  | some t =>
    by_cases h : t = ""
    · subst h
      simp only [text, orText_empty, Option.some.injEq, reduceCtorEq, false_iff, not_and, not_not]
      exact fun h => h.symm
    · rw [text, orText_some h, Option.some.injEq]
      exact ⟨fun e => ⟨e, e ▸ h⟩, fun e => e.1⟩

end Cerid.Sync
