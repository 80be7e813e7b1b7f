import Cerid.Sync.Forgotten

/-!
# Importing the folder

The import paths in the order `import_all` takes them, from the deletions of other
machines to the audit log.  The re-keying migrations that follow change nothing in an
export with content-addressed ids and are left out.  Stores and files answer every
request; the graph refuses nothing but a second artifact of one id, and a refused row
is dropped.

Each path returns what it wrote beside the store it leaves, so that a run can be asked
what it created or updated.
-/

namespace Cerid.Sync

open Forget (Kind Subject Index)

/-- A row or node that an import created or updated, with the ids it was written
under. -/
inductive Written where
  | artifact (id : String)
  | passage (domain rowId : String) (metadata : Meta)
  | lexicalRow (file rowId : String)
  | memory (id : String)
  | memoryConversation (memory conversation : String)
  | fact (uid source : String)
  | conversationEdge (artifact conversation : String)
  | logEntry (e : LogEntry)
deriving DecidableEq

/-! ## Deletions -/

/-- `MATCH (a:Artifact {id: $id}) DETACH DELETE a`, and the passages the tombstone
names. -/
def deleteArtifact (c : Settings) (s : Stores) (id : String) (t : Tombstone) : Stores :=
  { s with
    artifacts := s.artifacts.erase id
    relationships := s.relationships.filter (fun k _ => k.1 ≠ id && k.2.1 ≠ id)
    memoryEdges := s.memoryEdges.filter (fun e => e.2.1 ≠ "RELATES_TO" || e.2.2 ≠ id)
    conversationEdges := s.conversationEdges.filter (fun e => e.1 ≠ id)
    vectors := fun d =>
      if (text t.domain).all (· = d) ∧ d ∈ (text t.domain).toList ++ c.domains then
        (s.vectors d).filter (fun k _ => k ∉ t.chunkIds)
      else s.vectors d }

/-- One row of `apply_tombstones`. -/
def applyTombstone (c : Settings) (s : Stores) (t : Tombstone) : Stores :=
  match text t.artifactId with
  | none => s
  | some id =>
    if t.machineId = some c.machineId then s
    else if (s.artifacts.get? id).isNone then s
    else deleteArtifact c s id t

def applyTombstones (c : Settings) (tombstones : List Tombstone) (s : Stores) : Stores :=
  tombstones.foldl (applyTombstone c) s

/-! ## Conflicts -/

/-- `ConflictStrategy`. -/
inductive ConflictStrategy where
  | remoteWins
  | localWins
  | keepBoth
  | manualReview
deriving DecidableEq, Repr

/-- `row.get("updated_at") or row.get("ingested_at") or ""`. -/
def remoteUpdated (row : ArtifactRow) : String := (orText row.updatedAt row.ingestedAt).getD ""

/-- `existing["updated_at"] or existing["ingested_at"]`. -/
def localUpdated (a : Artifact) : Option String := orText a.updatedAt a.ingestedAt

/-- The last row of each artifact that was updated after the last sync. -/
def remoteModified (rows : List ArtifactRow) (lastSyncAt : String) : Dict String ArtifactRow :=
  rows.foldl (fun acc row =>
    match text row.id with
    | some id => if lastSyncAt < remoteUpdated row then acc.set id row else acc
    | none => acc) .empty

/-- `detect_conflicts`, as far as the ids: both sides were updated after the last sync
and their content differs. -/
def detectConflicts (artifacts : Dict String Artifact) (rows : List ArtifactRow)
    (lastSyncAt : String) : List String :=
  ((remoteModified rows lastSyncAt).items.filter (fun p =>
    (artifacts.get? p.1).any (fun a =>
      (a.updatedAt.or a.ingestedAt).any (fun t => lastSyncAt < t) &&
        some (a.contentHash.getD "") != p.2.contentHash.getD ""))).map Prod.fst

/-- The artifacts that the resolution of conflicts leaves to the local side. -/
def skipIds (strategy : ConflictStrategy) (lastSyncAt : Option String)
    (artifacts : Dict String Artifact) (rows : List ArtifactRow) : List String :=
  match text lastSyncAt with
  | some lastSyncAt =>
    if strategy = .remoteWins then [] else detectConflicts artifacts rows lastSyncAt
  | none => []

/-! ## Artifacts -/

/-- `row.get("ingested_at") or ""`. -/
def remoteIngestedAt (row : ArtifactRow) : String := (text row.ingestedAt).getD ""

/-- The properties that both writes set. -/
def overwrite (c : Settings) (row : ArtifactRow) (a : Artifact) : Artifact :=
  { a with
    filename := row.filename.getD ""
    domain := row.domain.getD c.defaultDomain
    keywords := row.keywords.getD "[]"
    summary := row.summary.getD ""
    chunkCount := row.chunkCount.getD 0
    chunkIds := row.chunkIds.getD "[]"
    contentHash := row.contentHash.getD ""
    ingestedAt := some (remoteIngestedAt row)
    modifiedAt := row.modifiedAt
    recategorizedAt := row.recategorizedAt
    updatedAt := orText row.updatedAt (some (remoteIngestedAt row)) }

def applyLineage (row : ArtifactRow) (a : Artifact) : Artifact :=
  { a with
    lineage := if (text row.lineage.lineageId).isSome then row.lineage else a.lineage
    memoryScope := row.memoryScope.or a.memoryScope
    conversationId := row.conversationId.or a.conversationId }

/-- The node a row is written to; a node that is created starts blank. -/
def written (c : Settings) (row : ArtifactRow) (a : Artifact) : Artifact :=
  applyLineage row (overwrite c row a)

/-- Whether a row is taken into the graph.  A node without a time goes to the `CREATE`,
which the graph refuses. -/
def takes (force : Bool) (row : ArtifactRow) (existing : Option Artifact) : Bool :=
  match existing with
  | none => true
  | some a =>
    match localUpdated a with
    | none => false
    | some localTime => force || decide (localTime < remoteUpdated row)

/-- One row of the artifacts loop, over the graph and `applied_ids`. -/
def importArtifact (c : Settings) (force : Bool) (skipped : String → Bool)
    (acc : Dict String Artifact × List String) (row : ArtifactRow) :
    Dict String Artifact × List String :=
  match text row.id with
  | none => acc
  | some id =>
    if skipped id then acc
    else if takes force row (acc.1.get? id) then
      (acc.1.set id (written c row ((acc.1.get? id).getD .blank)), acc.2 ++ [id])
    else acc

/-- The artifacts loop of `import_neo4j`. -/
def importArtifacts (c : Settings) (force : Bool) (skipped : String → Bool)
    (rows : List ArtifactRow) (artifacts : Dict String Artifact) :
    Dict String Artifact × List String :=
  rows.foldl (importArtifact c force skipped) (artifacts, [])

/-- `_forgotten_transcript_artifact_ids`. -/
def forgottenTranscripts (reg : Index) (f : Folder) : List String :=
  ((f.vectors conversationsDomain).getD []).filterMap (fun row =>
    if isForgottenTranscript reg row.metadata then text row.metadata.artifactId else none)

/-- The artifacts that the loop passes over. -/
def passedOver (reg : Index) (f : Folder) (skip : List String) (id : String) : Bool :=
  id ∈ skip || id ∈ forgottenTranscripts reg f || isForgottenArtifact reg id

/-- One row of the relationships loop. -/
def importRelationship (c : Settings) (artifacts : Dict String Artifact)
    (relationships : Dict (String × String × String) Relation) (row : RelationRow) :
    Dict (String × String × String) Relation :=
  match text row.sourceId, text row.targetId, text row.relType with
  | some source, some target, some rel =>
    if rel ∈ c.relationshipTypes ∧ (artifacts.get? source).isSome ∧
        (artifacts.get? target).isSome then
      relationships.setDefault (source, target, rel)
        { row.props with createdAt := orText row.props.createdAt (some c.now) }
    else relationships
  | _, _, _ => relationships

/-- `import_neo4j`: the stores it leaves and `applied_ids`. -/
def importNeo4j (c : Settings) (reg : Index) (f : Folder) (force : Bool)
    (strategy : ConflictStrategy) (s : Stores) : Stores × List String :=
  let skip := skipIds strategy f.lastExportedAt s.artifacts f.artifacts
  let imported := importArtifacts c force (passedOver reg f skip) f.artifacts s.artifacts
  ({ s with
    artifacts := imported.1
    relationships := f.relationships.foldl (importRelationship c imported.1) s.relationships },
    imported.2)

/-! ## Passages -/

/-- The metadata of a held passage once `_ROW_VERSION_KEYS` of a row are taken. -/
def updateVersion (m row : Meta) : Meta :=
  { m with
    lineage := row.lineage.over m.lineage
    versionClosed := row.versionClosed.or m.versionClosed }

/-- Whether the version of a held passage is taken from a row. -/
def updatesPassage (reg : Index) (applied : List String) (rowId : String) (m : Meta) : Bool :=
  let owner := m.artifactId.getD ""
  owner ∈ applied && chunkArtifactId rowId == some owner && !isForgottenChunk reg rowId m

/-- One row of `import_chroma`, over the passages of the domain and what was written.
A passage that is added again keeps its row. -/
def importPassage (reg : Index) (applied existing : List String) (domain : String)
    (acc : Dict String VectorRow × List Written) (row : VectorFileRow) :
    Dict String VectorRow × List Written :=
  match text row.id with
  | none => acc
  | some id =>
    if id ∈ existing then
      if updatesPassage reg applied id row.metadata then
        match acc.1.get? id with
        | some held =>
          (acc.1.set id { held with metadata := updateVersion held.metadata row.metadata },
            acc.2 ++ [.passage domain id row.metadata])
        | none => acc
      else acc
    else if isForgottenRow reg id row.metadata ∨ row.embedding = [] then acc
    else
      (acc.1.setDefault id
          { document := row.document, metadata := row.metadata, embedding := row.embedding },
        acc.2 ++ [.passage domain id row.metadata])

/-- The rows of one domain. -/
def importPassages (reg : Index) (force : Bool) (applied : List String) (domain : String)
    (rows : List VectorFileRow) (held : Dict String VectorRow) :
    Dict String VectorRow × List Written :=
  rows.foldl (importPassage reg applied (if force then [] else held.keys) domain) (held, [])

def importChroma (c : Settings) (reg : Index) (f : Folder) (force : Bool) (applied : List String)
    (s : Stores) : Stores × List Written :=
  ({ s with
    vectors := fun d =>
      if d ∈ c.domains then
        (importPassages reg force applied d ((f.vectors d).getD []) (s.vectors d)).1
      else s.vectors d },
    c.domains.flatMap (fun d =>
      (importPassages reg force applied d ((f.vectors d).getD []) (s.vectors d)).2))

/-! ## Keyword corpora and the audit log -/

/-- The rows of a file that `import_bm25` appends to a corpus. -/
def newLexicalRows (reg : Index) (corpus rows : List LexicalRow) : List LexicalRow :=
  let existing := corpus.filterMap LexicalRow.key
  rows.filter (fun row =>
    row.key.any (fun id => decide (id ∉ existing) && !isForgottenLexicalRow reg id))

/-- One file of `import_bm25`. -/
def mergeCorpus (reg : Index) (corpora : Dict String (List LexicalRow))
    (file : String × List LexicalRow) : Dict String (List LexicalRow) :=
  let corpus := (corpora.get? file.1).getD []
  corpora.set file.1 (corpus ++ newLexicalRows reg corpus file.2)

def importBm25 (reg : Index) (f : Folder) (s : Stores) : Stores × List Written :=
  ({ s with corpora := f.bm25.items.foldl (mergeCorpus reg) s.corpora },
    f.bm25.items.flatMap (fun file =>
      (newLexicalRows reg ((s.corpora.get? file.1).getD []) file.2).filterMap (fun row =>
        row.key.map (.lexicalRow file.1))))

def LogLine.key : LogLine → Option (Option String × Option String)
  | .entry e => some e.key
  | .malformed _ => none

/-- The entries of a file that `import_redis` adds to the list. -/
def newLogEntries (log : List LogLine) (rows : List LogEntry) : List LogEntry :=
  rows.filter (fun row => row.key ∉ log.filterMap LogLine.key)

/-- The entries pushed and the list trimmed; the first entry of the file ends up in
front. -/
def pushLog (logMax : Nat) (entries : List LogEntry) (log : List LogLine) : List LogLine :=
  if entries = [] then log else (entries.map LogLine.entry ++ log).take logMax

def importRedis (c : Settings) (f : Folder) (s : Stores) : Stores × List Written :=
  match f.auditLog with
  | none => (s, [])
  | some rows =>
    ({ s with log := pushLog c.logMax (newLogEntries s.log rows) s.log },
      (newLogEntries s.log rows).map .logEntry)

/-! ## Memories, facts and conversation edges -/

/-- `_with_lineage_cleared`, merged into the node: an exported lineage is taken whole. -/
def mergeMemory (row m : Memory) : Memory :=
  { updatedAt := row.updatedAt.or m.updatedAt
    lineage :=
      if (text row.lineage.lineageId).isSome then row.lineage else row.lineage.over m.lineage
    content := row.content.or m.content }

/-- `m.updated_at IS NULL OR $updated IS NULL OR $updated >= m.updated_at`. -/
def memoryNewer (row m : Memory) : Bool :=
  m.updatedAt.all (fun held => row.updatedAt.all (fun updated => decide (held ≤ updated)))

/-- One row of the memories loop. -/
def importMemory (reg : Index) (acc : Dict String Memory × List Written) (row : MemoryRow) :
    Dict String Memory × List Written :=
  match text row.id, row.props with
  | some id, some props =>
    if isForgotten reg .memory id then acc
    else
      let m := (acc.1.get? id).getD { updatedAt := none, lineage := .blank, content := none }
      (acc.1.set id (if memoryNewer props m then mergeMemory props m else m),
        acc.2 ++ [.memory id])
  | _, _ => acc

def addUnless {α : Type} [DecidableEq α] (xs : List α) (x : α) : List α :=
  if x ∈ xs then xs else xs ++ [x]

/-- One row of the memory edges loop.  An edge to a conversation makes the conversation. -/
def importMemoryEdge (acc : Stores × List Written) (row : EdgeRow) : Stores × List Written :=
  match text row.sourceId, text row.relType, text row.targetId with
  | some source, some rel, some target =>
    if (acc.1.memories.get? source).isNone then acc
    else if rel = "EXTRACTED_FROM" then
      ({ acc.1 with
        conversations := addUnless acc.1.conversations target
        memoryEdges := addUnless acc.1.memoryEdges (source, rel, target) },
        acc.2 ++ [.memoryConversation source target])
    else if rel = "RELATES_TO" ∧ (acc.1.artifacts.get? target).isSome then
      ({ acc.1 with memoryEdges := addUnless acc.1.memoryEdges (source, rel, target) }, acc.2)
    else acc
  | _, _, _ => acc

def importMemories (reg : Index) (f : Folder) (s : Stores) : Stores × List Written :=
  let memories := f.memories.foldl (importMemory reg) (s.memories, [])
  f.memoryEdges.foldl importMemoryEdge ({ s with memories := memories.1 }, memories.2)

/-- One row of `import_facts`. -/
def importFact (reg : Index) (applied : List String) (acc : Stores × List Written)
    (row : FactRow) : Stores × List Written :=
  match text row.uid, text row.props.source with
  | some uid, some source =>
    if source ∉ applied ∨ isForgottenArtifact reg source ∨
        (acc.1.artifacts.get? source).isNone then acc
    else
      let held := (acc.1.facts.get? uid).getD
        { source := none, validTo := none, invalidAt := none, closedBy := none, content := none }
      let fact := { row.props with content := row.props.content.or held.content }
      ({ acc.1 with facts := acc.1.facts.set uid fact }, acc.2 ++ [.fact uid source])
  | _, _ => acc

def importFacts (reg : Index) (f : Folder) (applied : List String) (s : Stores) :
    Stores × List Written :=
  f.facts.foldl (importFact reg applied) (s, [])

def conversationEdgeTypes : List String := ["EXTRACTED_FROM", "UPLOADED_IN"]

/-- One row of `import_conversation_edges`. -/
def importConversationEdge (reg : Index) (acc : Stores × List Written) (row : EdgeRow) :
    Stores × List Written :=
  match text row.sourceId, row.relType, text row.targetId with
  | some aid, some rel, some cid =>
    if rel ∉ conversationEdgeTypes ∨ isForgottenArtifact reg aid ∨
        isForgotten reg .conversation cid ∨ (acc.1.artifacts.get? aid).isNone then acc
    else
      ({ acc.1 with
        conversations := addUnless acc.1.conversations cid
        conversationEdges := addUnless acc.1.conversationEdges (aid, rel, cid) },
        acc.2 ++ [.conversationEdge aid cid])
  | _, _, _ => acc

def importConversationEdges (reg : Index) (f : Folder) (s : Stores) : Stores × List Written :=
  f.conversationEdges.foldl (importConversationEdge reg) (s, [])

/-! ## All of it -/

/-- `import_all`: the stores it leaves and what it wrote. -/
def importAll (c : Settings) (reg : Index) (f : Folder) (force : Bool)
    (strategy : ConflictStrategy) (s : Stores) : Stores × List Written :=
  let neo4j := importNeo4j c reg f force strategy (applyTombstones c f.tombstones s)
  let chroma := importChroma c reg f force neo4j.2 neo4j.1
  let bm25 := importBm25 reg f chroma.1
  let memories := importMemories reg f bm25.1
  let facts := importFacts reg f neo4j.2 memories.1
  let edges := importConversationEdges reg f facts.1
  let redis := importRedis c f edges.1
  (redis.1, neo4j.2.map Written.artifact ++ (chroma.2 ++ (bm25.2 ++ (memories.2 ++
    (facts.2 ++ (edges.2 ++ redis.2))))))

/-! ## The artifacts loop -/

variable {c : Settings} {force : Bool} {skipped : String → Bool}

theorem importArtifact_cases (acc : Dict String Artifact × List String) (row : ArtifactRow) :
    (∃ id, text row.id = some id ∧ skipped id = false ∧
      takes force row (acc.1.get? id) = true ∧
      importArtifact c force skipped acc row =
        (acc.1.set id (written c row ((acc.1.get? id).getD .blank)), acc.2 ++ [id])) ∨
    ((∀ id, text row.id = some id → skipped id = false →
      takes force row (acc.1.get? id) = false) ∧ importArtifact c force skipped acc row = acc) := by
  unfold importArtifact
  cases hid : text row.id with
  | none => exact Or.inr ⟨fun id h => absurd h (by simp), rfl⟩
  | some id =>
    show _ ∨ _ ∧ (if skipped id = true then _ else _) = acc
    by_cases hs : skipped id = true
    · refine Or.inr ⟨fun id' h hs' => ?_, if_pos hs⟩
      rw [Option.some.injEq] at h
      rw [← h, hs] at hs'
      exact absurd hs' (by simp)
    · rw [Bool.not_eq_true] at hs
      by_cases ht : takes force row (acc.1.get? id) = true
      · exact Or.inl ⟨id, rfl, hs, ht, by simp [hs, ht]⟩
      · refine Or.inr ⟨fun id' h _ => ?_, by simp [hs, ht]⟩
        rw [Option.some.injEq] at h
        rw [← h]
        exact Bool.not_eq_true _ ▸ ht

/-- The loop takes an artifact when one of its rows is taken into the graph it starts
from. -/
theorem mem_importArtifacts {rows : List ArtifactRow} {acc : Dict String Artifact × List String}
    {id : String} :
    id ∈ (rows.foldl (importArtifact c force skipped) acc).2 ↔
      id ∈ acc.2 ∨ ∃ row ∈ rows, text row.id = some id ∧ skipped id = false ∧
        takes force row (acc.1.get? id) = true := by
  induction rows generalizing acc with
  | nil => simp
  | cons row rest ih =>
    rw [List.foldl_cons, ih, List.exists_mem_cons_iff, ← or_assoc]
    rcases @importArtifact_cases c force skipped acc row with ⟨id', hid, hs, ht, heq⟩ | ⟨hno, heq⟩
    · rw [heq]
      by_cases h : id = id'
      · subst h
        simp [hid, hs, ht]
      · have hrow : ¬ (text row.id = some id ∧ skipped id = false ∧
            takes force row (acc.1.get? id) = true) := by
          rw [hid, Option.some.injEq]
          exact fun hand => h hand.1.symm
        simp [h, hrow]
    · have hrow : ¬ (text row.id = some id ∧ skipped id = false ∧
          takes force row (acc.1.get? id) = true) := by
        intro hand
        rw [hno id hand.1 hand.2.1] at hand
        exact absurd hand.2.2 (by simp)
      rw [heq, or_iff_left hrow]

theorem isSome_importArtifacts {rows : List ArtifactRow}
    {acc : Dict String Artifact × List String} (hacc : ∀ id ∈ acc.2, (acc.1.get? id).isSome)
    {id : String} :
    ((rows.foldl (importArtifact c force skipped) acc).1.get? id).isSome ↔
      (acc.1.get? id).isSome ∨ id ∈ (rows.foldl (importArtifact c force skipped) acc).2 := by
  induction rows generalizing acc with
  | nil => exact ⟨Or.inl, fun h => h.elim (fun h => h) (hacc id)⟩
  | cons row rest ih =>
    rw [List.foldl_cons]
    rcases @importArtifact_cases c force skipped acc row with
      ⟨id', hid, hs, ht, heq⟩ | ⟨hno, heq⟩
    · have hacc' : ∀ i ∈ (importArtifact c force skipped acc row).2,
          ((importArtifact c force skipped acc row).1.get? i).isSome := by
        intro i hi
        rw [heq, List.mem_append, List.mem_singleton] at hi
        rw [heq, Dict.get?_set]
        by_cases h : i = id'
        · simp [h]
        · rw [if_neg h]
          exact hacc i (hi.resolve_right h)
      have hmem : id' ∈ (rest.foldl (importArtifact c force skipped)
          (importArtifact c force skipped acc row)).2 := by
        rw [mem_importArtifacts, heq]
        simp
      rw [ih hacc', heq, Dict.get?_set, ← heq]
      by_cases h : id = id'
      · subst h
        simp [hmem]
      · rw [if_neg h]
    · rw [heq]
      exact ih hacc

end Cerid.Sync

/-!
# Exporting into the folder

`export_all` writes one file a store.  A file is rewritten by each export, except that
keyword corpora are copied file by file and tombstones are merged; only the artifacts
and the passages are narrowed to what changed since a time.  No export here is limited
to some domains.
-/

namespace Cerid.Sync

/-- A property that a query returns: `null` where the node lacks it. -/
def Cell.ofOption {α : Type} : Option α → Cell α
  | none => .null
  | some a => .value a

/-- The row of an artifact node. -/
def Artifact.row (id : String) (a : Artifact) : ArtifactRow where
  id := some id
  filename := .ofOption a.filename
  domain := .ofOption a.domain
  keywords := .ofOption a.keywords
  summary := .ofOption a.summary
  chunkCount := .ofOption a.chunkCount
  chunkIds := .ofOption a.chunkIds
  contentHash := .ofOption a.contentHash
  ingestedAt := a.ingestedAt
  modifiedAt := a.modifiedAt
  recategorizedAt := a.recategorizedAt
  updatedAt := a.updatedAt
  lineage := a.lineage
  memoryScope := a.memoryScope
  conversationId := a.conversationId

/-- `coalesce(a.updated_at, a.ingested_at) > $since`, when there is a `since`. -/
def changedSince (since : Option String) (a : Artifact) : Bool :=
  (text since).all (fun t => (a.updatedAt.or a.ingestedAt).any (fun u => decide (t < u)))

/-- The artifacts of `export_neo4j`. -/
def exportArtifacts (since : Option String) (artifacts : Dict String Artifact) :
    List ArtifactRow :=
  (artifacts.items.filter (fun p => changedSince since p.2)).map (fun p => p.2.row p.1)

/-- The relationships of `export_neo4j`. -/
def exportRelationships (c : Settings) (s : Stores) : List RelationRow :=
  (s.relationships.items.filter (fun p => p.1.2.2 ∈ c.relationshipTypes)).map (fun p =>
    { sourceId := some p.1.1, targetId := some p.1.2.1, relType := some p.1.2.2, props := p.2 })

/-- The passages of one collection, or those of some artifacts. -/
def exportPassages (artifactIds : Option (List String)) (rows : Dict String VectorRow) :
    List VectorFileRow :=
  (rows.items.filter (fun p =>
    artifactIds.all (fun ids => p.2.metadata.artifactId.getD "" ∈ ids))).map (fun p =>
      { id := some p.1, document := p.2.document, metadata := p.2.metadata,
        embedding := p.2.embedding })

def edgeRow (e : String × String × String) : EdgeRow :=
  { sourceId := some e.1, relType := some e.2.1, targetId := some e.2.2 }

/-- `export_redis`: oldest first, without what is not JSON. -/
def exportLog (log : List LogLine) : List LogEntry :=
  log.reverse.filterMap (fun line =>
    match line with
    | .entry e => some e
    | .malformed _ => none)

/-- The tombstone has not expired. -/
def unexpired (c : Settings) (t : Tombstone) : Bool :=
  t.deletedAt.any (fun deletedAt => decide (c.instant < deletedAt + c.ttl))

/-- `export_tombstones`: the records of the folder, and the machine's own for the
artifacts that have none there. -/
def exportTombstones (c : Settings) (own shared : List Tombstone) : List Tombstone :=
  let existing := shared.foldl (fun acc t =>
    match text t.artifactId with
    | some id => if unexpired c t then acc.set id t else acc
    | none => acc) (.empty : Dict String Tombstone)
  (own.foldl (fun acc t =>
    match text t.artifactId with
    | some id => if (acc.get? id).isNone ∧ unexpired c t then acc.set id t else acc
    | none => acc) existing).values

/-- `export_all`: the folder it leaves. -/
def exportAll (c : Settings) (since : Option String) (s : Stores) (f : Folder) : Folder where
  lastExportedAt := some c.now
  tombstones := exportTombstones c s.tombstoneLog f.tombstones
  artifacts := exportArtifacts since s.artifacts
  relationships := exportRelationships c s
  memories := s.memories.items.map (fun p => { id := some p.1, props := some p.2 })
  memoryEdges := s.memoryEdges.map edgeRow
  facts := s.facts.items.map (fun p => { uid := some p.1, props := p.2 })
  conversationEdges := (s.conversationEdges.filter (fun e => e.2.1 ∈ conversationEdgeTypes)).map edgeRow
  vectors := fun d =>
    if d ∈ c.domains then
      some (exportPassages ((text since).map (fun _ =>
        (exportArtifacts since s.artifacts).filterMap (fun row => row.id))) (s.vectors d))
    else f.vectors d
  bm25 := f.bm25.merge s.corpora
  auditLog := some (exportLog s.log)

end Cerid.Sync
