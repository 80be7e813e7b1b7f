import Cerid.Lib.Run
import Cerid.Sync.Import

/-!
# What an import revives

The vector import asks the registry about every subject of a passage.  The other paths
ask about fewer: a keyword row names neither its parent passage nor its conversation,
and nothing is asked about an audit entry or about the ends of a memory's edge.
-/

namespace Cerid.Sync

open Forget (Kind Subject Index)

/-! ## What belongs to a subject -/

/-- The passages of the export and of the machine, by id. -/
def knownPassages (c : Settings) (f : Folder) (s : Stores) : List (String × Meta) :=
  c.domains.flatMap (fun d =>
    ((f.vectors d).getD []).filterMap (fun row => (text row.id).map (fun id => (id, row.metadata)))
      ++ (s.vectors d).items.map (fun p => (p.1, p.2.metadata)))

/-- The conversations that an artifact is a transcript of. -/
def transcriptsOf (known : List (String × Meta)) (artifactId : String) : List Subject :=
  known.flatMap (fun p =>
    if p.2.artifactId = some artifactId then
      Subject.ofOption .conversation (transcriptConversation p.2)
    else [])

/-- An artifact, and the conversations it is a transcript of. -/
def artifactSubjects (known : List (String × Meta)) (artifactId : String) : List Subject :=
  { kind := .artifact, id := artifactId } :: transcriptsOf known artifactId

/-- What is known of a passage beyond its id: the subjects of its rows, and the
conversations its artifact is a transcript of. -/
def passageContext (known : List (String × Meta)) (rowId : String) : List Subject :=
  (chunkArtifactId rowId).toList.flatMap (transcriptsOf known) ++
    known.flatMap (fun p => if p.1 = rowId then passageSubjects p.1 p.2 else [])

/-- The subjects that a row or node belongs to. -/
def subjects (known : List (String × Meta)) : Written → List Subject
  | .artifact id => artifactSubjects known id
  | .passage _ rowId m => passageSubjects rowId m
  | .lexicalRow _ rowId =>
    { kind := .chunk, id := rowId } ::
      (Subject.ofOption .artifact (chunkArtifactId rowId) ++ passageContext known rowId)
  | .memory id => [{ kind := .memory, id }]
  | .memoryConversation memory conversation =>
    [{ kind := .memory, id := memory }, { kind := .conversation, id := conversation }]
  | .fact _ source => artifactSubjects known source
  | .conversationEdge artifact conversation =>
    { kind := .conversation, id := conversation } :: artifactSubjects known artifact
  | .logEntry e => (e.artifactId.getD "").toList.flatMap (artifactSubjects known)

/-- No row or node that the import created or updated belongs to a forgotten subject. -/
def NothingRevived (c : Settings) (reg : Index) (f : Folder) (force : Bool)
    (strategy : ConflictStrategy) (s : Stores) : Prop :=
  ∀ w ∈ (importAll c reg f force strategy s).2,
    anyForgotten reg (subjects (knownPassages c f s) w) = false

instance (c : Settings) (reg : Index) (f : Folder) (force : Bool) (strategy : ConflictStrategy)
    (s : Stores) : Decidable (NothingRevived c reg f force strategy s) :=
  inferInstanceAs (Decidable (∀ w ∈ _, _))

/-! ## The rows each path takes -/

section Paths

variable (c : Settings) (reg : Index) (f : Folder) (force : Bool) (strategy : ConflictStrategy)
  (s : Stores)

/-- The stores that the import paths start from: the deletions are applied. -/
def base : Stores := applyTombstones c f.tombstones s

/-- The export has a row of the artifact that the graph takes. -/
def Taken (id : String) : Prop :=
  ∃ row ∈ f.artifacts, text row.id = some id ∧
    passedOver reg f
      (skipIds strategy f.lastExportedAt (base c f s).artifacts f.artifacts) id = false ∧
    takes force row ((base c f s).artifacts.get? id) = true

/-- The machine has the verified memory, or the export has it and it is not forgotten. -/
def HoldsMemory (id : String) : Prop :=
  ((base c f s).memories.get? id).isSome ∨
    ∃ row ∈ f.memories, text row.id = some id ∧ row.props.isSome ∧
      isForgotten reg .memory id = false

/-- The export has no row of a forgotten subject that the path which takes it does not
ask about. -/
structure Spared : Prop where
  /-- `import_neo4j` knows transcripts from the rows of the conversations domain only. -/
  artifacts : ∀ id, Taken c reg f force strategy s id →
    anyForgotten reg (transcriptsOf (knownPassages c f s) id) = false
  /-- `import_chroma` asks of a held passage that it updates about its chunks only. -/
  passages : force = false → ∀ d ∈ c.domains, ∀ row ∈ (f.vectors d).getD [], ∀ id,
    text row.id = some id → id ∈ ((base c f s).vectors d).keys →
    Taken c reg f force strategy s (row.metadata.artifactId.getD "") →
    chunkArtifactId id = some (row.metadata.artifactId.getD "") →
    isForgottenChunk reg id row.metadata = false →
    isForgottenVerifiedMemory reg id row.metadata = false
  /-- `import_bm25` asks about what the chunk id alone names. -/
  lexicalRows : ∀ file ∈ f.bm25.items, ∀ row ∈ file.2, ∀ id, row.key = some id →
    id ∉ (((base c f s).corpora.get? file.1).getD []).filterMap LexicalRow.key →
    isForgottenLexicalRow reg id = false →
    anyForgotten reg (passageContext (knownPassages c f s) id) = false
  /-- `import_memories` asks nothing about the ends of an edge. -/
  memoryEdges : ∀ row ∈ f.memoryEdges, ∀ memory conversation,
    text row.sourceId = some memory → text row.relType = some "EXTRACTED_FROM" →
    text row.targetId = some conversation → HoldsMemory c reg f s memory →
    isForgotten reg .memory memory = false ∧ isForgotten reg .conversation conversation = false
  /-- `import_conversation_edges` does not know which artifacts are transcripts. -/
  conversationEdges : ∀ row ∈ f.conversationEdges, ∀ artifact rel conversation,
    text row.sourceId = some artifact → row.relType = some rel → rel ∈ conversationEdgeTypes →
    text row.targetId = some conversation → isForgottenArtifact reg artifact = false →
    isForgotten reg .conversation conversation = false →
    ((base c f s).artifacts.get? artifact).isSome →
    anyForgotten reg (transcriptsOf (knownPassages c f s) artifact) = false
  /-- `import_redis` asks nothing. -/
  log : ∀ e ∈ f.auditLog.getD [], e.key ∉ (base c f s).log.filterMap LogLine.key →
    ∀ artifact, e.artifactId.getD "" = some artifact →
    anyForgotten reg (artifactSubjects (knownPassages c f s) artifact) = false

end Paths

/-! ## What each path writes -/

variable {c : Settings} {reg : Index} {f : Folder} {force : Bool} {strategy : ConflictStrategy}
  {s : Stores}

theorem mem_importNeo4j {id : String} :
    id ∈ (importNeo4j c reg f force strategy (base c f s)).2 ↔ Taken c reg f force strategy s id := by
  show id ∈ (f.artifacts.foldl _ ((base c f s).artifacts, [])).2 ↔ _
  rw [mem_importArtifacts]
  simp [Taken]

theorem isSome_importNeo4j {id : String} :
    ((importNeo4j c reg f force strategy (base c f s)).1.artifacts.get? id).isSome ↔
      ((base c f s).artifacts.get? id).isSome ∨ Taken c reg f force strategy s id := by
  rw [← mem_importNeo4j]
  exact isSome_importArtifacts fun id h => absurd h List.not_mem_nil

/-- What a row of a vector file makes `import_chroma` write. -/
def passageWritten (reg : Index) (applied existing : List String) (domain : String)
    (row : VectorFileRow) : List Written :=
  match text row.id with
  | none => []
  | some id =>
    if id ∈ existing then
      if updatesPassage reg applied id row.metadata then [.passage domain id row.metadata] else []
    else if isForgottenRow reg id row.metadata ∨ row.embedding = [] then []
    else [.passage domain id row.metadata]

theorem importPassage_journal {applied existing : List String} {domain : String}
    (acc : Dict String VectorRow × List Written) (row : VectorFileRow)
    (h : ∀ id ∈ existing, (acc.1.get? id).isSome) :
    (∀ id ∈ existing, ((importPassage reg applied existing domain acc row).1.get? id).isSome) ∧
      (importPassage reg applied existing domain acc row).2 =
        acc.2 ++ passageWritten reg applied existing domain row := by
  unfold importPassage passageWritten
  cases hid : text row.id with
  | none => exact ⟨h, (List.append_nil _).symm⟩
  | some id =>
    by_cases hex : id ∈ existing
    · simp only [hex, if_true]
      by_cases hup : updatesPassage reg applied id row.metadata = true
      · obtain ⟨held, hheld⟩ := Option.isSome_iff_exists.mp (h id hex)
        simp only [hup, if_true, hheld, and_true]
        intro id' hid'
        rw [Dict.get?_set]
        split
        · rfl
        · exact h id' hid'
      · simp only [hup, if_false, List.append_nil, and_true, Bool.false_eq_true]
        exact h
    · simp only [hex, if_false]
      by_cases hno : isForgottenRow reg id row.metadata = true ∨ row.embedding = []
      · simp only [hno, if_true, List.append_nil, and_true]
        exact h
      · simp only [hno, if_false, and_true]
        intro id' hid'
        have hne : id' ≠ id := fun e => hex (e ▸ hid')
        rw [Dict.get?_setDefault, if_neg hne]
        exact h id' hid'

theorem mem_importChroma {applied : List String} {w : Written} :
    w ∈ (importChroma c reg f force applied s).2 ↔
      ∃ d ∈ c.domains, ∃ row ∈ (f.vectors d).getD [],
        w ∈ passageWritten reg applied (if force then [] else (s.vectors d).keys) d row := by
  rw [importChroma, List.mem_flatMap]
  refine exists_congr fun d => and_congr_right fun _ => ?_
  have hheld : ∀ id ∈ (if force then [] else (s.vectors d).keys), ((s.vectors d).get? id).isSome := by
    intro id hid
    cases force with
    | true => exact absurd hid List.not_mem_nil
    | false =>
      obtain ⟨v, hv⟩ := (Dict.mem_keys_iff _ _).mp hid
      rw [hv]
      rfl
  have hout := (foldl_journal
    (fun held : Dict String VectorRow =>
      ∀ id ∈ (if force then [] else (s.vectors d).keys), (held.get? id).isSome)
    (passageWritten reg applied (if force then [] else (s.vectors d).keys) d)
    (fun acc row h => importPassage_journal acc row h) (s.vectors d, []) hheld
    ((f.vectors d).getD [])).2
  rw [importPassages, hout, List.nil_append, List.mem_flatMap]

theorem mem_importBm25 {w : Written} :
    w ∈ (importBm25 reg f s).2 ↔
      ∃ file ∈ f.bm25.items, ∃ row ∈ file.2, ∃ id, row.key = some id ∧
        id ∉ ((s.corpora.get? file.1).getD []).filterMap LexicalRow.key ∧
        isForgottenLexicalRow reg id = false ∧ w = .lexicalRow file.1 id := by
  simp only [importBm25, newLexicalRows, List.mem_flatMap, List.mem_filterMap, List.mem_filter]
  refine exists_congr fun file => and_congr_right fun _ => exists_congr fun row => ?_
  cases row.key with
  | none => simp
  | some id =>
    simp only [Option.any_some, Bool.and_eq_true, decide_eq_true_eq, Bool.not_eq_true',
      Option.map_some, Option.some.injEq, exists_eq_left', and_assoc]
    rw [eq_comm (a := Written.lexicalRow file.1 id)]

/-- What a row of a memory file makes the loop write. -/
def memoryWritten (reg : Index) (row : MemoryRow) : List Written :=
  match text row.id, row.props with
  | some id, some _ => if isForgotten reg .memory id then [] else [.memory id]
  | _, _ => []

theorem importMemory_journal (acc : Dict String Memory × List Written) (row : MemoryRow) :
    (importMemory reg acc row).2 = acc.2 ++ memoryWritten reg row := by
  unfold importMemory memoryWritten
  cases text row.id with
  | none => exact (List.append_nil _).symm
  | some id =>
    cases row.props with
    | none => exact (List.append_nil _).symm
    | some props =>
      by_cases h : isForgotten reg .memory id = true
      · simp [h]
      · simp [h]

theorem mem_memoryWritten {row : MemoryRow} {w : Written} :
    w ∈ memoryWritten reg row ↔ ∃ id, text row.id = some id ∧ row.props.isSome ∧
      isForgotten reg .memory id = false ∧ w = .memory id := by
  unfold memoryWritten
  cases text row.id with
  | none => simp
  | some id =>
    cases row.props with
    | none => simp
    | some props => by_cases h : isForgotten reg .memory id = true <;> simp [h]

theorem isSome_importMemory (rows : List MemoryRow) (acc : Dict String Memory × List Written)
    (id : String) :
    ((rows.foldl (importMemory reg) acc).1.get? id).isSome ↔
      (acc.1.get? id).isSome ∨ ∃ row ∈ rows, text row.id = some id ∧ row.props.isSome ∧
        isForgotten reg .memory id = false := by
  induction rows generalizing acc with
  | nil => simp
  | cons row rest ih =>
    rw [List.foldl_cons, ih, List.exists_mem_cons_iff, ← or_assoc]
    refine or_congr_left ?_
    unfold importMemory
    cases hid : text row.id with
    | none => simp
    | some id' =>
      cases row.props with
      | none => simp
      | some props =>
        by_cases hf : isForgotten reg .memory id' = true
        · have hno : ¬ (id' = id ∧ isForgotten reg .memory id = false) := by
            intro h
            rw [← h.1, hf] at h
            exact absurd h.2 (by simp)
          simp [hf, hno]
        · by_cases h : id = id'
          · subst h
            simp [hf]
          · have h' : ¬ id' = id := fun e => h e.symm
            simp [hf, h, h']

/-- What a row of a memory edge file makes the loop write, over the memories held. -/
def memoryEdgeWritten (memories : Dict String Memory) (row : EdgeRow) : List Written :=
  match text row.sourceId, text row.relType, text row.targetId with
  | some source, some rel, some target =>
    if (memories.get? source).isSome ∧ rel = "EXTRACTED_FROM" then
      [.memoryConversation source target]
    else []
  | _, _, _ => []

/-- The stores that the later paths read are as they were. -/
def SameBase (s s' : Stores) : Prop :=
  s'.artifacts = s.artifacts ∧ s'.memories = s.memories ∧ s'.log = s.log

theorem importMemoryEdge_journal (acc : Stores × List Written) (row : EdgeRow)
    (h : SameBase s acc.1) :
    SameBase s (importMemoryEdge acc row).1 ∧
      (importMemoryEdge acc row).2 = acc.2 ++ memoryEdgeWritten s.memories row := by
  unfold importMemoryEdge memoryEdgeWritten
  cases text row.sourceId with
  | none => exact ⟨h, (List.append_nil _).symm⟩
  | some source =>
    cases text row.relType with
    | none => exact ⟨h, (List.append_nil _).symm⟩
    | some rel =>
      cases text row.targetId with
      | none => exact ⟨h, (List.append_nil _).symm⟩
      | some target =>
        cases hm : s.memories.get? source with
        | none => simpa [h.2.1, hm] using h
        | some m =>
          have hm' : acc.1.memories.get? source = some m := by rw [h.2.1, hm]
          simp only [hm', Option.isNone_some, Bool.false_eq_true, if_false]
          by_cases hrel : rel = "EXTRACTED_FROM"
          · rw [if_pos hrel, if_pos ⟨by rw [hm]; rfl, hrel⟩]
            exact ⟨h, rfl⟩
          · have hnone : (if (s.memories.get? source).isSome ∧ rel = "EXTRACTED_FROM" then
                [Written.memoryConversation source target] else []) = [] :=
              if_neg (fun hand => hrel hand.2)
            rw [if_neg hrel, hnone, List.append_nil]
            split
            · exact ⟨h, rfl⟩
            · exact ⟨h, rfl⟩

theorem mem_memoryEdgeWritten {memories : Dict String Memory} {row : EdgeRow} {w : Written} :
    w ∈ memoryEdgeWritten memories row ↔ ∃ memory conversation,
      text row.sourceId = some memory ∧ text row.relType = some "EXTRACTED_FROM" ∧
      text row.targetId = some conversation ∧ (memories.get? memory).isSome ∧
      w = .memoryConversation memory conversation := by
  unfold memoryEdgeWritten
  cases text row.sourceId with
  | none => simp
  | some source =>
    cases text row.relType with
    | none => simp
    | some rel =>
      cases text row.targetId with
      | none => simp
      | some target =>
        by_cases hrel : rel = "EXTRACTED_FROM"
        · cases hm : memories.get? source with
          | none => simp [hm]
          | some m => simp [hrel, hm]
        · simp [hrel]

theorem importFact_journal {applied : List String} (acc : Stores × List Written) (row : FactRow)
    (h : SameBase s acc.1)
    (hout : ∀ w ∈ acc.2, ∃ uid source, w = .fact uid source ∧ source ∈ applied) :
    SameBase s (importFact reg applied acc row).1 ∧
      ∀ w ∈ (importFact reg applied acc row).2,
        ∃ uid source, w = .fact uid source ∧ source ∈ applied := by
  unfold importFact
  cases text row.uid with
  | none => exact ⟨h, hout⟩
  | some uid =>
    cases text row.props.source with
    | none => exact ⟨h, hout⟩
    | some source =>
      simp only
      split
      · exact ⟨h, hout⟩
      · rename_i hno
        simp only [not_or, not_not] at hno
        refine ⟨h, fun w hw => ?_⟩
        rw [List.mem_append, List.mem_singleton] at hw
        exact hw.elim (hout w) (fun e => ⟨uid, source, e, hno.1⟩)

theorem importFacts_spec {applied : List String} (s : Stores) :
    SameBase s (importFacts reg f applied s).1 ∧
      ∀ w ∈ (importFacts reg f applied s).2,
        ∃ uid source, w = .fact uid source ∧ source ∈ applied :=
  foldl_invariant (importFact reg applied)
    (fun acc => SameBase s acc.1 ∧ ∀ w ∈ acc.2, ∃ uid source, w = .fact uid source ∧ source ∈ applied)
    (p := fun _ => True) (fun acc row h _ => importFact_journal acc row h.1 h.2)
    ⟨⟨rfl, rfl, rfl⟩, fun _ h => absurd h List.not_mem_nil⟩ fun _ _ => trivial

/-- What a row of `conversation_edges.jsonl` makes the import write, over the artifacts
held. -/
def conversationEdgeWritten (reg : Index) (artifacts : Dict String Artifact) (row : EdgeRow) :
    List Written :=
  match text row.sourceId, row.relType, text row.targetId with
  | some aid, some rel, some cid =>
    if rel ∉ conversationEdgeTypes ∨ isForgottenArtifact reg aid ∨
        isForgotten reg .conversation cid ∨ (artifacts.get? aid).isNone then []
    else [.conversationEdge aid cid]
  | _, _, _ => []

theorem importConversationEdge_journal (acc : Stores × List Written) (row : EdgeRow)
    (h : SameBase s acc.1) :
    SameBase s (importConversationEdge reg acc row).1 ∧
      (importConversationEdge reg acc row).2 =
        acc.2 ++ conversationEdgeWritten reg s.artifacts row := by
  unfold importConversationEdge conversationEdgeWritten
  cases text row.sourceId with
  | none => exact ⟨h, (List.append_nil _).symm⟩
  | some aid =>
    cases row.relType with
    | none => exact ⟨h, (List.append_nil _).symm⟩
    | some rel =>
      cases text row.targetId with
      | none => exact ⟨h, (List.append_nil _).symm⟩
      | some cid =>
        simp only [h.1]
        split
        · exact ⟨h, (List.append_nil _).symm⟩
        · exact ⟨⟨rfl, h.2⟩, rfl⟩

theorem mem_conversationEdgeWritten {artifacts : Dict String Artifact} {row : EdgeRow}
    {w : Written} :
    w ∈ conversationEdgeWritten reg artifacts row ↔ ∃ aid rel cid,
      text row.sourceId = some aid ∧ row.relType = some rel ∧ rel ∈ conversationEdgeTypes ∧
      text row.targetId = some cid ∧ isForgottenArtifact reg aid = false ∧
      isForgotten reg .conversation cid = false ∧ (artifacts.get? aid).isSome ∧
      w = .conversationEdge aid cid := by
  unfold conversationEdgeWritten
  cases text row.sourceId with
  | none => simp
  | some aid =>
    cases row.relType with
    | none => simp
    | some rel =>
      cases text row.targetId with
      | none => simp
      | some cid =>
        simp only
        split
        · rename_i h
          simp only [List.not_mem_nil, Option.some.injEq, false_iff, not_exists]
          rintro _ _ _ ⟨rfl, rfl, hrel, rfl, ha, hc, hheld, -⟩
          rw [ha, hc, ← Option.not_isSome] at h
          simp [hrel, hheld] at h
        · rename_i h
          simp only [not_or, not_not, Bool.not_eq_true, Option.isNone_eq_false_iff] at h
          simp [h]

/-- The memories held after the loop over `memories.jsonl`. -/
def mergedMemories (reg : Index) (f : Folder) (s : Stores) : Dict String Memory :=
  (f.memories.foldl (importMemory reg) (s.memories, [])).1

theorem importMemories_spec (s : Stores) :
    SameBase { s with memories := mergedMemories reg f s } (importMemories reg f s).1 ∧
      (importMemories reg f s).2 = f.memories.flatMap (memoryWritten reg) ++
        f.memoryEdges.flatMap (memoryEdgeWritten (mergedMemories reg f s)) := by
  have hmem : (f.memories.foldl (importMemory reg) (s.memories, [])).2 =
      f.memories.flatMap (memoryWritten reg) := by
    have h := (foldl_journal (fun _ : Dict String Memory => True) (memoryWritten reg)
      (fun acc row _ => ⟨trivial, importMemory_journal acc row⟩) (s.memories, []) trivial
      f.memories).2
    rw [h, List.nil_append]
  have hedges := foldl_journal (SameBase { s with memories := mergedMemories reg f s })
    (memoryEdgeWritten (mergedMemories reg f s))
    (fun acc row h => importMemoryEdge_journal acc row h)
    ({ s with memories := mergedMemories reg f s }, f.memories.flatMap (memoryWritten reg))
    ⟨rfl, rfl, rfl⟩ f.memoryEdges
  rw [importMemories, hmem]
  exact hedges

theorem importConversationEdges_spec (s : Stores) :
    SameBase s (importConversationEdges reg f s).1 ∧
      (importConversationEdges reg f s).2 =
        f.conversationEdges.flatMap (conversationEdgeWritten reg s.artifacts) :=
  foldl_journal (SameBase s) (conversationEdgeWritten reg s.artifacts)
    (fun acc row h => importConversationEdge_journal acc row h) (s, []) ⟨rfl, rfl, rfl⟩
    f.conversationEdges

theorem mem_importRedis {w : Written} :
    w ∈ (importRedis c f s).2 ↔
      ∃ e ∈ f.auditLog.getD [], e.key ∉ s.log.filterMap LogLine.key ∧ w = .logEntry e := by
  unfold importRedis
  cases f.auditLog with
  | none => simp
  | some rows => simp [newLogEntries, and_assoc, eq_comm]

/-! ## The whole import -/

section

variable (c : Settings) (reg : Index) (f : Folder) (force : Bool) (strategy : ConflictStrategy)
  (s : Stores)

/-- What `import_all` writes, in terms of the export and of the stores it starts from. -/
inductive Imports : Written → Prop where
  | artifact {id} (htaken : Taken c reg f force strategy s id) : Imports (.artifact id)
  | passage {d row w} (hd : d ∈ c.domains) (hrow : row ∈ (f.vectors d).getD [])
      (hwritten : w ∈ passageWritten reg (importNeo4j c reg f force strategy (base c f s)).2
        (if force then [] else ((base c f s).vectors d).keys) d row) : Imports w
  | lexicalRow {file : String × List LexicalRow} {row id} (hfile : file ∈ f.bm25.items)
      (hrow : row ∈ file.2) (hkey : row.key = some id)
      (hnew : id ∉ (((base c f s).corpora.get? file.1).getD []).filterMap LexicalRow.key)
      (htest : isForgottenLexicalRow reg id = false) : Imports (.lexicalRow file.1 id)
  | memory {row id} (hrow : row ∈ f.memories) (hid : text row.id = some id)
      (hprops : row.props.isSome) (htest : isForgotten reg .memory id = false) :
      Imports (.memory id)
  | memoryConversation {row memory conversation} (hrow : row ∈ f.memoryEdges)
      (hsource : text row.sourceId = some memory)
      (hrel : text row.relType = some "EXTRACTED_FROM")
      (htarget : text row.targetId = some conversation) (hheld : HoldsMemory c reg f s memory) :
      Imports (.memoryConversation memory conversation)
  /-- A fact is only ever written for an artifact that was taken. -/
  | fact {w} (hwritten : w ∈ (importFacts reg f
        (importNeo4j c reg f force strategy (base c f s)).2
        (importMemories reg f (importBm25 reg f (importChroma c reg f force
          (importNeo4j c reg f force strategy (base c f s)).2
          (importNeo4j c reg f force strategy (base c f s)).1).1).1).1).2) : Imports w
  | conversationEdge {row aid rel cid} (hrow : row ∈ f.conversationEdges)
      (hsource : text row.sourceId = some aid) (hrel : row.relType = some rel)
      (hknown : rel ∈ conversationEdgeTypes) (htarget : text row.targetId = some cid)
      (hartifact : isForgottenArtifact reg aid = false)
      (hconversation : isForgotten reg .conversation cid = false)
      (hheld : ((base c f s).artifacts.get? aid).isSome ∨ Taken c reg f force strategy s aid) :
      Imports (.conversationEdge aid cid)
  | logEntry {e} (he : e ∈ f.auditLog.getD [])
      (hnew : e.key ∉ (base c f s).log.filterMap LogLine.key) : Imports (.logEntry e)

end

theorem mem_importAll {w : Written} :
    w ∈ (importAll c reg f force strategy s).2 ↔ Imports c reg f force strategy s w := by
  let neo4j := importNeo4j c reg f force strategy (base c f s)
  let bm25 := importBm25 reg f (importChroma c reg f force neo4j.2 neo4j.1).1
  let memories := importMemories reg f bm25.1
  let facts := importFacts reg f neo4j.2 memories.1
  let edges := importConversationEdges reg f facts.1
  have hmem := @importMemories_spec reg f bm25.1
  have hfacts := (@importFacts_spec reg f neo4j.2 memories.1).1
  have hedges := @importConversationEdges_spec reg f facts.1
  have hart : facts.1.artifacts = neo4j.1.artifacts := hfacts.1.trans hmem.1.1
  have hlog : edges.1.log = (base c f s).log :=
    hedges.1.2.2.trans (hfacts.2.2.trans hmem.1.2.2)
  have hheld : ∀ id, ((mergedMemories reg f bm25.1).get? id).isSome ↔ HoldsMemory c reg f s id :=
    isSome_importMemory f.memories ((base c f s).memories, [])
  have hartifacts : w ∈ neo4j.2.map Written.artifact ↔
      ∃ id, Taken c reg f force strategy s id ∧ w = .artifact id := by
    rw [List.mem_map]
    exact exists_congr fun id => and_congr mem_importNeo4j eq_comm
  have hmemories : w ∈ memories.2 ↔ w ∈ f.memories.flatMap (memoryWritten reg) ∨
      w ∈ f.memoryEdges.flatMap (memoryEdgeWritten (mergedMemories reg f bm25.1)) := by
    rw [hmem.2, List.mem_append]
  have hkeyword := @mem_importBm25 reg f (importChroma c reg f force neo4j.2 neo4j.1).1 w
  have hconversations : w ∈ edges.2 ↔
      w ∈ f.conversationEdges.flatMap (conversationEdgeWritten reg neo4j.1.artifacts) := by
    rw [hedges.2, hart]
  show w ∈ neo4j.2.map Written.artifact ++ ((importChroma c reg f force neo4j.2 neo4j.1).2 ++
    (bm25.2 ++ (memories.2 ++ (facts.2 ++ (edges.2 ++ (importRedis c f edges.1).2))))) ↔ _
  simp only [List.mem_append, hartifacts, hmemories, hconversations, mem_importChroma,
    bm25, hkeyword, mem_importRedis, hlog, List.mem_flatMap, mem_memoryWritten,
    mem_memoryEdgeWritten, hheld, mem_conversationEdgeWritten, neo4j, isSome_importNeo4j]
  constructor
  · rintro (⟨id, htaken, rfl⟩ | ⟨d, hd, row, hrow, hwritten⟩ |
      ⟨file, hfile, row, hrow, id, hkey, hnew, htest, rfl⟩ |
      (⟨row, hrow, id, hid, hprops, htest, rfl⟩ |
        ⟨row, hrow, memory, conversation, hs, hr, ht, hheld, rfl⟩) | hwritten |
      ⟨row, hrow, aid, rel, cid, hs, hr, hrel, ht, ha, hc, hheld, rfl⟩ | ⟨e, he, hnew, rfl⟩)
    · exact .artifact htaken
    · exact .passage hd hrow hwritten
    · exact .lexicalRow hfile hrow hkey hnew htest
    · exact .memory hrow hid hprops htest
    · exact .memoryConversation hrow hs hr ht hheld
    · exact .fact hwritten
    · exact .conversationEdge hrow hs hr hrel ht ha hc hheld
    · exact .logEntry he hnew
  · intro h
    cases h with
    | artifact htaken => exact Or.inl ⟨_, htaken, rfl⟩
    | passage hd hrow hwritten => exact Or.inr (Or.inl ⟨_, hd, _, hrow, hwritten⟩)
    | lexicalRow hfile hrow hkey hnew htest =>
      exact Or.inr (Or.inr (Or.inl ⟨_, hfile, _, hrow, _, hkey, hnew, htest, rfl⟩))
    | memory hrow hid hprops htest =>
      exact Or.inr (Or.inr (Or.inr (Or.inl (Or.inl ⟨_, hrow, _, hid, hprops, htest, rfl⟩))))
    | memoryConversation hrow hs hr ht hheld =>
      exact Or.inr (Or.inr (Or.inr (Or.inl (Or.inr ⟨_, hrow, _, _, hs, hr, ht, hheld, rfl⟩))))
    | fact hwritten => exact Or.inr (Or.inr (Or.inr (Or.inr (Or.inl hwritten))))
    | conversationEdge hrow hs hr hrel ht ha hc hheld =>
      exact Or.inr (Or.inr (Or.inr (Or.inr (Or.inr (Or.inl
        ⟨_, hrow, _, _, _, hs, hr, hrel, ht, ha, hc, hheld, rfl⟩)))))
    | logEntry he hnew =>
      exact Or.inr (Or.inr (Or.inr (Or.inr (Or.inr (Or.inr ⟨_, he, hnew, rfl⟩)))))

/-! ## The paths that ask too little -/

theorem Taken.not_forgotten {id : String} (h : Taken c reg f force strategy s id) :
    isForgottenArtifact reg id = false := by
  obtain ⟨row, -, -, hpass, -⟩ := h
  simp only [passedOver, Bool.or_eq_false_iff] at hpass
  exact hpass.2

theorem Taken.ne_empty {id : String} (h : Taken c reg f force strategy s id) : id ≠ "" := by
  obtain ⟨row, -, hid, -⟩ := h
  exact (text_eq_some.mp hid).2

theorem anyForgotten_artifactSubjects {known : List (String × Meta)} {id : String}
    (h : isForgottenArtifact reg id = false) :
    anyForgotten reg (artifactSubjects known id) = anyForgotten reg (transcriptsOf known id) := by
  rw [artifactSubjects, anyForgotten_cons]
  show (isForgottenArtifact reg id || _) = _
  rw [h, Bool.false_or]

theorem transcript_known {known : List (String × Meta)} {rowId artifactId : String} {m : Meta}
    (hmem : (rowId, m) ∈ known) (hid : m.artifactId = some artifactId)
    (h : anyForgotten reg (transcriptsOf known artifactId) = false) :
    isForgottenTranscript reg m = false := by
  rw [transcriptsOf, anyForgotten_flatMap, List.any_eq_false] at h
  have hm := h (rowId, m) hmem
  rw [if_pos hid, anyForgotten_ofOption, Bool.not_eq_true] at hm
  exact hm

theorem mem_knownPassages {d rowId : String} {row : VectorFileRow} (hd : d ∈ c.domains)
    (hrow : row ∈ (f.vectors d).getD []) (hid : text row.id = some rowId) :
    (rowId, row.metadata) ∈ knownPassages c f s :=
  List.mem_flatMap.mpr ⟨d, hd, List.mem_append_left _
    (List.mem_filterMap.mpr ⟨row, hrow, by rw [hid]; rfl⟩)⟩

theorem mem_passageWritten {applied existing : List String} {d : String} {row : VectorFileRow}
    {w : Written} :
    w ∈ passageWritten reg applied existing d row ↔ ∃ id, text row.id = some id ∧
      w = .passage d id row.metadata ∧
      ((id ∈ existing ∧ updatesPassage reg applied id row.metadata = true) ∨
        (id ∉ existing ∧ isForgottenRow reg id row.metadata = false ∧ row.embedding ≠ [])) := by
  unfold passageWritten
  cases text row.id with
  | none => simp
  | some id =>
    by_cases hex : id ∈ existing
    · by_cases hup : updatesPassage reg applied id row.metadata = true <;> simp [hex, hup]
    · by_cases hf : isForgottenRow reg id row.metadata = true
      · simp [hex, hf]
      · by_cases he : row.embedding = [] <;> simp [hex, hf, he]

theorem updatesPassage_iff {applied : List String} {id : String} {m : Meta} :
    updatesPassage reg applied id m = true ↔ m.artifactId.getD "" ∈ applied ∧
      chunkArtifactId id = some (m.artifactId.getD "") ∧ isForgottenChunk reg id m = false := by
  simp [updatesPassage, and_assoc]

/-- A passage whose version is taken is one of an artifact that was taken, and it is
forgotten only through its memory. -/
theorem updated_forgotten {d id : String} {row : VectorFileRow} (hd : d ∈ c.domains)
    (hrow : row ∈ (f.vectors d).getD []) (hid : text row.id = some id)
    (htaken : Taken c reg f force strategy s (row.metadata.artifactId.getD ""))
    (htranscripts : anyForgotten reg
      (transcriptsOf (knownPassages c f s) (row.metadata.artifactId.getD "")) = false)
    (hchunk : isForgottenChunk reg id row.metadata = false) :
    isForgottenRow reg id row.metadata = isForgottenVerifiedMemory reg id row.metadata := by
  obtain ⟨owner, howner⟩ : ∃ owner, row.metadata.artifactId = some owner := by
    cases h : row.metadata.artifactId with
    | none => exact absurd (show (row.metadata.artifactId.getD "") = "" by rw [h]; rfl) htaken.ne_empty
    | some owner => exact ⟨owner, rfl⟩
  rw [howner, Option.getD_some] at htaken htranscripts
  have hart : namesForgotten reg .artifact (text row.metadata.artifactId) = false := by
    rw [howner, text_eq_some.mpr ⟨rfl, htaken.ne_empty⟩]
    exact htaken.not_forgotten
  rw [isForgottenRow, hart, hchunk,
    transcript_known (mem_knownPassages hd hrow hid) howner htranscripts]
  simp

/-- An import revives nothing exactly when no row of the export belongs to a forgotten
subject that its path does not ask about. -/
theorem nothingRevived_iff (c : Settings) (reg : Index) (f : Folder) (force : Bool)
    (strategy : ConflictStrategy) (s : Stores) :
    NothingRevived c reg f force strategy s ↔ Spared c reg f force strategy s := by
  constructor
  · intro h
    have hclean : ∀ w, Imports c reg f force strategy s w →
        anyForgotten reg (subjects (knownPassages c f s) w) = false :=
      fun w hw => h w (mem_importAll.mpr hw)
    have hart : ∀ id, Taken c reg f force strategy s id →
        anyForgotten reg (transcriptsOf (knownPassages c f s) id) = false := by
      intro id hid
      rw [← anyForgotten_artifactSubjects hid.not_forgotten]
      exact hclean _ (.artifact hid)
    refine ⟨hart, ?_, ?_, ?_, ?_, ?_⟩
    · intro hforce d hd row hrow id hid hheld htaken howner hchunk
      have hwritten := (mem_passageWritten (d := d)).mpr ⟨id, hid, rfl, Or.inl
        ⟨(by simpa [hforce] using hheld : id ∈ if force then [] else ((base c f s).vectors d).keys),
          updatesPassage_iff.mpr ⟨mem_importNeo4j.mpr htaken, howner, hchunk⟩⟩⟩
      rw [← updated_forgotten hd hrow hid htaken (hart _ htaken) hchunk, isForgottenRow_eq]
      exact hclean _ (.passage hd hrow hwritten)
    · intro file hfile row hrow id hkey hnew htest
      have hrows := hclean _ (.lexicalRow hfile hrow hkey hnew htest)
      simp only [subjects, anyForgotten_cons, anyForgotten_append, Bool.or_eq_false_iff] at hrows
      exact hrows.2.2
    · intro row hrow memory conversation hs hr ht hheld
      simpa [subjects] using hclean _ (.memoryConversation hrow hs hr ht hheld)
    · intro row hrow aid rel cid hs hr hrel ht ha hc hheld
      have hedge := hclean _ (.conversationEdge hrow hs hr hrel ht ha hc (Or.inl hheld))
      rw [subjects, anyForgotten_cons, anyForgotten_artifactSubjects ha, Bool.or_eq_false_iff] at hedge
      exact hedge.2
    · intro e he hnew artifact hartifact
      simpa [subjects, hartifact] using hclean _ (.logEntry he hnew)
  · intro h w hw
    cases mem_importAll.mp hw with
    | artifact htaken =>
      rw [subjects, anyForgotten_artifactSubjects htaken.not_forgotten]
      exact h.artifacts _ htaken
    | @passage d row _ hd hrow hwritten =>
      obtain ⟨id, hid, rfl, hcase⟩ := mem_passageWritten.mp hwritten
      show anyForgotten reg (passageSubjects id row.metadata) = false
      rw [← isForgottenRow_eq]
      rcases hcase with hupdate | hadd
      · obtain ⟨htaken, howner, hchunk⟩ := updatesPassage_iff.mp hupdate.2
        rw [mem_importNeo4j] at htaken
        have hforce : force = false := by
          cases force with
          | true => exact absurd hupdate.1 List.not_mem_nil
          | false => rfl
        have hheld : id ∈ ((base c f s).vectors d).keys := by simpa [hforce] using hupdate.1
        rw [updated_forgotten hd hrow hid htaken (h.artifacts _ htaken) hchunk]
        exact h.passages hforce d hd row hrow id hid hheld htaken howner hchunk
      · exact hadd.2.1
    | lexicalRow hfile hrow hkey hnew htest =>
      have hasked := htest
      simp only [isForgottenLexicalRow, Bool.or_eq_false_iff] at hasked
      simp only [subjects, anyForgotten_cons, anyForgotten_append, anyForgotten_ofOption, hasked,
        Bool.false_or]
      exact h.lexicalRows _ hfile _ hrow _ hkey hnew htest
    | memory hrow hid hprops htest => simpa [subjects] using htest
    | memoryConversation hrow hs hr ht hheld =>
      simpa [subjects] using h.memoryEdges _ hrow _ _ hs hr ht hheld
    | fact hwritten =>
      obtain ⟨uid, source, rfl, hsource⟩ := (importFacts_spec _).2 w hwritten
      rw [mem_importNeo4j] at hsource
      rw [subjects, anyForgotten_artifactSubjects hsource.not_forgotten]
      exact h.artifacts source hsource
    | conversationEdge hrow hs hr hrel ht ha hc hheld =>
      rw [subjects, anyForgotten_cons, anyForgotten_artifactSubjects ha]
      show (isForgotten reg .conversation _ || _) = false
      rw [hc, Bool.false_or]
      rcases hheld with hheld | htaken
      · exact h.conversationEdges _ hrow _ _ _ hs hr hrel ht ha hc hheld
      · exact h.artifacts _ htaken
    | @logEntry e he hnew =>
      rw [subjects]
      cases hartifact : e.artifactId.getD "" with
      | none => rfl
      | some artifact => simpa using h.log e he hnew artifact hartifact

def laptop : Settings :=
  { machineId := "laptop", domains := ["general", "conversations"], defaultDomain := "general",
    relationshipTypes := ["RELATES_TO"], logMax := 10000, ttl := 90, now := "2026-03-01",
    instant := 60, conversations := conversations_mem }

/-- An export of a passage and of its keyword row; the passage is a child of another. -/
def childExport : Folder :=
  { Folder.empty with
    vectors := fun d => if d = "general" then some [{
      id := some "note_00000000000000c1"
      document := "a private line"
      metadata := { Meta.blank with
        artifactId := some "note", parentChunkId := some "note_00000000000000a1" }
      embedding := [1] }] else none
    bm25 := Dict.empty.set "general.jsonl" [{
      chunkId := none, id := some "note_00000000000000c1", body := "a private line",
      tenantId := none }] }

/-- The parent passage was purged. -/
def parentPurged : Index :=
  Forget.index [{
    forgetId := 1, subject := { kind := .chunk, id := "note_00000000000000a1" }, state := .purged,
    at_ := 5, machineId := "desktop", requestedBy := "user", userId := "" }]

/-- The vector store skips the child of a purged passage and the keyword corpus takes
it. -/
theorem not_nothingRevived :
    ¬ NothingRevived laptop parentPurged childExport false .remoteWins .fresh := by
  decide

end Cerid.Sync
