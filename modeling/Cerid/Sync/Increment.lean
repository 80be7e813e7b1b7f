import Cerid.Sync.Append
import Cerid.Sync.Exchange

/-!
# Restoring from increments

Each export covers what changed since the one before it, and writes the artifacts and
passages of the increment over those of the last.  A machine that holds nothing and
imports the folder gets what the last increment carried.
-/

namespace Cerid.Sync

open Forget (Index)

/-! ## Histories -/

/-- What the knowledge base holds when it is exported, and the time of the export. -/
structure Moment where
  stores : Stores
  now : String
  instant : Nat

/-- An export of what changed since the `last_exported_at` of the folder. -/
def exportIncrement (c : Settings) (f : Folder) (m : Moment) : Folder :=
  exportAll { c with now := m.now, instant := m.instant } f.lastExportedAt m.stores f

/-- The folder after some increments. -/
def increments (c : Settings) (history : List Moment) : Folder :=
  history.foldl (exportIncrement c) .empty

/-- A full export into an empty folder. -/
def fullExport (c : Settings) (m : Moment) : Folder :=
  exportAll { c with now := m.now, instant := m.instant } none m.stores .empty

/-- What a machine that holds nothing has after it imported the folder. -/
def restore (c : Settings) (reg : Index) (f : Folder) : Stores :=
  (importAll c reg f false .remoteWins .fresh).1

/-- The two machines hold the same artifacts, relationships, passages and keyword rows. -/
structure SameContent (s s' : Stores) : Prop where
  artifacts : ∀ id, s.artifacts.get? id = s'.artifacts.get? id
  relationships : ∀ key, s.relationships.get? key = s'.relationships.get? key
  vectors : ∀ d id, (s.vectors d).get? id = (s'.vectors d).get? id
  corpora : ∀ file, corpusOf s.corpora file = corpusOf s'.corpora file

/-- The passage is one that an import takes. -/
def Importable (reg : Index) (id : String) (row : VectorRow) : Bool :=
  decide (id ≠ "") && !isForgottenRow reg id row.metadata && decide (row.embedding ≠ [])

/-- The artifact of a passage changed since the time. -/
def ownerChanged (since : Option String) (s : Stores) (row : VectorRow) : Bool :=
  (s.artifacts.get? (row.metadata.artifactId.getD "")).any (changedSince since)

/-- The last increment lacks nothing: the folder has no time to start from, or all that
an import takes changed since then; and no corpus of an earlier export is gone. -/
structure LacksNothing (c : Settings) (reg : Index) (f : Folder) (m : Moment) : Prop where
  artifacts : ∀ id a, m.stores.artifacts.get? id = some a → Passes reg (fullExport c m) id →
    changedSince f.lastExportedAt a = true
  passages : text f.lastExportedAt ≠ none → ∀ d ∈ c.domains, ∀ id row,
    (m.stores.vectors d).get? id = some row → Importable reg id row = true →
    ownerChanged f.lastExportedAt m.stores row = true
  corpora : ∀ file rows, f.bm25.get? file = some rows → m.stores.corpora.get? file = none →
    missingIds reg [] rows = []

/-! ## Restoring a folder -/

variable {c : Settings} {reg : Index}

theorem applyTombstones_fresh (ts : List Tombstone) :
    applyTombstones c ts .fresh = .fresh := by
  have hstep : ∀ t, applyTombstone c .fresh t = .fresh := by
    intro t
    unfold applyTombstone
    cases text t.artifactId with
    | none => rfl
    | some id =>
      by_cases h : t.machineId = some c.machineId
      · simp only [h, if_true]
      · simp only [h, if_false]
        rfl
  unfold applyTombstones
  induction ts with
  | nil => rfl
  | cons t rest ih => rw [List.foldl_cons, hstep, ih]

/-- The stores that the increments are compared in. -/
def Stores.content (s : Stores) : Dict String Artifact ×
    Dict (String × String × String) Relation × (String → Dict String VectorRow) ×
      Dict String (List LexicalRow) :=
  (s.artifacts, s.relationships, s.vectors, s.corpora)

theorem importMemoryEdge_content (acc : Stores × List Written) (row : EdgeRow) :
    (importMemoryEdge acc row).1.content = acc.1.content := by
  unfold importMemoryEdge
  split
  · split
    · rfl
    · split
      · rfl
      · split <;> rfl
  · rfl

theorem importFact_content (applied : List String) (acc : Stores × List Written) (row : FactRow) :
    (importFact reg applied acc row).1.content = acc.1.content := by
  unfold importFact
  split
  · split <;> rfl
  · rfl

theorem importConversationEdge_content (acc : Stores × List Written) (row : EdgeRow) :
    (importConversationEdge reg acc row).1.content = acc.1.content := by
  unfold importConversationEdge
  split
  · split <;> rfl
  · rfl

theorem foldl_content {ι : Type} {step : Stores × List Written → ι → Stores × List Written}
    (hstep : ∀ acc row, (step acc row).1.content = acc.1.content) (rows : List ι)
    (acc : Stores × List Written) : (rows.foldl step acc).1.content = acc.1.content := by
  induction rows generalizing acc with
  | nil => rfl
  | cons row rest ih => rw [List.foldl_cons, ih, hstep]

theorem importRedis_content (f : Folder) (s : Stores) :
    (importRedis c f s).1.content = s.content := by
  unfold importRedis
  cases f.auditLog <;> rfl

theorem restore_content (f : Folder) :
    (restore c reg f).content =
      (importBm25 reg f (importChroma c reg f false
        (importNeo4j c reg f false .remoteWins .fresh).2
        (importNeo4j c reg f false .remoteWins .fresh).1).1).1.content := by
  have hmem : ∀ s, (importMemories reg f s).1.content = s.content :=
    fun s => foldl_content importMemoryEdge_content f.memoryEdges _
  have hfacts : ∀ applied s, (importFacts reg f applied s).1.content = s.content :=
    fun applied s => foldl_content (importFact_content applied) f.facts (s, [])
  have hedges : ∀ s, (importConversationEdges reg f s).1.content = s.content :=
    fun s => foldl_content importConversationEdge_content f.conversationEdges (s, [])
  rw [restore, importAll, applyTombstones_fresh]
  simp only [importRedis_content, hedges, hfacts, hmem]

theorem restore_artifacts (f : Folder) :
    (restore c reg f).artifacts = (importNeo4j c reg f false .remoteWins .fresh).1.artifacts :=
  congrArg Prod.fst (restore_content f)

theorem restore_relationships (f : Folder) :
    (restore c reg f).relationships =
      f.relationships.foldl (importRelationship c (restore c reg f).artifacts) .empty := by
  rw [restore_artifacts]
  exact congrArg (fun p => p.2.1) (@restore_content c reg f)

theorem restore_corpora (f : Folder) (file : String) :
    corpusOf (restore c reg f).corpora file =
      newLexicalRows reg [] ((f.bm25.get? file).getD []) := by
  have hcorpora : (restore c reg f).corpora = _ :=
    congrArg (fun p => p.2.2.2) (@restore_content c reg f)
  rw [hcorpora]
  exact corpusOf_importBm25 f _ file

/-- A restored folder has the artifacts of the export that are not passed over. -/
theorem get?_restore_artifacts {f : Folder} {since : Option String} {g : Dict String Artifact}
    (hf : f.artifacts = exportArtifacts since g) (id : String) :
    (restore c reg f).artifacts.get? id =
      if Passes reg f id then
        ((g.get? id).filter (changedSince since)).map (fun a => carried a .blank)
      else none := by
  have hskip : skipIds .remoteWins f.lastExportedAt Stores.fresh.artifacts f.artifacts = [] := by
    unfold skipIds
    cases text f.lastExportedAt <;> rfl
  rw [restore_artifacts, get?_importNeo4j, hskip, hf]
  by_cases hid : id = ""
  · have hnone : rowsOf (exportArtifacts since g) id = [] := by
      rw [rowsOf, List.filter_eq_nil_iff]
      intro row _ h
      rw [decide_eq_true_eq, text_eq_some] at h
      exact h.2 hid
    have hno : ¬ Passes reg f id := fun h => h.1 hid
    rw [hnone, if_neg hno]
    split <;> rfl
  · by_cases hpass : passedOver reg f [] id = true
    · have hno : ¬ Passes reg f id := fun h => by simp [h.2] at hpass
      rw [if_pos hpass, if_neg hno]
      rfl
    · rw [if_neg hpass, if_pos ⟨hid, Bool.eq_false_iff.mpr hpass⟩, rowsOf_exportArtifacts _ _ hid]
      cases (g.get? id).filter (changedSince since) with
      | none => rfl
      | some a =>
        show pullRow c false none (a.row id) = _
        rw [pullRow, if_pos takes_none, written_row]
        rfl

/-- The file row of a passage. -/
def VectorRow.fileRow (id : String) (row : VectorRow) : VectorFileRow :=
  { id := some id, document := row.document, metadata := row.metadata, embedding := row.embedding }

/-- A row of an export is added to a collection that lacks it, when it is importable. -/
theorem importPassage_fileRow (applied : List String) (d id : String) (row : VectorRow)
    (acc : Dict String VectorRow × List Written) :
    (importPassage reg applied [] d acc (row.fileRow id)).1 =
      if Importable reg id row then acc.1.setDefault id row else acc.1 := by
  unfold importPassage
  by_cases hid : id = ""
  · have htext : text (row.fileRow id).id = none := by
      show text (some id) = none
      rw [hid]
      rfl
    rw [htext]
    simp [Importable, hid]
  · have htext : text (row.fileRow id).id = some id := text_eq_some.mpr ⟨rfl, hid⟩
    rw [htext]
    show (if isForgottenRow reg id row.metadata = true ∨ row.embedding = [] then acc
      else (acc.1.setDefault id row, _)).1 = _
    by_cases hf : isForgottenRow reg id row.metadata = true
    · simp [Importable, hf]
    · by_cases he : row.embedding = []
      · simp [Importable, he]
      · simp [Importable, hf, he, hid]

theorem get?_importPassages (applied : List String) (d : String) (items : List (String × VectorRow))
    (hnd : (items.map Prod.fst).Nodup) (acc : Dict String VectorRow × List Written) (id : String) :
    ((items.map (fun p => p.2.fileRow p.1)).foldl (importPassage reg applied [] d) acc).1.get? id =
      (acc.1.get? id).or
        (((items.find? (fun p => p.1 = id)).map Prod.snd).filter (Importable reg id)) := by
  induction items generalizing acc with
  | nil => simp
  | cons p rest ih =>
    obtain ⟨k, row⟩ := p
    rw [List.map_cons, List.nodup_cons] at hnd
    rw [List.map_cons, List.foldl_cons, ih hnd.2, importPassage_fileRow]
    by_cases h : k = id
    · subst h
      have hnone : rest.find? (fun p => p.1 = k) = none :=
        find?_eq_none_of_not_mem Prod.fst hnd.1
      rw [hnone, List.find?_cons_of_pos (by simp)]
      by_cases hi : Importable reg k row = true
      · have hfilter : (some row).filter (Importable reg k) = some row := by
          rw [Option.filter_some, if_pos hi]
        rw [if_pos hi, Dict.get?_setDefault, if_pos rfl, Option.map_some, hfilter]
        cases acc.1.get? k <;> rfl
      · have hfilter : (some row).filter (Importable reg k) = none := by
          rw [Option.filter_some, if_neg hi]
        rw [if_neg hi, Option.map_some, hfilter]
        cases acc.1.get? k <;> rfl
    · have h' : ¬ id = k := fun e => h e.symm
      rw [List.find?_cons_of_neg (by simpa using h)]
      split
      · rw [Dict.get?_setDefault, if_neg h']
      · rfl

theorem get?_restore_vectors {f : Folder} {ids : Option (List String)} {d : String}
    {rows : Dict String VectorRow} (hd : d ∈ c.domains)
    (hf : f.vectors d = some (exportPassages ids rows)) (id : String) :
    ((restore c reg f).vectors d).get? id = ((rows.get? id).filter (fun row =>
      ids.all (fun ids => row.metadata.artifactId.getD "" ∈ ids))).filter (Importable reg id) := by
  have hvectors : (restore c reg f).vectors = _ :=
    congrArg (fun p => p.2.2.1) (@restore_content c reg f)
  rw [hvectors]
  show (if d ∈ c.domains then (importPassages reg false _ d ((f.vectors d).getD []) .empty).1
    else .empty).get? id = _
  rw [if_pos hd, hf, Option.getD_some]
  have hkept := (rows.filter (fun _ row =>
    ids.all (fun ids => row.metadata.artifactId.getD "" ∈ ids))).nodup
  refine (get?_importPassages _ d _ hkept (.empty, []) id).trans ?_
  exact congrArg (Option.filter (Importable reg id)) (Dict.get?_filter rows _ id)

theorem restore_vectors_other {f : Folder} {d : String} (hd : d ∉ c.domains) :
    (restore c reg f).vectors d = .empty := by
  have hvectors : (restore c reg f).vectors = _ :=
    congrArg (fun p => p.2.2.1) (@restore_content c reg f)
  rw [hvectors]
  exact if_neg hd

/-! ## The last increment and a full export -/

variable {history : List Moment} {f : Folder} {m : Moment}

theorem mem_delta {since : Option String} {g : Dict String Artifact} {id : String} :
    id ∈ (exportArtifacts since g).filterMap (fun row => row.id) ↔
      (g.get? id).any (changedSince since) = true := by
  rw [exportArtifacts, List.filterMap_map]
  show id ∈ (g.items.filter _).filterMap (fun p => some p.1) ↔ _
  simp only [List.mem_filterMap, List.mem_filter, Option.some.injEq, Option.any_eq_true]
  constructor
  · rintro ⟨⟨k, a⟩, ⟨hmem, hchanged⟩, rfl⟩
    exact ⟨a, (Dict.mem_items_iff _ _ _).mp hmem, hchanged⟩
  · rintro ⟨a, hget, hchanged⟩
    exact ⟨(id, a), ⟨(Dict.mem_items_iff _ _ _).mpr hget, hchanged⟩, rfl⟩

theorem mem_exportPassages {ids : Option (List String)} {rows : Dict String VectorRow}
    {row : VectorFileRow} :
    row ∈ exportPassages ids rows ↔ ∃ p ∈ rows.items,
      ids.all (fun ids => p.2.metadata.artifactId.getD "" ∈ ids) = true ∧
        row = p.2.fileRow p.1 := by
  simp only [exportPassages, List.mem_map, List.mem_filter, and_assoc]
  exact exists_congr fun p => and_congr_right fun _ => and_congr_right fun _ => eq_comm

theorem vectors_exportIncrement {d : String} (hd : d ∈ c.domains) :
    (exportIncrement c f m).vectors d = some (exportPassages
      ((text f.lastExportedAt).map (fun _ =>
        (exportArtifacts f.lastExportedAt m.stores.artifacts).filterMap (fun row => row.id)))
      (m.stores.vectors d)) :=
  if_pos hd

theorem vectors_fullExport {d : String} (hd : d ∈ c.domains) :
    (fullExport c m).vectors d = some (exportPassages none (m.stores.vectors d)) :=
  if_pos hd

/-- A transcript that the increment shows is shown by the full export, and the other way
round for an artifact of the increment. -/
theorem forgottenTranscripts_sub {id : String}
    (h : id ∈ forgottenTranscripts reg (exportIncrement c f m)) :
    id ∈ forgottenTranscripts reg (fullExport c m) := by
  rw [forgottenTranscripts, vectors_exportIncrement c.conversations, List.mem_filterMap] at h
  rw [forgottenTranscripts, vectors_fullExport c.conversations, List.mem_filterMap]
  obtain ⟨row, hrow, hid⟩ := h
  obtain ⟨p, hp, -, heq⟩ := mem_exportPassages.mp hrow
  exact ⟨row, mem_exportPassages.mpr ⟨p, hp, rfl, heq⟩, hid⟩

theorem forgottenTranscripts_of_changed {id : String} {a : Artifact}
    (hget : m.stores.artifacts.get? id = some a)
    (hchanged : changedSince f.lastExportedAt a = true)
    (h : id ∈ forgottenTranscripts reg (fullExport c m)) :
    id ∈ forgottenTranscripts reg (exportIncrement c f m) := by
  rw [forgottenTranscripts, vectors_fullExport c.conversations, List.mem_filterMap] at h
  rw [forgottenTranscripts, vectors_exportIncrement c.conversations, List.mem_filterMap]
  obtain ⟨row, hrow, hid⟩ := h
  obtain ⟨p, hp, -, rfl⟩ := mem_exportPassages.mp hrow
  refine ⟨_, mem_exportPassages.mpr ⟨p, hp, ?_, rfl⟩, hid⟩
  have howner : p.2.metadata.artifactId.getD "" = id := by
    have hid' := hid
    rw [Option.ite_none_right_eq_some] at hid'
    rw [show p.2.metadata.artifactId = some id from (text_eq_some.mp hid'.2).1]
    rfl
  cases text f.lastExportedAt with
  | none => rfl
  | some t =>
    rw [Option.map_some, Option.all_some, decide_eq_true_eq, howner, mem_delta, hget]
    exact hchanged

theorem passes_iff {id : String} :
    Passes reg f id ↔ id ≠ "" ∧ id ∉ forgottenTranscripts reg f ∧
      isForgottenArtifact reg id = false := by
  simp [Passes, passedOver]

theorem passes_increment {id : String} (h : Passes reg (fullExport c m) id) :
    Passes reg (exportIncrement c f m) id := by
  rw [passes_iff] at h ⊢
  exact ⟨h.1, fun hin => h.2.1 (forgottenTranscripts_sub hin), h.2.2⟩

theorem passes_of_changed {id : String} {a : Artifact}
    (hget : m.stores.artifacts.get? id = some a)
    (hchanged : changedSince f.lastExportedAt a = true)
    (h : Passes reg (exportIncrement c f m) id) : Passes reg (fullExport c m) id := by
  rw [passes_iff] at h ⊢
  exact ⟨h.1, fun hin => h.2.1 (forgottenTranscripts_of_changed hget hchanged hin), h.2.2⟩

theorem sameArtifacts_iff :
    (∀ id, (restore c reg (exportIncrement c f m)).artifacts.get? id =
      (restore c reg (fullExport c m)).artifacts.get? id) ↔
    ∀ id a, m.stores.artifacts.get? id = some a → Passes reg (fullExport c m) id →
      changedSince f.lastExportedAt a = true := by
  have hinc : ∀ id, (restore c reg (exportIncrement c f m)).artifacts.get? id = _ :=
    @get?_restore_artifacts c reg (exportIncrement c f m) f.lastExportedAt m.stores.artifacts rfl
  have hfull : ∀ id, (restore c reg (fullExport c m)).artifacts.get? id = _ :=
    @get?_restore_artifacts c reg (fullExport c m) none m.stores.artifacts rfl
  refine forall_congr' fun id => ?_
  rw [hinc, hfull]
  cases hget : m.stores.artifacts.get? id with
  | none => simp
  | some a =>
    have hall : (some a).filter (changedSince none) = some a := rfl
    simp only [hall, Option.some.injEq, forall_eq', Option.filter_some, Option.map_some]
    by_cases hpass : Passes reg (fullExport c m) id
    · have hpass' : Passes reg (exportIncrement c f m) id := passes_increment hpass
      by_cases hchanged : changedSince f.lastExportedAt a = true
      · simp [hpass, hpass', hchanged]
      · simp [hpass, hpass', hchanged]
    · by_cases hchanged : changedSince f.lastExportedAt a = true
      · have hpass' : ¬ Passes reg (exportIncrement c f m) id :=
          fun h => hpass (passes_of_changed hget hchanged h)
        simp [hpass, hpass']
      · simp [hpass, hchanged]

theorem samePassages_iff :
    (∀ d id, ((restore c reg (exportIncrement c f m)).vectors d).get? id =
      ((restore c reg (fullExport c m)).vectors d).get? id) ↔
    (text f.lastExportedAt ≠ none → ∀ d ∈ c.domains, ∀ id row,
      (m.stores.vectors d).get? id = some row → Importable reg id row = true →
        ownerChanged f.lastExportedAt m.stores row = true) := by
  have hfull : ∀ d ∈ c.domains, ∀ id, ((restore c reg (fullExport c m)).vectors d).get? id =
      ((m.stores.vectors d).get? id).filter (Importable reg id) := by
    intro d hd id
    rw [get?_restore_vectors hd (vectors_fullExport hd)]
    congr 1
    cases (m.stores.vectors d).get? id <;> rfl
  have hother : ∀ d ∉ c.domains, ∀ id, ((restore c reg (exportIncrement c f m)).vectors d).get? id =
      ((restore c reg (fullExport c m)).vectors d).get? id := by
    intro d hd id
    rw [restore_vectors_other hd, restore_vectors_other hd]
  have hone : ∀ d ∈ c.domains, ∀ id,
      (((restore c reg (exportIncrement c f m)).vectors d).get? id =
        ((restore c reg (fullExport c m)).vectors d).get? id ↔
      (text f.lastExportedAt ≠ none → ∀ row, (m.stores.vectors d).get? id = some row →
        Importable reg id row = true → ownerChanged f.lastExportedAt m.stores row = true)) := by
    intro d hd id
    rw [hfull d hd, get?_restore_vectors hd (vectors_exportIncrement hd)]
    cases ht : text f.lastExportedAt with
    | none =>
      refine iff_of_true ?_ (fun h => absurd rfl h)
      congr 1
      cases (m.stores.vectors d).get? id <;> rfl
    | some t =>
      cases (m.stores.vectors d).get? id with
      | none => simp
      | some row =>
        have hdelta : decide (row.metadata.artifactId.getD "" ∈
            (exportArtifacts f.lastExportedAt m.stores.artifacts).filterMap (fun row => row.id)) =
            ownerChanged f.lastExportedAt m.stores row := by
          rw [Bool.eq_iff_iff, decide_eq_true_eq, mem_delta]
          rfl
        simp only [Option.map_some, Option.all_some, hdelta, Option.filter_some]
        by_cases hi : Importable reg id row = true <;>
          by_cases ho : ownerChanged f.lastExportedAt m.stores row = true <;> simp [hi, ho]
  constructor
  · intro h ht d hd id row hget hi
    exact (hone d hd id).mp (h d id) ht row hget hi
  · intro h d id
    by_cases hd : d ∈ c.domains
    · exact (hone d hd id).mpr fun ht row hget hi => h ht d hd id row hget hi
    · exact hother d hd id

theorem sameCorpora_iff :
    (∀ file, corpusOf (restore c reg (exportIncrement c f m)).corpora file =
      corpusOf (restore c reg (fullExport c m)).corpora file) ↔
    ∀ file rows, f.bm25.get? file = some rows → m.stores.corpora.get? file = none →
      missingIds reg [] rows = [] := by
  refine forall_congr' fun file => ?_
  have hinc : (exportIncrement c f m).bm25.get? file =
      (m.stores.corpora.get? file).or (f.bm25.get? file) := Dict.get?_merge _ _ _
  have hfull : (fullExport c m).bm25.get? file = m.stores.corpora.get? file :=
    (Dict.get?_merge _ _ _).trans (by simp [Folder.empty])
  rw [restore_corpora, restore_corpora, hinc, hfull]
  cases m.stores.corpora.get? file with
  | some rows => simp
  | none =>
    cases f.bm25.get? file with
    | none => simp
    | some rows =>
      simp only [Option.none_or, Option.getD_some, Option.getD_none, Option.some.injEq, forall_eq',
        true_imp_iff]
      exact newLexicalRows_nil

theorem importRelationship_congr {g g' : Dict String Artifact} (h : ∀ id, g.get? id = g'.get? id) :
    importRelationship c g = importRelationship c g' := by
  funext relationships row
  simp only [importRelationship, h]

/-- A machine that restores the increments has what it would have from a full export at
the time of the last one, exactly when the last increment lacks nothing. -/
theorem sameContent_increments_iff (c : Settings) (reg : Index) (history : List Moment)
    (m : Moment) :
    SameContent (restore c reg (increments c (history ++ [m]))) (restore c reg (fullExport c m)) ↔
      LacksNothing c reg (increments c history) m := by
  have hlast : increments c (history ++ [m]) = exportIncrement c (increments c history) m := by
    rw [increments, List.foldl_append]
    rfl
  rw [hlast]
  constructor
  · intro h
    exact ⟨sameArtifacts_iff.mp h.artifacts, samePassages_iff.mp h.vectors,
      sameCorpora_iff.mp h.corpora⟩
  · intro h
    have hart := sameArtifacts_iff.mpr h.artifacts
    refine ⟨hart, fun key => ?_, samePassages_iff.mpr h.passages, sameCorpora_iff.mpr h.corpora⟩
    rw [restore_relationships, restore_relationships, importRelationship_congr hart]
    rfl

/-! ## Two increments -/

def firstNote : Moment :=
  { stores := { Stores.fresh with
      artifacts := Dict.empty.set "first" (copyAt "one" (some "2026-01-05")) }
    now := "2026-01-10", instant := 10 }

def secondNote : Moment :=
  { stores := { Stores.fresh with
      artifacts := (Dict.empty.set "first" (copyAt "one" (some "2026-01-05"))).set "second"
        (copyAt "two" (some "2026-01-15")) }
    now := "2026-01-20", instant := 20 }

/-- The second increment replaces the file that held the first note. -/
theorem not_sameContent_increments :
    ¬ SameContent (restore plain (Forget.index []) (increments plain [firstNote, secondNote]))
      (restore plain (Forget.index []) (fullExport plain secondNote)) := by
  intro h
  have hfirst := h.artifacts "first"
  revert hfirst
  decide

end Cerid.Sync
