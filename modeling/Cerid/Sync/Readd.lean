import Cerid.Sync.Deletions

/-!
# Content that was added again

Applying the records of the file does not ask the registry.  A record stays in the file
when its artifact is added again on purpose, so a machine that holds the new copy
deletes it at its next import, unless the record is its own.
-/

namespace Cerid.Sync

/-! ## Stale records -/

/-- The artifact an event is about. -/
def Event.subject : Event → Option String
  | .deleted t => text t.artifactId
  | .readded _ id => some id

/-- The most recent event of an artifact. -/
def lastEvent (events : List Event) (id : String) : Option Event :=
  (events.filter (fun e => e.subject = some id)).getLast?

/-- What happened last to the artifact is that it was added again. -/
def AddedAgain (events : List Event) (id : String) : Prop :=
  ((lastEvent events id).any (fun e =>
    match e with
    | .readded _ _ => true
    | .deleted _ => false)) = true

instance (events : List Event) (id : String) : Decidable (AddedAgain events id) :=
  inferInstanceAs (Decidable (_ = true))

/-- The record tells of a deletion after which the artifact was added again, and nothing
has happened to the artifact since. -/
def Stale (events : List Event) (t : Tombstone) (id : String) : Prop :=
  Event.deleted t ∈ events ∧ AddedAgain events id

instance (events : List Event) (t : Tombstone) (id : String) : Decidable (Stale events t id) :=
  inferInstanceAs (Decidable (_ ∧ _))

/-- Applying the records deletes no artifact that a stale record names. -/
def SparesReadded (w : World) (a : Action) : Prop :=
  a.OnImport fun c => ∀ t ∈ w.folder.tombstones, ∀ id ∈ text t.artifactId,
    Stale w.events t id → Holds (w.stores c.machineId) id → Holds (applied c w) id

instance (w : World) (a : Action) : Decidable (SparesReadded w a) :=
  inferInstanceAs (Decidable (a.OnImport _))

/-- A stale record that the importer finds is its own, or of an artifact it does not
hold. -/
def OwnStaleRecords (w : World) (a : Action) : Prop :=
  a.OnImport fun c => ∀ t ∈ w.folder.tombstones, ∀ id ∈ text t.artifactId,
    Stale w.events t id → t.machineId = some c.machineId ∨ ¬ Holds (w.stores c.machineId) id

instance (w : World) (a : Action) : Decidable (OwnStaleRecords w a) :=
  inferInstanceAs (Decidable (a.OnImport _))

/-! ## Every record tells of a deletion -/

/-- The records of the file and of the logs tell of deletions that have happened. -/
structure Recorded (w : World) : Prop where
  file : ∀ t ∈ w.folder.tombstones, Event.deleted t ∈ w.events
  logs : ∀ m, ∀ t ∈ (w.stores m).tombstoneLog, Event.deleted t ∈ w.events

theorem sparesReadded_iff {w : World} (h : Recorded w) (a : Action) :
    SparesReadded w a ↔ OwnStaleRecords w a := by
  apply Action.onImport_congr
  intro c
  constructor
  · intro hspares t ht id hid hstale
    by_cases hheld : Holds (w.stores c.machineId) id
    · have hleft := holds_applyTombstones.mp (hspares t ht id hid hstale hheld)
      exact Or.inl (hleft.2 t ht hid)
    · exact Or.inr hheld
  · intro hown t ht id hid hstale hheld
    apply holds_applyTombstones.mpr
    refine ⟨hheld, fun u hu huid => ?_⟩
    -- the other records of the artifact are stale with this one
    have hustale : Stale w.events u id := ⟨h.file u hu, hstale.2⟩
    exact (hown u hu id huid hustale).resolve_right fun hno => hno hheld

/-! ## What an action writes into the logs -/

theorem applyTombstones_log (c : Settings) (ts : List Tombstone) (s : Stores) :
    (applyTombstones c ts s).tombstoneLog = s.tombstoneLog := by
  apply foldl_invariant (applyTombstone c) (fun s' => s'.tombstoneLog = s.tombstoneLog)
    (p := fun _ => True) _ rfl (fun _ _ => trivial)
  intro s' t h _
  unfold applyTombstone
  cases text t.artifactId with
  | none => exact h
  | some id =>
    show (if t.machineId = some c.machineId then s' else
      if (s'.artifacts.get? id).isNone then s' else deleteArtifact c s' id t).tombstoneLog = _
    split
    · exact h
    · split
      · exact h
      · exact h

theorem importMemoryEdge_log (acc : Stores × List Written) (row : EdgeRow) :
    (importMemoryEdge acc row).1.tombstoneLog = acc.1.tombstoneLog := by
  unfold importMemoryEdge
  split
  · split
    · rfl
    · split
      · rfl
      · split <;> rfl
  · rfl

theorem importFact_log (reg : Forget.Index) (taken : List String) (acc : Stores × List Written)
    (row : FactRow) : (importFact reg taken acc row).1.tombstoneLog = acc.1.tombstoneLog := by
  unfold importFact
  split
  · split <;> rfl
  · rfl

theorem importConversationEdge_log (reg : Forget.Index) (acc : Stores × List Written)
    (row : EdgeRow) :
    (importConversationEdge reg acc row).1.tombstoneLog = acc.1.tombstoneLog := by
  unfold importConversationEdge
  split
  · split <;> rfl
  · rfl

theorem importRedis_log' (c : Settings) (f : Folder) (s : Stores) :
    (importRedis c f s).1.tombstoneLog = s.tombstoneLog := by
  unfold importRedis
  cases f.auditLog <;> rfl

theorem foldl_log {ι : Type} {step : Stores × List Written → ι → Stores × List Written}
    (hstep : ∀ acc i, (step acc i).1.tombstoneLog = acc.1.tombstoneLog) (rows : List ι)
    (acc : Stores × List Written) :
    (rows.foldl step acc).1.tombstoneLog = acc.1.tombstoneLog :=
  foldl_invariant step (fun acc' => acc'.1.tombstoneLog = acc.1.tombstoneLog) (p := fun _ => True)
    (fun acc' i h _ => (hstep acc' i).trans h) rfl (fun _ _ => trivial)

theorem importAll_log (c : Settings) (reg : Forget.Index) (f : Folder) (force : Bool)
    (strategy : ConflictStrategy) (s : Stores) :
    (importAll c reg f force strategy s).1.tombstoneLog = s.tombstoneLog := by
  show (importRedis c f _).1.tombstoneLog = _
  rw [importRedis_log']
  show (importConversationEdges reg f _).1.tombstoneLog = _
  rw [importConversationEdges, foldl_log (importConversationEdge_log reg)]
  show (importFacts reg f _ _).1.tombstoneLog = _
  rw [importFacts, foldl_log (importFact_log reg _)]
  show (importMemories reg f _).1.tombstoneLog = _
  rw [importMemories, foldl_log importMemoryEdge_log]
  exact applyTombstones_log c f.tombstones s

theorem setStores_log {w : World} {machineId : String} {s : Stores} {m : String} {t : Tombstone}
    (ht : t ∈ ((w.setStores machineId s).stores m).tombstoneLog) :
    t ∈ s.tombstoneLog ∨ t ∈ (w.stores m).tombstoneLog := by
  have hstores : (w.setStores machineId s).stores m = if m = machineId then s else w.stores m :=
    Function.update_apply w.stores machineId s m
  rw [hstores] at ht
  by_cases hm : m = machineId
  · rw [if_pos hm] at ht
    exact Or.inl ht
  · rw [if_neg hm] at ht
    exact Or.inr ht

theorem Recorded.setStores {w : World} (h : Recorded w) {m : String} {s : Stores}
    (hs : ∀ t ∈ s.tombstoneLog, t ∈ (w.stores m).tombstoneLog) : Recorded (w.setStores m s) := by
  refine ⟨h.file, fun m' t ht => ?_⟩
  rcases setStores_log ht with ht | ht
  · exact h.logs m t (hs t ht)
  · exact h.logs m' t ht

theorem Recorded.recordTombstone {w : World} (h : Recorded w) (c : Settings)
    (forgetId : Forget.ForgetId) (domain id : String) (chunkIds : List String) :
    Recorded (recordTombstone c forgetId domain id chunkIds w) := by
  refine ⟨fun t ht => List.mem_append_left _ (h.file t ht), fun m t ht => ?_⟩
  apply List.mem_append.mpr
  rcases setStores_log ht with ht | ht
  · rcases List.mem_append.mp ht with ht | ht
    · exact Or.inl (h.logs c.machineId t ht)
    · rw [List.mem_singleton] at ht
      exact Or.inr (List.mem_singleton.mpr (congrArg Event.deleted ht))
  · exact Or.inl (h.logs m t ht)

theorem Recorded.recordRemoval {w : World} (h : Recorded w) (c : Settings) (id : String)
    (d : Deletion) (newForgetId : String → Forget.ForgetId) :
    Recorded (recordRemoval c id d newForgetId w) := by
  apply foldl_invariant _ Recorded (p := fun _ => True) _ _ (fun _ _ => trivial)
  · exact fun w' child h' _ => h'.recordTombstone c _ _ child []
  · exact h.recordTombstone c _ _ id _

theorem Recorded.removeContent {w : World} (h : Recorded w) (c : Settings) (id : String)
    (d : Deletion) (newForgetId : String → Forget.ForgetId) :
    Recorded (removeContent c id d newForgetId w) := by
  unfold Sync.removeContent
  split
  · exact (h.recordRemoval c id d newForgetId).setStores fun t ht => ht
  · exact h

theorem Recorded.createArtifact {w : World} (h : Recorded w) (c : Settings) (id : String)
    (a : Artifact) (passages : List (String × VectorRow)) :
    Recorded (createArtifact c id a passages w) := by
  unfold Sync.createArtifact
  split
  · exact h
  · exact h.setStores fun t ht => ht

theorem Recorded.ingestContent {w : World} (h : Recorded w) (c : Settings) (id : String)
    (a : Artifact) (passages : List (String × VectorRow)) (onForgotten : OnForgotten) :
    Recorded (ingestContent c id a passages onForgotten w) := by
  unfold Sync.ingestContent
  split
  · cases onForgotten
    case skip => exact h
    case readd =>
      apply Recorded.createArtifact
      exact ⟨fun t ht => List.mem_append_left _ (h.file t ht),
        fun m t ht => List.mem_append_left _ (h.logs m t ht)⟩
  · exact h.createArtifact c id a passages

/-- The file an export leaves has records of the file it found and of the log. -/
theorem mem_exportTombstones_or {c : Settings} {own shared : List Tombstone} {t : Tombstone}
    (ht : t ∈ exportTombstones c own shared) : t ∈ shared ∨ t ∈ own := by
  obtain ⟨id, hid⟩ := mem_exportTombstones.mp ht
  rcases Option.or_eq_some_iff.mp hid with hkept | ⟨-, hown⟩
  · exact Or.inl (List.mem_of_mem_filter (List.mem_of_getLast? hkept))
  · exact Or.inr (List.mem_of_find?_eq_some hown)

theorem Recorded.act {w : World} (h : Recorded w) (a : Action) : Recorded (act w a) := by
  cases a with
  | remove c id d newForgetId => exact h.removeContent c id d newForgetId
  | ingest c id a passages onForgotten => exact h.ingestContent c id a passages onForgotten
  | export_ c since =>
    refine ⟨fun t ht => ?_, h.logs⟩
    exact (mem_exportTombstones_or ht).elim (h.file t) (h.logs c.machineId t)
  | import_ c force strategy =>
    apply h.setStores
    rw [importAll_log]
    exact fun t ht => ht
  | purgeExpired c =>
    have hs := h.setStores (m := c.machineId)
      (s := { w.stores c.machineId with
        tombstoneLog := (w.stores c.machineId).tombstoneLog.filter (unexpired c) })
      fun t ht => List.mem_of_mem_filter ht
    exact ⟨fun t ht => h.file t (List.mem_of_mem_filter ht), hs.logs⟩

/-- In every run, the imports delete no artifact that was added again exactly when the
stale records that each of them finds are its own, or of artifacts it does not hold. -/
theorem sparesReadded_run_iff {w : World} (h : Recorded w) (actions : List Action) :
    Along act SparesReadded w actions ↔ Along act OwnStaleRecords w actions :=
  along_iff Recorded (fun _ a hw => sparesReadded_iff hw a) (fun _ a hw _ => hw.act a) h

/-! ## A note that is deleted on one machine and added again on another -/

def machine (machineId : String) (instant : Nat) : Settings :=
  { machineId, domains := ["general", "conversations"], defaultDomain := "general",
    relationshipTypes := [], logMax := 10000, ttl := 90, now := "2026-03-01", instant,
    conversations := conversations_mem }

def note : Artifact :=
  { Artifact.blank with
    domain := some "general", contentHash := some "note", ingestedAt := some "2026-01-01" }

/-- Two machines of which one holds the note. -/
def oneNote : World :=
  { stores := fun m =>
      if m = "desk" then { Stores.fresh with artifacts := Dict.empty.set "note" note } else .fresh
    folder := .empty, registry := [], events := [], announced := [] }

def removeNote (machineId : String) (instant : Nat) : Action :=
  .remove (machine machineId instant) "note"
    { chunkIds := [], domain := "general", attachmentIds := [] } (fun _ => instant)

def addNote (machineId : String) (instant : Nat) : Action :=
  .ingest (machine machineId instant) "note" note [] .readd

theorem recorded_oneNote : Recorded oneNote := by
  refine ⟨fun t ht => absurd ht List.not_mem_nil, fun m t ht => ?_⟩
  by_cases hm : m = "desk" <;> simp [oneNote, hm, Stores.fresh] at ht

/-- The machine that deleted the note and added it again keeps it. -/
theorem sparesReadded_run_iff_note :
    Along act SparesReadded oneNote
      [removeNote "desk" 10, .export_ (machine "desk" 11) none, addNote "desk" 12,
        .import_ (machine "desk" 13) false .remoteWins] :=
  (sparesReadded_run_iff recorded_oneNote _).mpr (by decide)

/-- The note that the second machine added again goes with its next import. -/
theorem not_sparesReadded_run :
    ¬ Along act SparesReadded oneNote
      [removeNote "desk" 10, .export_ (machine "desk" 11) none, addNote "laptop" 12,
        .import_ (machine "laptop" 13) false .remoteWins] := by
  decide

end Cerid.Sync
