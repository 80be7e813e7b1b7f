import Cerid.Sync.Readd

/-!
# One record for each artifact

The shared file keeps the first record of an artifact that is exported, and a machine
passes over its own records.  A later deletion of an artifact by another machine has no
record, so the machine whose record is kept holds on to the artifact.
-/

namespace Cerid.Sync

/-! ## What imports owe to the deletions of others -/

/-- The record exported first of an artifact. -/
def firstRecord (announced : List Tombstone) (id : String) : Option Tombstone :=
  announced.find? (fun t => text t.artifactId = some id)

/-- Applying the records applies every exported deletion of another machine. -/
def AppliesDeletions (w : World) (a : Action) : Prop :=
  a.OnImport fun c => ∀ t ∈ w.announced, t.machineId ≠ some c.machineId →
    ∀ id ∈ text t.artifactId, Holds (w.stores c.machineId) id → ¬ Holds (applied c w) id

instance (w : World) (a : Action) : Decidable (AppliesDeletions w a) :=
  inferInstanceAs (Decidable (a.OnImport _))

/-- Of an artifact that the importer holds and another machine's exported deletion names,
the first exported deletion is not the importer's own. -/
def FirstIsForeign (w : World) (a : Action) : Prop :=
  a.OnImport fun c => ∀ t ∈ w.announced, t.machineId ≠ some c.machineId →
    ∀ id ∈ text t.artifactId, Holds (w.stores c.machineId) id →
      ∀ first ∈ firstRecord w.announced id, first.machineId ≠ some c.machineId

instance (w : World) (a : Action) : Decidable (FirstIsForeign w a) :=
  inferInstanceAs (Decidable (a.OnImport _))

/-- The machine that writes the file of records. -/
def Action.writes : Action → Option Settings
  | .export_ c _ => some c
  | .purgeExpired c => some c
  | .remove _ _ _ _ => none
  | .ingest _ _ _ _ _ => none
  | .import_ _ _ _ => none

/-- The retention period of no record in the file has ended when the file is written. -/
def WithinRetention (w : World) (a : Action) : Prop :=
  ∀ c ∈ a.writes, ∀ t ∈ w.folder.tombstones, unexpired c t

instance (w : World) (a : Action) : Decidable (WithinRetention w a) :=
  inferInstanceAs (Decidable (∀ c ∈ a.writes, _))

/-! ## The file has the first records -/

/-- The records of the file are the first exported record of each artifact. -/
def FirstRecords (w : World) : Prop :=
  ∀ t, t ∈ w.folder.tombstones ↔ ∃ id, firstRecord w.announced id = some t

theorem text_of_firstRecord {announced : List Tombstone} {id : String} {t : Tombstone}
    (h : firstRecord announced id = some t) : text t.artifactId = some id := by
  simpa using List.find?_some h

theorem firstRecord_isSome {announced : List Tombstone} {id : String} {t : Tombstone}
    (ht : t ∈ announced) (hid : text t.artifactId = some id) :
    ∃ first, firstRecord announced id = some first :=
  Option.isSome_iff_exists.mp (List.find?_isSome.mpr ⟨t, ht, by simpa using hid⟩)

theorem mem_file_iff {w : World} (h : FirstRecords w) {t : Tombstone} {id : String}
    (hid : text t.artifactId = some id) :
    t ∈ w.folder.tombstones ↔ firstRecord w.announced id = some t := by
  rw [h t]
  constructor
  · rintro ⟨id', ht⟩
    have heq : id' = id := Option.some.inj ((text_of_firstRecord ht).symm.trans hid)
    rw [← heq]
    exact ht
  · exact fun ht => ⟨id, ht⟩

/-- An import loses the artifact exactly when its first record is another machine's. -/
theorem not_holds_applied_iff {w : World} (h : FirstRecords w) {c : Settings} {id : String}
    (hheld : Holds (w.stores c.machineId) id) :
    ¬ Holds (applied c w) id ↔
      ∃ first, firstRecord w.announced id = some first ∧ first.machineId ≠ some c.machineId := by
  rw [applied, holds_applyTombstones, and_iff_right hheld]
  constructor
  · intro hlost
    by_contra hno
    apply hlost
    intro t ht hid
    by_contra hforeign
    exact hno ⟨t, (mem_file_iff h hid).mp ht, hforeign⟩
  · intro hfirst hown
    obtain ⟨first, hfirst, hforeign⟩ := hfirst
    have hid : text first.artifactId = some id := text_of_firstRecord hfirst
    exact hforeign (hown first ((mem_file_iff h hid).mpr hfirst) hid)

theorem appliesDeletions_iff {w : World} (h : FirstRecords w) (a : Action) :
    AppliesDeletions w a ↔ FirstIsForeign w a := by
  apply Action.onImport_congr
  intro c
  constructor
  · intro happlies t ht hforeign id hid hheld first hfirst
    have hlost := happlies t ht hforeign id hid hheld
    obtain ⟨first', hfirst', hforeign'⟩ := (not_holds_applied_iff h hheld).mp hlost
    rw [Option.mem_def, hfirst', Option.some.injEq] at hfirst
    exact hfirst ▸ hforeign'
  · intro hcond t ht hforeign id hid hheld
    apply (not_holds_applied_iff h hheld).mpr
    obtain ⟨first, hfirst⟩ := firstRecord_isSome ht hid
    exact ⟨first, hfirst, hcond t ht hforeign id hid hheld first hfirst⟩

/-! ## Every action keeps the first records -/

theorem getLast?_kept {w : World} (h : FirstRecords w) {c : Settings}
    (hret : ∀ t ∈ w.folder.tombstones, unexpired c t) (id : String) :
    (w.folder.tombstones.filter (tells c id)).getLast? = firstRecord w.announced id := by
  have hmem : ∀ t, t ∈ w.folder.tombstones.filter (tells c id) ↔
      firstRecord w.announced id = some t := by
    intro t
    rw [List.mem_filter, tells, Bool.and_eq_true, decide_eq_true_eq]
    constructor
    · exact fun ht => (mem_file_iff h ht.2.1).mp ht.1
    · intro ht
      have hid := text_of_firstRecord ht
      have hin := (mem_file_iff h hid).mpr ht
      exact ⟨hin, hid, hret t hin⟩
  cases hlast : (w.folder.tombstones.filter (tells c id)).getLast? with
  | some t => exact ((hmem t).mp (List.mem_of_getLast? hlast)).symm
  | none =>
    rw [List.getLast?_eq_none_iff] at hlast
    cases hfirst : firstRecord w.announced id with
    | none => rfl
    | some t => exact absurd ((hmem t).mpr hfirst) (by simp [hlast])

theorem FirstRecords.export_ {w : World} (h : FirstRecords w) {c : Settings}
    (hret : ∀ t ∈ w.folder.tombstones, unexpired c t) (since : Option String) :
    FirstRecords (act w (.export_ c since)) := by
  intro t
  show t ∈ exportTombstones c (w.stores c.machineId).tombstoneLog w.folder.tombstones ↔
    ∃ id, firstRecord (w.announced ++ (w.stores c.machineId).tombstoneLog.filter (unexpired c)) id
      = some t
  rw [mem_exportTombstones]
  have hfirst : ∀ id, firstRecord
      (w.announced ++ (w.stores c.machineId).tombstoneLog.filter (unexpired c)) id =
        (firstRecord w.announced id).or
          ((w.stores c.machineId).tombstoneLog.find? (tells c id)) := by
    intro id
    have htells : (fun t => decide (unexpired c t = true ∧
        decide (text t.artifactId = some id) = true)) = tells c id := by
      funext t
      rw [tells, Bool.and_comm, decide_eq_decide.mpr (by rw [← Bool.and_eq_true]), Bool.decide_coe]
    rw [firstRecord, List.find?_append, List.find?_filter, htells]
    rfl
  simp only [hfirst, getLast?_kept h hret]

theorem FirstRecords.of_eq {w w' : World} (h : FirstRecords w)
    (hfile : w'.folder.tombstones = w.folder.tombstones) (hann : w'.announced = w.announced) :
    FirstRecords w' := by
  intro t
  rw [hfile, hann]
  exact h t

/-- The file and the exported records. -/
def World.shared (w : World) : List Tombstone × List Tombstone := (w.folder.tombstones, w.announced)

theorem shared_removeContent (c : Settings) (id : String) (d : Deletion)
    (newForgetId : String → Forget.ForgetId) (w : World) :
    (removeContent c id d newForgetId w).shared = w.shared := by
  unfold removeContent
  split
  · show (recordRemoval c id d newForgetId w).shared = w.shared
    apply foldl_invariant _ (fun w' : World => w'.shared = w.shared) (p := fun _ => True) _ _
      (fun _ _ => trivial)
    · exact fun w' child h _ => h
    · rfl
  · rfl

theorem shared_ingestContent (c : Settings) (id : String) (a : Artifact)
    (passages : List (String × VectorRow)) (onForgotten : OnForgotten) (w : World) :
    (ingestContent c id a passages onForgotten w).shared = w.shared := by
  have hcreate : ∀ w', (createArtifact c id a passages w').shared = w'.shared := by
    intro w'
    unfold createArtifact
    split <;> rfl
  unfold ingestContent
  split
  · cases onForgotten
    case skip => rfl
    case readd => exact hcreate _
  · exact hcreate w

theorem FirstRecords.act {w : World} (h : FirstRecords w) {a : Action}
    (hret : WithinRetention w a) : FirstRecords (act w a) := by
  have hshared : ∀ w' : World, w'.shared = w.shared → FirstRecords w' := fun w' heq =>
    h.of_eq (congrArg Prod.fst heq) (congrArg Prod.snd heq)
  cases a with
  | remove c id d newForgetId => exact hshared _ (shared_removeContent c id d newForgetId w)
  | ingest c id a passages onForgotten =>
    exact hshared _ (shared_ingestContent c id a passages onForgotten w)
  | export_ c since => exact h.export_ (hret c rfl) since
  | import_ c force strategy => exact hshared _ rfl
  | purgeExpired c =>
    have hfile : (Sync.act w (.purgeExpired c)).folder.tombstones = w.folder.tombstones :=
      List.filter_eq_self.mpr (hret c rfl)
    exact h.of_eq hfile rfl

/-- In every run within the retention period, the imports apply every exported deletion
of another machine exactly when none of them meets an artifact of which the deletion
exported first was its own. -/
theorem appliesDeletions_run_iff {w : World} (h : FirstRecords w) (actions : List Action)
    (hret : Along act WithinRetention w actions) :
    Along act AppliesDeletions w actions ↔ Along act FirstIsForeign w actions :=
  along_iff_of FirstRecords (fun _ a hw _ => appliesDeletions_iff hw a)
    (fun _ _ hw hret => hw.act hret) h hret

/-! ## A note that two machines delete in turn -/

theorem firstRecords_oneNote : FirstRecords oneNote := by
  intro t
  simp [oneNote, Folder.empty, firstRecord]

/-- The note is deleted on one machine, and the other applies it. -/
theorem appliesDeletions_run_iff_note :
    Along act AppliesDeletions oneNote
      [.export_ (machine "desk" 8) none, .import_ (machine "laptop" 9) false .remoteWins,
        removeNote "desk" 10, .export_ (machine "desk" 11) none,
        .import_ (machine "laptop" 12) false .remoteWins] :=
  (appliesDeletions_run_iff firstRecords_oneNote _ (by decide)).mpr (by decide)

/-- The first machine deletes the note and adds it again, the second takes it over and
deletes it, and the first keeps it. -/
theorem not_appliesDeletions_run :
    Along act WithinRetention oneNote
      [removeNote "desk" 10, addNote "desk" 11, .export_ (machine "desk" 12) none,
        .import_ (machine "laptop" 13) false .remoteWins, removeNote "laptop" 14,
        .export_ (machine "laptop" 15) none, .import_ (machine "desk" 16) false .remoteWins] ∧
    ¬ Along act AppliesDeletions oneNote
      [removeNote "desk" 10, addNote "desk" 11, .export_ (machine "desk" 12) none,
        .import_ (machine "laptop" 13) false .remoteWins, removeNote "laptop" 14,
        .export_ (machine "laptop" 15) none, .import_ (machine "desk" 16) false .remoteWins] := by
  decide

end Cerid.Sync
