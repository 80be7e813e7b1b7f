import Cerid.Lib.Run
import Cerid.Sync.Import

/-!
# Deletions that travel

A machine that deletes an artifact writes a record into its own log and an entry into
the forget registry.  An export merges the log into the file that all machines share,
an import deletes what the file names, and content that is ingested again is taken back
in the registry only.

The world keeps two ledgers beside what the code keeps: what has happened to artifacts,
and which records have been exported.  Every machine has a sync folder and sees the
files of the others at once.  An artifact is given with its passages; what else an
ingest writes, and its checks for near duplicates and earlier versions, are left out.
-/

namespace Cerid.Sync

open Forget (Entry ForgetId Index Subject)

/-- What happens to an artifact on some machine. -/
inductive Event where
  | deleted (t : Tombstone)
  | readded (machineId id : String)
deriving DecidableEq

/-- The machines, the folder and the registry they share, and the two ledgers. -/
structure World where
  stores : String → Stores
  folder : Folder
  registry : List Entry
  events : List Event
  announced : List Tombstone

def World.setStores (w : World) (machineId : String) (s : Stores) : World :=
  { w with stores := Function.update w.stores machineId s }

def Holds (s : Stores) (id : String) : Prop := (s.artifacts.get? id).isSome

instance (s : Stores) (id : String) : Decidable (Holds s id) :=
  inferInstanceAs (Decidable (_ = true))

/-! ## Deleting -/

/-- What `delete_artifact` reports. -/
structure Deletion where
  chunkIds : List String
  domain : String
  attachmentIds : List String
deriving DecidableEq

/-- `_owned_rows`. -/
def ownsRow (d : Deletion) (artifactIds : List String) (rowId : String) (m : Meta) : Bool :=
  rowId ∈ d.chunkIds ||
    artifactIds.any (fun aid => m.artifactId == some aid && startsWith rowId (aid ++ "_"))

/-- `delete_artifact` and `_fan_out_removal`. -/
def removeRows (d : Deletion) (artifactIds : List String) (s : Stores) : Stores :=
  { s with
    artifacts := s.artifacts.filter (fun id _ => id ∉ artifactIds)
    relationships := s.relationships.filter (fun k _ => k.1 ∉ artifactIds && k.2.1 ∉ artifactIds)
    memoryEdges := s.memoryEdges.filter (fun e => e.2.1 ≠ "RELATES_TO" || e.2.2 ∉ artifactIds)
    conversationEdges := s.conversationEdges.filter (fun e => e.1 ∉ artifactIds)
    vectors := fun domain =>
      if d.domain = "" ∨ d.domain = domain then
        (s.vectors domain).filter (fun rowId row => !ownsRow d artifactIds rowId row.metadata)
      else s.vectors domain
    corpora := s.corpora.mapValues (fun file rows =>
      if file = d.domain ++ ".jsonl" then
        rows.filter (fun row => row.key.all (fun id => id ∉ d.chunkIds))
      else rows) }

def artifactSubject (id : String) : Subject := { kind := .artifact, id }

def recordTombstone (c : Settings) (forgetId : ForgetId) (domain id : String)
    (chunkIds : List String) (w : World) : World :=
  let t : Tombstone :=
    { artifactId := some id, chunkIds, domain := some domain, deletedAt := some c.instant,
      machineId := some c.machineId }
  let s := w.stores c.machineId
  { w.setStores c.machineId { s with tombstoneLog := s.tombstoneLog ++ [t] } with
    registry := w.registry ++ [
      { forgetId, subject := artifactSubject id, state := .purged, at_ := c.instant,
        machineId := c.machineId, requestedBy := "content_lifecycle", userId := "" }]
    events := w.events ++ [.deleted t] }

/-- The records of a removal: the artifact's, and one of each attachment.  The new
forget ids are given, by artifact. -/
def recordRemoval (c : Settings) (id : String) (d : Deletion) (newForgetId : String → ForgetId)
    (w : World) : World :=
  d.attachmentIds.foldl
    (fun w child => recordTombstone c (newForgetId child) d.domain child [] w)
    (recordTombstone c (newForgetId id) d.domain id d.chunkIds w)

def removeContent (c : Settings) (id : String) (d : Deletion) (newForgetId : String → ForgetId)
    (w : World) : World :=
  if Holds (w.stores c.machineId) id then
    let recorded := recordRemoval c id d newForgetId w
    recorded.setStores c.machineId
      (removeRows d (id :: d.attachmentIds) (recorded.stores c.machineId))
  else w

/-! ## Adding again -/

/-- The entries of `record_readd`: one for each live forget of the subject. -/
def readdEntries (c : Settings) (reg : Index) (subject : Subject) : List Entry :=
  match reg.bySubject.get? subject with
  | none => []
  | some latest =>
    if latest.state ∈ Forget.forgottenStates then
      ((((reg.live.get? subject).getD []).insert latest.forgetId).insertionSort (· ≤ ·)).map
        (fun forgetId =>
          { forgetId, subject, state := .readded, at_ := c.instant, machineId := c.machineId,
            requestedBy := "ingest", userId := "" })
    else []

/-- `on_forgotten`. -/
inductive OnForgotten where
  | readd
  | skip
deriving DecidableEq, Repr

/-- The stores with a new artifact. -/
def withArtifact (id : String) (a : Artifact) (passages : List (String × VectorRow))
    (s : Stores) : Stores :=
  { s with
    artifacts := s.artifacts.set id a
    vectors := fun domain =>
      if a.domain = some domain then
        passages.foldl (fun rows p => rows.set p.1 p.2) (s.vectors domain)
      else s.vectors domain }

/-- The artifact is new, unless the machine has the content already. -/
def createArtifact (c : Settings) (id : String) (a : Artifact)
    (passages : List (String × VectorRow)) (w : World) : World :=
  if Holds (w.stores c.machineId) id then w
  else w.setStores c.machineId (withArtifact id a passages (w.stores c.machineId))

/-- `ingest_content`, which begins with `_forget_gate`. -/
def ingestContent (c : Settings) (id : String) (a : Artifact)
    (passages : List (String × VectorRow)) (onForgotten : OnForgotten) (w : World) : World :=
  if isForgottenArtifact (Forget.index w.registry) id then
    match onForgotten with
    | .skip => w
    | .readd =>
      createArtifact c id a passages { w with
        registry :=
          w.registry ++ readdEntries c (Forget.index w.registry) (artifactSubject id)
        events := w.events ++ [.readded c.machineId id] }
  else createArtifact c id a passages w

/-! ## Steps -/

inductive Action where
  | remove (c : Settings) (id : String) (d : Deletion) (newForgetId : String → ForgetId)
  | ingest (c : Settings) (id : String) (a : Artifact) (passages : List (String × VectorRow))
      (onForgotten : OnForgotten)
  | export_ (c : Settings) (since : Option String)
  | import_ (c : Settings) (force : Bool) (strategy : ConflictStrategy)
  | purgeExpired (c : Settings)

/-- One action of one machine. -/
def act (w : World) : Action → World
  | .remove c id d newForgetId => removeContent c id d newForgetId w
  | .ingest c id a passages onForgotten => ingestContent c id a passages onForgotten w
  | .export_ c since =>
    let s := w.stores c.machineId
    { w with
      folder := exportAll c since s w.folder
      announced := w.announced ++ s.tombstoneLog.filter (unexpired c) }
  | .import_ c force strategy =>
    w.setStores c.machineId
      (importAll c (Forget.index w.registry) w.folder force strategy (w.stores c.machineId)).1
  | .purgeExpired c =>
    let s := w.stores c.machineId
    { w.setStores c.machineId { s with tombstoneLog := s.tombstoneLog.filter (unexpired c) } with
      folder := { w.folder with tombstones := w.folder.tombstones.filter (unexpired c) } }

/-- What is asked of an import by its machine. -/
def Action.OnImport (p : Settings → Prop) : Action → Prop
  | .import_ c _ _ => p c
  | .remove _ _ _ _ => True
  | .ingest _ _ _ _ _ => True
  | .export_ _ _ => True
  | .purgeExpired _ => True

instance (p : Settings → Prop) [∀ c, Decidable (p c)] : (a : Action) → Decidable (a.OnImport p)
  | .import_ c _ _ => inferInstanceAs (Decidable (p c))
  | .remove _ _ _ _ => isTrue trivial
  | .ingest _ _ _ _ _ => isTrue trivial
  | .export_ _ _ => isTrue trivial
  | .purgeExpired _ => isTrue trivial

theorem Action.onImport_congr {p q : Settings → Prop} {a : Action} (h : ∀ c, p c ↔ q c) :
    a.OnImport p ↔ a.OnImport q := by
  cases a with
  | import_ c force strategy => exact h c
  | remove c id d newForgetId => exact Iff.rfl
  | ingest c id a passages onForgotten => exact Iff.rfl
  | export_ c since => exact Iff.rfl
  | purgeExpired c => exact Iff.rfl

/-- The stores of the machine once an import has applied the records of the file. -/
def applied (c : Settings) (w : World) : Stores :=
  applyTombstones c w.folder.tombstones (w.stores c.machineId)

/-! ## What applying the records leaves -/

theorem holds_deleteArtifact {c : Settings} {s : Stores} {id id' : String} {t : Tombstone} :
    Holds (deleteArtifact c s id t) id' ↔ Holds s id' ∧ id' ≠ id := by
  show ((s.artifacts.erase id).get? id').isSome ↔ _
  rw [Dict.get?_erase]
  by_cases h : id' = id
  · simp [h]
  · simp [h, Holds]

theorem holds_applyTombstone {c : Settings} {s : Stores} {t : Tombstone} {id : String} :
    Holds (applyTombstone c s t) id ↔
      Holds s id ∧ (text t.artifactId = some id → t.machineId = some c.machineId) := by
  unfold applyTombstone
  cases hid : text t.artifactId with
  | none => simp
  | some id' =>
    show Holds (if t.machineId = some c.machineId then s else
      if (s.artifacts.get? id').isNone then s else deleteArtifact c s id' t) id ↔ _
    by_cases hown : t.machineId = some c.machineId
    · simp [hown]
    · rw [if_neg hown, Option.some.injEq]
      by_cases habsent : (s.artifacts.get? id').isNone
      · rw [if_pos habsent]
        refine ⟨fun h => ⟨h, fun heq => ?_⟩, fun h => h.1⟩
        rw [heq, Option.isNone_iff_eq_none] at habsent
        rw [Holds, habsent] at h
        exact absurd h (by simp)
      · rw [if_neg habsent, holds_deleteArtifact]
        refine and_congr_right fun _ => ⟨fun h heq => absurd heq.symm h, fun h heq => ?_⟩
        exact hown (h heq.symm)

theorem holds_applyTombstones {c : Settings} {ts : List Tombstone} {s : Stores} {id : String} :
    Holds (applyTombstones c ts s) id ↔
      Holds s id ∧ ∀ t ∈ ts, text t.artifactId = some id → t.machineId = some c.machineId := by
  induction ts generalizing s with
  | nil => simp [applyTombstones]
  | cons t rest ih =>
    show Holds (applyTombstones c rest (applyTombstone c s t)) id ↔ _
    rw [ih, holds_applyTombstone, List.forall_mem_cons, and_assoc]

/-! ## What an export keeps -/

/-- The records of the file that are kept, by artifact. -/
def keptRecords (c : Settings) (shared : List Tombstone) : Dict String Tombstone :=
  shared.foldl (fun acc t =>
    match text t.artifactId with
    | some id => if unexpired c t then acc.set id t else acc
    | none => acc) .empty

/-- The record is of the artifact and has not expired. -/
def tells (c : Settings) (id : String) (t : Tombstone) : Bool :=
  text t.artifactId = some id && unexpired c t

theorem get?_keptRecords (c : Settings) (shared : List Tombstone) (id : String) :
    (keptRecords c shared).get? id = (shared.filter (tells c id)).getLast? := by
  suffices h : ∀ acc : Dict String Tombstone, (shared.foldl (fun acc t =>
      match text t.artifactId with
      | some id => if unexpired c t then acc.set id t else acc
      | none => acc) acc).get? id = ((shared.filter (tells c id)).getLast?).or (acc.get? id) by
    rw [keptRecords, h, Dict.get?_empty, Option.or_none]
  induction shared with
  | nil => exact fun acc => rfl
  | cons t rest ih =>
    intro acc
    rw [List.foldl_cons, ih]
    cases hid : text t.artifactId with
    | none => simp [tells, hid]
    | some id' =>
      by_cases hun : unexpired c t = true
      · by_cases h : id = id'
        · subst h
          rw [List.filter_cons_of_pos (by simp [tells, hid, hun]), List.getLast?_cons]
          cases (rest.filter (tells c id)).getLast? <;> simp [hun]
        · have h' : ¬ id' = id := fun e => h e.symm
          simp [tells, hid, hun, h, h']
      · simp [tells, hid, hun]

/-- The machine's own records fill in the artifacts that the file has none of. -/
theorem get?_ownRecords (c : Settings) (own : List Tombstone) (kept : Dict String Tombstone)
    (id : String) :
    (own.foldl (fun acc t =>
      match text t.artifactId with
      | some id => if (acc.get? id).isNone ∧ unexpired c t then acc.set id t else acc
      | none => acc) kept).get? id = (kept.get? id).or (own.find? (tells c id)) := by
  induction own generalizing kept with
  | nil => simp
  | cons t rest ih =>
    rw [List.foldl_cons, ih]
    cases hid : text t.artifactId with
    | none => rw [List.find?_cons_of_neg (by simp [tells, hid])]
    | some id' =>
      by_cases hun : unexpired c t = true
      · by_cases h : id = id'
        · subst h
          rw [List.find?_cons_of_pos (by simp [tells, hid, hun])]
          cases hk : kept.get? id <;> simp [hk, hun]
        · have h' : ¬ id' = id := fun e => h e.symm
          rw [List.find?_cons_of_neg (by simp [tells, hid, h'])]
          show ((if (kept.get? id').isNone ∧ unexpired c t then kept.set id' t else kept).get? id).or _
            = _
          split
          · rw [Dict.get?_set, if_neg h]
          · rfl
      · rw [List.find?_cons_of_neg (by simp [tells, hun])]
        simp [hun]

/-- The file an export leaves has one record of each artifact: the one it had, or else
the first of the machine's own. -/
theorem mem_exportTombstones {c : Settings} {own shared : List Tombstone} {t : Tombstone} :
    t ∈ exportTombstones c own shared ↔
      ∃ id, ((shared.filter (tells c id)).getLast?).or (own.find? (tells c id)) = some t := by
  have hfile : exportTombstones c own shared = (own.foldl (fun acc t =>
      match text t.artifactId with
      | some id => if (acc.get? id).isNone ∧ unexpired c t then acc.set id t else acc
      | none => acc) (keptRecords c shared)).values := rfl
  simp only [hfile, Dict.mem_values_iff, get?_ownRecords, get?_keptRecords]

end Cerid.Sync
