import Cerid.Forget.Fold
import Cerid.Lib.Run

/-!
# The forget engine

Trash, restore, purge and re-add, and what they write to the registry.  A purge
writes its receipt before the first adapter runs, and from then on a restore is
refused.  What the stores do is an input of each operation: whether an adapter
hides or restores a subject, and what its purge removes or raises.  An operation
reads the clock once, and a forget id is the next number never handed out.

The registry is read here as one file that always opens.
-/

namespace Cerid.Forget

/-! ## Adapters and receipts -/

/-- `PURGE_ORDER`, and 99 for a kind it does not list. -/
def purgeOrder : Kind → Nat
  | .artifact => 0
  | .chunk => 1
  | .memory => 2
  | .conversation => 3
  | .operatorEntry => 99

def ordered (subjects : List Subject) : List Subject :=
  subjects.insertionSort (fun a b => purgeOrder a.kind ≤ purgeOrder b.kind)

structure Adapter where
  name : String
  kinds : List Kind
deriving DecidableEq, Repr

def adapters : List Adapter := [
  { name := "artifacts", kinds := [.artifact] },
  { name := "chunks", kinds := [.chunk] },
  { name := "verified_memories", kinds := [.memory] },
  { name := "transcripts", kinds := [.conversation] },
  { name := "verification_report_graph", kinds := [.conversation] },
  { name := "redis_conversation_keys", kinds := [.conversation] },
  { name := "sync_file", kinds := [.conversation] },
  { name := "conversation_node", kinds := [.conversation] }]

def adaptersFor (kind : Kind) : List Adapter := adapters.filter (fun a => kind ∈ a.kinds)

inductive Status where
  | done
  | pending
deriving DecidableEq, Repr

/-- What a receipt says of one adapter. -/
structure Slot where
  status : Status
  error : Option String
  removed : Nat

structure Receipt where
  forgetId : ForgetId
  at_ : Time
  machineId : String
  requestedBy : String
  subjects : List Subject
  adapters : Dict String Slot

/-- A line of the file of applied forgets. -/
structure Applied where
  forgetId : ForgetId
  subject : Subject
  state : State
deriving DecidableEq, Repr

structure Engine where
  machineId : String
  file : List Line
  receipts : Dict ForgetId Receipt
  applied : List Applied
  nextId : ForgetId

/-- A machine that has forgotten nothing. -/
def Engine.start (machineId : String) : Engine where
  machineId := machineId
  file := []
  receipts := .empty
  applied := []
  nextId := 0

/-- The entries of the registry file. -/
def Engine.log (m : Engine) : List Entry := parse m.file

def Engine.reg (m : Engine) : Index := index m.log

def purgeStarted (m : Engine) (forgetId : ForgetId) : Bool := (m.receipts.get? forgetId).isSome

def record (m : Engine) (now : Time) (subjects : List Subject) (forgetId : ForgetId)
    (state : State) (requestedBy userId : String) : Engine :=
  { m with file := m.file ++ dump (subjects.map (fun s => {
      forgetId, subject := s, state, at_ := now, machineId := m.machineId, requestedBy, userId })) }

/-- `_mark_applied`, for several subjects. -/
def markApplied (m : Engine) (forgetId : ForgetId) (subjects : List Subject) (state : State) :
    Engine :=
  { m with applied := m.applied ++ subjects.map (fun s => { forgetId, subject := s, state }) }

/-! ## Trash and restore -/

def trash (m : Engine) (hides : String → Subject → Bool) (now : Time) (subjects : List Subject)
    (requestedBy userId : String) : Engine × ForgetId :=
  let forgetId := m.nextId
  let subjects := ordered subjects
  let m := record { m with nextId := m.nextId + 1 } now subjects forgetId .trashed requestedBy userId
  let hidden := subjects.filter (fun s => (adaptersFor s.kind).all (fun a => hides a.name s))
  (markApplied m forgetId hidden .trashed, forgetId)

/-- Why `restore` raises. -/
inductive Refusal where
  | forgetConflict
  | adapterFailed
deriving DecidableEq, Repr

def restore (m : Engine) (restores : String → Subject → Bool) (now : Time) (forgetId : ForgetId) :
    Except Refusal (Engine × Nat) :=
  let entries := forgetEntries m.reg forgetId
  if entries.any (fun e => e.state = .purged) ∨ purgeStarted m forgetId then
    .error .forgetConflict
  else
    let trashed := (entries.filter (fun e => e.state = .trashed)).map Entry.subject
    let owner := ((entries.find? (fun e => e.state = .trashed)).map Entry.userId).getD ""
    if trashed.all (fun s => (adaptersFor s.kind).all (fun a => restores a.name s)) then
      let m := record m now trashed forgetId .restored "ui" owner
      .ok (markApplied m forgetId trashed .restored, trashed.length)
    else .error .adapterFailed

/-! ## Purge -/

/-- One adapter call of the purge loop, over the receipt's adapters and the names
this attempt has touched. -/
def purgeCall (erase : String → Subject → Except String Nat)
    (acc : Dict String Slot × List String) (call : Subject × Adapter) :
    Dict String Slot × List String :=
  let name := call.2.name
  let slot := (acc.1.get? name).getD { status := .done, error := none, removed := 0 }
  let slot := if name ∈ acc.2 then slot else { slot with status := .done, error := none }
  let slot := match erase name call.1 with
    | .ok removed => { slot with removed := slot.removed + removed }
    | .error error => { slot with status := .pending, error := some error }
  (acc.1.set name slot, acc.2.insert name)

/-- The `complete` flag of one subject: some store here erases its kind, and none
of them raises. -/
def complete (erase : String → Subject → Except String Nat) (s : Subject) : Bool :=
  !(adaptersFor s.kind).isEmpty &&
    (adaptersFor s.kind).all (fun a => (erase a.name s).toOption.isSome)

def purgeSubjects (m : Engine) (erase : String → Subject → Except String Nat) (now : Time)
    (forgetId : ForgetId) (subjects : List Subject) (requestedBy userId : String) :
    Engine × Receipt :=
  let subjects := ordered subjects
  let prior := m.receipts.get? forgetId
  let listed := ((prior.map Receipt.subjects).getD []).filter (· ∉ subjects) ++ subjects
  let receipt : Receipt := {
    forgetId, at_ := now, machineId := m.machineId, requestedBy, subjects := listed
    adapters := (prior.map Receipt.adapters).getD .empty }
  let calls := subjects.flatMap (fun s => (adaptersFor s.kind).map (fun a => (s, a)))
  let receipt := { receipt with
    adapters := (calls.foldl (purgeCall erase) (receipt.adapters, [])).1 }
  let done := subjects.filter (complete erase)
  let m := record m now done forgetId .purged requestedBy userId
  let m := markApplied m forgetId done .purged
  ({ m with receipts := m.receipts.set forgetId receipt }, receipt)

/-- Every adapter of the receipt is done. -/
def Receipt.allDone (r : Receipt) : Bool := r.adapters.values.all (fun s => s.status = .done)

def purge (m : Engine) (erase : String → Subject → Except String Nat) (now : Time)
    (forgetId : ForgetId) : Engine × Receipt :=
  let entries := (forgetEntries m.reg forgetId).filter (fun e => e.state = .trashed)
  let owner := (entries.head?.map Entry.userId).getD ""
  purgeSubjects m erase now forgetId (entries.map Entry.subject) "ui" owner

def forgetPermanently (m : Engine) (hides : String → Subject → Bool)
    (erase : String → Subject → Except String Nat) (now : Time) (subjects : List Subject)
    (requestedBy userId : String) : Engine × Receipt :=
  let r := trash m hides now subjects requestedBy userId
  purgeSubjects r.1 erase now r.2 subjects requestedBy userId

/-- Entries by the forget they name, in the order the forgets are met. -/
def byForget (entries : List Entry) : Dict ForgetId (List Entry) :=
  entries.foldl (fun d e => d.set e.forgetId ((d.get? e.forgetId).getD [] ++ [e])) .empty

/-- One round of the loop of `empty_trash` and `retry_started_purges`: a forget,
the entries found for it, and the requester written for them. -/
def purgeGroup (erase : String → Subject → Except String Nat) (now : Time)
    (requester : List Entry → String) (acc : Engine × List ForgetId)
    (group : ForgetId × List Entry) : Engine × List ForgetId :=
  let entries := group.2
  let r := purgeSubjects acc.1 erase now group.1 (entries.map Entry.subject) (requester entries)
    ((entries.head?.map Entry.userId).getD "")
  (r.1, if r.2.allDone then acc.2 ++ [group.1] else acc.2)

/-- `requested_by` of a purge the document-version retention made. -/
def RETENTION : String := "retention"

/-- `requested_by` of an "undo this update". -/
def UNDO : String := "undo"

/-- Forgets made by version bookkeeping. -/
def VERSION_KEEPING : List String := [RETENTION, UNDO]

/-- Microseconds of a day. -/
def dayMicros : Time := 86400000000

/-- The entries `empty_trash` selects. -/
def expired (m : Engine) (now : Time) (olderThanDays : Option Nat) : List Entry :=
  (latest m.reg).filter (fun e => e.state = .trashed ∧
    (olderThanDays.all (fun days => e.at_ + days * dayMicros ≤ now) ∨ purgeStarted m e.forgetId))

def emptyTrash (m : Engine) (erase : String → Subject → Except String Nat) (now : Time)
    (olderThanDays : Option Nat) : Engine × List ForgetId :=
  (byForget (expired m now olderThanDays)).items.foldl
    (purgeGroup erase now (fun _ => if olderThanDays.any (· ≠ 0) then RETENTION else "ui")) (m, [])

/-- The entries `retry_started_purges` selects. -/
def started (m : Engine) : List Entry :=
  (latest m.reg).filter (fun e => e.state = .trashed ∧ purgeStarted m e.forgetId)

def retryStartedPurges (m : Engine) (erase : String → Subject → Except String Nat) (now : Time) :
    Engine × List ForgetId :=
  (byForget (started m)).items.foldl
    (purgeGroup erase now (fun entries => (entries.head?.map Entry.requestedBy).getD "")) (m, [])

/-! ## Re-adding -/

/-- The forgets `record_readd` cancels. -/
def cancels (idx : Index) (subject : Subject) (onlyRequestedBy : Option (List String)) :
    List ForgetId :=
  match idx.bySubject.get? subject with
  | none => []
  | some e =>
    if e.state ∈ forgottenStates then
      let forgetIds := (((idx.live.get? subject).getD []).insert e.forgetId).insertionSort (· ≤ ·)
      match onlyRequestedBy with
      | none => forgetIds
      | some allowed =>
        forgetIds.filter (fun f => (liveByOf idx.liveBy subject f).any (· ∈ allowed))
    else []

/-- `Registry.record_readd`. -/
def recordReadd (m : Engine) (now : Time) (subject : Subject) (requestedBy : String)
    (onlyRequestedBy : Option (List String)) : Engine × Bool :=
  let forgetIds := cancels m.reg subject onlyRequestedBy
  ({ m with file := m.file ++ dump (forgetIds.map (fun f => {
      forgetId := f, subject, state := .readded, at_ := now, machineId := m.machineId
      requestedBy, userId := "" })) }, !forgetIds.isEmpty)

/-- A passage an ingest is about to write; `parentId` is empty without a parent. -/
structure Passage where
  id : String
  parentId : String
deriving DecidableEq, Repr

/-- `_drop_purged_chunks`, on the records alone. -/
def dropPurgedChunks (m : Engine) (now : Time) (records : List Passage) :
    Engine × List Passage :=
  let purged := purgedIds m.reg .chunk
  let retired := forgottenOnlyBy m.reg .chunk VERSION_KEEPING
  let m := records.foldl (fun m r =>
    if r.id ∈ retired then
      (recordReadd m now { kind := .chunk, id := r.id } "ingest" (some VERSION_KEEPING)).1
    else m) m
  let purged := purged.filter (· ∉ retired)
  (m, records.filter (fun r => r.id ∉ purged ∧ r.parentId ∉ purged))

/-- `_forget_gate`: whether the ingest is skipped. -/
def forgetGate (m : Engine) (now : Time) (artifactId : String) (skip : Bool) : Engine × Bool :=
  if isForgotten m.reg { kind := .artifact, id := artifactId } then
    if skip then (m, true)
    else ((recordReadd m now { kind := .artifact, id := artifactId } "ingest" none).1, false)
  else (m, false)

/-! ## Runs -/

inductive Act where
  | trash (hides : String → Subject → Bool) (subjects : List Subject) (requestedBy userId : String)
  | restore (restores : String → Subject → Bool) (forgetId : ForgetId)
  | purge (erase : String → Subject → Except String Nat) (forgetId : ForgetId)
  | forgetPermanently (hides : String → Subject → Bool)
      (erase : String → Subject → Except String Nat) (subjects : List Subject)
      (requestedBy userId : String)
  | emptyTrash (erase : String → Subject → Except String Nat) (olderThanDays : Option Nat)
  | retryStartedPurges (erase : String → Subject → Except String Nat)
  | forgetGate (artifactId : String) (skip : Bool)
  | dropPurgedChunks (records : List Passage)

/-- One operation, at a time of the clock.  A restore that raises changes
nothing. -/
def act (m : Engine) : Time × Act → Engine
  | (now, .trash hides subjects requestedBy userId) =>
    (trash m hides now subjects requestedBy userId).1
  | (now, .restore restores forgetId) =>
    match restore m restores now forgetId with
    | .ok r => r.1
    | .error _ => m
  | (now, .purge erase forgetId) => (purge m erase now forgetId).1
  | (now, .forgetPermanently hides erase subjects requestedBy userId) =>
    (forgetPermanently m hides erase now subjects requestedBy userId).1
  | (now, .emptyTrash erase olderThanDays) => (emptyTrash m erase now olderThanDays).1
  | (now, .retryStartedPurges erase) => (retryStartedPurges m erase now).1
  | (now, .forgetGate artifactId skip) => (forgetGate m now artifactId skip).1
  | (now, .dropPurgedChunks records) => (dropPurgedChunks m now records).1

/-! ## What the operations write -/

/-- The log grew by entries that satisfy `p`. -/
def Wrote (log log' : List Entry) (p : Entry → Prop) : Prop :=
  ∃ es, log' = log ++ es ∧ ∀ e ∈ es, p e

theorem wrote_dump {m : Engine} {entries : List Entry} {p : Entry → Prop}
    (h : ∀ e ∈ entries, p e) :
    Wrote m.log (parse (m.file ++ dump entries)) p :=
  ⟨parse (dump entries), parse_append _ _, fun e he => h e (mem_parse_dump.mp he).1⟩

theorem record_log (m : Engine) (now : Time) (subjects : List Subject) (f : ForgetId)
    (state : State) (requestedBy userId : String) :
    Wrote m.log (record m now subjects f state requestedBy userId).log (fun e =>
      e.state = state ∧ e.forgetId = f ∧ e.requestedBy = requestedBy ∧ e.subject ∈ subjects) := by
  refine wrote_dump (fun e he => ?_)
  obtain ⟨s, hs, rfl⟩ := List.mem_map.mp he
  exact ⟨rfl, rfl, rfl, hs⟩

theorem mem_ordered {subjects : List Subject} {s : Subject} :
    s ∈ ordered subjects ↔ s ∈ subjects :=
  List.mem_insertionSort _

theorem purgeSubjects_log (m : Engine) (erase : String → Subject → Except String Nat) (now : Time)
    (f : ForgetId) (subjects : List Subject) (requestedBy userId : String) :
    Wrote m.log (purgeSubjects m erase now f subjects requestedBy userId).1.log (fun e =>
      e.state = .purged ∧ e.forgetId = f ∧ e.requestedBy = requestedBy ∧ e.subject ∈ subjects ∧
        complete erase e.subject = true) := by
  obtain ⟨es, hlog, hes⟩ := record_log m now ((ordered subjects).filter (complete erase)) f .purged
    requestedBy userId
  refine ⟨es, hlog, fun e he => ?_⟩
  obtain ⟨hstate, hf, hr, hs⟩ := hes e he
  rw [List.mem_filter, mem_ordered] at hs
  exact ⟨hstate, hf, hr, hs⟩

theorem mem_latest {log : List Entry} {e : Entry} :
    e ∈ latest (index log) ↔ (index log).bySubject.get? e.subject = some e := by
  rw [latest, List.mem_insertionSort, Dict.mem_values_iff]
  constructor
  · rintro ⟨s, hs⟩
    rw [bySubject_subject hs]
    exact hs
  · intro h
    exact ⟨e.subject, h⟩

theorem mem_of_mem_latest {log : List Entry} {e : Entry} (h : e ∈ latest (index log)) : e ∈ log := by
  rcases bySubject_spec (mem_latest.mp h) with ⟨hw, -⟩ | ⟨hw, -⟩ | ⟨he, -⟩
  · exact (winner_mem hw).1
  · exact (winner_mem hw).1
  · exact he

theorem mem_forgetEntries {log : List Entry} {f : ForgetId} {e : Entry}
    (h : e ∈ forgetEntries (index log) f) : e ∈ log ∧ e.forgetId = f := by
  rw [forgetEntries, List.mem_filter, decide_eq_true_eq] at h
  refine ⟨mem_of_mem_latest ?_, h.2⟩
  rw [latest, List.mem_insertionSort]
  exact h.1

theorem mem_byForget {entries : List Entry} {f : ForgetId} {es : List Entry}
    (h : (f, es) ∈ (byForget entries).items) : ∀ e ∈ es, e ∈ entries ∧ e.forgetId = f := by
  have hget := (Dict.mem_items_iff _ _ _).mp h
  rw [byForget, Dict.get?_foldl_gather Entry.forgetId, Dict.get?_empty] at hget
  split at hget
  · cases hget
  · rw [Option.some.injEq, Option.getD_none, List.nil_append] at hget
    intro e he
    rw [← hget, List.mem_filter, decide_eq_true_eq] at he
    exact he

theorem restore_log {m : Engine} {restores : String → Subject → Bool} {now : Time} {f : ForgetId}
    {r : Engine × Nat} (h : restore m restores now f = .ok r) :
    Wrote m.log r.1.log (fun e => e.state = .restored ∧ ∃ x ∈ m.log, x.forgetId = e.forgetId) ∧
      r.1.nextId = m.nextId := by
  unfold restore at h
  simp only at h
  split at h
  · cases h
  · split at h
    · rw [Except.ok.injEq] at h
      rw [← h]
      obtain ⟨es, hlog, hes⟩ := record_log m now _ f .restored "ui" _
      refine ⟨⟨es, hlog, fun e he => ⟨(hes e he).1, ?_⟩⟩, rfl⟩
      obtain ⟨x, hx, -⟩ := List.mem_map.mp (hes e he).2.2.2
      obtain ⟨hxl, hxf⟩ := mem_forgetEntries (List.mem_of_mem_filter hx)
      exact ⟨x, hxl, hxf.trans (hes e he).2.1.symm⟩
    · cases h

end Cerid.Forget
