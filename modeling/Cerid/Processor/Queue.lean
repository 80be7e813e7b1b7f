import Cerid.Lib.Dict
import Mathlib.Data.List.Perm.Basic
import Mathlib.Logic.Function.Basic

/-!
# The processor's job queue

A job waits in one of three lists, is taken by a loop of the worker, stands in
the running set while it runs, and leaves a record either way.  Every operation
of the queue is several Redis commands, so a client is modelled by the command
it is about to send: between any two commands another client may act, the client
may die, or its command may fail.

Commands that touch neither a list, the running set nor a record (the recent
index, the metrics) are left out, and so is the retention of records, which is
weeks long and starts again with every write.
-/

namespace Cerid.Processor

/-- A job's id is a fresh uuid; fresh numbers stand for them. -/
abbrev JobId := Nat

inductive Priority where
  | low
  | medium
  | high
deriving DecidableEq, Repr

def priorityOrder : List Priority := [.high, .medium, .low]

inductive JobState where
  | pending
  | running
  | completed
  | failed
  | paused
  | held
deriving DecidableEq, Repr

def JobState.terminal : JobState → Bool
  | .completed | .failed | .held => true
  | .pending | .running | .paused => false

/-- The JSON object a job is built from. -/
abbrev Payload := Dict String String

/-- The stored payload carries every field of `dedupe_payload`. -/
def Payload.has (stored fields : Payload) : Bool :=
  fields.items.all fun field => stored.get? field.1 = some field.2

/-- Equality of the parsed payloads, in which the order of keys does not matter. -/
def Payload.same (stored payload : Payload) : Bool :=
  stored.has payload && payload.has stored

structure JobRecord where
  jobType : String
  state : JobState
  priority : Priority
  payload : Payload
  enqueuedAt : Nat
  retryCount : Nat
  requiresLlm : Bool

/-! ## Redis -/

/-- `cerid:proc:*`.  The head of a list is its left end, and the running set has
no order that a reader may rely on. -/
structure Redis where
  queue : Priority → List JobId
  job : JobId → Option JobRecord
  running : List JobId
  paused : Bool

namespace Redis

def empty : Redis :=
  { queue := fun _ => [], job := fun _ => none, running := [], paused := false }

def lpush (r : Redis) (p : Priority) (j : JobId) : Redis :=
  { r with queue := Function.update r.queue p (j :: r.queue p) }

def rpop (r : Redis) (p : Priority) : Redis :=
  { r with queue := Function.update r.queue p (r.queue p).dropLast }

/-- `LREM key 0 id`: every occurrence. -/
def lrem (r : Redis) (p : Priority) (j : JobId) : Redis :=
  { r with queue := Function.update r.queue p ((r.queue p).filter (· ≠ j)) }

def sadd (r : Redis) (j : JobId) : Redis :=
  { r with running := if j ∈ r.running then r.running else j :: r.running }

def srem (r : Redis) (j : JobId) : Redis :=
  { r with running := r.running.filter (· ≠ j) }

/-- `HSET` of a whole record. -/
def hset (r : Redis) (j : JobId) (record : JobRecord) : Redis :=
  { r with job := Function.update r.job j (some record) }

/-- `HSET` of the state alone. -/
def setState (r : Redis) (j : JobId) (state : JobState) : Redis :=
  { r with job := Function.update r.job j ((r.job j).map fun record => { record with state }) }

/-- A job's id is in a pending list or in the running set, or its record is
terminal. -/
def Recoverable (r : Redis) (j : JobId) : Prop :=
  (∃ p ∈ priorityOrder, j ∈ r.queue p) ∨ j ∈ r.running ∨
    ∃ record ∈ r.job j, record.state.terminal = true

instance (r : Redis) (j : JobId) : Decidable (r.Recoverable j) :=
  inferInstanceAs (Decidable (_ ∨ _ ∨ ∃ record ∈ r.job j, _))

end Redis

/-! ## Clients -/

/-- The ways into the queue, from `enqueue_job` to the look-up alone. -/
inductive Entry where
  | enqueueJob
  | enqueueJobIfAbsent (dedupe : Option Payload)
  | enqueue
  | enqueueIfAbsent
  | findActiveJobId

/-- A call of one of them.  The id is the one its `new_record` draws. -/
structure Call where
  entry : Entry
  id : JobId
  jobType : String
  priority : Priority
  payload : Payload
  requiresLlm : Bool
  enqueuedAt : Nat

/-- `BaseJob.new_record`. -/
def Call.newRecord (c : Call) : JobRecord where
  jobType := c.jobType
  state := .pending
  priority := c.priority
  payload := c.payload
  enqueuedAt := c.enqueuedAt
  retryCount := 0
  requiresLlm := c.requiresLlm

/-- How a job ended. -/
inductive Outcome where
  | completed
  | failed
  | held
deriving DecidableEq, Repr

def Outcome.state : Outcome → JobState
  | .completed => .completed
  | .failed => .failed
  | .held => .held

theorem Outcome.state_terminal (outcome : Outcome) : outcome.state.terminal = true := by
  cases outcome <;> rfl

/-- A client, by the command it sends next.  A record carried along is one the
client has read; `retry` is the record that `_handle_failure` enqueues again. -/
inductive Point where
  -- `_worker_loop`: dequeue, `mark_running`, the job, its outcome, its retry
  | poll
  | pop (p : Priority) (rest : List Priority)
  | load (j : JobId)
  | markLoad (j : JobId) (record : JobRecord)
  | markSave (j : JobId) (record loaded : JobRecord)
  | markExpire (j : JobId) (record : JobRecord)
  | markAdd (j : JobId) (record : JobRecord)
  | run (j : JobId) (record : JobRecord)
  | finishLoad (j : JobId) (outcome : Outcome) (retry : Option JobRecord)
  | finishSave (j : JobId) (outcome : Outcome) (retry : Option JobRecord) (loaded : JobRecord)
  | finishExpire (j : JobId) (retry : Option JobRecord)
  | finishRemove (j : JobId) (retry : Option JobRecord)
  | retrySave (j : JobId) (record : JobRecord)
  | retryExpire (j : JobId) (record : JobRecord)
  | retryPush (j : JobId) (record : JobRecord)
  -- `recover_orphaned_running`; `rest` are the ids still to come
  | members
  | recoverLoad (j : JobId) (rest : List JobId)
  | recoverSave (j : JobId) (rest : List JobId) (loaded : JobRecord)
  | recoverExpire (j : JobId) (rest : List JobId) (loaded : JobRecord)
  | recoverPush (j : JobId) (rest : List JobId) (loaded : JobRecord)
  | recoverRemove (j : JobId) (rest : List JobId)
  | recovered
  -- a call: the scan with its prunes, then the enqueue
  | lrange (c : Call) (p : Priority) (rest : List Priority) (found : List (JobId × Option Priority))
  | smembers (c : Call) (found : List (JobId × Option Priority))
  | hmget (c : Call) (j : JobId) (key : Option Priority) (rest : List (JobId × Option Priority))
  | pruneRemove (c : Call) (j : JobId) (p : Priority) (rest : List (JobId × Option Priority))
  | pruneSave (c : Call) (j : JobId) (removed : Nat) (rest : List (JobId × Option Priority))
  | save (c : Call)
  | expire (c : Call)
  | push (c : Call)
  | done

structure Config where
  concurrency : Nat
  maxRetries : Nat
  registry : List String
  pendingStaleTtl : Nat

/-- What is not the client's to decide: the clock, the order in which a set is
listed, and what becomes of the job. -/
structure Choice where
  now : Nat
  order : List JobId
  instantiates : Bool
  hold : Bool
  succeeds : Bool

/-- `SMEMBERS`, in the order chosen. -/
def Choice.members (ch : Choice) (r : Redis) : List JobId :=
  if ch.order.Perm r.running then ch.order else r.running

/-! ## One command -/

/-- The rest of the priorities of a dequeue. -/
def nextPop : List Priority → Point
  | [] => .poll
  | p :: rest => .pop p rest

/-- The end of a run: `_handle_failure` enqueues the job again while its budget
lasts. -/
def afterFinish (j : JobId) : Option JobRecord → Point
  | none => .poll
  | some record => .retrySave j record

/-- `_execute` after `mark_running`, and `_handle_failure`'s test of the budget. -/
def execute (cfg : Config) (ch : Choice) (j : JobId) (record : JobRecord) : Point :=
  if record.jobType ∉ cfg.registry ∨ ch.instantiates = false then .finishLoad j .failed none
  else if record.requiresLlm ∧ ch.hold then .finishLoad j .held none
  else if ch.succeeds then .finishLoad j .completed none
  else if record.retryCount + 1 < cfg.maxRetries then .finishLoad j .failed (some record)
  else .finishLoad j .failed none

/-- The record that `_handle_failure` builds. -/
def retryRecord (now : Nat) (record : JobRecord) : JobRecord :=
  { record with state := .pending, enqueuedAt := now, retryCount := record.retryCount + 1 }

/-- The rest of the ids of a recovery. -/
def nextRecover : List JobId → Point
  | [] => .recovered
  | j :: rest => .recoverLoad j rest

/-- No active job was found. -/
def Call.absent (c : Call) : Point :=
  match c.entry with
  | .findActiveJobId => .done
  | .enqueueJob | .enqueueJobIfAbsent _ | .enqueue | .enqueueIfAbsent => .save c

/-- The rest of the ids of a scan. -/
def nextScan (c : Call) : List (JobId × Option Priority) → Point
  | [] => c.absent
  | (j, key) :: rest => .hmget c j key rest

/-- The rest of the lists of a scan; the running set comes last. -/
def nextRange (c : Call) (found : List (JobId × Option Priority)) : List Priority → Point
  | [] => .smembers c found
  | p :: rest => .lrange c p rest found

/-- The first command of a call. -/
def Call.begin (c : Call) : Point :=
  match c.entry with
  | .enqueueJob | .enqueue => .save c
  | .enqueueJobIfAbsent _ | .enqueueIfAbsent | .findActiveJobId => nextRange c [] priorityOrder

/-- The stored job does the same work as the one called for. -/
def Call.duplicates (c : Call) (stored : JobRecord) : Bool :=
  stored.jobType == c.jobType &&
    match c.entry with
    | .enqueueJobIfAbsent (some fields) => stored.payload.has fields
    | .enqueueJobIfAbsent none | .enqueueIfAbsent | .enqueueJob | .enqueue | .findActiveJobId =>
      stored.payload.same c.payload

def isStalePending (cfg : Config) (now enqueuedAt : Nat) : Bool :=
  enqueuedAt + cfg.pendingStaleTtl < now

/-- `find_active_job_id` on one id and what `HMGET` says of it. -/
def scan (cfg : Config) (ch : Choice) (c : Call) (j : JobId) (key : Option Priority)
    (rest : List (JobId × Option Priority)) : Option JobRecord → Point
  | none => nextScan c rest
  | some stored =>
    if c.duplicates stored then
      match key with
      | none => .done
      | some p =>
        if isStalePending cfg ch.now stored.enqueuedAt then .pruneRemove c j p rest else .done
    else nextScan c rest

/-- `RPOP`: the priorities are tried in turn. -/
def popped (r : Redis) (p : Priority) (rest : List Priority) : Redis × Point :=
  match (r.queue p).getLast? with
  | none => (r, nextPop rest)
  | some j => (r.rpop p, .load j)

/-- The client's command, and the command it sends after the reply. -/
def Point.act (cfg : Config) (ch : Choice) (r : Redis) : Point → Redis × Point
  | .poll => (r, if r.paused then .poll else nextPop priorityOrder)
  | .pop p rest => popped r p rest
  | .load j => (r, (r.job j).elim .poll (.markLoad j))
  | .markLoad j record => (r, (r.job j).elim (.run j record) (.markSave j record))
  | .markSave j record loaded =>
    (r.hset j { loaded with state := .running }, .markExpire j record)
  | .markExpire j record => (r, .markAdd j record)
  | .markAdd j record => (r.sadd j, .run j record)
  | .run j record => (r, execute cfg ch j record)
  | .finishLoad j outcome retry =>
    (r, (r.job j).elim (afterFinish j retry) (.finishSave j outcome retry))
  | .finishSave j outcome retry loaded =>
    (r.hset j { loaded with state := outcome.state }, .finishExpire j retry)
  | .finishExpire j retry => (r, .finishRemove j retry)
  | .finishRemove j retry => (r.srem j, afterFinish j retry)
  | .retrySave j record => (r.hset j (retryRecord ch.now record), .retryExpire j record)
  | .retryExpire j record => (r, .retryPush j record)
  | .retryPush j record => (r.lpush record.priority j, .poll)
  | .members => (r, nextRecover (ch.members r))
  | .recoverLoad j rest =>
    (r, (r.job j).elim (.recoverRemove j rest) fun loaded =>
      if loaded.state = .running then .recoverSave j rest loaded else .recoverRemove j rest)
  | .recoverSave j rest loaded =>
    (r.hset j { loaded with state := .pending }, .recoverExpire j rest loaded)
  | .recoverExpire j rest loaded => (r, .recoverPush j rest loaded)
  | .recoverPush j rest loaded => (r.lpush loaded.priority j, .recoverRemove j rest)
  | .recoverRemove j rest => (r.srem j, nextRecover rest)
  | .recovered => (r, .recovered)
  | .lrange c p rest found =>
    (r, nextRange c (found ++ (r.queue p).map (·, some p)) rest)
  | .smembers c found => (r, nextScan c (found ++ (ch.members r).map (·, none)))
  | .hmget c j key rest => (r, scan cfg ch c j key rest (r.job j))
  | .pruneRemove c j p rest => (r.lrem p j, .pruneSave c j ((r.queue p).count j) rest)
  | .pruneSave c j _ rest => (r.setState j .failed, nextScan c rest)
  | .save c => (r.hset c.id c.newRecord, .expire c)
  | .expire c => (r, .push c)
  | .push c => (r.lpush c.priority c.id, .done)
  | .done => (r, .done)

/-- Where the client goes on when its command raises. -/
def Point.error : Point → Point
  | .poll | .pop _ _ | .load _ => .poll
  -- "abandon this tick"
  | .markLoad _ _ | .markSave _ _ _ | .markExpire _ _ | .markAdd _ _ => .poll
  | .run j record => .run j record
  -- the outcome is best effort, the retry goes ahead
  | .finishLoad j _ retry | .finishSave j _ retry _ | .finishExpire j retry
  | .finishRemove j retry => afterFinish j retry
  | .retrySave _ _ | .retryExpire _ _ | .retryPush _ _ => .poll
  -- "a broken queue must not stop the worker from starting"
  | .members | .recoverLoad _ _ | .recoverSave _ _ _ | .recoverExpire _ _ _
  | .recoverPush _ _ _ | .recoverRemove _ _ | .recovered => .recovered
  -- the scan fails open, and a prune is never fatal to it
  | .lrange c _ _ _ | .smembers c _ | .hmget c _ _ _ => c.absent
  | .pruneRemove c _ _ rest | .pruneSave c _ _ rest => nextScan c rest
  | .save _ | .push _ | .done => .done
  | .expire c =>
    match c.entry with
    | .enqueueJob | .enqueueJobIfAbsent _ => .push c
    | .enqueue | .enqueueIfAbsent | .findActiveJobId => .done

/-! ## Runs -/

/-- Whose code a client runs. -/
inductive Role where
  | loop
  | recovery
  | caller
deriving DecidableEq, Repr

def Point.role : Point → Role
  | .poll | .pop _ _ | .load _ | .markLoad _ _ | .markSave _ _ _ | .markExpire _ _
  | .markAdd _ _ | .run _ _ | .finishLoad _ _ _ | .finishSave _ _ _ _ | .finishExpire _ _
  | .finishRemove _ _ | .retrySave _ _ | .retryExpire _ _ | .retryPush _ _ => .loop
  | .members | .recoverLoad _ _ | .recoverSave _ _ _ | .recoverExpire _ _ _
  | .recoverPush _ _ _ | .recoverRemove _ _ | .recovered => .recovery
  | .lrange _ _ _ _ | .smembers _ _ | .hmget _ _ _ _ | .pruneRemove _ _ _ _
  | .pruneSave _ _ _ _ | .save _ | .expire _ | .push _ | .done => .caller

/-- Redis, the clients at work, the points at which a client died or met an
error, the jobs that an enqueue has pushed, and the next fresh id. -/
structure System where
  redis : Redis
  live : List Point
  stranded : List Point
  accepted : List JobId
  nextId : JobId

def System.init : System :=
  { redis := .empty, live := [], stranded := [], accepted := [], nextId := 0 }

inductive Action where
  /-- a call comes in -/
  | call (entry : Entry) (jobType : String) (priority : Priority) (payload : Payload)
      (requiresLlm : Bool) (enqueuedAt : Nat)
  /-- `ProcessorWorker.start`, when no client of the worker is at work -/
  | start
  /-- the `i`-th client's command -/
  | act (i : Nat) (ch : Choice)
  /-- the `i`-th client's command raises, with or without effect on Redis -/
  | fail (i : Nat) (applied : Bool) (ch : Choice)
  /-- the `i`-th client dies -/
  | drop (i : Nat)
  | pause (paused : Bool)

/-- The job that an enqueue hands over with this command. -/
def Point.accepts : Point → Option JobId
  | .push c => some c.id
  | _ => none

/-- The `i`-th client's command takes effect. -/
def System.command (s : System) (cfg : Config) (ch : Choice) (i : Nat) (p : Point) : System :=
  { s with
    redis := (p.act cfg ch s.redis).1
    live := s.live.set i (p.act cfg ch s.redis).2
    accepted := p.accepts.toList ++ s.accepted }

/-- The `i`-th client goes on as after an error. -/
def System.abandon (s : System) (i : Nat) (p q : Point) : System :=
  { s with live := s.live.set i q, stranded := p :: s.stranded }

def step (cfg : Config) (s : System) : Action → System
  | .call entry jobType priority payload requiresLlm enqueuedAt =>
    let c : Call := {
      entry, id := s.nextId, jobType, priority, payload, requiresLlm, enqueuedAt }
    { s with live := c.begin :: s.live, nextId := s.nextId + 1 }
  | .start =>
    if ∀ p ∈ s.live, p.role = .caller then { s with live := .members :: s.live } else s
  | .act i ch =>
    match s.live[i]? with
    | none => s
    | some .recovered =>
      { s with live := List.replicate cfg.concurrency .poll ++ s.live.eraseIdx i }
    | some p => s.command cfg ch i p
  | .fail i applied ch =>
    match s.live[i]? with
    | none => s
    | some p =>
      if applied then
        (s.command cfg ch i p).abandon i (p.act cfg ch s.redis).2 p.error
      else s.abandon i p p.error
  | .drop i =>
    match s.live[i]? with
    | none => s
    | some p => { s with live := s.live.eraseIdx i, stranded := p :: s.stranded }
  | .pause paused => { s with redis := { s.redis with paused } }

/-- The state after a run from the empty queue. -/
def run (cfg : Config) (actions : List Action) : System :=
  actions.foldl (step cfg) .init

end Cerid.Processor
