import Cerid.Lib.LastMax
import Mathlib.Data.List.Sort

/-!
# The forget registry

Entries are appended, one file a machine, and folded into an index: per subject
and forget id the entry of highest rank, then per subject the entry its live
forgets prescribe.  A `readded` entry cancels the forget it names.

Times are ISO strings of one format compared as strings, so only their order
matters and a time is a natural number.  A forget id is `"fg_"` and a random
token, and the token is a natural number.
-/

namespace Cerid.Forget

abbrev Time := Nat

abbrev ForgetId := Nat

/-- `KINDS`. -/
inductive Kind where
  | conversation
  | artifact
  | chunk
  | memory
  | operatorEntry
deriving DecidableEq, Repr

/-- `STATES`. -/
inductive State where
  | trashed
  | restored
  | purged
  | readded
deriving DecidableEq, Repr

def Kind.toJson : Kind → String
  | .conversation => "conversation"
  | .artifact => "artifact"
  | .chunk => "chunk"
  | .memory => "memory"
  | .operatorEntry => "operator_entry"

def Kind.fromJson (kind : String) : Option Kind :=
  [Kind.conversation, .artifact, .chunk, .memory, .operatorEntry].find? (·.toJson = kind)

def State.toJson : State → String
  | .trashed => "trashed"
  | .restored => "restored"
  | .purged => "purged"
  | .readded => "readded"

def State.fromJson (state : String) : Option State :=
  [State.trashed, .restored, .purged, .readded].find? (·.toJson = state)

def forgottenStates : List State := [.trashed, .purged]

structure Subject where
  kind : Kind
  id : String
deriving DecidableEq, Repr

/-- The field `at` of the source is `at_` here. -/
structure Entry where
  forgetId : ForgetId
  subject : Subject
  state : State
  at_ : Time
  machineId : String
  requestedBy : String
  userId : String
deriving DecidableEq, Repr

/-! ## Lines -/

/-- A decoded JSON object with the keys an entry reads; `none` is a missing
key. -/
structure Row where
  forgetId : Option ForgetId
  kind : Option String
  id : Option String
  state : Option String
  at_ : Option Time
  machineId : Option String
  requestedBy : Option String
  userId : Option String
deriving DecidableEq, Repr

/-- A line of a registry file: a JSON object, or text that does not decode to
one (a torn write, undecodable bytes). -/
inductive Line where
  | row (r : Row)
  | torn
deriving DecidableEq, Repr

def Entry.toJson (e : Entry) : Row where
  forgetId := some e.forgetId
  kind := some e.subject.kind.toJson
  id := some e.subject.id
  state := some e.state.toJson
  at_ := some e.at_
  machineId := some e.machineId
  requestedBy := some e.requestedBy
  userId := some e.userId

def Entry.fromJson (row : Row) : Option Entry := do
  let forgetId ← row.forgetId
  let kind ← row.kind
  let id ← row.id
  let state ← row.state
  let at_ ← row.at_
  let kind ← Kind.fromJson kind
  let state ← State.fromJson state
  if id = "" then none
  else some {
    forgetId, subject := { kind, id }, state, at_,
    machineId := row.machineId.getD "", requestedBy := row.requestedBy.getD "",
    userId := row.userId.getD "" }

def Line.entry : Line → Option Entry
  | .row r => Entry.fromJson r
  | .torn => none

/-- `Registry._parse`. -/
def parse (lines : List Line) : List Entry := lines.filterMap Line.entry

/-- The text both writers put into a file. -/
def dump (entries : List Entry) : List Line := entries.map (fun e => .row e.toJson)

@[simp] theorem Kind.fromJson_toJson (k : Kind) : Kind.fromJson k.toJson = some k := by
  cases k <;> decide

@[simp] theorem State.fromJson_toJson (s : State) : State.fromJson s.toJson = some s := by
  cases s <;> decide

theorem Entry.fromJson_toJson (e : Entry) (h : e.subject.id ≠ "") :
    Entry.fromJson e.toJson = some e := by
  simp [Entry.fromJson, Entry.toJson, h]

theorem parse_append (a b : List Line) : parse (a ++ b) = parse a ++ parse b :=
  List.filterMap_append

/-- What a writer puts into a file reads back, except for the entries of a
subject without an id. -/
theorem parse_dump (entries : List Entry) :
    parse (dump entries) = entries.filter (fun e => e.subject.id ≠ "") := by
  induction entries with
  | nil => rfl
  | cons e rest ih =>
    simp only [parse, dump, List.map_cons] at ih ⊢
    by_cases h : e.subject.id = ""
    · rw [List.filter_cons_of_neg (by simpa using h), ← ih,
        List.filterMap_cons_none (by simp [Line.entry, Entry.fromJson, Entry.toJson, h])]
    · rw [List.filter_cons_of_pos (by simpa using h), ← ih,
        List.filterMap_cons_some (b := e) (by simpa [Line.entry] using Entry.fromJson_toJson e h)]

theorem mem_parse_dump {entries : List Entry} {e : Entry} :
    e ∈ parse (dump entries) ↔ e ∈ entries ∧ e.subject.id ≠ "" := by
  rw [parse_dump, List.mem_filter, decide_eq_true_eq]

/-! ## The fold -/

def wins (new : Entry) : Option Entry → Bool
  | none => true
  | some old =>
    if old.state = .purged ∧ new.state ≠ .purged then false
    else if new.state = .purged ∧ old.state ≠ .purged then true
    else decide (old.at_ ≤ new.at_)

instance : LawfulBEq (Subject × ForgetId) := inferInstance

/-- The subjects and forgets that a `readded` entry names. -/
def cancelled (everything : List Entry) : List (Subject × ForgetId) :=
  (everything.filter (fun e => e.state = .readded)).map (fun e => (e.subject, e.forgetId))

/-- The first loop of `_index`, over the pair `(per_forget, readds)`. -/
def indexStep (cancelled : List (Subject × ForgetId))
    (acc : Dict (Subject × ForgetId) Entry × Dict Subject Entry) (entry : Entry) :
    Dict (Subject × ForgetId) Entry × Dict Subject Entry :=
  let key := (entry.subject, entry.forgetId)
  if entry.state = .readded then
    if (acc.2.get? entry.subject).all (fun r => decide (r.at_ ≤ entry.at_)) then
      (acc.1, acc.2.set entry.subject entry)
    else acc
  else if key ∉ cancelled ∧ wins entry (acc.1.get? key) then (acc.1.set key entry, acc.2)
  else acc

structure Buckets where
  forgotten : Dict Subject Entry
  other : Dict Subject Entry
  live : Dict Subject (List ForgetId)
  liveBy : Dict Subject (Dict ForgetId String)

def Buckets.start : Buckets :=
  { forgotten := .empty, other := .empty, live := .empty, liveBy := .empty }

def putIfWins (bucket : Dict Subject Entry) (subject : Subject) (entry : Entry) :
    Dict Subject Entry :=
  if wins entry (bucket.get? subject) then bucket.set subject entry else bucket

/-- The second loop of `_index`, over the items of `per_forget`. -/
def bucketStep (b : Buckets) (item : (Subject × ForgetId) × Entry) : Buckets :=
  let subject := item.1.1
  let forgetId := item.1.2
  let entry := item.2
  if entry.state ∈ forgottenStates then
    { b with
      forgotten := putIfWins b.forgotten subject entry
      live := b.live.set subject (((b.live.get? subject).getD []).insert forgetId)
      liveBy := b.liveBy.set subject
        (((b.liveBy.get? subject).getD .empty).set forgetId entry.requestedBy) }
  else { b with other := putIfWins b.other subject entry }

/-- What `_index` leaves on the registry. -/
structure Index where
  bySubject : Dict Subject Entry
  all : List Entry
  live : Dict Subject (List ForgetId)
  liveBy : Dict Subject (Dict ForgetId String)

/-- A registry before its first load. -/
def Index.start : Index := { bySubject := .empty, all := [], live := .empty, liveBy := .empty }

/-- `Registry._index`. -/
def index (everything : List Entry) : Index :=
  let folded := everything.foldl (indexStep (cancelled everything)) (.empty, .empty)
  let b := folded.1.items.foldl bucketStep Buckets.start
  let bySubject := folded.2.items.foldl (fun d item => d.setDefault item.1 item.2)
    (b.other.merge b.forgotten)
  { bySubject, all := everything, live := b.live, liveBy := b.liveBy }

/-- `Registry.state_of`. -/
def stateOf (idx : Index) (subject : Subject) : Option State :=
  (idx.bySubject.get? subject).map Entry.state

/-- `Registry.is_forgotten`. -/
def isForgotten (idx : Index) (subject : Subject) : Bool :=
  (stateOf idx subject).any (· ∈ forgottenStates)

/-- `Registry.ids_in_states`. -/
def idsInStates (idx : Index) (kind : Kind) (states : List State) : List String :=
  (idx.bySubject.items.filter (fun p => p.1.kind = kind ∧ p.2.state ∈ states)).map (fun p => p.1.id)

/-- `Registry.forgotten_ids`. -/
def forgottenIds (idx : Index) (kind : Kind) : List String := idsInStates idx kind forgottenStates

def purgedIds (idx : Index) (kind : Kind) : List String := idsInStates idx kind [.purged]

/-- `Registry.forgotten_only_by`. -/
def forgottenOnlyBy (idx : Index) (kind : Kind) (allowed : List String) : List String :=
  (idx.liveBy.items.filter (fun p =>
    p.1.kind = kind ∧ p.2.items ≠ [] ∧ ∀ r ∈ p.2.values, r ∈ allowed)).map (fun p => p.1.id)

/-- The sort key of `Registry.latest`. -/
def Entry.before (a b : Entry) : Bool :=
  decide (a.at_ < b.at_ ∨ a.at_ = b.at_ ∧
    (a.subject.kind.toJson < b.subject.kind.toJson ∨
      a.subject.kind.toJson = b.subject.kind.toJson ∧ a.subject.id ≤ b.subject.id))

/-- `Registry.latest`, without a `since`. -/
def latest (idx : Index) : List Entry :=
  idx.bySubject.values.insertionSort (fun a b => a.before b = true)

/-- `Registry.forget_entries`. -/
def forgetEntries (idx : Index) (forgetId : ForgetId) : List Entry :=
  idx.bySubject.values.filter (fun e => e.forgetId = forgetId)

end Cerid.Forget
