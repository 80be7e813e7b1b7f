import Cerid.Lib.Reread
import Cerid.Processor.Queue

/-!
# The hash of a job

A record is kept as a hash of texts: `recordToMapping` writes it and `mappingToRecord` reads it.
The empty text stands for None, so an empty text of the record's own is read back as None
(`roundTrips_iff`).
-/

namespace Cerid.Processor.Hash

open Document

/-- The texts of the standard library: of documents, floats, integers and dates.  A float that is
none is not a number. -/
structure Library (F D : Type) [Floats F] where
  dumps : Doc F → String
  loads : String → Option (Object F)
  floatStr : Option F → String
  floatOf : String → Option (Option F)
  intOf : String → Option Int
  isoformat : D → String
  fromisoformat : String → Option D
  zero : F
  loads_dumps : ∀ d, loads (dumps d) = some (Object.ofDoc d)
  dumps_ne : ∀ d, dumps d ≠ ""
  floatOf_floatStr : ∀ x, floatOf (floatStr x) = some x
  floatStr_ne : ∀ x, floatStr x ≠ ""
  intOf_intText : ∀ n, intOf (String.ofList (intText n)) = some n
  fromisoformat_isoformat : ∀ d, fromisoformat (isoformat d) = some d
  isoformat_ne : ∀ d, isoformat d ≠ ""

/-- A record with its payloads.  Where a field is annotated with a type, a reader may find None
all the same. -/
structure JobRecord (F D P : Type) where
  id : Option String
  jobType : Option String
  state : JobState
  priority : Priority
  payload : P
  enqueuedAt : D
  retryCount : Option Int
  startedAt : Option D
  completedAt : Option D
  estimatedTokensIn : Option Int
  estimatedTokensOut : Option Int
  actualTokensIn : Option Int
  actualTokensOut : Option Int
  requiresLlm : Option Bool
  model : Option String
  errorMessage : Option String
  metadata : P
  progress : Option F

inductive Field where
  | id
  | jobType
  | state
  | priority
  | payload
  | enqueuedAt
  | retryCount
  | startedAt
  | completedAt
  | estimatedTokensIn
  | estimatedTokensOut
  | actualTokensIn
  | actualTokensOut
  | requiresLlm
  | model
  | errorMessage
  | metadata
  | progress
deriving DecidableEq, Repr

/-- The items of a dict. -/
abbrev Items (F : Type) := List (Key F × Object F)

/-- A value of `to_dict`, and of what `from_dict` is given. -/
inductive Item (F : Type) where
  | none
  | str (s : String)
  | int (n : Int)
  | bool (b : Bool)
  | float (x : Option F)
  | json (v : Object F)

abbrev Mapping := Field → Option String

variable {F D : Type} [Floats F]

/-! ## Writing -/

def stateValue : JobState → String
  | .pending => "pending"
  | .running => "running"
  | .completed => "completed"
  | .failed => "failed"
  | .paused => "paused"
  | .held => "held"

def priorityValue : Priority → String
  | .low => "low"
  | .medium => "medium"
  | .high => "high"

def Item.ofText (s : Option String) : Item F := s.elim .none .str

def Item.ofInt (n : Option Int) : Item F := n.elim .none .int

/-- `JobRecord.to_dict`. -/
def toDict (L : Library F D) (r : JobRecord F D (Items F)) : Field → Item F
  | .id => .ofText r.id
  | .jobType => .ofText r.jobType
  | .state => .str (stateValue r.state)
  | .priority => .str (priorityValue r.priority)
  | .payload => .json (.dict r.payload)
  | .enqueuedAt => .str (L.isoformat r.enqueuedAt)
  | .retryCount => .ofInt r.retryCount
  | .startedAt => .ofText (r.startedAt.map L.isoformat)
  | .completedAt => .ofText (r.completedAt.map L.isoformat)
  | .estimatedTokensIn => .ofInt r.estimatedTokensIn
  | .estimatedTokensOut => .ofInt r.estimatedTokensOut
  | .actualTokensIn => .ofInt r.actualTokensIn
  | .actualTokensOut => .ofInt r.actualTokensOut
  | .requiresLlm => r.requiresLlm.elim .none .bool
  | .model => .ofText r.model
  | .errorMessage => .ofText r.errorMessage
  | .metadata => .json (.dict r.metadata)
  | .progress => .float r.progress

/-- The text of a value, unless `json.dumps` raises. -/
def itemText (L : Library F D) : Item F → Option String
  | .none => some ""
  | .json v => v.toDoc.map L.dumps
  | .str s => some s
  | .int n => some (String.ofList (intText n))
  | .bool true => some "True"
  | .bool false => some "False"
  | .float x => some (L.floatStr x)

/-- `_record_to_mapping`.  Only the dicts may have no text. -/
def recordToMapping (L : Library F D) (r : JobRecord F D (Items F)) : Option Mapping :=
  if (itemText L (toDict L r .payload)).isSome ∧ (itemText L (toDict L r .metadata)).isSome then
    some fun field => itemText L (toDict L r field)
  else none

/-! ## Reading -/

def stateOf (s : String) : Option JobState :=
  [.pending, .running, .completed, .failed, .paused, .held].find? fun state => stateValue state = s

def priorityOf (s : String) : Option Priority :=
  [.low, .medium, .high].find? fun p => priorityValue p = s

/-- The value of a field, None for the empty text. -/
def readText (mapping : Mapping) (field : Field) : Option (Option String) :=
  (mapping field).map fun s => if s = "" then none else some s

/-- A field that is None, and one that is missing, both read as None. -/
def getText (mapping : Mapping) (field : Field) : Option String := (readText mapping field).join

/-- `payload`.  What `json.loads` raises goes up. -/
def readPayload (L : Library F D) (mapping : Mapping) : Option (Object F) :=
  match getText mapping .payload with
  | some s => L.loads s
  | none => some (.dict [])

/-- `data.get("metadata") or {}` of a value that was read. -/
def orEmpty : Object F → Object F
  | .none | .bool false | .int 0 | .str [] | .list [] | .dict [] => .dict []
  | .float x => if Floats.value x = ((0 : ℚ) : WithTop ℚ) then .dict [] else .float x
  | v => v

def readMetadata (L : Library F D) (mapping : Mapping) : Object F :=
  match getText mapping .metadata with
  | some s => orEmpty ((L.loads s).getD (.dict []))
  | none => .dict []

/-- An integer, with what a text that is no integer and a missing field read as. -/
def readInt (L : Library F D) (mapping : Mapping) (field : Field) (invalid missing : Option Int) :
    Option Int :=
  match readText mapping field with
  | none => missing
  | some none => none
  | some (some s) => (L.intOf s).elim invalid some

def readBool (mapping : Mapping) : Option Bool :=
  match readText mapping .requiresLlm with
  | none => some false
  | some none => none
  | some (some s) =>
    let lower := s.toList.map Char.toLower
    some (lower = "true".toList || lower = "1".toList)

/-- A date that may be missing. -/
def readDate (L : Library F D) (mapping : Mapping) (field : Field) : Option (Option D) :=
  match getText mapping field with
  | none => some none
  | some s => (L.fromisoformat s).map some

def readProgress (L : Library F D) (mapping : Mapping) : Option (Option F) :=
  match getText mapping .progress with
  | none => some (some L.zero)
  | some s => L.floatOf s

/-- `_mapping_to_record`. -/
def mappingToRecord (L : Library F D) (mapping : Mapping) :
    Option (JobRecord F D (Object F)) := do
  let payload ← readPayload L mapping
  let id ← readText mapping .id
  let jobType ← readText mapping .jobType
  let state ← stateOf (← getText mapping .state)
  let priority ← priorityOf (← getText mapping .priority)
  let enqueuedAt ← L.fromisoformat (← getText mapping .enqueuedAt)
  let startedAt ← readDate L mapping .startedAt
  let completedAt ← readDate L mapping .completedAt
  let progress ← readProgress L mapping
  return {
    id := id
    jobType := jobType
    state := state
    priority := priority
    payload := payload
    enqueuedAt := enqueuedAt
    retryCount := readInt L mapping .retryCount (some 0) (some 0)
    startedAt := startedAt
    completedAt := completedAt
    estimatedTokensIn := readInt L mapping .estimatedTokensIn (some 0) (some 0)
    estimatedTokensOut := readInt L mapping .estimatedTokensOut (some 0) (some 0)
    actualTokensIn := readInt L mapping .actualTokensIn none none
    actualTokensOut := readInt L mapping .actualTokensOut none none
    requiresLlm := readBool mapping
    model := getText mapping .model
    errorMessage := getText mapping .errorMessage
    metadata := readMetadata L mapping
    progress := progress }

/-! ## Equality -/

/-- `==` of floats. -/
def sameFloat : Option F → Option F → Prop
  | some x, some y => Floats.value x = Floats.value y
  | _, _ => False

/-- A record that was read equals the one that was written. -/
structure Same (r' : JobRecord F D (Object F)) (r : JobRecord F D (Items F)) : Prop where
  id : r'.id = r.id
  jobType : r'.jobType = r.jobType
  state : r'.state = r.state
  priority : r'.priority = r.priority
  payload : r'.payload.same (.dict r.payload) = true
  enqueuedAt : r'.enqueuedAt = r.enqueuedAt
  retryCount : r'.retryCount = r.retryCount
  startedAt : r'.startedAt = r.startedAt
  completedAt : r'.completedAt = r.completedAt
  estimatedTokensIn : r'.estimatedTokensIn = r.estimatedTokensIn
  estimatedTokensOut : r'.estimatedTokensOut = r.estimatedTokensOut
  actualTokensIn : r'.actualTokensIn = r.actualTokensIn
  actualTokensOut : r'.actualTokensOut = r.actualTokensOut
  requiresLlm : r'.requiresLlm = r.requiresLlm
  model : r'.model = r.model
  errorMessage : r'.errorMessage = r.errorMessage
  metadata : r'.metadata.same (.dict r.metadata) = true
  progress : sameFloat r'.progress r.progress

def RoundTrips (L : Library F D) (r : JobRecord F D (Items F)) : Prop :=
  ∃ r', (recordToMapping L r).bind (mappingToRecord L) = some r' ∧ Same r' r

/-! ## One field -/

theorem stateOf_stateValue (state : JobState) : stateOf (stateValue state) = some state := by
  cases state <;> decide

theorem priorityOf_priorityValue (p : Priority) : priorityOf (priorityValue p) = some p := by
  cases p <;> decide

theorem readText_some {mapping : Mapping} {field : Field} {s : String}
    (h : mapping field = some s) (hne : s ≠ "") : readText mapping field = some (some s) := by
  rw [readText, h, Option.map_some, if_neg hne]

theorem getText_some {mapping : Mapping} {field : Field} {s : String}
    (h : mapping field = some s) (hne : s ≠ "") : getText mapping field = some s := by
  rw [getText, readText_some h hne]
  rfl

/-- A text that may be None: the empty one is None when it is read. -/
theorem readText_ofText {L : Library F D} {mapping : Mapping} {field : Field} {s : Option String}
    (h : mapping field = itemText L (.ofText s)) :
    readText mapping field = some (s.filter (· ≠ "")) := by
  rw [readText, h]
  cases s with
  | none => rfl
  | some s =>
    by_cases hs : s = ""
    · simp [Item.ofText, itemText, hs, Option.filter]
    · simp [Item.ofText, itemText, hs, Option.filter]

theorem getText_ofText {L : Library F D} {mapping : Mapping} {field : Field} {s : Option String}
    (h : mapping field = itemText L (.ofText s)) :
    getText mapping field = s.filter (· ≠ "") := by
  rw [getText, readText_ofText h]
  rfl

theorem readInt_ofInt {L : Library F D} {mapping : Mapping} {field : Field} {n : Option Int}
    (h : mapping field = itemText L (.ofInt n)) (invalid missing : Option Int) :
    readInt L mapping field invalid missing = n := by
  cases n with
  | none => rw [readInt, readText, h]; rfl
  | some n =>
    have hne : String.ofList (intText n) ≠ "" := fun hempty =>
      intText_ne_nil n (String.ofList_eq_empty_iff.mp hempty)
    rw [readInt, readText_some h hne]
    simp only [L.intOf_intText, Option.elim_some]

theorem readBool_elim {L : Library F D} {mapping : Mapping} {b : Option Bool}
    (h : mapping .requiresLlm = itemText L (b.elim .none .bool)) : readBool mapping = b := by
  cases b with
  | none => rw [readBool, readText, h]; rfl
  | some b =>
    cases b with
    | true => rw [readBool, readText_some h (by decide)]; decide
    | false => rw [readBool, readText_some h (by decide)]; decide

theorem readDate_ofText {L : Library F D} {mapping : Mapping} {field : Field} {d : Option D}
    (h : mapping field = itemText L (.ofText (d.map L.isoformat))) :
    readDate L mapping field = some d := by
  rw [readDate, getText_ofText h]
  cases d with
  | none => rfl
  | some d =>
    rw [Option.map_some, Option.filter_some_pos (by simpa using L.isoformat_ne d)]
    simp only [L.fromisoformat_isoformat, Option.map_some]

/-! ## Round trips -/

theorem orEmpty_dict (items : Items F) : orEmpty (.dict items) = .dict items := by
  cases items <;> rfl

/-- A record that was written and read. -/
def reread (r : JobRecord F D (Items F)) (payload metadata : Object F) :
    JobRecord F D (Object F) :=
  { r with
    id := r.id.filter (· ≠ "")
    jobType := r.jobType.filter (· ≠ "")
    payload := payload
    model := r.model.filter (· ≠ "")
    errorMessage := r.errorMessage.filter (· ≠ "")
    metadata := metadata }

theorem mappingToRecord_mapping (L : Library F D) (r : JobRecord F D (Items F))
    {mapping : Mapping} (h : recordToMapping L r = some mapping) :
    ∃ payload metadata, (Object.dict r.payload).toDoc = some payload ∧
      (Object.dict r.metadata).toDoc = some metadata ∧
      mappingToRecord L mapping = some (reread r (.ofDoc payload) (.ofDoc metadata)) := by
  unfold recordToMapping at h
  split at h
  · next hsome =>
    obtain rfl := Option.some.inj h
    have hpayload : ((Object.dict r.payload).toDoc.map L.dumps).isSome = true := hsome.1
    have hmetadata : ((Object.dict r.metadata).toDoc.map L.dumps).isSome = true := hsome.2
    rw [Option.isSome_map] at hpayload hmetadata
    obtain ⟨payload, hpayload⟩ := Option.isSome_iff_exists.mp hpayload
    obtain ⟨metadata, hmetadata⟩ := Option.isSome_iff_exists.mp hmetadata
    refine ⟨payload, metadata, hpayload, hmetadata, ?_⟩
    have hreadPayload : readPayload L (fun field => itemText L (toDict L r field)) =
        some (.ofDoc payload) := by
      rw [readPayload, getText_some (by rw [toDict, itemText, hpayload]; rfl) (L.dumps_ne payload)]
      exact L.loads_dumps payload
    have hreadMetadata : readMetadata L (fun field => itemText L (toDict L r field)) =
        .ofDoc metadata := by
      rw [readMetadata,
        getText_some (by rw [toDict, itemText, hmetadata]; rfl) (L.dumps_ne metadata)]
      simp only [L.loads_dumps, Option.getD_some]
      obtain ⟨members, _, rfl⟩ := Option.map_eq_some_iff.mp hmetadata
      rw [Object.ofDoc, orEmpty_dict]
    have hstate : getText (fun field => itemText L (toDict L r field)) .state =
        some (stateValue r.state) := getText_some rfl (by cases r.state <;> decide)
    have hpriority : getText (fun field => itemText L (toDict L r field)) .priority =
        some (priorityValue r.priority) := getText_some rfl (by cases r.priority <;> decide)
    have henqueued : getText (fun field => itemText L (toDict L r field)) .enqueuedAt =
        some (L.isoformat r.enqueuedAt) := getText_some rfl (L.isoformat_ne _)
    have hprogress : readProgress L (fun field => itemText L (toDict L r field)) =
        some r.progress := by
      rw [readProgress, getText_some rfl (L.floatStr_ne r.progress)]
      exact L.floatOf_floatStr r.progress
    simp only [mappingToRecord, hreadPayload, hreadMetadata, hstate, hpriority, henqueued,
      hprogress, stateOf_stateValue, priorityOf_priorityValue, L.fromisoformat_isoformat,
      Option.bind_eq_bind, Option.bind_some, pure]
    rw [readText_ofText (L := L) (s := r.id) rfl, readText_ofText (L := L) (s := r.jobType) rfl,
      readDate_ofText (d := r.startedAt) rfl, readDate_ofText (d := r.completedAt) rfl]
    rw [getText_ofText (L := L) (s := r.model) rfl,
      getText_ofText (L := L) (s := r.errorMessage) rfl,
      readBool_elim (L := L) (b := r.requiresLlm) rfl,
      readInt_ofInt (n := r.retryCount) rfl, readInt_ofInt (n := r.estimatedTokensIn) rfl,
      readInt_ofInt (n := r.estimatedTokensOut) rfl, readInt_ofInt (n := r.actualTokensIn) rfl,
      readInt_ofInt (n := r.actualTokensOut) rfl]
    rfl
  · cases h

/-- No text of the record is empty, its payloads are what JSON gives back, and its progress is a
number. -/
structure Keepable (r : JobRecord F D (Items F)) : Prop where
  id : r.id ≠ some ""
  jobType : r.jobType ≠ some ""
  model : r.model ≠ some ""
  errorMessage : r.errorMessage ≠ some ""
  payload : (Object.dict r.payload).Kept
  metadata : (Object.dict r.metadata).Kept
  progress : r.progress ≠ none

theorem filter_ne_iff (s : Option String) : s.filter (· ≠ "") = s ↔ s ≠ some "" := by
  cases s with
  | none => exact iff_of_true rfl nofun
  | some s =>
    by_cases hs : s = ""
    · rw [hs]
      exact iff_of_false nofun fun h => h rfl
    · rw [Option.filter_some_pos (by simpa using hs)]
      exact iff_of_true rfl fun h => hs (Option.some.inj h)

theorem sameFloat_self (x : Option F) : sameFloat x x ↔ x ≠ none := by
  cases x with
  | none => exact iff_of_false id fun h => h rfl
  | some x => exact iff_of_true rfl nofun

theorem same_reread_iff {r : JobRecord F D (Items F)} {payload metadata : Doc F}
    (hpayload : (Object.dict r.payload).toDoc = some payload)
    (hmetadata : (Object.dict r.metadata).toDoc = some metadata) :
    Same (reread r (.ofDoc payload) (.ofDoc metadata)) r ↔ Keepable r := by
  constructor
  · intro h
    exact {
      id := (filter_ne_iff r.id).mp h.id
      jobType := (filter_ne_iff r.jobType).mp h.jobType
      model := (filter_ne_iff r.model).mp h.model
      errorMessage := (filter_ne_iff r.errorMessage).mp h.errorMessage
      payload := (Object.same_reread_iff hpayload).mp h.payload
      metadata := (Object.same_reread_iff hmetadata).mp h.metadata
      progress := (sameFloat_self r.progress).mp h.progress }
  · intro h
    exact {
      id := (filter_ne_iff r.id).mpr h.id
      jobType := (filter_ne_iff r.jobType).mpr h.jobType
      state := rfl
      priority := rfl
      payload := (Object.same_reread_iff hpayload).mpr h.payload
      enqueuedAt := rfl
      retryCount := rfl
      startedAt := rfl
      completedAt := rfl
      estimatedTokensIn := rfl
      estimatedTokensOut := rfl
      actualTokensIn := rfl
      actualTokensOut := rfl
      requiresLlm := rfl
      model := (filter_ne_iff r.model).mpr h.model
      errorMessage := (filter_ne_iff r.errorMessage).mpr h.errorMessage
      metadata := (Object.same_reread_iff hmetadata).mpr h.metadata
      progress := (sameFloat_self r.progress).mpr h.progress }

/-- The records that are read back as they were written. -/
theorem roundTrips_iff (L : Library F D) (r : JobRecord F D (Items F)) :
    RoundTrips L r ↔ Keepable r := by
  constructor
  · rintro ⟨r', hread, hsame⟩
    obtain ⟨mapping, hmapping, hread⟩ := Option.bind_eq_some_iff.mp hread
    obtain ⟨payload, metadata, hpayload, hmetadata, hreread⟩ :=
      mappingToRecord_mapping L r hmapping
    obtain rfl := Option.some.inj (hread.symm.trans hreread)
    exact (same_reread_iff hpayload hmetadata).mp hsame
  · intro hkeep
    obtain ⟨payload, hpayload, _⟩ := Object.ofDoc_toDoc hkeep.payload
    obtain ⟨metadata, hmetadata, _⟩ := Object.ofDoc_toDoc hkeep.metadata
    have hmapping : recordToMapping L r = some fun field => itemText L (toDict L r field) := by
      refine if_pos ⟨?_, ?_⟩
      · rw [toDict, itemText, hpayload]
        rfl
      · rw [toDict, itemText, hmetadata]
        rfl
    obtain ⟨payload, metadata, hpayload, hmetadata, hreread⟩ :=
      mappingToRecord_mapping L r hmapping
    refine ⟨_, ?_, (same_reread_iff hpayload hmetadata).mpr hkeep⟩
    rw [hmapping]
    exact hreread

/-! ## An exception without a message -/

/-- One float, zero. -/
instance zeroFloats : Floats Unit where
  repr _ := ['0', '.', '0']
  value _ := ((0 : ℚ) : WithTop ℚ)
  repr_injective _ _ _ := rfl
  repr_ne_nil _ := List.cons_ne_nil _ _
  repr_head _ c hc := by
    obtain rfl := Option.some.inj hc
    decide
  repr_bare _ := forall_of_all (by decide)
  repr_float _ := ⟨'.', by decide, by decide, by decide⟩

open Classical in
/-- What a text was written from. -/
noncomputable def inverse {α β : Type} (text : α → String) (value : α → β) (s : String) :
    Option β :=
  if h : ∃ x, text x = s then some (value h.choose) else none

theorem inverse_text {α β : Type} {text : α → String} {value : α → β}
    (h : ∀ x y, text x = text y → value x = value y) (x : α) :
    inverse text value (text x) = some (value x) := by
  have hex : ∃ y, text y = text x := ⟨x, rfl⟩
  rw [inverse, dif_pos hex, h _ x hex.choose_spec]

/-- The texts of one float and one date. -/
noncomputable def oneDate : Library Unit Unit where
  dumps d := String.ofList d.write
  loads := inverse (fun d : Doc Unit => String.ofList d.write) Object.ofDoc
  floatStr x := if x.isSome then "0.0" else "nan"
  floatOf s := if s = "0.0" then some (some ()) else if s = "nan" then some none else none
  intOf := inverse (fun n => String.ofList (intText n)) id
  isoformat _ := "2026-07-13T00:00:00"
  fromisoformat _ := some ()
  zero := ()
  loads_dumps := inverse_text fun d d' h => Object.ofDoc_of_write (String.ofList_injective h)
  dumps_ne d h := by
    obtain ⟨c, cs, hwrite, _⟩ := Doc.write_opening d
    rw [String.ofList_eq_empty_iff, hwrite] at h
    cases h
  floatOf_floatStr
    | none => by decide
    | some () => by decide
  floatStr_ne
    | none => by decide
    | some () => by decide
  intOf_intText := inverse_text fun n m h => intText_injective (String.ofList_injective h)
  fromisoformat_isoformat _ := rfl
  isoformat_ne _ := by decide

/-- A job that raised an exception whose text is empty. -/
def failedRecord : JobRecord Unit Unit (Items Unit) where
  id := some "7"
  jobType := some "digest"
  state := .failed
  priority := .low
  payload := []
  enqueuedAt := ()
  retryCount := some 0
  startedAt := some ()
  completedAt := some ()
  estimatedTokensIn := some 0
  estimatedTokensOut := some 0
  actualTokensIn := none
  actualTokensOut := none
  requiresLlm := some false
  model := none
  errorMessage := some ""
  metadata := []
  progress := some ()

/-- The empty message is read back as None. -/
theorem empty_message_lost : ¬ ∀ r : JobRecord Unit Unit (Items Unit), RoundTrips oneDate r := by
  intro hall
  obtain ⟨r', hread, hsame⟩ := hall failedRecord
  obtain ⟨mapping, hmapping, hread⟩ := Option.bind_eq_some_iff.mp hread
  obtain ⟨payload, metadata, _, _, hreread⟩ :=
    mappingToRecord_mapping oneDate failedRecord hmapping
  obtain rfl := Option.some.inj (hread.symm.trans hreread)
  exact (filter_ne_iff failedRecord.errorMessage).mp hsame.errorMessage rfl

end Cerid.Processor.Hash
