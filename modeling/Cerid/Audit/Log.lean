import Cerid.Lib.Chain
import Cerid.Lib.Value
import Mathlib.Data.Rat.Floor

/-!
# The audit log

A log is a directory of segments and a head.  A segment is kept as its readers see it: its
lines, each as the document it spells where it spells one, whether the last line is ended,
and its size.  `record` reads the end of the newest segment, appends a line and writes the
head; `verify` walks all lines and compares where they end with the head.
-/

namespace Cerid.Audit

open Document

/-- What the log takes from elsewhere: the digest of a text, what `int` makes of a string
and `str` of a value that is none, and the size from which a segment is full. -/
structure Env (F : Type) where
  sha256 : List Char → String
  intOfStr : Str → Option Int
  strOf : Value F → Str
  maxSegmentBytes : Nat

structure Event (F : Type) where
  ts : Str
  actor : Str
  action : Str
  target : Option Str
  outcome : Str
  detail : List (Key F × Value F)

/-- A line: white space, which JSON may or may not count as its own, a text that is not
JSON or not text at all, or a document. -/
inductive Line (F : Type) where
  | blank (spaces : Bool)
  | garbled
  | doc (w : Doc F)

structure Segment (F : Type) where
  lines : List (Line F)
  ended : Bool
  size : Nat

/-- The directory, with the segments by name and what `_read_head` finds. -/
structure Dir (F : Type) where
  files : Dict Str (Segment F)
  head : Option (Int × Str)

abbrev Entry (F : Type) := List (Key F × Value F)

variable {F : Type} [Floats F]

def GENESIS : Str := []

def Key.is (name : String) : Key F → Bool
  | .str s => s = str name
  | _ => false

/-- `entry.get(name)`. -/
def get? (entry : Entry F) (name : String) : Option (Value F) :=
  (entry.find? (fun m => Key.is name m.1)).map Prod.snd

/-! ## Segments -/

def Line.isBlank : Line F → Bool
  | .blank _ => true
  | _ => false

/-- `json.loads`. -/
def Line.loads : Line F → Option (Value F)
  | .doc w => some (Value.decode w)
  | _ => none

/-- A line that goes on: an object that follows any text but white space is not JSON. -/
def Line.glue : Line F → Line F → Line F
  | .blank true, line => line
  | _, _ => .garbled

namespace Segment

def empty : Segment F := { lines := [], ended := true, size := 0 }

/-- The records of a segment, as they read. -/
def records (s : Segment F) : List (Option (Value F)) :=
  (s.lines.filter (fun line => !line.isBlank)).map Line.loads

/-- A line that is appended stands on its own. -/
def stands (s : Segment F) : Bool :=
  s.ended ||
    match s.lines.getLast? with
    | none => true
    | some (.blank spaces) => spaces
    | some _ => false

/-- The file after so many characters of an object's text and its line end were appended. -/
def put (s : Segment F) (w : Doc F) (k : Nat) : Segment F :=
  if k = 0 then s
  else
    let piece : Line F := if k < w.write.length then .garbled else .doc w
    { lines :=
        if s.ended then s.lines ++ [piece]
        else
          match s.lines.getLast? with
          | none => [piece]
          | some last => s.lines.dropLast ++ [last.glue piece]
      ended := w.write.length < k
      size := s.size + min k (w.write.length + 1) }

end Segment

/-- `_segment_path`. -/
def segmentPath (index : Nat) : Str :=
  str "audit-" ++ spell ((Nat.toDigits 10 index).leftpad 5 '0') ++ str ".jsonl"

/-- Every segment, in the order of the names. -/
def segments (d : Dir F) : List (Str × Segment F) :=
  d.files.items.insertionSort (fun a b => a.1 ≤ b.1)

/-! ## Recording -/

/-- `canonical_bytes`, unless a key of the record does not compare. -/
def canonicalBytes (entry : Entry F) : Option (List Char) :=
  (Value.encode (.dict (entry.filter (fun m => !Key.is "hash" m.1)))).map Doc.write

def computeHash (env : Env F) (entry : Entry F) : Option Str :=
  (canonicalBytes entry).map (fun text => str (env.sha256 text))

/-- `int(value)`. -/
def toInt (env : Env F) : Value F → Option Int
  | .int n => some n
  | .bool b => some (if b then 1 else 0)
  | .float x =>
    match Floats.value x with
    | some (some q) => some (if 0 ≤ q then ⌊q⌋ else ⌈q⌉)
    | _ => none
  | .str s => env.intOfStr s
  | _ => none

/-- `str(value)`. -/
def toStr (env : Env F) : Value F → Str
  | .str s => s
  | v => env.strOf v

inductive Error where
  | actionRequired
  | emptyNewest (segment : Str)
  | unreadable (segment : Str)
  | unserialisable

/-- The number and the hash of the last record. -/
def lastOf (env : Env F) : Option (Value F) → Option (Int × Str)
  | some (.dict entry) => do
    let seq ← toInt env (← get? entry "seq")
    let hash ← get? entry "hash"
    return (seq, toStr env hash)
  | _ => none

/-- `_tail`: the next number, the hash before it and the segment to append to. -/
def tail (env : Env F) (d : Dir F) : Except Error (Int × Str × Str) :=
  let existing := segments d
  match existing.getLast? with
  | none => .ok (0, GENESIS, segmentPath 0)
  | some (name, newest) =>
    match newest.records.getLast? with
    | none => if existing.length = 1 then .ok (0, GENESIS, name) else .error (.emptyNewest name)
    | some last =>
      match lastOf env last with
      | none => .error (.unreadable name)
      | some (seq, prev) =>
        .ok (seq + 1, prev,
          if env.maxSegmentBytes ≤ newest.size then segmentPath existing.length else name)

def targetValue : Option Str → Value F
  | none => .none
  | some target => .str target

/-- The record before it has its hash. -/
def body (e : Event F) (seq : Int) (prev : Str) : Entry F := [
  (.str (str "seq"), .int seq),
  (.str (str "ts"), .str e.ts),
  (.str (str "actor"), .str e.actor),
  (.str (str "action"), .str e.action),
  (.str (str "target"), targetValue e.target),
  (.str (str "outcome"), .str e.outcome),
  (.str (str "detail"), .dict e.detail),
  (.str (str "prev"), .str prev)]

def hashMember (digest : Str) : Key F × Value F := (.str (str "hash"), .str digest)

/-- A record that is about to be appended. -/
structure Prepared (F : Type) where
  path : Str
  seq : Int
  digest : Str
  entry : Entry F
  doc : Doc F

def prepare (env : Env F) (d : Dir F) (e : Event F) : Except Error (Prepared F) :=
  if e.action = [] then .error .actionRequired
  else
    match tail env d with
    | .error error => .error error
    | .ok (seq, prev, path) =>
      match computeHash env (body e seq prev) with
      | none => .error .unserialisable
      | some digest =>
        let entry := body e seq prev ++ [hashMember digest]
        match Value.encode (.dict entry) with
        | none => .error .unserialisable
        | some doc => .ok { path, seq, digest, entry, doc }

def Dir.append (d : Dir F) (path : Str) (w : Doc F) (k : Nat) : Dir F :=
  { d with files := d.files.set path (((d.files.get? path).getD Segment.empty).put w k) }

/-- `_write_head`. -/
def Dir.writeHead (d : Dir F) (seq : Int) (digest : Str) : Dir F :=
  { d with head := some (seq, digest) }

def Prepared.line (p : Prepared F) : Nat := p.doc.write.length + 1

def record (env : Env F) (d : Dir F) (e : Event F) : Dir F × Except Error (Entry F) :=
  match prepare env d e with
  | .error error => (d, .error error)
  | .ok p => ((d.append p.path p.doc p.line).writeHead p.seq p.digest, .ok p.entry)

/-! ## Verifying -/

inductive Flaw where
  | notJson
  | notRecord
  | gap
  | unchained
  | modified

/-- `value == n` for a number `n`. -/
def isNumber (v : Option (Value F)) (n : Nat) : Bool :=
  match v with
  | some (.int m) => m = n
  | some (.bool b) => (if b then 1 else 0) = n
  | some (.float x) => Floats.value x = ((n : ℚ) : WithTop ℚ)
  | _ => false

def isText (v : Option (Value F)) (s : Str) : Bool :=
  match v with
  | some (.str t) => t = s
  | _ => false

/-- A line of the walk, against the number and the hash that are expected. -/
def checkRecord (env : Env F) (expectedSeq : Nat) (expectedPrev : Str) :
    Option (Value F) → Except Flaw Str
  | none => .error .notJson
  | some (.dict entry) =>
    if !isNumber (get? entry "seq") expectedSeq then .error .gap
    else if !isText (get? entry "prev") expectedPrev then .error .unchained
    else
      match get? entry "hash" with
      | some (.str stored) =>
        if computeHash env entry = some stored then .ok stored else .error .modified
      | _ => .error .modified
  | some _ => .error .notRecord

inductive Reason where
  | broken (segment : Str) (lineno : Nat) (flaw : Flaw)
  | headMissing
  | endRemoved (last headSeq : Int)

structure VerifyResult where
  ok : Bool
  checked : Nat
  records : Nat
  brokenAt : Option Int
  reason : Option Reason

def VerifyResult.pass (checked : Nat) : VerifyResult :=
  { ok := true, checked, records := checked, brokenAt := none, reason := none }

def VerifyResult.fail (checked : Nat) (brokenAt : Int) (reason : Reason) : VerifyResult :=
  { ok := false, checked, records := checked, brokenAt := some brokenAt, reason := some reason }

/-- The lines of all segments, with the segment and the number of each. -/
def numbered (d : Dir F) : List (Str × Nat × Line F) :=
  (segments d).flatMap (fun s => s.2.lines.zipIdx.map (fun l => (s.1, l.2 + 1, l.1)))

/-- The loop of `verify`.  The number that is expected is the number of records checked. -/
def walkLines (env : Env F) (checked : Nat) (expectedPrev : Str) :
    List (Str × Nat × Line F) → Except VerifyResult (Nat × Str)
  | [] => .ok (checked, expectedPrev)
  | (segment, lineno, line) :: rest =>
    if line.isBlank then walkLines env checked expectedPrev rest
    else
      match checkRecord env checked expectedPrev line.loads with
      | .error flaw => .error (.fail checked checked (.broken segment lineno flaw))
      | .ok stored => walkLines env (checked + 1) stored rest

def verify (env : Env F) (d : Dir F) : VerifyResult :=
  match walkLines env 0 GENESIS (numbered d) with
  | .error result => result
  | .ok (checked, expectedPrev) =>
    let last : Int := checked - 1
    match d.head with
    | none => if 0 < checked then .fail checked last .headMissing else .pass checked
    | some (headSeq, hash) =>
      if headSeq ≠ last ∨ hash ≠ expectedPrev then .fail checked last (.endRemoved last headSeq)
      else .pass checked

end Cerid.Audit
