import Cerid.Lib.Dict

/-!
# The versions of a document

A document's versions are its passages over time.  A re-ingest opens the rows of
the passages the new text brings and closes those of the passages it drops; undo
closes what the newest version brought and reopens what it replaced.  Both find
the rows of a version by the time it started.

Times are UTC instants of one ISO format, so a time is a natural number, and the
empty `valid_from` or `valid_to` of a row is `none`.  Passages are named by their
chunk ids.
-/

namespace Cerid.Versions

abbrev Time := Nat

/-- The version fields of a stored row.  Every write sets the flag to what
`valid_to` says. -/
structure Row where
  validFrom : Option Time
  validTo : Option Time
  /-- `VERSION_CLOSED`. -/
  closed : Bool
  version : Nat
  flag : closed = validTo.isSome
deriving DecidableEq

/-- An entry of the node's `versions`. -/
structure Version where
  version : Nat
  contentHash : String
  validFrom : Time
deriving DecidableEq, Repr

/-- A document's rows and the fields of its node that versions use; `version` is
0 when the node has none.  A passage is in `forgotten` while a forget by version
keeping (retention or undo) is live for it. -/
structure Document where
  rows : Dict String Row
  version : Nat
  versions : List Version
  contentHash : String
  ingestedAt : Time
  forgotten : List String

def Document.priorVersion (d : Document) : Nat := if d.version = 0 then 1 else d.version

/-- A first ingest writes no version fields: its passages hold from the start. -/
def ingest (contentHash : String) (passages : List String) (now : Time) : Document where
  rows := passages.foldl (fun rows c => rows.set c (
    { validFrom := none, validTo := none, closed := false, version := 1, flag := rfl })) Dict.empty
  version := 0
  versions := []
  contentHash := contentHash
  ingestedAt := now
  forgotten := []

/-! ## Recording a version -/

/-- `CURRENT_ONLY_WHERE`. -/
def currentVersionRows (d : Document) : Dict String Row :=
  d.rows.filter (fun _ row => !row.closed)

/-- A passage the previous version had keeps the time it became true. -/
def openVersionMeta (version : Nat) (current : Option Row) (now : Time) : Row where
  validFrom := match current with
    | some row => row.validFrom
    | none => some now
  validTo := none
  closed := false
  version := version
  flag := rfl

def Row.close (row : Row) (version : Nat) (now : Time) : Row where
  validFrom := row.validFrom
  validTo := some now
  closed := true
  version := if row.version = 0 then version else row.version
  flag := rfl

/-- The passages a new version dropped stay as history. -/
def closeRows (rows : Dict String Row) (closing : List String) (version : Nat) (now : Time) :
    Dict String Row :=
  rows.mapValues (fun c row => if c ∈ closing then row.close version now else row)

/-- It stopped being true at `cutoff` or before. -/
def Row.retired (row : Row) (cutoff : Time) : Bool :=
  row.closed && row.validTo.any (fun validTo => decide (validTo ≤ cutoff))

/-- Erase the closed passages that stopped being true before `cutoff`, the start
of the oldest version kept, as a forget by retention. -/
def retireVersions (d : Document) (cutoff : Time) : Document :=
  { d with
    rows := d.rows.filter (fun _ row => !row.retired cutoff)
    forgotten := d.forgotten ++ (d.rows.filter (fun _ row => row.retired cutoff)).keys }

/-- The versions on record; the first is recorded when the second comes. -/
def recordedVersions (d : Document) : List Version :=
  if d.versions = [] then
    [{ version := d.priorVersion, contentHash := d.contentHash, validFrom := d.ingestedAt }]
  else d.versions

/-- `DOCUMENT_VERSIONS_KEPT` is set and `n` versions are more. -/
def overKept (kept n : Nat) : Bool := decide (0 < kept) && decide (kept < n)

/-- `kept` is `DOCUMENT_VERSIONS_KEPT`; 0 keeps them all. -/
def recordDocumentVersion (kept : Nat) (prev d : Document) (version : Nat) (contentHash : String)
    (now : Time) : Document :=
  let versions := recordedVersions prev ++ [{ version, contentHash, validFrom := now }]
  if overKept kept versions.length then
    let versions := versions.drop (versions.length - kept)
    let d := (versions.head?.map (fun oldest => retireVersions d oldest.validFrom)).getD d
    { d with version, versions }
  else
    { d with version, versions }

/-- The passages a forget by version keeping is live for are added back; the node
is read before and `recordDocumentVersion` runs last. -/
def reingest (kept : Nat) (d : Document) (contentHash : String) (passages : List String)
    (now : Time) : Document :=
  let current := currentVersionRows d
  let changed := d.contentHash ≠ contentHash
  let version := if changed then d.priorVersion + 1 else d.priorVersion
  let closing := current.keys.filter (fun c => c ∉ passages)
  let rows := passages.foldl
    (fun rows c => rows.set c (openVersionMeta version (current.get? c) now)) d.rows
  let forgotten := d.forgotten.filter (fun c => c ∉ passages)
  if changed then
    let rows := closeRows rows closing d.priorVersion now
    recordDocumentVersion kept d { d with rows, contentHash, forgotten } version contentHash now
  else
    -- The same text chunked differently is not a new version.
    { d with rows := rows.filter (fun c _ => c ∉ closing), contentHash, forgotten }

/-! ## Undo -/

def Row.brought (row : Row) (started : Time) : Bool :=
  !row.closed && decide (row.validFrom = some started)

def Row.replaced (row : Row) (started : Time) : Bool :=
  row.closed && decide (row.validTo = some started)

def Row.undo (row : Row) (started : Time) (older : Nat) (now : Time) : Row :=
  if row.replaced started then
    { validFrom := row.validFrom, validTo := none, closed := false, version := older, flag := rfl }
  else if row.brought started then
    { validFrom := row.validFrom, validTo := some now, closed := true, version := row.version,
      flag := rfl }
  else row

/-- The errors are those of `NothingToUndo`. -/
def undoDocument (d : Document) (now : Time) : Except String Document :=
  match d.versions.reverse with
  | newer :: older :: _ =>
    let started := newer.validFrom
    if d.rows.items.any (fun p => p.2.replaced started && decide (p.1 ∈ d.forgotten)) then
      .error "the earlier version was forgotten"
    else
      .ok { d with
        rows := d.rows.mapValues (fun _ row => row.undo started older.version now)
        version := older.version
        versions := d.versions.dropLast
        contentHash := if older.contentHash = "" then d.contentHash else older.contentHash
        forgotten := d.forgotten ++ (d.rows.filter (fun _ row => row.brought started)).keys }
  | _ => .error "this document has no earlier version"

/-! ## Reading -/

/-- A document's rows never carry `superseded_by`. -/
def isCurrent (row : Row) : Bool := row.validTo.isNone

def validAt (row : Row) : Option Time → Bool
  | none => isCurrent row
  | some asOf =>
    (match row.validFrom with
      | some start => decide (start ≤ asOf)
      | none => true) &&
    match row.validTo with
      | some stop => decide (asOf < stop)
      | none => true

/-- The passages a query as of `t` may return. -/
def asOf (d : Document) (t : Option Time) : List String :=
  (d.rows.filter (fun c row => decide (c ∉ d.forgotten) && validAt row t)).keys

/-- The passages whose `valid_to` is empty. -/
def openPassages (d : Document) : List String := (d.rows.filter (fun _ row => isCurrent row)).keys

end Cerid.Versions
