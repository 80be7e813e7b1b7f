import Cerid.Lib.Dict
import Cerid.Lib.Successor
import Mathlib.Data.List.Sort
import Mathlib.Data.Prod.Lex
import Mathlib.Data.String.Basic

/-!
# The lineage writer

A lineage is a chain of versions, nodes of one graph that share a `lineage_id`.
`supersede` closes a version in favour of another and merges their lineages;
`settle_lineage` recomputes a lineage from which of its versions are forgotten.
A graph query is one function here, and a step that can fail by itself.

Times are strings of one ISO format, compared as strings, so a time is a natural
number; a null property is `none`.  A node is an `:Artifact` or a `:Memory`, and
the queries read both alike.
-/

namespace Cerid.Lineage

abbrev Time := Nat

structure Node where
  lineageId : Option String
  version : Option Nat
  ingestedAt : Option Time
  createdAt : Option Time
  validFrom : Option Time
  validTo : Option Time
  supersededBy : Option String
  supersededValidTo : Option Time
  invalidAt : Option Time
  updatedAt : Option Time
deriving DecidableEq, Repr

/-- The values of `closed_by`: `"trash:"` and the source, or the version that
closed the fact. -/
inductive ClosedBy where
  | trash (sourceArtifactId : String)
  | version (id : String)
deriving DecidableEq, Repr

structure Fact where
  sourceArtifactId : String
  predicate : String
  validTo : Option Time
  invalidAt : Option Time
  closedBy : Option ClosedBy
deriving DecidableEq, Repr

/-- An edge `(newer, older)` is `(newer)-[:SUPERSEDES]->(older)`. -/
structure Graph where
  nodes : Dict String Node
  edges : List (String × String)
  facts : Dict String Fact

/-- `MERGE`. -/
def mergeEdge (edges : List (String × String)) (e : String × String) : List (String × String) :=
  if e ∈ edges then edges else edges ++ [e]

/-- `coalesce(n.ingested_at, n.created_at, '')`; the empty string is before every
time. -/
def Node.ingested (n : Node) : Nat :=
  match n.ingestedAt <|> n.createdAt with
  | none => 0
  | some t => t + 1

/-- `ORDER BY` the time of ingest, then the id. -/
def ingestKeys (nodes : Dict String Node) (q : String → Node → Bool) : List (Nat ×ₗ String) :=
  ((nodes.items.filter (fun p => q p.1 p.2)).map
    (fun p => toLex (p.2.ingested, p.1))).insertionSort (· ≤ ·)

def byIngest (nodes : Dict String Node) (q : String → Node → Bool) : List String :=
  (ingestKeys nodes q).map (fun k => (ofLex k).2)

/-- The versions of a lineage, oldest first. -/
def lineageMembers (nodes : Dict String Node) (lineage : String) : List String :=
  byIngest nodes (fun _ n => n.lineageId = some lineage)

/-- `state_predicates`: the memory types whose facts describe a current state. -/
def statePredicates : List String := ["decision", "empirical", "preference"]

def Fact.isState (f : Fact) : Bool := decide (f.predicate ∈ statePredicates)

/-! ## The queries of supersede -/

structure Pair where
  oldSup : Option String
  oldLin : String
  newLin : String
  newSup : Option String
  newValidTo : Option Time
  oldValidTo : Option Time
  oldInvalidAt : Option Time
  edge : Bool
  newHasHistory : Bool
deriving DecidableEq, Repr

def readPair (g : Graph) (old new : String) : Option Pair := do
  let o ← g.nodes.get? old
  let n ← g.nodes.get? new
  let newLin := n.lineageId.getD new
  some {
    oldSup := o.supersededBy
    oldLin := o.lineageId.getD old
    newLin
    newSup := n.supersededBy
    newValidTo := n.validTo
    oldValidTo := o.validTo
    oldInvalidAt := o.invalidAt
    edge := decide ((new, old) ∈ g.edges)
    newHasHistory := g.nodes.items.any
      (fun p => decide (p.2.lineageId = some newLin) && decide (p.1 ≠ new)) }

/-- `n.lineage_id IN $lins OR n.id IN $ids`. -/
def Pair.covers (pair : Pair) (old new id : String) (n : Node) : Bool :=
  n.lineageId.any (fun lin => decide (lin = pair.oldLin ∨ lin = pair.newLin)) ||
    decide (id = old ∨ id = new)

/-- A row of `_MEMBERS`. -/
structure Member where
  id : String
  lineageId : Option String
  version : Option Nat
deriving DecidableEq, Repr

def members (g : Graph) (pair : Pair) (old new : String) : List Member :=
  (g.nodes.filter (pair.covers old new)).items.map
    (fun p => { id := p.1, lineageId := p.2.lineageId, version := p.2.version })

def Node.closeFor (n : Node) (successor : String) (validTo now : Time) : Node :=
  { n with supersededBy := some successor, validTo := some validTo, invalidAt := some now,
           supersededValidTo := some validTo }

/-- What `_LINK` writes. -/
def linkWrites (g : Graph) (pair : Pair) (old new : String) (validTo now : Time)
    (lineage : String) : Graph :=
  { g with
    nodes := (g.nodes.mapValues
      (fun id n => if id = old then n.closeFor new validTo now else n)).mapValues
      (fun id n => if pair.covers old new id n then { n with lineageId := some lineage } else n)
    edges := mergeEdge g.edges (new, old) }

/-- `_LINK`; it matches nothing when one of the two is superseded meanwhile. -/
def link (g : Graph) (pair : Pair) (old new : String) (validTo now : Time) (lineage : String) :
    Option Graph := do
  let o ← g.nodes.get? old
  let n ← g.nodes.get? new
  if o.supersededBy.isSome || n.supersededBy.isSome then none
  else some (linkWrites g pair old new validTo now lineage)

def Node.renumber (n : Node) (version : Nat) (now : Time) : Node :=
  { n with version := some version, updatedAt := some now }

def renumber (g : Graph) (lineage : String) (now : Time) : Graph :=
  let ns := lineageMembers g.nodes lineage
  { g with
    nodes := g.nodes.mapValues (fun id n =>
      if n.lineageId = some lineage then n.renumber (ns.idxOf id + 1) now else n) }

def closeOldFacts (g : Graph) (old new : String) (validTo now : Time) : Graph :=
  if g.facts.values.any (fun f => decide (f.sourceArtifactId = new)) then
    { g with
      facts := g.facts.mapValues (fun _ f =>
        if f.sourceArtifactId = old ∧ f.validTo = none ∧ f.isState = true then
          { f with validTo := some validTo, invalidAt := some now, closedBy := some (.version new) }
        else f) }
  else g

def undoLink (g : Graph) (old new : String) (validTo invalidAt : Option Time) (dropEdge : Bool) :
    Graph :=
  { g with
    nodes := g.nodes.mapValues (fun id n =>
      if id = old then
        { n with supersededBy := none, validTo := validTo, invalidAt := invalidAt,
                 supersededValidTo := validTo }
      else n)
    edges := if dropEdge then g.edges.filter (fun e => e ≠ (new, old)) else g.edges }

/-- `_RESTORE_MEMBER`, for each member read before. -/
def restoreMembers (g : Graph) (before : List Member) : Graph :=
  { g with
    nodes := g.nodes.mapValues (fun id n =>
      match before.find? (fun m => m.id = id) with
      | some m => { n with lineageId := m.lineageId, version := m.version }
      | none => n) }

def reopenOldFacts (g : Graph) (old new : String) : Graph :=
  { g with
    facts := g.facts.mapValues (fun _ f =>
      if f.sourceArtifactId = old ∧ f.closedBy = some (.version new) then
        { f with validTo := none, invalidAt := none, closedBy := none }
      else f) }

def undo (g : Graph) (old new : String) (pair : Pair) (before : List Member) : Graph :=
  reopenOldFacts
    (restoreMembers (undoLink g old new pair.oldValidTo pair.oldInvalidAt (!pair.edge)) before)
    old new

/-! ## Supersede -/

structure SupersedeResult where
  ok : Bool
  lineageId : String
  version : Nat
  reason : String
deriving DecidableEq, Repr

def refused (reason : String) : SupersedeResult where
  ok := false
  lineageId := ""
  version := 0
  reason := reason

/-- The steps of `supersede` that reach a store. -/
inductive Step where
  | readPair
  | members
  | link
  | renumber
  | closeOldFacts
  | stampRows
deriving DecidableEq, Repr

/-- The checks before anything is written; `.error` is the answer given at once. -/
def admission (old new : String) (pair : Pair) : Except SupersedeResult Pair :=
  if pair.oldSup = some new then
    .error { ok := true, lineageId := pair.newLin, version := 0,
             reason := "already superseded by this version" }
  else
    match pair.oldSup with
    | some other => .error (refused (old ++ " is already superseded by " ++ other))
    | none =>
      if pair.newSup.isSome || pair.newValidTo.isSome then
        .error (refused (new ++ " is not the current version"))
      else .ok pair

def Pair.lineage (pair : Pair) : String := if pair.newHasHistory then pair.newLin else pair.oldLin

/-- What follows `_LINK`: a failing step puts the graph back. -/
def finish (g : Graph) (old new : String) (pair : Pair) (before : List Member)
    (validTo now : Time) (failing : Option Step) : Graph × SupersedeResult :=
  if failing = some .renumber then
    (undo g old new pair before, refused "not applied")
  else
    let g₁ := renumber g pair.lineage now
    if failing = some .closeOldFacts then
      (undo g₁ old new pair before, refused "not applied")
    else
      let g₂ := closeOldFacts g₁ old new validTo now
      if failing = some .stampRows then
        (undo g₂ old new pair before, refused "not applied")
      else
        (g₂, { ok := true, lineageId := pair.lineage,
               version := ((g₁.nodes.get? new).bind Node.version).getD 0, reason := "" })

/-- `chroma` tells whether there is a vector store, and `failing` the step that
fails, if any.  A result `none` is an exception that reaches the caller. -/
def supersede (g : Graph) (chroma : Bool) (old new : String) (validTo : Option Time) (now : Time)
    (failing : Option Step) : Graph × Option SupersedeResult :=
  if old = "" ∨ new = "" ∨ old = new then
    (g, some (refused "a version cannot supersede itself"))
  else if chroma = false then (g, some (refused "no vector store to stamp"))
  else if failing = some .readPair then (g, none)
  else
    match readPair g old new with
    | none => (g, some (refused "version not found"))
    | some pair =>
      match admission old new pair with
      | .error answer => (g, some answer)
      | .ok pair =>
        if failing = some .members ∨ failing = some .link then (g, none)
        else
          let validTo := validTo.getD now
          match link g pair old new validTo now pair.lineage with
          | none => (g, some (refused "the versions changed while superseding"))
          | some linked =>
            let done := finish linked old new pair (members g pair old new) validTo now failing
            (done.1, some done.2)

/-! ## Settle -/

/-- A version that is not current, and the next one that is not forgotten. -/
structure HistoryRow where
  id : String
  successor : String
  validTo : Time
deriving DecidableEq, Repr

/-- `closed_at or valid_to or now`. -/
def Node.closingTime (n : Node) (now : Time) : Time :=
  (n.supersededValidTo <|> n.validTo).getD now

def historyRow (nodes : Dict String Node) (visible : List String) (now : Time) (id : String) :
    Option HistoryRow := do
  let successor ← nextIn visible id
  let n ← nodes.get? id
  some { id, successor, validTo := n.closingTime now }

/-- `_SET_CURRENT`, when there is a current version. -/
def setCurrent (g : Graph) (current : Option String) : Graph :=
  { g with
    nodes := g.nodes.mapValues (fun id n =>
      if some id = current then { n with supersededBy := none, validTo := none, invalidAt := none }
      else n) }

def setHistory (g : Graph) (history : List HistoryRow) (now : Time) : Graph :=
  { g with
    nodes := g.nodes.mapValues (fun id n =>
      match history.find? (fun row => row.id = id) with
      | some row =>
        { n with supersededBy := some row.successor, validTo := some row.validTo,
                 supersededValidTo := some row.validTo, invalidAt := some (n.invalidAt.getD now) }
      | none => n)
    edges := history.foldl (fun edges row => mergeEdge edges (row.successor, row.id)) g.edges }

def factsForgotten (hidden : List String) (now : Time) (f : Fact) : Fact :=
  if f.sourceArtifactId ∈ hidden ∧ f.validTo = none then
    { f with validTo := some now, invalidAt := some now,
             closedBy := some (.trash f.sourceArtifactId) }
  else f

def factsBack (visible : List String) (f : Fact) : Fact :=
  if f.sourceArtifactId ∈ visible ∧ f.closedBy = some (.trash f.sourceArtifactId) then
    { f with validTo := none, invalidAt := none, closedBy := none }
  else f

def factsCurrent (current : Option String) (f : Fact) : Fact :=
  if some f.sourceArtifactId = current ∧ f.closedBy.isSome = true ∧ f.isState = true then
    { f with validTo := none, invalidAt := none, closedBy := none }
  else f

def factsHistory (history : List HistoryRow) (now : Time) (f : Fact) : Fact :=
  match history.find? (fun row => row.id = f.sourceArtifactId) with
  | some row =>
    if f.validTo = none ∧ f.isState = true then
      { f with validTo := some row.validTo, invalidAt := some now,
               closedBy := some (.version row.successor) }
    else f
  | none => f

def Graph.mapFacts (g : Graph) (f : Fact → Fact) : Graph :=
  { g with facts := g.facts.mapValues (fun _ fact => f fact) }

/-- The graph after a settle, and the current version, if any. -/
def settleLineage (g : Graph) (lineage : String) (forgotten : String → Bool) (now : Time) :
    Graph × Option String :=
  if lineage = "" then (g, none)
  else
    let versions := lineageMembers g.nodes lineage
    let visible := versions.filter (fun id => !forgotten id)
    let hidden := versions.filter forgotten
    let history := visible.filterMap (historyRow g.nodes visible now)
    let current := visible.getLast?
    let g := (g.mapFacts (factsForgotten hidden now)).mapFacts (factsBack visible)
    let g := (setCurrent g current).mapFacts (factsCurrent current)
    let g := (setHistory g history now).mapFacts (factsHistory history now)
    (renumber g lineage now, current)

end Cerid.Lineage
