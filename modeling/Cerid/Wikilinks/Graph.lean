import Cerid.Lib.Text
import Mathlib.Data.List.Dedup

/-!
# Wikilinks

A link of a note is written as an edge to an artifact whose file name ends with the target, or
to a placeholder of that name.  An artifact that lands takes over the edges of the placeholders
that its stem or an alias names.

A note is what an ingest reads of a file: the hash of its text, which is the artifact's id, its
file name, its aliases, the passage that the links are put on, and the links of each section.
Files keep their text and have paths of their own, no passage is purged, and the graph answers
every query.  Placeholders are kept as targets of edges, and an edge to one is a pending edge.
-/

namespace Cerid.Wikilinks

structure WikilinkRef where
  target : String
  displayAlias : String
  heading : String
  isEmbed : Bool
  deriving DecidableEq, Repr

structure Note where
  id : String
  filename : String
  /-- The strings of the frontmatter's `aliases`. -/
  aliases : List String := []
  /-- The first of the note's retrieval chunks. -/
  chunkId : String
  sections : List (List WikilinkRef)
  deriving DecidableEq, Repr

inductive RelType where
  | wikilinksTo | embeds
  deriving DecidableEq, Repr

inductive Target where
  | artifact (id : String)
  | placeholder (name : String)
  deriving DecidableEq, Repr

structure Edge where
  source : String
  rel : RelType
  sourceChunkId : String
  target : Target
  displayAlias : String
  heading : String
  deriving DecidableEq, Repr

structure Graph where
  artifacts : List Note
  edges : List Edge

/-! ## Names -/

/-- The last part of a path; empty parts and `.` do not count. -/
def pathName (path : List Char) : List Char :=
  ((path.splitOn '/').filter (fun part => part ≠ [] ∧ part ≠ ['.'])).getLast?.getD []

/-- `_filename_stem`: the name without the suffix after its last dot. -/
def filenameStem (filename : String) : String :=
  let name := pathName filename.toList
  let suffix := name.reverse.takeWhile (· ≠ '.')
  let dot := name.length - suffix.length - 1
  if '.' ∈ name ∧ 0 < dot ∧ suffix ≠ [] then String.ofList (name.take dot)
  else String.ofList name

/-- `filename ENDS WITH "<stem>.md"`. -/
def Note.endsWith (m : Note) (target : String) : Bool :=
  (filenameStem target ++ ".md").toList.isSuffixOf m.filename.toList

/-- The aliases that are passed on. -/
def Note.aliasList (m : Note) : List String :=
  m.aliases.filter (fun name => Text.strip name.toList ≠ [])

/-- `p.name = $stem OR p.name IN $aliases`. -/
def Note.answers (m : Note) (name : String) : Bool :=
  name = filenameStem m.filename || name ∈ m.aliasList

/-! ## Writing edges -/

/-- `extract_wikilinks`: of equal links the first. -/
def extractWikilinks (body : List WikilinkRef) : List WikilinkRef := body.eraseDups

/-- The edge chunks of a note, `markdown_wikilink_edge_strategy` section by section. -/
def Note.refs (n : Note) : List WikilinkRef := n.sections.flatMap extractWikilinks

/-- The properties that a `MERGE` of an edge looks for. -/
def Edge.key (e : Edge) : String × RelType × String × Target :=
  (e.source, e.rel, e.sourceChunkId, e.target)

/-- `MERGE ... ON CREATE SET`. -/
def merge (edges : List Edge) (e : Edge) : List Edge :=
  if e.key ∈ edges.map Edge.key then edges else edges ++ [e]

def WikilinkRef.rel (r : WikilinkRef) : RelType := if r.isEmbed then .embeds else .wikilinksTo

def Edge.ofRef (n : Note) (r : WikilinkRef) (target : Target) : Edge where
  source := n.id
  rel := r.rel
  sourceChunkId := n.chunkId
  target := target
  displayAlias := r.displayAlias
  heading := r.heading

/-- Which of its rows a query with `LIMIT 1` returns. -/
structure Limit where
  first : List Note → Option Note
  mem : ∀ {rows m}, first rows = some m → m ∈ rows
  found : ∀ {rows}, first rows = none → rows = []

def Limit.head : Limit where
  first := List.head?
  mem := List.mem_of_head?
  found := List.head?_eq_none_iff.mp

def candidates (artifacts : List Note) (sourceId target : String) : List Note :=
  artifacts.filter (fun m => m.endsWith target && m.id ≠ sourceId)

/-- Where a link is written to. -/
def written (limit : Limit) (artifacts : List Note) (sourceId target : String) : Target :=
  match limit.first (candidates artifacts sourceId target) with
  | some m => .artifact m.id
  | none => .placeholder target

def writeWikilinkEdge (limit : Limit) (n : Note) (g : Graph) (r : WikilinkRef) : Graph :=
  { g with edges := merge g.edges (Edge.ofRef n r (written limit g.artifacts n.id r.target)) }

/-! ## Resolving placeholders -/

/-- The edge goes to a placeholder that `m` answers to. -/
def Edge.waitsFor (m : Note) (e : Edge) : Bool :=
  match e.target with
  | .placeholder name => m.answers name
  | .artifact _ => false

/-- One relationship type of `resolve_pending_artifacts`. -/
def repoint (m : Note) (edges : List Edge) (rel : RelType) : List Edge :=
  (edges.filter (fun e => e.rel = rel && e.waitsFor m)).foldl
    (fun acc e => merge acc { e with target := .artifact m.id })
    (edges.filter (fun e => !(e.rel = rel && e.waitsFor m)))

def resolvePendingArtifacts (m : Note) (g : Graph) : Graph :=
  { g with edges := [RelType.wikilinksTo, .embeds].foldl (repoint m) g.edges }

/-- An ingest of a note.  A note that is there already is a duplicate, and a forced re-index
leaves the links as they are. -/
def ingest (limit : Limit) (g : Graph) (n : Note) : Graph :=
  if n.id ∈ g.artifacts.map Note.id then g
  else
    let g := { g with artifacts := g.artifacts ++ [n] }
    resolvePendingArtifacts n (n.refs.foldl (writeWikilinkEdge limit n) g)

def Graph.empty : Graph where
  artifacts := []
  edges := []

def ingestAll (limit : Limit) (run : List Note) : Graph := run.foldl (ingest limit) Graph.empty

example : filenameStem "dir/v1.2.md" = "v1.2" := by decide
example : filenameStem ".md" = ".md" := by decide

end Cerid.Wikilinks
