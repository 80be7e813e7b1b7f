import Cerid.Lib.Kahn
import Cerid.Lib.Run
import Cerid.Lib.Text

/-!
# Running a workflow

The nodes run in a topological order.  A node is skipped when every edge into it is dead: its
source was skipped, or was a condition and took the other branch.  Agents are functions of
their input, and so is the evaluation of an expression.

A run is kept with its visits: which outputs every node gathered, what it was given, and what
it passed on.
-/

namespace Cerid.Workflows

open Kahn (Sorted)

inductive NodeType where
  | agent | parser | tool | condition
  deriving DecidableEq, Repr

structure WorkflowNode where
  id : String
  type : NodeType
  name : String
  /-- `config["expression"]`. -/
  expression : Option String := none
  deriving DecidableEq, Repr

structure WorkflowEdge where
  sourceId : String
  targetId : String
  condition : Option String := none
  deriving DecidableEq, Repr

structure Workflow where
  nodes : List WorkflowNode
  edges : List WorkflowEdge

/-! ## Validation -/

/-- `{n.id for n in nodes}`, in the order of the nodes. -/
def nodeIds (nodes : List WorkflowNode) : List String := (nodes.map WorkflowNode.id).dedup

def WorkflowEdge.pair (e : WorkflowEdge) : String × String := (e.sourceId, e.targetId)

/-- Why a workflow is refused. -/
inductive Refusal where
  | unknownSource (id : String)
  | unknownTarget (id : String)
  | selfLoop (id : String)
  | cycle
  deriving DecidableEq, Repr

/-- The checks of one edge. -/
def checkEdge (ids : List String) (e : WorkflowEdge) : Except Refusal Unit :=
  if e.sourceId ∉ ids then .error (.unknownSource e.sourceId)
  else if e.targetId ∉ ids then .error (.unknownTarget e.targetId)
  else if e.sourceId = e.targetId then .error (.selfLoop e.sourceId)
  else .ok ()

/-- `topological_sort`, for an order in which the set of node ids is gone through. -/
def topologicalSort (ids : List String) (edges : List WorkflowEdge) : List String :=
  Kahn.sort ids (edges.map WorkflowEdge.pair)

/-- `validate_dag`. -/
def validateDag (w : Workflow) : Except Refusal Unit := do
  w.edges.forM (checkEdge (nodeIds w.nodes))
  if (topologicalSort (nodeIds w.nodes) w.edges).length ≠ (nodeIds w.nodes).length then
    .error .cycle
  else .ok ()

/-- The node ids, in an order in which every edge goes forward. -/
def Topological (w : Workflow) (order : List String) : Prop :=
  Sorted (nodeIds w.nodes) (w.edges.map WorkflowEdge.pair) order

/-! ## Data -/

variable {V : Type}

/-- A JSON object, by its keys. -/
abbrev Data (V : Type) := String → Option V

/-- `d.update(e)`. -/
def update (d e : Data V) : Data V := fun key => (e key).or (d key)

/-- The agents, the evaluation of an expression, which may fail with a reason, and `bool`
among the values. -/
structure Env (V : Type) where
  agent : String → Data V → Data V
  evaluate : String → Data V → Except String Bool
  ofBool : Bool → V

/-- An entry of the results. -/
inductive Entry (V : Type) where
  | skipped (name : String)
  | agent (name : String) (output : Data V)
  | condition (name : String) (passed : Bool) (conditionError : Option String)
  | completed (name : String) (type : NodeType)

def Entry.ran : Entry V → Bool
  | .skipped _ => false
  | _ => true

/-! ## The loop -/

/-- What a node gathered, was given, and passed on. -/
structure Visit (V : Type) where
  id : String
  gathered : List String
  input : Data V
  output : Data V

structure State (V : Type) where
  /-- Incoming edges still able to deliver data. -/
  liveIn : String → Option Int
  outputs : List (String × Data V)
  results : String → Option (Entry V)
  visits : List (Visit V)

/-- `node_map`: of nodes that share an id, the last. -/
def nodeMap (w : Workflow) (id : String) : Option WorkflowNode :=
  w.nodes.reverse.find? (fun n => n.id = id)

/-- `adj`. -/
def adj (w : Workflow) (id : String) : List WorkflowEdge :=
  w.edges.filter (fun e => e.sourceId = id)

def startLive (w : Workflow) : String → Option Int :=
  w.edges.foldl (fun live e =>
    Function.update live e.targetId (some ((live e.targetId).getD 0 + 1))) (fun _ => none)

def State.start (w : Workflow) : State V where
  liveIn := startLive w
  outputs := []
  results := fun _ => none
  visits := []

/-- `live_in[edge.target_id] -= 1` along some edges. -/
def kill (live : String → Option Int) (dead : List WorkflowEdge) : String → Option Int :=
  dead.foldl (fun live e =>
    Function.update live e.targetId ((live e.targetId).map (fun n => n - 1))) live

/-- The branch that an edge is on: one labelled "false" is the else branch. -/
def WorkflowEdge.wants (e : WorkflowEdge) : Bool :=
  String.ofList ((Text.strip (e.condition.getD "").toList).map Char.toLower) ≠ "false"

/-- The data a node is given: the input of the run, and every output so far. -/
def gather (input : Data V) (outputs : List (String × Data V)) : Data V :=
  outputs.foldl (fun data p => update data p.2) input

/-- The value of an expression, and the reason why it has none.  An unevaluable condition did
not pass. -/
def verdict (E : Env V) (expression : String) (data : Data V) : Bool × Option String :=
  match E.evaluate expression data with
  | .ok passed => (passed, none)
  | .error reason => (false, some reason)

def WorkflowNode.verdict (E : Env V) (node : WorkflowNode) (data : Data V) :
    Bool × Option String :=
  Workflows.verdict E (node.expression.getD "true") data

/-- `{"passed": passed, **upstream_data}`. -/
def withPassed (E : Env V) (passed : Bool) (data : Data V) : Data V :=
  update (fun key => if key = "passed" then some (E.ofBool passed) else none) data

def WorkflowNode.output (E : Env V) (node : WorkflowNode) (data : Data V) : Data V :=
  match node.type with
  | .agent => E.agent node.name data
  | .condition => withPassed E (node.verdict E data).1 data
  | .tool | .parser => data

def WorkflowNode.entry (E : Env V) (node : WorkflowNode) (data : Data V) : Entry V :=
  match node.type with
  | .agent => .agent node.name (E.agent node.name data)
  | .condition => .condition node.name (node.verdict E data).1 (node.verdict E data).2
  | .tool | .parser => .completed node.name node.type

/-- The edges out of a node that ran which deliver nothing. -/
def deadEdges (w : Workflow) (E : Env V) (node : WorkflowNode) (data : Data V) :
    List WorkflowEdge :=
  match node.type with
  | .condition => (adj w node.id).filter (fun e => e.wants ≠ (node.verdict E data).1)
  | _ => []

variable (w : Workflow) (E : Env V) (input : Data V)

def State.skip (s : State V) (node : WorkflowNode) : State V where
  liveIn := kill s.liveIn (adj w node.id)
  outputs := s.outputs
  results := Function.update s.results node.id (some (.skipped node.name))
  visits := s.visits

def State.visit (s : State V) (node : WorkflowNode) : State V :=
  let data := gather input s.outputs
  { liveIn := kill s.liveIn (deadEdges w E node data)
    outputs := s.outputs ++ [(node.id, node.output E data)]
    results := Function.update s.results node.id (some (node.entry E data))
    visits := s.visits ++
      [{ id := node.id
         gathered := s.outputs.map Prod.fst
         input := data
         output := node.output E data }] }

/-- The body of the loop. -/
def State.step (s : State V) (id : String) : State V :=
  match nodeMap w id with
  | none => s
  | some node => if s.liveIn id = some 0 then s.skip w node else s.visit w E input node

/-- The loop of `execute_workflow` over an order of the nodes. -/
def executeIn (order : List String) : State V := order.foldl (State.step w E input) (State.start w)

/-- `execute_workflow`, for an order in which the set of node ids is gone through. -/
def executeWorkflow (ids : List String) : State V :=
  executeIn w E input (topologicalSort ids w.edges)

end Cerid.Workflows
