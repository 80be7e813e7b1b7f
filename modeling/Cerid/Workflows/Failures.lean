import Cerid.Workflows.Orders

/-!
# Runs that fail

A run is stored as running, and stored again when the loop is over.  An exception of one of five
kinds ends the loop and makes the run a failed one; the sort before the loop and the writing of the
results after it are not guarded, and no other exception is caught.
-/

namespace Cerid.Workflows

/-- What is caught, subclasses included, and anything else. -/
inductive ExceptionKind where
  | keyError | valueError | typeError | runtimeError | cancelledError | other
  deriving DecidableEq, Repr

/-- An exception with its text. -/
structure Raised where
  kind : ExceptionKind
  text : String
  deriving DecidableEq, Repr

def Raised.caught (e : Raised) : Bool := e.kind ≠ .other

/-- Why a condition has no value: a `ConditionError`, or another exception. -/
inductive Unevaluable where
  | condition (reason : String)
  | raised (e : Raised)

/-- Agents that may raise, and what the evaluation of a condition and the writing of results
rest on. -/
structure Agents (V : Type) where
  agent : String → Data V → Except Raised (Data V)
  /-- Key, operator and value of an expression. -/
  parse : String → Option (String × String × String)
  isNone : V → Bool
  /-- The comparison, as numbers if both are. -/
  compare : V → String → String → Except Unevaluable Bool
  /-- `config["expression"]`, if it is there, is a string. -/
  textual : WorkflowNode → Bool
  ofBool : Bool → V
  serialises : Data V → Bool

variable {V : Type} (A : Agents V)

/-- `_evaluate_condition`. -/
def evaluateCondition (expression : String) (data : Data V) : Except Unevaluable Bool :=
  match A.parse expression with
  | none => .error (.condition ("cannot parse condition expression " ++ expression))
  | some (key, op, raw) =>
    match data key with
    | none => .ok false
    | some actual => if A.isNone actual then .ok false else A.compare actual op raw

/-- The agents and conditions, where nothing is raised. -/
def Agents.total : Env V where
  agent name data :=
    match A.agent name data with
    | .ok output => output
    | .error _ => fun _ => none
  evaluate expression data :=
    match evaluateCondition A expression data with
    | .ok passed => .ok passed
    | .error (.condition reason) => .error reason
    | .error (.raised e) => .error e.text
  ofBool := A.ofBool

/-- The exception that a node ends with on some data. -/
def WorkflowNode.failure (node : WorkflowNode) (data : Data V) : Option Raised :=
  match node.type with
  | .agent =>
    match A.agent node.name data with
    | .ok _ => none
    | .error e => some e
  | .condition =>
    -- a value that is no string has no `strip`
    if A.textual node then
      match evaluateCondition A (node.expression.getD "true") data with
      | .error (.raised e) => some e
      | .error (.condition _) | .ok _ => none
    else some ⟨.other, "object has no attribute 'strip'"⟩
  | .tool | .parser => none

/-- The loop, or the exception that ended it at a node. -/
inductive Progress (V : Type) where
  | running (s : State V)
  | raised (s : State V) (id : String) (e : Raised)

def Progress.state : Progress V → State V
  | .running s => s
  | .raised s _ _ => s

@[simp] theorem Progress.state_running (s : State V) : (Progress.running s).state = s := rfl

@[simp] theorem Progress.state_raised (s : State V) (id : String) (e : Raised) :
    (Progress.raised s id e).state = s := rfl

def Progress.failed : Progress V → Option String
  | .running _ => none
  | .raised _ id _ => some id

variable (w : Workflow) (input : Data V)

/-- The exception that a node ends with in a state; a node that is skipped raises none. -/
def State.failure (s : State V) (id : String) : Option Raised :=
  match nodeMap w id with
  | none => some ⟨.keyError, id⟩
  | some node => if s.liveIn id = some 0 then none else node.failure A (gather input s.outputs)

def Progress.step (p : Progress V) (id : String) : Progress V :=
  match p with
  | .raised s failed e => .raised s failed e
  | .running s =>
    match s.failure A w input id with
    | some e => .raised s id e
    | none => .running (s.step w A.total input id)

/-- The loop under its guard. -/
def runIn (order : List String) : Progress V :=
  order.foldl (Progress.step A w input) (.running (State.start w))

inductive RunStatus where
  | pending | running | completed | failed
  deriving DecidableEq, Repr

/-- What is stored of a run. -/
structure StoredRun (V : Type) where
  status : RunStatus
  results : String → Option (Entry V)
  error : Option String

/-- The first thing that is stored. -/
def StoredRun.start : StoredRun V := { status := .running, results := fun _ => none, error := none }

def Entry.serialises : Entry V → Bool
  | .agent _ output => A.serialises output
  | .skipped _ | .condition _ _ _ | .completed _ _ => true

/-- `run.model_dump_json()` of a run with such results does not raise. -/
def serialises (results : String → Option (Entry V)) : Bool :=
  (nodeIds w.nodes).all fun id => (results id).all (Entry.serialises A)

/-- The run that was executed, before it is stored again. -/
def Progress.ended : Progress V → Option (StoredRun V)
  | .running s => some { status := .completed, results := s.results, error := none }
  | .raised s _ e =>
    if e.caught then some { status := .failed, results := s.results, error := some e.text } else none

/-- Every target of an edge is a node: `in_degree[edge.target_id]` is there. -/
def sorts : Bool := w.edges.all fun e => e.targetId ∈ nodeIds w.nodes

/-- What is stored of a run when `execute_workflow` is through, for an order in which the set of
node ids is gone through. -/
def storedRun (ids : List String) : StoredRun V :=
  if sorts w then
    match (runIn A w input (topologicalSort ids w.edges)).ended with
    | none => .start
    | some run => if serialises A w run.results then run else .start
  else .start

/-! ## What is asked of the stored run -/

/-- The results are those of the nodes that ran. -/
def Accounted (s : State V) (results : String → Option (Entry V)) : Prop :=
  ∀ id entry, entry.ran = true → (results id = some entry ↔
    ∃ v ∈ s.visits, ∃ node, nodeMap w id = some node ∧ v.id = id ∧
      entry = node.entry A.total v.input)

structure FinalRun (ids : List String) : Prop where
  ended : (storedRun A w input ids).status ≠ .running
  /-- Every node that is not skipped ran to its end. -/
  completed : (storedRun A w input ids).status = .completed ↔
    ∀ id ∈ nodeIds w.nodes,
      (∀ name, (runIn A w input (topologicalSort ids w.edges)).state.results id ≠
        some (.skipped name)) →
      id ∈ (runIn A w input (topologicalSort ids w.edges)).state.visits.map Visit.id
  results : Accounted A w (runIn A w input (topologicalSort ids w.edges)).state
    (storedRun A w input ids).results
  contained : ∀ id, (runIn A w input (topologicalSort ids w.edges)).failed = some id →
    ∀ v ∈ (runIn A w input (topologicalSort ids w.edges)).state.visits,
      id ≠ v.id ∧ id ∉ v.gathered

/-- What a node raises is caught, and what an agent returns can be written. -/
def Progress.Fine (p : Progress V) (id : String) : Prop :=
  match p with
  | .raised _ _ _ => True
  | .running s =>
    match s.failure A w input id with
    | some e => e.caught = true
    | none => ∀ node, nodeMap w id = some node → s.liveIn id ≠ some 0 →
      Entry.serialises A (node.entry A.total (gather input s.outputs)) = true

/-- No node raises. -/
def Progress.Calm (p : Progress V) (id : String) : Prop :=
  match p with
  | .raised _ _ _ => False
  | .running s => s.failure A w input id = none

/-- The sort finds every target, no step raises what is not caught or returns what cannot be
written, and if none raises at all the order has every node. -/
structure Guarded (ids : List String) : Prop where
  sorts : ∀ e ∈ w.edges, e.targetId ∈ nodeIds w.nodes
  fine : Along (Progress.step A w input) (Progress.Fine A w input) (.running (State.start w))
    (topologicalSort ids w.edges)
  whole : Along (Progress.step A w input) (Progress.Calm A w input) (.running (State.start w))
    (topologicalSort ids w.edges) → ∀ id ∈ nodeIds w.nodes, id ∈ topologicalSort ids w.edges

/-! ## The guarded loop -/

section Loop

variable {A w input}

theorem runIn_snoc (ids : List String) (id : String) :
    runIn A w input (ids ++ [id]) = (runIn A w input ids).step A w input id := by
  unfold runIn
  rw [List.foldl_append]
  rfl

theorem foldl_raised (rest : List String) (s : State V) (id : String) (e : Raised) :
    rest.foldl (Progress.step A w input) (.raised s id e) = .raised s id e := by
  induction rest with
  | nil => rfl
  | cons x rest ih => exact ih

theorem step_of_none {s : State V} {id : String} (h : s.failure A w input id = none) :
    Progress.step A w input (.running s) id = .running (s.step w A.total input id) := by
  unfold Progress.step
  dsimp only
  rw [h]

theorem step_of_some {s : State V} {id : String} {e : Raised}
    (h : s.failure A w input id = some e) :
    Progress.step A w input (.running s) id = .raised s id e := by
  unfold Progress.step
  dsimp only
  rw [h]

/-- The loop goes through all nodes and none raises, or it stops at the first one that does. -/
theorem runIn_cases (A : Agents V) (w : Workflow) (input : Data V) (order : List String) :
    (runIn A w input order = .running (executeIn w A.total input order) ∧
      Along (Progress.step A w input) (Progress.Calm A w input) (.running (State.start w)) order) ∨
    ∃ before id after e, order = before ++ id :: after ∧
      runIn A w input before = .running (executeIn w A.total input before) ∧
      (executeIn w A.total input before).failure A w input id = some e ∧
      runIn A w input order = .raised (executeIn w A.total input before) id e := by
  induction order using List.reverseRecOn with
  | nil => exact Or.inl ⟨rfl, trivial⟩
  | append_singleton ids x ih =>
    rw [runIn_snoc]
    rcases ih with ⟨hrun, hcalm⟩ | ⟨before, id, after, e, rfl, hbefore, hfailure, hrun⟩
    · rw [hrun]
      cases hx : (executeIn w A.total input ids).failure A w input x with
      | some e => exact Or.inr ⟨ids, x, [], e, rfl, hrun, hx, step_of_some hx⟩
      | none =>
        rw [step_of_none hx, ← executeIn_snoc]
        refine Or.inl ⟨rfl, along_append.mpr ⟨hcalm, ?_, trivial⟩⟩
        show Progress.Calm A w input (runIn A w input ids) x
        rw [hrun]
        exact hx
    · rw [hrun]
      exact Or.inr ⟨before, id, after ++ [x], e, by simp, hbefore, hfailure, rfl⟩

/-- Where the loop is still running, it is where a loop without a guard is. -/
theorem eq_executeIn {ids : List String} {s : State V} (h : runIn A w input ids = .running s) :
    s = executeIn w A.total input ids := by
  have hcases := runIn_cases A w input ids
  rw [h] at hcases
  rcases hcases with ⟨hrun, -⟩ | ⟨before, id, after, e, -, -, -, hrun⟩
  · exact Progress.running.inj hrun
  · exact absurd hrun (fun heq => nomatch heq)

theorem runIn_of_calm {order : List String}
    (h : Along (Progress.step A w input) (Progress.Calm A w input) (.running (State.start w))
      order) : runIn A w input order = .running (executeIn w A.total input order) := by
  rcases runIn_cases A w input order with ⟨hrun, -⟩ | ⟨before, id, after, e, heq, hrun, hfailure, -⟩
  · exact hrun
  · have hcalm := along_iff_split.mp h before id after heq
    change Progress.Calm A w input (runIn A w input before) id at hcalm
    rw [hrun] at hcalm
    exact absurd (hfailure.symm.trans hcalm) (Option.some_ne_none e)

/-- If the loop is still running, it was running at the turn of every node, and went on. -/
theorem running_at {front rest : List String} {id : String} {s : State V}
    (h : runIn A w input (front ++ id :: rest) = .running s) :
    runIn A w input front = .running (executeIn w A.total input front) ∧
      (executeIn w A.total input front).failure A w input id = none := by
  unfold runIn at h
  rw [List.foldl_append, List.foldl_cons] at h
  change rest.foldl _ (Progress.step A w input (runIn A w input front) id) = _ at h
  cases hfront : runIn A w input front with
  | raised s' failed e =>
    rw [hfront] at h
    exact absurd ((foldl_raised (id :: rest) s' failed e).symm.trans h) (fun heq => nomatch heq)
  | running s' =>
    obtain rfl := eq_executeIn hfront
    refine ⟨rfl, ?_⟩
    rw [hfront] at h
    cases hfailure : (executeIn w A.total input front).failure A w input id with
    | some e =>
      rw [step_of_some hfailure, foldl_raised] at h
      cases h
    | none => rfl

/-- What was recorded of a node stays. -/
theorem foldl_results {id : String} {rest : List String} (hid : id ∉ rest) (p : Progress V) :
    (rest.foldl (Progress.step A w input) p).state.results id = p.state.results id := by
  induction rest generalizing p with
  | nil => rfl
  | cons x rest ih =>
    rw [List.mem_cons, not_or] at hid
    rw [List.foldl_cons, ih hid.2]
    cases p with
    | raised s failed e => rfl
    | running s =>
      cases hx : s.failure A w input x with
      | some e => rw [step_of_some hx]; rfl
      | none =>
        rw [step_of_none hx]
        have hone : id ∉ [x] := fun h => hid.1 (List.mem_singleton.mp h)
        exact results_foldl s hone

end Loop

/-! ## What a loop records -/

section Records

variable {A w input} {E : Env V} {order before after : List String} {id : String}

theorem order_mem (hids : order.Perm (nodeIds w.nodes))
    (hsorts : ∀ e ∈ w.edges, e.targetId ∈ nodeIds w.nodes) :
    (topologicalSort order w.edges).Nodup ∧
      ∀ id ∈ topologicalSort order w.edges, id ∈ nodeIds w.nodes := by
  have hnodup : order.Nodup := hids.nodup_iff.mpr (List.nodup_dedup _)
  have hedges : ∀ e ∈ w.edges.map WorkflowEdge.pair, e.2 ∈ order := by
    intro pair hpair
    obtain ⟨e, he, rfl⟩ := List.mem_map.mp hpair
    exact hids.mem_iff.mpr (hsorts e he)
  obtain ⟨degree, hat⟩ := Kahn.at_sort hnodup hedges
  have hmem := hat.mem
  have hfresh := hat.nodup
  rw [List.append_nil] at hmem hfresh
  exact ⟨hfresh, fun id hid => hids.mem_iff.mp ((hmem id).mp hid).1⟩

theorem entry_at (hnodup : order.Nodup) (heq : order = before ++ id :: after)
    {node : WorkflowNode} (hnode : nodeMap w id = some node) :
    (executeIn w E input order).results id =
      some ((executeIn w E input before).entryOf E input node) := by
  have hafter : id ∉ after := by
    rw [heq, List.nodup_append] at hnodup
    exact (List.nodup_cons.mp hnodup.2.1).1
  rw [heq, List.append_cons, results_append hafter, executeIn_snoc, step_results hnode,
    Function.update_self]

/-- The results of a loop are those of the nodes that it visited. -/
theorem executeIn_accounted (hnodup : order.Nodup) (hids : ∀ id ∈ order, id ∈ nodeIds w.nodes) :
    Accounted A w (executeIn w A.total input order)
      (executeIn w A.total input order).results := by
  intro id entry hran
  constructor
  · intro hentry
    have hid : id ∈ order := by
      by_contra hnot
      rw [results_none hnot] at hentry
      cases hentry
    obtain ⟨before, after, heq⟩ := List.append_of_mem hid
    obtain ⟨node, hnode⟩ := nodeMap_of_mem (hids id hid)
    rw [entry_at hnodup heq hnode, Option.some_inj] at hentry
    have hlive := (entryOf_ran _ node).mp (hentry ▸ hran)
    have hvisit : (executeIn w A.total input before).visitOf A.total input node ∈
        (executeIn w A.total input order).visits :=
      (mem_visits hids).mpr ⟨before, id, after, node, heq, hnode, nodeMap_id hnode ▸ hlive, rfl⟩
    refine ⟨_, hvisit, node, hnode, nodeMap_id hnode, ?_⟩
    rw [← hentry]
    unfold State.entryOf
    rw [if_neg hlive]
    rfl
  · rintro ⟨v, hv, node, hnode, hvid, rfl⟩
    obtain ⟨before, id', after, node', heq, hnode', hlive, rfl⟩ := (mem_visits hids).mp hv
    have hid : id' = id := (nodeMap_id hnode').symm.trans hvid
    subst hid
    obtain rfl := Option.some.inj (hnode'.symm.trans hnode)
    rw [entry_at hnodup heq hnode]
    unfold State.entryOf
    rw [if_neg (nodeMap_id hnode ▸ hlive)]
    rfl

/-- A node that the loop came to was skipped or visited. -/
theorem executeIn_settled (hnodup : order.Nodup) (hids : ∀ id ∈ order, id ∈ nodeIds w.nodes)
    (hid : id ∈ order)
    (hskip : ∀ name, (executeIn w A.total input order).results id ≠ some (.skipped name)) :
    id ∈ (executeIn w A.total input order).visits.map Visit.id := by
  obtain ⟨before, after, heq⟩ := List.append_of_mem hid
  obtain ⟨node, hnode⟩ := nodeMap_of_mem (hids id hid)
  have hentry : (executeIn w A.total input order).results id =
      some ((executeIn w A.total input before).entryOf A.total input node) :=
    entry_at hnodup heq hnode
  have hran : ((executeIn w A.total input before).entryOf A.total input node).ran = true := by
    rw [entryOf_ran]
    intro hlive
    refine hskip node.name (hentry.trans ?_)
    unfold State.entryOf
    rw [if_pos hlive]
  obtain ⟨v, hv, -, -, hvid, -⟩ := (executeIn_accounted hnodup hids id _ hran).mp hentry
  exact hvid ▸ List.mem_map_of_mem hv

/-- What was visited and what was gathered are nodes that the loop came to. -/
theorem visits_subset (hnodup : order.Nodup) (hids : ∀ id ∈ order, id ∈ nodeIds w.nodes)
    {v : Visit V} (hv : v ∈ (executeIn w E input order).visits) :
    v.id ∈ order ∧ ∀ m ∈ v.gathered, m ∈ order := by
  obtain ⟨before, id, after, node, heq, hnode, -, rfl⟩ := (mem_visits hids).mp hv
  refine ⟨?_, fun m hm => ?_⟩
  · show node.id ∈ order
    rw [nodeMap_id hnode, heq]
    exact List.mem_append_right _ List.mem_cons_self
  · have hbefore : before.Sublist order := heq ▸ List.sublist_append_left _ _
    have hran := ((keys_at (hnodup.sublist hbefore)
      (fun x hx => hids x (hbefore.subset hx))).2 m).mp hm
    by_contra hnot
    unfold State.ran at hran
    rw [results_none (fun h => hnot (hbefore.subset h))] at hran
    exact absurd hran Bool.false_ne_true

/-- A node that the loop did not come to was neither skipped nor visited. -/
theorem executeIn_unsettled (hnodup : order.Nodup) (hids : ∀ id ∈ order, id ∈ nodeIds w.nodes)
    (hid : id ∉ order) :
    ¬ ((∀ name, (executeIn w E input order).results id ≠ some (.skipped name)) →
      id ∈ (executeIn w E input order).visits.map Visit.id) := by
  intro h
  obtain ⟨v, hv, hvid⟩ := List.mem_map.mp (h fun name => by
    rw [results_none hid]
    exact (Option.some_ne_none _).symm)
  exact hid (hvid ▸ (visits_subset hnodup hids hv).1)

end Records

/-! ## The stored run -/

section Final

variable {A w input} {ids : List String}

theorem sorts_iff : sorts w = true ↔ ∀ e ∈ w.edges, e.targetId ∈ nodeIds w.nodes := by
  unfold sorts
  simp only [List.all_eq_true, decide_eq_true_iff]

theorem ended_results {p : Progress V} {run : StoredRun V} (h : p.ended = some run) :
    run.results = p.state.results ∧ run.status ≠ .running ∧
      (run.status = .completed ↔ p.failed = none) := by
  cases p with
  | running s =>
    obtain rfl := Option.some.inj h
    exact ⟨rfl, RunStatus.noConfusion, iff_of_true rfl rfl⟩
  | raised s id e =>
    unfold Progress.ended at h
    dsimp only at h
    split at h
    · obtain rfl := Option.some.inj h
      exact ⟨rfl, RunStatus.noConfusion, iff_of_false RunStatus.noConfusion (Option.some_ne_none id)⟩
    · cases h

/-- The run is stored again if the sort, the loop and the writing of the results all go
through. -/
theorem storedRun_of {run : StoredRun V} (hsorts : sorts w = true)
    (hended : (runIn A w input (topologicalSort ids w.edges)).ended = some run)
    (hwrites : serialises A w run.results = true) : storedRun A w input ids = run := by
  unfold storedRun
  rw [if_pos hsorts, hended]
  exact if_pos hwrites

theorem of_not_running (h : (storedRun A w input ids).status ≠ .running) :
    sorts w = true ∧ ∃ run, (runIn A w input (topologicalSort ids w.edges)).ended = some run ∧
      serialises A w run.results = true ∧ storedRun A w input ids = run := by
  unfold storedRun at h ⊢
  by_cases hsorts : sorts w = true
  · rw [if_pos hsorts] at h ⊢
    cases hended : (runIn A w input (topologicalSort ids w.edges)).ended with
    | none =>
      rw [hended] at h
      exact absurd rfl h
    | some run =>
      rw [hended] at h
      dsimp only at h ⊢
      by_cases hwrites : serialises A w run.results = true
      · exact ⟨hsorts, run, rfl, hwrites, if_pos hwrites⟩
      · rw [if_neg hwrites] at h
        exact absurd rfl h
  · rw [if_neg hsorts] at h
    exact absurd rfl h

/-- What was recorded along steps that are fine can be written. -/
theorem serialises_of_fine {order before after : List String} (heq : order = before ++ after)
    (hnodup : order.Nodup) (hids : ∀ id ∈ order, id ∈ nodeIds w.nodes)
    (hfine : Along (Progress.step A w input) (Progress.Fine A w input)
      (.running (State.start w)) order)
    (hrun : runIn A w input before = .running (executeIn w A.total input before)) :
    serialises A w (executeIn w A.total input before).results = true := by
  unfold serialises
  rw [List.all_eq_true]
  intro id _
  have hsub : before.Sublist order := heq ▸ List.sublist_append_left _ _
  by_cases hid : id ∈ before
  · obtain ⟨front, rest, hsplit⟩ := List.append_of_mem hid
    obtain ⟨node, hnode⟩ := nodeMap_of_mem (hids id (hsub.subset hid))
    rw [entry_at (hnodup.sublist hsub) hsplit hnode, Option.all_some]
    have hstep := along_iff_split.mp hfine front id (rest ++ after) (by rw [heq, hsplit]; simp)
    rw [hsplit] at hrun
    obtain ⟨hfront, hfailure⟩ := running_at hrun
    change Progress.Fine A w input (runIn A w input front) id at hstep
    rw [hfront] at hstep
    unfold Progress.Fine at hstep
    dsimp only at hstep
    rw [hfailure] at hstep
    unfold State.entryOf
    split
    · rfl
    · rename_i hlive
      exact hstep node hnode (nodeMap_id hnode ▸ hlive)
  · rw [results_none hid]
    rfl

/-- If the run is stored again, every step was fine. -/
theorem fine_of_ended {order : List String} (hnodup : order.Nodup)
    (hids : ∀ id ∈ order, id ∈ nodeIds w.nodes) {run : StoredRun V}
    (hended : (runIn A w input order).ended = some run)
    (hwrites : serialises A w run.results = true) :
    Along (Progress.step A w input) (Progress.Fine A w input) (.running (State.start w)) order := by
  rw [along_iff_split]
  intro before id after heq
  show Progress.Fine A w input (runIn A w input before) id
  have hrun : runIn A w input order =
      after.foldl (Progress.step A w input)
        (Progress.step A w input (runIn A w input before) id) := by
    rw [heq]
    unfold runIn
    rw [List.foldl_append, List.foldl_cons]
  cases hbefore : runIn A w input before with
  | raised s failed e => trivial
  | running s =>
    rw [hbefore] at hrun
    unfold Progress.Fine
    dsimp only
    cases hfailure : s.failure A w input id with
    | some e =>
      rw [step_of_some hfailure, foldl_raised] at hrun
      rw [hrun] at hended
      by_contra hcaught
      rw [Progress.ended, if_neg hcaught] at hended
      cases hended
    | none =>
      intro node hnode hlive
      have hafter : id ∉ after := by
        rw [heq, List.nodup_append] at hnodup
        exact (List.nodup_cons.mp hnodup.2.1).1
      rw [step_of_none hfailure] at hrun
      have hentry : run.results id = some (s.entryOf A.total input node) := by
        rw [(ended_results hended).1, hrun, foldl_results hafter]
        show (s.step w A.total input id).results id = _
        rw [step_results hnode, Function.update_self]
      have hid : id ∈ nodeIds w.nodes := hids id (heq ▸ List.mem_append_right _ List.mem_cons_self)
      have hwrite := List.all_eq_true.mp hwrites id hid
      rw [hentry, Option.all_some, State.entryOf, if_neg (nodeMap_id hnode ▸ hlive)] at hwrite
      exact hwrite

/-- The stored run of a loop that went through all nodes. -/
theorem finalRun_of_running (hsorts : sorts w = true)
    (hnodup : (topologicalSort ids w.edges).Nodup)
    (hmem : ∀ id ∈ topologicalSort ids w.edges, id ∈ nodeIds w.nodes)
    (hrun : runIn A w input (topologicalSort ids w.edges) =
      .running (executeIn w A.total input (topologicalSort ids w.edges)))
    (hwrites : serialises A w
      (executeIn w A.total input (topologicalSort ids w.edges)).results = true)
    (hwhole : ∀ id ∈ nodeIds w.nodes, id ∈ topologicalSort ids w.edges) :
    FinalRun A w input ids := by
  have hstored := storedRun_of (A := A) hsorts (by rw [hrun]; rfl) hwrites
  refine { ended := ?_, completed := ?_, results := ?_, contained := ?_ }
  · rw [hstored]
    exact RunStatus.noConfusion
  · rw [hstored, hrun]
    exact iff_of_true rfl fun id hid hskip => executeIn_settled hnodup hmem (hwhole id hid) hskip
  · rw [hstored, hrun]
    exact executeIn_accounted hnodup hmem
  · rw [hrun]
    exact fun id h => nomatch h

/-- The stored run of a loop that a caught exception ended. -/
theorem finalRun_of_raised {before after : List String} {id : String} {e : Raised}
    (hsorts : sorts w = true) (hnodup : (topologicalSort ids w.edges).Nodup)
    (hmem : ∀ id ∈ topologicalSort ids w.edges, id ∈ nodeIds w.nodes)
    (heq : topologicalSort ids w.edges = before ++ id :: after)
    (hrun : runIn A w input (topologicalSort ids w.edges) =
      .raised (executeIn w A.total input before) id e)
    (hcaught : e.caught = true)
    (hwrites : serialises A w (executeIn w A.total input before).results = true) :
    FinalRun A w input ids := by
  have hsub : before.Sublist (topologicalSort ids w.edges) := heq ▸ List.sublist_append_left _ _
  have hfront : before.Nodup := hnodup.sublist hsub
  have hfrontMem : ∀ id ∈ before, id ∈ nodeIds w.nodes := fun x hx => hmem x (hsub.subset hx)
  have hnot : id ∉ before := by
    intro hin
    rw [heq] at hnodup
    exact List.disjoint_of_nodup_append hnodup hin List.mem_cons_self
  have hid : id ∈ nodeIds w.nodes := hmem id (heq ▸ List.mem_append_right _ List.mem_cons_self)
  have hstored := storedRun_of (A := A) hsorts (by rw [hrun]; exact if_pos hcaught) hwrites
  refine { ended := ?_, completed := ?_, results := ?_, contained := ?_ }
  · rw [hstored]
    exact RunStatus.noConfusion
  · rw [hstored, hrun]
    refine iff_of_false RunStatus.noConfusion fun hall => ?_
    exact executeIn_unsettled hfront hfrontMem hnot (hall id hid)
  · rw [hstored, hrun]
    exact executeIn_accounted hfront hfrontMem
  · rw [hrun]
    intro failed h v hv
    obtain rfl := Option.some.inj h
    obtain ⟨hvid, hgathered⟩ := visits_subset hfront hfrontMem hv
    exact ⟨fun heq => hnot (heq ▸ hvid), fun hin => hnot (hgathered _ hin)⟩

theorem guarded_of_finalRun (hids : ids.Perm (nodeIds w.nodes)) (h : FinalRun A w input ids) :
    Guarded A w input ids := by
  obtain ⟨hsorts, run, hended, hwrites, hstored⟩ := of_not_running h.ended
  have hsorts := sorts_iff.mp hsorts
  obtain ⟨hnodup, hmem⟩ := order_mem hids hsorts
  refine ⟨hsorts, fine_of_ended hnodup hmem hended hwrites, fun hcalm id hid => ?_⟩
  have hrun := runIn_of_calm hcalm
  have hcompleted : run.status = .completed := by
    rw [(ended_results hended).2.2, hrun]
    rfl
  have hsettled := h.completed.mp (hstored ▸ hcompleted) id hid
  rw [hrun] at hsettled
  by_contra hnot
  exact executeIn_unsettled hnodup hmem hnot hsettled

/-- The stored run is final and right exactly if the sort, every exception and everything that is
written are within the guard. -/
theorem finalRun_iff (A : Agents V) (w : Workflow) (input : Data V)
    (hids : ids.Perm (nodeIds w.nodes)) :
    FinalRun A w input ids ↔ Guarded A w input ids := by
  refine ⟨guarded_of_finalRun hids, fun ⟨hsorts, hfine, hwhole⟩ => ?_⟩
  obtain ⟨hnodup, hmem⟩ := order_mem hids hsorts
  rcases runIn_cases A w input (topologicalSort ids w.edges) with
    ⟨hrun, hcalm⟩ | ⟨before, id, after, e, heq, hbefore, hfailure, hrun⟩
  · have hwrites := serialises_of_fine (List.append_nil _).symm hnodup hmem hfine hrun
    exact finalRun_of_running (sorts_iff.mpr hsorts) hnodup hmem hrun hwrites (hwhole hcalm)
  · have hstep := along_iff_split.mp hfine before id after heq
    change Progress.Fine A w input (runIn A w input before) id at hstep
    rw [hbefore] at hstep
    unfold Progress.Fine at hstep
    dsimp only at hstep
    rw [hfailure] at hstep
    exact finalRun_of_raised (sorts_iff.mpr hsorts) hnodup hmem heq hrun hstep
      (serialises_of_fine heq hnodup hmem hfine hbefore)

end Final

/-- An agent whose store is down. -/
def sampleAgents : Agents Bool where
  agent name _ :=
    if name = "query" then .error ⟨.other, "Connection refused"⟩ else .ok (fun _ => none)
  parse _ := none
  isNone _ := false
  compare _ _ _ := .ok true
  textual _ := true
  ofBool := id
  serialises _ := true

def lookup : Workflow where
  nodes := [⟨"q", .agent, "query", none⟩]
  edges := []

/-- The run of a workflow that has ended stays stored as running. -/
theorem lookup_stays_running :
    validateDag lookup = .ok () ∧
      (storedRun sampleAgents lookup (fun _ => none) ["q"]).status = .running ∧
      ¬ FinalRun sampleAgents lookup (fun _ => none) ["q"] := by
  have hstatus : (storedRun sampleAgents lookup (fun _ => none) ["q"]).status = .running := by
    decide +kernel
  exact ⟨by decide +kernel, hstatus, fun h => h.ended hstatus⟩

/-- An audit alone. -/
def audited : Workflow where
  nodes := [⟨"a", .agent, "audit", none⟩]
  edges := []

theorem finalRun_audited :
    ["a"].Perm (nodeIds audited.nodes) ∧
      (FinalRun sampleAgents audited (fun _ => none) ["a"] ↔
        Guarded sampleAgents audited (fun _ => none) ["a"]) :=
  ⟨by decide +kernel, finalRun_iff sampleAgents audited (fun _ => none) (by decide +kernel)⟩

end Cerid.Workflows
