import Cerid.Workflows.Live
import Mathlib.Logic.Relation

/-!
# A run against the graph

Data goes through one map of every output so far.  A run gives each node the outputs of its
upstream nodes, whatever the order, as long as the nodes that run lie on one path and no
condition is handed a `passed` flag of another (`follows_graph`).
-/

namespace Cerid.Workflows

variable {V : Type}

/-- Edges lead from `m` to `n`. -/
def Upstream (w : Workflow) : String → String → Prop :=
  Relation.TransGen (fun m n => ∃ e ∈ w.edges, e.sourceId = m ∧ e.targetId = n)

/-- What a node passed on. -/
def State.outputOf (s : State V) (id : String) : Data V :=
  (s.outputs.find? (fun p => p.1 = id)).elim (fun _ => none) Prod.snd

variable (w : Workflow) (E : Env V) (input : Data V)

/-- A run as the graph has it. -/
structure Faithful (s : State V) : Prop where
  runs : ∀ id ∈ nodeIds w.nodes,
    s.ran id = true ↔ incoming w id = [] ∨ ∃ e ∈ incoming w id, s.live e = true
  visited : ∀ id, id ∈ s.visits.map Visit.id ↔ s.ran id = true
  once : (s.visits.map Visit.id).Nodup
  gathered : ∀ v ∈ s.visits, ∀ m, m ∈ v.gathered ↔ s.ran m = true ∧ Upstream w m v.id
  input : ∀ v ∈ s.visits,
    v.input = v.gathered.foldl (fun data m => update data (s.outputOf m)) input
  entry : ∀ v ∈ s.visits, ∀ node, nodeMap w v.id = some node →
    s.results v.id = some (node.entry E v.input)
  passed : ∀ v ∈ s.visits, ∀ node, nodeMap w v.id = some node → node.type = .condition →
    v.output "passed" = some (E.ofBool (node.verdict E v.input).1)

/-- If the node runs, every output so far is of a node upstream of it, and no `passed` flag
other than its own verdict is among the data of a condition. -/
def Tame (s : State V) (id : String) : Prop :=
  s.liveIn id ≠ some 0 →
    (∀ p ∈ s.outputs, Upstream w p.1 id) ∧
      ∀ node, nodeMap w id = some node → node.type = .condition →
        ∀ flag, gather input s.outputs "passed" = some flag →
          flag = E.ofBool (node.verdict E (gather input s.outputs)).1

/-- The visit of a node in a state. -/
def State.visitOf (s : State V) (node : WorkflowNode) : Visit V where
  id := node.id
  gathered := s.outputs.map Prod.fst
  input := gather input s.outputs
  output := node.output E (gather input s.outputs)

variable {w E input}

/-! ## Outputs and visits -/

theorem step_skip {s : State V} {id : String} {node : WorkflowNode}
    (hnode : nodeMap w id = some node) (h : s.liveIn id = some 0) :
    s.step w E input id = s.skip w node := by
  unfold State.step
  rw [hnode]
  exact if_pos h

theorem step_visit {s : State V} {id : String} {node : WorkflowNode}
    (hnode : nodeMap w id = some node) (h : s.liveIn id ≠ some 0) :
    s.step w E input id = s.visit w E input node := by
  unfold State.step
  rw [hnode]
  exact if_neg h

theorem snoc_eq_split {α : Type*} {init before after : List α} {x n : α}
    (h : init ++ [x] = before ++ n :: after) :
    (∃ rest, after = rest ++ [x] ∧ init = before ++ n :: rest) ∨
      (after = [] ∧ before = init ∧ n = x) := by
  cases after using List.reverseRecOn with
  | nil =>
    obtain ⟨hinit, hx⟩ := List.append_inj' h rfl
    exact Or.inr ⟨rfl, hinit.symm, (List.singleton_inj.mp hx).symm⟩
  | append_singleton rest y =>
    rw [← List.cons_append, ← List.append_assoc] at h
    obtain ⟨hinit, hx⟩ := List.append_inj' h rfl
    exact Or.inl ⟨rest, by rw [List.singleton_inj.mp hx], hinit⟩

/-- A visit is made at the turn of a node that runs. -/
theorem mem_visits {ids : List String} (hids : ∀ id ∈ ids, id ∈ nodeIds w.nodes) {v : Visit V} :
    v ∈ (executeIn w E input ids).visits ↔
      ∃ before id after node, ids = before ++ id :: after ∧ nodeMap w id = some node ∧
        (executeIn w E input before).liveIn id ≠ some 0 ∧
        v = (executeIn w E input before).visitOf E input node := by
  induction ids using List.reverseRecOn with
  | nil =>
    constructor
    · exact fun h => absurd h List.not_mem_nil
    · rintro ⟨before, id, after, node, h, -⟩
      exact absurd (congrArg List.length h) (by simp)
  | append_singleton ids x ih =>
    have ih' := ih (fun id hid => hids id (List.mem_append_left _ hid))
    obtain ⟨node, hnode⟩ := nodeMap_of_mem (hids x (by simp))
    have hold : v ∈ (executeIn w E input ids).visits → ∃ before id after node,
        ids ++ [x] = before ++ id :: after ∧ nodeMap w id = some node ∧
          (executeIn w E input before).liveIn id ≠ some 0 ∧
          v = (executeIn w E input before).visitOf E input node := by
      intro h
      obtain ⟨before, id, after, node', rfl, hrest⟩ := ih'.mp h
      exact ⟨before, id, after ++ [x], node', by simp, hrest⟩
    have hnew : (∃ before id after node,
        ids ++ [x] = before ++ id :: after ∧ nodeMap w id = some node ∧
          (executeIn w E input before).liveIn id ≠ some 0 ∧
          v = (executeIn w E input before).visitOf E input node) →
        v ∈ (executeIn w E input ids).visits ∨
          (executeIn w E input ids).liveIn x ≠ some 0 ∧
            v = (executeIn w E input ids).visitOf E input node := by
      rintro ⟨before, id, after, node', heq, hnode', hlive, hv⟩
      rcases snoc_eq_split heq with ⟨rest, -, hinit⟩ | ⟨-, hbefore, hid⟩
      · exact Or.inl (ih'.mpr ⟨before, id, rest, node', hinit, hnode', hlive, hv⟩)
      · subst hbefore
        subst hid
        rw [hnode, Option.some_inj] at hnode'
        subst hnode'
        exact Or.inr ⟨hlive, hv⟩
    rw [executeIn_snoc]
    by_cases hlive : (executeIn w E input ids).liveIn x = some 0
    · rw [step_skip hnode hlive]
      exact ⟨hold, fun h => (hnew h).resolve_right (fun hv => hv.1 hlive)⟩
    · rw [step_visit hnode hlive]
      show v ∈ (executeIn w E input ids).visits ++ [(executeIn w E input ids).visitOf E input node] ↔ _
      rw [List.mem_append, List.mem_singleton]
      constructor
      · rintro (h | h)
        · exact hold h
        · exact ⟨ids, x, [], node, rfl, hnode, hlive, h⟩
      · intro h
        exact (hnew h).imp id And.right

/-- The keys of the outputs are the nodes that ran, each once. -/
theorem keys_at {ids : List String} (hnodup : ids.Nodup)
    (hids : ∀ id ∈ ids, id ∈ nodeIds w.nodes) :
    ((executeIn w E input ids).outputs.map Prod.fst).Nodup ∧
      ∀ m, m ∈ (executeIn w E input ids).outputs.map Prod.fst ↔
        (executeIn w E input ids).ran m = true := by
  induction ids using List.reverseRecOn with
  | nil => exact ⟨List.nodup_nil, fun m => by simp [executeIn, State.start, State.ran]⟩
  | append_singleton ids x ih =>
    obtain ⟨node, hnode⟩ := nodeMap_of_mem (hids x (by simp))
    have hx : x ∉ ids := fun h => List.disjoint_of_nodup_append hnodup h (by simp)
    obtain ⟨ihnodup, ihmem⟩ := ih (List.Nodup.of_append_left hnodup)
      (fun y hy => hids y (List.mem_append_left _ hy))
    have hfresh : (executeIn w E input ids).ran x = false := by
      unfold State.ran
      rw [results_none hx]
      rfl
    have hran : ∀ m, (executeIn w E input (ids ++ [x])).ran m = true ↔
        (executeIn w E input ids).ran m = true ∨
          m = x ∧ (executeIn w E input ids).liveIn x ≠ some 0 := by
      intro m
      rw [executeIn_snoc]
      unfold State.ran at hfresh ⊢
      rw [step_results hnode]
      by_cases hm : m = x
      · subst hm
        rw [Function.update_self, Option.elim_some, entryOf_ran, nodeMap_id hnode, hfresh]
        simp
      · rw [Function.update_of_ne hm]
        simp [hm]
    rw [executeIn_snoc] at hran ⊢
    by_cases hlive : (executeIn w E input ids).liveIn x = some 0
    · rw [step_skip hnode hlive] at hran ⊢
      refine ⟨ihnodup, fun m => ?_⟩
      rw [hran m, or_iff_left (fun h => h.2 hlive)]
      exact ihmem m
    · rw [step_visit hnode hlive] at hran ⊢
      have houtputs : ((executeIn w E input ids).visit w E input node).outputs.map Prod.fst =
          (executeIn w E input ids).outputs.map Prod.fst ++ [x] := by
        show List.map Prod.fst (_ ++ [_]) = _
        rw [List.map_append, List.map_singleton, nodeMap_id hnode]
      rw [houtputs]
      constructor
      · rw [List.nodup_append]
        refine ⟨ihnodup, List.nodup_singleton x, fun a ha b hb hab => ?_⟩
        rw [List.mem_singleton.mp hb] at hab
        rw [hab, ihmem, hfresh] at ha
        exact Bool.false_ne_true ha
      · intro m
        rw [hran m, List.mem_append, ihmem, List.mem_singleton]
        simp [hlive]

/-- Outputs are only added. -/
theorem outputs_foldl (rest : List String) (s : State V) :
    ∃ later, (rest.foldl (State.step w E input) s).outputs = s.outputs ++ later := by
  induction rest generalizing s with
  | nil => exact ⟨[], (List.append_nil _).symm⟩
  | cons x rest ih =>
    obtain ⟨later, hlater⟩ := ih (s.step w E input x)
    rw [List.foldl_cons, hlater]
    cases hx : nodeMap w x with
    | none => exact ⟨later, by unfold State.step; rw [hx]⟩
    | some node =>
      by_cases hlive : s.liveIn x = some 0
      · rw [step_skip hx hlive]
        exact ⟨later, rfl⟩
      · rw [step_visit hx hlive]
        exact ⟨_ :: later, List.append_assoc _ _ _⟩

theorem visits_outputs (ids : List String) :
    (executeIn w E input ids).visits.map (fun v => (v.id, v.output)) =
      (executeIn w E input ids).outputs := by
  induction ids using List.reverseRecOn with
  | nil => rfl
  | append_singleton ids x ih =>
    rw [executeIn_snoc]
    cases hx : nodeMap w x with
    | none =>
      unfold State.step
      rw [hx]
      exact ih
    | some node =>
      by_cases hlive : (executeIn w E input ids).liveIn x = some 0
      · rw [step_skip hx hlive]
        exact ih
      · rw [step_visit hx hlive]
        show List.map _ (_ ++ [_]) = _ ++ [_]
        rw [List.map_append, ih]
        rfl

theorem find_key {outputs : List (String × Data V)} (hnodup : (outputs.map Prod.fst).Nodup)
    {p : String × Data V} (hp : p ∈ outputs) : outputs.find? (fun q => q.1 = p.1) = some p := by
  induction outputs with
  | nil => exact absurd hp List.not_mem_nil
  | cons q rest ih =>
    rw [List.map_cons, List.nodup_cons] at hnodup
    rcases List.mem_cons.mp hp with rfl | hp
    · exact List.find?_cons_of_pos (by simp)
    · have hne : q.1 ≠ p.1 := fun heq => hnodup.1 (heq ▸ List.mem_map_of_mem hp)
      rw [List.find?_cons_of_neg (by simp [hne])]
      exact ih hnodup.2 hp

/-- What was gathered from the first outputs of a run is what these nodes passed on. -/
theorem gather_eq {s : State V} (hnodup : (s.outputs.map Prod.fst).Nodup)
    {earlier later : List (String × Data V)} (h : s.outputs = earlier ++ later) :
    gather input earlier =
      (earlier.map Prod.fst).foldl (fun data m => update data (s.outputOf m)) input := by
  unfold gather
  rw [List.foldl_map]
  refine List.foldl_ext _ _ _ (fun data p hp => ?_)
  unfold State.outputOf
  rw [find_key hnodup (h ▸ List.mem_append_left later hp)]
  rfl

/-! ## Along one order -/

section Order

variable {order before after : List String} {id : String}

theorem Topological.upstream_mem (h : Topological w order) {m : String} (hup : Upstream w m id)
    (heq : order = before ++ id :: after) : m ∈ before := by
  induction hup generalizing before after with
  | single hedge =>
    obtain ⟨e, he, hsource, htarget⟩ := hedge
    rw [← hsource]
    exact h.source_mem heq (List.mem_filter.mpr ⟨he, by simp [htarget]⟩)
  | tail _ hedge ih =>
    obtain ⟨e, he, hsource, htarget⟩ := hedge
    have hmem := h.source_mem heq (List.mem_filter.mpr ⟨he, by simp [htarget]⟩)
    obtain ⟨first, second, rfl⟩ := List.append_of_mem hmem
    rw [hsource, List.append_assoc, List.cons_append] at heq
    exact List.mem_append_left _ (ih heq)

theorem Topological.behind (h : Topological w order) (heq : order = before ++ after) :
    before.Nodup ∧ ∀ x ∈ before, x ∈ nodeIds w.nodes := by
  have hnodup := h.nodup
  rw [heq] at hnodup
  refine ⟨List.Nodup.of_append_left hnodup, fun x hx => ?_⟩
  exact h.perm.mem_iff.mp (heq ▸ List.mem_append_left after hx)

/-- The keys on the way are the nodes behind that ran. -/
theorem Topological.mem_keys (h : Topological w order) (heq : order = before ++ after)
    {m : String} :
    m ∈ (executeIn w E input before).outputs.map Prod.fst ↔
      m ∈ before ∧ (executeIn w E input order).ran m = true := by
  obtain ⟨hnodup, hnodes⟩ := h.behind heq
  rw [(keys_at hnodup hnodes).2 m]
  by_cases hm : m ∈ before
  · unfold State.ran
    rw [h.results_eq heq hm]
    simp [hm]
  · unfold State.ran
    rw [results_none hm]
    simp [hm]

theorem outputs_append (heq : order = before ++ after) :
    ∃ later, (executeIn w E input order).outputs =
      (executeIn w E input before).outputs ++ later := by
  subst heq
  unfold executeIn
  rw [List.foldl_append]
  exact outputs_foldl after _

/-- The nodes that ran before one that runs are upstream of it. -/
theorem Topological.chain (h : Topological w order)
    (htame : Along (State.step w E input) (Tame w E input) (State.start w) order)
    (heq : order = before ++ id :: after) (hran : (executeIn w E input order).ran id = true)
    {m : String} (hm : m ∈ before) (hmran : (executeIn w E input order).ran m = true) :
    Upstream w m id := by
  have hturn := along_iff_split.mp htame before id after heq ((h.ran_iff_turn heq).mp hran)
  obtain ⟨p, hp, hpm⟩ := List.mem_map.mp ((h.mem_keys heq).mpr ⟨hm, hmran⟩)
  rw [← hpm]
  exact hturn.1 p hp

/-- A run whose steps are all tame follows the graph. -/
theorem Topological.faithful (h : Topological w order)
    (htame : Along (State.step w E input) (Tame w E input) (State.start w) order) :
    Faithful w E input (executeIn w E input order) := by
  obtain ⟨hnodup, hnodes⟩ := h.behind (List.append_nil order).symm
  have hkeys : ((executeIn w E input order).outputs.map Prod.fst).Nodup :=
    (keys_at hnodup hnodes).1
  have hids : (executeIn w E input order).visits.map Visit.id =
      (executeIn w E input order).outputs.map Prod.fst := by
    rw [← visits_outputs, List.map_map]
    rfl
  refine { runs := ?_, visited := ?_, once := ?_, gathered := ?_, input := ?_, entry := ?_,
           passed := ?_ }
  · exact fun id hid => h.ran_iff hid
  · intro id
    rw [hids]
    exact (keys_at hnodup hnodes).2 id
  · rw [hids]
    exact hkeys
  · intro v hv m
    obtain ⟨before, id, after, node, heq, hnode, hlive, rfl⟩ := (mem_visits hnodes).mp hv
    have hran := (h.ran_iff_turn heq).mpr hlive
    show m ∈ (executeIn w E input before).outputs.map Prod.fst ↔ _ ∧ Upstream w m node.id
    rw [nodeMap_id hnode, h.mem_keys heq]
    constructor
    · rintro ⟨hm, hmran⟩
      exact ⟨hmran, h.chain htame heq hran hm hmran⟩
    · rintro ⟨hmran, hup⟩
      exact ⟨h.upstream_mem hup heq, hmran⟩
  · intro v hv
    obtain ⟨before, id, after, node, heq, hnode, hlive, rfl⟩ := (mem_visits hnodes).mp hv
    have hlater : ∃ later, (executeIn w E input order).outputs =
        (executeIn w E input before).outputs ++ later := outputs_append heq
    obtain ⟨later, hlater⟩ := hlater
    exact gather_eq hkeys hlater
  · intro v hv node' hnode'
    obtain ⟨before, id, after, node, heq, hnode, hlive, rfl⟩ := (mem_visits hnodes).mp hv
    rw [show ((executeIn w E input before).visitOf E input node).id = id from nodeMap_id hnode]
      at hnode' ⊢
    rw [hnode, Option.some_inj] at hnode'
    subst hnode'
    rw [h.entry heq hnode]
    unfold State.entryOf
    rw [nodeMap_id hnode, if_neg hlive]
    rfl
  · intro v hv node' hnode' htype
    obtain ⟨before, id, after, node, heq, hnode, hlive, rfl⟩ := (mem_visits hnodes).mp hv
    rw [show ((executeIn w E input before).visitOf E input node).id = id from nodeMap_id hnode]
      at hnode'
    rw [hnode, Option.some_inj] at hnode'
    subst hnode'
    have hturn := along_iff_split.mp htame before id after heq hlive
    show node.output E (gather input (executeIn w E input before).outputs) "passed" = _
    unfold WorkflowNode.output
    rw [htype]
    show update _ _ "passed" = _
    unfold update
    cases hflag : gather input (executeIn w E input before).outputs "passed" with
    | none => rfl
    | some flag =>
      rw [hturn.2 node hnode htype flag hflag]
      rfl

/-- A run that follows the graph had tame steps only. -/
theorem Topological.tame (h : Topological w order)
    (hf : Faithful w E input (executeIn w E input order)) :
    Along (State.step w E input) (Tame w E input) (State.start w) order := by
  obtain ⟨hnodup, hnodes⟩ := h.behind (List.append_nil order).symm
  refine along_iff_split.mpr (fun before id after heq hlive => ?_)
  have hmem : id ∈ nodeIds w.nodes := h.perm.mem_iff.mp (heq ▸ by simp)
  obtain ⟨node, hnode⟩ := nodeMap_of_mem hmem
  have hid := nodeMap_id hnode
  have hvisit : (executeIn w E input before).visitOf E input node ∈
      (executeIn w E input order).visits :=
    (mem_visits hnodes).mpr ⟨before, id, after, node, heq, hnode, hlive, rfl⟩
  constructor
  · intro p hp
    have hgathered := (hf.gathered _ hvisit p.1).mp (List.mem_map_of_mem hp)
    exact hid ▸ hgathered.2
  · intro node' hnode' htype flag hflag
    rw [hnode, Option.some_inj] at hnode'
    subst hnode'
    have hpassed := hf.passed _ hvisit node (by rw [← hid] at hnode; exact hnode) htype
    have houtput : node.output E (gather input (executeIn w E input before).outputs) "passed" =
        some flag := by
      unfold WorkflowNode.output
      rw [htype]
      show update _ _ "passed" = _
      unfold update
      rw [show gather input (executeIn w E input before).outputs "passed" = some flag from hflag]
      rfl
    exact Option.some_inj.mp (houtput.symm.trans hpassed)

/-! ## Every order -/

variable {order' before' after' : List String}

/-- A run has got as far as another. -/
structure Agree (w : Workflow) (E : Env V) (input : Data V) (order before' : List String) :
    Prop where
  results : ∀ m ∈ before',
    (executeIn w E input before').results m = (executeIn w E input order).results m
  outputs : (executeIn w E input before').outputs =
    (executeIn w E input order).outputs.filter (fun p => p.1 ∈ before')

/-- What has come before a node that runs does not depend on the order. -/
theorem Topological.outputs_turn (h : Topological w order) (h' : Topological w order')
    (htame : Along (State.step w E input) (Tame w E input) (State.start w) order)
    (heq : order = before ++ id :: after) (heq' : order' = before' ++ id :: after')
    (hran : (executeIn w E input order).ran id = true) :
    (executeIn w E input order).outputs.filter (fun p => p.1 ∈ before') =
      (executeIn w E input before).outputs := by
  have hsplit : ∃ later, (executeIn w E input order).outputs =
      (executeIn w E input before).outputs ++ later := outputs_append heq
  obtain ⟨later, hlater⟩ := hsplit
  obtain ⟨hnodup, hnodes⟩ := h.behind (List.append_nil order).symm
  obtain ⟨hkeys, hkey⟩ : ((executeIn w E input order).outputs.map Prod.fst).Nodup ∧ _ :=
    keys_at hnodup hnodes
  rw [hlater, List.filter_append]
  have hearlier : (executeIn w E input before).outputs.filter (fun p => p.1 ∈ before') =
      (executeIn w E input before).outputs := by
    refine List.filter_eq_self.mpr (fun p hp => ?_)
    obtain ⟨hbefore, hpran⟩ := (h.mem_keys heq).mp (List.mem_map_of_mem hp)
    exact decide_eq_true (h'.upstream_mem (h.chain htame heq hran hbefore hpran) heq')
  have hnone : later.filter (fun p => p.1 ∈ before') = [] := by
    refine List.filter_eq_nil_iff.mpr (fun p hp => ?_)
    have hpran : (executeIn w E input order).ran p.1 = true := by
      rw [← hkey, hlater]
      exact List.mem_map_of_mem (List.mem_append_right _ hp)
    have hpfresh : p.1 ∉ before := by
      intro hin
      have hold := (h.mem_keys heq).mpr ⟨hin, hpran⟩
      rw [hlater, List.map_append] at hkeys
      exact List.disjoint_of_nodup_append hkeys hold (List.mem_map_of_mem hp)
    rw [decide_eq_true_iff]
    intro hin
    have hnodup' := h'.nodup
    rw [heq'] at hnodup'
    have hid' : id ∉ before' := fun hid => List.disjoint_of_nodup_append hnodup' hid (by simp)
    have hne : p.1 ≠ id := fun hpid => hid' (hpid ▸ hin)
    -- then `p.1` comes after `id` in the one order and before it in the other
    have hpafter : p.1 ∈ after := by
      have hmem := (h.perm.trans h'.perm.symm).mem_iff.mpr
        (heq' ▸ List.mem_append_left (id :: after') hin)
      rw [heq, List.mem_append, List.mem_cons] at hmem
      exact (hmem.resolve_left hpfresh).resolve_left hne
    obtain ⟨first, second, hafter⟩ := List.append_of_mem hpafter
    have heqp : order = (before ++ id :: first) ++ p.1 :: second := by
      rw [heq, hafter, List.append_assoc, List.cons_append]
    have hup := h.chain htame heqp hpran (by simp) hran
    obtain ⟨first', second', hbefore'⟩ := List.append_of_mem hin
    have heqp' : order' = first' ++ p.1 :: (second' ++ id :: after') := by
      rw [heq', hbefore', List.append_assoc, List.cons_append]
    have hidin := h'.upstream_mem hup heqp'
    exact hid' (hbefore' ▸ List.mem_append_left _ hidin)
  rw [hearlier, hnone, List.append_nil]

theorem filter_snoc {earlier later : List (String × Data V)} {q : String × Data V}
    {ids : List String} (hnodup : ((earlier ++ q :: later).map Prod.fst).Nodup)
    (h : (earlier ++ q :: later).filter (fun p => p.1 ∈ ids) = earlier) :
    (earlier ++ q :: later).filter (fun p => p.1 ∈ ids ++ [q.1]) = earlier ++ [q] := by
  rw [List.map_append, List.map_cons] at hnodup
  have hearlier : earlier.filter (fun p => p.1 ∈ ids ++ [q.1]) = earlier := by
    refine List.filter_eq_self.mpr (fun p hp => ?_)
    rw [← h] at hp
    have hin := of_decide_eq_true (List.mem_filter.mp hp).2
    exact decide_eq_true (List.mem_append_left _ hin)
  have hlater : later.filter (fun p => p.1 ∈ ids ++ [q.1]) = [] := by
    refine List.filter_eq_nil_iff.mpr (fun p hp => ?_)
    rw [decide_eq_true_iff]
    intro hin
    have hkey : p.1 ∈ later.map Prod.fst := List.mem_map_of_mem hp
    rcases List.mem_append.mp hin with hids | hq
    · have hpe : p ∈ earlier := by
        rw [← h]
        exact List.mem_filter.mpr ⟨by simp [hp], decide_eq_true hids⟩
      exact List.disjoint_of_nodup_append hnodup (List.mem_map_of_mem hpe)
        (List.mem_cons_of_mem _ hkey)
    · rw [List.mem_singleton.mp hq] at hkey
      exact (List.nodup_cons.mp (List.Nodup.of_append_right hnodup)).1 hkey
  rw [List.filter_append, hearlier, List.filter_cons_of_pos (by simp), hlater]

/-- Where two runs agree, they take the same turn. -/
theorem Agree.skipped_iff (hagree : Agree w E input order before') (h : Topological w order)
    (h' : Topological w order') (heq : order = before ++ id :: after)
    (heq' : order' = before' ++ id :: after') :
    (executeIn w E input before').liveIn id = some 0 ↔
      (executeIn w E input before).liveIn id = some 0 := by
  rw [h.skipped_iff heq, h'.skipped_iff heq']
  refine and_congr_right (fun _ => forall₂_congr (fun e he => ?_))
  have hsource := h'.source_mem heq' he
  unfold State.live
  rw [h'.results_eq heq' hsource, hagree.results _ hsource]

theorem Agree.snoc (hagree : Agree w E input order before') (h : Topological w order)
    (h' : Topological w order')
    (htame : Along (State.step w E input) (Tame w E input) (State.start w) order)
    (heq : order = before ++ id :: after) (heq' : order' = before' ++ id :: after') :
    Agree w E input order (before' ++ [id]) := by
  have hmem : id ∈ nodeIds w.nodes := h.perm.mem_iff.mp (heq ▸ by simp)
  obtain ⟨node, hnode⟩ := nodeMap_of_mem hmem
  have hid := nodeMap_id hnode
  have hturn := hagree.skipped_iff h h' heq heq'
  have hentry : (executeIn w E input before').entryOf E input node =
      (executeIn w E input before).entryOf E input node := by
    unfold State.entryOf
    rw [hid]
    by_cases hlive : (executeIn w E input before).liveIn id = some 0
    · rw [if_pos hlive, if_pos (hturn.mpr hlive)]
    · rw [if_neg hlive, if_neg (fun hskip => hlive (hturn.mp hskip)), hagree.outputs,
        h.outputs_turn h' htame heq heq' ((h.ran_iff_turn heq).mpr hlive)]
  constructor
  · intro m hm
    rw [executeIn_snoc, step_results hnode]
    by_cases hmid : m = id
    · rw [hmid, Function.update_self, h.entry heq hnode, hentry]
    · rw [Function.update_of_ne hmid]
      exact hagree.results m ((List.mem_append.mp hm).resolve_right (by simp [hmid]))
  · rw [executeIn_snoc]
    have hkeys : ((executeIn w E input order).outputs.map Prod.fst).Nodup := by
      obtain ⟨hnodup, hnodes⟩ := h.behind (List.append_nil order).symm
      exact (keys_at hnodup hnodes).1
    by_cases hlive : (executeIn w E input before).liveIn id = some 0
    · rw [step_skip hnode (hturn.mpr hlive)]
      refine hagree.outputs.trans (List.filter_congr (fun p hp => ?_))
      have hpran := ((h.mem_keys (List.append_nil order).symm).mp (List.mem_map_of_mem hp)).2
      have hne : p.1 ≠ id := fun hpid => (h.ran_iff_turn heq).mp (hpid ▸ hpran) hlive
      simp [hne]
    · have hran := (h.ran_iff_turn heq).mpr hlive
      have hearlier := h.outputs_turn h' htame heq heq' hran
      rw [step_visit hnode (fun hskip => hlive (hturn.mp hskip))]
      show (executeIn w E input before').outputs ++
        [(node.id, node.output E (gather input (executeIn w E input before').outputs))] = _
      have hsplit : ∃ later, (executeIn w E input order).outputs =
          (executeIn w E input (before ++ [id])).outputs ++ later := by
        have heqid : order = (before ++ [id]) ++ after := by rw [heq]; simp
        exact outputs_append heqid
      obtain ⟨later, hlater⟩ := hsplit
      rw [executeIn_snoc, step_visit hnode hlive] at hlater
      have hlater' : (executeIn w E input order).outputs =
          (executeIn w E input before).outputs ++
            (id, node.output E (gather input (executeIn w E input before).outputs)) ::
              later := by
        rw [hlater, ← hid]
        exact List.append_assoc _ [_] later
      rw [hagree.outputs, hearlier, hid]
      rw [hlater'] at hkeys hearlier ⊢
      exact (filter_snoc hkeys hearlier).symm

/-- A run whose steps are all tame agrees with the run in any other order. -/
theorem Topological.agree (h : Topological w order) (h' : Topological w order')
    (htame : Along (State.step w E input) (Tame w E input) (State.start w) order)
    (heq' : order' = before' ++ after') : Agree w E input order before' := by
  induction before' using List.reverseRecOn generalizing after' with
  | nil =>
    refine ⟨fun m hm => absurd hm List.not_mem_nil, ?_⟩
    show [] = _
    simp
  | append_singleton before' x ih =>
    rw [List.append_assoc, List.singleton_append] at heq'
    have hx : x ∈ order := (h.perm.trans h'.perm.symm).mem_iff.mpr (heq' ▸ by simp)
    obtain ⟨before, after, heq⟩ := List.append_of_mem hx
    exact (ih heq').snoc h h' htame heq heq'

/-- Then every order is tame, and the results are the same. -/
theorem Topological.tame_of_tame (h : Topological w order) (h' : Topological w order')
    (htame : Along (State.step w E input) (Tame w E input) (State.start w) order) :
    Along (State.step w E input) (Tame w E input) (State.start w) order' := by
  refine along_iff_split.mpr (fun before' id after' heq' hlive' => ?_)
  have hid : id ∈ order := (h.perm.trans h'.perm.symm).mem_iff.mpr (heq' ▸ by simp)
  obtain ⟨before, after, heq⟩ := List.append_of_mem hid
  have hagree := h.agree h' htame heq'
  have hlive : (executeIn w E input before).liveIn id ≠ some 0 :=
    fun hskip => hlive' ((hagree.skipped_iff h h' heq heq').mpr hskip)
  have hturn := along_iff_split.mp htame before id after heq hlive
  have houtputs := hagree.outputs.trans
    (h.outputs_turn h' htame heq heq' ((h.ran_iff_turn heq).mpr hlive))
  show (∀ p ∈ (executeIn w E input before').outputs, _) ∧
    ∀ node : WorkflowNode, nodeMap w id = some node → node.type = .condition → ∀ flag,
    gather input (executeIn w E input before').outputs "passed" = some flag →
      flag = E.ofBool (node.verdict E (gather input (executeIn w E input before').outputs)).1
  rw [houtputs]
  exact hturn

theorem Topological.results_of_tame (h : Topological w order) (h' : Topological w order')
    (htame : Along (State.step w E input) (Tame w E input) (State.start w) order) :
    (executeIn w E input order').results = (executeIn w E input order).results := by
  funext m
  by_cases hm : m ∈ order'
  · exact (h.agree h' htame (List.append_nil order').symm).results m hm
  · have hm' : m ∉ order := fun hin => hm ((h.perm.trans h'.perm.symm).mem_iff.mp hin)
    rw [results_none hm, results_none hm']

end Order

/-! ## Validation -/

theorem checkEdge_ok {ids : List String} {e : WorkflowEdge} (h : checkEdge ids e = .ok ()) :
    e.sourceId ∈ ids ∧ e.targetId ∈ ids := by
  unfold checkEdge at h
  split_ifs at h with hsource htarget
  exact ⟨hsource, htarget⟩

theorem forM_checkEdge {ids : List String} {edges : List WorkflowEdge}
    (h : edges.forM (checkEdge ids) = .ok ()) : ∀ e ∈ edges, checkEdge ids e = .ok () := by
  induction edges with
  | nil => exact fun e he => absurd he List.not_mem_nil
  | cons x rest ih =>
    have hcons : (checkEdge ids x >>= fun _ => rest.forM (checkEdge ids)) = .ok () := h
    cases hx : checkEdge ids x with
    | error refusal =>
      rw [hx] at hcons
      nomatch hcons
    | ok value =>
      rw [hx] at hcons
      intro e he
      rcases List.mem_cons.mp he with rfl | he
      · exact hx
      · exact ih hcons e he

theorem validateDag_ok (h : validateDag w = .ok ()) :
    (∀ e ∈ w.edges, e.sourceId ∈ nodeIds w.nodes ∧ e.targetId ∈ nodeIds w.nodes) ∧
      (topologicalSort (nodeIds w.nodes) w.edges).length = (nodeIds w.nodes).length := by
  unfold validateDag at h
  cases hedges : w.edges.forM (checkEdge (nodeIds w.nodes)) with
  | error refusal =>
    rw [hedges] at h
    nomatch h
  | ok value =>
    rw [hedges] at h
    refine ⟨fun e he => checkEdge_ok (forM_checkEdge hedges e he), ?_⟩
    by_contra hne
    have hcycle : (if (topologicalSort (nodeIds w.nodes) w.edges).length ≠
        (nodeIds w.nodes).length then Except.error Refusal.cycle else .ok ()) = .ok () := h
    rw [if_pos hne] at hcycle
    nomatch hcycle

/-- Every order that an accepted workflow is run in is a topological one. -/
theorem topologicalSort_topological (h : validateDag w = .ok ()) {ids : List String}
    (hids : ids.Perm (nodeIds w.nodes)) : Topological w (topologicalSort ids w.edges) := by
  obtain ⟨hedges, hlength⟩ := validateDag_ok h
  have hnodup : (nodeIds w.nodes).Nodup := List.nodup_dedup _
  have htargets : ∀ e ∈ w.edges.map WorkflowEdge.pair, e.2 ∈ nodeIds w.nodes := by
    intro e he
    obtain ⟨edge, hedge, rfl⟩ := List.mem_map.mp he
    exact (hedges edge hedge).2
  have hsorted := Kahn.sorted_of_length hnodup htargets hlength
  have hany := Kahn.sort_sorted hsorted (hids.nodup_iff.mpr hnodup) hids htargets
  exact ⟨hany.perm.trans hids, hany.forward⟩

/-- An accepted workflow is run in topological orders.  In all of them its runs follow the
graph, with the same results, exactly when the steps of one are tame. -/
theorem follows_graph (hvalid : validateDag w = .ok ()) :
    (∀ ids : List String, ids.Perm (nodeIds w.nodes) →
      Topological w (topologicalSort ids w.edges)) ∧
      ∀ order, Topological w order →
        ((∀ order', Topological w order' →
            Faithful w E input (executeIn w E input order') ∧
              (executeIn w E input order').results = (executeIn w E input order).results) ↔
          Along (State.step w E input) (Tame w E input) (State.start w) order) := by
  refine ⟨fun ids hids => topologicalSort_topological hvalid hids, fun order h => ?_⟩
  constructor
  · intro hall
    exact h.tame (hall order h).1
  · intro htame order' h'
    exact ⟨h'.faithful (h.tame_of_tame h' htame), h.results_of_tame h' htame⟩

/-- A query agent that finds something, and an agent that passes on the results it is given. -/
def sampleEnv : Env Bool where
  agent name data key :=
    if key = "results" then (if name = "query" then some true else data "results") else none
  evaluate expression _ := .ok (decide (expression = "true"))
  ofBool := id

/-- A query, a condition, and an agent behind it. -/
def gated : Workflow where
  nodes := [⟨"a", .agent, "query", none⟩, ⟨"b", .condition, "gate", some "true"⟩,
    ⟨"c", .agent, "self_rag", none⟩]
  edges := [⟨"a", "b", none⟩, ⟨"b", "c", none⟩]

theorem follows_graph_gated :
    validateDag gated = .ok () ∧ Topological gated ["a", "b", "c"] ∧
      ∀ order', Topological gated order' →
        Faithful gated sampleEnv (fun _ => none)
            (executeIn gated sampleEnv (fun _ => none) order') ∧
          (executeIn gated sampleEnv (fun _ => none) order').results =
            (executeIn gated sampleEnv (fun _ => none) ["a", "b", "c"]).results := by
  have hvalid : validateDag gated = .ok () := by decide +kernel
  have hall := @follows_graph Bool gated sampleEnv (fun _ => none) hvalid
  have horder : topologicalSort (nodeIds gated.nodes) gated.edges = ["a", "b", "c"] := by
    decide +kernel
  have htop : Topological gated ["a", "b", "c"] := horder ▸ hall.1 _ (List.Perm.refl _)
  refine ⟨hvalid, htop, (hall.2 _ htop).mpr ?_⟩
  have hab : Upstream gated "a" "b" :=
    Relation.TransGen.single ⟨⟨"a", "b", none⟩, by decide, rfl, rfl⟩
  have hbc : Upstream gated "b" "c" :=
    Relation.TransGen.single ⟨⟨"b", "c", none⟩, by decide, rfl, rfl⟩
  have hkeys : ((executeIn gated sampleEnv (fun _ => none) ["a"]).outputs.map Prod.fst = ["a"]) ∧
      (executeIn gated sampleEnv (fun _ => none) ["a", "b"]).outputs.map Prod.fst = ["a", "b"] := by
    decide +kernel
  have hflag : gather (fun _ => none)
      (executeIn gated sampleEnv (fun _ => none) ["a"]).outputs "passed" = none := by
    decide +kernel
  have hlast : nodeMap gated "c" = some ⟨"c", .agent, "self_rag", none⟩ := by decide +kernel
  refine ⟨?_, ?_, ?_, trivial⟩
  · intro _
    exact ⟨fun p hp => absurd hp List.not_mem_nil, fun node hnode htype flag h => nomatch h⟩
  · intro _
    refine ⟨fun p hp => ?_, fun node hnode htype flag h => nomatch hflag.symm.trans h⟩
    have hp' := hkeys.1 ▸ List.mem_map_of_mem (f := Prod.fst) hp
    rw [List.mem_singleton.mp hp']
    exact hab
  · intro _
    constructor
    · intro p hp
      have hp' := hkeys.2 ▸ List.mem_map_of_mem (f := Prod.fst) hp
      rcases List.mem_cons.mp hp' with h | h
      · rw [h]
        exact hab.trans hbc
      · rw [List.mem_singleton.mp h]
        exact hbc
    · intro node hnode htype
      rw [hlast, Option.some_inj] at hnode
      subst hnode
      nomatch htype

/-- Two agents side by side. -/
def sideBySide : Workflow where
  nodes := [⟨"a", .agent, "query", none⟩, ⟨"b", .agent, "self_rag", none⟩,
    ⟨"c", .tool, "report", none⟩]
  edges := [⟨"a", "c", none⟩, ⟨"b", "c", none⟩]

/-- A condition that fails behind one that passed. -/
def nested : Workflow where
  nodes := [⟨"a", .condition, "outer", some "true"⟩, ⟨"b", .condition, "inner", some "n > 0"⟩]
  edges := [⟨"a", "b", none⟩]

/-- The output in an agent's entry. -/
def Entry.output : Entry V → Data V
  | .agent _ output => output
  | _ => fun _ => none

/-- What one agent found reaches the other if the set of ids is gone through in one way and not
in another, and the flag of an inner condition is that of the outer one. -/
theorem side_by_side_leaks :
    (validateDag sideBySide = .ok () ∧
      ¬ Faithful sideBySide sampleEnv (fun _ => none)
        (executeWorkflow sideBySide sampleEnv (fun _ => none) ["a", "b", "c"]) ∧
      (executeWorkflow sideBySide sampleEnv (fun _ => none) ["a", "b", "c"]).results ≠
        (executeWorkflow sideBySide sampleEnv (fun _ => none) ["b", "a", "c"]).results) ∧
    validateDag nested = .ok () ∧
      ¬ Faithful nested sampleEnv (fun _ => none)
        (executeWorkflow nested sampleEnv (fun _ => none) ["a", "b"]) := by
  refine ⟨⟨by decide +kernel, fun hf => ?_, fun hsame => ?_⟩, by decide +kernel, fun hf => ?_⟩
  · have hvisits : ("b", ["a"]) ∈
        (executeWorkflow sideBySide sampleEnv (fun _ => none) ["a", "b", "c"]).visits.map
          (fun v => (v.id, v.gathered)) := by
      decide +kernel
    obtain ⟨v, hv, hpair⟩ := List.mem_map.mp hvisits
    obtain ⟨hid, hgathered⟩ := Prod.mk.inj hpair
    have hup := ((hf.gathered v hv "a").mp (hgathered ▸ List.mem_singleton_self "a")).2
    rw [hid] at hup
    obtain ⟨n, -, e, he, -, htarget⟩ := Relation.TransGen.tail'_iff.mp hup
    have hnone : ∀ e ∈ sideBySide.edges, e.targetId ≠ "b" := by decide
    exact hnone e he htarget
  · have hfound := congrArg (fun results => (results "b").map (fun e => e.output "results")) hsame
    have hne : (fun results : String → Option (Entry Bool) =>
          (results "b").map (fun e => e.output "results"))
            (executeWorkflow sideBySide sampleEnv (fun _ => none) ["a", "b", "c"]).results ≠
        (fun results : String → Option (Entry Bool) =>
          (results "b").map (fun e => e.output "results"))
            (executeWorkflow sideBySide sampleEnv (fun _ => none) ["b", "a", "c"]).results := by
      decide +kernel
    exact hne hfound
  · have hvisits : ("b", some true) ∈
        (executeWorkflow nested sampleEnv (fun _ => none) ["a", "b"]).visits.map
          (fun v => (v.id, v.output "passed")) := by
      decide +kernel
    obtain ⟨v, hv, hpair⟩ := List.mem_map.mp hvisits
    obtain ⟨hid, hflag⟩ := Prod.mk.inj hpair
    have hnode : nodeMap nested v.id = some ⟨"b", .condition, "inner", some "n > 0"⟩ := by
      rw [hid]
      decide +kernel
    have hpassed := hf.passed v hv _ hnode rfl
    rw [hflag] at hpassed
    exact Bool.noConfusion (Option.some_inj.mp hpassed)

end Cerid.Workflows

/-!
# The workflows that are accepted

A workflow is accepted if its edges join its nodes and make no cycle, and then it is sorted.
The ids are put in a set, so nodes that share one count once.
-/

namespace Cerid.Workflows

variable {w : Workflow}

/-- No path along the edges comes back to its node. -/
def Acyclic (w : Workflow) : Prop := Kahn.Acyclic (w.edges.map WorkflowEdge.pair)

/-- Every edge joins two nodes that are listed. -/
def Joined (w : Workflow) : Prop :=
  ∀ e ∈ w.edges, e.sourceId ∈ w.nodes.map WorkflowNode.id ∧ e.targetId ∈ w.nodes.map WorkflowNode.id

theorem mem_nodeIds {nodes : List WorkflowNode} {id : String} :
    id ∈ nodeIds nodes ↔ id ∈ nodes.map WorkflowNode.id := List.mem_dedup

theorem checkEdge_of {ids : List String} {e : WorkflowEdge} (hsource : e.sourceId ∈ ids)
    (htarget : e.targetId ∈ ids) (hloop : e.sourceId ≠ e.targetId) : checkEdge ids e = .ok () := by
  unfold checkEdge
  rw [if_neg (not_not_intro hsource), if_neg (not_not_intro htarget), if_neg hloop]

theorem forM_checkEdge_of {ids : List String} {edges : List WorkflowEdge}
    (h : ∀ e ∈ edges, checkEdge ids e = .ok ()) : edges.forM (checkEdge ids) = .ok () := by
  induction edges with
  | nil => rfl
  | cons e rest ih =>
    show (checkEdge ids e >>= fun _ => rest.forM (checkEdge ids)) = .ok ()
    rw [h e List.mem_cons_self]
    exact ih fun x hx => h x (List.mem_cons_of_mem e hx)

theorem Joined.pairs (h : Joined w) :
    ∀ e ∈ w.edges.map WorkflowEdge.pair, e.1 ∈ nodeIds w.nodes ∧ e.2 ∈ nodeIds w.nodes := by
  intro pair hpair
  obtain ⟨e, he, rfl⟩ := List.mem_map.mp hpair
  exact ⟨mem_nodeIds.mpr (h e he).1, mem_nodeIds.mpr (h e he).2⟩

theorem Joined.length_sort_iff (h : Joined w) :
    (topologicalSort (nodeIds w.nodes) w.edges).length = (nodeIds w.nodes).length ↔ Acyclic w :=
  Kahn.length_sort_iff (List.nodup_dedup _) h.pairs

/-- A self-loop is a cycle. -/
theorem Acyclic.loopless (h : Acyclic w) : ∀ e ∈ w.edges, e.sourceId ≠ e.targetId := by
  intro e he heq
  refine h e.targetId (Relation.TransGen.single (List.mem_map.mpr ⟨e, he, ?_⟩))
  rw [WorkflowEdge.pair, heq]

theorem validateDag_of (hjoined : Joined w) (hacyclic : Acyclic w) : validateDag w = .ok () := by
  have hchecks : w.edges.forM (checkEdge (nodeIds w.nodes)) = .ok () := by
    refine forM_checkEdge_of fun e he => ?_
    obtain ⟨hsource, htarget⟩ := hjoined e he
    exact checkEdge_of (mem_nodeIds.mpr hsource) (mem_nodeIds.mpr htarget) (hacyclic.loopless e he)
  unfold validateDag
  rw [hchecks]
  exact if_neg (not_not_intro (hjoined.length_sort_iff.mpr hacyclic))

theorem joined_of_validateDag (h : validateDag w = .ok ()) : Joined w := by
  intro e he
  obtain ⟨hsource, htarget⟩ := (validateDag_ok h).1 e he
  exact ⟨mem_nodeIds.mp hsource, mem_nodeIds.mp htarget⟩

theorem acyclic_of_validateDag (h : validateDag w = .ok ()) : Acyclic w :=
  (joined_of_validateDag h).length_sort_iff.mp (validateDag_ok h).2

/-- A workflow is accepted exactly if its edges join listed nodes and make no cycle; it is then
sorted, in whatever order the set of its ids is gone through. -/
theorem validateDag_iff (w : Workflow) :
    (validateDag w = .ok () ↔ Joined w ∧ Acyclic w) ∧
      (validateDag w = .ok () → ∀ ids : List String, ids.Perm (nodeIds w.nodes) →
        Topological w (topologicalSort ids w.edges)) := by
  refine ⟨⟨fun h => ?_, fun h => validateDag_of h.1 h.2⟩, fun h ids hids => ?_⟩
  · exact ⟨joined_of_validateDag h, acyclic_of_validateDag h⟩
  · exact topologicalSort_topological h hids

/-- Two nodes may share an id. -/
theorem shared_id_accepted :
    ¬ ∀ w : Workflow, validateDag w = .ok () ↔
      (w.nodes.map WorkflowNode.id).Nodup ∧ Joined w ∧ Acyclic w := by
  intro h
  have hdistinct := ((h { nodes := [⟨"a", .tool, "read", none⟩, ⟨"a", .tool, "write", none⟩]
                          edges := [] }).mp (by decide +kernel)).1
  exact absurd hdistinct (by decide)

end Cerid.Workflows
