import Cerid.Workflows.Execute
import Mathlib.Data.List.Dedup

/-!
# Live edges

An edge is live if its source ran and, for a condition, took its branch.  `live_in` is brought
down as edges die, so in a topological order a node runs exactly when it has no edge into it
or a live one (`ran_iff`).
-/

namespace Cerid.Workflows

open Kahn (Sorted)

variable {V : Type}

/-- An edge out of a node with this entry is live. -/
def Entry.live (entry : Entry V) (e : WorkflowEdge) : Bool :=
  match entry with
  | .skipped _ => false
  | .condition _ passed _ => e.wants = passed
  | .agent _ _ | .completed _ _ => true

def State.ran (s : State V) (id : String) : Bool := (s.results id).elim false Entry.ran

def State.live (s : State V) (e : WorkflowEdge) : Bool :=
  (s.results e.sourceId).elim false (fun entry => entry.live e)

def incoming (w : Workflow) (id : String) : List WorkflowEdge :=
  w.edges.filter (fun e => e.targetId = id)

variable (w : Workflow) (E : Env V) (input : Data V)

/-- What a step records of its node. -/
def State.entryOf (s : State V) (node : WorkflowNode) : Entry V :=
  if s.liveIn node.id = some 0 then .skipped node.name
  else node.entry E (gather input s.outputs)

variable {w E input}

/-! ## One step -/

theorem nodeMap_id {id : String} {node : WorkflowNode} (h : nodeMap w id = some node) :
    node.id = id := by
  have hfound := List.find?_some h
  exact of_decide_eq_true hfound

theorem nodeMap_of_mem {id : String} (h : id ∈ nodeIds w.nodes) :
    ∃ node, nodeMap w id = some node := by
  unfold nodeIds at h
  rw [List.mem_dedup, List.mem_map] at h
  obtain ⟨node, hmem, hid⟩ := h
  rw [← Option.isSome_iff_exists]
  unfold nodeMap
  rw [List.find?_isSome]
  exact ⟨node, List.mem_reverse.mpr hmem, by simp [hid]⟩

theorem deadEdges_eq (node : WorkflowNode) (data : Data V) :
    deadEdges w E node data =
      (adj w node.id).filter (fun e => !(node.entry E data).live e) := by
  unfold deadEdges WorkflowNode.entry
  cases node.type with
  | condition =>
    refine List.filter_congr (fun e _ => ?_)
    simp [Entry.live]
  | agent | tool | parser => simp [Entry.live]

theorem step_results {s : State V} {id : String} {node : WorkflowNode}
    (h : nodeMap w id = some node) :
    (s.step w E input id).results =
      Function.update s.results id (some (s.entryOf E input node)) := by
  have hid := nodeMap_id h
  subst hid
  unfold State.step State.entryOf
  rw [h]
  dsimp only
  by_cases hlive : s.liveIn node.id = some 0
  · rw [if_pos hlive, if_pos hlive]
    rfl
  · rw [if_neg hlive, if_neg hlive]
    rfl

theorem step_liveIn {s : State V} {id : String} {node : WorkflowNode}
    (h : nodeMap w id = some node) :
    (s.step w E input id).liveIn =
      kill s.liveIn ((adj w id).filter (fun e => !(s.entryOf E input node).live e)) := by
  have hid := nodeMap_id h
  subst hid
  unfold State.step State.entryOf
  rw [h]
  dsimp only
  by_cases hlive : s.liveIn node.id = some 0
  · rw [if_pos hlive, if_pos hlive]
    show kill s.liveIn (adj w node.id) = _
    simp [Entry.live]
  · rw [if_neg hlive, if_neg hlive, ← deadEdges_eq]
    rfl

theorem executeIn_snoc (ids : List String) (id : String) :
    executeIn w E input (ids ++ [id]) = (executeIn w E input ids).step w E input id := by
  unfold executeIn
  rw [List.foldl_append]
  rfl

/-- A node's entry is written at its own step only. -/
theorem results_foldl {ids : List String} {id : String} (s : State V) (h : id ∉ ids) :
    (ids.foldl (State.step w E input) s).results id = s.results id := by
  induction ids generalizing s with
  | nil => rfl
  | cons x rest ih =>
    rw [List.mem_cons, not_or] at h
    rw [List.foldl_cons, ih _ h.2]
    cases hx : nodeMap w x with
    | none =>
      unfold State.step
      rw [hx]
    | some node => rw [step_results hx, Function.update_of_ne h.1]

theorem results_none {ids : List String} {id : String} (h : id ∉ ids) :
    (executeIn w E input ids).results id = none := results_foldl (State.start w) h

theorem results_append {ids rest : List String} {id : String} (h : id ∉ rest) :
    (executeIn w E input (ids ++ rest)).results id = (executeIn w E input ids).results id := by
  unfold executeIn
  rw [List.foldl_append]
  exact results_foldl _ h

/-! ## The counters -/

theorem startLive_eq (id : String) :
    startLive w id = if incoming w id = [] then none else some ((incoming w id).length : Int) := by
  have hfold : ∀ (edges : List WorkflowEdge) (live : String → Option Int),
      edges.foldl (fun (live : String → Option Int) (e : WorkflowEdge) =>
          Function.update live e.targetId (some ((live e.targetId).getD 0 + 1))) live id =
        if edges.filter (fun e => e.targetId = id) = [] then live id
        else some ((live id).getD 0 + (edges.filter (fun e => e.targetId = id)).length) := by
    intro edges
    induction edges with
    | nil =>
      intro live
      simp
    | cons e rest ih =>
      intro live
      rw [List.foldl_cons, ih]
      by_cases h : e.targetId = id
      · subst h
        rw [Function.update_self, List.filter_cons_of_pos (by simp), if_neg (List.cons_ne_nil _ _),
          List.length_cons]
        by_cases hrest : rest.filter (fun e' => e'.targetId = e.targetId) = []
        · rw [if_pos hrest, hrest]
          simp
        · rw [if_neg hrest, Option.getD_some]
          congr 1
          omega
      · rw [Function.update_of_ne (fun heq => h heq.symm), List.filter_cons_of_neg (by simp [h])]
  unfold startLive incoming
  rw [hfold]
  simp

theorem kill_eq (live : String → Option Int) (dead : List WorkflowEdge) (id : String) :
    kill live dead id =
      (live id).map (fun n => n - ((dead.filter (fun e => e.targetId = id)).length : Int)) := by
  unfold kill
  induction dead generalizing live with
  | nil => simp
  | cons e rest ih =>
    rw [List.foldl_cons, ih]
    by_cases h : e.targetId = id
    · subst h
      rw [Function.update_self, List.filter_cons_of_pos (by simp), List.length_cons,
        Option.map_map]
      congr 1
      funext n
      show n - 1 - _ = _
      omega
    · rw [Function.update_of_ne (fun heq => h heq.symm), List.filter_cons_of_neg (by simp [h])]

/-- The edges into `id` that are live, or whose source is still to come. -/
def openEdges (w : Workflow) (s : State V) (ids : List String) (id : String) :
    List WorkflowEdge :=
  (incoming w id).filter (fun e => e.sourceId ∉ ids || s.live e)

/-- The step of a node closes the edges out of it that are dead. -/
theorem openEdges_snoc {ids : List String} {x : String} {node : WorkflowNode}
    (hnode : nodeMap w x = some node) (hx : x ∉ ids) (id : String) :
    ((openEdges w (executeIn w E input (ids ++ [x])) (ids ++ [x]) id).length : Int) =
      (openEdges w (executeIn w E input ids) ids id).length -
        ((((adj w x).filter
            (fun e => !((executeIn w E input ids).entryOf E input node).live e)).filter
          (fun e => e.targetId = id)).length : Int) := by
  have hlive : ∀ e : WorkflowEdge, (executeIn w E input (ids ++ [x])).live e =
      if e.sourceId = x then ((executeIn w E input ids).entryOf E input node).live e
      else (executeIn w E input ids).live e := by
    intro e
    rw [executeIn_snoc]
    unfold State.live
    rw [step_results hnode]
    by_cases he : e.sourceId = x
    · rw [if_pos he, he, Function.update_self]
      rfl
    · rw [if_neg he, Function.update_of_ne he]
  unfold openEdges incoming adj
  generalize (executeIn w E input ids).entryOf E input node = entry at hlive ⊢
  generalize executeIn w E input (ids ++ [x]) = s' at hlive ⊢
  generalize executeIn w E input ids = s at hlive ⊢
  rw [List.filter_filter, List.filter_filter, List.filter_filter, List.filter_filter]
  induction w.edges with
  | nil => simp
  | cons e rest ih =>
    by_cases ht : e.targetId = id
    · by_cases hs : e.sourceId = x
      · have hin : e.sourceId ∉ ids := hs ▸ hx
        cases hl : entry.live e with
        | true =>
          rw [List.filter_cons_of_pos (by simp [ht, hs, hl, hlive]),
            List.filter_cons_of_pos (by simp [ht, hin]),
            List.filter_cons_of_neg (by simp [hl]), List.length_cons, List.length_cons]
          omega
        | false =>
          rw [List.filter_cons_of_neg (by simp [hs, hl, hlive]),
            List.filter_cons_of_pos (by simp [ht, hin]),
            List.filter_cons_of_pos (by simp [ht, hs, hl]), List.length_cons, List.length_cons]
          omega
      · by_cases hopen : e.sourceId ∉ ids ∨ s.live e = true
        · rw [List.filter_cons_of_pos (by simpa [ht, hs, hlive] using hopen),
            List.filter_cons_of_pos (by simpa [ht] using hopen),
            List.filter_cons_of_neg (by simp [hs]), List.length_cons, List.length_cons]
          omega
        · rw [List.filter_cons_of_neg (by simpa [ht, hs, hlive] using hopen),
            List.filter_cons_of_neg (by simpa [ht] using hopen),
            List.filter_cons_of_neg (by simp [hs])]
          exact ih
    · rw [List.filter_cons_of_neg (by simp [ht]), List.filter_cons_of_neg (by simp [ht]),
        List.filter_cons_of_neg (by simp [ht])]
      exact ih

/-- `live_in` counts the edges that may still deliver data. -/
theorem liveIn_eq {ids : List String} (hnodup : ids.Nodup)
    (hids : ∀ id ∈ ids, id ∈ nodeIds w.nodes) (id : String) :
    (executeIn w E input ids).liveIn id =
      if incoming w id = [] then none
      else some ((openEdges w (executeIn w E input ids) ids id).length : Int) := by
  induction ids using List.reverseRecOn with
  | nil =>
    show startLive w id = _
    rw [startLive_eq]
    unfold openEdges
    simp
  | append_singleton ids x ih =>
    obtain ⟨node, hnode⟩ := nodeMap_of_mem (hids x (by simp))
    have hx : x ∉ ids := by
      intro h
      exact List.disjoint_of_nodup_append hnodup h (by simp)
    have ih' := ih (List.Nodup.of_append_left hnodup)
      (fun y hy => hids y (List.mem_append_left _ hy))
    rw [openEdges_snoc hnode hx, executeIn_snoc, step_liveIn hnode, kill_eq, ih']
    by_cases hinc : incoming w id = []
    · rw [if_pos hinc, if_pos hinc]
      rfl
    · rw [if_neg hinc, if_neg hinc]
      rfl

/-! ## Topological orders -/

section Order

variable {order before after : List String} {id : String}

theorem Topological.nodup (h : Topological w order) : order.Nodup :=
  h.perm.nodup_iff.mpr (List.nodup_dedup _)

theorem Topological.source_mem (h : Topological w order) (heq : order = before ++ id :: after)
    {e : WorkflowEdge} (he : e ∈ incoming w id) : e.sourceId ∈ before := by
  obtain ⟨hmem, htarget⟩ := List.mem_filter.mp he
  exact h.forward before id after heq e.pair (List.mem_map_of_mem hmem)
    (of_decide_eq_true htarget)

/-- Once a node is behind, its entry stays as it is. -/
theorem Topological.results_eq (h : Topological w order) (heq : order = before ++ after)
    (hid : id ∈ before) :
    (executeIn w E input order).results id = (executeIn w E input before).results id := by
  have hnodup := h.nodup
  rw [heq] at hnodup
  rw [heq]
  exact results_append (fun hafter => List.disjoint_of_nodup_append hnodup hid hafter)

/-- The entry of a node, from the state its step is taken from. -/
theorem Topological.entry (h : Topological w order) (heq : order = before ++ id :: after)
    {node : WorkflowNode} (hnode : nodeMap w id = some node) :
    (executeIn w E input order).results id =
      some ((executeIn w E input before).entryOf E input node) := by
  have heq' : order = (before ++ [id]) ++ after := by rw [heq]; simp
  rw [h.results_eq heq' (by simp), executeIn_snoc, step_results hnode, Function.update_self]

theorem Topological.liveIn_eq (h : Topological w order) (heq : order = before ++ after) :
    (executeIn w E input before).liveIn id =
      if incoming w id = [] then none
      else some ((openEdges w (executeIn w E input before) before id).length : Int) := by
  have hnodup := h.nodup
  rw [heq] at hnodup
  refine Workflows.liveIn_eq (List.Nodup.of_append_left hnodup) (fun x hx => ?_) id
  exact h.perm.mem_iff.mp (heq ▸ List.mem_append_left after hx)

/-- At its turn a node is skipped exactly when there are edges into it and none is live. -/
theorem Topological.skipped_iff (h : Topological w order) (heq : order = before ++ id :: after) :
    (executeIn w E input before).liveIn id = some 0 ↔
      incoming w id ≠ [] ∧
        ∀ e ∈ incoming w id, (executeIn w E input order).live e = false := by
  have hopen : openEdges w (executeIn w E input before) before id =
      (incoming w id).filter (fun e => (executeIn w E input order).live e) := by
    unfold openEdges
    refine List.filter_congr (fun e he => ?_)
    have hsource := h.source_mem heq he
    unfold State.live
    rw [h.results_eq heq hsource]
    simp [hsource]
  rw [h.liveIn_eq heq, hopen]
  by_cases hinc : incoming w id = []
  · simp [hinc]
  · rw [if_neg hinc, Option.some_inj, Int.natCast_eq_zero, List.length_eq_zero_iff,
      List.filter_eq_nil_iff]
    simp [hinc]

theorem entryOf_ran (s : State V) (node : WorkflowNode) :
    (s.entryOf E input node).ran = true ↔ s.liveIn node.id ≠ some 0 := by
  unfold State.entryOf
  by_cases h : s.liveIn node.id = some 0
  · rw [if_pos h]
    simp [Entry.ran, h]
  · rw [if_neg h]
    unfold WorkflowNode.entry
    cases node.type <;> simp [Entry.ran, h]

theorem Topological.ran_iff_turn (h : Topological w order)
    (heq : order = before ++ id :: after) :
    (executeIn w E input order).ran id = true ↔
      (executeIn w E input before).liveIn id ≠ some 0 := by
  have hmem : id ∈ nodeIds w.nodes := h.perm.mem_iff.mp (heq ▸ by simp)
  obtain ⟨node, hnode⟩ := nodeMap_of_mem hmem
  unfold State.ran
  rw [h.entry heq hnode, Option.elim_some, entryOf_ran, nodeMap_id hnode]

/-- A node runs exactly when it has no edge into it or a live one. -/
theorem Topological.ran_iff (h : Topological w order) (hid : id ∈ nodeIds w.nodes) :
    (executeIn w E input order).ran id = true ↔
      incoming w id = [] ∨
        ∃ e ∈ incoming w id, (executeIn w E input order).live e = true := by
  obtain ⟨before, after, heq⟩ := List.append_of_mem (h.perm.mem_iff.mpr hid)
  rw [h.ran_iff_turn heq, Ne, h.skipped_iff heq, not_and_or, not_not]
  simp

end Order

end Cerid.Workflows
