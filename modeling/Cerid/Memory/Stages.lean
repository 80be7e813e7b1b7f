import Cerid.Memory.Rekeyed
import Cerid.Lib.Run

/-!
# The writes of a migration

The graph is written first, and writing it again changes nothing.  The rows are then moved, the
old ones deleted, and the new ones told their memory and conversation.
-/

namespace Cerid.Memory

variable {st : Setting}

/-! ## The graph -/

theorem named_named (a : ArtifactNode) : a.named.named = a.named := by
  obtain ⟨conversationId, extractedFrom⟩ := a
  cases conversationId with
  | some cid => rfl
  | none =>
    cases extractedFrom with
    | nil => rfl
    | cons cid rest => rfl

theorem MemoryNode.found_named (m : MemoryNode) : m.named.found = none := by
  rw [named]
  cases h : m.found with
  | none => exact h
  | some cid => rfl

theorem MemoryNode.named_named (m : MemoryNode) : m.named.named = m.named := by
  rw [named, found_named]

theorem mapValues_mapValues {α : Type} (d : Dict Id α) (f : Id → α → α)
    (h : ∀ k v, f k (f k v) = f k v) : (d.mapValues f).mapValues f = d.mapValues f := by
  obtain ⟨items, hnodup⟩ := d
  have hitems : (items.map fun p => (p.1, f p.1 p.2)).map (fun p => (p.1, f p.1 p.2)) =
      items.map fun p => (p.1, f p.1 p.2) := by
    rw [List.map_map]
    exact List.map_congr_left fun p _ => congrArg (Prod.mk p.1) (h p.1 p.2)
  simp only [Dict.mapValues, Dict.mk.injEq]
  exact hitems

theorem artifactConversations_twice (g : Graph) :
    g.artifactConversations.artifactConversations = g.artifactConversations := by
  rw [Graph.artifactConversations, Graph.artifactConversations]
  exact congrArg (fun artifacts => { g with artifacts := artifacts })
    (mapValues_mapValues g.artifacts _ fun _ => named_named)

theorem verifiedConversations_twice (g : Graph) :
    g.verifiedConversations.verifiedConversations = g.verifiedConversations := by
  have hmemories := mapValues_mapValues g.memories (fun _ => MemoryNode.named)
    fun _ => MemoryNode.named_named
  have hfound : (g.memories.mapValues fun _ => MemoryNode.named).values.filterMap
      MemoryNode.found = [] := by
    rw [List.filterMap_eq_nil_iff]
    intro m hm
    obtain ⟨p, hp, rfl⟩ := List.mem_map.mp hm
    obtain ⟨q, hq, rfl⟩ := List.mem_map.mp hp
    exact MemoryNode.found_named q.2
  rw [Graph.verifiedConversations, Graph.verifiedConversations, hmemories]
  dsimp only
  rw [hfound, List.toFinset_nil, Finset.union_empty]

theorem graphed_twice (s : Library) : graphed (graphed s) = graphed s := by
  have hgraph : s.graph.artifactConversations.verifiedConversations.artifactConversations =
      s.graph.artifactConversations.verifiedConversations := by
    have h := artifactConversations_twice s.graph
    exact congrArg Graph.verifiedConversations h
  rw [graphed, graphed, hgraph, verifiedConversations_twice]

theorem graphed_artifacts (s : Library) :
    graphed { s with graph := s.graph.artifactConversations } = graphed s := by
  rw [graphed, graphed, artifactConversations_twice]

/-- The migration of a library whose graph is written already. -/
theorem graphed_of_graph {s t : Library} (h : t.graph = (graphed s).graph) : graphed t = t := by
  obtain ⟨graph, rows⟩ := t
  cases h
  have htwice := congrArg Library.graph (graphed_twice s)
  rw [graphed]
  exact congrArg (fun graph => Library.mk graph rows) htwice

/-! ## The rows after each write -/

variable (st) in
/-- `mapping`, for the rows that are moved. -/
def moves (rows : Dict Id Row) : List (Id × Id) := (moving st rows).map fun p => (p.1, newId st p)

variable (st) in
def movedRow (rows : Dict Id Row) (p : Id × Row) : Row :=
  { p.2 with metadata := rekeyed (moves st rows) p.2.metadata }

variable (st) in
def upserted (s : Library) : Dict Id Row :=
  (moving st s.rows).foldl (fun acc p => acc.set (newId st p) (movedRow st s.rows p)) s.rows

variable (st) in
def cleared (s : Library) : Dict Id Row :=
  ((moving st s.rows).map Prod.fst).foldl Dict.erase (upserted st s)

variable (st) in
def swept (s : Library) : Dict Id Row :=
  ((stale st s.rows).map Prod.fst).foldl Dict.erase (cleared st s)

variable (st) in
def told (s : Library) : Dict Id Row :=
  ((moving st s.rows).map fun p => (newId st p, taggedMeta st s.graph p)).foldl setMeta (swept st s)

theorem nodup_moving (rows : Dict Id Row) : ((moving st rows).map Prod.fst).Nodup :=
  rows.nodup.sublist ((List.filter_sublist.trans List.filter_sublist).map Prod.fst)

theorem lookup_map {ps : List (Id × Row)} (hnodup : (ps.map Prod.fst).Nodup) (f : Id × Row → Id)
    {p : Id × Row} (hp : p ∈ ps) : lookup (ps.map fun p => (p.1, f p)) p.1 = some (f p) := by
  induction ps with
  | nil => exact absurd hp List.not_mem_nil
  | cons q rest ih =>
    rw [List.map_cons, List.nodup_cons] at hnodup
    rw [lookup, List.map_cons, List.find?_cons]
    rcases List.mem_cons.mp hp with rfl | hrest
    · dsimp only
      rw [decide_eq_true rfl]
      rfl
    · have hne : q.1 ≠ p.1 := fun h => hnodup.1 (h ▸ List.mem_map_of_mem hrest)
      dsimp only
      rw [decide_eq_false hne]
      exact ih hnodup.2 hrest

theorem rekeyChroma_moving (rows : Dict Id Row) :
    rekeyChroma (moving st rows) (moves st rows) [] =
      if moving st rows = [] then []
      else [.upsert ((moving st rows).map fun p => (newId st p, movedRow st rows p)),
        .delete ((moving st rows).map Prod.fst)] := by
  have hkept : (moving st rows).filterMap (rekeyedRow (moves st rows) []) =
      (moving st rows).map fun p => (newId st p, movedRow st rows p) := by
    rw [← List.filterMap_eq_map]
    refine List.filterMap_congr fun p hp => ?_
    rw [rekeyedRow, show lookup (moves st rows) p.1 = some (newId st p) from
      lookup_map (nodup_moving rows) (newId st) hp]
    dsimp only
    rw [if_neg List.not_mem_nil]
    rfl
  rw [rekeyChroma, hkept]
  by_cases h : moving st rows = []
  · rw [if_pos h, if_pos h]
  · rw [if_neg h, if_neg h, if_neg fun hmap => h (List.map_eq_nil_iff.mp hmap)]
    rfl

theorem rowWrites_of_not_refused {s : Library} (h : ¬Refused st s) :
    rowWrites st s =
      (if moving st s.rows = [] then []
        else [.upsert ((moving st s.rows).map fun p => (newId st p, movedRow st s.rows p)),
          .delete ((moving st s.rows).map Prod.fst)]) ++
      (if stale st s.rows = [] then [] else [.delete ((stale st s.rows).map Prod.fst)]) ++
      (if moving st s.rows = [] then []
        else [.update ((moving st s.rows).map fun p => (newId st p, taggedMeta st s.graph p))]) := by
  rw [rowWrites, if_neg h, ← rekeyChroma_moving]
  rfl

theorem apply_upsert (s : Library) :
    Write.apply s (.upsert ((moving st s.rows).map fun p => (newId st p, movedRow st s.rows p))) =
      { s with rows := upserted st s } := by
  rw [Write.apply, List.foldl_map]
  rfl

/-- The rows after some of the writes to them. -/
theorem taken_cases {s : Library} (h : ¬Refused st s) (n : Nat) :
    ∃ rows ∈ [s.rows, upserted st s, cleared st s, swept st s, told st s],
      ((rowWrites st s).take n).foldl Write.apply s = { s with rows := rows } := by
  rw [rowWrites_of_not_refused h]
  by_cases hmoving : moving st s.rows = []
  · have hup : upserted st s = s.rows := by rw [upserted, hmoving]; rfl
    have hclear : cleared st s = s.rows := by rw [cleared, hmoving, hup]; rfl
    have htold : told st s = swept st s := by rw [told, hmoving]; rfl
    rw [if_pos hmoving, if_pos hmoving, List.nil_append, List.append_nil]
    by_cases hstale : stale st s.rows = []
    · rw [if_pos hstale, List.take_nil]
      exact ⟨s.rows, List.mem_cons_self, rfl⟩
    · rw [if_neg hstale]
      cases n with
      | zero => exact ⟨s.rows, List.mem_cons_self, rfl⟩
      | succ n =>
        refine ⟨swept st s, by simp, ?_⟩
        rw [List.take_succ_cons, List.take_nil, swept, hclear]
        rfl
  · rw [if_neg hmoving, if_neg hmoving]
    have hup := @apply_upsert st s
    by_cases hstale : stale st s.rows = []
    · have hswept : swept st s = cleared st s := by rw [swept, hstale]; rfl
      rw [if_pos hstale]
      match n with
      | 0 => exact ⟨s.rows, by simp, rfl⟩
      | 1 => exact ⟨upserted st s, by simp, hup⟩
      | 2 => exact ⟨cleared st s, by simp, by
          simp only [List.cons_append, List.nil_append, List.take_succ_cons, List.take_zero,
            List.foldl_cons, List.foldl_nil, hup]
          rfl⟩
      | n + 3 => exact ⟨told st s, by simp, by
          rw [told, hswept]
          simp only [List.cons_append, List.nil_append, List.take_succ_cons, List.take_nil,
            List.foldl_cons, List.foldl_nil, hup]
          rfl⟩
    · rw [if_neg hstale]
      match n with
      | 0 => exact ⟨s.rows, by simp, rfl⟩
      | 1 => exact ⟨upserted st s, by simp, hup⟩
      | 2 => exact ⟨cleared st s, by simp, by
          simp only [List.cons_append, List.nil_append, List.take_succ_cons, List.take_zero,
            List.foldl_cons, List.foldl_nil, hup]
          rfl⟩
      | 3 => exact ⟨swept st s, by simp, by
          simp only [List.cons_append, List.nil_append, List.take_succ_cons, List.take_zero,
            List.foldl_cons, List.foldl_nil, hup]
          rfl⟩
      | n + 4 => exact ⟨told st s, by simp, by
          simp only [List.cons_append, List.nil_append, List.take_succ_cons, List.take_nil,
            List.foldl_cons, List.foldl_nil, hup]
          rfl⟩

/-- The first writes, when something is moved. -/
theorem taken_moving {s : Library} (h : ¬Refused st s) (hmoving : moving st s.rows ≠ []) :
    ((rowWrites st s).take 1).foldl Write.apply s = { s with rows := upserted st s } ∧
      ((rowWrites st s).take 2).foldl Write.apply s = { s with rows := cleared st s } := by
  have hup := @apply_upsert st s
  rw [rowWrites_of_not_refused h, if_neg hmoving, if_neg hmoving]
  refine ⟨hup, ?_⟩
  simp only [List.cons_append, List.nil_append, List.take_succ_cons, List.take_zero,
    List.foldl_cons, List.foldl_nil, hup]
  rfl

/-- All of the writes. -/
theorem rowWrites_all {s : Library} (h : ¬Refused st s) :
    (rowWrites st s).foldl Write.apply s = { s with rows := told st s } := by
  have hup := @apply_upsert st s
  rw [rowWrites_of_not_refused h]
  by_cases hmoving : moving st s.rows = []
  · rw [if_pos hmoving, if_pos hmoving, List.nil_append, List.append_nil]
    have hclear : cleared st s = s.rows := by rw [cleared, upserted, hmoving]; rfl
    have htold : told st s = swept st s := by rw [told, hmoving]; rfl
    rw [htold, swept, hclear]
    by_cases hstale : stale st s.rows = []
    · rw [if_pos hstale, hstale]
      rfl
    · rw [if_neg hstale]
      rfl
  · rw [if_neg hmoving, if_neg hmoving]
    by_cases hstale : stale st s.rows = []
    · have hswept : swept st s = cleared st s := by rw [swept, hstale]; rfl
      rw [if_pos hstale, told, hswept]
      simp only [List.cons_append, List.nil_append, List.foldl_cons, List.foldl_nil, hup]
      rfl
    · rw [if_neg hstale]
      simp only [List.cons_append, List.nil_append, List.foldl_cons, List.foldl_nil, hup]
      rfl

theorem migrate_eq (s : Library) :
    migrateMemoryIdentity st s = (rowWrites st (graphed s)).foldl Write.apply (graphed s) := rfl

theorem migrate_of_not_refused {s : Library} (h : ¬Refused st s) :
    migrateMemoryIdentity st s = { graphed s with rows := told st (graphed s) } := by
  rw [migrate_eq]
  exact rowWrites_all h

theorem migrate_of_refused {s : Library} (h : Refused st s) :
    migrateMemoryIdentity st s = graphed s := by
  have hnone : rowWrites st (graphed s) = [] := if_pos h
  rw [migrate_eq, hnone]
  rfl

theorem crash_graph (s : Library) (n : Nat) :
    crash st s (n + 2) = ((rowWrites st (graphed s)).take n).foldl Write.apply (graphed s) := rfl

/-- Where a crash leaves the library. -/
theorem crash_cases {s : Library} (h : ¬Refused st s) (n : Nat) :
    graphed (crash st s n) = graphed s ∨
      ∃ rows ∈ [upserted st (graphed s), cleared st (graphed s), swept st (graphed s),
        told st (graphed s)], crash st s n = { graphed s with rows := rows } := by
  match n with
  | 0 => exact Or.inl rfl
  | 1 => exact Or.inl (graphed_artifacts s)
  | n + 2 =>
    obtain ⟨rows, hrows, heq⟩ := taken_cases (s := graphed s) h n
    rw [crash_graph, heq]
    rcases List.mem_cons.mp hrows with rfl | hrows
    · exact Or.inl (graphed_twice s)
    · exact Or.inr ⟨rows, hrows, rfl⟩

/-! ## Row by row -/

section Rows

variable {s : Library}

theorem moving_fresh {rows : Dict Id Row} {p : Id × Row} (hp : p ∈ moving st rows) :
    newId st p ∉ rows.keys ∧ isForgotten st (memoryId st p) = false ∧ p ∈ legacyRows rows := by
  obtain ⟨hmem, htest⟩ := List.mem_filter.mp hp
  rw [Bool.and_eq_true, decide_eq_true_iff, Bool.not_eq_true'] at htest
  exact ⟨htest.1, htest.2, hmem⟩

theorem mem_moving_or_stale {rows : Dict Id Row} {p : Id × Row} :
    p ∈ legacyRows rows ↔ p ∈ moving st rows ∨ p ∈ stale st rows := by
  rw [moving, stale, List.mem_filter, List.mem_filter, ← and_or_left, Bool.not_eq_true']
  exact (and_iff_left (Bool.eq_false_or_eq_true _)).symm

theorem mem_keys {rows : Dict Id Row} {p : Id × Row} (hp : p ∈ legacyRows rows) :
    p.1 ∈ rows.keys := (Dict.mem_keys_iff _ _).mpr ⟨p.2, (mem_legacyRows.mp hp).1⟩

/-- No row is moved to the id of a row that is there. -/
theorem lastTo_moving_none {rows : Dict Id Row} {id : Id} (h : id ∈ rows.keys) :
    lastTo (newId st) (moving st rows) id = none := by
  cases hlast : lastTo (newId st) (moving st rows) id with
  | none => rfl
  | some p =>
    obtain ⟨hp, rfl⟩ := lastTo_some hlast
    exact absurd h (moving_fresh hp).1

theorem get?_upserted (id : Id) :
    (upserted st s).get? id =
      match lastTo (newId st) (moving st s.rows) id with
      | some p => some (movedRow st s.rows p)
      | none => s.rows.get? id := get?_setAll s.rows (newId st) (movedRow st s.rows) _ id

theorem get?_cleared (id : Id) :
    (cleared st s).get? id =
      match lastTo (newId st) (moving st s.rows) id with
      | some p => some (movedRow st s.rows p)
      | none => if id ∈ (moving st s.rows).map Prod.fst then none else s.rows.get? id := by
  rw [cleared, get?_eraseAll, get?_upserted]
  cases hlast : lastTo (newId st) (moving st s.rows) id with
  | none => rfl
  | some p =>
    refine if_neg fun hmem => ?_
    obtain ⟨q, hq, hid⟩ := List.mem_map.mp hmem
    rw [lastTo_moving_none (hid ▸ mem_keys (moving_fresh hq).2.2)] at hlast
    cases hlast

theorem get?_swept (id : Id) :
    (swept st s).get? id =
      match lastTo (newId st) (moving st s.rows) id with
      | some p => some (movedRow st s.rows p)
      | none => if id ∈ (legacyRows s.rows).map Prod.fst then none else s.rows.get? id := by
  have hlegacy : id ∈ (legacyRows s.rows).map Prod.fst ↔
      id ∈ (moving st s.rows).map Prod.fst ∨ id ∈ (stale st s.rows).map Prod.fst := by
    rw [← List.mem_append, ← List.map_append]
    refine ⟨fun h => ?_, fun h => ?_⟩
    · obtain ⟨p, hp, hid⟩ := List.mem_map.mp h
      exact List.mem_map.mpr ⟨p, List.mem_append.mpr (mem_moving_or_stale.mp hp), hid⟩
    · obtain ⟨p, hp, hid⟩ := List.mem_map.mp h
      exact List.mem_map.mpr ⟨p, mem_moving_or_stale.mpr (List.mem_append.mp hp), hid⟩
  rw [swept, get?_eraseAll, get?_cleared]
  cases hlast : lastTo (newId st) (moving st s.rows) id with
  | none =>
    dsimp only
    by_cases hstale : id ∈ (stale st s.rows).map Prod.fst
    · rw [if_pos hstale, if_pos (hlegacy.mpr (Or.inr hstale))]
    · rw [if_neg hstale]
      exact if_congr (by rw [hlegacy, or_iff_left hstale]) rfl rfl
  | some p =>
    refine if_neg fun hmem => ?_
    obtain ⟨q, hq, hid⟩ := List.mem_map.mp hmem
    rw [lastTo_moving_none (hid ▸ mem_keys (mem_moving_or_stale.mpr (Or.inr hq)))] at hlast
    cases hlast

variable (st) in
/-- A moved row at last. -/
def toldRow (g : Graph) (p : Id × Row) : Row := { p.2 with metadata := taggedMeta st g p }

theorem get?_told (id : Id) :
    (told st s).get? id =
      match lastTo (newId st) (moving st s.rows) id with
      | some p => some (toldRow st s.graph p)
      | none => if id ∈ (legacyRows s.rows).map Prod.fst then none else s.rows.get? id := by
  rw [told, get?_setMetas, get?_swept]
  cases lastTo (newId st) (moving st s.rows) id with
  | none => rfl
  | some p => rfl

end Rows

end Cerid.Memory
