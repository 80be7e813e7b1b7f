import Cerid.Lineage.Writer

/-!
# The order of the versions and the spec of settle

The versions of a lineage are a list without duplicates, determined by which nodes
belong to it and when they were ingested.  `settleLineage` is then given node by
node and fact by fact.
-/

namespace Cerid.Lineage

/-! ## The order of ingest -/

theorem mem_ingestKeys {nodes : Dict String Node} {q : String → Node → Bool} {k : Nat ×ₗ String} :
    k ∈ ingestKeys nodes q ↔
      ∃ n, nodes.get? (ofLex k).2 = some n ∧ q (ofLex k).2 n = true ∧ n.ingested = (ofLex k).1 := by
  simp only [ingestKeys, List.mem_insertionSort, List.mem_map, List.mem_filter, Prod.exists,
    Dict.mem_items_iff]
  constructor
  · rintro ⟨id, n, ⟨hn, hq⟩, rfl⟩
    exact ⟨n, hn, hq, rfl⟩
  · rintro ⟨n, hn, hq, ht⟩
    refine ⟨(ofLex k).2, n, ⟨hn, hq⟩, ?_⟩
    rw [ht]
    exact toLex_ofLex k

theorem sortedLT_ingestKeys (nodes : Dict String Node) (q : String → Node → Bool) :
    (ingestKeys nodes q).SortedLT := by
  refine List.sortedLE_insertionSort.sortedLT_of_nodup ?_
  rw [List.Perm.nodup_iff (List.perm_insertionSort _ _)]
  refine List.Nodup.of_map (fun k => (ofLex k).2) ?_
  rw [List.map_map]
  exact nodes.nodup.sublist (List.filter_sublist.map Prod.fst)

theorem mem_byIngest {nodes : Dict String Node} {q : String → Node → Bool} {id : String} :
    id ∈ byIngest nodes q ↔ ∃ n, nodes.get? id = some n ∧ q id n = true := by
  simp only [byIngest, List.mem_map, mem_ingestKeys]
  constructor
  · rintro ⟨k, ⟨n, hn, hq, -⟩, rfl⟩
    exact ⟨n, hn, hq⟩
  · rintro ⟨n, hn, hq⟩
    exact ⟨toLex (n.ingested, id), ⟨n, hn, hq, rfl⟩, rfl⟩

theorem nodup_byIngest (nodes : Dict String Node) (q : String → Node → Bool) :
    (byIngest nodes q).Nodup := by
  refine List.Nodup.map_on ?_ (sortedLT_ingestKeys nodes q).nodup
  intro k hk k' hk' hid
  obtain ⟨n, hn, -, ht⟩ := mem_ingestKeys.mp hk
  obtain ⟨n', hn', -, ht'⟩ := mem_ingestKeys.mp hk'
  rw [hid, hn', Option.some.injEq] at hn
  refine ofLex.injective (Prod.ext ?_ hid)
  rw [← ht, ← ht', hn]

/-- The order depends on which nodes are asked for and when they were ingested. -/
theorem byIngest_filter_congr {nodes nodes' : Dict String Node} {q q' : String → Node → Bool}
    {p : String → Bool}
    (h : ∀ id, p id = true → ∀ t,
      (∃ n, nodes.get? id = some n ∧ q id n = true ∧ n.ingested = t) ↔
        ∃ n, nodes'.get? id = some n ∧ q' id n = true ∧ n.ingested = t) :
    (byIngest nodes q).filter p = (byIngest nodes' q').filter p := by
  have hsorted : ∀ nodes q, ((ingestKeys nodes q).filter (p ∘ fun k => (ofLex k).2)).SortedLT :=
    fun nodes q => ((sortedLT_ingestKeys nodes q).pairwise.sublist List.filter_sublist).sortedLT
  rw [byIngest, byIngest, List.filter_map, List.filter_map]
  refine congrArg (List.map _) ((hsorted nodes q).eq_of_mem_iff (hsorted nodes' q') fun k => ?_)
  rw [List.mem_filter, List.mem_filter, mem_ingestKeys, mem_ingestKeys]
  exact and_congr_left fun hp => h _ hp _

theorem byIngest_congr {nodes nodes' : Dict String Node} {q q' : String → Node → Bool}
    (h : ∀ id t, (∃ n, nodes.get? id = some n ∧ q id n = true ∧ n.ingested = t) ↔
      ∃ n, nodes'.get? id = some n ∧ q' id n = true ∧ n.ingested = t) :
    byIngest nodes q = byIngest nodes' q' := by
  have := byIngest_filter_congr (p := fun _ => true) (fun id _ => h id)
  simpa using this

theorem mem_lineageMembers {nodes : Dict String Node} {lineage id : String} :
    id ∈ lineageMembers nodes lineage ↔
      ∃ n, nodes.get? id = some n ∧ n.lineageId = some lineage := by
  simp [lineageMembers, mem_byIngest]

theorem nodup_lineageMembers (nodes : Dict String Node) (lineage : String) :
    (lineageMembers nodes lineage).Nodup := nodup_byIngest nodes _

/-! ## Settle, node by node -/

/-- A version of a settled lineage, before its number. -/
def Node.settled (n : Node) (visible : List String) (now : Time) (id : String) : Node :=
  match nextIn visible id with
  | some successor =>
    { n with supersededBy := some successor, validTo := some (n.closingTime now),
             supersededValidTo := some (n.closingTime now),
             invalidAt := some (n.invalidAt.getD now) }
  | none =>
    if visible.getLast? = some id then
      { n with supersededBy := none, validTo := none, invalidAt := none }
    else n

/-- A node but for the time it was written. -/
def Node.untimed (n : Node) : Node := { n with updatedAt := none }

@[simp] theorem Node.settled_lineageId (n : Node) (visible : List String) (now : Time)
    (id : String) : (n.settled visible now id).lineageId = n.lineageId := by
  unfold Node.settled
  split
  · rfl
  · split <;> rfl

@[simp] theorem Node.settled_ingested (n : Node) (visible : List String) (now : Time)
    (id : String) : (n.settled visible now id).ingested = n.ingested := by
  unfold Node.settled
  split
  · rfl
  · split <;> rfl

@[simp] theorem Node.renumber_lineageId (n : Node) (version : Nat) (now : Time) :
    (n.renumber version now).lineageId = n.lineageId := rfl

@[simp] theorem Node.renumber_ingested (n : Node) (version : Nat) (now : Time) :
    (n.renumber version now).ingested = n.ingested := rfl

/-- The versions that are not forgotten, oldest first. -/
def visibleIn (nodes : Dict String Node) (lineage : String) (forgotten : String → Bool) :
    List String :=
  (lineageMembers nodes lineage).filter (fun id => !forgotten id)

theorem mem_visibleIn {nodes : Dict String Node} {lineage : String} {forgotten : String → Bool}
    {id : String} : id ∈ visibleIn nodes lineage forgotten ↔
      id ∈ lineageMembers nodes lineage ∧ forgotten id = false := by
  simp [visibleIn]

theorem nodup_visibleIn (nodes : Dict String Node) (lineage : String)
    (forgotten : String → Bool) : (visibleIn nodes lineage forgotten).Nodup :=
  (nodup_lineageMembers nodes lineage).filter _

theorem find?_historyRows (nodes : Dict String Node) (visible : List String) (now : Time)
    (l : List String) (id : String) :
    (l.filterMap (historyRow nodes visible now)).find? (fun row => row.id = id) =
      if id ∈ l then historyRow nodes visible now id else none := by
  have hid : ∀ id row, historyRow nodes visible now id = some row → row.id = id := by
    intro id row hrow
    cases hnext : nextIn visible id with
    | none => simp [historyRow, hnext] at hrow
    | some successor =>
      cases hn : nodes.get? id with
      | none => simp [historyRow, hnext, hn] at hrow
      | some n =>
        simp only [historyRow, hnext, hn, Option.bind_eq_bind, Option.bind_some,
          Option.some.injEq] at hrow
        exact hrow ▸ rfl
  induction l with
  | nil => rfl
  | cons a l ih =>
    cases ha : historyRow nodes visible now a with
    | none =>
      rw [List.filterMap_cons_none ha, ih]
      by_cases h : id = a
      · subst h
        simp [ha]
      · simp [h]
    | some row =>
      rw [List.filterMap_cons_some ha]
      have hrow := hid a row ha
      by_cases h : id = a
      · subst h
        simp [hrow, ha]
      · have h' : ¬ row.id = id := fun e => h (e.symm.trans hrow)
        rw [List.find?_cons_of_neg (by simpa using h'), ih]
        simp [h]

theorem find?_history {nodes : Dict String Node} {visible : List String} {now : Time}
    {id : String} {n : Node} (hn : nodes.get? id = some n) :
    (visible.filterMap (historyRow nodes visible now)).find? (fun row => row.id = id) =
      (nextIn visible id).map
        (fun successor => { id, successor, validTo := n.closingTime now }) := by
  rw [find?_historyRows]
  cases hnext : nextIn visible id with
  | none => simp [historyRow, hnext]
  | some successor => simp [historyRow, hnext, hn, (nextIn_eq_some_mem hnext).1]

theorem get?_setHistory_setCurrent (g : Graph) (nodes : Dict String Node) {visible : List String}
    (hnd : visible.Nodup) (now : Time) (f : Fact → Fact) (hnodes : nodes = g.nodes)
    (id : String) :
    (setHistory ((setCurrent g visible.getLast?).mapFacts f)
      (visible.filterMap (historyRow nodes visible now)) now).nodes.get? id =
      (g.nodes.get? id).map (fun n => n.settled visible now id) := by
  subst hnodes
  simp only [setHistory, Graph.mapFacts, setCurrent, Dict.get?_mapValues, Option.map_map]
  refine Option.map_congr fun n hn => ?_
  simp only [Function.comp, find?_history hn]
  cases hnext : nextIn visible id with
  | some successor =>
    have hlast : some id ≠ visible.getLast? := fun hlast => by
      rw [eq_comm, ← nextIn_eq_none_iff hnd (nextIn_eq_some_mem hnext).1, hnext] at hlast
      exact absurd hlast (by simp)
    simp [Node.settled, hnext, hlast]
  | none =>
    by_cases hlast : visible.getLast? = some id <;>
      simp [Node.settled, hnext, hlast, eq_comm (a := some id)]

theorem lineageMembers_congr {nodes nodes' : Dict String Node} {f : String → Node → Node}
    (hnodes : ∀ id, nodes'.get? id = (nodes.get? id).map (f id))
    (hf : ∀ id n, (f id n).lineageId = n.lineageId)
    (ht : ∀ id n, (f id n).ingested = n.ingested) (lineage : String) :
    lineageMembers nodes' lineage = lineageMembers nodes lineage := by
  refine byIngest_congr fun id t => ?_
  simp [hnodes, hf, ht]

theorem not_mem_of_lineage {nodes : Dict String Node} {lineage id : String} {n : Node}
    (hn : nodes.get? id = some n) (hl : n.lineageId ≠ some lineage) :
    id ∉ lineageMembers nodes lineage := by
  rw [mem_lineageMembers]
  rintro ⟨n', hn', hl'⟩
  rw [hn, Option.some.injEq] at hn'
  exact hl (hn' ▸ hl')

/-- The spec of settle for the versions. -/
theorem get?_settleLineage {g : Graph} {lineage : String} (hlineage : lineage ≠ "")
    (forgotten : String → Bool) (now : Time) (id : String) :
    (settleLineage g lineage forgotten now).1.nodes.get? id =
      (g.nodes.get? id).map (fun n =>
        if n.lineageId = some lineage then
          (n.settled (visibleIn g.nodes lineage forgotten) now id).renumber
            ((lineageMembers g.nodes lineage).idxOf id + 1) now
        else n) := by
  have hnodes := get?_setHistory_setCurrent
    ((g.mapFacts (factsForgotten ((lineageMembers g.nodes lineage).filter forgotten) now)).mapFacts
      (factsBack (visibleIn g.nodes lineage forgotten)))
    g.nodes (nodup_visibleIn g.nodes lineage forgotten) now
    (factsCurrent (visibleIn g.nodes lineage forgotten).getLast?) rfl
  have hmembers := lineageMembers_congr hnodes (fun id n => Node.settled_lineageId n _ now id)
    (fun id n => Node.settled_ingested n _ now id) lineage
  rw [settleLineage, if_neg hlineage]
  simp only [renumber, Graph.mapFacts, Dict.get?_mapValues]
  simp only [Graph.mapFacts, visibleIn] at hnodes hmembers ⊢
  rw [hmembers, hnodes, Option.map_map]
  refine Option.map_congr fun n hn => ?_
  simp only [Function.comp, Node.settled_lineageId]
  by_cases hl : n.lineageId = some lineage
  · simp [hl]
  · have hnot := not_mem_of_lineage hn hl
    have hnot' : id ∉ (lineageMembers g.nodes lineage).filter (fun id => !forgotten id) :=
      fun h => hnot (List.mem_of_mem_filter h)
    have hlast : ((lineageMembers g.nodes lineage).filter (fun id => !forgotten id)).getLast? ≠
        some id := fun h => hnot' (List.mem_of_getLast? h)
    rw [if_neg hl, if_neg hl, Node.settled, nextIn_eq_none_of_not_mem hnot']
    exact if_neg hlast

theorem settleLineage_current {g : Graph} {lineage : String} (hlineage : lineage ≠ "")
    (forgotten : String → Bool) (now : Time) :
    (settleLineage g lineage forgotten now).2 =
      (visibleIn g.nodes lineage forgotten).getLast? := by
  rw [settleLineage, if_neg hlineage]
  rfl

/-! ## Settle, fact by fact -/

/-- A fact of a settled lineage. -/
def Fact.settled (f : Fact) (nodes : Dict String Node) (lineage : String)
    (forgotten : String → Bool) (now : Time) : Fact :=
  let visible := visibleIn nodes lineage forgotten
  factsHistory (visible.filterMap (historyRow nodes visible now)) now
    (factsCurrent visible.getLast?
      (factsBack visible
        (factsForgotten ((lineageMembers nodes lineage).filter forgotten) now f)))

/-- The spec of settle for the facts. -/
theorem get?_settleLineage_facts {g : Graph} {lineage : String} (hlineage : lineage ≠ "")
    (forgotten : String → Bool) (now : Time) (fid : String) :
    (settleLineage g lineage forgotten now).1.facts.get? fid =
      (g.facts.get? fid).map (fun f => f.settled g.nodes lineage forgotten now) := by
  rw [settleLineage, if_neg hlineage]
  simp only [renumber, setHistory, setCurrent, Graph.mapFacts, Dict.get?_mapValues, Option.map_map]
  rfl

/-- The fact is open, or closed by a settle, which may open it again. -/
def Fact.Reopens (f : Fact) : Prop :=
  f.validTo = none ∨
    if f.isState = true then f.closedBy.isSome = true
    else f.closedBy = some (.trash f.sourceArtifactId)

/-- A write of settle keeps whose fact it is and whether a settle may open it. -/
structure SameFact (f f' : Fact) : Prop where
  source : f'.sourceArtifactId = f.sourceArtifactId
  predicate : f'.predicate = f.predicate
  reopens : f'.Reopens ↔ f.Reopens

theorem SameFact.isState {f f' : Fact} (h : SameFact f f') : f'.isState = f.isState := by
  rw [Fact.isState, Fact.isState, h.predicate]

theorem SameFact.trans {f f' f'' : Fact} (h : SameFact f f') (h' : SameFact f' f'') :
    SameFact f f'' where
  source := h'.source.trans h.source
  predicate := h'.predicate.trans h.predicate
  reopens := h'.reopens.trans h.reopens

theorem sameFact_factsForgotten (hidden : List String) (now : Time) (f : Fact) :
    SameFact f (factsForgotten hidden now f) := by
  unfold factsForgotten
  split
  · rename_i h
    refine ⟨rfl, rfl, ?_⟩
    simp [Fact.Reopens, h.2, Fact.isState]
  · exact ⟨rfl, rfl, Iff.rfl⟩

theorem sameFact_factsBack (visible : List String) (f : Fact) :
    SameFact f (factsBack visible f) := by
  unfold factsBack
  split
  · rename_i h
    refine ⟨rfl, rfl, ?_⟩
    simp [Fact.Reopens, h.2]
  · exact ⟨rfl, rfl, Iff.rfl⟩

theorem sameFact_factsCurrent (current : Option String) (f : Fact) :
    SameFact f (factsCurrent current f) := by
  unfold factsCurrent
  split
  · rename_i h
    refine ⟨rfl, rfl, ?_⟩
    simp [Fact.Reopens, h.2.1, h.2.2]
  · exact ⟨rfl, rfl, Iff.rfl⟩

theorem sameFact_factsHistory (history : List HistoryRow) (now : Time) (f : Fact) :
    SameFact f (factsHistory history now f) := by
  unfold factsHistory
  split
  · split
    · rename_i h
      refine ⟨rfl, rfl, ?_⟩
      have hstate : Fact.isState { f with validTo := none } = true := h.2
      simp [Fact.Reopens, h.1, Fact.isState] at hstate ⊢
      exact hstate
    · exact ⟨rfl, rfl, Iff.rfl⟩
  · exact ⟨rfl, rfl, Iff.rfl⟩

theorem sameFact_settled (f : Fact) (nodes : Dict String Node) (lineage : String)
    (forgotten : String → Bool) (now : Time) : SameFact f (f.settled nodes lineage forgotten now) :=
  ((sameFact_factsForgotten _ now f).trans (sameFact_factsBack _ _)).trans
    ((sameFact_factsCurrent _ _).trans (sameFact_factsHistory _ now _))

theorem factsHistory_of_none {history : List HistoryRow} {f : Fact}
    (h : history.find? (fun row => row.id = f.sourceArtifactId) = none) (now : Time) :
    factsHistory history now f = f := by
  rw [factsHistory, h]

theorem factsHistory_of_some {history : List HistoryRow} {f : Fact} {row : HistoryRow}
    (h : history.find? (fun row => row.id = f.sourceArtifactId) = some row) (now : Time) :
    factsHistory history now f =
      if f.validTo = none ∧ f.isState = true then
        { f with validTo := some row.validTo, invalidAt := some now,
                 closedBy := some (.version row.successor) }
      else f := by
  rw [factsHistory, h]

section

variable {f : Fact} {nodes : Dict String Node} {lineage : String}

theorem settled_of_not_visible {forgotten : String → Bool}
    (hid : f.sourceArtifactId ∉ visibleIn nodes lineage forgotten) (now : Time) :
    f.settled nodes lineage forgotten now =
      factsForgotten ((lineageMembers nodes lineage).filter forgotten) now f := by
  have hlast : some f.sourceArtifactId ≠ (visibleIn nodes lineage forgotten).getLast? :=
    fun h => hid (List.mem_of_getLast? h.symm)
  have hsource := (sameFact_factsForgotten
    ((lineageMembers nodes lineage).filter forgotten) now f).source
  rw [Fact.settled, factsBack, if_neg fun h => hid (hsource ▸ h.1), factsCurrent,
    if_neg fun h => hlast (hsource ▸ h.1), factsHistory_of_none]
  rw [hsource, find?_historyRows, if_neg hid]

theorem settled_of_not_mem (hid : f.sourceArtifactId ∉ lineageMembers nodes lineage)
    (forgotten : String → Bool) (now : Time) : f.settled nodes lineage forgotten now = f := by
  rw [settled_of_not_visible fun h => hid (mem_visibleIn.mp h).1, factsForgotten,
    if_neg fun h => hid (List.mem_of_mem_filter h.1)]

/-- A fact of a visible version, once a forget no longer closes it. -/
def Fact.back (f : Fact) : Fact :=
  if f.closedBy = some (.trash f.sourceArtifactId) then
    { f with validTo := none, invalidAt := none, closedBy := none }
  else f

theorem sameFact_back (f : Fact) : SameFact f f.back := by
  unfold Fact.back
  split
  · rename_i h
    refine ⟨rfl, rfl, ?_⟩
    simp [Fact.Reopens, h]
  · exact ⟨rfl, rfl, Iff.rfl⟩

theorem back_event (hstate : f.isState = false) : f.back.validTo = none ↔ f.Reopens := by
  unfold Fact.back Fact.Reopens
  split
  · rename_i h
    simp [h]
  · rename_i h
    simp [hstate, h]

theorem settled_of_visible {forgotten : String → Bool} {n : Node}
    (hid : f.sourceArtifactId ∈ visibleIn nodes lineage forgotten)
    (hn : nodes.get? f.sourceArtifactId = some n) (now : Time) :
    f.settled nodes lineage forgotten now =
      match nextIn (visibleIn nodes lineage forgotten) f.sourceArtifactId with
      | some successor =>
        if f.back.validTo = none ∧ f.back.isState = true then
          { f.back with validTo := some (n.closingTime now), invalidAt := some now,
                        closedBy := some (.version successor) }
        else f.back
      | none => factsCurrent (some f.sourceArtifactId) f.back := by
  have hnd := nodup_visibleIn nodes lineage forgotten
  have hsource := (sameFact_back f).source
  have hback : factsBack (visibleIn nodes lineage forgotten)
      (factsForgotten ((lineageMembers nodes lineage).filter forgotten) now f) = f.back := by
    have hshown := (mem_visibleIn.mp hid).2
    rw [factsForgotten, if_neg (by simp [hshown]), factsBack, Fact.back]
    simp only [hid, true_and]
  rw [Fact.settled]
  simp only [hback]
  cases hnext : nextIn (visibleIn nodes lineage forgotten) f.sourceArtifactId with
  | some successor =>
    have hlast : some f.sourceArtifactId ≠ (visibleIn nodes lineage forgotten).getLast? :=
      fun h => by
        rw [eq_comm, ← nextIn_eq_none_iff hnd hid, hnext] at h
        exact absurd h (by simp)
    rw [factsCurrent, if_neg fun h => hlast (hsource ▸ h.1)]
    have hrow : ((visibleIn nodes lineage forgotten).filterMap (historyRow nodes
        (visibleIn nodes lineage forgotten) now)).find? (fun row => row.id = f.back.sourceArtifactId) =
        some { id := f.sourceArtifactId, successor, validTo := n.closingTime now } := by
      rw [hsource, find?_history hn, hnext, Option.map_some]
    exact factsHistory_of_some hrow now
  | none =>
    rw [← (nextIn_eq_none_iff hnd hid).mp hnext]
    refine factsHistory_of_none ?_ now
    rw [(sameFact_factsCurrent _ _).source, hsource, find?_history hn, hnext, Option.map_none]

/-- Which facts are open after a settle. -/
theorem settled_open_iff (hid : f.sourceArtifactId ∈ lineageMembers nodes lineage)
    (forgotten : String → Bool) (now : Time) :
    (f.settled nodes lineage forgotten now).validTo = none ↔
      forgotten f.sourceArtifactId = false ∧ f.Reopens ∧
        (f.isState = true →
          (visibleIn nodes lineage forgotten).getLast? = some f.sourceArtifactId) := by
  obtain ⟨n, hn, -⟩ := mem_lineageMembers.mp hid
  cases hf : forgotten f.sourceArtifactId with
  | true =>
    have hvisible : f.sourceArtifactId ∉ visibleIn nodes lineage forgotten := fun h => by
      rw [mem_visibleIn, hf] at h
      exact absurd h.2 (by simp)
    have hhidden : f.sourceArtifactId ∈ (lineageMembers nodes lineage).filter forgotten :=
      List.mem_filter.mpr ⟨hid, hf⟩
    rw [settled_of_not_visible hvisible, factsForgotten]
    by_cases hopen : f.validTo = none <;> simp [hhidden, hopen]
  | false =>
    have hvisible := mem_visibleIn.mpr ⟨hid, hf⟩
    rw [settled_of_visible hvisible hn,
      ← nextIn_eq_none_iff (nodup_visibleIn nodes lineage forgotten) hvisible]
    have hback := sameFact_back f
    cases hstate : f.isState with
    | false =>
      have hstate' := hback.isState.trans hstate
      have hevent := back_event hstate
      cases nextIn (visibleIn nodes lineage forgotten) f.sourceArtifactId <;>
        simp [hstate', hevent, factsCurrent]
    | true =>
      have hstate' := hback.isState.trans hstate
      cases nextIn (visibleIn nodes lineage forgotten) f.sourceArtifactId with
      | some successor => by_cases hopen : f.back.validTo = none <;> simp [hstate', hopen]
      | none =>
        rw [← hback.reopens]
        simp only [factsCurrent, hback.source, Fact.Reopens, hstate', true_and, and_true, if_true,
          implies_true]
        by_cases hclosed : f.back.closedBy.isSome = true <;> simp [hclosed]

end

/-- A version as the writer leaves it: closed in favour of another, or open. -/
def Node.chained (lineageId : Option String) (ingestedAt : Time) (number : Nat)
    (closed : Option (String × Time)) : Node where
  lineageId := lineageId
  version := some number
  ingestedAt := some ingestedAt
  createdAt := none
  validFrom := some ingestedAt
  validTo := closed.map Prod.snd
  supersededBy := closed.map Prod.fst
  supersededValidTo := closed.map Prod.snd
  invalidAt := closed.map Prod.snd
  updatedAt := some ingestedAt

end Cerid.Lineage
