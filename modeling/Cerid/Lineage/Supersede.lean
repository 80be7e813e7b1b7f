import Cerid.Lineage.Order

/-!
# Superseding, its failures, and the settle after it

A supersede that fails after `_LINK` puts the graph back from what it read before,
but for the saved closing time of the older version.  A supersede that succeeds is
confirmed by the next settle when the merged lineage, in the order of ingest, is the
chain the links make.
-/

namespace Cerid.Lineage

/-! ## What supersede does -/

/-- The checks on the pair. -/
def Pair.open (pair : Pair) : Prop :=
  pair.oldSup = none ∧ pair.newSup = none ∧ pair.newValidTo = none

instance (pair : Pair) : Decidable pair.open :=
  inferInstanceAs (Decidable (_ ∧ _ ∧ _))

/-- The call passes every check. -/
def admitted (g : Graph) (chroma : Bool) (old new : String) : Bool :=
  decide (old ≠ "" ∧ new ≠ "" ∧ old ≠ new) && chroma &&
    (readPair g old new).any (fun pair => decide pair.open)

theorem readPair_eq_some {g : Graph} {old new : String} {pair : Pair}
    (h : readPair g old new = some pair) : ∃ o n, g.nodes.get? old = some o ∧
      g.nodes.get? new = some n ∧ pair.oldSup = o.supersededBy ∧ pair.newSup = n.supersededBy ∧
      pair.newValidTo = n.validTo ∧ pair.oldValidTo = o.validTo ∧
      pair.oldInvalidAt = o.invalidAt ∧ pair.oldLin = o.lineageId.getD old ∧
      pair.newLin = n.lineageId.getD new ∧ pair.edge = decide ((new, old) ∈ g.edges) := by
  cases ho : g.nodes.get? old with
  | none => simp [readPair, ho] at h
  | some o =>
    cases hn : g.nodes.get? new with
    | none => simp [readPair, ho, hn] at h
    | some n =>
      simp only [readPair, ho, hn, Option.bind_eq_bind, Option.bind_some, Option.some.injEq] at h
      subst h
      exact ⟨o, n, rfl, rfl, rfl, rfl, rfl, rfl, rfl, rfl, rfl, rfl⟩

theorem admission_of_open {old new : String} {pair : Pair} (h : pair.open) :
    admission old new pair = .ok pair := by
  simp [admission, h.1, h.2.1, h.2.2]

theorem admission_of_not_open (old new : String) {pair : Pair} (h : ¬ pair.open) :
    ∃ answer, admission old new pair = .error answer ∧
      (answer.ok = true → pair.oldSup = some new ∧ answer.lineageId = pair.newLin) := by
  unfold admission
  split
  · rename_i hold
    exact ⟨_, rfl, fun _ => ⟨hold, rfl⟩⟩
  · split
    · exact ⟨_, rfl, by simp [refused]⟩
    · rename_i hold
      split
      · exact ⟨_, rfl, by simp [refused]⟩
      · rename_i hnew
        simp only [Bool.or_eq_true, not_or, Bool.not_eq_true, Option.isSome_eq_false_iff,
          Option.isNone_iff_eq_none] at hnew
        exact absurd ⟨hold, hnew.1, hnew.2⟩ h

/-- `_LINK` matches after the checks. -/
theorem link_eq_some {g : Graph} {old new : String} {pair : Pair}
    (h : readPair g old new = some pair) (hopen : pair.open) (validTo now : Time)
    (lineage : String) :
    link g pair old new validTo now lineage =
      some (linkWrites g pair old new validTo now lineage) := by
  obtain ⟨o, n, ho, hn, hosup, hnsup, -⟩ := readPair_eq_some h
  simp [link, ho, hn, ← hosup, ← hnsup, hopen.1, hopen.2.1]

/-- A node after `_LINK`. -/
def Node.linked (n : Node) (pair : Pair) (old new : String) (validTo now : Time)
    (lineage id : String) : Node :=
  let n' := if id = old then n.closeFor new validTo now else n
  if pair.covers old new id n then { n' with lineageId := some lineage } else n'

theorem get?_linkWrites (g : Graph) (pair : Pair) (old new : String) (validTo now : Time)
    (lineage id : String) :
    (linkWrites g pair old new validTo now lineage).nodes.get? id =
      (g.nodes.get? id).map (fun n => n.linked pair old new validTo now lineage id) := by
  simp only [linkWrites, Dict.get?_mapValues, Option.map_map]
  refine Option.map_congr fun m _ => ?_
  by_cases hid : id = old <;> simp [hid, Node.linked, Node.closeFor, Pair.covers]

theorem linked_lineageId {pair : Pair} {old new : String} (id : String) (n : Node)
    (validTo now : Time) :
    (n.linked pair old new validTo now pair.lineage id).lineageId = some pair.lineage ↔
      pair.covers old new id n = true := by
  unfold Node.linked
  simp only
  split
  · rename_i hcovers
    simp [hcovers]
  · rename_i hcovers
    refine iff_of_false (fun hlin => hcovers ?_) hcovers
    have hn : n.lineageId = some pair.lineage := by
      split at hlin <;> exact hlin
    have hlins : pair.lineage = pair.oldLin ∨ pair.lineage = pair.newLin := by
      unfold Pair.lineage
      split
      · exact Or.inr rfl
      · exact Or.inl rfl
    simp [Pair.covers, hn, hlins]

/-- What the steps from `_LINK` on leave. -/
def finished (g : Graph) (pair : Pair) (old new : String) (validTo now : Time)
    (failing : Option Step) : Graph × SupersedeResult :=
  finish (linkWrites g pair old new validTo now pair.lineage) old new pair (members g pair old new)
    validTo now failing

/-- A call either goes on to `_LINK`, or changes nothing; then it succeeds only when
the older version is superseded by the newer one already. -/
theorem supersede_cases (g : Graph) (chroma : Bool) (old new : String) (validTo : Option Time)
    (now : Time) (failing : Option Step) :
    (admitted g chroma old new = true ∧ ∃ pair, readPair g old new = some pair ∧ pair.open ∧
      supersede g chroma old new validTo now failing =
        ((finished g pair old new (validTo.getD now) now failing).1,
          some (finished g pair old new (validTo.getD now) now failing).2)) ∨
    ((supersede g chroma old new validTo now failing).1 = g ∧
      (failing ∈ [some .readPair, some .members, some .link] ∨
        admitted g chroma old new = false) ∧
      ∀ result, (supersede g chroma old new validTo now failing).2 = some result →
        result.ok = true → ∃ pair, readPair g old new = some pair ∧ pair.oldSup = some new ∧
          result.lineageId = pair.newLin) := by
  have hrefused : ∀ (reason : String) (result : SupersedeResult), some (refused reason) = some result →
      result.ok = true → ∃ pair, readPair g old new = some pair ∧ pair.oldSup = some new ∧
        result.lineageId = pair.newLin := by
    intro reason result h hok
    rw [Option.some.injEq] at h
    subst h
    exact absurd hok (by simp [refused])
  unfold supersede
  by_cases hids : old = "" ∨ new = "" ∨ old = new
  · rw [if_pos hids]
    refine Or.inr ⟨rfl, Or.inr ?_, hrefused _⟩
    simp only [admitted, Bool.and_eq_false_iff, decide_eq_false_iff_not]
    left
    left
    tauto
  rw [if_neg hids]
  cases chroma with
  | false => exact Or.inr ⟨rfl, Or.inr (by simp [admitted]), hrefused _⟩
  | true =>
    rw [if_neg (by simp)]
    by_cases hread : failing = some .readPair
    · rw [if_pos hread]
      exact Or.inr ⟨rfl, Or.inl (by simp [hread]), by simp⟩
    rw [if_neg hread]
    cases hpair : readPair g old new with
    | none =>
      rw [hpair] at hrefused
      exact Or.inr ⟨rfl, Or.inr (by simp [admitted, hpair]), hrefused _⟩
    | some pair =>
      by_cases hopen : pair.open
      · simp only [admission_of_open hopen]
        by_cases hfail : failing = some .members ∨ failing = some .link
        · rw [if_pos hfail]
          refine Or.inr ⟨rfl, Or.inl ?_, by simp⟩
          rcases hfail with rfl | rfl <;> simp
        · rw [if_neg hfail, link_eq_some hpair hopen]
          refine Or.inl ⟨?_, pair, rfl, hopen, rfl⟩
          simp only [admitted, hpair, Option.any_some, hopen, decide_true, Bool.and_true,
            decide_eq_true_eq]
          tauto
      · obtain ⟨answer, hanswer, halready⟩ := admission_of_not_open old new hopen
        simp only [hanswer]
        refine Or.inr ⟨trivial, Or.inr (by simp [admitted, hpair, hopen]), fun result h hok => ?_⟩
        rw [Option.some.injEq] at h
        subst h
        exact ⟨pair, rfl, halready hok⟩

/-! ## A failing step -/

/-- Nothing of the lineage data has changed: the edges and every field of every node
but the time it was written. -/
def Unchanged (g g' : Graph) : Prop :=
  g'.edges = g.edges ∧
    ∀ id, (g'.nodes.get? id).map Node.untimed = (g.nodes.get? id).map Node.untimed

theorem find?_members (g : Graph) (pair : Pair) (old new id : String) :
    (members g pair old new).find? (fun m => m.id = id) =
      ((g.nodes.get? id).filter (pair.covers old new id)).map
        (fun n => { id := id, lineageId := n.lineageId, version := n.version }) := by
  rw [← Dict.get?_filter, members, List.find?_map, Dict.get?, Option.map_map]
  refine Option.map_congr fun p hp => ?_
  have hid : p.1 = id := by simpa using List.find?_some hp
  simp [Function.comp, hid]

/-- The graph between `_LINK` and the failure: linked, perhaps renumbered. -/
structure Linked (g k : Graph) (pair : Pair) (old new : String) (validTo now : Time) : Prop where
  edges : k.edges = mergeEdge g.edges (new, old)
  node : ∀ id n, g.nodes.get? id = some n → ∃ version updatedAt, k.nodes.get? id = some (
    if pair.covers old new id n then
      { n.linked pair old new validTo now pair.lineage id with version, updatedAt }
    else n)
  missing : ∀ id, g.nodes.get? id = none → k.nodes.get? id = none

theorem covers_old (pair : Pair) (old new : String) (n : Node) :
    pair.covers old new old n = true := by
  simp [Pair.covers]

theorem linked_of_not_covers {pair : Pair} {old new id : String} {n : Node}
    (h : ¬ pair.covers old new id n = true) (validTo now : Time) (lineage : String) :
    n.linked pair old new validTo now lineage id = n := by
  have hid : id ≠ old := fun hid => h (hid ▸ covers_old pair old new n)
  simp [Node.linked, h, hid]

section

variable {g : Graph} {pair : Pair} {old new : String} {validTo now : Time}

theorem linked_linkWrites :
    Linked g (linkWrites g pair old new validTo now pair.lineage) pair old new validTo now where
  edges := rfl
  node id n hn := by
    refine ⟨(n.linked pair old new validTo now pair.lineage id).version,
      (n.linked pair old new validTo now pair.lineage id).updatedAt, ?_⟩
    rw [get?_linkWrites, hn, Option.map_some]
    by_cases hcovers : pair.covers old new id n
    · simp [hcovers]
    · simp [hcovers, linked_of_not_covers hcovers]
  missing id hn := by rw [get?_linkWrites, hn, Option.map_none]

theorem Linked.renumber {k : Graph} (h : Linked g k pair old new validTo now) :
    Linked g (renumber k pair.lineage now) pair old new validTo now where
  edges := h.edges
  node id n hn := by
    obtain ⟨version, updatedAt, hk⟩ := h.node id n hn
    simp only [Lineage.renumber, Dict.get?_mapValues, hk, Option.map_some]
    by_cases hcovers : pair.covers old new id n
    · have hlin := (linked_lineageId id n validTo now).mpr hcovers
      exact ⟨_, _, by simp only [hcovers, if_true, hlin]; rfl⟩
    · have hlin := (linked_lineageId id n validTo now).not.mpr hcovers
      rw [linked_of_not_covers hcovers] at hlin
      exact ⟨none, none, by simp [hcovers, hlin]⟩
  missing id hn := by simp [Lineage.renumber, h.missing id hn]

theorem Linked.closeOldFacts {k : Graph} (h : Linked g k pair old new validTo now) :
    Linked g (closeOldFacts k old new validTo now) pair old new validTo now := by
  unfold Lineage.closeOldFacts
  split
  · exact ⟨h.edges, h.node, h.missing⟩
  · exact h

/-- What putting back leaves: the saved closing time of the older version is its
`valid_to`. -/
theorem Linked.undo {k : Graph} (h : Linked g k pair old new validTo now)
    (hpair : readPair g old new = some pair) (hopen : pair.open) :
    (undo k old new pair (members g pair old new)).edges = g.edges ∧
    ∀ id, ((undo k old new pair (members g pair old new)).nodes.get? id).map Node.untimed =
      (g.nodes.get? id).map (fun n =>
        if id = old then { n.untimed with supersededValidTo := n.validTo } else n.untimed) := by
  obtain ⟨o, -, ho, -, hosup, -, -, hov, hoi, -, -, hedge⟩ := readPair_eq_some hpair
  constructor
  · simp only [Lineage.undo, reopenOldFacts, restoreMembers, undoLink, h.edges, hedge, mergeEdge]
    by_cases hin : (new, old) ∈ g.edges
    · simp [hin]
    · simp only [hin, decide_false, Bool.not_false, if_true, if_false, List.filter_append]
      rw [List.filter_eq_self.mpr fun e he => by
        simp only [decide_eq_true_eq]
        rintro rfl
        exact hin he]
      simp
  · intro id
    simp only [Lineage.undo, reopenOldFacts, restoreMembers, undoLink, Dict.get?_mapValues,
      find?_members, Option.map_map]
    cases hn : g.nodes.get? id with
    | none => simp [h.missing id hn]
    | some n =>
      obtain ⟨version, updatedAt, hk⟩ := h.node id n hn
      have hmember : (some n).filter (pair.covers old new id) =
          if pair.covers old new id n then some n else none := rfl
      rw [hk]
      by_cases hid : id = old
      · subst hid
        rw [ho, Option.some.injEq] at hn
        subst hn
        have hsup : o.supersededBy = none := hosup ▸ hopen.1
        simp [hmember, covers_old, Node.untimed, hov, hoi, hsup, Node.linked, Node.closeFor]
      · by_cases hcovers : pair.covers old new id n
        · simp [hmember, hid, hcovers, Node.untimed, Node.linked]
        · simp [hmember, hid, hcovers]

/-- The steps after `_LINK`. -/
def afterLink : List (Option Step) := [some .renumber, some .closeOldFacts, some .stampRows]

theorem finished_failed {failing : Option Step} (h : failing ∈ afterLink) :
    ∃ k, Linked g k pair old new validTo now ∧
      finished g pair old new validTo now failing =
        (undo k old new pair (members g pair old new), refused "not applied") := by
  have hlinked : Linked g (linkWrites g pair old new validTo now pair.lineage) pair old new
      validTo now := linked_linkWrites
  simp only [afterLink, List.mem_cons, List.not_mem_nil, or_false] at h
  rcases h with rfl | rfl | rfl
  · exact ⟨_, hlinked, by simp [finished, finish]⟩
  · exact ⟨_, hlinked.renumber, by simp [finished, finish]⟩
  · exact ⟨_, hlinked.renumber.closeOldFacts, by simp [finished, finish]⟩

theorem finished_ok {failing : Option Step} (h : failing ∉ afterLink) :
    (finished g pair old new validTo now failing).2.ok = true := by
  simp only [afterLink, List.mem_cons, List.not_mem_nil, or_false, not_or] at h
  simp [finished, finish, h.1, h.2.1, h.2.2]

end

/-- When a call reports a failure, the lineage data is as it was before, if and only
if the failing step comes before anything is written, or a check refused the call, or
the older version's saved closing time was its `valid_to`. -/
theorem supersede_failed_iff (g : Graph) (chroma : Bool) (old new : String) (validTo : Option Time)
    (now : Time) (failing : Option Step)
    (hfailed : ∀ result, (supersede g chroma old new validTo now failing).2 = some result →
      result.ok = false) :
    Unchanged g (supersede g chroma old new validTo now failing).1 ↔
      (admitted g chroma old new = true → failing ∈ afterLink →
        (g.nodes.get? old).map Node.supersededValidTo = (g.nodes.get? old).map Node.validTo) := by
  rcases supersede_cases g chroma old new validTo now failing with
    ⟨hadmitted, pair, hpair, hopen, hcall⟩ | ⟨hsame, hwhy, -⟩
  · by_cases hafter : failing ∈ afterLink
    · obtain ⟨k, hk, hdone⟩ : ∃ k, Linked g k pair old new (validTo.getD now) now ∧ _ :=
        finished_failed hafter
      obtain ⟨hedges, hnodes⟩ := hk.undo hpair hopen
      obtain ⟨o, -, ho, -⟩ := readPair_eq_some hpair
      rw [hcall, hdone]
      simp only [hadmitted, hafter, true_imp_iff, Unchanged, hedges, true_and, hnodes, ho,
        Option.map_some, Option.some.injEq]
      constructor
      · intro h
        have hold := h old
        simp only [ho, Option.map_some, if_true, Option.some.injEq] at hold
        have := congrArg Node.supersededValidTo hold
        exact this.symm
      · intro hsaved id
        refine Option.map_congr fun n hn => ?_
        by_cases hid : id = old
        · subst hid
          rw [ho, Option.some.injEq] at hn
          subst hn
          rw [if_pos rfl, ← hsaved]
          rfl
        · rw [if_neg hid]
    · have hok := hfailed _ (by rw [hcall])
      rw [finished_ok hafter] at hok
      exact absurd hok (by simp)
  · rw [hsame]
    refine iff_of_true ⟨rfl, fun _ => rfl⟩ fun hadmitted hafter => ?_
    rcases hwhy with hwhy | hwhy
    · simp only [afterLink, List.mem_cons, List.not_mem_nil, or_false] at hafter hwhy
      rcases hwhy with rfl | rfl | rfl <;> simp at hafter
    · rw [hadmitted] at hwhy
      exact absurd hwhy (by simp)

/-- Version `"a"`, whose successor is gone: it is open, with the time it was closed at
saved; and version `"c"`. -/
def reopened : Graph where
  nodes := (Dict.empty.set "a" (
    { Node.chained (some "a") 1 1 none with supersededValidTo := some 2 })).set "c"
      (Node.chained none 3 1 none)
  edges := []
  facts := Dict.empty

theorem supersede_failed_iff_unsaved :
    let g : Graph := { reopened with
      nodes := reopened.nodes.set "a" (Node.chained (some "a") 1 1 none) }
    Unchanged g (supersede g true "a" "c" none 4 (some .stampRows)).1 := by
  intro g
  exact (supersede_failed_iff g true "a" "c" none 4 (some .stampRows) (by decide)).mpr (by decide)

/-- The saved closing time is lost when the rows cannot be stamped. -/
theorem not_unchanged_supersede :
    (supersede reopened true "a" "c" none 4 (some .stampRows)).2 = some (refused "not applied") ∧
      ¬ Unchanged reopened (supersede reopened true "a" "c" none 4 (some .stampRows)).1 := by
  refine ⟨by decide, fun h => ?_⟩
  exact absurd (h.2 "a") (by decide)

/-! ## The settle after it -/

/-- The fields every version carries, `_FIELDS`. -/
def Node.fields (n : Node) : Option String × Option Nat × Option Time × Option String :=
  (n.lineageId, n.version, n.validTo, n.supersededBy)

/-- The settle of the lineage with nothing forgotten leaves every version's fields. -/
def SettleKeeps (g : Graph) (lineage : String) (now : Time) : Prop :=
  ∀ id, ((settleLineage g lineage (fun _ => false) now).1.nodes.get? id).map Node.fields =
    (g.nodes.get? id).map Node.fields

/-- The version is closed in favour of the next one, at the time saved for it if one
is, or open when it is the last. -/
def Node.Follows (n : Node) (next : Option String) : Prop :=
  n.supersededBy = next ∧
    match next with
    | some _ => n.validTo ≠ none ∧
        (n.supersededValidTo = none ∨ n.supersededValidTo = n.validTo)
    | none => n.validTo = none

instance (n : Node) (next : Option String) : Decidable (n.Follows next) := by
  unfold Node.Follows
  cases next <;> exact inferInstance

theorem settled_fields_iff {n : Node} {visible : List String} (hnd : visible.Nodup) {id : String}
    (hid : id ∈ visible) (now : Time) (number : Nat) :
    ((n.settled visible now id).renumber number now).fields = n.fields ↔
      n.Follows (nextIn visible id) ∧ n.version = some number := by
  unfold Node.Follows Node.settled
  cases hnext : nextIn visible id with
  | none =>
    have hlast := (nextIn_eq_none_iff hnd hid).mp hnext
    simp only [hlast, if_true, Node.renumber, Node.fields, Prod.mk.injEq, true_and]
    exact ⟨fun h => ⟨⟨h.2.2.symm, h.2.1.symm⟩, h.1.symm⟩, fun h => ⟨h.2.symm, h.1.2.symm, h.1.1.symm⟩⟩
  | some successor =>
    have htime : some (n.closingTime now) = n.validTo ↔
        n.validTo ≠ none ∧ (n.supersededValidTo = none ∨ n.supersededValidTo = n.validTo) := by
      unfold Node.closingTime
      cases n.supersededValidTo <;> cases n.validTo <;> simp
    simp only [Node.renumber, Node.fields, Prod.mk.injEq, true_and, htime]
    exact ⟨fun h => ⟨⟨h.2.2.symm, h.2.1⟩, h.1.symm⟩, fun h => ⟨h.2.symm, h.1.2, h.1.1.symm⟩⟩

theorem settleKeeps_iff {g : Graph} {lineage : String} (hlineage : lineage ≠ "") (now : Time) :
    SettleKeeps g lineage now ↔ ∀ id ∈ lineageMembers g.nodes lineage, ∀ n,
      g.nodes.get? id = some n →
        n.Follows (nextIn (lineageMembers g.nodes lineage) id) ∧
          n.version = some ((lineageMembers g.nodes lineage).idxOf id + 1) := by
  have hvisible : visibleIn g.nodes lineage (fun _ => false) = lineageMembers g.nodes lineage :=
    List.filter_eq_self.mpr fun _ _ => rfl
  have hnd := nodup_lineageMembers g.nodes lineage
  unfold SettleKeeps
  simp only [get?_settleLineage hlineage, hvisible]
  constructor
  · intro h id hid n hn
    obtain ⟨n', hn', hl⟩ := mem_lineageMembers.mp hid
    rw [hn, Option.some.injEq] at hn'
    subst hn'
    have := h id
    rw [hn] at this
    simp only [Option.map_some, hl, if_true, Option.some.injEq] at this
    exact (settled_fields_iff hnd hid now _).mp this
  · intro h id
    cases hn : g.nodes.get? id with
    | none => rfl
    | some n =>
      by_cases hl : n.lineageId = some lineage
      · have hid := mem_lineageMembers.mpr ⟨n, hn, hl⟩
        simp only [Option.map_some, hl, if_true, Option.some.injEq]
        exact (settled_fields_iff hnd hid now _).mpr (h id hid n hn)
      · simp [hl]

/-- The versions of the two lineages together, in the order of ingest. -/
def mergedOrder (g : Graph) (pair : Pair) (old new : String) : List String :=
  byIngest g.nodes (pair.covers old new)

/-- In the order of ingest the newer version comes right after the older one, and the
links of every other version lead to the one that comes next. -/
def MergesInOrder (g : Graph) (pair : Pair) (old new : String) : Prop :=
  nextIn (mergedOrder g pair old new) old = some new ∧
    ∀ id ∈ mergedOrder g pair old new, id ≠ old → ∀ n ∈ g.nodes.get? id,
      n.Follows (nextIn (mergedOrder g pair old new) id)

instance (g : Graph) (pair : Pair) (old new : String) :
    Decidable (MergesInOrder g pair old new) :=
  inferInstanceAs (Decidable (_ ∧ _))

/-- The chain of a lineage, as settle would write it. -/
def Chained (g : Graph) (lineage : String) : Prop :=
  ∀ id ∈ lineageMembers g.nodes lineage, ∀ n ∈ g.nodes.get? id,
    n.Follows (nextIn (lineageMembers g.nodes lineage) id) ∧
      n.version = some ((lineageMembers g.nodes lineage).idxOf id + 1)

instance (g : Graph) (lineage : String) : Decidable (Chained g lineage) :=
  inferInstanceAs (Decidable (∀ _ ∈ _, ∀ _ ∈ _, _))

section

variable {g : Graph} {pair : Pair} {old new : String} {validTo now : Time}

theorem linked_ingested (n : Node) (lineage id : String) :
    (n.linked pair old new validTo now lineage id).ingested = n.ingested := by
  unfold Node.linked
  simp only
  split <;> split <;> rfl

theorem lineageMembers_linkWrites :
    lineageMembers (linkWrites g pair old new validTo now pair.lineage).nodes pair.lineage =
      mergedOrder g pair old new := by
  refine byIngest_congr fun id t => ?_
  rw [get?_linkWrites]
  cases g.nodes.get? id with
  | none => simp
  | some n => simp [linked_lineageId, linked_ingested]

theorem get?_finished {failing : Option Step} (h : failing ∉ afterLink) (id : String) :
    (finished g pair old new validTo now failing).1.nodes.get? id =
      (g.nodes.get? id).map (fun n =>
        if pair.covers old new id n then
          (n.linked pair old new validTo now pair.lineage id).renumber
            ((mergedOrder g pair old new).idxOf id + 1) now
        else n) := by
  simp only [afterLink, List.mem_cons, List.not_mem_nil, or_false, not_or] at h
  have hnodes : ∀ k : Graph, (closeOldFacts k old new validTo now).nodes = k.nodes := by
    intro k
    unfold closeOldFacts
    split <;> rfl
  simp only [finished, finish, h.1, h.2.1, h.2.2, if_false, hnodes, renumber, Dict.get?_mapValues,
    get?_linkWrites, lineageMembers_linkWrites, Option.map_map]
  refine Option.map_congr fun n _ => ?_
  simp only [Function.comp, linked_lineageId]
  by_cases hcovers : pair.covers old new id n
  · simp [hcovers]
  · simp [hcovers, linked_of_not_covers hcovers]

theorem lineageMembers_finished {failing : Option Step} (h : failing ∉ afterLink) :
    lineageMembers (finished g pair old new validTo now failing).1.nodes pair.lineage =
      mergedOrder g pair old new := by
  have hlinked : lineageMembers (linkWrites g pair old new validTo now pair.lineage).nodes
      pair.lineage = mergedOrder g pair old new := lineageMembers_linkWrites
  rw [← hlinked]
  refine byIngest_congr fun id t => ?_
  rw [get?_finished h, get?_linkWrites]
  cases g.nodes.get? id with
  | none => simp
  | some n =>
    by_cases hcovers : pair.covers old new id n
    · simp [hcovers]
    · simp [hcovers, linked_of_not_covers hcovers]

theorem chained_finished_iff {failing : Option Step} (h : failing ∉ afterLink)
    (hold : ∃ o, g.nodes.get? old = some o) :
    Chained (finished g pair old new validTo now failing).1 pair.lineage ↔
      MergesInOrder g pair old new := by
  obtain ⟨o, ho⟩ := hold
  have hmem : ∀ id ∈ mergedOrder g pair old new, ∀ n, g.nodes.get? id = some n →
      pair.covers old new id n = true := by
    intro id hid n hn
    obtain ⟨n', hn', hcovers⟩ := mem_byIngest.mp hid
    rw [hn, Option.some.injEq] at hn'
    exact hn' ▸ hcovers
  have hfollows : ∀ id n next, pair.covers old new id n = true →
      (((n.linked pair old new validTo now pair.lineage id).renumber
          ((mergedOrder g pair old new).idxOf id + 1) now).Follows next ↔
        if id = old then next = some new else n.Follows next) := by
    intro id n next hcovers
    by_cases hid : id = old
    · subst hid
      cases next with
      | none => simp [Node.Follows, Node.renumber, Node.linked, Node.closeFor, hcovers]
      | some successor =>
        simp only [Node.Follows, Node.renumber, Node.linked, Node.closeFor, hcovers, if_true,
          Option.some.injEq, ne_eq, reduceCtorEq, not_false_eq_true, or_true, and_true]
        exact eq_comm
    · simp [Node.Follows, Node.renumber, Node.linked, hcovers, hid]
  unfold Chained MergesInOrder
  simp only [lineageMembers_finished h, get?_finished h, Option.mem_def]
  constructor
  · intro hchain
    have hnode : ∀ id ∈ mergedOrder g pair old new, ∀ n, g.nodes.get? id = some n →
        if id = old then nextIn (mergedOrder g pair old new) id = some new
        else n.Follows (nextIn (mergedOrder g pair old new) id) := by
      intro id hid n hn
      have hcovers := hmem id hid n hn
      rw [← hfollows id n _ hcovers]
      exact (hchain id hid _ (by rw [hn, Option.map_some, if_pos hcovers])).1
    have hin : old ∈ mergedOrder g pair old new :=
      mem_byIngest.mpr ⟨o, ho, covers_old pair old new o⟩
    refine ⟨by simpa using hnode old hin o ho, fun id hid hne n hn => ?_⟩
    simpa [hne] using hnode id hid n hn
  · rintro ⟨hold, hrest⟩ id hid n' hn'
    rw [Option.map_eq_some_iff] at hn'
    obtain ⟨n, hn, rfl⟩ := hn'
    have hcovers := hmem id hid n hn
    rw [if_pos hcovers, hfollows id n _ hcovers]
    refine ⟨?_, rfl⟩
    by_cases hne : id = old
    · rw [if_pos hne, hne]
      exact hold
    · rw [if_neg hne]
      exact hrest id hid hne n hn

end

/-- What the settle after a supersede confirms: in the order of ingest the merged
lineage is the chain of its links.  A lineage without an id is not settled. -/
def Confirmed (g : Graph) (old new : String) : Prop :=
  ∀ pair ∈ readPair g old new,
    if pair.oldSup = some new then pair.newLin = "" ∨ Chained g pair.newLin
    else pair.lineage = "" ∨ MergesInOrder g pair old new

instance (g : Graph) (old new : String) : Decidable (Confirmed g old new) :=
  inferInstanceAs (Decidable (∀ pair ∈ readPair g old new,
    if pair.oldSup = some new then pair.newLin = "" ∨ Chained g pair.newLin
    else pair.lineage = "" ∨ MergesInOrder g pair old new))

/-- After a supersede that succeeds, settling its lineage with nothing forgotten leaves
every version's fields if and only if, before it, the two lineages merge in the order of
ingest; and then the current version is the one supersede made current. -/
theorem settle_supersede_iff (g : Graph) (chroma : Bool) (old new : String)
    (validTo : Option Time) (now : Time) (failing : Option Step) (result : SupersedeResult)
    (hresult : (supersede g chroma old new validTo now failing).2 = some result)
    (hok : result.ok = true) (now' : Time) :
    let g' := (supersede g chroma old new validTo now failing).1
    (SettleKeeps g' result.lineageId now' ↔ Confirmed g old new) ∧
      (admitted g chroma old new = true → result.lineageId ≠ "" →
        SettleKeeps g' result.lineageId now' →
          (settleLineage g' result.lineageId (fun _ => false) now').2 = some new) := by
  intro g'
  have hkeeps : ∀ lineage, lineage ≠ "" → (SettleKeeps g' lineage now' ↔ Chained g' lineage) :=
    fun lineage hlineage => settleKeeps_iff hlineage now'
  have hempty : SettleKeeps g' "" now' := by
    intro id
    simp [settleLineage]
  have hiff : ∀ lineage, SettleKeeps g' lineage now' ↔ lineage = "" ∨ Chained g' lineage := by
    intro lineage
    by_cases hlineage : lineage = ""
    · subst hlineage
      exact iff_of_true hempty (Or.inl rfl)
    · rw [hkeeps lineage hlineage]
      exact ⟨Or.inr, fun h => h.resolve_left hlineage⟩
  rcases supersede_cases g chroma old new validTo now failing with
    ⟨-, pair, hpair, hopen, hcall⟩ | ⟨hsame, -, halready⟩
  · rw [hcall, Option.some.injEq] at hresult
    subst hresult
    have hafter : failing ∉ afterLink := fun hafter => by
      obtain ⟨k, -, hdone⟩ : ∃ k, Linked g k pair old new (validTo.getD now) now ∧ _ :=
        finished_failed hafter
      rw [hdone] at hok
      simp [refused] at hok
    have hlineage : (finished g pair old new (validTo.getD now) now failing).2.lineageId =
        pair.lineage := by
      simp only [afterLink, List.mem_cons, List.not_mem_nil, or_false, not_or] at hafter
      simp [finished, finish, hafter.1, hafter.2.1, hafter.2.2]
    have hg' : g' = (finished g pair old new (validTo.getD now) now failing).1 := by
      simp only [g', hcall]
    obtain ⟨o, n, ho, hn, -, hnsup, -⟩ := readPair_eq_some hpair
    have hchained :
        Chained (finished g pair old new (validTo.getD now) now failing).1 pair.lineage ↔
          MergesInOrder g pair old new := chained_finished_iff hafter ⟨o, ho⟩
    have hconfirmed : Confirmed g old new ↔
        pair.lineage = "" ∨ MergesInOrder g pair old new := by
      unfold Confirmed
      simp only [hpair, Option.mem_def, Option.some.injEq, forall_eq', hopen.1, reduceCtorEq, if_false]
    rw [hlineage, hiff, hconfirmed, hg', hchained]
    refine ⟨Iff.rfl, fun hadmitted hne horder => ?_⟩
    obtain ⟨hnext, hrest⟩ := horder.resolve_left hne
    have hin := (nextIn_eq_some_mem hnext).2
    have hnd : (mergedOrder g pair old new).Nodup := nodup_byIngest _ _
    have hne' : new ≠ old := by
      simp only [admitted, Bool.and_eq_true, decide_eq_true_eq] at hadmitted
      exact hadmitted.1.1.2.2.symm
    have hopen' := (hrest new hin hne' n hn).1
    rw [← hnsup, hopen.2.1, eq_comm, nextIn_eq_none_iff hnd hin] at hopen'
    rw [settleLineage_current hne, visibleIn, lineageMembers_finished hafter]
    simpa using hopen'
  · obtain ⟨pair, hpair, hold, hlineage⟩ := halready result hresult hok
    have hg' : g' = g := hsame
    have hconfirmed : Confirmed g old new ↔ pair.newLin = "" ∨ Chained g pair.newLin := by
      unfold Confirmed
      simp only [hpair, Option.mem_def, Option.some.injEq, forall_eq', hold, if_true]
    rw [hlineage, hiff, hconfirmed, hg']
    refine ⟨Iff.rfl, fun hadmitted => ?_⟩
    simp [admitted, hpair, Pair.open, hold] at hadmitted

theorem settle_supersede_iff_inOrder :
    let g : Graph := {
      nodes := ((Dict.empty.set "a" (Node.chained (some "a") 1 1 (some ("b", 2)))).set "b"
        (Node.chained (some "a") 2 2 none)).set "c" (Node.chained none 3 1 none)
      edges := [("b", "a")]
      facts := Dict.empty }
    let done := supersede g true "b" "c" none 4 none
    SettleKeeps done.1 "a" 5 ∧ (settleLineage done.1 "a" (fun _ => false) 5).2 = some "c" := by
  intro g done
  have h := settle_supersede_iff g true "b" "c" none 4 none
    { ok := true, lineageId := "a", version := 3, reason := "" } (by decide) rfl 5
  have hkeeps := h.1.mpr (by decide)
  exact ⟨hkeeps, h.2 (by decide) (by decide) hkeeps⟩

/-- A version is superseded by one that was ingested earlier, and a version is superseded
by one that has history of its own: the settle after it undoes the first and rewrites the
links of the second. -/
theorem not_settleKeeps_supersede :
    (let g : Graph := {
        nodes := (Dict.empty.set "late" (Node.chained none 2 1 none)).set "early"
          (Node.chained none 1 1 none)
        edges := []
        facts := Dict.empty };
      let done := supersede g true "late" "early" none 3 none;
      done.2 = some { ok := true, lineageId := "late", version := 1, reason := "" } ∧
        (settleLineage done.1 "late" (fun _ => false) 4).2 = some "late" ∧
        ¬ SettleKeeps done.1 "late" 4) ∧
    (let g : Graph := {
        nodes := (((Dict.empty.set "x0" (Node.chained (some "x0") 1 1 (some ("x1", 2)))).set "x1"
          (Node.chained (some "x0") 2 2 none)).set "y"
          (Node.chained (some "y") 3 1 (some ("keeper", 4)))).set "keeper"
          (Node.chained (some "y") 4 2 none)
        edges := [("x1", "x0"), ("keeper", "y")]
        facts := Dict.empty };
      let done := supersede g true "x1" "keeper" none 5 none;
      done.2 = some { ok := true, lineageId := "y", version := 4, reason := "" } ∧
        ¬ SettleKeeps done.1 "y" 6) := by
  refine ⟨⟨by decide, by decide, fun h => ?_⟩, by decide, fun h => ?_⟩
  · exact absurd (h "late") (by decide)
  · exact absurd (h "x1") (by decide)

end Cerid.Lineage
