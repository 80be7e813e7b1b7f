import Cerid.Lib.Run
import Cerid.Lineage.Order

/-!
# Settling is confluent

Forgets, restores and purges of the versions of one lineage come in any order, each
followed by a settle.  What a settle leaves of a version that is not forgotten, and
which facts it leaves open, depends on the versions there were and on which are
forgotten in the end.  The fields of a forgotten version, and a closing time that
was never recorded, depend on the order.
-/

namespace Cerid.Lineage

/-! ## Settling twice -/

theorem settled_renumber_settled (n : Node) (visible : List String) (now now' : Time)
    (id : String) (version : Nat) :
    ((n.settled visible now id).renumber version now).settled visible now' id =
      (n.settled visible now id).renumber version now := by
  unfold Node.settled
  cases hnext : nextIn visible id with
  | some successor => simp [Node.renumber, Node.closingTime]
  | none => by_cases hlast : visible.getLast? = some id <;> simp [hlast, Node.renumber]

theorem mem_foldl_mergeEdge {edges es : List (String × String)} {e : String × String} :
    e ∈ es.foldl mergeEdge edges ↔ e ∈ edges ∨ e ∈ es := by
  induction es generalizing edges with
  | nil => simp
  | cons e' es ih =>
    rw [List.foldl_cons, ih, List.mem_cons, mergeEdge]
    split
    · rename_i hmem
      constructor
      · rintro (h | h)
        · exact Or.inl h
        · exact Or.inr (Or.inr h)
      · rintro (h | rfl | h)
        · exact Or.inl h
        · exact Or.inl hmem
        · exact Or.inr h
    · rw [List.mem_append, List.mem_singleton, or_assoc]

theorem foldl_mergeEdge_of_mem {edges es : List (String × String)} (h : ∀ e ∈ es, e ∈ edges) :
    es.foldl mergeEdge edges = edges := by
  induction es with
  | nil => rfl
  | cons e es ih =>
    rw [List.foldl_cons, mergeEdge, if_pos (h e List.mem_cons_self)]
    exact ih fun e' he' => h e' (List.mem_cons_of_mem e he')

section

variable {g : Graph} {lineage : String} (hlineage : lineage ≠ "") (forgotten : String → Bool)
  (now : Time)

include hlineage

theorem lineageMembers_settleLineage :
    lineageMembers (settleLineage g lineage forgotten now).1.nodes lineage =
      lineageMembers g.nodes lineage := by
  refine byIngest_congr fun id t => ?_
  rw [get?_settleLineage hlineage]
  cases g.nodes.get? id with
  | none => simp
  | some n => by_cases hl : n.lineageId = some lineage <;> simp [hl]

theorem visibleIn_settleLineage :
    visibleIn (settleLineage g lineage forgotten now).1.nodes lineage forgotten =
      visibleIn g.nodes lineage forgotten := by
  rw [visibleIn, lineageMembers_settleLineage hlineage, visibleIn]

theorem get?_settleLineage_twice (now' : Time) (id : String) :
    ((settleLineage (settleLineage g lineage forgotten now).1 lineage forgotten
        now').1.nodes.get? id).map Node.untimed =
      ((settleLineage g lineage forgotten now).1.nodes.get? id).map Node.untimed := by
  rw [get?_settleLineage hlineage, visibleIn_settleLineage hlineage,
    lineageMembers_settleLineage hlineage, get?_settleLineage hlineage]
  cases g.nodes.get? id with
  | none => rfl
  | some n =>
    by_cases hl : n.lineageId = some lineage
    · simp only [hl, Option.map_some, if_true, Node.renumber_lineageId, Node.settled_lineageId,
        settled_renumber_settled]
      rfl
    · simp [hl]

theorem settled_settled_fact (f : Fact) (now' : Time) :
    (f.settled g.nodes lineage forgotten now).settled
        (settleLineage g lineage forgotten now).1.nodes lineage forgotten now' =
      f.settled g.nodes lineage forgotten now := by
  have hsource := (sameFact_settled f g.nodes lineage forgotten now).source
  have hmembers := lineageMembers_settleLineage (g := g) hlineage forgotten now
  have hvisible := visibleIn_settleLineage (g := g) hlineage forgotten now
  by_cases hid : f.sourceArtifactId ∈ visibleIn g.nodes lineage forgotten
  · obtain ⟨n, hn, hl⟩ := mem_lineageMembers.mp (mem_visibleIn.mp hid).1
    have hn' := get?_settleLineage (g := g) hlineage forgotten now f.sourceArtifactId
    rw [hn, Option.map_some] at hn'
    rw [settled_of_visible (by rwa [hsource, hvisible]) (by rw [hsource]; exact hn') now', hsource,
      hvisible]
    have hback : (f.settled g.nodes lineage forgotten now).back =
        f.settled g.nodes lineage forgotten now := by
      refine if_neg ?_
      rw [hsource, settled_of_visible hid hn]
      have hnot : f.back.closedBy ≠ some (.trash f.sourceArtifactId) := by
        unfold Fact.back
        split
        · simp
        · assumption
      cases nextIn (visibleIn g.nodes lineage forgotten) f.sourceArtifactId <;>
        simp only [factsCurrent] <;> split <;> simp [hnot]
    rw [hback, settled_of_visible hid hn]
    cases nextIn (visibleIn g.nodes lineage forgotten) f.sourceArtifactId with
    | some successor =>
      simp only
      by_cases hopen : f.back.validTo = none ∧ f.back.isState = true
      · simp [hopen]
      · rw [if_neg hopen, if_neg hopen]
    | none =>
      simp only [factsCurrent]
      by_cases hclosed : f.back.closedBy.isSome = true ∧ f.back.isState = true
      · simp [hclosed, (sameFact_back f).source]
      · simp [hclosed]
  · rw [settled_of_not_visible (by rwa [hsource, hvisible]) now', hmembers,
      settled_of_not_visible hid]
    unfold factsForgotten
    by_cases hclose : f.sourceArtifactId ∈ (lineageMembers g.nodes lineage).filter forgotten ∧
        f.validTo = none
    · simp [hclose]
    · rw [if_neg hclose, if_neg hclose]

theorem get?_settleLineage_facts_twice (now' : Time) (fid : String) :
    (settleLineage (settleLineage g lineage forgotten now).1 lineage forgotten
        now').1.facts.get? fid =
      (settleLineage g lineage forgotten now).1.facts.get? fid := by
  rw [get?_settleLineage_facts hlineage, get?_settleLineage_facts hlineage, Option.map_map]
  exact Option.map_congr fun f _ => settled_settled_fact hlineage forgotten now f now'

/-- The edges a settle merges: from each visible version to the one before it. -/
def successorEdges (visible : List String) : List (String × String) :=
  visible.filterMap (fun id => (nextIn visible id).map (fun successor => (successor, id)))

theorem settleLineage_edges :
    (settleLineage g lineage forgotten now).1.edges =
      (successorEdges (visibleIn g.nodes lineage forgotten)).foldl mergeEdge g.edges := by
  have hedges : ((visibleIn g.nodes lineage forgotten).filterMap
      (historyRow g.nodes (visibleIn g.nodes lineage forgotten) now)).map
        (fun row => (row.successor, row.id)) =
      successorEdges (visibleIn g.nodes lineage forgotten) := by
    rw [List.map_filterMap, successorEdges]
    refine List.filterMap_congr fun id hid => ?_
    obtain ⟨n, hn, -⟩ := mem_lineageMembers.mp (mem_visibleIn.mp hid).1
    cases hnext : nextIn (visibleIn g.nodes lineage forgotten) id <;>
      simp [historyRow, hnext, hn]
  rw [settleLineage, if_neg hlineage, ← hedges, List.foldl_map]
  rfl

theorem settleLineage_edges_twice (now' : Time) :
    (settleLineage (settleLineage g lineage forgotten now).1 lineage forgotten now').1.edges =
      (settleLineage g lineage forgotten now).1.edges := by
  rw [settleLineage_edges hlineage, visibleIn_settleLineage hlineage, settleLineage_edges hlineage]
  exact foldl_mergeEdge_of_mem fun e he => mem_foldl_mergeEdge.mpr (Or.inr he)

end

/-! ## Forgets, restores and purges -/

/-- The graph, what the registry holds as trashed and as purged, and the current
version the last settle answered. -/
structure State where
  graph : Graph
  trashed : List String
  purged : List String
  current : Option String

inductive Event where
  | forget (id : String) (now : Time)
  | restore (id : String) (now : Time)
  | purge (id : String) (now : Time)
deriving DecidableEq, Repr

def Event.id : Event → String
  | .forget id _ => id
  | .restore id _ => id
  | .purge id _ => id

def Event.now : Event → Time
  | .forget _ now => now
  | .restore _ now => now
  | .purge _ now => now

def State.forgotten (s : State) (id : String) : Bool := decide (id ∈ s.trashed ∨ id ∈ s.purged)

/-- A purge takes the version, its edges and its facts. -/
def purgeVersion (g : Graph) (id : String) : Graph where
  nodes := g.nodes.erase id
  edges := g.edges.filter (fun e => e.1 ≠ id ∧ e.2 ≠ id)
  facts := g.facts.filter (fun _ f => decide (f.sourceArtifactId ≠ id))

/-- What is done before the settle. -/
def record (s : State) : Event → State
  | .forget id _ => { s with trashed := id :: s.trashed }
  | .restore id _ => { s with trashed := s.trashed.filter (fun other => other ≠ id) }
  | .purge id _ => { s with purged := id :: s.purged, graph := purgeVersion s.graph id }

def settle (lineage : String) (now : Time) (s : State) : State :=
  let settled := settleLineage s.graph lineage s.forgotten now
  { s with graph := settled.1, current := settled.2 }

def step (lineage : String) (s : State) (e : Event) : State :=
  settle lineage e.now (record s e)

def run (lineage : String) (s : State) (events : List Event) : State :=
  events.foldl (step lineage) s

def State.versions (s : State) (lineage : String) : List String :=
  lineageMembers s.graph.nodes lineage

def State.supersededBy (s : State) (id : String) : Option String :=
  (s.graph.nodes.get? id).bind Node.supersededBy

def State.validTo (s : State) (id : String) : Option Time :=
  (s.graph.nodes.get? id).bind Node.validTo

/-- The time a version stopped being true, where it is on record. -/
def State.closedAt (s : State) (id : String) : Option Time :=
  (s.graph.nodes.get? id).bind Node.supersededValidTo

/-- The fact is there and open. -/
def State.shown (s : State) (fid : String) : Bool :=
  (s.graph.facts.get? fid).any (fun f => f.validTo.isNone)

/-! ## What a run keeps -/

/-- Where a version stands in the order of its lineage. -/
def Node.place (n : Node) : Option String × Nat := (n.lineageId, n.ingested)

/-- What every event keeps of the state there was. -/
structure Kept (lineage : String) (s₀ s : State) : Prop where
  place : ∀ id, id ∉ s.purged →
    (s.graph.nodes.get? id).map Node.place = (s₀.graph.nodes.get? id).map Node.place
  closedAt : ∀ id n, s.graph.nodes.get? id = some n → ∀ c, s₀.closedAt id = some c →
    n.supersededValidTo = some c
  versions : ∀ id ∈ s.versions lineage, id ∈ s₀.versions lineage
  fact : ∀ fid f, s.graph.facts.get? fid = some f → ∃ f₀, s₀.graph.facts.get? fid = some f₀ ∧
    SameFact f₀ f ∧ (f₀.sourceArtifactId ∉ s₀.versions lineage → f = f₀)
  stays : ∀ fid f₀, s₀.graph.facts.get? fid = some f₀ →
    (f₀.sourceArtifactId ∈ s₀.versions lineage → f₀.sourceArtifactId ∉ s.purged) →
      ∃ f, s.graph.facts.get? fid = some f
  owner : ∀ fid f, s.graph.facts.get? fid = some f →
    f.sourceArtifactId ∈ s₀.versions lineage → f.sourceArtifactId ∈ s.versions lineage

theorem Kept.refl (lineage : String) (s : State) : Kept lineage s s where
  place _ _ := rfl
  closedAt id n hn c hc := by
    rw [State.closedAt, hn] at hc
    exact hc
  versions _ h := h
  fact _ f hf := ⟨f, hf, ⟨rfl, rfl, Iff.rfl⟩, fun _ => rfl⟩
  stays _ f₀ hf _ := ⟨f₀, hf⟩
  owner _ _ _ h := h

section

variable {lineage : String} {s₀ s : State}

theorem Kept.purge (h : Kept lineage s₀ s) {id : String} (hid : id ∈ s₀.versions lineage) (now : Time) :
    Kept lineage s₀ (record s (.purge id now)) := by
  have hnode : ∀ id' n, (record s (.purge id now)).graph.nodes.get? id' = some n ↔
      id' ≠ id ∧ s.graph.nodes.get? id' = some n := by
    intro id' n
    simp only [record, purgeVersion, Dict.get?_erase]
    by_cases hid' : id' = id <;> simp [hid']
  have hversion : ∀ id', id' ∈ (record s (.purge id now)).versions lineage ↔
      id' ≠ id ∧ id' ∈ s.versions lineage := by
    intro id'
    simp only [State.versions, mem_lineageMembers, hnode, and_assoc, exists_and_left]
  have hfact : ∀ fid f, (record s (.purge id now)).graph.facts.get? fid = some f ↔
      s.graph.facts.get? fid = some f ∧ f.sourceArtifactId ≠ id := by
    intro fid f
    simp [record, purgeVersion, Option.filter_eq_some_iff]
  constructor
  · intro id' hid'
    simp only [record, List.mem_cons, not_or] at hid'
    rw [← h.place id' hid'.2]
    simp [record, purgeVersion, hid'.1]
  · intro id' n hn
    exact h.closedAt id' n ((hnode id' n).mp hn).2
  · intro id' hid'
    exact h.versions id' ((hversion id').mp hid').2
  · intro fid f hf
    exact h.fact fid f ((hfact fid f).mp hf).1
  · intro fid f₀ hf₀ hsource
    simp only [record, List.mem_cons, not_or] at hsource
    obtain ⟨f, hf⟩ := h.stays fid f₀ hf₀ fun hin => (hsource hin).2
    refine ⟨f, (hfact fid f).mpr ⟨hf, fun hfid => ?_⟩⟩
    obtain ⟨f₀', hf₀', hsame, -⟩ := h.fact fid f hf
    rw [hf₀, Option.some.injEq] at hf₀'
    subst hf₀'
    rw [hsame.source] at hfid
    exact (hsource (hfid ▸ hid)).1 hfid
  · intro fid f hf hin
    obtain ⟨hf, hne⟩ := (hfact fid f).mp hf
    exact (hversion _).mpr ⟨hne, h.owner fid f hf hin⟩

theorem Kept.record (h : Kept lineage s₀ s) {e : Event} (hid : e.id ∈ s₀.versions lineage) :
    Kept lineage s₀ (record s e) := by
  cases e with
  | forget id now => exact ⟨h.place, h.closedAt, h.versions, h.fact, h.stays, h.owner⟩
  | restore id now => exact ⟨h.place, h.closedAt, h.versions, h.fact, h.stays, h.owner⟩
  | purge id now => exact h.purge hid now

theorem Kept.settle (hlineage : lineage ≠ "") (h : Kept lineage s₀ s) (now : Time) :
    Kept lineage s₀ (settle lineage now s) := by
  have hnode := get?_settleLineage (g := s.graph) hlineage s.forgotten now
  have hversions : (Lineage.settle lineage now s).versions lineage = s.versions lineage :=
    lineageMembers_settleLineage hlineage s.forgotten now
  have hfact := get?_settleLineage_facts (g := s.graph) hlineage s.forgotten now
  constructor
  · intro id hid
    rw [← h.place id hid, Lineage.settle]
    simp only [hnode]
    cases s.graph.nodes.get? id with
    | none => rfl
    | some n => by_cases hl : n.lineageId = some lineage <;> simp [hl, Node.place]
  · intro id n' hn' c hc
    simp only [Lineage.settle, hnode, Option.map_eq_some_iff] at hn'
    obtain ⟨n, hn, rfl⟩ := hn'
    have hclosed := h.closedAt id n hn c hc
    split
    · simp only [Node.renumber, Node.settled]
      split
      · simp [Node.closingTime, hclosed]
      · split <;> exact hclosed
    · exact hclosed
  · rw [hversions]
    exact h.versions
  · intro fid f' hf'
    simp only [Lineage.settle, hfact, Option.map_eq_some_iff] at hf'
    obtain ⟨f, hf, rfl⟩ := hf'
    obtain ⟨f₀, hf₀, hsame, hother⟩ := h.fact fid f hf
    refine ⟨f₀, hf₀, hsame.trans (sameFact_settled f _ _ _ _), fun hnot => ?_⟩
    rw [← hother hnot]
    refine settled_of_not_mem (fun hin => ?_) _ _
    rw [hsame.source] at hin
    exact hnot (h.versions _ hin)
  · intro fid f₀ hf₀ hsource
    obtain ⟨f, hf⟩ := h.stays fid f₀ hf₀ hsource
    exact ⟨_, by simp only [Lineage.settle, hfact, hf, Option.map_some]; rfl⟩
  · intro fid f' hf' hin
    simp only [Lineage.settle, hfact, Option.map_eq_some_iff] at hf'
    obtain ⟨f, hf, rfl⟩ := hf'
    rw [(sameFact_settled f _ _ _ _).source] at hin ⊢
    rw [hversions]
    exact h.owner fid f hf hin

theorem Kept.step (hlineage : lineage ≠ "") (h : Kept lineage s₀ s) {e : Event}
    (hid : e.id ∈ s₀.versions lineage) : Kept lineage s₀ (step lineage s e) :=
  (h.record hid).settle hlineage e.now

theorem Kept.run (hlineage : lineage ≠ "") (h : Kept lineage s₀ s) {events : List Event}
    (hids : ∀ e ∈ events, e.id ∈ s₀.versions lineage) : Kept lineage s₀ (run lineage s events) :=
  foldl_invariant (Lineage.step lineage) (Kept lineage s₀)
    (fun _ _ h hid => Kept.step hlineage h hid) h hids

/-! ## What a settle leaves -/

theorem Kept.visibleIn (h : Kept lineage s₀ s) :
    visibleIn s.graph.nodes lineage s.forgotten = visibleIn s₀.graph.nodes lineage s.forgotten := by
  refine byIngest_filter_congr fun id hid t => ?_
  have hpurged : id ∉ s.purged := fun h => by
    simp [State.forgotten, h] at hid
  have hplace := h.place id hpurged
  cases hn : s.graph.nodes.get? id <;> cases hn₀ : s₀.graph.nodes.get? id <;>
    simp [hn, hn₀, Node.place] at hplace ⊢
  rw [hplace.1, hplace.2]

/-- The outcome of a settle in terms of the versions there were and of which are
forgotten. -/
structure Outcome (lineage : String) (s₀ s : State) : Prop where
  current : s.current = (Lineage.visibleIn s₀.graph.nodes lineage s.forgotten).getLast?
  supersededBy : ∀ id ∈ Lineage.visibleIn s₀.graph.nodes lineage s.forgotten,
    s.supersededBy id = nextIn (Lineage.visibleIn s₀.graph.nodes lineage s.forgotten) id
  closed : ∀ id ∈ Lineage.visibleIn s₀.graph.nodes lineage s.forgotten,
    (s.validTo id).isSome =
      (nextIn (Lineage.visibleIn s₀.graph.nodes lineage s.forgotten) id).isSome
  validTo : ∀ id ∈ Lineage.visibleIn s₀.graph.nodes lineage s.forgotten, ∀ c,
    s₀.closedAt id = some c → s.validTo id =
      (nextIn (Lineage.visibleIn s₀.graph.nodes lineage s.forgotten) id).map (fun _ => c)
  shown : ∀ fid, s.shown fid = true ↔ ∃ f₀, s₀.graph.facts.get? fid = some f₀ ∧
    if f₀.sourceArtifactId ∈ s₀.versions lineage then
      s.forgotten f₀.sourceArtifactId = false ∧ f₀.Reopens ∧
        (f₀.isState = true →
          (Lineage.visibleIn s₀.graph.nodes lineage s.forgotten).getLast? =
            some f₀.sourceArtifactId)
    else f₀.validTo = none

/-- The node a settle leaves of a visible version: it names the next one and is
closed when there is one. -/
theorem settle_visible (hlineage : lineage ≠ "") (now : Time) {id : String}
    (hid : id ∈ Lineage.visibleIn s.graph.nodes lineage s.forgotten) :
    ∃ n n', s.graph.nodes.get? id = some n ∧
      (Lineage.settle lineage now s).graph.nodes.get? id = some n' ∧
      n'.supersededBy = nextIn (Lineage.visibleIn s.graph.nodes lineage s.forgotten) id ∧
      n'.validTo = (nextIn (Lineage.visibleIn s.graph.nodes lineage s.forgotten) id).map
        (fun _ => n.closingTime now) := by
  obtain ⟨n, hn, hl⟩ := mem_lineageMembers.mp (mem_visibleIn.mp hid).1
  have hget : (Lineage.settle lineage now s).graph.nodes.get? id =
      some ((n.settled (Lineage.visibleIn s.graph.nodes lineage s.forgotten) now id).renumber
        ((lineageMembers s.graph.nodes lineage).idxOf id + 1) now) := by
    rw [Lineage.settle]
    simp only [get?_settleLineage hlineage, hn, Option.map_some, hl, if_true]
  refine ⟨n, _, hn, hget, ?_⟩
  cases hnext : nextIn (Lineage.visibleIn s.graph.nodes lineage s.forgotten) id with
  | none =>
    have hlast := (nextIn_eq_none_iff (nodup_visibleIn s.graph.nodes lineage s.forgotten) hid).mp hnext
    simp [Node.renumber, Node.settled, hnext, hlast]
  | some successor => simp [Node.renumber, Node.settled, hnext]

theorem Kept.shown_settle (hlineage : lineage ≠ "") (h : Kept lineage s₀ s) (now : Time)
    (fid : String) :
    (Lineage.settle lineage now s).shown fid = true ↔ ∃ f₀, s₀.graph.facts.get? fid = some f₀ ∧
      if f₀.sourceArtifactId ∈ s₀.versions lineage then
        s.forgotten f₀.sourceArtifactId = false ∧ f₀.Reopens ∧
          (f₀.isState = true →
            (Lineage.visibleIn s.graph.nodes lineage s.forgotten).getLast? =
              some f₀.sourceArtifactId)
      else f₀.validTo = none := by
  have hshown : (Lineage.settle lineage now s).shown fid = true ↔
      ∃ f, s.graph.facts.get? fid = some f ∧
        (f.settled s.graph.nodes lineage s.forgotten now).validTo = none := by
    rw [State.shown, Lineage.settle]
    simp only [get?_settleLineage_facts (g := s.graph) hlineage s.forgotten now fid]
    cases s.graph.facts.get? fid <;> simp
  rw [hshown]
  constructor
  · rintro ⟨f, hf, hopen⟩
    obtain ⟨f₀, hf₀, hsame, hother⟩ := h.fact fid f hf
    refine ⟨f₀, hf₀, ?_⟩
    split
    · rename_i hin
      have hin' := h.owner fid f hf (hsame.source ▸ hin)
      rw [settled_open_iff hin', hsame.source, hsame.reopens, hsame.isState] at hopen
      exact hopen
    · rename_i hnot
      rw [settled_of_not_mem (fun hin => hnot (h.versions _ (hsame.source ▸ hin))),
        hother hnot] at hopen
      exact hopen
  · rintro ⟨f₀, hf₀, hopen⟩
    have hstays : f₀.sourceArtifactId ∈ s₀.versions lineage → f₀.sourceArtifactId ∉ s.purged := by
      intro hin hpurged
      rw [if_pos hin] at hopen
      simp [State.forgotten, hpurged] at hopen
    obtain ⟨f, hf⟩ := h.stays fid f₀ hf₀ hstays
    obtain ⟨f₀', hf₀', hsame, hother⟩ := h.fact fid f hf
    rw [hf₀, Option.some.injEq] at hf₀'
    subst hf₀'
    refine ⟨f, hf, ?_⟩
    by_cases hin : f₀.sourceArtifactId ∈ s₀.versions lineage
    · rw [if_pos hin] at hopen
      have hin' := h.owner fid f hf (hsame.source ▸ hin)
      rw [settled_open_iff hin', hsame.source, hsame.reopens, hsame.isState]
      exact hopen
    · rw [if_neg hin] at hopen
      rw [settled_of_not_mem (fun hin' => hin (h.versions _ (hsame.source ▸ hin'))),
        hother hin]
      exact hopen

theorem Kept.outcome (hlineage : lineage ≠ "") (h : Kept lineage s₀ s) (now : Time) :
    Outcome lineage s₀ (Lineage.settle lineage now s) := by
  have hforgotten : (Lineage.settle lineage now s).forgotten = s.forgotten := rfl
  constructor <;> rw [hforgotten, ← h.visibleIn]
  · exact settleLineage_current hlineage s.forgotten now
  · intro id hid
    obtain ⟨n, n', -, hn', hnext, -⟩ := settle_visible hlineage now hid
    rw [State.supersededBy, hn', Option.bind_some, hnext]
  · intro id hid
    obtain ⟨n, n', -, hn', -, htime⟩ := settle_visible hlineage now hid
    rw [State.validTo, hn', Option.bind_some, htime, Option.isSome_map]
  · intro id hid c hc
    obtain ⟨n, n', hn, hn', -, htime⟩ := settle_visible hlineage now hid
    have hclosing : n.closingTime now = c := by
      simp [Node.closingTime, h.closedAt id n hn c hc]
    rw [State.validTo, hn', Option.bind_some, htime, hclosing]
  · exact h.shown_settle hlineage now

theorem Outcome.run (hlineage : lineage ≠ "") {events : List Event} (hne : events ≠ [])
    (hids : ∀ e ∈ events, e.id ∈ s.versions lineage) : Outcome lineage s (run lineage s events) := by
  obtain ⟨before, e, rfl⟩ := (List.eq_nil_or_concat' events).resolve_left hne
  rw [Lineage.run, List.foldl_append, List.foldl_cons, List.foldl_nil]
  have hbefore := (Kept.refl lineage s).run hlineage
    (fun e he => hids e (List.mem_append_left _ he))
  exact (hbefore.record (hids e (by simp))).outcome hlineage e.now

end

/-- Two orders of events that leave the same versions forgotten agree on the current
version, on the links of the versions that are not forgotten, on the closing times
that are on record and on the open facts.  Settling once more changes nothing, and
one version that is not forgotten is open, if there is one. -/
theorem settle_confluent (s : State) (lineage : String) (hlineage : lineage ≠ "")
    (events events' : List Event) (hne : events ≠ []) (hne' : events' ≠ [])
    (hids : ∀ e ∈ events, e.id ∈ s.versions lineage)
    (hids' : ∀ e ∈ events', e.id ∈ s.versions lineage)
    (hsame : ∀ id ∈ s.versions lineage,
      (run lineage s events).forgotten id = (run lineage s events').forgotten id) :
    let r := run lineage s events
    let r' := run lineage s events'
    r.current = r'.current ∧
    (∀ id ∈ s.versions lineage, r.forgotten id = false → r.supersededBy id = r'.supersededBy id) ∧
    (∀ id ∈ s.versions lineage, r.forgotten id = false →
      (r.validTo id).isSome = (r'.validTo id).isSome ∧
        (s.closedAt id ≠ none → r.validTo id = r'.validTo id)) ∧
    (∀ fid, r.shown fid = r'.shown fid) ∧
    (∀ now, let again := settle lineage now r
      (∀ id, (again.graph.nodes.get? id).map Node.untimed =
        (r.graph.nodes.get? id).map Node.untimed) ∧
      again.graph.edges = r.graph.edges ∧
      (∀ fid, again.graph.facts.get? fid = r.graph.facts.get? fid) ∧
      again.current = r.current) ∧
    ((∃ id ∈ s.versions lineage, r.forgotten id = false) →
      ∃! id, id ∈ s.versions lineage ∧ r.forgotten id = false ∧ r.validTo id = none) := by
  intro r r'
  have hr : Outcome lineage s r := Outcome.run hlineage hne hids
  have hr' : Outcome lineage s r' := Outcome.run hlineage hne' hids'
  have hvisible : visibleIn s.graph.nodes lineage r.forgotten =
      visibleIn s.graph.nodes lineage r'.forgotten :=
    List.filter_congr fun id hid => by rw [hsame id hid]
  have hmem : ∀ id, id ∈ visibleIn s.graph.nodes lineage r.forgotten ↔
      id ∈ s.versions lineage ∧ r.forgotten id = false := fun id => mem_visibleIn
  refine ⟨?_, fun id hid hf => ?_, fun id hid hf => ⟨?_, fun hc => ?_⟩, fun fid => ?_,
    fun now => ?_, ?_⟩
  · rw [hr.current, hr'.current, hvisible]
  · have hin := (hmem id).mpr ⟨hid, hf⟩
    rw [hr.supersededBy id hin, hr'.supersededBy id (hvisible ▸ hin), hvisible]
  · have hin := (hmem id).mpr ⟨hid, hf⟩
    rw [hr.closed id hin, hr'.closed id (hvisible ▸ hin), hvisible]
  · have hin := (hmem id).mpr ⟨hid, hf⟩
    obtain ⟨c, hc⟩ := Option.ne_none_iff_exists'.mp hc
    rw [hr.validTo id hin c hc, hr'.validTo id (hvisible ▸ hin) c hc, hvisible]
  · rw [Bool.eq_iff_iff, hr.shown, hr'.shown, hvisible]
    refine exists_congr fun f₀ => and_congr_right fun _ => ?_
    split
    · rename_i hin
      rw [hsame _ hin]
    · exact Iff.rfl
  · obtain ⟨before, e, hlast⟩ := (List.eq_nil_or_concat' events).resolve_left hne
    have hrun : r = settle lineage e.now (record (run lineage s before) e) := by
      simp only [r, hlast, run, List.foldl_append, List.foldl_cons, List.foldl_nil]
      rfl
    rw [hrun]
    exact ⟨get?_settleLineage_twice hlineage _ _ now, settleLineage_edges_twice hlineage _ _ now,
      get?_settleLineage_facts_twice hlineage _ _ now, by
        rw [settle, settle]
        simp only [settleLineage_current hlineage]
        exact congrArg List.getLast? (visibleIn_settleLineage hlineage _ _)⟩
  · rintro ⟨id₀, hid₀⟩
    have hnd := nodup_visibleIn s.graph.nodes lineage r.forgotten
    have hopen : ∀ id ∈ visibleIn s.graph.nodes lineage r.forgotten, r.validTo id = none ↔
        (visibleIn s.graph.nodes lineage r.forgotten).getLast? = some id := by
      intro id hin
      rw [← nextIn_eq_none_iff hnd hin, ← Option.not_isSome_iff_eq_none, hr.closed id hin,
        Option.not_isSome_iff_eq_none]
    have hne : visibleIn s.graph.nodes lineage r.forgotten ≠ [] :=
      List.ne_nil_of_mem ((hmem id₀).mpr hid₀)
    have hlast := List.getLast?_eq_some_getLast hne
    have hin := List.getLast_mem hne
    refine ⟨_, ⟨((hmem _).mp hin).1, ((hmem _).mp hin).2, (hopen _ hin).mpr hlast⟩, ?_⟩
    rintro id ⟨hid, hf, hv⟩
    have := (hopen id ((hmem id).mpr ⟨hid, hf⟩)).mp hv
    rw [hlast, Option.some.injEq] at this
    exact this.symm

/-- Three versions, as two supersedes leave them, with a fact each. -/
def threeVersions : State where
  graph := {
    nodes := ((Dict.empty.set "v1" (Node.chained (some "v1") 1 1 (some ("v2", 2)))).set "v2"
      (Node.chained (some "v1") 2 2 (some ("v3", 3)))).set "v3" (Node.chained (some "v1") 3 3 none)
    edges := [("v2", "v1"), ("v3", "v2")]
    facts := (Dict.empty.set "f1" (
      { sourceArtifactId := "v1", predicate := "preference", validTo := some 2,
        invalidAt := some 2, closedBy := some (.version "v2") })).set "f3" (
      { sourceArtifactId := "v3", predicate := "preference", validTo := none, invalidAt := none,
        closedBy := none }) }
  trashed := []
  purged := []
  current := none

/-- Two versions, neither of which was ever closed. -/
def twoOpenVersions : State where
  graph := {
    nodes := (Dict.empty.set "v1" (Node.chained (some "v1") 1 1 none)).set "v2" (Node.chained (some "v1") 2 2 none)
    edges := []
    facts := Dict.empty }
  trashed := []
  purged := []
  current := none

theorem settle_confluent_threeVersions :
    let events : List Event := [.forget "v3" 10, .forget "v1" 11, .restore "v1" 12, .purge "v2" 13]
    let events' : List Event := [.purge "v2" 20, .forget "v3" 21]
    let r := run "v1" threeVersions events
    let r' := run "v1" threeVersions events'
    r.current = r'.current ∧
    (∀ id ∈ threeVersions.versions "v1", r.forgotten id = false →
      r.supersededBy id = r'.supersededBy id) ∧
    ∀ fid, r.shown fid = r'.shown fid := by
  intro events events' r r'
  have h := settle_confluent threeVersions "v1" (by decide) events events' (by decide) (by decide)
    (by decide) (by decide) (by decide)
  exact ⟨h.1, h.2.1, h.2.2.2.1⟩

/-- What a forgotten version carries depends on the order, and so does a closing
time that was never recorded. -/
theorem not_settle_confluent :
    (let r := run "v1" threeVersions [.forget "v3" 10, .forget "v2" 11];
      let r' := run "v1" threeVersions [.forget "v2" 10, .forget "v3" 11];
      (∀ id ∈ threeVersions.versions "v1", r.forgotten id = r'.forgotten id) ∧
        r.validTo "v2" ≠ r'.validTo "v2") ∧
    (let r := run "v1" twoOpenVersions [.forget "v2" 10, .restore "v2" 11];
      let r' := run "v1" twoOpenVersions [.restore "v2" 10, .restore "v1" 11];
      (∀ id ∈ twoOpenVersions.versions "v1", r.forgotten id = r'.forgotten id) ∧
        r.forgotten "v1" = false ∧ r.validTo "v1" ≠ r'.validTo "v1") := by
  decide

end Cerid.Lineage
