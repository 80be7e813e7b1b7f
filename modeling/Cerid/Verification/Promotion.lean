import Cerid.Lib.Run
import Cerid.Lib.Text
import Cerid.Verification.Embedded

/-!
# Promotion of verified claims

A verified claim becomes a memory: a node in the graph, and a row in the vector store that
recall reads.  The id of the memory is made from the claim.  The lock of a claim lets one
attempt at it run at a time.
-/

namespace Cerid.Verification

/-- A claim of a report, its provenance folded onto the flat keys. -/
structure ClaimData where
  claim : String := ""
  status : Option String := none
  verdict : Option String := none
  similarity : Option ℚ := none
  confidence : Option ℚ := none
  claimType : Option String := none
  type : Option String := none
  nliEntailment : Option ℚ := none
  sourceArtifactId : Option String := none
  sourceUrls : List String := []
deriving DecidableEq

inductive Skip
  | lowConfidence
  | type
  | noEntailment
  | noSource
  | duplicate
  | forgotten
deriving DecidableEq

inductive Promotion
  | promoted
  | skipped (why : Skip)
  | error
deriving DecidableEq

structure Thresholds where
  minConfidence : ℚ := 4 / 5
  minNliEntailment : ℚ := 7 / 10

namespace ClaimData

def verdictOf (c : ClaimData) : String := c.status.getD (c.verdict.getD "")

def confidenceOf (c : ClaimData) : ℚ := c.similarity.getD (c.confidence.getD 0)

/-- The first of the two that is there and not empty. -/
def typeOf (c : ClaimData) : String :=
  ((c.claimType.filter (· ≠ "")).or (c.type.filter (· ≠ ""))).getD "factual"

/-- The filters, in their order. -/
def skip? (t : Thresholds) (c : ClaimData) : Option Skip :=
  if c.verdictOf ≠ "supported" ∧ c.verdictOf ≠ "verified" then some .lowConfidence
  else if c.confidenceOf < t.minConfidence then some .lowConfidence
  else if c.typeOf ∈ ["ignorance", "evasion", "citation"] then some .type
  else
    match c.nliEntailment with
    | none => some .noEntailment
    | some nli =>
      if nli < t.minNliEntailment then some .lowConfidence
      else if c.sourceArtifactId.getD "" = "" ∧ c.sourceUrls = [] then some .noSource
      else if (Text.strip c.claim.toList).length < 10 then some .type
      else none

end ClaimData

/-- The ids of the memory nodes, and the recall rows: the id of the memory and the hash of the
text that make up the id of a row. -/
structure Memories where
  nodes : List String
  rows : List (String × String)
deriving DecidableEq

namespace Memories

def empty : Memories := { nodes := [], rows := [] }

/-- `MERGE (m:Memory {id: $id})`. -/
def mergeNode (s : Memories) (id : String) : Memories :=
  if id ∈ s.nodes then s else { s with nodes := s.nodes ++ [id] }

/-- `collection.upsert`. -/
def upsert (s : Memories) (row : String × String) : Memories :=
  if row ∈ s.rows then s else { s with rows := s.rows ++ [row] }

/-- The recall rows of a memory. -/
def rowsOf (s : Memories) (id : String) : Nat := s.rows.countP fun row => row.1 = id

end Memories

/-- The calls of one attempt.  `conflicts` says whether a near duplicate is found, and is `none`
where the search raises; `createFn` and `driver`, whether there is one. -/
structure AttemptCalls where
  conflicts : Option Bool
  createFn : Bool
  memoryForgotten : Bool
  driver : Bool
  existsFails : Bool
  create : Outcome
  upsert : Outcome

section Promote

variable (t : Thresholds) (verifiedMemoryId h16 : String → String)

/-- The upsert of the recall row. -/
def addRow (calls : AttemptCalls) (s : Memories) (row : String × String) : Memories × Promotion :=
  match calls.upsert with
  | .done => (s.upsert row, .promoted)
  | .failed => (s, .error)
  | .lost => (s.upsert row, .error)

/-- `create_memory_fn`, and the row. -/
def createMemory (calls : AttemptCalls) (s : Memories) (row : String × String) :
    Memories × Promotion :=
  if ¬ calls.driver then (s, .error)
  else
    match calls.create with
    | .done => addRow calls (s.mergeNode row.1) row
    | .failed => (s, .error)
    | .lost => (s.mergeNode row.1, .error)

/-- One claim of a report. -/
def promoteClaim (calls : AttemptCalls) (s : Memories) (c : ClaimData) : Memories × Promotion :=
  match c.skip? t with
  | some why => (s, .skipped why)
  | none =>
    match calls.conflicts with
    | none => (s, .error)
    | some true => (s, .skipped .duplicate)
    | some false =>
      let memoryId := verifiedMemoryId c.claim
      if ¬ calls.createFn then (s, .error)
      else if calls.memoryForgotten then (s, .skipped .forgotten)
      else if calls.driver ∧ calls.existsFails then (s, .error)
      else if calls.driver ∧ memoryId ∈ s.nodes then (s, .skipped .duplicate)
      else createMemory calls s (memoryId, h16 c.claim)

/-- The memories after the claims of a report, and what became of each. -/
def promoteVerifiedFacts (conversationForgotten : Bool) (claims : List (AttemptCalls × ClaimData))
    (s : Memories) : Memories × List Promotion :=
  if conversationForgotten then (s, [])
  else
    claims.foldl (fun acc a =>
      let (s, result) := promoteClaim t verifiedMemoryId h16 a.1 acc.1 a.2
      (s, acc.2 ++ [result])) (s, [])

/-- An attempt at a claim, as a step of a run. -/
def attempt (s : Memories) (a : AttemptCalls × ClaimData) : Memories :=
  (promoteClaim t verifiedMemoryId h16 a.1 s a.2).1

/-- A claim is not promoted, or has its node and its row, one of each. -/
def Memories.Whole (s : Memories) (id : String) : Prop :=
  s.nodes.count id = 0 ∧ s.rowsOf id = 0 ∨ s.nodes.count id = 1 ∧ s.rowsOf id = 1

/-- After an attempt that did not end in an error its claim is whole. -/
def Memories.WholeAfter (s : Memories) (a : AttemptCalls × ClaimData) : Prop :=
  (promoteClaim t verifiedMemoryId h16 a.1 s a.2).2 ≠ .error →
    (attempt t verifiedMemoryId h16 s a).Whole (verifiedMemoryId a.2.claim)

/-- The attempt stops before it has seen whether the memory is there. -/
def Stops (a : AttemptCalls × ClaimData) : Prop :=
  a.2.skip? t = none ∧
    (a.1.conflicts = none ∨
      a.1.conflicts = some false ∧ (a.1.createFn = false ∨
        a.1.memoryForgotten = false ∧ (a.1.driver = false ∨ a.1.existsFails = true)))

/-- The claim has its node and no row. -/
def Memories.Torn (s : Memories) (id : String) : Prop := id ∈ s.nodes ∧ s.rowsOf id = 0

/-- A claim that has its node and no row is only attempted so that the attempt stops. -/
def Memories.Fits (s : Memories) (a : AttemptCalls × ClaimData) : Prop :=
  s.Torn (verifiedMemoryId a.2.claim) → Stops t a

namespace Memories

variable {s : Memories}

theorem count_mergeNode (s : Memories) (id id' : String) :
    (s.mergeNode id).nodes.count id' =
      s.nodes.count id' + if id = id' ∧ id ∉ s.nodes then 1 else 0 := by
  rw [mergeNode]
  by_cases hmem : id ∈ s.nodes
  · rw [if_pos hmem, if_neg (fun h => h.2 hmem), Nat.add_zero]
  · rw [if_neg hmem, List.count_append, List.count_singleton]
    by_cases hid : id = id'
    · rw [if_pos (beq_iff_eq.mpr hid), if_pos ⟨hid, hmem⟩]
    · rw [if_neg (fun h => hid (beq_iff_eq.mp h)), if_neg (fun h => hid h.1)]

theorem rowsOf_mergeNode (s : Memories) (id id' : String) :
    (s.mergeNode id).rowsOf id' = s.rowsOf id' := by
  rw [mergeNode]
  split
  · rfl
  · rfl

theorem nodes_upsert (s : Memories) (row : String × String) : (s.upsert row).nodes = s.nodes := by
  rw [upsert]
  split
  · rfl
  · rfl

theorem rowsOf_upsert_of_ne (s : Memories) {row : String × String} {id : String} (h : row.1 ≠ id) :
    (s.upsert row).rowsOf id = s.rowsOf id := by
  rw [upsert]
  split
  · rfl
  · rw [rowsOf, List.countP_append, List.countP_singleton, if_neg (by simpa using h), Nat.add_zero,
      rowsOf]

/-- The first row of a memory. -/
theorem rowsOf_upsert (s : Memories) {row : String × String} (h : s.rowsOf row.1 = 0) :
    (s.upsert row).rowsOf row.1 = 1 := by
  have hmem : row ∉ s.rows := fun hrow => by
    have := List.countP_eq_zero.mp h row hrow
    simp at this
  rw [upsert, if_neg hmem, rowsOf, List.countP_append, List.countP_singleton, if_pos (by simp)]
  rw [rowsOf] at h
  rw [h]

/-- Every memory has one node at most, and rows only with its node, one at most. -/
def Inv (s : Memories) : Prop :=
  ∀ id, s.nodes.count id = 0 ∧ s.rowsOf id = 0 ∨ s.nodes.count id = 1 ∧ s.rowsOf id ≤ 1

theorem Inv.whole_iff (h : s.Inv) (id : String) : s.Whole id ↔ ¬ s.Torn id := by
  rw [Whole, Torn, ← List.count_pos_iff]
  have hid := h id
  omega

theorem Inv.mergeNode (h : s.Inv) (id : String) : (s.mergeNode id).Inv := by
  intro id'
  rw [count_mergeNode, rowsOf_mergeNode]
  by_cases hnew : id = id' ∧ id ∉ s.nodes
  · rw [if_pos hnew]
    have hzero : s.nodes.count id' = 0 := by
      rw [← hnew.1]
      exact List.count_eq_zero.mpr hnew.2
    have := h id'
    omega
  · rw [if_neg hnew, Nat.add_zero]
    exact h id'

/-- The row of a memory that has its node and no row. -/
theorem Inv.upsert (h : s.Inv) {row : String × String} (hnode : s.nodes.count row.1 = 1)
    (hrows : s.rowsOf row.1 = 0) : (s.upsert row).Inv := by
  intro id
  rw [nodes_upsert]
  by_cases hid : row.1 = id
  · rw [← hid, rowsOf_upsert s hrows]
    exact Or.inr ⟨hnode, Nat.le_refl 1⟩
  · rw [rowsOf_upsert_of_ne s hid]
    exact h id

end Memories

/-- What an attempt comes to: a skip, a stop, or a new memory. -/
theorem promoteClaim_cases (s : Memories) (a : AttemptCalls × ClaimData) :
    (promoteClaim t verifiedMemoryId h16 a.1 s a.2).1 = s ∧
        (promoteClaim t verifiedMemoryId h16 a.1 s a.2).2 ≠ .error ∧ ¬ Stops t a ∨
      (promoteClaim t verifiedMemoryId h16 a.1 s a.2).1 = s ∧
        (promoteClaim t verifiedMemoryId h16 a.1 s a.2).2 = .error ∧ Stops t a ∨
      verifiedMemoryId a.2.claim ∉ s.nodes ∧ a.1.driver = true ∧
        promoteClaim t verifiedMemoryId h16 a.1 s a.2 =
          createMemory a.1 s (verifiedMemoryId a.2.claim, h16 a.2.claim) := by
  rw [promoteClaim, Stops]
  cases hskip : a.2.skip? t with
  | some why => simp
  | none =>
    cases hconflicts : a.1.conflicts with
    | none => simp
    | some conflict =>
      cases conflict with
      | true => simp
      | false =>
        simp only [true_and, reduceCtorEq, false_or]
        cases hfn : a.1.createFn with
        | false => simp
        | true =>
          cases hforgotten : a.1.memoryForgotten with
          | true => simp
          | false =>
            cases hdriver : a.1.driver with
            | false => simp [createMemory, hdriver]
            | true =>
              cases hexists : a.1.existsFails with
              | true => simp
              | false =>
                by_cases hmem : verifiedMemoryId a.2.claim ∈ s.nodes
                · simp [hmem]
                · simp [hmem]

/-- A new memory: its row comes after its node, and what stops between the two is an error. -/
theorem createMemory_cases (calls : AttemptCalls) (s : Memories) (row : String × String) :
    createMemory calls s row = (s, .error) ∨
      createMemory calls s row = (s.mergeNode row.1, .error) ∨
      (createMemory calls s row).1 = (s.mergeNode row.1).upsert row := by
  rw [createMemory]
  split
  · exact Or.inl rfl
  · cases calls.create with
    | failed => exact Or.inl rfl
    | lost => exact Or.inr (Or.inl rfl)
    | done =>
      show addRow calls _ row = _ ∨ addRow calls _ row = _ ∨ (addRow calls _ row).1 = _
      rw [addRow]
      cases calls.upsert with
      | done => exact Or.inr (Or.inr rfl)
      | failed => exact Or.inr (Or.inl rfl)
      | lost => exact Or.inr (Or.inr rfl)

variable {s : Memories} {a : AttemptCalls × ClaimData}

theorem Memories.Inv.attempt (h : s.Inv) : (attempt t verifiedMemoryId h16 s a).Inv := by
  rw [Verification.attempt]
  rcases promoteClaim_cases t verifiedMemoryId h16 s a with ⟨hsame, -⟩ | ⟨hsame, -⟩ | ⟨hnew, -, heq⟩
  · rw [hsame]
    exact h
  · rw [hsame]
    exact h
  · rw [heq]
    have hzero : s.nodes.count (verifiedMemoryId a.2.claim) = 0 := List.count_eq_zero.mpr hnew
    have hinv := h (verifiedMemoryId a.2.claim)
    rcases createMemory_cases a.1 s (verifiedMemoryId a.2.claim, h16 a.2.claim) with
      hc | hc | hc
    · rw [hc]
      exact h
    · rw [hc]
      exact h.mergeNode _
    · rw [hc]
      refine (h.mergeNode _).upsert ?_ ?_
      · rw [count_mergeNode, if_pos ⟨rfl, hnew⟩, hzero]
      · rw [rowsOf_mergeNode]
        show s.rowsOf (verifiedMemoryId a.2.claim) = 0
        omega

theorem Memories.Inv.wholeAfter_iff (h : s.Inv) :
    s.WholeAfter t verifiedMemoryId h16 a ↔ s.Fits t verifiedMemoryId a := by
  rw [WholeAfter, Fits, Verification.attempt]
  rcases promoteClaim_cases t verifiedMemoryId h16 s a with
    ⟨hsame, hresult, hstops⟩ | ⟨-, hresult, hstops⟩ | ⟨hnew, -, heq⟩
  · rw [hsame, imp_iff_right hresult, h.whole_iff]
    exact ⟨fun hnot htorn => absurd htorn hnot, fun hfits htorn => hstops (hfits htorn)⟩
  · exact ⟨fun _ _ => hstops, fun _ herror => absurd hresult herror⟩
  · refine ⟨fun _ htorn => absurd htorn.1 hnew, fun _ herror => ?_⟩
    rw [heq] at herror ⊢
    have hzero : s.nodes.count (verifiedMemoryId a.2.claim) = 0 := List.count_eq_zero.mpr hnew
    have hinv := h (verifiedMemoryId a.2.claim)
    rcases createMemory_cases a.1 s (verifiedMemoryId a.2.claim, h16 a.2.claim) with
      hc | hc | hc
    · exact absurd (by rw [hc]) herror
    · exact absurd (by rw [hc]) herror
    · rw [hc]
      refine Or.inr ⟨?_, rowsOf_upsert _ ?_⟩
      · rw [nodes_upsert, count_mergeNode, if_pos ⟨rfl, hnew⟩, hzero]
      · rw [rowsOf_mergeNode]
        show s.rowsOf (verifiedMemoryId a.2.claim) = 0
        omega

/-- Along a run, every attempt that does not end in an error leaves its claim whole exactly if a
claim that has its node and no row is only attempted so that the attempt stops. -/
theorem promotions_whole_iff (attempts : List (AttemptCalls × ClaimData)) :
    Along (attempt t verifiedMemoryId h16) (Memories.WholeAfter t verifiedMemoryId h16)
        Memories.empty attempts ↔
      Along (attempt t verifiedMemoryId h16) (Memories.Fits t verifiedMemoryId)
        Memories.empty attempts :=
  along_iff Memories.Inv (fun _ _ h => h.wholeAfter_iff t verifiedMemoryId h16)
    (fun _ _ h _ => h.attempt t verifiedMemoryId h16) (fun _ => Or.inl ⟨rfl, rfl⟩)

/-- The claims of a report are attempts. -/
theorem promoteVerifiedFacts_eq_foldl (claims : List (AttemptCalls × ClaimData)) (s : Memories) :
    (promoteVerifiedFacts t verifiedMemoryId h16 false claims s).1 =
      claims.foldl (attempt t verifiedMemoryId h16) s := by
  have hfold : ∀ (acc : Memories × List Promotion),
      (claims.foldl (fun acc a =>
        let (s, result) := promoteClaim t verifiedMemoryId h16 a.1 acc.1 a.2
        (s, acc.2 ++ [result])) acc).1 = claims.foldl (attempt t verifiedMemoryId h16) acc.1 := by
    induction claims with
    | nil => exact fun _ => rfl
    | cons a rest ih => exact fun acc => ih _
  exact hfold (s, [])

end Promote

/-- The vector store fails once, and the claim never gets its row. -/
theorem row_never_written :
    let calls : AttemptCalls :=
      { conflicts := some false, createFn := true, memoryForgotten := false, driver := true,
        existsFails := false, create := .done, upsert := .done }
    let c : ClaimData :=
      { claim := "Water boils at 100 degrees.", status := some "verified", similarity := some 1,
        nliEntailment := some 1, sourceArtifactId := some "a1" }
    ¬ Along (attempt {} id id) (Memories.WholeAfter {} id id) Memories.empty
      [({ calls with upsert := .failed }, c), (calls, c)] := by
  rintro calls c ⟨-, hlast, -⟩
  rcases hlast (by decide +kernel) with ⟨h, -⟩ | ⟨-, h⟩
  · exact absurd h (by decide +kernel)
  · exact absurd h (by decide +kernel)

end Cerid.Verification
