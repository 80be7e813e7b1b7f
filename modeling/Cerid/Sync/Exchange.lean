import Cerid.Sync.Newest

/-!
# Two machines that import each other

Each machine exports all its artifacts and the other imports them.  One import in each
direction settles every artifact: the later copy is carried over the earlier one, and
two copies of one time stay as they are.
-/

namespace Cerid.Sync

open Forget (Index)

/-! ## Exchanges -/

/-- A machine imports all artifacts of another; the other files of the folder are
given. -/
def pullFrom (c : Settings) (reg : Index) (rest : Folder) (theirs mine : Stores) : Stores :=
  (importNeo4j c reg { rest with artifacts := exportArtifacts none theirs.artifacts } false
    .remoteWins mine).1

inductive Direction where
  | toFirst
  | toSecond
deriving DecidableEq, Repr

/-- One machine imports what the other has just exported. -/
def exchange (c₁ c₂ : Settings) (reg : Index) (p : Stores × Stores) (e : Direction × Folder) :
    Stores × Stores :=
  match e.1 with
  | .toFirst => (pullFrom c₁ reg e.2 p.2 p.1, p.2)
  | .toSecond => (p.1, pullFrom c₂ reg e.2 p.1 p.2)

/-- The copies of an artifact on the two machines. -/
def copies (p : Stores × Stores) (id : String) : Option Artifact × Option Artifact :=
  (p.1.artifacts.get? id, p.2.artifacts.get? id)

/-- The artifact is not passed over: neither forgotten nor, by the folder, the transcript
of a forgotten conversation. -/
def Passes (reg : Index) (f : Folder) (id : String) : Prop :=
  id ≠ "" ∧ passedOver reg f [] id = false

instance (reg : Index) (f : Folder) (id : String) : Decidable (Passes reg f id) :=
  inferInstanceAs (Decidable (_ ∧ _))

/-! ## One artifact -/

/-- The second copy has a later update time. -/
def Later (a q : Artifact) : Prop :=
  ∃ t, localUpdated a = some t ∧ t < (localUpdated q).getD ""

instance (a q : Artifact) : Decidable (Later a q) :=
  decidable_of_iff ((localUpdated a).any (fun t => decide (t < (localUpdated q).getD "")) = true)
    (by simp only [Option.any_eq_true, decide_eq_true_eq, Later])

/-- Nothing is lost or filled in when the copy arrives: both its times are set, and it
has a lineage, a memory scope and a conversation where the node it replaces has one. -/
structure Carries (q a : Artifact) : Prop where
  ingestedAt : q.ingestedAt.isSome
  updatedAt : orText q.updatedAt (some ((text q.ingestedAt).getD "")) = q.updatedAt
  lineage : (text q.lineage.lineageId).isSome ∨ a.lineage = q.lineage
  memoryScope : q.memoryScope.isSome ∨ a.memoryScope = none
  conversationId : q.conversationId.isSome ∨ a.conversationId = none

/-- The copies are the same already, or one is later and arrives whole; a copy that only
one machine has arrives whole. -/
def Settles : Option Artifact → Option Artifact → Prop
  | some a, some q => a = q ∨ (Later a q ∧ Carries q a) ∨ (Later q a ∧ Carries a q)
  | some a, none => Carries a .blank
  | none, some q => Carries q .blank
  | none, none => True

theorem carried_eq_iff (q a : Artifact) : carried q a = q ↔ Carries q a := by
  have hing : some ((text q.ingestedAt).getD "") = q.ingestedAt ↔ q.ingestedAt.isSome := by
    cases q.ingestedAt with
    | none => simp
    | some t => by_cases h : t = "" <;> simp [text, orText, h]
  have hlin : (if (text q.lineage.lineageId).isSome then q.lineage else a.lineage) = q.lineage ↔
      (text q.lineage.lineageId).isSome ∨ a.lineage = q.lineage := by
    by_cases h : (text q.lineage.lineageId).isSome <;> simp [h]
  have hor : ∀ (m k : Option String), m.or k = m ↔ m.isSome ∨ k = none := by
    intro m k
    cases m <;> simp
  constructor
  · intro h
    have hi := congrArg Artifact.ingestedAt h
    have hu := congrArg Artifact.updatedAt h
    have hl := congrArg Artifact.lineage h
    have hm := congrArg Artifact.memoryScope h
    have hc := congrArg Artifact.conversationId h
    exact ⟨hing.mp hi, hu, hlin.mp hl, (hor _ _).mp hm, (hor _ _).mp hc⟩
  · intro h
    rw [carried, h.updatedAt, hing.mpr h.ingestedAt, hlin.mpr h.lineage,
      (hor _ _).mpr h.memoryScope, (hor _ _).mpr h.conversationId]

/-- The node of an artifact after the import of another machine's copy. -/
def pullOne (mine theirs : Option Artifact) : Option Artifact :=
  match mine, theirs with
  | mine, none => mine
  | none, some q => some (carried q .blank)
  | some a, some q => if Later a q then some (carried q a) else some a

theorem get?_pullFrom {c : Settings} {reg : Index} {rest : Folder} {theirs mine : Stores}
    {id : String} (h : Passes reg rest id) :
    (pullFrom c reg rest theirs mine).artifacts.get? id =
      pullOne (mine.artifacts.get? id) (theirs.artifacts.get? id) := by
  have hskip : skipIds .remoteWins rest.lastExportedAt mine.artifacts
      (exportArtifacts none theirs.artifacts) = [] := by
    unfold skipIds
    cases text rest.lastExportedAt <;> rfl
  have hpass : passedOver reg { rest with artifacts := exportArtifacts none theirs.artifacts } []
      id = false := h.2
  rw [pullFrom, get?_importNeo4j]
  simp only [hskip]
  rw [hpass, if_neg Bool.false_ne_true, rowsOf_exportAll _ h.1]
  cases theirs.artifacts.get? id with
  | none => cases mine.artifacts.get? id <;> rfl
  | some q =>
    show pullRow c false (mine.artifacts.get? id) (q.row id) = _
    cases mine.artifacts.get? id with
    | none => simp [pullRow, pullOne, takes_none, written_row]
    | some a =>
      have htakes : takes false (q.row id) (some a) = true ↔ Later a q := takes_some
      by_cases hlater : Later a q
      · simp [pullRow, pullOne, htakes.mpr hlater, hlater, written_row]
      · simp [pullRow, pullOne, Bool.eq_false_iff.mpr (fun e => hlater (htakes.mp e)), hlater]

/-- One exchange of one artifact. -/
def exchangeOne (x : Option Artifact × Option Artifact) : Direction →
    Option Artifact × Option Artifact
  | .toFirst => (pullOne x.1 x.2, x.2)
  | .toSecond => (x.1, pullOne x.2 x.1)

theorem copies_exchange {c₁ c₂ : Settings} {reg : Index} {p : Stores × Stores}
    {e : Direction × Folder} {id : String} (h : Passes reg e.2 id) :
    copies (exchange c₁ c₂ reg p e) id = exchangeOne (copies p id) e.1 := by
  obtain ⟨d, rest⟩ := e
  cases d with
  | toFirst => exact Prod.ext (get?_pullFrom h) rfl
  | toSecond => exact Prod.ext rfl (get?_pullFrom h)

theorem copies_exchanges {c₁ c₂ : Settings} {reg : Index} {p : Stores × Stores}
    {es : List (Direction × Folder)} {id : String} (h : ∀ e ∈ es, Passes reg e.2 id) :
    copies (es.foldl (exchange c₁ c₂ reg) p) id =
      (es.map Prod.fst).foldl exchangeOne (copies p id) := by
  induction es generalizing p with
  | nil => rfl
  | cons e rest ih =>
    rw [List.foldl_cons, ih fun e' he' => h e' (List.mem_cons_of_mem _ he'),
      copies_exchange (h e List.mem_cons_self), List.map_cons, List.foldl_cons]

/-! ## One exchange each way -/

theorem Later.trans_irrefl {a q : Artifact} (h : Later a q) (h' : Later q a) : False := by
  obtain ⟨t, ht, hlt⟩ := h
  obtain ⟨u, hu, hlt'⟩ := h'
  rw [ht, Option.getD_some] at hlt'
  rw [hu, Option.getD_some] at hlt
  exact absurd (hlt.trans hlt') (lt_irrefl t)

theorem localUpdated_carried (q a : Artifact) :
    localUpdated (carried q a) = some ((localUpdated q).getD "") :=
  orText_filled q.updatedAt q.ingestedAt

theorem not_later_carried (q a : Artifact) : ¬ Later (carried q a) q := by
  rintro ⟨t, ht, hlt⟩
  rw [localUpdated_carried, Option.some.injEq] at ht
  exact absurd hlt (ht ▸ lt_irrefl _)

theorem not_carried_later (q a : Artifact) : ¬ Later q (carried q a) := by
  rintro ⟨t, ht, hlt⟩
  rw [localUpdated_carried, Option.getD_some, ht, Option.getD_some] at hlt
  exact absurd hlt (lt_irrefl t)

/-- What the two copies become. -/
def settled (x : Option Artifact × Option Artifact) : Option Artifact × Option Artifact :=
  (pullOne x.1 x.2, pullOne x.2 x.1)

/-- Once both machines have imported, an import changes nothing. -/
theorem exchangeOne_settled (x : Option Artifact × Option Artifact) (d : Direction) :
    exchangeOne (settled x) d = settled x := by
  obtain ⟨x, y⟩ := x
  cases x with
  | none =>
    cases y with
    | none => cases d <;> rfl
    | some q =>
      cases d <;> simp [settled, exchangeOne, pullOne, not_later_carried, not_carried_later]
  | some a =>
    cases y with
    | none =>
      cases d <;> simp [settled, exchangeOne, pullOne, not_later_carried, not_carried_later]
    | some q =>
      by_cases h : Later a q
      · have h' : ¬ Later q a := fun h' => h.trans_irrefl h'
        cases d <;> simp [settled, exchangeOne, pullOne, h, h', not_later_carried, not_carried_later]
      · by_cases h' : Later q a
        · cases d <;>
            simp [settled, exchangeOne, pullOne, h, h', not_later_carried, not_carried_later]
        · cases d <;> simp [settled, exchangeOne, pullOne, h, h']

/-- Before that, an import settles the artifact or changes nothing, and one of the two
directions settles it. -/
theorem exchangeOne_cases (x : Option Artifact × Option Artifact) :
    (exchangeOne x .toFirst = settled x ∧ exchangeOne x .toSecond = x) ∨
      (exchangeOne x .toSecond = settled x ∧ exchangeOne x .toFirst = x) := by
  obtain ⟨x, y⟩ := x
  cases x with
  | none =>
    cases y with
    | none => exact Or.inl ⟨rfl, rfl⟩
    | some q => exact Or.inl ⟨rfl, rfl⟩
  | some a =>
    cases y with
    | none => exact Or.inr ⟨rfl, rfl⟩
    | some q =>
      by_cases h : Later a q
      · have h' : ¬ Later q a := fun h' => h.trans_irrefl h'
        exact Or.inl (by simp [settled, exchangeOne, pullOne, h, h'])
      · exact Or.inr (by simp [settled, exchangeOne, pullOne, h])

theorem foldl_exchangeOne_settled (x : Option Artifact × Option Artifact) (ds : List Direction) :
    ds.foldl exchangeOne (settled x) = settled x := by
  induction ds with
  | nil => rfl
  | cons d rest ih => rw [List.foldl_cons, exchangeOne_settled, ih]

/-- Imports in both directions settle the artifact, in whatever order they come. -/
theorem foldl_exchangeOne {x : Option Artifact × Option Artifact} {ds : List Direction}
    (hfirst : .toFirst ∈ ds) (hsecond : .toSecond ∈ ds) :
    ds.foldl exchangeOne x = settled x := by
  -- the direction that settles the artifact, and the other one, which waits for it
  have key : ∀ d d' : Direction, (∀ e, e = d ∨ e = d') → exchangeOne x d = settled x →
      exchangeOne x d' = x → ∀ ds : List Direction, d ∈ ds → ds.foldl exchangeOne x = settled x := by
    intro d d' hcover hd hd' ds hmem
    induction ds with
    | nil => exact absurd hmem List.not_mem_nil
    | cons e rest ih =>
      rw [List.foldl_cons]
      rcases hcover e with rfl | rfl
      · rw [hd]
        exact foldl_exchangeOne_settled x rest
      · by_cases heq : d = e
        · rw [← heq, hd]
          exact foldl_exchangeOne_settled x rest
        · rw [hd']
          exact ih ((List.mem_cons.mp hmem).resolve_left heq)
  have hcover : ∀ e : Direction, e = .toFirst ∨ e = .toSecond := by
    intro e
    cases e <;> simp
  rcases exchangeOne_cases x with ⟨h, h'⟩ | ⟨h, h'⟩
  · exact key _ _ hcover h h' ds hfirst
  · exact key _ _ (fun e => (hcover e).symm) h h' ds hsecond

theorem settled_eq_iff {x y : Option Artifact} {a q : Artifact}
    (h : settled (x, y) = (some a, some q)) : a = q ↔ Settles x y := by
  rw [settled, Prod.mk.injEq] at h
  cases x with
  | none =>
    cases y with
    | none => simp [pullOne] at h
    | some q' =>
      simp only [pullOne, Option.some.injEq] at h
      rw [← h.1, ← h.2, carried_eq_iff]
      rfl
  | some a' =>
    cases y with
    | none =>
      simp only [pullOne, Option.some.injEq] at h
      rw [← h.1, ← h.2, eq_comm, carried_eq_iff]
      rfl
    | some q' =>
      show a = q ↔ a' = q' ∨ (Later a' q' ∧ Carries q' a') ∨ (Later q' a' ∧ Carries a' q')
      by_cases hl : Later a' q'
      · have hl' : ¬ Later q' a' := fun hl' => hl.trans_irrefl hl'
        have hne : ¬ a' = q' := fun e => hl' (e ▸ hl)
        simp only [pullOne, hl, hl', if_true, if_false, Option.some.injEq] at h
        rw [← h.1, ← h.2, carried_eq_iff]
        simp [hl, hl', hne]
      · by_cases hl' : Later q' a'
        · have hne : ¬ a' = q' := fun e => hl (e ▸ hl')
          simp only [pullOne, hl, hl', if_true, if_false, Option.some.injEq] at h
          rw [← h.1, ← h.2, eq_comm, carried_eq_iff]
          simp [hl, hl', hne]
        · simp only [pullOne, hl, hl', if_false, Option.some.injEq] at h
          rw [← h.1, ← h.2]
          simp [hl, hl']

/-- A machine that holds one artifact. -/
def holding (a : Artifact) : Stores := { Stores.fresh with artifacts := Dict.empty.set "note" a }

def copyAt (contentHash : String) (updatedAt : Option String) : Artifact :=
  { Artifact.blank with
    contentHash := some contentHash, ingestedAt := some "2026-01-01", updatedAt }

def plain : Settings :=
  { machineId := "laptop", domains := ["general", "conversations"], defaultDomain := "general",
    relationshipTypes := [], logMax := 10000, ttl := 90, now := "2026-03-01", instant := 60,
    conversations := conversations_mem }

/-- One import in each direction. -/
def bothWays : List (Direction × Folder) := [(.toSecond, .empty), (.toFirst, .empty)]

/-- The copies of two machines after both have imported. -/
def after (a q : Artifact) : Option Artifact × Option Artifact :=
  copies (bothWays.foldl (exchange plain plain (Forget.index [])) (holding a, holding q)) "note"

end Cerid.Sync
