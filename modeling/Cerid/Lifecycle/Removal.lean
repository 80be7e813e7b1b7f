import Cerid.Ingest.Identity
import Cerid.Lib.Reach

/-!
# Removing an artifact from every store

`remove_content` deletes the node with the attachments that hang on it, and then
their rows: from the vector store, the keyword index, the sparse index and the
hypothetical questions.  The stores are kept by domain, and the removal looks for
the rows in the domain of the artifact it was called for.

A keyword or sparse entry is its chunk id, and a collection is named after its
domain.  The caches and the tombstones are left out, and so are the links between
notes, which a removal turns into placeholders.
-/

namespace Cerid.Lifecycle

open Ingest (ChunkId)

/-- A row of a collection, with the `artifact_id` of its metadata, which a caller
may have set. -/
structure VectorRow where
  id : ChunkId
  artifactId : String
deriving DecidableEq, Repr

/-- A hypothetical question; its id is `{source_chunk_id}_hype_{n}`. -/
structure HypeRow where
  chunk : ChunkId
  number : Nat
  sourceArtifactId : String
deriving DecidableEq, Repr

structure Node where
  domain : String
  chunkIds : List ChunkId
deriving DecidableEq, Repr

/-- The stores, each by domain; an attachment is an edge from the artifact it hangs
on. -/
structure Library where
  nodes : Dict String Node
  attachments : List (String × String)
  vectors : String → List VectorRow
  bm25 : String → List ChunkId
  sparse : String → List ChunkId
  hype : String → List HypeRow
  /-- a node lists passages of its own -/
  listed : ∀ id n, nodes.get? id = some n → ∀ c ∈ n.chunkIds, c.artifactId = id
  /-- an edge joins two nodes -/
  linked : ∀ e ∈ attachments, (nodes.get? e.1).isSome ∧ (nodes.get? e.2).isSome

/-- What a removal depends on besides the library: whether the sparse encoder can
be used, and which of the stores raise. -/
structure Setting where
  sparseAvailable : Bool
  vectorsFail : Bool
  bm25Fails : Bool
  sparseFails : Bool
  hypeFails : Bool

section

variable (lib : Library) (w : Setting) (id : String)

/-- `HAS_ATTACHMENT*1..` -/
def attached (child : String) : Bool :=
  through (fun x y => (x, y) ∈ lib.attachments) (lib.attachments.map Prod.snd) id child

/-- The `attachment_ids` that `delete_artifact` returns. -/
def attachmentIds : List String :=
  lib.nodes.keys.filter (attached lib id)

def artifactIds : List String :=
  id :: attachmentIds lib id

/-- The `chunk_ids` that `delete_artifact` returns. -/
def chunkIds : List ChunkId :=
  (artifactIds lib id).flatMap fun a => (lib.nodes.get? a).elim [] Node.chunkIds

/-- The collections a removal goes through; without a domain, all of them. -/
def reaches (domain : String) (collection : String) : Bool :=
  domain = "" ∨ domain = collection

/-- `_owned_rows`. -/
def ownsRow (row : VectorRow) : Bool :=
  row.id ∈ chunkIds lib id ∨
    (row.artifactId ∈ artifactIds lib id ∧ row.id.artifactId = row.artifactId)

def chromaRemove (domain : String) (collection : String) : List VectorRow :=
  if w.vectorsFail = false ∧ reaches domain collection then
    (lib.vectors collection).filter fun row => !ownsRow lib id row
  else lib.vectors collection

def bm25Remove (domain : String) (collection : String) : List ChunkId :=
  if w.bm25Fails = false ∧ domain = collection then
    (lib.bm25 collection).filter (· ∉ chunkIds lib id)
  else lib.bm25 collection

/-- `_sparse_remove`: "No-op when the encoder is unavailable." -/
def sparseRemove (domain : String) (collection : String) : List ChunkId :=
  if w.sparseFails = false ∧ w.sparseAvailable ∧ domain = collection then
    (lib.sparse collection).filter (· ∉ chunkIds lib id)
  else lib.sparse collection

def hypeRemove (domain : String) (collection : String) : List HypeRow :=
  if w.hypeFails = false ∧ reaches domain collection then
    (lib.hype collection).filter fun row =>
      ¬ (row.sourceArtifactId ∈ artifactIds lib id ∧ row.chunk.artifactId = row.sourceArtifactId)
  else lib.hype collection

end

/-- The nodes left when these are gone. -/
def keep (nodes : Dict String Node) (ids : List String) : Dict String Node :=
  nodes.filter fun id _ => id ∉ ids

theorem keep_get? (nodes : Dict String Node) (ids : List String) (id : String) :
    (keep nodes ids).get? id = if id ∈ ids then none else nodes.get? id := by
  rw [keep, Dict.get?_filter]
  by_cases h : id ∈ ids <;> cases nodes.get? id <;> simp [h, Option.filter]

/-- `remove_content`; there is no result when the artifact is not found. -/
def removeContent (lib : Library) (w : Setting) (id : String) : Option Library :=
  match lib.nodes.get? id with
  | none => none
  | some node => some {
      nodes := keep lib.nodes (artifactIds lib id)
      attachments := lib.attachments.filter fun e =>
        e.1 ∉ artifactIds lib id ∧ e.2 ∉ artifactIds lib id
      vectors := chromaRemove lib w id node.domain
      bm25 := bm25Remove lib w id node.domain
      sparse := sparseRemove lib w id node.domain
      hype := hypeRemove lib w id node.domain
      listed := by
        intro a n hn
        rw [keep_get?] at hn
        split at hn
        · cases hn
        · exact lib.listed a n hn
      linked := by
        intro e he
        obtain ⟨hmem, hkept⟩ := List.mem_filter.mp he
        obtain ⟨h₁, h₂⟩ := of_decide_eq_true hkept
        rw [keep_get?, keep_get?, if_neg h₁, if_neg h₂]
        exact lib.linked e hmem }

/-! ## What a removal leaves -/

/-- The artifact itself, and what hangs on it at any depth. -/
def Removed (lib : Library) (id a : String) : Prop :=
  a = id ∨ Relation.TransGen (fun x y => (x, y) ∈ lib.attachments) id a

/-- No store has a row of the artifacts. -/
structure NoResidue (lib : Library) (removed : String → Prop) : Prop where
  vectors : ∀ d, ∀ row ∈ lib.vectors d, ¬ removed row.id.artifactId
  bm25 : ∀ d, ∀ c ∈ lib.bm25 d, ¬ removed c.artifactId
  sparse : ∀ d, ∀ c ∈ lib.sparse d, ¬ removed c.artifactId
  hype : ∀ d, ∀ row ∈ lib.hype d, ¬ removed row.chunk.artifactId

/-- The node of an artifact and its rows are as they were. -/
structure Kept (lib lib' : Library) (a : String) : Prop where
  node : lib'.nodes.get? a = lib.nodes.get? a
  vectors : ∀ d, ∀ row ∈ lib.vectors d, row.id.artifactId = a → row ∈ lib'.vectors d
  bm25 : ∀ d, ∀ c ∈ lib.bm25 d, c.artifactId = a → c ∈ lib'.bm25 d
  sparse : ∀ d, ∀ c ∈ lib.sparse d, c.artifactId = a → c ∈ lib'.sparse d
  hype : ∀ d, ∀ row ∈ lib.hype d, row.chunk.artifactId = a → row ∈ lib'.hype d

/-- What hangs on an artifact that is still there is kept, save the artifact that
was to be removed. -/
def KeepsReferenced (lib lib' : Library) (id : String) : Prop :=
  ∀ e ∈ lib.attachments, e.2 ≠ id → (lib'.nodes.get? e.1).isSome → Kept lib lib' e.2

/-- Every row of the artifacts is where the removal looks: no store fails that has
one, the rows are in the domain of the artifact named, keyword and sparse entries
are listed on the nodes, and the sparse encoder is there if it has indexed any. -/
structure Reached (lib : Library) (w : Setting) (id domain : String) : Prop where
  vectors : ∀ d, ∀ row ∈ lib.vectors d, Removed lib id row.id.artifactId →
    w.vectorsFail = false ∧ (domain = "" ∨ domain = d) ∧
      (row.id ∈ chunkIds lib id ∨ row.artifactId = row.id.artifactId)
  bm25 : ∀ d, ∀ c ∈ lib.bm25 d, Removed lib id c.artifactId →
    w.bm25Fails = false ∧ domain = d ∧ c ∈ chunkIds lib id
  sparse : ∀ d, ∀ c ∈ lib.sparse d, Removed lib id c.artifactId →
    w.sparseFails = false ∧ w.sparseAvailable = true ∧ domain = d ∧ c ∈ chunkIds lib id
  hype : ∀ d, ∀ row ∈ lib.hype d, Removed lib id row.chunk.artifactId →
    w.hypeFails = false ∧ (domain = "" ∨ domain = d) ∧ row.sourceArtifactId = row.chunk.artifactId

/-- What hangs on the artifact hangs on nothing that is kept. -/
def Unshared (lib : Library) (id : String) : Prop :=
  ∀ e ∈ lib.attachments, Removed lib id e.2 → e.2 ≠ id → Removed lib id e.1

section

variable {lib : Library} {w : Setting} {id : String}

theorem attached_iff (a : String) : attached lib id a = true ↔
    Relation.TransGen (fun x y => (x, y) ∈ lib.attachments) id a := by
  have h := through_iff (fun x y => decide ((x, y) ∈ lib.attachments))
    (fun x y h => List.mem_map_of_mem (f := Prod.snd) (of_decide_eq_true h)) id a
  simp only [decide_eq_true_eq] at h
  exact h

theorem mem_artifactIds {a : String} : a ∈ artifactIds lib id ↔ Removed lib id a := by
  rw [artifactIds, List.mem_cons, attachmentIds, List.mem_filter, Removed, attached_iff]
  refine or_congr_right ⟨And.right, fun h => ⟨?_, h⟩⟩
  obtain ⟨x, -, hx⟩ := Relation.TransGen.tail'_iff.mp h
  exact (Dict.mem_keys_iff _ _).mpr (Option.isSome_iff_exists.mp (lib.linked _ hx).2)

theorem removed_of_mem_chunkIds {c : ChunkId} (h : c ∈ chunkIds lib id) :
    Removed lib id c.artifactId := by
  obtain ⟨a, ha, hc⟩ := List.mem_flatMap.mp h
  cases hn : lib.nodes.get? a with
  | none =>
    rw [hn] at hc
    cases hc
  | some n =>
    rw [hn] at hc
    rw [lib.listed a n hn c hc]
    exact mem_artifactIds.mp ha

theorem removed_of_ownsRow {row : VectorRow} (h : ownsRow lib id row = true) :
    Removed lib id row.id.artifactId := by
  rcases of_decide_eq_true h with hlisted | ⟨hmem, heq⟩
  · exact removed_of_mem_chunkIds hlisted
  · rw [heq]
    exact mem_artifactIds.mp hmem

/-! ## When nothing is left behind -/

section

variable {α : Type*} {c : Prop} [Decidable c] {l : List α} {p : α → Bool}

theorem forall_mem_ite_filter {q : α → Prop} :
    (∀ x ∈ if c then l.filter p else l, ¬ q x) ↔ ∀ x ∈ l, q x → c ∧ p x = false := by
  split
  · rename_i hc
    simp only [List.mem_filter, and_imp, hc, true_and]
    refine forall₂_congr fun x hx => ⟨fun h hq => ?_, fun h hp hq => ?_⟩
    · exact Bool.eq_false_iff.mpr fun hp => h hp hq
    · rw [h hq] at hp
      cases hp
  · rename_i hc
    simp only [hc, false_and, imp_false]

theorem mem_ite_filter {x : α} (hx : x ∈ l) (hp : p x = true) : x ∈ if c then l.filter p else l := by
  split
  · exact List.mem_filter.mpr ⟨hx, hp⟩
  · exact hx

end

/-- A removal leaves no row exactly when it looks where the rows are. -/
theorem noResidue_iff {node : Node} {lib' : Library} (hnode : lib.nodes.get? id = some node)
    (h : removeContent lib w id = some lib') :
    NoResidue lib' (Removed lib id) ↔ Reached lib w id node.domain := by
  simp only [removeContent, hnode, Option.some.injEq] at h
  subst h
  have hvectors : (∀ d, ∀ row ∈ chromaRemove lib w id node.domain d,
      ¬ Removed lib id row.id.artifactId) ↔ ∀ d, ∀ row ∈ lib.vectors d,
      Removed lib id row.id.artifactId → w.vectorsFail = false ∧
        (node.domain = "" ∨ node.domain = d) ∧
        (row.id ∈ chunkIds lib id ∨ row.artifactId = row.id.artifactId) := by
    refine forall_congr' fun d => forall_mem_ite_filter.trans ?_
    refine forall₃_congr fun row _ hrow => ?_
    rw [Bool.not_eq_false', ownsRow, decide_eq_true_eq, reaches, decide_eq_true_eq, and_assoc]
    refine and_congr_right fun _ => and_congr_right fun _ => or_congr_right ⟨fun h => h.2.symm, ?_⟩
    intro heq
    rw [heq]
    exact ⟨mem_artifactIds.mpr hrow, rfl⟩
  have hbm25 : (∀ d, ∀ c ∈ bm25Remove lib w id node.domain d, ¬ Removed lib id c.artifactId) ↔
      ∀ d, ∀ c ∈ lib.bm25 d, Removed lib id c.artifactId →
        w.bm25Fails = false ∧ node.domain = d ∧ c ∈ chunkIds lib id := by
    refine forall_congr' fun d => forall_mem_ite_filter.trans ?_
    refine forall₃_congr fun c _ _ => ?_
    rw [decide_eq_false_iff_not, not_not, and_assoc]
  have hsparse : (∀ d, ∀ c ∈ sparseRemove lib w id node.domain d,
      ¬ Removed lib id c.artifactId) ↔ ∀ d, ∀ c ∈ lib.sparse d, Removed lib id c.artifactId →
        w.sparseFails = false ∧ w.sparseAvailable = true ∧ node.domain = d ∧
          c ∈ chunkIds lib id := by
    refine forall_congr' fun d => forall_mem_ite_filter.trans ?_
    refine forall₃_congr fun c _ _ => ?_
    rw [decide_eq_false_iff_not, not_not, and_assoc, and_assoc]
  have hhype : (∀ d, ∀ row ∈ hypeRemove lib w id node.domain d,
      ¬ Removed lib id row.chunk.artifactId) ↔ ∀ d, ∀ row ∈ lib.hype d,
      Removed lib id row.chunk.artifactId → w.hypeFails = false ∧
        (node.domain = "" ∨ node.domain = d) ∧ row.sourceArtifactId = row.chunk.artifactId := by
    refine forall_congr' fun d => forall_mem_ite_filter.trans ?_
    refine forall₃_congr fun row _ hrow => ?_
    rw [decide_eq_false_iff_not, not_not, reaches, decide_eq_true_eq, and_assoc]
    refine and_congr_right fun _ => and_congr_right fun _ => ⟨fun h => h.2.symm, fun heq => ?_⟩
    rw [heq]
    exact ⟨mem_artifactIds.mpr hrow, rfl⟩
  constructor
  · intro hres
    exact ⟨hvectors.mp hres.vectors, hbm25.mp hres.bm25, hsparse.mp hres.sparse,
      hhype.mp hres.hype⟩
  · intro hreached
    exact ⟨hvectors.mpr hreached.vectors, hbm25.mpr hreached.bm25, hsparse.mpr hreached.sparse,
      hhype.mpr hreached.hype⟩

theorem kept_of_not_removed {lib' : Library} (h : removeContent lib w id = some lib') {a : String}
    (ha : ¬ Removed lib id a) : Kept lib lib' a := by
  have hchunk : ∀ c : ChunkId, c.artifactId = a → decide (c ∉ chunkIds lib id) = true :=
    fun c hc => decide_eq_true fun hmem => ha (hc ▸ removed_of_mem_chunkIds hmem)
  unfold removeContent at h
  split at h
  · cases h
  · obtain rfl := Option.some.inj h
    constructor
    · show (keep lib.nodes _).get? a = _
      rw [keep_get?, if_neg fun hmem => ha (mem_artifactIds.mp hmem)]
    · intro d row hrow hid
      apply mem_ite_filter hrow
      rw [Bool.not_eq_true']
      exact Bool.eq_false_iff.mpr fun howns => ha (hid ▸ removed_of_ownsRow howns)
    · exact fun d c hc hid => mem_ite_filter hc (hchunk c hid)
    · exact fun d c hc hid => mem_ite_filter hc (hchunk c hid)
    · intro d row hrow hid
      apply mem_ite_filter hrow
      refine decide_eq_true fun ⟨hmem, heq⟩ => ha ?_
      rw [← hid, heq]
      exact mem_artifactIds.mp hmem

theorem keepsReferenced_iff {lib' : Library} (h : removeContent lib w id = some lib') :
    KeepsReferenced lib lib' id ↔ Unshared lib id := by
  have hnodes : ∀ a, lib'.nodes.get? a = if a ∈ artifactIds lib id then none
      else lib.nodes.get? a := by
    intro a
    unfold removeContent at h
    split at h
    · cases h
    · obtain rfl := Option.some.inj h
      exact keep_get? _ _ _
  constructor
  · intro hkeeps e he hremoved hne
    refine Classical.byContradiction fun hkept => ?_
    have hsome := (lib.linked e he).1
    rw [← mem_artifactIds] at hkept
    have hnode := (hkeeps e he hne (by rw [hnodes, if_neg hkept]; exact hsome)).node
    rw [hnodes, if_pos (mem_artifactIds.mpr hremoved)] at hnode
    have := (lib.linked e he).2
    rw [← hnode] at this
    cases this
  · intro hunshared e he hne hsome
    apply kept_of_not_removed h
    intro hremoved
    rw [hnodes, if_pos (mem_artifactIds.mpr (hunshared e he hremoved hne))] at hsome
    cases hsome

/-- A removal leaves no row of what it removes and takes nothing that a kept
artifact refers to, iff it looks where the rows are and what hangs on the artifact
hangs on nothing else. -/
theorem removeContent_clean_iff (lib : Library) (w : Setting) (id : String) (node : Node)
    (lib' : Library) (hnode : lib.nodes.get? id = some node)
    (h : removeContent lib w id = some lib') :
    NoResidue lib' (Removed lib id) ∧ KeepsReferenced lib lib' id ↔
      Reached lib w id node.domain ∧ Unshared lib id :=
  and_congr (noResidue_iff hnode h) (keepsReferenced_iff h)

end

/-! ## Emails and their attachment -/

def noFaults (sparseAvailable : Bool) : Setting :=
  { sparseAvailable, vectorsFail := false, bm25Fails := false, sparseFails := false,
    hypeFails := false }

/-- The one passage of an artifact. -/
def passage (id : String) : ChunkId := { artifactId := id, digest := "0" }

/-- Two emails, and a file that hangs on the first of them or on both; it is kept
in a domain of its own when it was there before the emails came. -/
def mailbox (shared : Bool) (fileDomain : String) : Library where
  nodes := ((Dict.empty.set "m1" ⟨"mail", [passage "m1"]⟩).set "m2"
    ⟨"mail", [passage "m2"]⟩).set "file" ⟨fileDomain, [passage "file"]⟩
  attachments := ("m1", "file") :: if shared then [("m2", "file")] else []
  vectors d := (if d = "mail" then [⟨passage "m1", "m1"⟩, ⟨passage "m2", "m2"⟩] else []) ++
    if d = fileDomain then [⟨passage "file", "file"⟩] else []
  bm25 d := (if d = "mail" then [passage "m1", passage "m2"] else []) ++
    if d = fileDomain then [passage "file"] else []
  sparse _ := []
  hype _ := []
  listed := by
    intro id n hn c hc
    have hmem := (Dict.mem_items_iff _ _ _).mpr hn
    simp only [Dict.set, Dict.empty, setItem, reduceIte, String.reduceEq, List.mem_cons,
      Prod.mk.injEq, List.not_mem_nil, or_false] at hmem
    rcases hmem with ⟨rfl, rfl⟩ | ⟨rfl, rfl⟩ | ⟨rfl, rfl⟩ <;>
      exact congrArg ChunkId.artifactId (List.mem_singleton.mp hc)
  linked := by
    cases shared <;> simp

/-- The file hangs on the first email alone and is kept with it. -/
theorem removeContent_clean_iff_mailbox :
    ∃ lib', removeContent (mailbox false "mail") (noFaults true) "m1" = some lib' ∧
      NoResidue lib' (Removed (mailbox false "mail") "m1") ∧
      KeepsReferenced (mailbox false "mail") lib' "m1" := by
  refine ⟨_, rfl, ?_⟩
  apply (removeContent_clean_iff (mailbox false "mail") (noFaults true) "m1" _ _ rfl rfl).mpr
  refine ⟨⟨fun d row hrow _ => ?_, fun d c hc hremoved => ?_, nofun, nofun⟩, fun e he _ _ => ?_⟩
  · by_cases hd : d = "mail"
    · simp only [mailbox, hd, if_true, List.cons_append, List.nil_append, List.mem_cons,
        List.not_mem_nil, or_false] at hrow
      rcases hrow with rfl | rfl | rfl <;> exact ⟨rfl, Or.inr hd.symm, Or.inr rfl⟩
    · simp [mailbox, hd] at hrow
  · by_cases hd : d = "mail"
    · simp only [mailbox, hd, if_true, List.cons_append, List.nil_append, List.mem_cons,
        List.not_mem_nil, or_false] at hc
      rw [← mem_artifactIds] at hremoved
      refine ⟨rfl, hd.symm, ?_⟩
      rcases hc with rfl | rfl | rfl
      · decide
      · exact absurd hremoved (by decide)
      · decide
    · simp [mailbox, hd] at hc
  · obtain rfl := List.mem_singleton.mp he
    exact Or.inl rfl

/-- The file is kept in another domain, and its row stays there. -/
theorem not_removeContent_clean :
    ¬ ∀ (lib : Library) (w : Setting) (id : String) (node : Node) (lib' : Library),
      lib.nodes.get? id = some node → removeContent lib w id = some lib' →
      NoResidue lib' (Removed lib id) ∧ KeepsReferenced lib lib' id := by
  intro h
  obtain ⟨hres, -⟩ := h (mailbox true "finance") (noFaults true) "m1" _ _ rfl rfl
  apply hres.vectors "finance" ⟨passage "file", "file"⟩ (by decide)
  rw [← mem_artifactIds]
  decide

end Cerid.Lifecycle
