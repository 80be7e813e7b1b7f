import Cerid.Lib.Run
import Cerid.Recovery.Pass
import Mathlib.Data.List.Induction

/-!
# What recovery makes of interrupted ingests

A pass writes an artifact's node from the rows it was shown.  The node is the one
the ingest would have written when those rows are the document's child passages,
all of them and in order, and carry the document's hash; or when the node is there
already and only the rows were left pending.
-/

namespace Cerid.Recovery

open Ingest (ChunkId Chunk)

/-- What the ingest and the recovery must agree on. -/
def Node.identity (n : Node) : String × List ChunkId × Nat :=
  (n.contentHash, n.chunkIds, n.chunkCount)

/-- What a node is once its document has been ingested. -/
def finalIdentity (lib : Stores) (d : Document) : String × List ChunkId × Nat :=
  (((lib.nodes.get? d.id).map Node.contentHash).getD d.id, d.childChunkIds, d.childChunkIds.length)

/-- The documents are new: nothing is pending yet, no node holds a text of theirs,
and their texts differ. -/
structure Fresh (lib : Stores) (docs : List Document) : Prop where
  settled : ∀ k c r, lib.rows k c = some r → r.state = .committed
  unknown : ∀ d ∈ docs, ∀ n ∈ lib.nodes.values, n.contentHash ≠ d.id
  distinct : (docs.map Document.id).Nodup

/-- No row of the documents is pending any more. -/
def NothingPending (docs : List Document) (s : Stores) : Prop :=
  ∀ d ∈ docs, ∀ c ∈ d.chunkIds, (s.rows d.domain c).map Row.state ≠ some .pending

/-- Every committed row of the documents refers to a node. -/
def Referred (docs : List Document) (s : Stores) : Prop :=
  ∀ d ∈ docs, ∀ c ∈ d.chunkIds, (s.rows d.domain c).map Row.state = some .committed →
    (s.nodes.get? d.id).isSome

/-- The same nodes, with the same passages, and the same rows in the same state. -/
structure Agrees (s u : Stores) : Prop where
  nodes : ∀ id, (s.nodes.get? id).map Node.identity = (u.nodes.get? id).map Node.identity
  rows : ∀ k c, (s.rows k c).map Row.state = (u.rows k c).map Row.state

/-! ## When a pass does what the ingest would have done -/

/-- The orphans of an artifact that a pass is shown. -/
def groupOf (orphans : List OrphanRecord) (id : String) : List OrphanRecord :=
  orphans.filter fun o => o.row.artifactId = id

/-- The node lists the document's child passages. -/
def Landed (s : Stores) (d : Document) : Prop :=
  ∃ n ∈ s.nodes.get? d.id, n.chunkIds = d.childChunkIds ∧ n.chunkCount = d.childChunkIds.length

/-- What a pass is shown of a document when it finds the node holding just that,
when it writes the node, and when it cannot. -/
def Sound (s : Stores) (h : Health) (d : Document) (group : List OrphanRecord) : Prop :=
  let chunkIds := group.map OrphanRecord.chunkId
  group = [] ∨ h.opens = false ∨
    if h.reads ∧ graphHoldsChunks s.nodes d.id chunkIds then Landed s d
    else if h.writes then
      chunkIds = d.childChunkIds ∧
        ((s.nodes.get? d.id).isSome ∨ d.metadata.get? "content_hash" = some d.id)
    else ∀ o ∈ group, o.row.attempts + 1 < maxRecoveryAttempts

/-- A pass takes up each document whole, or leaves it for a later pass. -/
def Whole (docs : List Document) (s : Stores) (p : Pass) : Prop :=
  ∀ d ∈ docs, Sound s (p.health d.id) d (groupOf (scanOrphans s p) d.id)

/-! ## The stores' operations -/

section

variable {nodes nodes' : Dict String Node} {id : String} {node : Node}

theorem createArtifact_some (h : createArtifact nodes id node = some nodes') :
    (∀ k, k ≠ id → nodes'.get? k = nodes.get? k) ∧
      (nodes'.get? id).map Node.identity =
        some (((nodes.get? id).map Node.contentHash).getD node.contentHash, node.chunkIds,
          node.chunkCount) := by
  unfold createArtifact at h
  cases hn : nodes.get? id with
  | some n =>
    simp only [hn, Option.some.injEq] at h
    subst h
    refine ⟨fun k hk => by rw [Dict.get?_set, if_neg hk], ?_⟩
    rw [Dict.get?_set, if_pos rfl]
    rfl
  | none =>
    simp only [hn] at h
    split at h
    · cases h
    · cases h
      refine ⟨fun k hk => by rw [Dict.get?_set, if_neg hk], ?_⟩
      rw [Dict.get?_set, if_pos rfl]
      rfl

theorem createArtifact_isSome (h : nodes.get? id = none →
    ∀ n ∈ nodes.values, n.contentHash ≠ node.contentHash) :
    ∃ nodes', createArtifact nodes id node = some nodes' := by
  unfold createArtifact
  cases hn : nodes.get? id with
  | some n => exact ⟨_, rfl⟩
  | none =>
    rw [if_neg]
    · exact ⟨_, rfl⟩
    · intro hany
      obtain ⟨n, hmem, heq⟩ := List.any_eq_true.mp hany
      exact h hn n hmem (of_decide_eq_true heq)

end

theorem updateRows_of_notMem {rows : Rows} {k collection : String} {c : ChunkId}
    {ids : List ChunkId} {f : Row → Row} (h : k = collection → c ∉ ids) :
    updateRows rows collection ids f k c = rows k c :=
  if_neg fun ⟨hk, hc⟩ => h hk hc

theorem mem_chunkIds {d : Document} {c : ChunkId} (h : c ∈ d.chunkIds) : c.artifactId = d.id := by
  obtain ⟨chunk, -, rfl⟩ := List.mem_map.mp h
  rfl

theorem Document.chunkIds_ne_nil (d : Document) : ∃ c, c ∈ d.chunkIds := by
  obtain ⟨chunk, hchunk⟩ := List.exists_mem_of_ne_nil _ d.nonempty
  exact ⟨_, List.mem_map_of_mem hchunk⟩

/-! ## The invariant -/

/-- Each document's node is as before or as the ingest writes it, and where a row
of the document is committed it is the latter. -/
structure Inv (lib : Stores) (docs : List Document) (s : Stores) : Prop where
  frame : ∀ id, (∀ d ∈ docs, d.id ≠ id) → s.nodes.get? id = lib.nodes.get? id
  node : ∀ d ∈ docs, s.nodes.get? d.id = lib.nodes.get? d.id ∨
    (s.nodes.get? d.id).map Node.identity = some (finalIdentity lib d)
  others : ∀ k c, (∀ d ∈ docs, k = d.domain → c ∉ d.chunkIds) → s.rows k c = lib.rows k c
  rows : ∀ d ∈ docs, ∀ c ∈ d.chunkIds, ∃ r, s.rows d.domain c = some r ∧ r.artifactId = d.id ∧
    r.metadata = d.metadata ∧
    (r.state = .committed → (s.nodes.get? d.id).map Node.identity = some (finalIdentity lib d))

variable {lib s : Stores} {docs : List Document} {d : Document}

theorem Inv.contentHash (h : Inv lib docs s) {id : String} {n : Node}
    (hn : s.nodes.get? id = some n) :
    (∃ b, lib.nodes.get? id = some b ∧ n.contentHash = b.contentHash) ∨
      lib.nodes.get? id = none ∧ n.contentHash = id ∧ ∃ d ∈ docs, d.id = id := by
  by_cases hid : ∀ d ∈ docs, d.id ≠ id
  · exact Or.inl ⟨n, (h.frame id hid).symm.trans hn, rfl⟩
  · obtain ⟨d, hd, rfl⟩ : ∃ d ∈ docs, d.id = id := by
      by_contra hno
      exact hid fun d hd he => hno ⟨d, hd, he⟩
    rcases h.node d hd with hold | hfinal
    · exact Or.inl ⟨n, hold.symm.trans hn, rfl⟩
    · rw [hn] at hfinal
      have hhash : n.contentHash = ((lib.nodes.get? d.id).map Node.contentHash).getD d.id :=
        congrArg Prod.fst (Option.some.inj hfinal)
      cases hb : lib.nodes.get? d.id with
      | some b =>
        rw [hb] at hhash
        exact Or.inl ⟨b, rfl, hhash⟩
      | none =>
        rw [hb] at hhash
        exact Or.inr ⟨rfl, hhash, d, hd, rfl⟩

theorem Inv.hash_free (h : Inv lib docs s) {id : String}
    (hid : ∀ n ∈ lib.nodes.values, n.contentHash ≠ id) (hnone : s.nodes.get? id = none) :
    ∀ n ∈ s.nodes.values, n.contentHash ≠ id := by
  intro n hn heq
  obtain ⟨k, hk⟩ := (Dict.mem_values_iff _ _).mp hn
  rcases h.contentHash hk with ⟨b, hb, hhash⟩ | ⟨-, hhash, -⟩
  · exact hid b ((Dict.mem_values_iff _ _).mpr ⟨k, hb⟩) (hhash.symm.trans heq)
  · rw [← heq, hhash, hk] at hnone
    cases hnone

theorem Inv.createArtifact_identity (h : Inv lib docs s) (hd : d ∈ docs) {node : Node}
    {nodes : Dict String Node} (hids : node.chunkIds = d.childChunkIds)
    (hcount : node.chunkCount = d.childChunkIds.length)
    (hhash : s.nodes.get? d.id = none → node.contentHash = d.id)
    (hcreate : createArtifact s.nodes d.id node = some nodes) :
    (nodes.get? d.id).map Node.identity = some (finalIdentity lib d) := by
  rw [(createArtifact_some hcreate).2, hids, hcount, finalIdentity]
  suffices hsame : ((s.nodes.get? d.id).map Node.contentHash).getD node.contentHash =
      ((lib.nodes.get? d.id).map Node.contentHash).getD d.id by rw [hsame]
  cases hn : s.nodes.get? d.id with
  | some n =>
    rcases h.contentHash hn with ⟨b, hb, heq⟩ | ⟨hnone, heq, -⟩
    · rw [hb]
      exact heq
    · rw [hnone]
      exact heq
  | none =>
    rcases h.node d hd with hold | hfinal
    · rw [← hold, hn]
      exact hhash hn
    · rw [hn] at hfinal
      cases hfinal

theorem Inv.setNodes (h : Inv lib docs s) (hd : d ∈ docs) {nodes : Dict String Node}
    (hother : ∀ k, k ≠ d.id → nodes.get? k = s.nodes.get? k)
    (hfinal : (nodes.get? d.id).map Node.identity = some (finalIdentity lib d))
    (hdistinct : ∀ e ∈ docs, e.id = d.id → e = d) : Inv lib docs { s with nodes } where
  frame id hid := (hother id fun he => hid d hd he.symm).trans (h.frame id hid)
  node e he := by
    by_cases hid : e.id = d.id
    · rw [hdistinct e he hid]
      exact Or.inr hfinal
    · show nodes.get? e.id = _ ∨ _
      rw [hother e.id hid]
      exact h.node e he
  others := h.others
  rows e he c hc := by
    obtain ⟨r, hr, hid, hmeta, hcommitted⟩ := h.rows e he c hc
    refine ⟨r, hr, hid, hmeta, fun hst => ?_⟩
    by_cases hide : e.id = d.id
    · rw [hdistinct e he hide]
      exact hfinal
    · show (nodes.get? e.id).map _ = _
      rw [hother e.id hide]
      exact hcommitted hst

/-- Rows of a document may be rewritten, and be committed once its node is there. -/
theorem Inv.updateRows (h : Inv lib docs s) (hd : d ∈ docs) {ids : List ChunkId} {f : Row → Row}
    (hids : ∀ c ∈ ids, c ∈ d.chunkIds)
    (hf : ∀ r, (f r).artifactId = r.artifactId ∧ (f r).metadata = r.metadata ∧
      ((f r).state = r.state ∨
        (s.nodes.get? d.id).map Node.identity = some (finalIdentity lib d)))
    (hdistinct : ∀ e ∈ docs, e.id = d.id → e = d) :
    Inv lib docs { s with rows := Recovery.updateRows s.rows d.domain ids f } where
  frame := h.frame
  node := h.node
  others k c hkc := by
    show Recovery.updateRows s.rows d.domain ids f k c = _
    rw [updateRows_of_notMem fun hk hc => hkc d hd hk (hids c hc)]
    exact h.others k c hkc
  rows e he c hc := by
    obtain ⟨r, hr, hid, hmeta, hcommitted⟩ := h.rows e he c hc
    by_cases hin : e.domain = d.domain ∧ c ∈ ids
    · obtain rfl := hdistinct e he ((mem_chunkIds hc).symm.trans (mem_chunkIds (hids c hin.2)))
      obtain ⟨hfid, hfmeta, hfstate⟩ := hf r
      refine ⟨f r, (if_pos hin).trans (congrArg (Option.map f) hr), hfid.trans hid,
        hfmeta.trans hmeta, fun hst => ?_⟩
      rcases hfstate with hsame | hfinal
      · exact hcommitted (hsame.symm.trans hst)
      · exact hfinal
    · exact ⟨r, (if_neg hin).trans hr, hid, hmeta, hcommitted⟩

theorem Inv.updateRowsIf (h : Inv lib docs s) (hd : d ∈ docs) (b : Bool) {ids : List ChunkId}
    {f : Row → Row} (hids : ∀ c ∈ ids, c ∈ d.chunkIds)
    (hf : ∀ r, (f r).artifactId = r.artifactId ∧ (f r).metadata = r.metadata ∧
      ((f r).state = r.state ∨
        (s.nodes.get? d.id).map Node.identity = some (finalIdentity lib d)))
    (hdistinct : ∀ e ∈ docs, e.id = d.id → e = d) :
    Inv lib docs { s with rows :=
      if b then Recovery.updateRows s.rows d.domain ids f else s.rows } := by
  split
  · exact h.updateRows hd hids hf hdistinct
  · exact h

/-! ## The scan -/

theorem mem_fetchPendingChunks {p : Pass} {k : String} {o : OrphanRecord}
    (h : o ∈ fetchPendingChunks s p k) :
    s.rows o.collection o.chunkId = some o.row ∧ o.row.state = .pending := by
  have hlisted := List.mem_of_mem_take (List.mem_filter.mp h).1
  obtain ⟨hmem, hst⟩ := List.mem_filter.mp hlisted
  obtain ⟨c, -, ho⟩ := List.mem_filterMap.mp hmem
  obtain ⟨r, hr, rfl⟩ := Option.map_eq_some_iff.mp ho
  exact ⟨hr, of_decide_eq_true hst⟩

theorem Inv.orphan (h : Inv lib docs s) (hfresh : Fresh lib docs) {p : Pass} {o : OrphanRecord}
    (ho : o ∈ scanOrphans s p) :
    ∃ d ∈ docs, o.collection = d.domain ∧ o.chunkId ∈ d.chunkIds ∧ o.row.artifactId = d.id ∧
      o.row.metadata = d.metadata := by
  obtain ⟨k, -, hk⟩ := List.mem_flatMap.mp ho
  obtain ⟨hrow, hst⟩ := mem_fetchPendingChunks hk
  by_cases hdocs : ∃ d ∈ docs, o.collection = d.domain ∧ o.chunkId ∈ d.chunkIds
  · obtain ⟨d, hd, hk, hc⟩ := hdocs
    obtain ⟨r, hr, hid, hmeta, -⟩ := h.rows d hd o.chunkId hc
    rw [hk, hr] at hrow
    obtain rfl := Option.some.inj hrow
    exact ⟨d, hd, hk, hc, hid, hmeta⟩
  · have hold := h.others o.collection o.chunkId fun d hd hk hc => hdocs ⟨d, hd, hk, hc⟩
    have := hfresh.settled _ _ _ (hold.symm.trans hrow)
    rw [hst] at this
    cases this

theorem Fresh.eq_of_id (h : Fresh lib docs) {d e : Document} (hd : d ∈ docs) (he : e ∈ docs)
    (hid : e.id = d.id) : e = d :=
  List.inj_on_of_nodup_map h.distinct he hd hid

theorem get?_groupOrphans (orphans : List OrphanRecord) (a : String) :
    (groupOrphansByArtifact orphans).get? a =
      if groupOf orphans a = [] then none else some (groupOf orphans a) :=
  Dict.get?_foldl_gather (fun o : OrphanRecord => o.row.artifactId) orphans .empty a

theorem groupOrphans_mem {orphans : List OrphanRecord} {a : String} {group : List OrphanRecord}
    (h : (a, group) ∈ (groupOrphansByArtifact orphans).items) :
    group = groupOf orphans a ∧ group ≠ [] := by
  have hget := (Dict.mem_items_iff _ _ _).mp h
  rw [get?_groupOrphans] at hget
  split at hget
  · cases hget
  · rename_i hne
    obtain rfl := Option.some.inj hget
    exact ⟨rfl, hne⟩

/-! ## The recovery of one artifact -/

/-- Nothing of the artifact has changed. -/
def SameAt (s s' : Stores) (a : String) : Prop :=
  s'.nodes.get? a = s.nodes.get? a ∧ ∀ k c, c.artifactId = a → s'.rows k c = s.rows k c

/-- A group of the document's own rows. -/
def OwnRows (d : Document) (group : List OrphanRecord) : Prop :=
  ∀ o ∈ group, o.collection = d.domain ∧ o.chunkId ∈ d.chunkIds ∧ o.row.artifactId = d.id ∧
    o.row.metadata = d.metadata

theorem foldl_max_lt {l : List Nat} {a n : Nat} (ha : a < n) (h : ∀ x ∈ l, x < n) :
    l.foldl max a < n := by
  induction l generalizing a with
  | nil => exact ha
  | cons x rest ih =>
    have hx := h x List.mem_cons_self
    exact ih (by omega) fun y hy => h y (List.mem_cons_of_mem x hy)

theorem Inv.landed (h : Inv lib docs s) (hd : d ∈ docs) (hlanded : Landed s d) :
    (s.nodes.get? d.id).map Node.identity = some (finalIdentity lib d) := by
  obtain ⟨n, hn, hids, hcount⟩ := hlanded
  rcases h.node d hd with hold | hfinal
  · rw [Option.mem_def.mp hn, finalIdentity, ← hold, Option.mem_def.mp hn]
    show some (n.contentHash, n.chunkIds, n.chunkCount) = _
    rw [hids, hcount]
    rfl
  · exact hfinal

theorem Inv.writeArtifact (hinv : Inv lib docs s) (hfresh : Fresh lib docs) (hd : d ∈ docs)
    {lead : OrphanRecord} {chunkIds : List ChunkId} (hid : lead.row.artifactId = d.id)
    (hmeta : lead.row.metadata = d.metadata) (hids : chunkIds = d.childChunkIds)
    (hhash : (s.nodes.get? d.id).isSome ∨ d.metadata.get? "content_hash" = some d.id) :
    ∃ nodes, writeArtifact s.nodes true lead chunkIds = some nodes ∧
      (∀ k, k ≠ d.id → nodes.get? k = s.nodes.get? k) ∧
      (nodes.get? d.id).map Node.identity = some (finalIdentity lib d) := by
  have hcarried : s.nodes.get? d.id = none → (recoveredNode lead chunkIds).contentHash = d.id := by
    intro hnone
    rcases hhash with hsome | hcarries
    · rw [hnone] at hsome
      cases hsome
    · show (lead.row.metadata.get? "content_hash").getD "" = d.id
      rw [hmeta, hcarries]
      rfl
  obtain ⟨nodes, hcreate⟩ := @createArtifact_isSome s.nodes d.id
    (recoveredNode lead chunkIds) fun hnone n hn => by
      rw [hcarried hnone]
      exact hinv.hash_free (hfresh.unknown d hd) hnone n hn
  refine ⟨nodes, ?_, (createArtifact_some hcreate).1, ?_⟩
  · show some ((createArtifact s.nodes lead.row.artifactId _).getD s.nodes) = some nodes
    rw [hid, hcreate]
    rfl
  · apply hinv.createArtifact_identity hd hids _ hcarried hcreate
    show chunkIds.length = _
    rw [hids]

theorem Inv.recoverArtifact (hinv : Inv lib docs s) (hfresh : Fresh lib docs) (hd : d ∈ docs)
    {h : Health} {group : List OrphanRecord} (hown : OwnRows d group) (hsound : Sound s h d group) :
    Inv lib docs (recoverArtifact s h group).1 := by
  have hdistinct : ∀ e ∈ docs, e.id = d.id → e = d := fun e he => hfresh.eq_of_id hd he
  cases group with
  | nil => exact hinv
  | cons lead rest =>
    obtain ⟨hk, -, hid, hmeta⟩ := hown lead List.mem_cons_self
    have hids : ∀ c ∈ (lead :: rest).map OrphanRecord.chunkId, c ∈ d.chunkIds := by
      intro c hc
      obtain ⟨o, ho, rfl⟩ := List.mem_map.mp hc
      exact (hown o ho).2.1
    simp only [Recovery.recoverArtifact]
    split
    · exact hinv
    · rename_i hopens
      rw [hk, hid]
      have hbumped := hinv.updateRowsIf hd h.bumps hids (f := fun r => { r with
        attempts := ((lead :: rest).map fun o => o.row.attempts).foldl max 0 + 1 })
        (fun r => ⟨rfl, rfl, Or.inl rfl⟩) hdistinct
      have hsound := (hsound.resolve_left (List.cons_ne_nil lead rest)).resolve_left hopens
      split at hsound
      · rename_i hholds
        rw [if_pos hholds]
        have hfinal := hinv.landed hd hsound
        exact hbumped.updateRowsIf hd h.flips hids (fun r => ⟨rfl, rfl, Or.inr hfinal⟩) hdistinct
      · rename_i hholds
        rw [if_neg hholds]
        split at hsound
        · rename_i hwrites
          obtain ⟨nodes, hwritten, hother, hfinal⟩ :=
            hinv.writeArtifact hfresh hd hid hmeta hsound.1 hsound.2
          rw [hwrites, hwritten]
          exact (hbumped.setNodes hd hother hfinal hdistinct).updateRowsIf hd h.flips hids
            (fun r => ⟨rfl, rfl, Or.inr hfinal⟩) hdistinct
        · rename_i hwrites
          rw [Recovery.writeArtifact, if_neg hwrites]
          have hlt : ((lead :: rest).map fun o => o.row.attempts).foldl max 0 <
              maxRecoveryAttempts - 1 := by
            apply foldl_max_lt (by decide)
            intro x hx
            obtain ⟨o, ho, rfl⟩ := List.mem_map.mp hx
            have := hsound o ho
            omega
          have hcount := Nat.add_lt_of_lt_sub hlt
          simp only [hcount, if_true]
          exact hbumped

theorem writeArtifact_frame {nodes nodes' : Dict String Node} {writes : Bool}
    {lead : OrphanRecord} {chunkIds : List ChunkId} {k : String} (hk : k ≠ lead.row.artifactId)
    (h : writeArtifact nodes writes lead chunkIds = some nodes') :
    nodes'.get? k = nodes.get? k := by
  unfold writeArtifact at h
  split at h
  · cases hcreate : createArtifact nodes lead.row.artifactId (recoveredNode lead chunkIds) with
    | none =>
      rw [hcreate] at h
      obtain rfl := Option.some.inj h
      rfl
    | some created =>
      rw [hcreate] at h
      obtain rfl := Option.some.inj h
      exact (createArtifact_some hcreate).1 k hk
  · cases h

theorem SameAt.trans {t u : Stores} {a : String} (h : SameAt s t a) (h' : SameAt t u a) :
    SameAt s u a :=
  ⟨h'.1.trans h.1, fun k c hc => (h'.2 k c hc).trans (h.2 k c hc)⟩

theorem sameAt_recoverArtifact {h : Health} {group : List OrphanRecord} {a : String}
    (hown : OwnRows d group) (ha : a ≠ d.id) : SameAt s (recoverArtifact s h group).1 a := by
  cases group with
  | nil => exact ⟨rfl, fun _ _ _ => rfl⟩
  | cons lead rest =>
    have hid := (hown lead List.mem_cons_self).2.2.1
    have hids : ∀ c : ChunkId, c.artifactId = a →
        c ∉ (lead :: rest).map OrphanRecord.chunkId := by
      intro c hc hmem
      obtain ⟨o, ho, rfl⟩ := List.mem_map.mp hmem
      exact ha (hc.symm.trans (mem_chunkIds (hown o ho).2.1))
    have hupdate : ∀ (b : Bool) (rows : Rows) k f, ∀ c : ChunkId, c.artifactId = a →
        (if b then updateRows rows lead.collection ((lead :: rest).map OrphanRecord.chunkId) f
          else rows) k c = rows k c := by
      intro b rows k f c hc
      split
      · exact updateRows_of_notMem fun _ => hids c hc
      · rfl
    have hdelete : ∀ (b : Bool) (rows : Rows) k, ∀ c : ChunkId, c.artifactId = a →
        (if b then deleteRows rows lead.collection ((lead :: rest).map OrphanRecord.chunkId)
          else rows) k c = rows k c := by
      intro b rows k c hc
      split
      · exact if_neg fun hmem => hids c hc hmem.2
      · rfl
    simp only [recoverArtifact]
    split
    · exact ⟨rfl, fun _ _ _ => rfl⟩
    · split
      · rename_i nodes hwritten
        refine ⟨?_, fun k c hc => (hupdate _ _ k _ c hc).trans (hupdate _ _ k _ c hc)⟩
        split at hwritten
        · obtain rfl := Option.some.inj hwritten
          rfl
        · exact writeArtifact_frame (hid ▸ ha) hwritten
      · split
        · exact ⟨rfl, fun k c hc => hupdate _ _ k _ c hc⟩
        · exact ⟨rfl, fun k c hc => (hdelete _ _ k c hc).trans (hupdate _ _ k _ c hc)⟩

/-! ## Passes -/

theorem SameAt.sound {t : Stores} {h : Health} {group : List OrphanRecord}
    (hsame : SameAt s t d.id) (hsound : Sound s h d group) : Sound t h d group := by
  unfold Sound graphHoldsChunks Landed at *
  rw [hsame.1]
  exact hsound

theorem Inv.group (hinv : Inv lib docs s) (hfresh : Fresh lib docs) {p : Pass}
    {g : String × List OrphanRecord}
    (hg : g ∈ (groupOrphansByArtifact (scanOrphans s p)).items) :
    ∃ d ∈ docs, d.id = g.1 ∧ g.2 = groupOf (scanOrphans s p) d.id ∧ OwnRows d g.2 := by
  obtain ⟨a, group⟩ := g
  obtain ⟨rfl, hne⟩ := groupOrphans_mem hg
  have hshown : ∀ o ∈ groupOf (scanOrphans s p) a, o ∈ scanOrphans s p ∧ o.row.artifactId = a :=
    fun o ho => ⟨(List.mem_filter.mp ho).1, of_decide_eq_true (List.mem_filter.mp ho).2⟩
  obtain ⟨lead, hlead⟩ := List.exists_mem_of_ne_nil _ hne
  obtain ⟨d, hd, -, -, hid, -⟩ := hinv.orphan hfresh (hshown lead hlead).1
  obtain rfl : d.id = a := hid.symm.trans (hshown lead hlead).2
  refine ⟨d, hd, rfl, rfl, fun o ho => ?_⟩
  obtain ⟨e, he, hk, hc, hide, hmeta⟩ := hinv.orphan hfresh (hshown o ho).1
  obtain rfl := hfresh.eq_of_id hd he (hide.symm.trans (hshown o ho).2)
  exact ⟨hk, hc, hide, hmeta⟩

/-- A pass that takes up each document whole keeps what holds of the documents. -/
theorem Inv.runRecovery (hinv : Inv lib docs s) (hfresh : Fresh lib docs) {p : Pass}
    (hwhole : Whole docs s p) : Inv lib docs (runRecovery s p) := by
  suffices hgroups : ∀ (groups : List (String × List OrphanRecord)) (t : Stores),
      (groups.map Prod.fst).Nodup →
      (∀ g ∈ groups, g ∈ (groupOrphansByArtifact (scanOrphans s p)).items) →
      Inv lib docs t → (∀ g ∈ groups, SameAt s t g.1) →
      Inv lib docs (groups.foldl (fun s g => (Recovery.recoverArtifact s (p.health g.1) g.2).1) t) from
    hgroups _ s (Dict.nodup_keys _) (fun g hg => hg) hinv (fun g _ => ⟨rfl, fun _ _ _ => rfl⟩)
  intro groups
  induction groups with
  | nil => exact fun t _ _ ht _ => ht
  | cons g rest ih =>
    intro t hnodup hgroup ht hsame
    obtain ⟨hnotMem, hkeys⟩ := List.nodup_cons.mp hnodup
    obtain ⟨d, hd, hid, hgroupOf, hown⟩ := hinv.group hfresh (hgroup g List.mem_cons_self)
    have hsound : Sound t (p.health d.id) d g.2 := by
      have hwas : SameAt s t d.id := hid ▸ hsame g List.mem_cons_self
      rw [hgroupOf]
      exact hwas.sound (hwhole d hd)
    apply ih _ hkeys (fun g hg => hgroup g (List.mem_cons_of_mem _ hg))
    · have hrecovered := ht.recoverArtifact hfresh hd hown hsound
      rw [hid] at hrecovered
      exact hrecovered
    · intro g' hg'
      have hne : g'.1 ≠ d.id := fun he => hnotMem (List.mem_map.mpr ⟨g', hg', he.trans hid⟩)
      exact (hsame g' (List.mem_cons_of_mem _ hg')).trans (sameAt_recoverArtifact hown hne)

/-! ## A pass that ends it -/

/-- The stores answer, and the pass is shown each pending row of the documents. -/
def Complete (docs : List Document) (s : Stores) (p : Pass) : Prop :=
  ∀ d ∈ docs, ((p.health d.id).opens = true ∧ (p.health d.id).writes = true ∧
    (p.health d.id).flips = true) ∧
    ∀ c ∈ d.chunkIds, (s.rows d.domain c).map Row.state = some .pending →
      c ∈ (groupOf (scanOrphans s p) d.id).map OrphanRecord.chunkId

theorem updateRows_state {rows : Rows} {k collection : String} {c : ChunkId} {ids : List ChunkId}
    {f : Row → Row} (hf : ∀ r, (f r).state = r.state) :
    (updateRows rows collection ids f k c).map Row.state = (rows k c).map Row.state := by
  unfold updateRows
  split
  · rw [Option.map_map]
    exact congrArg (fun g => (rows k c).map g) (funext hf)
  · rfl

theorem flipRows_state {rows rows' : Rows} {k : String} {c : ChunkId} {ids : List ChunkId}
    (h : (rows k c).map Row.state = (rows' k c).map Row.state) :
    (updateRows rows k ids (fun r => { r with state := .committed }) k c).map Row.state =
      if c ∈ ids then (rows' k c).map fun _ => .committed else (rows' k c).map Row.state := by
  unfold updateRows
  by_cases hc : c ∈ ids
  · rw [if_pos ⟨rfl, hc⟩, if_pos hc]
    revert h
    cases rows k c <;> cases rows' k c <;> simp
  · rw [if_neg fun hmem => hc hmem.2, if_neg hc]
    exact h

theorem recoverArtifact_flips {h : Health} {group : List OrphanRecord} (hown : OwnRows d group)
    (hopens : h.opens = true) (hwrites : h.writes = true) (hflips : h.flips = true) (c : ChunkId) :
    ((recoverArtifact s h group).1.rows d.domain c).map Row.state =
      if c ∈ group.map OrphanRecord.chunkId then (s.rows d.domain c).map fun _ => .committed
      else (s.rows d.domain c).map Row.state := by
  cases group with
  | nil => rfl
  | cons lead rest =>
    have hk := (hown lead List.mem_cons_self).1
    simp only [recoverArtifact, hopens, hk, Bool.true_eq_false, if_false]
    split
    · simp only [hflips, if_true]
      apply flipRows_state
      -- the attempt counter leaves the state
      split
      · exact updateRows_state fun r => rfl
      · rfl
    · rename_i hnone
      split at hnone
      · cases hnone
      · rw [writeArtifact, if_pos hwrites] at hnone
        cases hnone

theorem sameAt_foldl {health : String → Health} {groups : List (String × List OrphanRecord)}
    {a : String} (hgroups : ∀ g ∈ groups, g.1 ≠ a ∧ ∃ e : Document, e.id = g.1 ∧ OwnRows e g.2)
    (t : Stores) :
    SameAt t (groups.foldl (fun s g => (recoverArtifact s (health g.1) g.2).1) t) a := by
  induction groups generalizing t with
  | nil => exact ⟨rfl, fun _ _ _ => rfl⟩
  | cons g rest ih =>
    obtain ⟨hne, e, hid, hown⟩ := hgroups g List.mem_cons_self
    exact (sameAt_recoverArtifact hown fun he => hne (hid.symm.trans he.symm)).trans
      (ih (fun g hg => hgroups g (List.mem_cons_of_mem _ hg)) _)

/-- After a complete pass nothing is pending. -/
theorem Inv.nothingPending (hinv : Inv lib docs s) (hfresh : Fresh lib docs) {p : Pass}
    (hcomplete : Complete docs s p) : NothingPending docs (Recovery.runRecovery s p) := by
  intro d hd c hc
  obtain ⟨⟨hopens, hwrites, hflips⟩, hshown⟩ := hcomplete d hd
  have hgroups : ∀ groups : List (String × List OrphanRecord),
      (∀ g ∈ groups, g ∈ (groupOrphansByArtifact (scanOrphans s p)).items) →
      (∀ g ∈ groups, g.1 ≠ d.id) → ∀ t, SameAt t
        (groups.foldl (fun s g => (Recovery.recoverArtifact s (p.health g.1) g.2).1) t) d.id := by
    intro groups hitems hne
    apply sameAt_foldl
    intro g hg
    obtain ⟨e, -, hid, -, hown⟩ := hinv.group hfresh (hitems g hg)
    exact ⟨hne g hg, e, hid, hown⟩
  have hca := mem_chunkIds hc
  by_cases hnil : groupOf (scanOrphans s p) d.id = []
  · have hne : ∀ g ∈ (groupOrphansByArtifact (scanOrphans s p)).items, g.1 ≠ d.id := by
      intro g hg he
      obtain ⟨hgroup, hne⟩ := groupOrphans_mem hg
      rw [he] at hgroup
      exact hne (hgroup.trans hnil)
    rw [Recovery.runRecovery, (hgroups _ (fun g hg => hg) hne s).2 d.domain c hca]
    intro hpending
    have := hshown c hc hpending
    rw [hnil] at this
    exact List.not_mem_nil this
  · have hitem : (d.id, groupOf (scanOrphans s p) d.id) ∈
        (groupOrphansByArtifact (scanOrphans s p)).items := by
      rw [Dict.mem_items_iff, get?_groupOrphans, if_neg hnil]
    obtain ⟨e, he, hid, -, hown⟩ := hinv.group hfresh hitem
    obtain rfl := hfresh.eq_of_id hd he hid
    obtain ⟨before, after, hitems⟩ := List.append_of_mem hitem
    have hnodup := (groupOrphansByArtifact (scanOrphans s p)).nodup
    rw [hitems, List.map_append, List.map_cons, List.nodup_append] at hnodup
    have hbefore := hgroups before
      (fun g hg => hitems ▸ List.mem_append_left _ hg)
      (fun g hg => hnodup.2.2 _ (List.mem_map_of_mem hg) _ List.mem_cons_self) s
    have hafter := hgroups after
      (fun g hg => hitems ▸ List.mem_append_right _ (List.mem_cons_of_mem _ hg))
      (fun g hg he => (List.nodup_cons.mp hnodup.2.1).1 (List.mem_map.mpr ⟨g, hg, he⟩))
    rw [Recovery.runRecovery, hitems, List.foldl_append, List.foldl_cons,
      (hafter _).2 e.domain c hca, recoverArtifact_flips hown hopens hwrites hflips c]
    rw [hbefore.2 e.domain c hca]
    split
    · cases s.rows e.domain c <;> simp
    · rename_i hnot
      exact fun hpending => hnot (hshown c hc hpending)

/-! ## Ingests -/

theorem Inv.stageChunks (hinv : Inv lib docs s) (hnew : ∀ e ∈ docs, e.id ≠ d.id) :
    Inv lib (docs ++ [d]) (stageChunks s d) where
  frame id hid := hinv.frame id fun e he => hid e (List.mem_append_left _ he)
  node e he := by
    rcases List.mem_append.mp he with he | he
    · exact hinv.node e he
    · obtain rfl := List.mem_singleton.mp he
      exact Or.inl (hinv.frame e.id hnew)
  others k c hkc := by
    show ite _ _ _ = _
    rw [if_neg fun hmem => hkc d (List.mem_append_right _ List.mem_cons_self) hmem.1 hmem.2]
    exact hinv.others k c fun e he => hkc e (List.mem_append_left _ he)
  rows e he c hc := by
    rcases List.mem_append.mp he with he | he
    · obtain ⟨r, hr, hrow⟩ := hinv.rows e he c hc
      refine ⟨r, (if_neg fun hmem => hnew e he ?_).trans hr, hrow⟩
      exact (mem_chunkIds hc).symm.trans (mem_chunkIds hmem.2)
    · obtain rfl := List.mem_singleton.mp he
      exact ⟨e.row .pending, if_pos ⟨rfl, hc⟩, rfl, rfl, nofun⟩

theorem Inv.createNew (hinv : Inv lib docs s) (hfresh : Fresh lib docs) (hd : d ∈ docs) :
    ∃ nodes, createArtifact s.nodes d.id d.node = some nodes ∧
      (nodes.get? d.id).map Node.identity = some (finalIdentity lib d) ∧
      Inv lib docs { s with nodes } := by
  obtain ⟨nodes, hcreate⟩ := @createArtifact_isSome s.nodes d.id d.node
    fun hnone => hinv.hash_free (hfresh.unknown d hd) hnone
  have hfinal := hinv.createArtifact_identity hd (by rfl) (by rfl) (fun _ => by rfl) hcreate
  exact ⟨nodes, hcreate, hfinal, hinv.setNodes hd (createArtifact_some hcreate).1 hfinal
    fun e he => hfresh.eq_of_id hd he⟩

theorem Inv.ingestContent (hinv : Inv lib docs s) (hfresh : Fresh lib (docs ++ [d]))
    (hnew : ∀ e ∈ docs, e.id ≠ d.id) (crash : CrashPoint) :
    Inv lib (docs ++ [d]) (ingestContent s d crash) := by
  have hd : d ∈ docs ++ [d] := List.mem_append_right _ List.mem_cons_self
  have hstaged := hinv.stageChunks hnew
  obtain ⟨nodes, hcreate, hfinal, hwritten⟩ := hstaged.createNew hfresh hd
  have hflipped := hwritten.updateRows hd (fun _ hc => hc)
    (f := fun r => { r with state := .committed }) (fun r => ⟨rfl, rfl, Or.inr hfinal⟩)
    fun e he => hfresh.eq_of_id hd he
  cases crash with
  | staged => exact hstaged
  | written =>
    simp only [Recovery.ingestContent, hcreate]
    exact hwritten
  | flipped =>
    simp only [Recovery.ingestContent, hcreate]
    exact hflipped

/-- Every row of the documents is committed. -/
def AllCommitted (docs : List Document) (s : Stores) : Prop :=
  ∀ d ∈ docs, ∀ c ∈ d.chunkIds, (s.rows d.domain c).map Row.state = some .committed

theorem AllCommitted.ingestContent (h : AllCommitted docs s) (hinv : Inv lib docs s)
    (hfresh : Fresh lib (docs ++ [d])) (hnew : ∀ e ∈ docs, e.id ≠ d.id) :
    AllCommitted (docs ++ [d]) (ingestContent s d .flipped) := by
  have hd : d ∈ docs ++ [d] := List.mem_append_right _ List.mem_cons_self
  obtain ⟨nodes, hcreate, -, -⟩ := (hinv.stageChunks hnew).createNew hfresh hd
  intro e he c hc
  simp only [Recovery.ingestContent, hcreate]
  show (updateRows (stageChunks s d).rows d.domain d.chunkIds _ e.domain c).map _ = _
  rcases List.mem_append.mp he with he | he
  · have hne : c ∉ d.chunkIds := fun hmem =>
      hnew e he ((mem_chunkIds hc).symm.trans (mem_chunkIds hmem))
    rw [updateRows_of_notMem fun _ => hne]
    show (ite _ _ _ : Option Row).map _ = _
    rw [if_neg fun hmem => hne hmem.2]
    exact h e he c hc
  · obtain rfl := List.mem_singleton.mp he
    show (ite _ _ _ : Option Row).map _ = _
    rw [if_pos ⟨rfl, hc⟩]
    show ((ite _ _ _ : Option Row).map _).map _ = _
    rw [if_pos ⟨rfl, hc⟩]
    rfl

theorem Fresh.left {docs' : List Document} (h : Fresh lib (docs ++ docs')) : Fresh lib docs where
  settled := h.settled
  unknown d hd := h.unknown d (List.mem_append_left _ hd)
  distinct := by
    have := h.distinct
    rw [List.map_append] at this
    exact (List.nodup_append.mp this).1

theorem Fresh.new (h : Fresh lib (docs ++ [d])) : ∀ e ∈ docs, e.id ≠ d.id := by
  have := h.distinct
  rw [List.map_append] at this
  exact fun e he => (List.nodup_append.mp this).2.2 _ (List.mem_map_of_mem he) _
    List.mem_cons_self

/-- Interrupted ingests leave each document as the invariant says. -/
theorem inv_interrupted {docs : List (Document × CrashPoint)}
    (hfresh : Fresh lib (docs.map Prod.fst)) :
    Inv lib (docs.map Prod.fst) (interrupted lib docs) := by
  induction docs using List.reverseRecOn with
  | nil => exact ⟨fun _ _ => rfl, nofun, fun _ _ _ => rfl, nofun⟩
  | append_singleton docs p ih =>
    rw [List.map_append] at hfresh ⊢
    rw [interrupted, List.foldl_append]
    exact (ih hfresh.left).ingestContent hfresh hfresh.new p.2

theorem allCommitted_uninterrupted {docs : List (Document × CrashPoint)}
    (hfresh : Fresh lib (docs.map Prod.fst)) :
    Inv lib (docs.map Prod.fst) (uninterrupted lib docs) ∧
      AllCommitted (docs.map Prod.fst) (uninterrupted lib docs) := by
  induction docs using List.reverseRecOn with
  | nil => exact ⟨⟨fun _ _ => rfl, nofun, fun _ _ _ => rfl, nofun⟩, nofun⟩
  | append_singleton docs p ih =>
    rw [List.map_append] at hfresh ⊢
    rw [uninterrupted, List.foldl_append]
    obtain ⟨hinv, hcommitted⟩ := ih hfresh.left
    exact ⟨hinv.ingestContent hfresh hfresh.new .flipped,
      hcommitted.ingestContent hinv hfresh hfresh.new⟩

/-! ## Recovered and uninterrupted -/

theorem Inv.final (h : Inv lib docs s) (hd : d ∈ docs) {c : ChunkId} (hc : c ∈ d.chunkIds)
    (hst : (s.rows d.domain c).map Row.state = some .committed) :
    (s.nodes.get? d.id).map Node.identity = some (finalIdentity lib d) := by
  obtain ⟨r, hr, -, -, hcommitted⟩ := h.rows d hd c hc
  rw [hr] at hst
  exact hcommitted (Option.some.inj hst)

theorem Inv.referred (h : Inv lib docs s) : Referred docs s := by
  intro d hd c hc hst
  have hfinal := h.final hd hc hst
  cases hn : s.nodes.get? d.id with
  | some n => rfl
  | none =>
    rw [hn] at hfinal
    cases hfinal

theorem Inv.allCommitted (h : Inv lib docs s) (hpending : NothingPending docs s) :
    AllCommitted docs s := by
  intro d hd c hc
  obtain ⟨r, hr, -⟩ := h.rows d hd c hc
  have hne := hpending d hd c hc
  rw [hr] at hne ⊢
  cases hst : r.state with
  | pending => exact absurd (congrArg some hst) hne
  | committed => exact congrArg some hst

theorem Inv.agrees {u : Stores} (h : Inv lib docs s) (hcommitted : AllCommitted docs s)
    (hu : Inv lib docs u) (hucommitted : AllCommitted docs u) : Agrees s u where
  nodes id := by
    by_cases hid : ∃ d ∈ docs, d.id = id
    · obtain ⟨d, hd, rfl⟩ := hid
      obtain ⟨c, hc⟩ := d.chunkIds_ne_nil
      rw [h.final hd hc (hcommitted d hd c hc), hu.final hd hc (hucommitted d hd c hc)]
    · have hother : ∀ d ∈ docs, d.id ≠ id := fun d hd he => hid ⟨d, hd, he⟩
      rw [h.frame id hother, hu.frame id hother]
  rows k c := by
    by_cases hkc : ∃ d ∈ docs, k = d.domain ∧ c ∈ d.chunkIds
    · obtain ⟨d, hd, rfl, hc⟩ := hkc
      rw [hcommitted d hd c hc, hucommitted d hd c hc]
    · have hother : ∀ d ∈ docs, k = d.domain → c ∉ d.chunkIds :=
        fun d hd hk hc => hkc ⟨d, hd, hk, hc⟩
      rw [h.others k c hother, hu.others k c hother]

/-- Whatever ingests of new documents were cut short, and however many passes
follow that take up each document whole: every committed row refers to a node,
and once nothing is pending, as after a complete pass, the stores are those of
the ingests run through. -/
theorem recovered_uninterrupted (lib : Stores) (docs : List (Document × CrashPoint))
    (passes : List Pass) (hfresh : Fresh lib (docs.map Prod.fst))
    (hwhole : Along runRecovery (Whole (docs.map Prod.fst)) (interrupted lib docs) passes) :
    let s := passes.foldl runRecovery (interrupted lib docs)
    Referred (docs.map Prod.fst) s ∧
      (NothingPending (docs.map Prod.fst) s → Agrees s (uninterrupted lib docs)) ∧
      ∀ last, Whole (docs.map Prod.fst) s last → Complete (docs.map Prod.fst) s last →
        Agrees (runRecovery s last) (uninterrupted lib docs) := by
  intro s
  have hinv : Inv lib (docs.map Prod.fst) s := hwhole.invariant (Inv lib (docs.map Prod.fst))
    (fun s p hs hp => hs.runRecovery hfresh hp) (inv_interrupted hfresh)
  obtain ⟨hu, hucommitted⟩ := allCommitted_uninterrupted hfresh
  refine ⟨hinv.referred, fun hpending => ?_, fun last hlast hcomplete => ?_⟩
  · exact hinv.agrees (hinv.allCommitted hpending) hu hucommitted
  · have hafter := hinv.runRecovery hfresh hlast
    exact hafter.agrees (hafter.allCommitted (hinv.nothingPending hfresh hcomplete)) hu hucommitted

instance (docs : List Document) (s : Stores) : Decidable (NothingPending docs s) :=
  inferInstanceAs (Decidable (∀ d ∈ docs, ∀ c ∈ d.chunkIds, _))

instance (s : Stores) (d : Document) : Decidable (Landed s d) :=
  inferInstanceAs (Decidable (∃ n ∈ s.nodes.get? d.id, _))

instance (s : Stores) (h : Health) (d : Document) (group : List OrphanRecord) :
    Decidable (Sound s h d group) :=
  inferInstanceAs (Decidable (group = [] ∨ h.opens = false ∨
    if h.reads ∧ graphHoldsChunks s.nodes d.id (group.map OrphanRecord.chunkId) then Landed s d
    else if h.writes then
      group.map OrphanRecord.chunkId = d.childChunkIds ∧
        ((s.nodes.get? d.id).isSome ∨ d.metadata.get? "content_hash" = some d.id)
    else ∀ o ∈ group, o.row.attempts + 1 < maxRecoveryAttempts))

instance (docs : List Document) (s : Stores) (p : Pass) : Decidable (Whole docs s p) :=
  inferInstanceAs (Decidable (∀ d ∈ docs, _))

instance (docs : List Document) (s : Stores) (p : Pass) : Decidable (Complete docs s p) :=
  inferInstanceAs (Decidable (∀ d ∈ docs, _ ∧ ∀ c ∈ d.chunkIds, _))

/-- A note of two passages. -/
def note (id : String) (metadata : Dict String String) : Document where
  id
  domain := "notes"
  metadata
  chunks := [⟨"0", true⟩, ⟨"1", true⟩]
  stagedAt := 0
  nonempty := List.cons_ne_nil _ _
  distinct := by decide

def noStores : Stores := { nodes := .empty, rows := fun _ _ => none }

theorem fresh_noStores {docs : List Document} (h : (docs.map Document.id).Nodup) :
    Fresh noStores docs :=
  ⟨nofun, fun _ _ _ hn => absurd hn List.not_mem_nil, h⟩

/-- A pass with every store in health, shown these rows. -/
def healthyPass (order : List ChunkId) : Pass where
  now := 60
  maxAge := 60
  collections := ["notes"]
  order _ := order
  health _ := ⟨true, true, true, true, true, true⟩

/-- The first note's rows carry the hash of its text, the second's node was
written before the crash; a pass is shown each of them in turn. -/
theorem recovered_uninterrupted_notes :
    let docs := [(note "a" (Dict.empty.set "content_hash" "a"), CrashPoint.staged),
      (note "b" .empty, .written)]
    let passes := [healthyPass [⟨"a", "0"⟩, ⟨"a", "1"⟩], healthyPass [⟨"b", "1"⟩, ⟨"b", "0"⟩]]
    NothingPending (docs.map Prod.fst) (passes.foldl runRecovery (interrupted noStores docs)) ∧
      Agrees (passes.foldl runRecovery (interrupted noStores docs))
        (uninterrupted noStores docs) := by
  intro docs passes
  have hpending : NothingPending (docs.map Prod.fst)
      (passes.foldl runRecovery (interrupted noStores docs)) := by
    decide
  have hfresh : Fresh noStores (docs.map Prod.fst) := fresh_noStores (by decide)
  have hwhole : Along runRecovery (Whole (docs.map Prod.fst)) (interrupted noStores docs)
      passes := by
    decide
  exact ⟨hpending, (recovered_uninterrupted noStores docs passes hfresh hwhole).2.1 hpending⟩

/-- Two notes whose rows carry no hash: the first node is written with an empty
one, the second collides with it, and its rows are committed without a node. -/
theorem not_recovered_uninterrupted :
    ¬ ∀ (lib : Stores) (docs : List (Document × CrashPoint)) (passes : List Pass),
      Fresh lib (docs.map Prod.fst) →
      NothingPending (docs.map Prod.fst) (passes.foldl runRecovery (interrupted lib docs)) →
      Agrees (passes.foldl runRecovery (interrupted lib docs)) (uninterrupted lib docs) := by
  intro h
  have hagrees := h noStores [(note "a" .empty, .staged), (note "b" .empty, .staged)]
    [healthyPass [⟨"a", "0"⟩, ⟨"a", "1"⟩, ⟨"b", "0"⟩, ⟨"b", "1"⟩]] (fresh_noStores (by decide))
    (by decide)
  exact absurd (hagrees.nodes "b") (by decide)

end Cerid.Recovery
