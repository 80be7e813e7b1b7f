import Cerid.Memory.Stages

/-!
# A run between two writes

A run that starts where the rows are moved finds none of them, and ends with what was written with
the move.
-/

namespace Cerid.Memory

variable (st : Setting)

/-! ## The condition -/

/-- A row says already what it is told, and its parent is not moved. -/
structure Told (s : Library) (p : Id × Row) : Prop where
  artifact : p.2.metadata "artifact_id" = some (.str (String.ofList (memoryId st p)))
  conversation : ∀ cid, s.graph.conversationOf (memoryId st p) = some cid →
    p.2.metadata "conversation_id" = some (.str (String.ofList cid))
  parent : ∀ q ∈ moving st s.rows,
    p.2.metadata "parent_chunk_id" ≠ some (.str (String.ofList q.1))

/-- No new id has the old form or is the id of a row that is moved, each memory that is not
forgotten has a row that is moved or has left the old form, and the last of the rows that are
moved to an id says already what it is told. -/
structure Orderly (s : Library) : Prop where
  fresh : ∀ p ∈ moving st s.rows, oldForm (newId st p) = false
  apart : ∀ p ∈ legacyRows s.rows, isForgotten st (memoryId st p) = false →
    ∀ q ∈ moving st s.rows, newId st p ≠ q.1
  kept : ∀ p ∈ legacyRows s.rows, isForgotten st (memoryId st p) = false →
    (∃ q ∈ moving st s.rows, memoryId st q = memoryId st p) ∨
      ∃ q ∈ s.rows.items, isLegacy q = false ∧
        ∃ text, q.1 = verifiedMemoryRowId st (memoryId st p) text
  told : ∀ p ∈ moving st s.rows, lastTo (newId st) (moving st s.rows) (newId st p) = some p →
    Told st s p

variable {st} {s : Library}

/-! ## What a row is told -/

theorem rekeyed_self {mapping : List (Id × Id)} {m : Metadata}
    (h : ∀ p ∈ mapping, m "parent_chunk_id" ≠ some (.str (String.ofList p.1))) :
    rekeyed mapping m = m := by
  rw [rekeyed]
  split
  · rename_i parent hparent
    split
    · rfl
    · have hnone : lookup mapping parent.toList = none := by
        rw [lookup, Option.map_eq_none_iff, List.find?_eq_none]
        intro p hp hold
        refine h p hp ?_
        rw [hparent, of_decide_eq_true hold, String.ofList_toList]
      rw [hnone]
  · rfl

theorem rekeyed_cases (mapping : List (Id × Id)) (m : Metadata) :
    rekeyed mapping m = m ∨ ∃ v, rekeyed mapping m = Function.update m "parent_chunk_id" v := by
  rw [rekeyed]
  split
  · split
    · exact Or.inl rfl
    · split
      · exact Or.inr ⟨_, rfl⟩
      · exact Or.inl rfl
  · exact Or.inl rfl

theorem rekeyed_ne (mapping : List (Id × Id)) (m : Metadata) (field : String)
    (h : field ≠ "parent_chunk_id") : rekeyed mapping m field = m field := by
  rcases rekeyed_cases mapping m with heq | ⟨v, heq⟩
  · rw [heq]
  · rw [heq]
    exact Function.update_of_ne h _ _

/-- A parent that is moved is named by its new id. -/
theorem rekeyed_parent {mapping : List (Id × Id)} {m : Metadata} {old new : Id} (hne : old ≠ [])
    (hparent : m "parent_chunk_id" = some (.str (String.ofList old)))
    (hnew : lookup mapping old = some new) :
    rekeyed mapping m "parent_chunk_id" = some (.str (String.ofList new)) := by
  have hnonempty : String.ofList old ≠ "" := fun h => hne (String.ofList_eq_empty_iff.mp h)
  rw [rekeyed, hparent]
  dsimp only
  rw [if_neg hnonempty, String.toList_ofList, hnew]
  exact Function.update_self _ _ _

theorem taggedMeta_artifact (g : Graph) (p : Id × Row) :
    taggedMeta st g p "artifact_id" = some (.str (String.ofList (memoryId st p))) := by
  rw [taggedMeta]
  cases g.conversationOf (memoryId st p) with
  | none => exact Function.update_self _ _ _
  | some cid => exact (Function.update_of_ne (by decide) _ _).trans (Function.update_self _ _ _)

theorem taggedMeta_conversation {g : Graph} {p : Id × Row} {cid : Id}
    (h : g.conversationOf (memoryId st p) = some cid) :
    taggedMeta st g p "conversation_id" = some (.str (String.ofList cid)) := by
  rw [taggedMeta, h]
  exact Function.update_self _ _ _

theorem taggedMeta_ne {g : Graph} {p : Id × Row} {field : String} (hartifact : field ≠ "artifact_id")
    (hconversation : field ≠ "conversation_id") :
    taggedMeta st g p field = p.2.metadata field := by
  rw [taggedMeta]
  cases g.conversationOf (memoryId st p) with
  | none => exact Function.update_of_ne hartifact _ _
  | some cid =>
    exact (Function.update_of_ne hconversation _ _).trans (Function.update_of_ne hartifact _ _)

/-- What is written with the move is what is told at last, exactly if the row says it already. -/
theorem movedRow_eq_iff (p : Id × Row) :
    movedRow st s.rows p = toldRow st s.graph p ↔ Told st s p := by
  have hmeta : movedRow st s.rows p = toldRow st s.graph p ↔
      rekeyed (moves st s.rows) p.2.metadata = taggedMeta st s.graph p := by
    rw [movedRow, toldRow, Row.mk.injEq]
    exact ⟨fun h => h.2.1, fun h => ⟨rfl, h, rfl⟩⟩
  rw [hmeta]
  constructor
  · intro heq
    refine ⟨?_, fun cid hcid => ?_, fun q hq hparent => ?_⟩
    · have hsame := rekeyed_ne (moves st s.rows) p.2.metadata "artifact_id" (by decide)
      rw [← hsame, heq, taggedMeta_artifact]
    · have hsame := rekeyed_ne (moves st s.rows) p.2.metadata "conversation_id" (by decide)
      rw [← hsame, heq, taggedMeta_conversation hcid]
    · -- A parent that is moved would be told its old id again.
      have hold : rekeyed (moves st s.rows) p.2.metadata "parent_chunk_id" =
          some (.str (String.ofList q.1)) := by
        rw [heq, taggedMeta_ne (by decide) (by decide), hparent]
      have hne : q.1 ≠ [] := by
        intro hnil
        have hform := oldForm_of_isLegacy (mem_legacyRows.mp (moving_fresh hq).2.2).2
        rw [hnil] at hform
        exact absurd hform (by decide)
      have hnew : lookup (moves st s.rows) q.1 = some (newId st q) :=
        lookup_map (nodup_moving s.rows) (newId st) hq
      rw [rekeyed_parent hne hparent hnew, Option.some.injEq, MetaValue.str.injEq,
        String.ofList_inj] at hold
      exact (moving_fresh hq).1 (hold ▸ mem_keys (moving_fresh hq).2.2)
  · intro htold
    have hself : rekeyed (moves st s.rows) p.2.metadata = p.2.metadata := by
      refine rekeyed_self fun pair hpair => ?_
      obtain ⟨q, hq, rfl⟩ := List.mem_map.mp hpair
      exact htold.parent q hq
    have hartifact : Function.update p.2.metadata "artifact_id"
        (some (.str (String.ofList (memoryId st p)))) = p.2.metadata := by
      rw [← htold.artifact]
      exact Function.update_eq_self _ _
    rw [hself, taggedMeta, hartifact]
    cases hcid : s.graph.conversationOf (memoryId st p) with
    | none => rfl
    | some cid =>
      dsimp only
      rw [← htold.conversation cid hcid]
      exact (Function.update_eq_self _ _).symm

/-! ## Running again -/

theorem migrate_rows_of_graphed {t : Library} (hgraph : graphed t = t) (h : ¬Refused st t) :
    migrateMemoryIdentity st t = { t with rows := told st t } := by
  rw [migrate_of_not_refused h, hgraph]

/-- What a run that moves nothing leaves. -/
theorem get?_told_of_none {t : Library} (hmoving : moving st t.rows = []) (id : Id) :
    (told st t).get? id =
      if id ∈ (legacyRows t.rows).map Prod.fst then none else t.rows.get? id := by
  rw [get?_told, hmoving]
  rfl

theorem not_refused_of_sublist {t : Library} (h : ¬Refused st s)
    (hsub : (legacyRows t.rows).Sublist (legacyRows s.rows)) : ¬Refused st t := by
  rw [Refused, not_and, not_not] at h ⊢
  exact fun hdistinct => (h hdistinct).sublist (hsub.map (newId st))

/-- A library in which the rows are moved, and those with the ids `gone` are deleted. -/
structure Between (st : Setting) (s : Library) (X : Dict Id Row) (gone : List Id)
    (f : Id × Row → Row) : Prop where
  get : ∀ id, X.get? id =
    match lastTo (newId st) (moving st s.rows) id with
    | some p => some (f p)
    | none => if id ∈ gone then none else s.rows.get? id
  old : ∀ id ∈ gone, id ∈ (legacyRows s.rows).map Prod.fst
  legacy : legacyRows X = (legacyRows s.rows).filter fun p => decide (p.1 ∉ gone)
  settled : ∀ p ∈ legacyRows s.rows, p.1 ∉ gone → isForgotten st (memoryId st p) = false →
    newId st p ∉ gone

section Between

variable {X : Dict Id Row} {gone : List Id} {f : Id × Row → Row}

theorem Between.moving_nil (h : Between st s X gone f) : moving st X = [] := by
  refine List.filter_eq_nil_iff.mpr fun p hp htest => ?_
  rw [Bool.and_eq_true, decide_eq_true_iff, Bool.not_eq_true'] at htest
  rw [h.legacy, List.mem_filter, decide_eq_true_iff] at hp
  refine htest.1 ((Dict.mem_keys_iff _ _).mpr ?_)
  rw [h.get]
  by_cases hkeys : newId st p ∈ s.rows.keys
  · -- The row that holds the new id is still there.
    rw [lastTo_moving_none hkeys]
    dsimp only
    rw [if_neg (h.settled p hp.1 hp.2 htest.2)]
    exact (Dict.mem_keys_iff _ _).mp hkeys
  · have hmoving : p ∈ moving st s.rows := by
      refine List.mem_filter.mpr ⟨hp.1, ?_⟩
      rw [Bool.and_eq_true, decide_eq_true_iff, Bool.not_eq_true']
      exact ⟨hkeys, htest.2⟩
    obtain ⟨q, hq, -⟩ := exists_lastTo (f := newId st) hmoving
    rw [hq]
    exact ⟨f q, rfl⟩

/-- The run ends as it would have, if what was written is what is told at last. -/
theorem Between.get?_told (h : Between st s X gone f)
    (hfresh : ∀ p ∈ moving st s.rows, oldForm (newId st p) = false) (id : Id) :
    (told st { s with rows := X }).get? id =
      match lastTo (newId st) (moving st s.rows) id with
      | some p => some (f p)
      | none => if id ∈ (legacyRows s.rows).map Prod.fst then none else s.rows.get? id := by
  have hids : id ∈ (legacyRows X).map Prod.fst ↔
      id ∈ (legacyRows s.rows).map Prod.fst ∧ id ∉ gone := by
    rw [h.legacy]
    constructor
    · intro hmem
      obtain ⟨p, hp, rfl⟩ := List.mem_map.mp hmem
      rw [List.mem_filter, decide_eq_true_iff] at hp
      exact ⟨List.mem_map_of_mem hp.1, hp.2⟩
    · rintro ⟨hmem, hgone⟩
      obtain ⟨p, hp, rfl⟩ := List.mem_map.mp hmem
      exact List.mem_map_of_mem (List.mem_filter.mpr ⟨hp, decide_eq_true hgone⟩)
  rw [get?_told_of_none (t := { s with rows := X }) h.moving_nil]
  refine (if_congr hids rfl (h.get id)).trans ?_
  cases hlast : lastTo (newId st) (moving st s.rows) id with
  | some p =>
    -- The new id has left the old form.
    refine if_neg fun hmem => ?_
    obtain ⟨hp, rfl⟩ := lastTo_some hlast
    obtain ⟨q, hq, hid⟩ := List.mem_map.mp hmem.1
    have hform := oldForm_of_isLegacy (mem_legacyRows.mp hq).2
    rw [hid, hfresh p hp] at hform
    exact Bool.false_ne_true hform
  | none =>
    dsimp only
    by_cases hold : id ∈ (legacyRows s.rows).map Prod.fst
    · rw [if_pos hold]
      by_cases hgone : id ∈ gone
      · rw [if_neg fun h => h.2 hgone, if_pos hgone]
      · rw [if_pos ⟨hold, hgone⟩]
    · rw [if_neg hold, if_neg fun h => hold h.1, if_neg fun hgone => hold (h.old id hgone)]

end Between

/-- Nothing has the old form any more. -/
theorem between_of_nil {X : Dict Id Row} {f : Id × Row → Row} (hnil : legacyRows X = [])
    (hget : ∀ id, X.get? id =
      match lastTo (newId st) (moving st s.rows) id with
      | some p => some (f p)
      | none => if id ∈ (legacyRows s.rows).map Prod.fst then none else s.rows.get? id) :
    Between st s X ((legacyRows s.rows).map Prod.fst) f where
  get := hget
  old := fun _ h => h
  legacy := by
    rw [hnil]
    refine (List.filter_eq_nil_iff.mpr fun p hp htest => ?_).symm
    exact of_decide_eq_true htest (List.mem_map_of_mem hp)
  settled := fun p hp hno => absurd (List.mem_map_of_mem hp) hno

/-! ## The stages -/

section Stages

variable (hfresh : ∀ p ∈ moving st s.rows, oldForm (newId st p) = false)

include hfresh

theorem legacyRows_upserted : legacyRows (upserted st s) = legacyRows s.rows :=
  legacyRows_setAll s.rows (newId st) (movedRow st s.rows) _ hfresh

theorem legacyRows_cleared : legacyRows (cleared st s) =
    (legacyRows s.rows).filter fun p => decide (p.1 ∉ (moving st s.rows).map Prod.fst) := by
  rw [cleared, legacyRows_eraseAll, legacyRows_upserted hfresh]

theorem legacyRows_swept : legacyRows (swept st s) = [] := by
  rw [swept, legacyRows_eraseAll, legacyRows_cleared hfresh, List.filter_filter,
    List.filter_eq_nil_iff]
  intro p hp htest
  rw [Bool.and_eq_true, decide_eq_true_iff, decide_eq_true_iff] at htest
  rcases mem_moving_or_stale.mp hp with hmoving | hstale
  · exact htest.2 (List.mem_map_of_mem hmoving)
  · exact htest.1 (List.mem_map_of_mem hstale)

theorem legacyRows_told : legacyRows (told st s) = [] := by
  rw [told, legacyRows_setMetas, legacyRows_swept hfresh]
  intro q hq
  obtain ⟨p, hp, rfl⟩ := List.mem_map.mp hq
  exact hfresh p hp

theorem between_upserted : Between st s (upserted st s) [] (movedRow st s.rows) where
  get := fun id => by
    rw [get?_upserted]
    cases lastTo (newId st) (moving st s.rows) id with
    | some p => rfl
    | none => exact (if_neg List.not_mem_nil).symm
  old := fun _ h => absurd h List.not_mem_nil
  legacy := by
    rw [legacyRows_upserted hfresh]
    exact (List.filter_eq_self.mpr fun p _ => decide_eq_true List.not_mem_nil).symm
  settled := fun _ _ _ _ => List.not_mem_nil

theorem between_cleared (hapart : ∀ p ∈ legacyRows s.rows, isForgotten st (memoryId st p) = false →
    ∀ q ∈ moving st s.rows, newId st p ≠ q.1) :
    Between st s (cleared st s) ((moving st s.rows).map Prod.fst) (movedRow st s.rows) where
  get := get?_cleared
  old := fun id h => by
    obtain ⟨p, hp, rfl⟩ := List.mem_map.mp h
    exact List.mem_map_of_mem (moving_fresh hp).2.2
  legacy := legacyRows_cleared hfresh
  settled := fun p hp _ hkeeps hmem => by
    obtain ⟨q, hq, hid⟩ := List.mem_map.mp hmem
    exact hapart p hp hkeeps q hq hid.symm

end Stages

end Cerid.Memory
