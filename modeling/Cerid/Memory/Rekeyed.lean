import Cerid.Memory.Identity

/-!
# The rows of a migration

What each write makes of the rows, row by row, and which of them still have the old form of an id.
-/

namespace Cerid.Memory

open Ingest.Chunking (ChunkIdAssigner)

variable {st : Setting}

/-! ## Ids -/

theorem verifiedMemoryRowId_eq (st : Setting) (memory text : List Char) :
    ∃ digest, digest.length = 16 ∧ verifiedMemoryRowId st memory text = memory ++ '_' :: digest :=
  ⟨_, st.h16_length _, rfl⟩

/-- The id of a row tells its memory. -/
theorem verifiedMemoryRowId_inj {memory memory' text text' : List Char}
    (h : verifiedMemoryRowId st memory text = verifiedMemoryRowId st memory' text') :
    memory = memory' := by
  obtain ⟨digest, hlength, hid⟩ := verifiedMemoryRowId_eq st memory text
  obtain ⟨digest', hlength', hid'⟩ := verifiedMemoryRowId_eq st memory' text'
  rw [hid, hid'] at h
  exact (List.append_inj' h (by rw [List.length_cons, List.length_cons, hlength, hlength'])).1

theorem memoryId_of_newId {p q : Id × Row} (h : newId st p = newId st q) :
    memoryId st p = memoryId st q := verifiedMemoryRowId_inj h

/-! ## The rows with the old form -/

theorem mem_legacyRows {rows : Dict Id Row} {p : Id × Row} :
    p ∈ legacyRows rows ↔ rows.get? p.1 = some p.2 ∧ isLegacy p = true := by
  rw [legacyRows, List.mem_filter]
  exact and_congr_left fun _ => Dict.mem_items_iff rows p.1 p.2

theorem oldForm_of_isLegacy {p : Id × Row} (h : isLegacy p = true) : oldForm p.1 = true := by
  rw [isLegacy, Bool.and_eq_true] at h
  exact h.2

theorem isLegacy_of_not_oldForm {p : Id × Row} (h : oldForm p.1 = false) : isLegacy p = false := by
  rw [isLegacy, h, Bool.and_false]

theorem filter_setItem (items : List (Id × Row)) {id : Id} (h : oldForm id = false) (row : Row) :
    (setItem items id row).filter isLegacy = items.filter isLegacy := by
  have hno : ∀ row, isLegacy (id, row) = false := fun row => isLegacy_of_not_oldForm h
  induction items with
  | nil => rw [setItem, List.filter_cons, hno]; rfl
  | cons p rest ih =>
    rw [setItem]
    split
    · rename_i hid
      obtain ⟨id', row'⟩ := p
      cases hid
      rw [List.filter_cons, List.filter_cons, hno, hno]
      rfl
    · rw [List.filter_cons, List.filter_cons, ih]

theorem legacyRows_set (rows : Dict Id Row) {id : Id} (h : oldForm id = false) (row : Row) :
    legacyRows (rows.set id row) = legacyRows rows := filter_setItem rows.items h row

theorem legacyRows_setAll {α : Type} (rows : Dict Id Row) (f : α → Id) (g : α → Row) (xs : List α)
    (h : ∀ x ∈ xs, oldForm (f x) = false) :
    legacyRows (xs.foldl (fun acc x => acc.set (f x) (g x)) rows) = legacyRows rows := by
  induction xs generalizing rows with
  | nil => rfl
  | cons x rest ih =>
    rw [List.foldl_cons, ih _ fun y hy => h y (List.mem_cons_of_mem x hy),
      legacyRows_set rows (h x List.mem_cons_self)]

theorem legacyRows_setMeta (rows : Dict Id Row) (p : Id × Metadata) (h : oldForm p.1 = false) :
    legacyRows (setMeta rows p) = legacyRows rows := by
  rw [setMeta]
  split
  · exact legacyRows_set rows h _
  · rfl

theorem legacyRows_setMetas (rows : Dict Id Row) (ps : List (Id × Metadata))
    (h : ∀ p ∈ ps, oldForm p.1 = false) :
    legacyRows (ps.foldl setMeta rows) = legacyRows rows := by
  induction ps generalizing rows with
  | nil => rfl
  | cons p rest ih =>
    rw [List.foldl_cons, ih _ fun q hq => h q (List.mem_cons_of_mem p hq),
      legacyRows_setMeta rows p (h p List.mem_cons_self)]

theorem legacyRows_eraseAll (rows : Dict Id Row) (ids : List Id) :
    legacyRows (ids.foldl Dict.erase rows) = (legacyRows rows).filter fun p => decide (p.1 ∉ ids) := by
  induction ids generalizing rows with
  | nil =>
    rw [List.foldl_nil]
    exact (List.filter_eq_self.mpr fun p _ => decide_eq_true List.not_mem_nil).symm
  | cons id rest ih =>
    have herase : legacyRows (rows.erase id) = (legacyRows rows).filter fun p => decide (p.1 ≠ id) := by
      rw [legacyRows, legacyRows, List.filter_comm]
      rfl
    rw [List.foldl_cons, ih, herase, List.filter_filter]
    refine List.filter_congr fun p _ => ?_
    rw [← Bool.decide_and]
    refine decide_eq_decide.mpr ?_
    rw [List.mem_cons, not_or]
    exact and_comm

/-! ## The rows, one by one -/

theorem get?_eraseAll (rows : Dict Id Row) (ids : List Id) (id : Id) :
    (ids.foldl Dict.erase rows).get? id = if id ∈ ids then none else rows.get? id := by
  induction ids generalizing rows with
  | nil => rfl
  | cons id' rest ih =>
    rw [List.foldl_cons, ih, Dict.get?_erase]
    by_cases h : id ∈ rest
    · rw [if_pos h, if_pos (List.mem_cons_of_mem id' h)]
    · rw [if_neg h]
      by_cases hid : id = id'
      · rw [if_pos hid, if_pos (List.mem_cons.mpr (Or.inl hid))]
      · rw [if_neg hid, if_neg fun hmem => (List.mem_cons.mp hmem).elim hid h]

/-- The last of the rows that are moved to an id. -/
def lastTo (f : Id × Row → Id) (ps : List (Id × Row)) (id : Id) : Option (Id × Row) :=
  ps.reverse.find? fun p => f p = id

theorem lastTo_append (f : Id × Row → Id) (ps : List (Id × Row)) (p : Id × Row) (id : Id) :
    lastTo f (ps ++ [p]) id = if f p = id then some p else lastTo f ps id := by
  rw [lastTo, List.reverse_append]
  show List.find? _ (p :: ps.reverse) = _
  rw [List.find?_cons]
  by_cases h : f p = id
  · rw [if_pos h, decide_eq_true h]
  · rw [if_neg h, decide_eq_false h]
    rfl

theorem lastTo_some {f : Id × Row → Id} {ps : List (Id × Row)} {id : Id} {p : Id × Row}
    (h : lastTo f ps id = some p) : p ∈ ps ∧ f p = id :=
  ⟨List.mem_reverse.mp (List.mem_of_find?_eq_some h),
    of_decide_eq_true (List.find?_some (p := fun p => decide (f p = id)) h)⟩

theorem lastTo_none {f : Id × Row → Id} {ps : List (Id × Row)} {id : Id}
    (h : lastTo f ps id = none) {p : Id × Row} (hp : p ∈ ps) : f p ≠ id := by
  intro hid
  have hno := List.find?_eq_none.mp h p (List.mem_reverse.mpr hp)
  exact hno (decide_eq_true hid)

theorem exists_lastTo {f : Id × Row → Id} {ps : List (Id × Row)} {p : Id × Row} (hp : p ∈ ps) :
    ∃ q, lastTo f ps (f p) = some q ∧ q ∈ ps ∧ f q = f p := by
  cases h : lastTo f ps (f p) with
  | none => exact absurd rfl (lastTo_none h hp)
  | some q => exact ⟨q, rfl, lastTo_some h⟩

theorem get?_setAll (rows : Dict Id Row) (f : Id × Row → Id) (g : Id × Row → Row)
    (ps : List (Id × Row)) (id : Id) :
    (ps.foldl (fun acc p => acc.set (f p) (g p)) rows).get? id =
      match lastTo f ps id with
      | some p => some (g p)
      | none => rows.get? id := by
  induction ps using List.reverseRecOn with
  | nil => rfl
  | append_singleton ps p ih =>
    rw [List.foldl_append, List.foldl_cons, List.foldl_nil, Dict.get?_set, ih, lastTo_append]
    by_cases h : f p = id
    · rw [if_pos h.symm, if_pos h]
    · rw [if_neg (fun hid => h hid.symm), if_neg h]

theorem get?_setMeta (rows : Dict Id Row) (p : Id × Metadata) (id : Id) :
    (setMeta rows p).get? id =
      if id = p.1 then (rows.get? id).map fun row => { row with metadata := p.2 }
      else rows.get? id := by
  rw [setMeta]
  cases h : rows.get? p.1 with
  | none =>
    by_cases hid : id = p.1
    · rw [if_pos hid, hid, h]
      rfl
    · rw [if_neg hid]
  | some row =>
    dsimp only
    rw [Dict.get?_set]
    by_cases hid : id = p.1
    · rw [if_pos hid, if_pos hid, hid, h]
      rfl
    · rw [if_neg hid, if_neg hid]

theorem get?_setMetas (rows : Dict Id Row) (f : Id × Row → Id) (g : Id × Row → Metadata)
    (ps : List (Id × Row)) (id : Id) :
    ((ps.map fun p => (f p, g p)).foldl setMeta rows).get? id =
      match lastTo f ps id with
      | some p => (rows.get? id).map fun row => { row with metadata := g p }
      | none => rows.get? id := by
  induction ps using List.reverseRecOn with
  | nil => rfl
  | append_singleton ps p ih =>
    rw [List.map_append, List.foldl_append, List.map_cons, List.map_nil, List.foldl_cons,
      List.foldl_nil, get?_setMeta, ih, lastTo_append]
    by_cases h : f p = id
    · rw [if_pos h.symm, if_pos h]
      cases lastTo f ps id with
      | none => rfl
      | some q =>
        dsimp only
        rw [Option.map_map]
        rfl
    · rw [if_neg (fun hid => h hid.symm), if_neg h]

end Cerid.Memory
