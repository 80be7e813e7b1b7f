import Cerid.Memory.Between

/-!
# A migration that stops and runs again

The rows that a migration moves have left the old form before they are told their memory and
conversation, so what a crash leaves between the two is not found again.  The migration is whole
exactly if there is nothing to tell them, and the ids keep the two forms apart.
-/

namespace Cerid.Memory

variable {st : Setting} {s : Library}

/-! ## Whole runs -/

theorem get?_migrate (h : ¬Refused st s) (id : Id) :
    (migrateMemoryIdentity st s).rows.get? id =
      match lastTo (newId st) (moving st s.rows) id with
      | some p => some (toldRow st (graphed s).graph p)
      | none => if id ∈ (legacyRows s.rows).map Prod.fst then none else s.rows.get? id := by
  rw [migrate_of_not_refused h]
  exact get?_told (s := graphed s) id

theorem graphed_with_rows (s : Library) (X : Dict Id Row) :
    graphed { graphed s with rows := X } = { graphed s with rows := X } := graphed_of_graph rfl

/-- A run from where the rows are moved. -/
theorem migrate_between {X : Dict Id Row} {gone : List Id} {f : Id × Row → Row} (h : ¬Refused st s)
    (hX : Between st (graphed s) X gone f) :
    migrateMemoryIdentity st { graphed s with rows := X } =
      { graphed s with rows := told st { graphed s with rows := X } } := by
  refine migrate_rows_of_graphed (graphed_with_rows s X) ?_
  refine not_refused_of_sublist h ?_
  show (legacyRows X).Sublist _
  rw [hX.legacy]
  exact List.filter_sublist

theorem same_of_between {X : Dict Id Row} {gone : List Id} {f : Id × Row → Row} (h : ¬Refused st s)
    (hfresh : ∀ p ∈ moving st s.rows, oldForm (newId st p) = false)
    (hX : Between st (graphed s) X gone f)
    (hf : ∀ p ∈ moving st s.rows, lastTo (newId st) (moving st s.rows) (newId st p) = some p →
      f p = toldRow st (graphed s).graph p) :
    Same (migrateMemoryIdentity st { graphed s with rows := X }) (migrateMemoryIdentity st s) := by
  rw [migrate_between h hX]
  refine ⟨by rw [migrate_of_not_refused h], fun id => ?_⟩
  refine (hX.get?_told hfresh id).trans ((get?_migrate h id).symm ▸ ?_)
  show (match lastTo (newId st) (moving st s.rows) id with
    | some p => some (f p)
    | none => _) = _
  cases hlast : lastTo (newId st) (moving st s.rows) id with
  | none => rfl
  | some p =>
    obtain ⟨hp, rfl⟩ := lastTo_some hlast
    exact congrArg some (hf p hp hlast)

theorem Same.rfl' (s : Library) : Same s s := ⟨rfl, fun _ => rfl⟩

theorem same_of_crash (h : ¬Refused st s) (ho : Orderly st (graphed s)) (n : Nat) :
    Same (migrateMemoryIdentity st (crash st s n)) (migrateMemoryIdentity st s) := by
  have hmoved : ∀ p ∈ moving st s.rows,
      lastTo (newId st) (moving st s.rows) (newId st p) = some p →
        movedRow st s.rows p = toldRow st (graphed s).graph p :=
    fun p hp hlast => (movedRow_eq_iff (s := graphed s) p).mpr (ho.told p hp hlast)
  have hswept := between_of_nil (s := graphed s) (legacyRows_swept ho.fresh) get?_swept
  have htold := between_of_nil (s := graphed s) (legacyRows_told ho.fresh) get?_told
  rcases crash_cases h n with hgraph | ⟨rows, hrows, hcrash⟩
  · rw [migrate_eq, hgraph, ← migrate_eq]
    exact Same.rfl' _
  · rw [hcrash]
    simp only [List.mem_cons, List.not_mem_nil, or_false] at hrows
    rcases hrows with rfl | rfl | rfl | rfl
    · exact same_of_between h ho.fresh (between_upserted ho.fresh) hmoved
    · exact same_of_between h ho.fresh (between_cleared ho.fresh ho.apart) hmoved
    · exact same_of_between h ho.fresh hswept hmoved
    · exact same_of_between h ho.fresh htold fun _ _ _ => rfl

theorem told_all (h : ¬Refused st s) {p : Id × Row} (hp : p ∈ moving st s.rows) :
    ∃ row, (migrateMemoryIdentity st s).rows.get? (newId st p) = some row ∧
      row.metadata "artifact_id" = some (.str (String.ofList (memoryId st p))) ∧
      ∀ cid, (graphed s).graph.conversationOf (memoryId st p) = some cid →
        row.metadata "conversation_id" = some (.str (String.ofList cid)) := by
  obtain ⟨q, hlast, -, hid⟩ := exists_lastTo (f := newId st) hp
  rw [get?_migrate h, hlast, ← memoryId_of_newId hid]
  exact ⟨_, rfl, taggedMeta_artifact _ q, fun cid hcid => taggedMeta_conversation hcid⟩

/-- A row that a run leaves is a moved one or one that had left the old form. -/
theorem left_cases (h : ¬Refused st s) {id : Id} {row : Row}
    (hrow : (migrateMemoryIdentity st s).rows.get? id = some row) :
    (∃ p ∈ moving st s.rows, newId st p = id) ∨
      (s.rows.get? id = some row ∧ isLegacy (id, row) = false) := by
  rw [get?_migrate h] at hrow
  cases hlast : lastTo (newId st) (moving st s.rows) id with
  | some p => exact Or.inl ⟨p, lastTo_some hlast⟩
  | none =>
    rw [hlast] at hrow
    dsimp only at hrow
    split at hrow
    · cases hrow
    · rename_i hold
      refine Or.inr ⟨hrow, ?_⟩
      rw [← Bool.not_eq_true]
      exact fun hlegacy => hold (List.mem_map_of_mem (mem_legacyRows.mpr ⟨hrow, hlegacy⟩))

/-- What a run leaves has left the old form. -/
theorem left_not_legacy (h : ¬Refused st s)
    (hfresh : ∀ p ∈ moving st s.rows, oldForm (newId st p) = false) {id : Id} {row : Row}
    (hrow : (migrateMemoryIdentity st s).rows.get? id = some row) :
    isLegacy (id, row) = false := by
  rcases left_cases h hrow with ⟨p, hp, rfl⟩ | ⟨-, hno⟩
  · exact isLegacy_of_not_oldForm (hfresh p hp)
  · exact hno

theorem rowOf_of_not_legacy {memory : Id} {p : Id × Row} (h : isLegacy p = false) :
    RowOf st memory p ↔ ∃ text, p.1 = verifiedMemoryRowId st memory text := by
  rw [RowOf, if_neg (by rw [h]; exact Bool.false_ne_true)]

theorem recalls_kept (h : ¬Refused st s) (ho : Orderly st (graphed s)) {memory : Id}
    (hkeeps : isForgotten st memory = false) (hrecalls : Recalls st s memory) :
    Recalls st (migrateMemoryIdentity st s) memory := by
  have hmoved : ∀ q ∈ moving st s.rows, memoryId st q = memory →
      Recalls st (migrateMemoryIdentity st s) memory := by
    intro q hq hmemory
    obtain ⟨row, hrow, -⟩ := told_all h hq
    refine ⟨_, row, hrow, ?_⟩
    rw [rowOf_of_not_legacy (left_not_legacy h ho.fresh hrow), ← hmemory]
    exact ⟨_, rfl⟩
  have hheld : ∀ id row, s.rows.get? id = some row → isLegacy (id, row) = false →
      (∃ text, id = verifiedMemoryRowId st memory text) →
        Recalls st (migrateMemoryIdentity st s) memory := by
    intro id row hrow hno hid
    have hnone := @lastTo_moving_none st _ _ ((Dict.mem_keys_iff _ _).mpr ⟨row, hrow⟩)
    have hold : id ∉ (legacyRows s.rows).map Prod.fst := by
      intro hmem
      obtain ⟨p, hp, rfl⟩ := List.mem_map.mp hmem
      obtain ⟨hget, hlegacy⟩ := mem_legacyRows.mp hp
      cases hget.symm.trans hrow
      exact Bool.false_ne_true (hno.symm.trans hlegacy)
    refine ⟨id, row, ?_, (rowOf_of_not_legacy hno).mpr hid⟩
    rw [get?_migrate h, hnone]
    exact (if_neg hold).trans hrow
  obtain ⟨id, row, hrow, hrowOf⟩ := hrecalls
  cases hlegacy : isLegacy (id, row) with
  | false => exact hheld id row hrow hlegacy ((rowOf_of_not_legacy hlegacy).mp hrowOf)
  | true =>
    rw [RowOf, if_pos hlegacy] at hrowOf
    have hmem : (id, row) ∈ legacyRows s.rows := mem_legacyRows.mpr ⟨hrow, hlegacy⟩
    rcases ho.kept _ hmem (hrowOf ▸ hkeeps) with ⟨q, hq, hmemory⟩ | ⟨q, hq, hno, hid⟩
    · exact hmoved q hq (hmemory.trans hrowOf)
    · exact hheld q.1 q.2 ((Dict.mem_items_iff _ _ _).mp hq) hno (hrowOf ▸ hid)

theorem recalls_not_gained (h : ¬Refused st s)
    (hfresh : ∀ p ∈ moving st s.rows, oldForm (newId st p) = false) {memory : Id}
    (hforgotten : isForgotten st memory = true)
    (hrecalls : Recalls st (migrateMemoryIdentity st s) memory) : Recalls st s memory := by
  obtain ⟨id, row, hrow, hrowOf⟩ := hrecalls
  have hid := (rowOf_of_not_legacy (left_not_legacy h hfresh hrow)).mp hrowOf
  rcases left_cases h hrow with ⟨p, hp, hnew⟩ | ⟨hget, hno⟩
  · obtain ⟨text, htext⟩ := hid
    have hmemory : memoryId st p = memory := verifiedMemoryRowId_inj (hnew.trans htext)
    have hkeeps := (moving_fresh hp).2.1
    rw [hmemory, hforgotten] at hkeeps
    cases hkeeps
  · exact ⟨id, row, hget, (rowOf_of_not_legacy hno).mpr hid⟩

theorem whole_of_orderly (h : ¬Refused st s) (ho : Orderly st (graphed s)) : Whole st s where
  rerun := same_of_crash h ho
  again := by
    have hall : migrateMemoryIdentity st s = { graphed s with rows := told st (graphed s) } :=
      migrate_of_not_refused h
    have hsame := same_of_between h ho.fresh
      (between_of_nil (s := graphed s) (legacyRows_told ho.fresh) get?_told) fun _ _ _ => rfl
    rw [← hall] at hsame
    exact hsame
  tagged := fun p hp => by
    rw [movedRows, if_neg h] at hp
    exact told_all h hp
  kept := fun _ hkeeps => recalls_kept h ho hkeeps
  notGained := fun _ hforgotten hno hyes => hno (recalls_not_gained h ho.fresh hforgotten hyes)

/-- A refused run writes the graph only. -/
theorem whole_of_refused (h : Refused st s) : Whole st s := by
  have hall := migrate_of_refused h
  have hnone : rowWrites st (graphed s) = [] := if_pos h
  refine ⟨fun n => ?_, ?_, fun p hp => ?_, fun memory _ hrecalls => ?_, fun memory _ hno hyes => ?_⟩
  · have hgraph : graphed (crash st s n) = graphed s := by
      match n with
      | 0 => rfl
      | 1 => exact graphed_artifacts s
      | n + 2 =>
        rw [crash_graph, hnone, List.take_nil]
        exact graphed_twice s
    rw [migrate_eq, hgraph, ← migrate_eq]
    exact Same.rfl' _
  · rw [hall, migrate_eq, graphed_twice, ← migrate_eq, hall]
    exact Same.rfl' _
  · rw [movedRows, if_pos h] at hp
    exact absurd hp List.not_mem_nil
  · rw [hall]
    exact hrecalls
  · rw [hall] at hyes
    exact hno hyes

/-! ## What a whole run needs -/

theorem memory_ne_nil {memory text : Id} (h : oldForm (verifiedMemoryRowId st memory text) = true) :
    memory ≠ [] := by
  rintro rfl
  obtain ⟨digest, -, hid⟩ := verifiedMemoryRowId_eq st [] text
  rw [hid] at h
  exact Bool.false_ne_true h

theorem newId_toldRow {g : Graph} {p : Id × Row} (h : oldForm (newId st p) = true) :
    newId st (newId st p, toldRow st g p) = newId st p := by
  have hmemory : memoryId st (newId st p, toldRow st g p) = memoryId st p := by
    have htruthy : truthy (.str (String.ofList (memoryId st p))) = true :=
      decide_eq_true fun hempty => memory_ne_nil h (String.ofList_eq_empty_iff.mp hempty)
    have hmeta : (toldRow st g p).metadata "artifact_id" =
        some (.str (String.ofList (memoryId st p))) := taggedMeta_artifact ..
    rw [memoryId, hmeta, Option.filter_some, if_pos htruthy]
    exact String.toList_ofList
  rw [newId, hmemory]
  rfl

theorem isLegacy_toldRow {g : Graph} {p : Id × Row} (hp : isLegacy p = true)
    (h : oldForm (newId st p) = true) : isLegacy (newId st p, toldRow st g p) = true := by
  rw [isLegacy, Bool.and_eq_true] at hp ⊢
  refine ⟨decide_eq_true ?_, h⟩
  have hsource : taggedMeta st g p "memory_source_type" = p.2.metadata "memory_source_type" :=
    taggedMeta_ne (by decide) (by decide)
  exact hsource.trans (of_decide_eq_true hp.1)

/-- A row that is moved to an id of the old form is deleted by the next run. -/
theorem fresh_of_whole (h : ¬Refused st s) (hw : Whole st s) :
    ∀ p ∈ moving st s.rows, oldForm (newId st p) = false := by
  intro p hp
  rw [← Bool.not_eq_true]
  intro hform
  obtain ⟨q, hlast, hq, hid⟩ := exists_lastTo (f := newId st) hp
  have hall : migrateMemoryIdentity st s = { graphed s with rows := told st (graphed s) } :=
    migrate_of_not_refused h
  have hrow : (migrateMemoryIdentity st s).rows.get? (newId st p) =
      some (toldRow st (graphed s).graph q) := by
    rw [get?_migrate h, hlast]
  have hself : ∀ r ∈ legacyRows (migrateMemoryIdentity st s).rows, newId st r = r.1 := by
    intro r hr
    obtain ⟨hget, hlegacy⟩ := mem_legacyRows.mp hr
    rcases left_cases h hget with ⟨p', hp', hp'id⟩ | ⟨-, hno⟩
    · obtain ⟨q', hlast', -, hid'⟩ := exists_lastTo (f := newId st) hp'
      have hnew : newId st q' = r.1 := hid'.trans hp'id
      rw [hp'id] at hlast'
      rw [get?_migrate h, hlast'] at hget
      have hr' : r = (newId st q', toldRow st (graphed s).graph q') :=
        Prod.ext hnew.symm (Option.some.inj hget).symm
      have hform' := oldForm_of_isLegacy hlegacy
      rw [← hnew] at hform'
      rw [hr']
      exact newId_toldRow hform'
    · exact absurd (hno.symm.trans hlegacy) Bool.false_ne_true
  have hgraph : graphed (migrateMemoryIdentity st s) = migrateMemoryIdentity st s := by
    rw [hall]
    exact graphed_with_rows s _
  have hnot : ¬Refused st (migrateMemoryIdentity st s) := by
    rintro ⟨-, hdup⟩
    refine hdup ?_
    rw [List.map_congr_left hself]
    exact (migrateMemoryIdentity st s).rows.nodup.sublist (List.filter_sublist.map Prod.fst)
  have hnone : moving st (migrateMemoryIdentity st s).rows = [] := by
    refine List.filter_eq_nil_iff.mpr fun r hr htest => ?_
    rw [Bool.and_eq_true, decide_eq_true_iff, hself r hr] at htest
    exact htest.1 (mem_keys hr)
  have hmem : newId st p ∈ (legacyRows (migrateMemoryIdentity st s).rows).map Prod.fst := by
    have hlegacy := isLegacy_toldRow (g := (graphed s).graph)
      (mem_legacyRows.mp (moving_fresh hq).2.2).2 (hid ▸ hform)
    rw [hid] at hlegacy
    exact List.mem_map_of_mem (f := Prod.fst) (mem_legacyRows.mpr ⟨hrow, hlegacy⟩)
  have hagain := hw.again.2 (newId st p)
  rw [migrate_rows_of_graphed hgraph hnot] at hagain
  have hgone := get?_told_of_none hnone (newId st p)
  rw [if_pos hmem] at hgone
  exact Option.some_ne_none _ (hrow.symm.trans (hagain.symm.trans hgone))

theorem apart_of_whole (h : ¬Refused st s) (hw : Whole st s)
    (hfresh : ∀ p ∈ moving st s.rows, oldForm (newId st p) = false) :
    ∀ p ∈ legacyRows s.rows, isForgotten st (memoryId st p) = false →
      ∀ q ∈ moving st s.rows, newId st p ≠ q.1 := by
  intro p hp hkeeps q hq hid
  have hqkeys := mem_keys (moving_fresh hq).2.2
  have hcleared := (taken_moving (s := graphed s) h (List.ne_nil_of_mem hq)).2
  have hlegacy : legacyRows (cleared st (graphed s)) = _ := legacyRows_cleared (s := graphed s) hfresh
  -- After the deletion the id is free again, and the row is moved to it.
  have hfree : newId st p ∉ (cleared st (graphed s)).keys := by
    intro hmem
    obtain ⟨row, hrow⟩ := (Dict.mem_keys_iff _ _).mp hmem
    rw [hid, get?_cleared] at hrow
    have hnone : lastTo (newId st) (moving st (graphed s).rows) q.1 = none := lastTo_moving_none hqkeys
    rw [hnone] at hrow
    dsimp only at hrow
    have hmem' : q.1 ∈ (moving st (graphed s).rows).map Prod.fst := List.mem_map_of_mem hq
    rw [if_pos hmem'] at hrow
    cases hrow
  have hmoving : p ∈ moving st (cleared st (graphed s)) := by
    refine List.mem_filter.mpr ⟨?_, ?_⟩
    · rw [hlegacy, List.mem_filter]
      refine ⟨hp, decide_eq_true fun hmem => ?_⟩
      obtain ⟨r, hr, hrid⟩ := List.mem_map.mp hmem
      have hsame : r = p := Prod.ext hrid (Option.some.inj
        ((mem_legacyRows.mp (moving_fresh hr).2.2).1.symm.trans
          (hrid ▸ (mem_legacyRows.mp hp).1)))
      exact (moving_fresh hr).1 (hsame ▸ hid ▸ hqkeys)
    · rw [Bool.and_eq_true, decide_eq_true_iff, Bool.not_eq_true']
      exact ⟨hfree, hkeeps⟩
  have hnot : ¬Refused st { graphed s with rows := cleared st (graphed s) } := by
    refine not_refused_of_sublist h ?_
    show (legacyRows (cleared st (graphed s))).Sublist _
    rw [hlegacy]
    exact List.filter_sublist
  have hsame := (hw.rerun 4).2 q.1
  rw [crash_graph, hcleared, migrate_rows_of_graphed (graphed_with_rows s _) hnot,
    get?_migrate h, lastTo_moving_none hqkeys] at hsame
  dsimp only at hsame
  rw [if_pos (List.mem_map_of_mem (moving_fresh hq).2.2), get?_told] at hsame
  obtain ⟨r, hlast, -⟩ := exists_lastTo (f := newId st) hmoving
  rw [hid] at hlast
  dsimp only at hsame
  rw [hlast] at hsame
  cases hsame

theorem kept_of_whole (h : ¬Refused st s) (hw : Whole st s)
    (hfresh : ∀ p ∈ moving st s.rows, oldForm (newId st p) = false) :
    ∀ p ∈ legacyRows s.rows, isForgotten st (memoryId st p) = false →
      (∃ q ∈ moving st s.rows, memoryId st q = memoryId st p) ∨
        ∃ q ∈ s.rows.items, isLegacy q = false ∧
          ∃ text, q.1 = verifiedMemoryRowId st (memoryId st p) text := by
  intro p hp hkeeps
  obtain ⟨hget, hlegacy⟩ := mem_legacyRows.mp hp
  have hrecalls : Recalls st s (memoryId st p) := by
    refine ⟨p.1, p.2, hget, ?_⟩
    rw [RowOf, if_pos hlegacy]
  obtain ⟨id, row, hrow, hrowOf⟩ := hw.kept _ hkeeps hrecalls
  obtain ⟨text, hid⟩ := (rowOf_of_not_legacy (left_not_legacy h hfresh hrow)).mp hrowOf
  rcases left_cases h hrow with ⟨q, hq, hnew⟩ | ⟨hleft, hno⟩
  · exact Or.inl ⟨q, hq, verifiedMemoryRowId_inj (hnew.trans hid)⟩
  · exact Or.inr ⟨(id, row), (Dict.mem_items_iff _ _ _).mpr hleft, hno, text, hid⟩

theorem told_of_whole (h : ¬Refused st s) (hw : Whole st s)
    (hfresh : ∀ p ∈ moving st s.rows, oldForm (newId st p) = false) :
    ∀ p ∈ moving st s.rows, lastTo (newId st) (moving st s.rows) (newId st p) = some p →
      Told st (graphed s) p := by
  intro p hp hlast
  have hupserted := (taken_moving (s := graphed s) h (List.ne_nil_of_mem hp)).1
  have hbetween : Between st (graphed s) (upserted st (graphed s)) [] (movedRow st s.rows) :=
    between_upserted hfresh
  have hsame := (hw.rerun 3).2 (newId st p)
  rw [crash_graph, hupserted, migrate_between h hbetween, get?_migrate h, hlast] at hsame
  have hrow := hbetween.get?_told hfresh (newId st p)
  rw [show lastTo (newId st) (moving st (graphed s).rows) (newId st p) = some p from hlast] at hrow
  exact (movedRow_eq_iff (s := graphed s) p).mp (Option.some.inj (hrow.symm.trans hsame))

/-! ## The exact condition -/

theorem prefix_of_prefix_append {l a b : List Char} {c : Char} (h : l <+: a ++ c :: b) (hc : c ∉ l) :
    l <+: a := by
  induction l generalizing a with
  | nil => exact List.nil_prefix
  | cons x rest ih =>
    cases a with
    | nil =>
      obtain ⟨rfl, -⟩ := List.cons_prefix_cons.mp h
      exact absurd List.mem_cons_self hc
    | cons y a =>
      obtain ⟨rfl, hrest⟩ := List.cons_prefix_cons.mp h
      exact List.cons_prefix_cons.mpr
        ⟨rfl, ih hrest fun hmem => hc (List.mem_cons_of_mem x hmem)⟩

/-- The id of no memory begins as the old form does, as ids that are numbers or digests do not. -/
def PlainIds (st : Setting) (rows : Dict Id Row) : Prop :=
  ∀ p ∈ legacyRows rows, ¬"verified".toList <+: memoryId st p

theorem orderly_of_plainIds (st : Setting) (s : Library) (hids : PlainIds st s.rows)
    (htold : ∀ p ∈ moving st s.rows, Told st s p) : Orderly st s := by
  have hnew : ∀ p ∈ legacyRows s.rows, oldForm (newId st p) = false := by
    intro p hp
    rw [← Bool.not_eq_true, oldForm, List.isPrefixOf_iff_prefix]
    intro hform
    obtain ⟨digest, -, hid⟩ := verifiedMemoryRowId_eq st (memoryId st p) (p.2.document.getD [])
    have hword : "verified".toList <+: memoryId st p ++ '_' :: digest := by
      rw [← hid]
      exact List.IsPrefix.trans (by decide) hform
    exact hids p hp (prefix_of_prefix_append hword (by decide))
  refine ⟨fun p hp => hnew p (moving_fresh hp).2.2, fun p hp _ q hq hid => ?_, fun p hp hkeeps => ?_,
    fun p hp _ => htold p hp⟩
  · have hform := oldForm_of_isLegacy (mem_legacyRows.mp (moving_fresh hq).2.2).2
    rw [← hid, hnew p hp] at hform
    cases hform
  · by_cases hkeys : newId st p ∈ s.rows.keys
    · obtain ⟨row, hrow⟩ := (Dict.mem_keys_iff _ _).mp hkeys
      exact Or.inr ⟨(newId st p, row), (Dict.mem_items_iff _ _ _).mpr hrow,
        isLegacy_of_not_oldForm (hnew p hp), _, rfl⟩
    · refine Or.inl ⟨p, List.mem_filter.mpr ⟨hp, ?_⟩, rfl⟩
      rw [Bool.and_eq_true, decide_eq_true_iff, Bool.not_eq_true']
      exact ⟨hkeys, hkeeps⟩

/-- The migration is whole exactly if it is refused or the library is orderly. -/
theorem migration_whole_iff (st : Setting) (s : Library) :
    Whole st s ↔ Refused st s ∨ Orderly st (graphed s) := by
  by_cases h : Refused st s
  · exact iff_of_true (whole_of_refused h) (Or.inl h)
  · rw [or_iff_right h]
    refine ⟨fun hw => ?_, whole_of_orderly h⟩
    have hfresh := fresh_of_whole h hw
    exact
      { fresh := hfresh
        apart := @apart_of_whole st s h hw hfresh
        kept := @kept_of_whole st s h hw hfresh
        told := @told_of_whole st s h hw hfresh }

/-- The digest of the one row below. -/
def sampleSetting : Setting where
  nfc := id
  h16 := fun text =>
    if text = "m\x00child\x00Water boils.\x000".toList then "cb0f3b084d613614".toList
    else List.replicate 16 '0'
  h16_length := fun text => by
    split
    · rfl
    · rfl
  repr := fun _ => ""
  forgotten := fun _ => false
  distinct := true

/-- A memory of a conversation, whose row has the old form. -/
def sampleLibrary : Library where
  graph :=
    { artifacts := .empty
      memories := Dict.empty.set "m".toList
        { conversationId := some "c".toList, extractedFrom := ["c".toList], verifiedBy := [] }
      conversations := {"c".toList} }
  rows := Dict.empty.set "verified_memory_m".toList
    { document := some "Water boils.".toList
      metadata := fun field =>
        if field = "memory_source_type" then some (.str "verification")
        else if field = "artifact_id" then some (.str "m") else none
      embedding := [] }

/-- A crash before the last write leaves the moved row without its conversation for good. -/
theorem conversation_lost : ¬Whole sampleSetting sampleLibrary := by
  intro h
  have hsame := congrArg (fun row => row.bind fun r => r.metadata "conversation_id")
    ((h.rerun 4).2 "m_cb0f3b084d613614".toList)
  revert hsame
  decide +kernel

end Cerid.Memory
