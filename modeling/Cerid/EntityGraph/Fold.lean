import Cerid.EntityGraph.Merge

/-!
# What the fold of one loser does

The loops of a fold drain, none leaves work for one before it, and none touches a node other
than a fact.
-/

namespace Cerid.EntityGraph

variable {κ α : Type} [DecidableEq κ] {loser survivor : String} {limit : Nat}

/-! ## The re-points drain -/

theorem hasEntity_congr {g g' : Graph} (h : g'.entities = g.entities) (id : String) :
    g'.hasEntity id = g.hasEntity id := by
  rw [Graph.hasEntity, Graph.hasEntity, h]

theorem repointDrain_stmt (F : Family κ α) (r : Dict.Repoint κ α) {g : Graph}
    (hg : g.hasEntity survivor = true) :
    (repointDrain F r survivor limit).stmt g =
      (F.put g (r.batch limit (F.get g)), min limit (r.rows (F.get g)).length) := if_pos hg

theorem repointDrain_keeps {β : Type} (F : Family κ α) (r : Dict.Repoint κ α) (q : Graph → β)
    (hq : ∀ g d, q (F.put g d) = q g) (g : Graph) :
    q ((repointDrain F r survivor limit).stmt g).1 = q g := by
  cases hg : g.hasEntity survivor with
  | true =>
    rw [repointDrain_stmt F r hg]
    exact hq g _
  | false =>
    have hstmt : (repointDrain F r survivor limit).stmt g = (g, 0) :=
      if_neg (by rw [hg]; exact Bool.false_ne_true)
    rw [hstmt]

theorem repointDrain_drains (F : Family κ α) {r : Dict.Repoint κ α} (hr : r.Leaves)
    (hlimit : 1 ≤ limit) :
    (repointDrain F r survivor limit).Drains (fun g => g.hasEntity survivor = true) where
  keeps g hg := by
    rw [hasEntity_congr (repointDrain_keeps F r Graph.entities F.put_entities g)]
    exact hg
  idle g hg hleft := by
    have hrows : r.rows (F.get g) = [] := List.length_eq_zero_iff.mp hleft
    rw [repointDrain_stmt F r hg, Dict.Repoint.batch, hrows, List.take_nil, List.foldl_nil,
      F.put_get, List.length_nil, Nat.min_zero]
  less g hg hleft := by
    rw [repointDrain_stmt F r hg]
    have hpos : 0 < (r.rows (F.get g)).length := Nat.pos_of_ne_zero hleft
    constructor
    · show min limit _ ≠ 0
      omega
    · show (r.rows (F.get (F.put g _))).length < (r.rows (F.get g)).length
      rw [F.get_put, Dict.Repoint.rows_batch hr, List.length_drop]
      omega

/-- The loop moves all edges of the loser. -/
theorem get_run_repointDrain (F : Family κ α) {r : Dict.Repoint κ α} (hr : r.Leaves)
    (hlimit : 1 ≤ limit) {g : Graph} (hg : g.hasEntity survivor = true) :
    F.get ((repointDrain F r survivor limit).run g) = r.moveAll (F.get g) := by
  have hd : (repointDrain F r survivor limit).Drains (fun g => g.hasEntity survivor = true) :=
    repointDrain_drains F hr hlimit
  have hmove : r.moveAll (F.get ((repointDrain F r survivor limit).run g)) =
      r.moveAll (F.get g) := by
    have hp : ∀ g', g'.hasEntity survivor = true ∧ r.moveAll (F.get g') = r.moveAll (F.get g) →
        ((repointDrain F r survivor limit).stmt g').1.hasEntity survivor = true ∧
          r.moveAll (F.get ((repointDrain F r survivor limit).stmt g').1) =
            r.moveAll (F.get g) := by
      intro g' hg'
      refine ⟨hd.keeps g' hg'.1, ?_⟩
      rw [repointDrain_stmt F r hg'.1]
      show r.moveAll (F.get (F.put g' _)) = _
      rw [F.get_put, Dict.Repoint.moveAll_batch hr]
      exact hg'.2
    exact (Drain.run_keeps hp ⟨hg, rfl⟩).2
  have hrows : r.rows (F.get ((repointDrain F r survivor limit).run g)) = [] :=
    List.length_eq_zero_iff.mp (hd.left_run hg)
  rw [← hmove, Dict.Repoint.moveAll_of_rows_nil hrows]

section Leaves

variable (h : loser ≠ survivor)

include h

theorem repointMentions_leaves : (repointMentions loser survivor).Leaves := by
  intro k k' _ hk
  cases hk
  exact decide_eq_false (Ne.symm h)

theorem repointCoMentionedOut_leaves : (repointCoMentionedOut loser survivor).Leaves := by
  intro k k' _ hk
  simp only [repointCoMentionedOut] at hk ⊢
  split at hk
  · cases hk
  · cases hk
    exact decide_eq_false (Ne.symm h)

theorem repointCoMentionedIn_leaves : (repointCoMentionedIn loser survivor).Leaves := by
  intro k k' _ hk
  simp only [repointCoMentionedIn] at hk ⊢
  split at hk
  · cases hk
  · cases hk
    exact decide_eq_false (Ne.symm h)

theorem repointSimilarToOut_leaves : (repointSimilarToOut loser survivor).Leaves := by
  intro k k' hm hk
  exact repointCoMentionedOut_leaves h k k' hm hk

theorem repointSimilarToIn_leaves : (repointSimilarToIn loser survivor).Leaves := by
  intro k k' hm hk
  exact repointCoMentionedIn_leaves h k k' hm hk

theorem repointInCommunity_leaves : (repointInCommunity loser survivor).Leaves := by
  intro k k' _ hk
  cases hk
  exact decide_eq_false (Ne.symm h)

theorem repointHasContradiction_leaves : (repointHasContradiction loser survivor).Leaves := by
  intro k k' _ hk
  cases hk
  exact decide_eq_false (Ne.symm h)

theorem repointEnrichedFrom_leaves : (repointEnrichedFrom loser survivor).Leaves := by
  intro k k' _ hk
  cases hk
  exact decide_eq_false (Ne.symm h)

theorem repointHasFact_leaves : (repointHasFact loser survivor).Leaves := by
  intro k k' _ hk
  cases hk
  exact decide_eq_false (Ne.symm h)

theorem repointFactObject_leaves : (repointFactObject loser survivor).Leaves := by
  intro k k' _ hk
  cases hk
  exact decide_eq_false (Ne.symm h)

end Leaves

/-! ## The facts drain -/

/-- Some fact has this uid. -/
def HasUid (facts : Dict Nat Fact) (uid : FactUid) : Prop :=
  ∃ n f, facts.get? n = some f ∧ f.uid = uid

theorem factWithUid_eq_some {facts : Dict Nat Fact} {uid : FactUid} {n : Nat} {f : Fact}
    (h : factWithUid facts uid = some (n, f)) : facts.get? n = some f ∧ f.uid = uid := by
  rw [factWithUid] at h
  have huid := List.find?_some h
  exact ⟨(Dict.mem_items_iff facts n f).mp (List.mem_of_find?_eq_some h),
    of_decide_eq_true huid⟩

theorem isSome_factWithUid (facts : Dict Nat Fact) (uid : FactUid) :
    (factWithUid facts uid).isSome = true ↔ HasUid facts uid := by
  rw [factWithUid, List.find?_isSome]
  constructor
  · rintro ⟨⟨n, f⟩, hmem, huid⟩
    exact ⟨n, f, (Dict.mem_items_iff facts n f).mp hmem, of_decide_eq_true huid⟩
  · rintro ⟨n, f, hget, huid⟩
    exact ⟨(n, f), (Dict.mem_items_iff facts n f).mpr hget, decide_eq_true huid⟩

theorem mem_freeRows {facts : Dict Nat Fact} {n : Nat} {f : Fact} :
    (n, f) ∈ freeRows loser survivor facts ↔
      facts.get? n = some f ∧ f.subjectId = loser ∧ ¬ HasUid facts (f.newUid survivor) := by
  rw [freeRows, List.mem_filter, Dict.mem_items_iff, decide_eq_true_eq, Option.isNone_iff_eq_none,
    ← isSome_factWithUid, Option.not_isSome_iff_eq_none]

theorem mem_collidingRows {facts : Dict Nat Fact} {n : Nat} {f : Fact} :
    (n, f) ∈ collidingRows loser survivor facts ↔
      facts.get? n = some f ∧ f.subjectId = loser ∧ HasUid facts (f.newUid survivor) := by
  rw [collidingRows, List.mem_filter, Dict.mem_items_iff, decide_eq_true_eq, isSome_factWithUid]

theorem mem_objectRows {facts : Dict Nat Fact} {n : Nat} {f : Fact} :
    (n, f) ∈ objectRows loser facts ↔ facts.get? n = some f ∧ f.objectId = some loser := by
  rw [objectRows, List.mem_filter, Dict.mem_items_iff, decide_eq_true_eq]

/-- Rows that are among those before, without one of them. -/
theorem length_rows_lt {rows rows' : List (Nat × Fact)} (hnd : (rows'.map Prod.fst).Nodup)
    (hsub : ∀ n f, (n, f) ∈ rows' → n ∈ rows.map Prod.fst) {k : Nat}
    (hk : k ∈ rows.map Prod.fst) (hk' : ∀ f, (k, f) ∉ rows') : rows'.length < rows.length := by
  have hnot : k ∉ rows'.map Prod.fst := by
    rw [List.mem_map]
    rintro ⟨⟨n, f⟩, hp, rfl⟩
    exact hk' f hp
  have hnd' : (k :: rows'.map Prod.fst).Nodup := List.nodup_cons.mpr ⟨hnot, hnd⟩
  have hsub' : k :: rows'.map Prod.fst ⊆ rows.map Prod.fst := by
    intro n hn
    cases List.mem_cons.mp hn with
    | inl h => exact h ▸ hk
    | inr h =>
      obtain ⟨⟨m, f⟩, hp, rfl⟩ := List.mem_map.mp h
      exact hsub m f hp
  have hle := (List.subperm_of_subset hnd' hsub').length_le
  rw [List.length_cons, List.length_map, List.length_map] at hle
  exact hle

omit [DecidableEq κ] in
theorem nodup_filter_keys (d : Dict κ α) (q : κ × α → Bool) :
    ((d.items.filter q).map Prod.fst).Nodup :=
  d.nodup.sublist (List.filter_sublist.map Prod.fst)

/-- A chunk of a list that is not empty has its first element. -/
theorem exists_mem_take {β : Type} {l : List β} (hl : l ≠ []) (hlimit : 1 ≤ limit) :
    ∃ x ∈ l.take limit, x ∈ l := by
  cases l with
  | nil => exact absurd rfl hl
  | cons x rest =>
    obtain ⟨m, rfl⟩ := Nat.exists_eq_add_of_le' hlimit
    exact ⟨x, by rw [List.take_succ_cons]; exact List.mem_cons_self, List.mem_cons_self⟩

/-- What the fold of one fact keeps, the statement keeps. -/
theorem reconcileColliding_invariant (p : Graph → Prop)
    (hp : ∀ g row, p g → p (foldFact survivor g row)) (g : Graph) (hg : p g) :
    p ((reconcileColliding loser survivor limit).stmt g).1 := by
  show p (((collidingRows loser survivor g.facts).take limit).foldl (foldFact survivor) g)
  generalize (collidingRows loser survivor g.facts).take limit = ps
  induction ps generalizing g with
  | nil => exact hg
  | cons row rest ih => exact ih _ (hp g row hg)

section Facts

variable (h : loser ≠ survivor)

include h

/-- The uids under the survivor that are taken stay so. -/
theorem hasUid_moveTo {facts : Dict Nat Fact} {picked : List Nat}
    (hpicked : ∀ n ∈ picked, ∀ f, facts.get? n = some f → f.subjectId = loser) {uid : FactUid}
    (huid : uid.subjectId = survivor) (hhas : HasUid facts uid) :
    HasUid (facts.mapValues (fun n f => if n ∈ picked then f.moveTo survivor else f)) uid := by
  obtain ⟨n, f, hget, hf⟩ := hhas
  have hn : n ∉ picked := by
    intro hn
    have hl := hpicked n hn f hget
    rw [← hf] at huid
    exact h (hl.symm.trans huid)
  refine ⟨n, f, ?_, hf⟩
  rw [Dict.get?_mapValues, hget, Option.map_some, if_neg hn]

theorem reconcileFree_drains (hlimit : 1 ≤ limit) (inv : Graph → Prop)
    (hinv : ∀ g facts, inv g → inv { g with facts := facts }) :
    (reconcileFree loser survivor limit).Drains inv where
  keeps g hg := hinv g _ hg
  idle g _ hleft := by
    have hrows : freeRows loser survivor g.facts = [] := List.length_eq_zero_iff.mp hleft
    have hitems : (g.facts.mapValues (fun n f =>
        if n ∈ ([] : List Nat) then f.moveTo survivor else f)) = g.facts := by
      cases hfacts : g.facts
      simp [Dict.mapValues]
    show ({ g with facts := g.facts.mapValues _ }, _) = (g, 0)
    rw [hrows, List.take_nil, List.map_nil, hitems]
    rfl
  less g _ hleft := by
    have hne : freeRows loser survivor g.facts ≠ [] := fun hnil => hleft (by
      show (freeRows loser survivor g.facts).length = 0
      rw [hnil, List.length_nil])
    obtain ⟨⟨k, f₀⟩, hk, hkrows⟩ := exists_mem_take hne hlimit
    have hpicked : ∀ n ∈ ((freeRows loser survivor g.facts).take limit).map Prod.fst, ∀ f,
        g.facts.get? n = some f → f.subjectId = loser := by
      intro n hn f hget
      obtain ⟨⟨n', f'⟩, hp, rfl⟩ := List.mem_map.mp hn
      have hrow := mem_freeRows.mp (List.mem_of_mem_take hp)
      rw [hrow.1] at hget
      cases hget
      exact hrow.2.1
    have hmem : k ∈ ((freeRows loser survivor g.facts).take limit).map Prod.fst :=
      List.mem_map_of_mem hk
    constructor
    · show (((freeRows loser survivor g.facts).take limit).map Prod.fst).length ≠ 0
      exact fun hzero => by
        rw [List.length_eq_zero_iff.mp hzero] at hmem
        exact absurd hmem List.not_mem_nil
    · show (freeRows loser survivor (g.facts.mapValues _)).length <
        (freeRows loser survivor g.facts).length
      refine length_rows_lt (nodup_filter_keys _ _) ?_ (List.mem_map_of_mem hkrows) ?_
      · intro n f hrow
        obtain ⟨hget, hl, hfree⟩ := mem_freeRows.mp hrow
        rw [Dict.get?_mapValues] at hget
        obtain ⟨f', hget', rfl⟩ := Option.map_eq_some_iff.mp hget
        have hn : n ∉ ((freeRows loser survivor g.facts).take limit).map Prod.fst := by
          intro hn
          rw [if_pos hn] at hl
          exact h hl.symm
        rw [if_neg hn] at hl hfree
        refine List.mem_map.mpr ⟨(n, f'), mem_freeRows.mpr ⟨hget', hl, fun hhas => ?_⟩, rfl⟩
        exact hfree (hasUid_moveTo h hpicked rfl hhas)
      · intro f hrow
        obtain ⟨hget, hl, -⟩ := mem_freeRows.mp hrow
        rw [Dict.get?_mapValues] at hget
        obtain ⟨f', -, rfl⟩ := Option.map_eq_some_iff.mp hget
        rw [if_pos hmem] at hl
        exact h hl.symm

/-- What a colliding fact leaves behind: of the loser's facts all others, and every uid under
the survivor. -/
theorem foldFact_facts {g : Graph} {p : Nat × Fact}
    (hp : p ∈ collidingRows loser survivor g.facts) :
    (∀ k f, f.subjectId = loser →
      ((foldFact survivor g p).facts.get? k = some f ↔ k ≠ p.1 ∧ g.facts.get? k = some f)) ∧
      ∀ uid : FactUid, uid.subjectId = survivor →
        (HasUid (foldFact survivor g p).facts uid ↔ HasUid g.facts uid) := by
  obtain ⟨hget, hl, hhas⟩ := mem_collidingRows.mp hp
  obtain ⟨⟨n, into⟩, hfind⟩ := Option.isSome_iff_exists.mp ((isSome_factWithUid _ _).mpr hhas)
  obtain ⟨hinto, huid⟩ := factWithUid_eq_some hfind
  have hsubj : into.subjectId = survivor := congrArg FactUid.subjectId huid
  have hn : n ≠ p.1 := by
    intro he
    rw [he, hget] at hinto
    cases hinto
    exact h (hl.symm.trans hsubj)
  have hfacts : (foldFact survivor g p).facts =
      (g.facts.set n (into.absorb p.2)).erase p.1 := by
    rw [foldFact, hfind]
  rw [hfacts]
  constructor
  · intro k f hf
    rw [Dict.get?_erase, Dict.get?_set]
    by_cases hk : k = p.1
    · simp [hk]
    · rw [if_neg hk]
      by_cases hkn : k = n
      · rw [if_pos hkn, hkn, hinto]
        have hne : ∀ f' : Fact, f'.subjectId = survivor → f' ≠ f := fun f' hf' he =>
          h (hf.symm.trans (he ▸ hf'))
        constructor
        · intro he
          exact absurd (Option.some.inj he) (hne _ hsubj)
        · rintro ⟨-, he⟩
          exact absurd (Option.some.inj he) (hne _ hsubj)
      · rw [if_neg hkn]
        exact ⟨fun hk' => ⟨hk, hk'⟩, fun hk' => hk'.2⟩
  · intro uid hs
    constructor
    · rintro ⟨k, f, hkf, hf⟩
      rw [Dict.get?_erase, Dict.get?_set] at hkf
      split at hkf
      · cases hkf
      · split at hkf
        · cases hkf
          exact ⟨n, into, hinto, hf⟩
        · exact ⟨k, f, hkf, hf⟩
    · rintro ⟨k, f, hkf, hf⟩
      have hkp : k ≠ p.1 := by
        intro he
        rw [he, hget] at hkf
        cases hkf
        rw [← hf] at hs
        exact h (hl.symm.trans hs)
      by_cases hkn : k = n
      · rw [hkn, hinto] at hkf
        cases hkf
        exact ⟨n, into.absorb p.2, by simp [hn], hf⟩
      · exact ⟨k, f, by simp [hkp, hkn, hkf], hf⟩

theorem foldl_foldFact_facts {ps : List (Nat × Fact)} {g : Graph}
    (hps : ∀ p ∈ ps, p ∈ collidingRows loser survivor g.facts) (hnd : (ps.map Prod.fst).Nodup) :
    (∀ k f, f.subjectId = loser →
      ((ps.foldl (foldFact survivor) g).facts.get? k = some f ↔
        k ∉ ps.map Prod.fst ∧ g.facts.get? k = some f)) ∧
      ∀ uid : FactUid, uid.subjectId = survivor →
        (HasUid (ps.foldl (foldFact survivor) g).facts uid ↔ HasUid g.facts uid) := by
  induction ps generalizing g with
  | nil => simp
  | cons p rest ih =>
    rw [List.map_cons, List.nodup_cons] at hnd
    obtain ⟨hfacts, huids⟩ := foldFact_facts h (hps p List.mem_cons_self)
    have hrest : ∀ q ∈ rest, q ∈ collidingRows loser survivor (foldFact survivor g p).facts := by
      intro q hq
      obtain ⟨hget, hl, hhas⟩ := mem_collidingRows.mp (hps q (List.mem_cons_of_mem p hq))
      have hne : q.1 ≠ p.1 := fun he => hnd.1 (he ▸ List.mem_map_of_mem hq)
      exact mem_collidingRows.mpr ⟨(hfacts q.1 q.2 hl).mpr ⟨hne, hget⟩, hl, (huids _ rfl).mpr hhas⟩
    obtain ⟨ihfacts, ihuids⟩ := ih hrest hnd.2
    constructor
    · intro k f hf
      rw [List.foldl_cons, ihfacts k f hf, hfacts k f hf, List.map_cons, List.mem_cons, not_or]
      exact ⟨fun hk => ⟨⟨hk.2.1, hk.1⟩, hk.2.2⟩, fun hk => ⟨hk.1.2, hk.1.1, hk.2⟩⟩
    · intro uid hs
      rw [List.foldl_cons, ihuids uid hs, huids uid hs]

theorem reconcileColliding_drains (hlimit : 1 ≤ limit) (inv : Graph → Prop)
    (hinv : ∀ g p, inv g → inv (foldFact survivor g p)) :
    (reconcileColliding loser survivor limit).Drains inv where
  keeps g hg := reconcileColliding_invariant inv hinv g hg
  idle g _ hleft := by
    have hrows : collidingRows loser survivor g.facts = [] := List.length_eq_zero_iff.mp hleft
    show (((collidingRows loser survivor g.facts).take limit).foldl _ g, _) = (g, 0)
    rw [hrows, List.take_nil]
    rfl
  less g _ hleft := by
    have hne : collidingRows loser survivor g.facts ≠ [] := fun hnil => hleft (by
      show (collidingRows loser survivor g.facts).length = 0
      rw [hnil, List.length_nil])
    obtain ⟨⟨k, f₀⟩, hk, hkrows⟩ := exists_mem_take hne hlimit
    have hrows := foldl_foldFact_facts h
      (fun p hp => List.mem_of_mem_take hp)
      ((nodup_filter_keys g.facts _).sublist ((List.take_sublist limit _).map Prod.fst))
    constructor
    · show ((collidingRows loser survivor g.facts).take limit).length ≠ 0
      exact fun hzero => by
        rw [List.length_eq_zero_iff.mp hzero] at hk
        exact absurd hk List.not_mem_nil
    · refine length_rows_lt (nodup_filter_keys _ _) ?_ (List.mem_map_of_mem hkrows) ?_
      · intro n f hrow
        obtain ⟨hget, hl, hhas⟩ := mem_collidingRows.mp hrow
        exact List.mem_map_of_mem (mem_collidingRows.mpr
          ⟨((hrows.1 n f hl).mp hget).2, hl, (hrows.2 _ rfl).mp hhas⟩)
      · intro f hrow
        obtain ⟨hget, hl, -⟩ := mem_collidingRows.mp hrow
        exact ((hrows.1 k f hl).mp hget).1 (List.mem_map_of_mem hk)

theorem reconcileObjectId_drains (hlimit : 1 ≤ limit) (inv : Graph → Prop)
    (hinv : ∀ g facts, inv g → inv { g with facts := facts }) :
    (reconcileObjectId loser survivor limit).Drains inv where
  keeps g hg := hinv g _ hg
  idle g _ hleft := by
    have hrows : objectRows loser g.facts = [] := List.length_eq_zero_iff.mp hleft
    have hitems : (g.facts.mapValues (fun n f =>
        if n ∈ ([] : List Nat) then { f with objectId := some survivor } else f)) = g.facts := by
      cases hfacts : g.facts
      simp [Dict.mapValues]
    show ({ g with facts := g.facts.mapValues _ }, _) = (g, 0)
    rw [hrows, List.take_nil, List.map_nil, hitems]
    rfl
  less g _ hleft := by
    have hne : objectRows loser g.facts ≠ [] := fun hnil => hleft (by
      show (objectRows loser g.facts).length = 0
      rw [hnil, List.length_nil])
    obtain ⟨⟨k, f₀⟩, hk, hkrows⟩ := exists_mem_take hne hlimit
    have hmem : k ∈ ((objectRows loser g.facts).take limit).map Prod.fst := List.mem_map_of_mem hk
    constructor
    · show (((objectRows loser g.facts).take limit).map Prod.fst).length ≠ 0
      exact fun hzero => by
        rw [List.length_eq_zero_iff.mp hzero] at hmem
        exact absurd hmem List.not_mem_nil
    · show (objectRows loser (g.facts.mapValues _)).length < (objectRows loser g.facts).length
      refine length_rows_lt (nodup_filter_keys _ _) ?_ (List.mem_map_of_mem hkrows) ?_
      · intro n f hrow
        obtain ⟨hget, hl⟩ := mem_objectRows.mp hrow
        rw [Dict.get?_mapValues] at hget
        obtain ⟨f', hget', rfl⟩ := Option.map_eq_some_iff.mp hget
        have hn : n ∉ ((objectRows loser g.facts).take limit).map Prod.fst := by
          intro hn
          rw [if_pos hn] at hl
          exact h (Option.some.inj hl).symm
        rw [if_neg hn] at hl
        exact List.mem_map_of_mem (mem_objectRows.mpr ⟨hget', hl⟩)
      · intro f hrow
        obtain ⟨hget, hl⟩ := mem_objectRows.mp hrow
        rw [Dict.get?_mapValues] at hget
        obtain ⟨f', -, rfl⟩ := Option.map_eq_some_iff.mp hget
        rw [if_pos hmem] at hl
        exact h (Option.some.inj hl).symm

end Facts

/-! ## No loop leaves work for one before it -/

theorem foldFact_keeps {β : Type} (q : Graph → β)
    (hq : ∀ g facts hasFact factObject factFrom,
      q { g with facts := facts, hasFact := hasFact, factObject := factObject,
                 factFrom := factFrom } = q g) (g : Graph) (p : Nat × Fact) :
    q (foldFact survivor g p) = q g := by
  rw [foldFact]
  split
  · rfl
  · exact hq _ _ _ _ _

theorem reconcileColliding_keeps {β : Type} (q : Graph → β)
    (hq : ∀ g facts hasFact factObject factFrom,
      q { g with facts := facts, hasFact := hasFact, factObject := factObject,
                 factFrom := factFrom } = q g) (g : Graph) :
    q ((reconcileColliding loser survivor limit).stmt g).1 = q g := by
  show q (((collidingRows loser survivor g.facts).take limit).foldl (foldFact survivor) g) = _
  generalize (collidingRows loser survivor g.facts).take limit = ps
  induction ps generalizing g with
  | nil => rfl
  | cons p rest ih => rw [List.foldl_cons, ih, foldFact_keeps q hq]

/-- A loop over the edges of a type, and a statement that does not touch them. -/
theorem undisturbed_of_keeps {inv : Graph → Prop} (F : Family κ α) (r : Dict.Repoint κ α)
    {c : Drain Graph} (hc : ∀ g, F.get (c.stmt g).1 = F.get g) :
    Drain.Undisturbed inv (repointDrain F r survivor limit) c := by
  intro g _ hleft
  show (r.rows (F.get _)).length = 0
  rw [hc]
  exact hleft

theorem undisturbed_of_batch (F : Family κ α) {r r' : Dict.Repoint κ α}
    (hto : ∀ d : Dict κ α, r.rows d = [] →
      ∀ p ∈ r'.rows d, ∀ k, r'.target p.1 = some k → r.mine k = false) :
    Drain.Undisturbed (fun g => g.hasEntity survivor = true) (repointDrain F r survivor limit)
      (repointDrain F r' survivor limit) := by
  intro g hg hleft
  have hrows : r.rows (F.get g) = [] := List.length_eq_zero_iff.mp hleft
  show (r.rows (F.get _)).length = 0
  rw [repointDrain_stmt F r' hg]
  show (r.rows (F.get (F.put g _))).length = 0
  rw [F.get_put, Dict.Repoint.rows_batch_eq_nil hrows (hto _ hrows), List.length_nil]

/-- With the edges out of the loser gone, none that came in from itself is moved. -/
theorem coMentioned_in_of_out (d : Dict (String × String) (Option Nat))
    (hrows : (repointCoMentionedOut loser survivor).rows d = []) :
    ∀ p ∈ (repointCoMentionedIn loser survivor).rows d, ∀ k,
      (repointCoMentionedIn loser survivor).target p.1 = some k →
        (repointCoMentionedOut loser survivor).mine k = false := by
  intro p hp k hk
  have hget := ((Dict.Repoint.mem_rows_iff d p.1 p.2).mp hp).1
  simp only [repointCoMentionedIn] at hk
  split at hk
  · cases hk
  · cases hk
    refine decide_eq_false fun he => ?_
    have hnone := (Dict.Repoint.rows_eq_nil_iff d).mp hrows p.1 (decide_eq_true he)
    rw [hget] at hnone
    cases hnone

theorem similarTo_in_of_out (d : Dict (String × String) (Option ℚ))
    (hrows : (repointSimilarToOut loser survivor).rows d = []) :
    ∀ p ∈ (repointSimilarToIn loser survivor).rows d, ∀ k,
      (repointSimilarToIn loser survivor).target p.1 = some k →
        (repointSimilarToOut loser survivor).mine k = false := by
  intro p hp k hk
  have hget := ((Dict.Repoint.mem_rows_iff d p.1 p.2).mp hp).1
  simp only [repointSimilarToIn] at hk
  split at hk
  · cases hk
  · cases hk
    refine decide_eq_false fun he => ?_
    have hnone := (Dict.Repoint.rows_eq_nil_iff d).mp hrows p.1 (decide_eq_true he)
    rw [hget] at hnone
    cases hnone

/-- A fold of facts only deletes `HAS_FACT` edges. -/
theorem foldFact_hasFact {g : Graph}
    (hrows : (repointHasFact loser survivor).rows g.hasFact = []) (p : Nat × Fact) :
    (repointHasFact loser survivor).rows (foldFact survivor g p).hasFact = [] := by
  rw [foldFact]
  split
  · exact hrows
  · rw [Dict.Repoint.rows_eq_nil_iff] at hrows ⊢
    intro k hk
    show (g.hasFact.filter _).get? k = none
    rw [Dict.get?_filter, hrows k hk]
    rfl

theorem get?_foldl_set_pairs (n : Nat) (objects : List String) (d : Dict (Nat × String) Unit)
    (k : Nat × String) :
    (objects.foldl (fun d o => d.set (n, o) ()) d).get? k =
      if k.1 = n ∧ k.2 ∈ objects then some () else d.get? k := by
  induction objects generalizing d with
  | nil => simp
  | cons o rest ih =>
    rw [List.foldl_cons, ih, Dict.get?_set]
    by_cases hn : k.1 = n
    · by_cases ho : k.2 = o
      · simp [Prod.ext_iff, hn, ho]
      · simp [Prod.ext_iff, hn, ho]
    · simp [Prod.ext_iff, hn]

/-- The object edges that a fold writes end where those of the folded fact did. -/
theorem foldFact_factObject {g : Graph}
    (hrows : (repointFactObject loser survivor).rows g.factObject = []) (p : Nat × Fact) :
    (repointFactObject loser survivor).rows (foldFact survivor g p).factObject = [] := by
  rw [foldFact]
  split
  · exact hrows
  · rename_i n into _
    rw [Dict.Repoint.rows_eq_nil_iff] at hrows ⊢
    intro k hk
    show (Dict.filter (List.foldl (fun d o => d.set (n, o) ()) g.factObject _) _).get? k = none
    have hnot : ¬ (k.1 = n ∧
        k.2 ∈ (g.factObject.keys.filter (fun k => k.1 = p.1)).map Prod.snd) := by
      rintro ⟨-, hmem⟩
      obtain ⟨k', hk', he⟩ := List.mem_map.mp hmem
      obtain ⟨u, hu⟩ := (Dict.mem_keys_iff _ _).mp (List.mem_filter.mp hk').1
      have hmine : (repointFactObject loser survivor).mine k' = true := by
        rw [← hk]
        show decide (k'.2 = loser) = decide (k.2 = loser)
        rw [he]
      rw [hrows k' hmine] at hu
      cases hu
    rw [Dict.get?_filter, get?_foldl_set_pairs, if_neg hnot, hrows k hk]
    rfl

theorem undisturbed_colliding {inv : Graph → Prop} (F : Family κ α) (r : Dict.Repoint κ α)
    (hstep : ∀ g p, r.rows (F.get g) = [] → r.rows (F.get (foldFact survivor g p)) = []) :
    Drain.Undisturbed inv (repointDrain F r survivor limit)
      (reconcileColliding loser survivor limit) := by
  intro g _ hleft
  have hrows : r.rows (F.get g) = [] := List.length_eq_zero_iff.mp hleft
  refine List.length_eq_zero_iff.mpr ?_
  exact reconcileColliding_invariant (fun g => r.rows (F.get g) = []) hstep g hrows

/-- The uids under the survivor are what a fold of facts leaves as it was, and so the
loser's facts that are free. -/
theorem reconcileFree_undisturbed_colliding (h : loser ≠ survivor) {inv : Graph → Prop} :
    Drain.Undisturbed inv (reconcileFree loser survivor limit)
      (reconcileColliding loser survivor limit) := by
  intro g _ hleft
  have hrows : freeRows loser survivor g.facts = [] := List.length_eq_zero_iff.mp hleft
  refine List.length_eq_zero_iff.mpr (List.eq_nil_iff_forall_not_mem.mpr ?_)
  rintro ⟨n, f⟩ hmem
  have hpicked : ∀ p ∈ (collidingRows loser survivor g.facts).take limit,
      p ∈ collidingRows loser survivor g.facts := fun p hp => List.mem_of_mem_take hp
  have hfold := foldl_foldFact_facts h hpicked
    ((nodup_filter_keys g.facts _).sublist ((List.take_sublist limit _).map Prod.fst))
  obtain ⟨hget, hl, hfree⟩ := mem_freeRows.mp hmem
  have hmem' : (n, f) ∈ freeRows loser survivor g.facts :=
    mem_freeRows.mpr ⟨((hfold.1 n f hl).mp hget).2, hl, fun hhas => hfree ((hfold.2 _ rfl).mpr hhas)⟩
  rw [hrows] at hmem'
  exact absurd hmem' List.not_mem_nil

/-- The object of a fact is part neither of its uid nor of its subject. -/
theorem hasUid_objectId (facts : Dict Nat Fact) (picked : List Nat) (uid : FactUid) :
    HasUid (facts.mapValues
      (fun n f => if n ∈ picked then { f with objectId := some survivor } else f)) uid ↔
      HasUid facts uid := by
  have huid : ∀ n (f : Fact),
      (if n ∈ picked then { f with objectId := some survivor } else f).uid = f.uid := by
    intro n f
    split <;> rfl
  constructor
  · rintro ⟨n, f, hget, hf⟩
    rw [Dict.get?_mapValues] at hget
    obtain ⟨f', hget', rfl⟩ := Option.map_eq_some_iff.mp hget
    exact ⟨n, f', hget', by rw [← hf, huid]⟩
  · rintro ⟨n, f, hget, hf⟩
    exact ⟨n, _, by rw [Dict.get?_mapValues, hget, Option.map_some], by rw [huid, hf]⟩

theorem reconcileFree_undisturbed_object {inv : Graph → Prop} :
    Drain.Undisturbed inv (reconcileFree loser survivor limit)
      (reconcileObjectId loser survivor limit) := by
  intro g _ hleft
  have hrows : freeRows loser survivor g.facts = [] := List.length_eq_zero_iff.mp hleft
  refine List.length_eq_zero_iff.mpr (List.eq_nil_iff_forall_not_mem.mpr ?_)
  rintro ⟨n, f⟩ hmem
  obtain ⟨hget, hl, hfree⟩ := mem_freeRows.mp hmem
  have hfree := mt (hasUid_objectId g.facts _ _).mpr hfree
  change (g.facts.mapValues _).get? n = some f at hget
  rw [Dict.get?_mapValues] at hget
  obtain ⟨f', hget', rfl⟩ := Option.map_eq_some_iff.mp hget
  have hmem' : (n, f') ∈ freeRows loser survivor g.facts := by
    refine mem_freeRows.mpr ⟨hget', ?_, ?_⟩
    · split at hl <;> exact hl
    · split at hfree <;> exact hfree
  rw [hrows] at hmem'
  exact absurd hmem' List.not_mem_nil

theorem reconcileColliding_undisturbed_object {inv : Graph → Prop} :
    Drain.Undisturbed inv (reconcileColliding loser survivor limit)
      (reconcileObjectId loser survivor limit) := by
  intro g _ hleft
  have hrows : collidingRows loser survivor g.facts = [] := List.length_eq_zero_iff.mp hleft
  refine List.length_eq_zero_iff.mpr (List.eq_nil_iff_forall_not_mem.mpr ?_)
  rintro ⟨n, f⟩ hmem
  obtain ⟨hget, hl, hhas⟩ := mem_collidingRows.mp hmem
  have hhas := (hasUid_objectId g.facts _ _).mp hhas
  change (g.facts.mapValues _).get? n = some f at hget
  rw [Dict.get?_mapValues] at hget
  obtain ⟨f', hget', rfl⟩ := Option.map_eq_some_iff.mp hget
  have hmem' : (n, f') ∈ collidingRows loser survivor g.facts := by
    refine mem_collidingRows.mpr ⟨hget', ?_, ?_⟩
    · split at hl <;> exact hl
    · split at hhas <;> exact hhas
  rw [hrows] at hmem'
  exact absurd hmem' List.not_mem_nil

/-! ## The loops of a fold -/

theorem entityEdgeRepoints_drains (h : loser ≠ survivor) (hlimit : 1 ≤ limit) :
    ∀ b ∈ entityEdgeRepoints loser survivor limit,
      b.Drains (fun g => g.hasEntity survivor = true) := by
  intro b hb
  simp only [entityEdgeRepoints, List.mem_cons, List.not_mem_nil, or_false] at hb
  rcases hb with rfl | rfl | rfl | rfl | rfl | rfl | rfl | rfl | rfl | rfl
  · exact repointDrain_drains _ (repointMentions_leaves h) hlimit
  · exact repointDrain_drains _ (repointCoMentionedOut_leaves h) hlimit
  · exact repointDrain_drains _ (repointCoMentionedIn_leaves h) hlimit
  · exact repointDrain_drains _ (repointSimilarToOut_leaves h) hlimit
  · exact repointDrain_drains _ (repointSimilarToIn_leaves h) hlimit
  · exact repointDrain_drains _ (repointInCommunity_leaves h) hlimit
  · exact repointDrain_drains _ (repointHasContradiction_leaves h) hlimit
  · exact repointDrain_drains _ (repointEnrichedFrom_leaves h) hlimit
  · exact repointDrain_drains _ (repointHasFact_leaves h) hlimit
  · exact repointDrain_drains _ (repointFactObject_leaves h) hlimit

theorem foldDrains_drains {c : MergeCall} (h : loser ≠ c.survivorId) :
    ∀ b ∈ foldDrains c loser, b.Drains (fun g => g.hasEntity c.survivorId = true) := by
  have hfacts : ∀ (g : Graph) facts, g.hasEntity c.survivorId = true →
      ({ g with facts := facts } : Graph).hasEntity c.survivorId = true := fun _ _ hg => hg
  intro b hb
  rcases List.mem_append.mp hb with hb | hb
  · exact entityEdgeRepoints_drains h c.chunk_pos b hb
  · simp only [reconcileFactSubjects, List.mem_cons, List.not_mem_nil, or_false] at hb
    rcases hb with rfl | rfl | rfl
    · exact reconcileFree_drains h c.chunk_pos _ hfacts
    · refine reconcileColliding_drains h c.chunk_pos _ fun g p hg => ?_
      rw [hasEntity_congr (foldFact_keeps Graph.entities (fun _ _ _ _ _ => rfl) g p)]
      exact hg
    · exact reconcileObjectId_drains h c.chunk_pos _ hfacts

/-- The re-points of one type leave those of another alone. -/
theorem undisturbed_repoint {κ' α' : Type} [DecidableEq κ'] {inv : Graph → Prop} (F : Family κ α)
    (r : Dict.Repoint κ α) (F' : Family κ' α') (r' : Dict.Repoint κ' α')
    (hput : ∀ g d, F.get (F'.put g d) = F.get g) :
    Drain.Undisturbed inv (repointDrain F r survivor limit) (repointDrain F' r' survivor limit) :=
  undisturbed_of_keeps F r (fun g => repointDrain_keeps F' r' F.get hput g)

theorem entityEdgeRepoints_pairwise :
    (entityEdgeRepoints loser survivor limit).Pairwise
      (Drain.Undisturbed (fun g => g.hasEntity survivor = true)) := by
  have hco : Drain.Undisturbed (fun g => g.hasEntity survivor = true)
      (repointDrain coMentionedFamily (repointCoMentionedOut loser survivor) survivor limit)
      (repointDrain coMentionedFamily (repointCoMentionedIn loser survivor) survivor limit) :=
    undisturbed_of_batch coMentionedFamily coMentioned_in_of_out
  have hsim : Drain.Undisturbed (fun g => g.hasEntity survivor = true)
      (repointDrain similarToFamily (repointSimilarToOut loser survivor) survivor limit)
      (repointDrain similarToFamily (repointSimilarToIn loser survivor) survivor limit) :=
    undisturbed_of_batch similarToFamily similarTo_in_of_out
  simp only [entityEdgeRepoints, List.pairwise_cons, List.forall_mem_cons, List.not_mem_nil,
    false_implies, implies_true, and_true, List.Pairwise.nil, hco, hsim, true_and]
  refine ⟨⟨?_, ?_, ?_, ?_, ?_, ?_, ?_, ?_, ?_⟩, ⟨?_, ?_, ?_, ?_, ?_, ?_, ?_⟩,
    ⟨?_, ?_, ?_, ?_, ?_, ?_, ?_⟩, ⟨?_, ?_, ?_, ?_, ?_⟩, ⟨?_, ?_, ?_, ?_, ?_⟩,
    ⟨?_, ?_, ?_, ?_⟩, ⟨?_, ?_, ?_⟩, ⟨?_, ?_⟩, ?_⟩ <;>
  exact undisturbed_repoint _ _ _ _ (fun _ _ => rfl)

/-- The statements on facts leave the edges alone that they do not fold. -/
theorem reconcile_undisturbed (F : Family κ α) (r : Dict.Repoint κ α)
    (hfacts : ∀ g facts, F.get { g with facts := facts } = F.get g)
    (hfold : ∀ g p, r.rows (F.get g) = [] → r.rows (F.get (foldFact survivor g p)) = [])
    {inv : Graph → Prop} :
    ∀ c ∈ reconcileFactSubjects loser survivor limit,
      Drain.Undisturbed inv (repointDrain F r survivor limit) c := by
  intro c hc
  simp only [reconcileFactSubjects, List.mem_cons, List.not_mem_nil, or_false] at hc
  rcases hc with rfl | rfl | rfl
  · exact undisturbed_of_keeps F r (fun g => hfacts g _)
  · exact undisturbed_colliding F r hfold
  · exact undisturbed_of_keeps F r (fun g => hfacts g _)

omit [DecidableEq κ] in
theorem rows_foldFact (F : Family κ α) (r : Dict.Repoint κ α)
    (hF : ∀ g facts hasFact factObject factFrom,
      F.get { g with facts := facts, hasFact := hasFact, factObject := factObject,
                     factFrom := factFrom } = F.get g) (g : Graph) (p : Nat × Fact)
    (hrows : r.rows (F.get g) = []) : r.rows (F.get (foldFact survivor g p)) = [] := by
  rw [foldFact_keeps F.get hF]
  exact hrows

theorem foldDrains_pairwise {c : MergeCall} (h : loser ≠ c.survivorId) :
    (foldDrains c loser).Pairwise
      (Drain.Undisturbed (fun g => g.hasEntity c.survivorId = true)) := by
  refine List.pairwise_append.mpr ⟨entityEdgeRepoints_pairwise, ?_, ?_⟩
  · simp only [reconcileFactSubjects, List.pairwise_cons, List.forall_mem_cons, List.not_mem_nil,
      false_implies, implies_true, and_true, List.Pairwise.nil]
    exact ⟨⟨reconcileFree_undisturbed_colliding h, reconcileFree_undisturbed_object⟩,
      reconcileColliding_undisturbed_object⟩
  · intro b hb
    simp only [entityEdgeRepoints, List.mem_cons, List.not_mem_nil, or_false] at hb
    rcases hb with rfl | rfl | rfl | rfl | rfl | rfl | rfl | rfl | rfl | rfl
    · exact reconcile_undisturbed _ _ (fun _ _ => rfl) (rows_foldFact _ _ (fun _ _ _ _ _ => rfl))
    · exact reconcile_undisturbed _ _ (fun _ _ => rfl) (rows_foldFact _ _ (fun _ _ _ _ _ => rfl))
    · exact reconcile_undisturbed _ _ (fun _ _ => rfl) (rows_foldFact _ _ (fun _ _ _ _ _ => rfl))
    · exact reconcile_undisturbed _ _ (fun _ _ => rfl) (rows_foldFact _ _ (fun _ _ _ _ _ => rfl))
    · exact reconcile_undisturbed _ _ (fun _ _ => rfl) (rows_foldFact _ _ (fun _ _ _ _ _ => rfl))
    · exact reconcile_undisturbed _ _ (fun _ _ => rfl) (rows_foldFact _ _ (fun _ _ _ _ _ => rfl))
    · exact reconcile_undisturbed _ _ (fun _ _ => rfl) (rows_foldFact _ _ (fun _ _ _ _ _ => rfl))
    · exact reconcile_undisturbed _ _ (fun _ _ => rfl) (rows_foldFact _ _ (fun _ _ _ _ _ => rfl))
    · exact reconcile_undisturbed _ _ (fun _ _ => rfl) (fun g p hrows => foldFact_hasFact hrows p)
    · exact reconcile_undisturbed _ _ (fun _ _ => rfl) (fun g p hrows => foldFact_factObject hrows p)

/-! ## What a fold leaves -/

/-- A fold touches edges and facts, and no other node. -/
theorem foldDrains_keeps {β : Type} {c : MergeCall} (q : Graph → β)
    (hq : ∀ g mentions coMentioned similarTo inCommunity hasContradiction enrichedFrom facts hasFact
        factObject factFrom,
      q { g with mentions := mentions, coMentioned := coMentioned, similarTo := similarTo,
                 inCommunity := inCommunity, hasContradiction := hasContradiction,
                 enrichedFrom := enrichedFrom, facts := facts, hasFact := hasFact,
                 factObject := factObject, factFrom := factFrom } = q g) :
    ∀ b ∈ foldDrains c loser, ∀ g, q (b.stmt g).1 = q g := by
  intro b hb g
  rcases List.mem_append.mp hb with hb | hb
  · simp only [entityEdgeRepoints, List.mem_cons, List.not_mem_nil, or_false] at hb
    rcases hb with rfl | rfl | rfl | rfl | rfl | rfl | rfl | rfl | rfl | rfl <;>
    exact repointDrain_keeps _ _ q (fun g _ => hq g _ _ _ _ _ _ _ _ _ _) g
  · simp only [reconcileFactSubjects, List.mem_cons, List.not_mem_nil, or_false] at hb
    rcases hb with rfl | rfl | rfl
    · exact hq g _ _ _ _ _ _ _ _ _ _
    · exact reconcileColliding_keeps q (fun g _ _ _ _ => hq g _ _ _ _ _ _ _ _ _ _) g
    · exact hq g _ _ _ _ _ _ _ _ _ _

theorem runAll_keeps_of_eq {β : Type} (q : Graph → β) {bs : List (Drain Graph)}
    (hq : ∀ b ∈ bs, ∀ g, q (b.stmt g).1 = q g) (g : Graph) : q (Drain.runAll bs g) = q g :=
  Drain.runAll_keeps (p := fun g' => q g' = q g) (fun b hb g' hg' => (hq b hb g').trans hg') rfl

theorem runAll_entities (c : MergeCall) (loser : String) (g : Graph) :
    (Drain.runAll (foldDrains c loser) g).entities = g.entities :=
  runAll_keeps_of_eq Graph.entities
    (foldDrains_keeps Graph.entities (fun _ _ _ _ _ _ _ _ _ _ _ => rfl)) g

theorem runAll_sources (c : MergeCall) (loser : String) (g : Graph) :
    (Drain.runAll (foldDrains c loser) g).sources = g.sources :=
  runAll_keeps_of_eq Graph.sources
    (foldDrains_keeps Graph.sources (fun _ _ _ _ _ _ _ _ _ _ _ => rfl)) g

theorem runAll_tombstones (c : MergeCall) (loser : String) (g : Graph) :
    (Drain.runAll (foldDrains c loser) g).tombstones = g.tombstones :=
  runAll_keeps_of_eq Graph.tombstones
    (foldDrains_keeps Graph.tombstones (fun _ _ _ _ _ _ _ _ _ _ _ => rfl)) g

theorem runAll_mergedInto (c : MergeCall) (loser : String) (g : Graph) :
    (Drain.runAll (foldDrains c loser) g).mergedInto = g.mergedInto :=
  runAll_keeps_of_eq Graph.mergedInto
    (foldDrains_keeps Graph.mergedInto (fun _ _ _ _ _ _ _ _ _ _ _ => rfl)) g

/-- The loops after the first one. -/
def laterDrains (c : MergeCall) (loser : String) : List (Drain Graph) :=
  (entityEdgeRepoints loser c.survivorId c.chunk).tail ++
    reconcileFactSubjects loser c.survivorId c.chunk

theorem foldDrains_eq (c : MergeCall) (loser : String) :
    foldDrains c loser =
      repointDrain mentionsFamily (repointMentions loser c.survivorId) c.survivorId c.chunk ::
        laterDrains c loser := rfl

theorem laterDrains_mentions (c : MergeCall) (loser : String) :
    ∀ b ∈ laterDrains c loser, ∀ g, (b.stmt g).1.mentions = g.mentions := by
  intro b hb g
  rcases List.mem_append.mp hb with hb | hb
  · simp only [entityEdgeRepoints, List.tail_cons, List.mem_cons, List.not_mem_nil, or_false] at hb
    rcases hb with rfl | rfl | rfl | rfl | rfl | rfl | rfl | rfl | rfl <;>
    exact repointDrain_keeps _ _ Graph.mentions (fun _ _ => rfl) g
  · simp only [reconcileFactSubjects, List.mem_cons, List.not_mem_nil, or_false] at hb
    rcases hb with rfl | rfl | rfl
    · rfl
    · exact reconcileColliding_keeps Graph.mentions (fun _ _ _ _ _ => rfl) g
    · rfl

/-- All mentions of the loser are moved to the survivor. -/
theorem runAll_mentions {c : MergeCall} (h : loser ≠ c.survivorId) {g : Graph}
    (hg : g.hasEntity c.survivorId = true) :
    (Drain.runAll (foldDrains c loser) g).mentions =
      (repointMentions loser c.survivorId).moveAll g.mentions := by
  have hfirst : ((repointDrain mentionsFamily (repointMentions loser c.survivorId) c.survivorId
      c.chunk).run g).mentions = (repointMentions loser c.survivorId).moveAll g.mentions :=
    get_run_repointDrain mentionsFamily (repointMentions_leaves h) c.chunk_pos hg
  rw [foldDrains_eq, Drain.runAll_cons,
    runAll_keeps_of_eq Graph.mentions (laterDrains_mentions c loser), hfirst]

/-- The survivor is mentioned where one of the two was. -/
theorem get?_moveAll_mentions (h : loser ≠ survivor) (d : Dict (Source × String) Mention)
    (src : Source) (id : String) :
    ((repointMentions loser survivor).moveAll d).get? (src, id) =
      if id = loser then none
      else if id = survivor then (d.get? (src, survivor)).or (d.get? (src, loser))
      else d.get? (src, id) := by
  by_cases hl : id = loser
  · rw [if_pos hl]
    exact Dict.Repoint.get?_moveAll_of_mine (repointMentions_leaves h) d (decide_eq_true hl)
  · rw [if_neg hl]
    by_cases hs : id = survivor
    · subst hs
      rw [if_pos rfl]
      refine Dict.Repoint.get?_moveAll_keep (fun _ _ => rfl) d (decide_eq_false hl)
        (decide_eq_true rfl) rfl ?_
      rintro ⟨src', id'⟩ hmine htarget
      have hid : id' = loser := of_decide_eq_true hmine
      cases htarget
      rw [hid]
    · rw [if_neg hs]
      refine Dict.Repoint.get?_moveAll_other d (decide_eq_false hl) fun k _ htarget => ?_
      cases htarget
      exact hs rfl

end Cerid.EntityGraph
