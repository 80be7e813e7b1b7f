import Cerid.Retrieval.Bm25
import Cerid.Lib.Ranking
import Cerid.Lib.Rounding
import Cerid.Lib.Run

/-!
# Searching a keyword index

A search ranks by the snapshot that the last rebuild published, over-fetches when results
will be filtered, and drops what was removed since and what other tenants own.  The
retriever is a parameter, and what is relied on of it is that it returns the `k` documents
that score highest, in descending order.  Scores are rationals here.
-/

namespace Cerid.Retrieval

open Text (joined)

/-! ## The retriever -/

structure Bm25s where
  /-- The tokens of a query. -/
  tokenize : String → List String
  /-- The score of a document of the corpus. -/
  score : List String → List String → Nat → ℚ
  /-- `retrieve`: positions in the corpus with their scores. -/
  retrieve : List String → List String → Nat → List (Nat × ℚ)

/-- What `retrieve` returns for a `k` that the corpus has. -/
structure Bm25s.Lawful (b : Bm25s) : Prop where
  length : ∀ {corpus tokens k}, k ≤ corpus.length → (b.retrieve corpus tokens k).length = k
  scored : ∀ {corpus tokens k}, k ≤ corpus.length → ∀ p ∈ b.retrieve corpus tokens k,
    p.1 < corpus.length ∧ p.2 = b.score corpus tokens p.1
  nodup : ∀ {corpus tokens k}, k ≤ corpus.length →
    ((b.retrieve corpus tokens k).map Prod.fst).Nodup
  descending : ∀ {corpus tokens k}, k ≤ corpus.length →
    (b.retrieve corpus tokens k).Pairwise (fun p q => q.2 ≤ p.2)
  best : ∀ {corpus tokens k}, k ≤ corpus.length → ∀ i < corpus.length,
    i ∉ (b.retrieve corpus tokens k).map Prod.fst →
      ∀ p ∈ b.retrieve corpus tokens k, b.score corpus tokens i ≤ p.2

/-- The retriever that ranks by a score. -/
def Bm25s.ofScore (tokenize : String → List String) (score : List String → List String → Nat → ℚ) :
    Bm25s where
  tokenize := tokenize
  score := score
  retrieve corpus tokens k :=
    ((rank (score corpus tokens) (List.range corpus.length)).take k).map
      (fun i => (i, score corpus tokens i))

/-! ## Searching -/

variable (defaultTenant : String)

/-- The document may be returned: it was not removed since the rebuild, and is the
tenant's. -/
def Index.admissible (idx : Index) (tenantId : Option String) (chunkId : String) : Bool :=
  chunkId ∉ idx.staleIds &&
    tenantId.all (fun t => (idx.docTenant.get? chunkId).getD defaultTenant = t)

/-- The loop over what was retrieved. -/
def collect (idx : Index) (indexedIds : List String) (tenantId : Option String) (maxScore : ℚ)
    (topK : Nat) : List (Nat × ℚ) → List (String × ℚ) → List (String × ℚ)
  | [], output => output
  | (i, score) :: rest, output =>
    if score ≤ 0 then output
    else
      let chunkId := indexedIds.getD i ""
      if idx.admissible defaultTenant tenantId chunkId = false then
        collect idx indexedIds tenantId maxScore topK rest output
      else
        let output := output ++ [(chunkId, roundTo 4 (score / maxScore))]
        if topK ≤ output.length then output
        else collect idx indexedIds tenantId maxScore topK rest output

/-- How many documents a search asks the retriever for. -/
def fetchK (idx : Index) (topK : Nat) (tenantId : Option String) : Nat :=
  min (if tenantId.isSome ∨ idx.staleIds ≠ [] then topK * 4 else topK) idx.snapshot.2.length

/-- `BM25Index.search`, after its `_maybe_rebuild`. -/
def search (b : Bm25s) (idx : Index) (query : String) (topK : Nat) (tenantId : Option String) :
    List (String × ℚ) :=
  match idx.snapshot with
  | (none, _) => []
  | (some corpus, indexedIds) =>
    if indexedIds = [] then []
    else if b.tokenize query = [] then []
    else
      let results := b.retrieve corpus (b.tokenize query) (fetchK idx topK tenantId)
      match results with
      | [] => []
      | (_, maxScore) :: _ =>
        if maxScore ≤ 0 then []
        else collect defaultTenant idx indexedIds tenantId maxScore topK results []

/-! ## What a search promises -/

/-- The positions, other than `i`, of documents that score as high as it. -/
def rivals (b : Bm25s) (corpus tokens : List String) (i : Nat) : List Nat :=
  (List.range corpus.length).filter (fun j => j ≠ i ∧
    b.score corpus tokens i ≤ b.score corpus tokens j)

/-- The results are documents of the index, of the tenant, in descending order and each at
most once; and a document of the snapshot that may be returned and scores is among them, if
fewer than `topK` that may be returned score as high, and fewer than were asked for of all. -/
structure Searched (b : Bm25s) (idx : Index) (query : String) (topK : Nat)
    (tenantId : Option String) (output : List (String × ℚ)) : Prop where
  mine : ∀ p ∈ output, ∃ r ∈ idx.rows defaultTenant, r.id = p.1 ∧
    ∀ t, tenantId = some t → r.tenantId = t
  descending : output.Pairwise (fun p q => q.2 ≤ p.2)
  distinct : (output.map Prod.fst).Nodup
  found : ∀ corpus indexedIds, idx.snapshot = (some corpus, indexedIds) →
    ∀ i chunkId, indexedIds[i]? = some chunkId →
      idx.admissible defaultTenant tenantId chunkId = true →
      b.tokenize query ≠ [] → 0 < b.score corpus (b.tokenize query) i →
      ((rivals b corpus (b.tokenize query) i).filter (fun j =>
        idx.admissible defaultTenant tenantId (indexedIds.getD j ""))).length < topK →
      (rivals b corpus (b.tokenize query) i).length < fetchK idx topK tenantId →
      chunkId ∈ output.map Prod.fst

/-- Memory and corpus agree after the step, and a search finds what it promises. -/
structure Domain.Keeps (debounce : Nat) (b : Bm25s) (w : Domain) (op : Op) : Prop where
  aligned : (w.step defaultTenant debounce op).index.Aligned
  file : (w.step defaultTenant debounce op).file =
    payload ((w.step defaultTenant debounce op).index.rows defaultTenant)
  reads : ∀ now, (load defaultTenant now (w.step defaultTenant debounce op).file).rows defaultTenant =
    (w.step defaultTenant debounce op).index.rows defaultTenant
  current : (w.step defaultTenant debounce op).index.dirty = false →
    (w.step defaultTenant debounce op).index.staleIds = [] ∧
      (w.step defaultTenant debounce op).index.snapshot =
        if (w.step defaultTenant debounce op).index.texts = [] then (none, [])
        else (some (w.step defaultTenant debounce op).index.texts,
          (w.step defaultTenant debounce op).index.docIds)
  searched : ∀ query topK tenantId now waited, op = .search query topK tenantId now waited →
    Searched defaultTenant b (w.step defaultTenant debounce op).index query topK tenantId
      (search defaultTenant b (w.step defaultTenant debounce op).index query topK tenantId)

theorem Bm25s.ofScore_lawful (tokenize : String → List String)
    (score : List String → List String → Nat → ℚ) : (Bm25s.ofScore tokenize score).Lawful where
  length {corpus tokens k} hk := by
    rw [ofScore, List.length_map, List.length_take, (perm_rank _ _).length_eq, List.length_range]
    exact min_eq_left hk
  scored {corpus tokens k} _ p hp := by
    obtain ⟨i, hi, rfl⟩ := List.mem_map.mp hp
    have hrange := (perm_rank _ _).mem_iff.mp (List.mem_of_mem_take hi)
    exact ⟨List.mem_range.mp hrange, rfl⟩
  nodup {corpus tokens k} _ := by
    have hids : (fun i => (i, score corpus tokens i).1) = id := rfl
    rw [ofScore, List.map_map]
    show (((rank (score corpus tokens) (List.range corpus.length)).take k).map id).Nodup
    rw [List.map_id]
    exact ((perm_rank _ _).nodup_iff.mpr List.nodup_range).sublist (List.take_sublist _ _)
  descending {corpus tokens k} _ :=
    List.Pairwise.map _ (fun _ _ h => h) ((pairwise_rank _ _).sublist (List.take_sublist k _))
  best {corpus tokens k} _ i hi hcut p hp := by
    obtain ⟨j, hj, rfl⟩ := List.mem_map.mp hp
    refine score_le_of_not_mem_take _ (List.mem_range.mpr hi) (fun hmem => hcut ?_) j hj
    exact List.mem_map.mpr ⟨_, List.mem_map.mpr ⟨i, hmem, rfl⟩, rfl⟩

/-! ## The snapshot -/

/-- What the snapshot has to do with the lists. -/
structure Index.Fits (idx : Index) : Prop where
  length : ∀ corpus, idx.snapshot.1 = some corpus → corpus.length = idx.snapshot.2.length
  nodup : idx.snapshot.2.Nodup
  live : ∀ id ∈ idx.snapshot.2, id ∈ idx.docIds ∨ id ∈ idx.staleIds
  current : idx.dirty = false → idx.staleIds = [] ∧
    idx.snapshot = if idx.texts = [] then (none, []) else (some idx.texts, idx.docIds)

theorem fits_start : Index.start.Fits := ⟨nofun, List.nodup_nil, nofun, fun _ => ⟨rfl, rfl⟩⟩

variable {idx : Index}

theorem fits_rebuildLocked (h : idx.Aligned) (now : Nat) : (rebuildLocked now idx).Fits := by
  unfold rebuildLocked
  by_cases hnone : idx.texts = []
  · rw [if_pos hnone]
    exact ⟨nofun, List.nodup_nil, nofun, fun _ => ⟨rfl, (if_pos hnone).symm⟩⟩
  · rw [if_neg hnone]
    refine ⟨fun corpus hc => ?_, h.nodup, fun id hid => Or.inl hid, fun _ => ⟨rfl, (if_neg hnone).symm⟩⟩
    cases hc
    exact h.length

theorem fits_rebuild (h : idx.Aligned) (hf : idx.Fits) (now : Nat) : (rebuild now idx).Fits := by
  unfold rebuild
  split
  · exact fits_rebuildLocked h now
  · exact hf

theorem fits_maybeRebuild (h : idx.Aligned) (hf : idx.Fits) (debounce now : Nat) (waited : Bool) :
    (maybeRebuild debounce now waited idx).Fits := by
  unfold maybeRebuild
  split_ifs
  · exact hf
  · exact fits_rebuild h hf now
  · exact hf
  · exact fits_rebuild h hf now
  · exact hf

/-- What an add leaves of the snapshot and of the lists. -/
structure Frame (idx idx' : Index) : Prop where
  snapshot : idx'.snapshot = idx.snapshot
  staleIds : idx'.staleIds = idx.staleIds
  dirty : idx'.dirty = idx.dirty
  grows : ∀ id ∈ idx.docIds, id ∈ idx'.docIds

theorem addDocument_frame (tenant : String) (acc : Index × List Row) (p : String × String) :
    Frame acc.1 (addDocument tenant acc p).1 := by
  unfold addDocument
  split
  · exact ⟨rfl, rfl, rfl, fun _ h => h⟩
  · split
    · exact ⟨rfl, rfl, rfl, fun _ h => h⟩
    · exact ⟨rfl, rfl, rfl, fun _ h => List.mem_append_left _ h⟩

theorem foldl_addDocument_frame (tenant : String) (ps : List (String × String))
    (acc : Index × List Row) : Frame acc.1 (ps.foldl (addDocument tenant) acc).1 := by
  induction ps generalizing acc with
  | nil => exact ⟨rfl, rfl, rfl, fun _ h => h⟩
  | cons p rest ih =>
    obtain ⟨hsnap, hstale, hdirty, hgrows⟩ := addDocument_frame tenant acc p
    obtain ⟨hsnap', hstale', hdirty', hgrows'⟩ := ih (addDocument tenant acc p)
    rw [List.foldl_cons]
    exact ⟨hsnap'.trans hsnap, hstale'.trans hstale, hdirty'.trans hdirty,
      fun id hid => hgrows' id (hgrows id hid)⟩

theorem Index.Aligned.texts (h : idx.Aligned) : (idx.rows defaultTenant).map Row.text = idx.texts := by
  rw [Index.rows, List.map_map]
  exact List.map_snd_zip h.length.le

theorem fits_addEntries (h : idx.Aligned) (hf : idx.Fits) (chunkIds texts : List String)
    (tenantId : Option String) :
    (addEntries defaultTenant idx chunkIds texts tenantId).1.Fits := by
  obtain ⟨ha, -, hrows⟩ := addEntries_rows defaultTenant h chunkIds texts tenantId
  have hframe := foldl_addDocument_frame (tenantId.getD defaultTenant) (chunkIds.zip texts) (idx, [])
  unfold addEntries at ha hrows ⊢
  simp only at ha hrows ⊢
  generalize (chunkIds.zip texts).foldl (addDocument (tenantId.getD defaultTenant)) (idx, []) = r at *
  obtain ⟨hsnap, hstale, hdirty, hgrows⟩ := hframe
  have hlive : ∀ id ∈ r.1.snapshot.2, id ∈ r.1.docIds ∨ id ∈ r.1.staleIds := by
    intro id hid
    rw [hsnap] at hid
    rw [hstale]
    exact (hf.live id hid).imp_left (hgrows id)
  by_cases hnone : r.2 = []
  · rw [if_pos hnone] at ha hrows ⊢
    rw [hnone, List.append_nil] at hrows
    have hids : r.1.docIds = idx.docIds := by
      rw [← ha.ids defaultTenant, hrows, h.ids]
    have htexts : r.1.texts = idx.texts := by
      rw [← ha.texts defaultTenant, hrows, h.texts]
    refine ⟨?_, ?_, hlive, fun hd => ?_⟩
    · rw [hsnap]
      exact hf.length
    · rw [hsnap]
      exact hf.nodup
    · rw [hstale, hsnap, hids, htexts]
      exact hf.current (hdirty.symm.trans hd)
  · rw [if_neg hnone]
    refine ⟨?_, ?_, hlive, nofun⟩
    · show ∀ corpus, r.1.snapshot.1 = some corpus → corpus.length = r.1.snapshot.2.length
      rw [hsnap]
      exact hf.length
    · show r.1.snapshot.2.Nodup
      rw [hsnap]
      exact hf.nodup

theorem fits_relist (hf : idx.Fits) {kept : List (String × String)} (tenants : Dict String String)
    {lost : List String} (h : ∀ id ∈ idx.docIds, id ∈ kept.map Prod.fst ∨ id ∈ lost) :
    (idx.relist kept tenants lost).Fits where
  length := hf.length
  nodup := hf.nodup
  live id hid := by
    rcases hf.live id hid with hid | hid
    · exact (h id hid).imp_right (List.mem_append_right _)
    · exact Or.inr (List.mem_append_left _ hid)
  current := nofun

theorem fits_removeDocuments {w : Domain} (h : w.index.Aligned) (hf : w.index.Fits)
    (chunkIds : List String) : (removeDocuments defaultTenant w chunkIds).index.Fits := by
  unfold removeDocuments
  simp only
  split
  · exact hf
  · refine fits_relist hf _ (fun id hid => ?_)
    by_cases hr : id ∈ chunkIds.filter (· ∈ w.index.docIdSet)
    · exact Or.inr hr
    · rw [← List.map_fst_zip h.length.ge] at hid
      obtain ⟨p, hp, rfl⟩ := List.mem_map.mp hid
      exact Or.inl (List.mem_map_of_mem (List.mem_filter.mpr ⟨hp, decide_eq_true hr⟩))

/-- Every document keeps its new id among the kept ones. -/
theorem rekeyStep_mem (idx : Index) (mapping : Dict String String) (ps : List (String × String))
    (acc : List (String × String) × Dict String String) :
    (∀ id ∈ acc.1.map Prod.fst, id ∈ (ps.foldl (rekeyStep defaultTenant idx mapping) acc).1.map
      Prod.fst) ∧
      ∀ p ∈ ps, (mapping.get? p.1).getD p.1 ∈
        (ps.foldl (rekeyStep defaultTenant idx mapping) acc).1.map Prod.fst := by
  induction ps generalizing acc with
  | nil => exact ⟨fun _ h => h, nofun⟩
  | cons p rest ih =>
    have hstep : ∀ id, id ∈ acc.1.map Prod.fst ∨ id = (mapping.get? p.1).getD p.1 →
        id ∈ (rekeyStep defaultTenant idx mapping acc p).1.map Prod.fst := by
      intro id hid
      unfold rekeyStep
      simp only
      split
      · next hmem =>
        rcases hid with hid | rfl
        · exact hid
        · exact hmem
      · rw [List.map_append]
        rcases hid with hid | rfl
        · exact List.mem_append_left _ hid
        · exact List.mem_append_right _ List.mem_cons_self
    obtain ⟨hold, hnew⟩ := ih (rekeyStep defaultTenant idx mapping acc p)
    rw [List.foldl_cons]
    refine ⟨fun id hid => hold id (hstep id (Or.inl hid)), fun q hq => ?_⟩
    rcases List.mem_cons.mp hq with rfl | hq
    · exact hold _ (hstep _ (Or.inr rfl))
    · exact hnew q hq

theorem fits_rekey {w : Domain} (h : w.index.Aligned) (hf : w.index.Fits)
    (mapping : Dict String String) : (rekey defaultTenant w mapping).index.Fits := by
  unfold rekey
  simp only
  split
  · exact hf
  · refine fits_relist hf _ (fun id hid => ?_)
    cases hget : mapping.get? id with
    | some new => exact Or.inr (List.mem_filter.mpr ⟨hid, by rw [hget]; rfl⟩)
    | none =>
      have hmem := hid
      rw [← List.map_fst_zip h.length.ge] at hmem
      obtain ⟨p, hp, rfl⟩ := List.mem_map.mp hmem
      have hkept := (rekeyStep_mem defaultTenant w.index mapping _ ([], .empty)).2 p hp
      rw [hget, Option.getD_none] at hkept
      exact Or.inl hkept

theorem aligned_loadLine {idx' : Index} (h : idx.Aligned) {line : List Char}
    (hload : loadLine defaultTenant idx line = some idx') : idx'.Aligned := by
  unfold loadLine at hload
  split at hload
  · cases hload
    exact h
  · obtain ⟨entry, -, hentry⟩ := Option.bind_eq_some_iff.mp hload
    unfold loadEntry at hentry
    split at hentry
    · cases hentry
    · split at hentry
      · cases hentry
        exact h
      · next hnew =>
        split at hentry
        · cases hentry
        · cases hentry
          exact h
        · obtain ⟨tenantId, -, rfl⟩ := Option.map_eq_some_iff.mp hentry
          exact aligned_push h (fun hmem => hnew ((h.set _).mpr hmem))

theorem aligned_foldlM {lines : List (List Char)} {idx' : Index} (h : idx.Aligned)
    (hload : lines.foldlM (loadLine defaultTenant) idx = some idx') : idx'.Aligned := by
  induction lines generalizing idx with
  | nil =>
    cases hload
    exact h
  | cons line rest ih =>
    rw [List.foldlM_cons] at hload
    obtain ⟨next, hnext, hrest⟩ := Option.bind_eq_some_iff.mp hload
    exact ih (aligned_loadLine defaultTenant h hnext) hrest

theorem fits_load (now : Nat) (file : List Char) : (load defaultTenant now file).Fits := by
  unfold load
  split
  · next idx hload => exact fits_rebuildLocked (aligned_foldlM defaultTenant aligned_start hload) now
  · exact fits_start

/-! ## Memory and corpus -/

/-- What every reachable domain is like. -/
structure Domain.Inv (w : Domain) : Prop where
  aligned : w.index.Aligned
  fits : w.index.Fits
  file : w.file = payload (w.index.rows defaultTenant)

theorem Domain.Inv.reads {w : Domain} (h : w.Inv defaultTenant) (now : Nat) :
    (load defaultTenant now w.file).Aligned ∧
      (load defaultTenant now w.file).rows defaultTenant = w.index.rows defaultTenant := by
  have hnd : ((w.index.rows defaultTenant ++ []).map Row.id).Nodup := by
    rw [List.append_nil, h.aligned.ids]
    exact h.aligned.nodup
  obtain ⟨ha, hrows⟩ := load_rows defaultTenant now (Or.inl ⟨rfl, rfl⟩) hnd
  rw [List.append_nil] at hrows
  rw [h.file]
  exact ⟨ha, hrows⟩

theorem inv_start : Domain.start.Inv defaultTenant := ⟨aligned_start, fits_start, rfl⟩

theorem inv_step {w : Domain} (h : w.Inv defaultTenant) (debounce : Nat) (op : Op) :
    (w.step defaultTenant debounce op).Inv defaultTenant := by
  have hsame : ∀ index : Index, index.Aligned → index.Fits →
      index.rows defaultTenant = w.index.rows defaultTenant →
      Domain.Inv defaultTenant { w with index } := fun index ha hf hrows =>
    ⟨ha, hf, h.file.trans (congrArg payload hrows.symm)⟩
  have hrewrite : ∀ w' : Domain, w'.index.Aligned → w'.index.Fits →
      (w' = w ∨ w'.file = payload (w'.index.rows defaultTenant)) → w'.Inv defaultTenant := by
    rintro w' ha hf (rfl | hfile)
    · exact h
    · exact ⟨ha, hf, hfile⟩
  cases op with
  | addDocuments chunkIds texts tenantId =>
    obtain ⟨ha, -, hrows⟩ := addEntries_rows defaultTenant h.aligned chunkIds texts tenantId
    refine ⟨ha, fits_addEntries defaultTenant h.aligned h.fits chunkIds texts tenantId, ?_⟩
    show w.file ++ payload _ = payload ((addEntries defaultTenant w.index chunkIds texts tenantId).1.rows
      defaultTenant)
    rw [hrows, h.file, payload_append]
  | removeDocuments chunkIds =>
    exact hrewrite _ (removeDocuments_rows defaultTenant h.aligned chunkIds).1
      (fits_removeDocuments defaultTenant h.aligned h.fits chunkIds)
      (removeDocuments_file defaultTenant w chunkIds)
  | rekey mapping =>
    exact hrewrite _ (rekey_rows defaultTenant h.aligned mapping).1
      (fits_rekey defaultTenant h.aligned h.fits mapping) (rekey_file defaultTenant w mapping)
  | search query topK tenantId now waited =>
    obtain ⟨ha, hrows⟩ := maybeRebuild_rows defaultTenant debounce now waited h.aligned
    exact hsame _ ha (fits_maybeRebuild h.aligned h.fits debounce now waited) hrows
  | rebuild now =>
    obtain ⟨ha, hrows⟩ := rebuild_rows defaultTenant now h.aligned
    exact hsame _ ha (fits_rebuild h.aligned h.fits now) hrows
  | reload now =>
    obtain ⟨ha, hrows⟩ := h.reads defaultTenant now
    exact hsame _ ha (fits_load defaultTenant now w.file) hrows

/-! ## The results -/

/-- What the loop takes from what was retrieved. -/
def taken (idx : Index) (indexedIds : List String) (tenantId : Option String) (n : Nat)
    (results : List (Nat × ℚ)) : List (Nat × ℚ) :=
  ((results.takeWhile (fun p => 0 < p.2)).filter (fun p =>
    idx.admissible defaultTenant tenantId (indexedIds.getD p.1 ""))).take n

theorem collect_eq (idx : Index) (indexedIds : List String) (tenantId : Option String)
    (maxScore : ℚ) {topK : Nat} (results : List (Nat × ℚ)) {output : List (String × ℚ)}
    (h : output.length < topK) :
    collect defaultTenant idx indexedIds tenantId maxScore topK results output =
      output ++ (taken defaultTenant idx indexedIds tenantId (topK - output.length) results).map
        (fun p => (indexedIds.getD p.1 "", roundTo 4 (p.2 / maxScore))) := by
  induction results generalizing output with
  | nil => simp [collect, taken]
  | cons p rest ih =>
    obtain ⟨i, score⟩ := p
    rw [collect, taken, List.takeWhile_cons]
    by_cases hpos : score ≤ 0
    · have hdec : ¬ decide (0 < score) = true := by simpa using hpos
      rw [if_pos hpos, if_neg hdec]
      simp
    · have hdec : decide (0 < score) = true := by simpa using hpos
      rw [if_neg hpos, if_pos hdec]
      simp only
      by_cases hadm : idx.admissible defaultTenant tenantId (indexedIds.getD i "") = false
      · rw [if_pos hadm, List.filter_cons_of_neg (by rw [hadm]; decide), ih h]
        rfl
      · have hadm' : idx.admissible defaultTenant tenantId (indexedIds.getD i "") = true :=
          Bool.not_eq_false _ ▸ hadm
        have hn : topK - output.length = topK - output.length - 1 + 1 := by omega
        rw [if_neg hadm, List.filter_cons_of_pos (by exact hadm'), hn, List.take_succ_cons,
          List.map_cons]
        split
        · next hfull =>
          rw [List.length_append, List.length_singleton] at hfull
          have hzero : topK - output.length - 1 = 0 := by omega
          rw [hzero, List.take_zero]
          rfl
        · next hmore =>
          rw [ih (by omega), List.append_assoc, List.length_append, List.length_singleton,
            Nat.sub_add_eq]
          rfl

theorem taken_sublist (idx : Index) (indexedIds : List String) (tenantId : Option String) (n : Nat)
    (results : List (Nat × ℚ)) :
    List.Sublist (taken defaultTenant idx indexedIds tenantId n results) results :=
  (List.take_sublist _ _).trans (List.filter_sublist.trans (List.takeWhile_sublist _))

theorem mem_taken {idx : Index} {indexedIds : List String} {tenantId : Option String} {n : Nat}
    {results : List (Nat × ℚ)} {p : Nat × ℚ}
    (h : p ∈ taken defaultTenant idx indexedIds tenantId n results) :
    p ∈ results ∧ idx.admissible defaultTenant tenantId (indexedIds.getD p.1 "") = true :=
  ⟨(taken_sublist defaultTenant idx indexedIds tenantId n results).mem h,
    (List.mem_filter.mp (List.mem_of_mem_take h)).2⟩

theorem Index.Fits.length_eq {idx : Index} (hf : idx.Fits) {corpus indexedIds : List String}
    (hsnap : idx.snapshot = (some corpus, indexedIds)) : corpus.length = indexedIds.length := by
  have hlen := hf.length corpus (by rw [hsnap])
  rwa [hsnap] at hlen

theorem fetchK_le {idx : Index} (hf : idx.Fits) {corpus indexedIds : List String}
    (hsnap : idx.snapshot = (some corpus, indexedIds)) (topK : Nat) (tenantId : Option String) :
    fetchK idx topK tenantId ≤ corpus.length := by
  have hcorpus := hf.length corpus (by rw [hsnap])
  rw [hcorpus]
  exact min_le_right _ _

/-- A search finds nothing, for nothing that was retrieved scores, or takes its results from
what was retrieved. -/
theorem search_eq {b : Bm25s} (hb : b.Lawful) {idx : Index} (hf : idx.Fits) (query : String)
    (topK : Nat) (tenantId : Option String) :
    (search defaultTenant b idx query topK tenantId = [] ∧
      ∀ corpus indexedIds, idx.snapshot = (some corpus, indexedIds) → b.tokenize query ≠ [] →
        ∀ p ∈ b.retrieve corpus (b.tokenize query) (fetchK idx topK tenantId), p.2 ≤ 0) ∨
      ∃ corpus indexedIds maxScore, idx.snapshot = (some corpus, indexedIds) ∧ 0 < maxScore ∧
        search defaultTenant b idx query topK tenantId =
          (taken defaultTenant idx indexedIds tenantId topK
            (b.retrieve corpus (b.tokenize query) (fetchK idx topK tenantId))).map
            (fun p => (indexedIds.getD p.1 "", roundTo 4 (p.2 / maxScore))) := by
  unfold search
  split
  · next hsnap =>
    refine Or.inl ⟨rfl, fun corpus indexedIds heq => ?_⟩
    rw [hsnap] at heq
    cases heq
  · next corpus indexedIds hsnap =>
    have hlen := fetchK_le hf hsnap topK tenantId
    have hnothing : (∀ p ∈ b.retrieve corpus (b.tokenize query) (fetchK idx topK tenantId), p.2 ≤ 0) →
        ∀ corpus' indexedIds', idx.snapshot = (some corpus', indexedIds') → b.tokenize query ≠ [] →
          ∀ p ∈ b.retrieve corpus' (b.tokenize query) (fetchK idx topK tenantId), p.2 ≤ 0 := by
      intro hall corpus' indexedIds' heq _
      rw [hsnap, Prod.mk.injEq, Option.some.injEq] at heq
      rwa [← heq.1]
    by_cases hids : indexedIds = []
    · rw [if_pos hids]
      refine Or.inl ⟨rfl, hnothing (fun p hp => ?_)⟩
      have hzero : fetchK idx topK tenantId = 0 := by
        rw [fetchK, hsnap, hids]
        exact Nat.min_zero _
      have hnone : b.retrieve corpus (b.tokenize query) (fetchK idx topK tenantId) = [] :=
        List.eq_nil_of_length_eq_zero ((hb.length hlen).trans hzero)
      rw [hnone] at hp
      cases hp
    · rw [if_neg hids]
      by_cases htokens : b.tokenize query = []
      · rw [if_pos htokens]
        exact Or.inl ⟨rfl, fun _ _ _ hne => absurd htokens hne⟩
      · rw [if_neg htokens]
        simp only
        split
        · next hresults =>
          refine Or.inl ⟨rfl, hnothing (fun p hp => ?_)⟩
          rw [hresults] at hp
          cases hp
        · next i maxScore rest hresults =>
          have hsorted := @Bm25s.Lawful.descending b hb _ (b.tokenize query) _ hlen
          by_cases hmax : maxScore ≤ 0
          · rw [if_pos hmax]
            refine Or.inl ⟨rfl, hnothing (fun p hp => ?_)⟩
            rw [hresults] at hp hsorted
            rcases List.mem_cons.mp hp with rfl | hp
            · exact hmax
            · exact ((List.pairwise_cons.mp hsorted).1 p hp).trans hmax
          · have hk : 0 < topK := by
              have hpos : 0 < fetchK idx topK tenantId := by
                rw [← hb.length hlen, hresults]
                exact Nat.succ_pos _
              have hle : fetchK idx topK tenantId ≤ topK * 4 := by
                refine (min_le_left _ _).trans ?_
                split <;> omega
              omega
            rw [if_neg hmax]
            refine Or.inr ⟨corpus, indexedIds, maxScore, hsnap, not_le.mp hmax, ?_⟩
            rw [collect_eq defaultTenant idx indexedIds tenantId maxScore _ hk]
            rfl

/-- A document that few rivals reach is retrieved. -/
theorem mem_retrieve {b : Bm25s} (hb : b.Lawful) {corpus tokens : List String} {k i : Nat}
    (hk : k ≤ corpus.length) (hi : i < corpus.length)
    (hfew : (rivals b corpus tokens i).length < k) :
    (i, b.score corpus tokens i) ∈ b.retrieve corpus tokens k := by
  have hmem : i ∈ (b.retrieve corpus tokens k).map Prod.fst := by
    by_contra hcut
    have hsub : (b.retrieve corpus tokens k).map Prod.fst ⊆ rivals b corpus tokens i := by
      intro j hj
      obtain ⟨p, hp, rfl⟩ := List.mem_map.mp hj
      obtain ⟨hlt, hscore⟩ := hb.scored hk p hp
      refine List.mem_filter.mpr ⟨List.mem_range.mpr hlt, decide_eq_true ⟨?_, ?_⟩⟩
      · rintro rfl
        exact hcut hj
      · rw [← hscore]
        exact hb.best hk i hi hcut p hp
    have hle := (hb.nodup hk).length_le_of_subset hsub
    rw [List.length_map, hb.length hk] at hle
    omega
  obtain ⟨p, hp, hpi⟩ := List.mem_map.mp hmem
  have hscore := (hb.scored hk p hp).2
  rw [hpi] at hscore
  rw [← (Prod.ext hpi hscore : p = (i, b.score corpus tokens i))]
  exact hp

/-- A document that may be returned is the tenant's row of that id. -/
theorem row_of_admissible (ha : idx.Aligned) (hf : idx.Fits) {chunkId : String}
    (hid : chunkId ∈ idx.snapshot.2) {tenantId : Option String}
    (hadm : idx.admissible defaultTenant tenantId chunkId = true) :
    ∃ r ∈ idx.rows defaultTenant, r.id = chunkId ∧ ∀ t, tenantId = some t → r.tenantId = t := by
  simp only [Index.admissible, Bool.and_eq_true, decide_eq_true_eq] at hadm
  obtain ⟨hstale, htenant⟩ := hadm
  have hdoc := (hf.live chunkId hid).resolve_right hstale
  rw [← ha.ids defaultTenant] at hdoc
  obtain ⟨r, hr, rfl⟩ := List.mem_map.mp hdoc
  refine ⟨r, hr, rfl, ?_⟩
  rintro t rfl
  obtain ⟨p, -, rfl⟩ := List.mem_map.mp hr
  simpa using htenant

theorem getD_mem {ids : List String} {i : Nat} (h : i < ids.length) : ids.getD i "" ∈ ids := by
  rw [List.getD_eq_getElem?_getD, List.getElem?_eq_getElem h]
  exact List.getElem_mem h

theorem getD_inj {ids : List String} (hnd : ids.Nodup) {i j : Nat} (hi : i < ids.length)
    (hj : j < ids.length) (h : ids.getD i "" = ids.getD j "") : i = j := by
  rw [List.getD_eq_getElem?_getD, List.getD_eq_getElem?_getD, List.getElem?_eq_getElem hi,
    List.getElem?_eq_getElem hj] at h
  exact (hnd.getElem_inj_iff).mp h

/-- What stands in a ranking before few others that pass is taken. -/
theorem mem_taken_of_few {b : Bm25s} (hb : b.Lawful) {corpus indexedIds tokens : List String}
    {tenantId : Option String} {topK k i : Nat} (hk : k ≤ corpus.length)
    (hmem : (i, b.score corpus tokens i) ∈ b.retrieve corpus tokens k)
    (hpos : 0 < b.score corpus tokens i)
    (hadm : idx.admissible defaultTenant tenantId (indexedIds.getD i "") = true)
    (hfew : ((rivals b corpus tokens i).filter (fun j =>
      idx.admissible defaultTenant tenantId (indexedIds.getD j ""))).length < topK) :
    (i, b.score corpus tokens i) ∈
      taken defaultTenant idx indexedIds tenantId topK (b.retrieve corpus tokens k) := by
  obtain ⟨pre, post, hsplit⟩ := List.append_of_mem hmem
  have hscored := @Bm25s.Lawful.scored b hb _ tokens _ hk
  have hsorted := @Bm25s.Lawful.descending b hb _ tokens _ hk
  have hnd := @Bm25s.Lawful.nodup b hb _ tokens _ hk
  rw [hsplit] at hscored hsorted hnd
  rw [List.map_append, List.map_cons] at hnd
  have hge : ∀ q ∈ pre, b.score corpus tokens i ≤ q.2 := fun q hq =>
    (List.pairwise_append.mp hsorted).2.2 q hq _ List.mem_cons_self
  have hrivals : (pre.filter (fun q =>
      idx.admissible defaultTenant tenantId (indexedIds.getD q.1 ""))).map Prod.fst ⊆
      (rivals b corpus tokens i).filter (fun j =>
        idx.admissible defaultTenant tenantId (indexedIds.getD j "")) := by
    intro j hj
    obtain ⟨q, hq, rfl⟩ := List.mem_map.mp hj
    obtain ⟨hq, hqadm⟩ := List.mem_filter.mp hq
    obtain ⟨hlt, hscore⟩ := hscored q (List.mem_append_left _ hq)
    refine List.mem_filter.mpr ⟨List.mem_filter.mpr ⟨List.mem_range.mpr hlt, ?_⟩, hqadm⟩
    refine decide_eq_true ⟨?_, hscore ▸ hge q hq⟩
    intro he
    exact (List.nodup_append.mp hnd).2.2 q.1 (List.mem_map_of_mem hq) i List.mem_cons_self he
  have hpre : (pre.filter (fun q =>
      idx.admissible defaultTenant tenantId (indexedIds.getD q.1 ""))).length < topK := by
    have hsub : List.Sublist ((pre.filter (fun q =>
        idx.admissible defaultTenant tenantId (indexedIds.getD q.1 ""))).map Prod.fst)
        (pre.map Prod.fst) := List.filter_sublist.map _
    have hle := ((List.nodup_append.mp hnd).1.sublist hsub).length_le_of_subset hrivals
    rw [List.length_map] at hle
    omega
  have htake : (pre ++ (i, b.score corpus tokens i) :: post).takeWhile (fun p => 0 < p.2) =
      pre ++ (i, b.score corpus tokens i) :: post.takeWhile (fun p => 0 < p.2) := by
    rw [List.takeWhile_append_of_pos (fun q hq => decide_eq_true (hpos.trans_le (hge q hq))),
      List.takeWhile_cons]
    exact congrArg (pre ++ ·) (if_pos (decide_eq_true hpos))
  rw [hsplit, taken, htake, List.filter_append, List.filter_cons_of_pos (by exact hadm),
    List.take_append]
  refine List.mem_append_right _ ?_
  obtain ⟨n, hn⟩ : ∃ n, topK - (pre.filter (fun q =>
      idx.admissible defaultTenant tenantId (indexedIds.getD q.1 ""))).length = n + 1 :=
    ⟨_, (Nat.succ_pred_eq_of_pos (Nat.sub_pos_of_lt hpre)).symm⟩
  rw [hn, List.take_succ_cons]
  exact List.mem_cons_self

/-- What a search returns is what it promises. -/
theorem searched_search {b : Bm25s} (hb : b.Lawful) (ha : idx.Aligned) (hf : idx.Fits)
    (query : String) (topK : Nat) (tenantId : Option String) :
    Searched defaultTenant b idx query topK tenantId
      (search defaultTenant b idx query topK tenantId) := by
  rcases search_eq defaultTenant hb hf query topK tenantId with
    ⟨hnone, hscores⟩ | ⟨corpus, indexedIds, maxScore, hsnap, hmax, heq⟩
  · rw [hnone]
    refine ⟨nofun, List.Pairwise.nil, List.nodup_nil, ?_⟩
    intro corpus indexedIds hsnap i chunkId hi _ htokens hpos _ hfew
    have hlt : i < corpus.length := by
      rw [hf.length_eq hsnap]
      exact (List.getElem?_eq_some_iff.mp hi).1
    have hmem := mem_retrieve hb (fetchK_le hf hsnap topK tenantId) hlt hfew
    exact absurd (hscores corpus indexedIds hsnap htokens _ hmem) (not_le.mpr hpos)
  · have hk := fetchK_le hf hsnap topK tenantId
    have hlen := hf.length_eq hsnap
    have hrange : ∀ p ∈ taken defaultTenant idx indexedIds tenantId topK
        (b.retrieve corpus (b.tokenize query) (fetchK idx topK tenantId)), p.1 < indexedIds.length := by
      intro p hp
      rw [← hlen]
      exact (hb.scored hk p (mem_taken defaultTenant hp).1).1
    have hsub := taken_sublist defaultTenant idx indexedIds tenantId topK
      (b.retrieve corpus (b.tokenize query) (fetchK idx topK tenantId))
    rw [heq]
    refine ⟨?_, ?_, ?_, ?_⟩
    · intro p hp
      obtain ⟨q, hq, rfl⟩ := List.mem_map.mp hp
      refine row_of_admissible defaultTenant ha hf ?_ (mem_taken defaultTenant hq).2
      rw [hsnap]
      exact getD_mem (hrange q hq)
    · refine List.Pairwise.map _ (fun p q hpq => ?_) ((hb.descending hk).sublist hsub)
      exact roundTo_mono 4 (div_le_div_of_nonneg_right hpq hmax.le)
    · rw [List.map_map]
      have hfst := (hb.nodup hk).sublist (hsub.map Prod.fst)
      have hids : indexedIds.Nodup := by
        have hnd := hf.nodup
        rw [hsnap] at hnd
        exact hnd
      refine List.Nodup.map_on (fun p hp q hq heq => ?_) hfst.of_map
      exact List.inj_on_of_nodup_map hfst hp hq (getD_inj hids (hrange p hp) (hrange q hq) heq)
    · intro corpus' indexedIds' hsnap' i chunkId hi hadm htokens hpos hfew hfetch
      rw [hsnap, Prod.mk.injEq, Option.some.injEq] at hsnap'
      obtain ⟨rfl, rfl⟩ := hsnap'
      have hget : indexedIds.getD i "" = chunkId := by
        rw [List.getD_eq_getElem?_getD, hi]
        rfl
      have hlt : i < corpus.length := by
        rw [hlen]
        exact (List.getElem?_eq_some_iff.mp hi).1
      have hmem := mem_taken_of_few defaultTenant hb hk (mem_retrieve hb hk hlt hfetch) hpos
        (hget.symm ▸ hadm) hfew
      rw [List.map_map]
      exact List.mem_map.mpr ⟨_, hmem, hget⟩

theorem keeps_step {b : Bm25s} (hb : b.Lawful) (debounce : Nat) {w : Domain}
    (h : w.Inv defaultTenant) (op : Op) : w.Keeps defaultTenant debounce b op := by
  have hstep := inv_step defaultTenant h debounce op
  refine ⟨hstep.aligned, hstep.file, fun now => (hstep.reads defaultTenant now).2,
    hstep.fits.current, ?_⟩
  intro query topK tenantId now waited _
  exact searched_search defaultTenant hb hstep.aligned hstep.fits query topK tenantId

section Words

/-- A query is one token, and a document scores when it is that token. -/
def oneWord : Bm25s :=
  .ofScore (fun query => if query = "" then [] else [query])
    (fun corpus tokens i => if corpus.getD i "" ∈ tokens then 1 else 0)

/-- Two documents are added and a search follows each; the second comes too soon after the
first rebuild. -/
def debounced : List Op := [
  .addDocuments ["a"] ["alpha"] none, .search "alpha" 10 (some "default") 0 true,
  .addDocuments ["b"] ["alpha"] none]

end Words

end Cerid.Retrieval
