import Cerid.Lib.Distinct
import Cerid.Lib.Ranking
import Cerid.Lib.Tally

/-!
# Reciprocal rank fusion

The scores of ranked lists are fused by rank alone.  Of the chunks of an artifact only the first
one of each list counts, and takes one rank.

Weights and scores are rationals.
-/

namespace Cerid.Retrieval.Rrf

variable {κ α σ : Type} [DecidableEq α]

/-! ## Fusion -/

/-- What is raised. -/
inductive Error where
  | k (k : ℤ)
  | weights (weights rankings : Nat)
deriving DecidableEq, Repr

/-- The weights of the rankings, 1 where none are given. -/
def weightsOf (weights : Option (List ℚ)) (n : Nat) : Except Error (List ℚ) :=
  match weights with
  | none => .ok (List.replicate n 1)
  | some ws => if ws.length ≠ n then .error (.weights ws.length n) else .ok ws

/-- What a ranking adds to the scores. -/
def fuseRanking (k : ℤ) (fused : Dict α ℚ) (ranking : List (α × σ)) (weight : ℚ) : Dict α ℚ :=
  ranking.zipIdx.foldl (fun fused p => fused.add p.1.1 (weight / (k + p.2 + 1))) fused

/-- `rrf_fuse`. -/
def rrfFuse (rankings : List (List (α × σ))) (k : ℤ) (weights : Option (List ℚ)) :
    Except Error (List (α × ℚ)) :=
  if k ≤ 0 then .error (.k k)
  else (weightsOf weights rankings.length).map fun ws =>
    let fused := (rankings.zip ws).foldl (fun fused p => fuseRanking k fused p.1 p.2) .empty
    rank Prod.snd fused.items

/-- The scores, and the artifacts of the ranking so far. -/
structure Scan (α : Type) where
  fused : Dict α ℚ
  seen : List α
  rankIdx : Nat

/-- A chunk of the ranking. -/
def Scan.chunk (k : ℤ) (weight : ℚ) (artifactOf : κ → α) (s : Scan α) (docId : κ) : Scan α :=
  let art := artifactOf docId
  if art ∈ s.seen then s
  else {
    fused := s.fused.add art (weight / (k + s.rankIdx + 1))
    seen := art :: s.seen
    rankIdx := s.rankIdx + 1 }

def fuseArtifacts (k : ℤ) (artifactOf : κ → α) (fused : Dict α ℚ) (ranking : List (κ × σ))
    (weight : ℚ) : Dict α ℚ :=
  (ranking.foldl (fun (s : Scan α) p => s.chunk k weight artifactOf p.1) ⟨fused, [], 0⟩).fused

/-- `rrf_fuse_by_artifact`. -/
def rrfFuseByArtifact (rankings : List (List (κ × σ))) (artifactOf : κ → α) (k : ℤ)
    (weights : Option (List ℚ)) : Except Error (Dict α ℚ) :=
  if k ≤ 0 then .error (.k k)
  else (weightsOf weights rankings.length).map fun ws =>
    (rankings.zip ws).foldl (fun fused p => fuseArtifacts k artifactOf fused p.1 p.2) .empty

/-! ## One entry for each artifact -/

/-- The artifacts of a ranking, each at its first chunk. -/
def collapse (artifactOf : κ → α) (ranking : List (κ × σ)) : List (α × σ) :=
  firstOf Prod.fst [] (ranking.map fun p => (artifactOf p.1, p.2))

/-- The ranks of what is left of a ranking are counted on. -/
theorem scan_fold (k : ℤ) (weight : ℚ) (artifactOf : κ → α) (ranking : List (κ × σ)) (s : Scan α) :
    (ranking.foldl (fun (s : Scan α) p => s.chunk k weight artifactOf p.1) s).fused =
      let firsts := firstOf Prod.fst s.seen (ranking.map fun p => (artifactOf p.1, p.2))
      (firsts.zipIdx s.rankIdx).foldl
        (fun fused p => fused.add p.1.1 (weight / (k + p.2 + 1))) s.fused := by
  induction ranking generalizing s with
  | nil => rfl
  | cons p rest ih =>
    rw [List.foldl_cons, ih, List.map_cons, firstOf, Scan.chunk]
    by_cases hseen : artifactOf p.1 ∈ s.seen
    · simp only [hseen, if_true]
    · simp only [hseen, if_false, List.zipIdx_cons, List.foldl_cons]

theorem fuseArtifacts_eq (k : ℤ) (artifactOf : κ → α) (fused : Dict α ℚ) (ranking : List (κ × σ))
    (weight : ℚ) :
    fuseArtifacts k artifactOf fused ranking weight =
      fuseRanking k fused (collapse artifactOf ranking) weight := by
  rw [fuseArtifacts, scan_fold]
  rfl

theorem foldl_fuseArtifacts (k : ℤ) (artifactOf : κ → α) (rankings : List (List (κ × σ)))
    (ws : List ℚ) (d : Dict α ℚ) :
    (rankings.zip ws).foldl (fun fused p => fuseArtifacts k artifactOf fused p.1 p.2) d =
      ((rankings.map (collapse artifactOf)).zip ws).foldl
        (fun fused p => fuseRanking k fused p.1 p.2) d := by
  rw [List.zip_map_left, List.foldl_map]
  simp only [fuseArtifacts_eq, Prod.map_fst, Prod.map_snd, id_eq]

/-- The two fusions agree on the collapsed rankings. -/
theorem rrfFuse_collapse (rankings : List (List (κ × σ))) (artifactOf : κ → α) (k : ℤ)
    (weights : Option (List ℚ)) :
    rrfFuse (rankings.map (collapse artifactOf)) k weights =
      (rrfFuseByArtifact rankings artifactOf k weights).map fun d => rank Prod.snd d.items := by
  unfold rrfFuse rrfFuseByArtifact
  split
  · rfl
  · rw [List.length_map]
    cases weightsOf weights rankings.length with
    | error e => rfl
    | ok ws =>
      simp only [Except.map, foldl_fuseArtifacts]

/-- Only the collapsed rankings matter. -/
theorem rrfFuseByArtifact_congr {artifactOf : κ → α} {rankings rankings' : List (List (κ × σ))}
    (h : rankings'.map (collapse artifactOf) = rankings.map (collapse artifactOf)) (k : ℤ)
    (weights : Option (List ℚ)) :
    rrfFuseByArtifact rankings' artifactOf k weights =
      rrfFuseByArtifact rankings artifactOf k weights := by
  have hlength : rankings'.length = rankings.length := by
    simpa only [List.length_map] using congrArg List.length h
  unfold rrfFuseByArtifact
  simp only [foldl_fuseArtifacts, h, hlength]

/-! ## More chunks, another order -/

/-- Further chunks of artifacts that the ranking has before them. -/
inductive Thickened (artifactOf : κ → α) (ranking : List (κ × σ)) : List (κ × σ) → Prop
  | refl : Thickened artifactOf ranking ranking
  | insert {front back : List (κ × σ)} {c : κ × σ} :
      Thickened artifactOf ranking (front ++ back) →
      artifactOf c.1 ∈ front.map (fun p => artifactOf p.1) →
      Thickened artifactOf ranking (front ++ c :: back)

theorem collapse_thickened {artifactOf : κ → α} {ranking ranking' : List (κ × σ)}
    (h : Thickened artifactOf ranking ranking') :
    collapse artifactOf ranking' = collapse artifactOf ranking := by
  induction h with
  | refl => rfl
  | @insert front back c _ hmem ih =>
    rw [← ih, collapse, collapse, List.map_append, List.map_append, List.map_cons]
    refine firstOf_insert (Or.inl ?_)
    rwa [List.map_map]

/-- What the rankings add, one after the other. -/
def hits (k : ℤ) (pairs : List (List (α × σ) × ℚ)) : List (α × ℚ) :=
  pairs.flatMap fun p => p.1.zipIdx.map fun q => (q.1.1, p.2 / (k + q.2 + 1))

theorem foldl_fuseRanking (k : ℤ) (pairs : List (List (α × σ) × ℚ)) :
    pairs.foldl (fun fused p => fuseRanking k fused p.1 p.2) .empty =
      Dict.tally (hits k pairs) := by
  rw [Dict.tally, hits, List.foldl_flatMap]
  simp only [List.foldl_map, fuseRanking]

theorem get?_tally_perm {xs ys : List (α × ℚ)} (h : xs.Perm ys) (a : α) :
    (Dict.tally xs).get? a = (Dict.tally ys).get? a := by
  have hkeys : a ∈ (Dict.tally xs).keys ↔ a ∈ (Dict.tally ys).keys := by
    rw [Dict.keys_tally, Dict.keys_tally, mem_firsts, mem_firsts, (h.map Prod.fst).mem_iff]
  have hsum : ((Dict.tally xs).get? a).getD 0 = ((Dict.tally ys).get? a).getD 0 := by
    rw [Dict.getD_tally, Dict.getD_tally, ((h.filter _).map Prod.snd).sum_eq]
  by_cases hmem : a ∈ (Dict.tally xs).keys
  · obtain ⟨v, hv⟩ := (Dict.mem_keys_iff _ a).mp hmem
    obtain ⟨w, hw⟩ := (Dict.mem_keys_iff _ a).mp (hkeys.mp hmem)
    rw [hv, hw] at hsum ⊢
    exact congrArg some hsum
  · rw [(Dict.get?_eq_none_iff _ a).mpr hmem,
      (Dict.get?_eq_none_iff _ a).mpr fun hy => hmem (hkeys.mpr hy)]

/-- The scores of a fusion that succeeds. -/
def scores (result : Except Error (Dict α ℚ)) : Except Error (α → Option ℚ) :=
  result.map Dict.get?

theorem scores_perm {artifactOf : κ → α} {k : ℤ} {pairs pairs' : List (List (κ × σ) × ℚ)}
    (h : pairs.Perm pairs') :
    scores (rrfFuseByArtifact (pairs.map Prod.fst) artifactOf k (some (pairs.map Prod.snd))) =
      scores (rrfFuseByArtifact (pairs'.map Prod.fst) artifactOf k
        (some (pairs'.map Prod.snd))) := by
  have hfused : ∀ pairs : List (List (κ × σ) × ℚ),
      pairs.foldl (fun fused p => fuseArtifacts k artifactOf fused p.1 p.2) .empty =
        Dict.tally (hits k (pairs.map fun p => (collapse artifactOf p.1, p.2))) := by
    intro pairs
    rw [← foldl_fuseRanking, List.foldl_map]
    simp only [fuseArtifacts_eq]
  have hwhole : ∀ pairs : List (List (κ × σ) × ℚ),
      scores (rrfFuseByArtifact (pairs.map Prod.fst) artifactOf k (some (pairs.map Prod.snd))) =
        if k ≤ 0 then .error (.k k)
        else .ok (Dict.tally (hits k (pairs.map fun p => (collapse artifactOf p.1, p.2)))).get? := by
    intro pairs
    rw [← hfused]
    unfold rrfFuseByArtifact
    split
    · rfl
    · simp only [weightsOf, List.length_map, ne_eq, not_true_eq_false, if_false, scores, Except.map]
      rw [List.zip_map', List.map_id'']
      exact fun _ => rfl
  rw [hwhole, hwhole]
  have hhits := (h.map fun p => (collapse artifactOf p.1, p.2)).flatMap_right
    fun p : List (α × σ) × ℚ => p.1.zipIdx.map fun q => (q.1.1, p.2 / (k + q.2 + 1))
  have hsame : (Dict.tally (hits k (pairs.map fun p => (collapse artifactOf p.1, p.2)))).get? =
      (Dict.tally (hits k (pairs'.map fun p => (collapse artifactOf p.1, p.2)))).get? :=
    funext fun a => get?_tally_perm hhits a
  rw [hsame]

/-- Without weights each ranking has the weight 1. -/
theorem rrfFuseByArtifact_none (rankings : List (List (κ × σ))) (artifactOf : κ → α) (k : ℤ) :
    rrfFuseByArtifact rankings artifactOf k none =
      rrfFuseByArtifact rankings artifactOf k (some (List.replicate rankings.length 1)) := by
  unfold rrfFuseByArtifact
  simp [weightsOf]

/-- The fusion by artifact is the fusion of the collapsed rankings; further chunks change nothing,
and neither does the order of the rankings. -/
theorem rrfFuseByArtifact_spec (artifactOf : κ → α) (k : ℤ) :
    (∀ (rankings : List (List (κ × σ))) (weights : Option (List ℚ)),
      rrfFuse (rankings.map (collapse artifactOf)) k weights =
        (rrfFuseByArtifact rankings artifactOf k weights).map fun d => rank Prod.snd d.items) ∧
    (∀ (rankings rankings' : List (List (κ × σ))) (weights : Option (List ℚ)),
      List.Forall₂ (Thickened artifactOf) rankings rankings' →
      rrfFuseByArtifact rankings' artifactOf k weights =
        rrfFuseByArtifact rankings artifactOf k weights) ∧
    (∀ pairs pairs' : List (List (κ × σ) × ℚ), pairs.Perm pairs' →
      scores (rrfFuseByArtifact (pairs.map Prod.fst) artifactOf k (some (pairs.map Prod.snd))) =
        scores (rrfFuseByArtifact (pairs'.map Prod.fst) artifactOf k
          (some (pairs'.map Prod.snd)))) ∧
    (∀ rankings rankings' : List (List (κ × σ)), rankings.Perm rankings' →
      scores (rrfFuseByArtifact rankings artifactOf k none) =
        scores (rrfFuseByArtifact rankings' artifactOf k none)) := by
  refine ⟨fun rankings weights => rrfFuse_collapse rankings artifactOf k weights,
    fun rankings rankings' weights hthick => ?_, fun pairs pairs' hperm => scores_perm hperm,
    fun rankings rankings' hperm => ?_⟩
  · have hcollapse : rankings'.map (collapse artifactOf) = rankings.map (collapse artifactOf) := by
      induction hthick with
      | nil => rfl
      | cons h _ ih => rw [List.map_cons, List.map_cons, collapse_thickened h, ih]
    exact rrfFuseByArtifact_congr hcollapse k weights
  · have hpairs := @scores_perm _ _ _ _ artifactOf k _ _ (hperm.map fun r => (r, (1 : ℚ)))
    have hfst : ∀ rs : List (List (κ × σ)), (rs.map fun r => (r, (1 : ℚ))).map Prod.fst = rs := by
      intro rs
      rw [List.map_map]
      exact List.map_id rs
    have hsnd : ∀ rs : List (List (κ × σ)),
        (rs.map fun r => (r, (1 : ℚ))).map Prod.snd = List.replicate rs.length 1 := by
      intro rs
      rw [List.map_map]
      exact List.map_const'
    rw [hfst, hfst, hsnd, hsnd] at hpairs
    rw [rrfFuseByArtifact_none, rrfFuseByArtifact_none]
    exact hpairs

/-- A second chunk at the end of a ranking, and two rankings the other way round. -/
theorem second_chunk :
    rrfFuseByArtifact [[(10, ()), (20, ()), (11, ())]] (· / 10) 60 none =
        rrfFuseByArtifact [[(10, ()), (20, ())]] (· / 10) 60 none ∧
      scores (rrfFuseByArtifact [[(10, ())], [(20, ()), (11, ())]] (· / 10) 60 none) =
        scores (rrfFuseByArtifact [[(20, ()), (11, ())], [(10, ())]] (· / 10) 60 none) := by
  obtain ⟨_, hthick, _, hperm⟩ := rrfFuseByArtifact_spec (σ := Unit) (fun c : Nat => c / 10) 60
  refine ⟨hthick _ _ none (.cons ?_ .nil), hperm _ _ (List.Perm.swap _ _ _)⟩
  exact @Thickened.insert _ _ _ _ _ [(10, ()), (20, ())] [] (11, ()) .refl (by decide)

end Cerid.Retrieval.Rrf
