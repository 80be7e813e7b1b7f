import Cerid.Lib.Positions
import Cerid.Lib.Ranking
import Mathlib.Data.List.Induction
import Mathlib.Order.Bounds.Basic

/-!
# Content hits and question hits

The hits of the hypothetical questions are merged into the content hits, each into the hit of
its parent chunk.  A parent that no hit has yet is put at the end.  The hits are changed in
place, so the index holds positions of the merged list.

Relevances are rationals.
-/

namespace Cerid.Retrieval.Hype

inductive Value where
  | str (s : String)
  | num (x : ℚ)
  | dict (items : List (String × Value))

/-- A hit: the keys that the merge reads or writes, and the other fields. -/
structure Hit where
  chunkId : Option String
  id : Option String
  sourceChunkId : Option String
  relevance : Option ℚ
  artifactId : Option String
  hypeBoosted : Option Bool
  hypeSource : Option Bool
  fields : Dict String Value

/-- `hit.get("chunk_id") or hit.get("id", "")`. -/
def Hit.cid (hit : Hit) : String :=
  let chunkId := hit.chunkId.getD ""
  if chunkId = "" then hit.id.getD "" else chunkId

def Hit.score (hit : Hit) : ℚ := hit.relevance.getD 0

/-- What a hit that no content hit stands for has where the question hit says nothing. -/
def defaults : Dict String Value where
  items := [("content", .str ""), ("filename", .str ""), ("domain", .str ""),
    ("chunk_index", .num 0), ("collection", .str ""), ("ingested_at", .str ""),
    ("sub_category", .str ""), ("tags_json", .str "[]"), ("keywords", .str "[]"),
    ("memory_type", .str ""), ("source_type", .str "kb"), ("metadata", .dict [])]
  nodup := by decide

/-- The hit of a parent that is not there yet. -/
def newHit (hypeHit : Hit) (sourceChunkId : String) (hypeRelevance : ℚ) : Hit where
  chunkId := some sourceChunkId
  id := hypeHit.id
  sourceChunkId := none
  relevance := some hypeRelevance
  artifactId := some (hypeHit.artifactId.getD "")
  hypeBoosted := hypeHit.hypeBoosted
  hypeSource := some true
  fields := defaults.merge hypeHit.fields

/-- A hit whose parent is there. -/
def Hit.boost (hypeRelevance : ℚ) (existing : Hit) : Hit :=
  if existing.score < hypeRelevance then
    { existing with relevance := some hypeRelevance, hypeBoosted := some true }
  else existing

structure Merge where
  merged : List Hit
  contentByChunk : Dict String Nat

/-- The index of the content hits. -/
def contentByChunk (contentHits : List Hit) : Dict String Nat :=
  contentHits.zipIdx.foldl
    (fun index p => if p.1.cid = "" then index else index.set p.1.cid p.2) .empty

/-- One question hit; without a parent it is dropped. -/
def Merge.add (s : Merge) (hypeHit : Hit) : Merge :=
  let sourceChunkId := hypeHit.sourceChunkId.getD ""
  if sourceChunkId = "" then s
  else match s.contentByChunk.get? sourceChunkId with
    | some i => { s with merged := s.merged.modify i (Hit.boost hypeHit.score) }
    | none => {
        merged := s.merged ++ [newHit hypeHit sourceChunkId hypeHit.score]
        contentByChunk := s.contentByChunk.set sourceChunkId s.merged.length }

def merge (contentHits hypeHits : List Hit) : Merge :=
  hypeHits.foldl Merge.add ⟨contentHits, contentByChunk contentHits⟩

/-- `dedup_with_hype_results`. -/
def dedupWithHypeResults (contentHits hypeHits : List Hit) : List Hit :=
  rank Hit.score (merge contentHits hypeHits).merged

/-! ## What a merge is for -/

/-- The chunk of a hit, if it names one. -/
def Hit.chunk (hit : Hit) : Option String := if hit.cid = "" then none else some hit.cid

/-- The chunk that a question hit points to. -/
def Hit.parent (hypeHit : Hit) : Option String :=
  if hypeHit.sourceChunkId.getD "" = "" then none else some (hypeHit.sourceChunkId.getD "")

/-- The relevances of a chunk, over its content and its question hits. -/
def relevances (contentHits hypeHits : List Hit) (cid : String) : Set ℚ :=
  {x | (∃ hit ∈ contentHits, hit.cid = cid ∧ hit.score = x) ∨
    ∃ hit ∈ hypeHits, hit.parent = some cid ∧ hit.score = x}

/-- A hit that is kept, whatever becomes of its relevance. -/
def Hit.Keeps (hit hit' : Hit) : Prop :=
  { hit' with relevance := hit.relevance, hypeBoosted := hit.hypeBoosted } = hit

/-- The chunks and relevances of a result. -/
def ranked (hits : List Hit) : Set (String × ℚ) := {p | ∃ hit ∈ hits, (hit.cid, hit.score) = p}

/-! ## One question hit -/

theorem chunk_eq_some {hit : Hit} {cid : String} :
    hit.chunk = some cid ↔ hit.cid = cid ∧ cid ≠ "" := by
  unfold Hit.chunk
  by_cases h : hit.cid = ""
  · rw [if_pos h]
    constructor
    · intro he
      cases he
    · rintro ⟨rfl, hne⟩
      exact absurd h hne
  · rw [if_neg h, Option.some_inj]
    constructor
    · rintro rfl
      exact ⟨rfl, h⟩
    · exact And.left

theorem ne_of_parent {hit : Hit} {cid : String} (h : hit.parent = some cid) : cid ≠ "" := by
  unfold Hit.parent at h
  split at h
  · cases h
  · rw [← Option.some.inj h]
    assumption

@[simp] theorem cid_boost (x : ℚ) (hit : Hit) : (hit.boost x).cid = hit.cid := by
  unfold Hit.boost
  split <;> rfl

@[simp] theorem score_boost (x : ℚ) (hit : Hit) : (hit.boost x).score = max hit.score x := by
  unfold Hit.boost
  split
  · exact (max_eq_right (le_of_lt ‹_›)).symm
  · exact (max_eq_left (le_of_not_gt ‹_›)).symm

theorem keeps_boost {hit hit' : Hit} (h : hit.Keeps hit') (x : ℚ) : hit.Keeps (hit'.boost x) := by
  unfold Hit.boost
  split
  · exact h
  · exact h

theorem cid_newHit (hit : Hit) {cid : String} (h : cid ≠ "") (x : ℚ) :
    (newHit hit cid x).cid = cid :=
  if_neg h

section Relevances

variable {contentHits seen : List Hit} {hit : Hit} {cid : String}

/-- A hit adds its relevance to those of its parent. -/
theorem relevances_concat : relevances contentHits (seen ++ [hit]) cid =
    relevances contentHits seen cid ∪ {x | hit.parent = some cid ∧ hit.score = x} := by
  ext x
  simp only [relevances, List.mem_append, List.mem_singleton, Set.mem_union, Set.mem_ofPred_eq,
    or_and_right, exists_or, exists_eq_left, or_assoc]

theorem relevances_concat_of_ne (h : hit.parent ≠ some cid) :
    relevances contentHits (seen ++ [hit]) cid = relevances contentHits seen cid := by
  rw [relevances_concat]
  refine Set.union_eq_left.mpr ?_
  rintro x ⟨hp, -⟩
  exact absurd hp h

theorem isGreatest_concat {x : ℚ} (h : hit.parent = some cid)
    (hx : IsGreatest (relevances contentHits seen cid) x) :
    IsGreatest (relevances contentHits (seen ++ [hit]) cid) (max x hit.score) := by
  have hone : {y | hit.parent = some cid ∧ hit.score = y} = {hit.score} := by
    ext y
    simp [h, eq_comm]
  rw [relevances_concat, hone]
  exact hx.union isGreatest_singleton

/-- A chunk that no hit has is known by this hit alone. -/
theorem isGreatest_new (h : hit.parent = some cid) (hcontent : ∀ x ∈ contentHits, x.cid ≠ cid)
    (hseen : ∀ x ∈ seen, x.parent ≠ some cid) :
    IsGreatest (relevances contentHits (seen ++ [hit]) cid) hit.score := by
  constructor
  · exact Or.inr ⟨hit, List.mem_append_right _ List.mem_cons_self, h, rfl⟩
  · rintro y (⟨x, hx, hc, -⟩ | ⟨x, hx, hp, rfl⟩)
    · exact absurd hc (hcontent x hx)
    · rcases List.mem_append.mp hx with hx | hx
      · exact absurd hp (hseen x hx)
      · rw [List.mem_singleton.mp hx]

end Relevances

/-! ## The loop -/

/-- What holds after the question hits `seen`. -/
structure Merged (contentHits seen : List Hit) (s : Merge) : Prop where
  index : Positions Hit.chunk s.contentByChunk s.merged
  distinct : (s.merged.map Hit.cid).Nodup
  kept : ∀ hit ∈ contentHits, ∃ hit' ∈ s.merged, hit.Keeps hit' ∧ hit'.cid = hit.cid
  chunks : ∀ cid, cid ∈ s.merged.map Hit.cid ↔
    cid ∈ contentHits.map Hit.cid ∨ some cid ∈ seen.map Hit.parent
  best : ∀ hit ∈ s.merged, IsGreatest (relevances contentHits seen hit.cid) hit.score

theorem positions_contentByChunk (contentHits : List Hit) (h : (contentHits.map Hit.cid).Nodup) :
    Positions Hit.chunk (contentByChunk contentHits) contentHits := by
  induction contentHits using List.reverseRecOn with
  | nil => exact Positions.nil
  | append_singleton hits hit ih =>
    rw [List.map_append, List.nodup_append] at h
    have hindex := ih h.1
    have hstep : contentByChunk (hits ++ [hit]) =
        if hit.cid = "" then contentByChunk hits
        else (contentByChunk hits).set hit.cid hits.length := by
      rw [contentByChunk, List.zipIdx_append, List.foldl_append]
      simp [contentByChunk]
    rw [hstep]
    by_cases hc : hit.cid = ""
    · rw [if_pos hc]
      exact hindex.append_of_none (if_pos hc)
    · rw [if_neg hc]
      refine hindex.append (hindex.get?_eq_none.mpr fun x hx hk => ?_) (if_neg hc)
      exact h.2.2 x.cid (List.mem_map_of_mem hx) hit.cid (List.mem_singleton.mpr rfl)
        (chunk_eq_some.mp hk).1

theorem merged_start {contentHits : List Hit} (h : (contentHits.map Hit.cid).Nodup) :
    Merged contentHits [] ⟨contentHits, contentByChunk contentHits⟩ where
  index := positions_contentByChunk contentHits h
  distinct := h
  kept hit hhit := ⟨hit, hhit, rfl, rfl⟩
  chunks cid := by simp
  best hit hhit := by
    refine ⟨Or.inl ⟨hit, hhit, rfl, rfl⟩, ?_⟩
    rintro y (⟨x, hx, hc, rfl⟩ | ⟨x, hx, -⟩)
    · rw [List.inj_on_of_nodup_map h hx hhit hc]
    · exact absurd hx List.not_mem_nil

section Step

variable {contentHits seen : List Hit} {s : Merge} {hit : Hit}

/-- The hit of the chunk is boosted. -/
theorem Merged.boost (h : Merged contentHits seen s) {cid : String} {i : Nat}
    (hp : hit.parent = some cid) (hi : s.contentByChunk.get? cid = some i) :
    Merged contentHits (seen ++ [hit])
      { s with merged := s.merged.modify i (Hit.boost hit.score) } := by
  obtain ⟨x, hx, hk⟩ := (h.index cid i).mp hi
  obtain ⟨hxc, hne⟩ := chunk_eq_some.mp hk
  have hkeys : (s.merged.modify i (Hit.boost hit.score)).map Hit.cid = s.merged.map Hit.cid := by
    refine List.ext_getElem? fun n => ?_
    rw [List.getElem?_map, List.getElem?_map, List.getElem?_modify]
    cases s.merged[n]? with
    | none => rfl
    | some y =>
      by_cases hn : i = n
      · simp [hn]
      · simp [hn]
  have hmem : ∀ {y}, y ∈ s.merged → y ∈ s.merged.modify i (Hit.boost hit.score) ∨
      y.boost hit.score ∈ s.merged.modify i (Hit.boost hit.score) := by
    intro y hy
    obtain ⟨n, hn⟩ := List.mem_iff_getElem?.mp hy
    have hget := s.merged.getElem?_modify (Hit.boost hit.score) i n
    rw [hn] at hget
    by_cases hin : i = n
    · rw [hin] at hget
      simp only [if_true] at hget
      exact Or.inr (List.mem_of_getElem? (hin ▸ hget))
    · simp only [if_neg hin] at hget
      exact Or.inl (List.mem_of_getElem? hget)
  refine ⟨h.index.modify (fun y => ?_) i, hkeys ▸ h.distinct, fun y hy => ?_, fun c => ?_,
    fun y hy => ?_⟩
  · rw [Hit.chunk, Hit.chunk, cid_boost]
  · obtain ⟨y', hy', hkeeps, hcid⟩ := h.kept y hy
    rcases hmem hy' with hin | hin
    · exact ⟨y', hin, hkeeps, hcid⟩
    · exact ⟨y'.boost hit.score, hin, keeps_boost hkeeps _, (cid_boost _ _).trans hcid⟩
  · rw [hkeys, h.chunks, List.map_append, List.mem_append]
    constructor
    · exact Or.imp_right Or.inl
    · rintro (hc | hc | hc)
      · exact Or.inl hc
      · exact Or.inr hc
      · have he : cid = c := Option.some.inj (hp.symm.trans (List.mem_singleton.mp hc).symm)
        rw [← h.chunks, ← he, ← hxc]
        exact List.mem_map_of_mem (List.mem_of_getElem? hx)
  · obtain ⟨n, hn⟩ := List.mem_iff_getElem?.mp hy
    rw [List.getElem?_modify] at hn
    obtain ⟨z, hz, hzy⟩ := Option.map_eq_some_iff.mp hn
    have hbest := h.best z (List.mem_of_getElem? hz)
    by_cases hin : i = n
    · subst hin
      obtain rfl := Option.some.inj (hx.symm.trans hz)
      rw [if_pos rfl] at hzy
      rw [← hzy, cid_boost, score_boost]
      exact isGreatest_concat (hxc ▸ hp) hbest
    · rw [if_neg hin] at hzy
      subst hzy
      rw [relevances_concat_of_ne]
      · exact hbest
      · -- the chunk has one position only
        intro hzp
        have hzc : z.cid = cid := Option.some.inj (hzp.symm.trans hp)
        have hpos := (h.index cid n).mpr ⟨z, hz, chunk_eq_some.mpr ⟨hzc, hne⟩⟩
        exact hin (Option.some.inj (hi.symm.trans hpos))

/-- The chunk gets a hit of its own. -/
theorem Merged.concat (h : Merged contentHits seen s) {cid : String}
    (hp : hit.parent = some cid) (hi : s.contentByChunk.get? cid = none) :
    Merged contentHits (seen ++ [hit])
      { merged := s.merged ++ [newHit hit cid hit.score]
        contentByChunk := s.contentByChunk.set cid s.merged.length } := by
  have hne := ne_of_parent hp
  have hcid := cid_newHit hit hne hit.score
  have hnew : cid ∉ s.merged.map Hit.cid := by
    intro hmem
    obtain ⟨x, hx, hxc⟩ := List.mem_map.mp hmem
    exact h.index.get?_eq_none.mp hi x hx (chunk_eq_some.mpr ⟨hxc, hne⟩)
  have hnone := fun hor => hnew ((h.chunks cid).mpr hor)
  refine ⟨h.index.append hi (chunk_eq_some.mpr ⟨hcid, hne⟩), ?_, fun y hy => ?_, fun c => ?_,
    fun y hy => ?_⟩
  · rw [List.map_append, List.map_singleton, hcid, List.nodup_append]
    refine ⟨h.distinct, List.nodup_singleton _, fun a ha b hb hab => ?_⟩
    rw [hab, List.mem_singleton.mp hb] at ha
    exact hnew ha
  · obtain ⟨y', hy', hkeeps⟩ := h.kept y hy
    exact ⟨y', List.mem_append_left _ hy', hkeeps⟩
  · rw [List.map_append, List.map_singleton, hcid, List.mem_append, h.chunks, List.map_append,
      List.map_singleton, List.mem_append, hp, List.mem_singleton, List.mem_singleton,
      Option.some_inj, or_assoc]
  · rcases List.mem_append.mp hy with hy | hy
    · rw [relevances_concat_of_ne]
      · exact h.best y hy
      · intro hyp
        have hyc : cid = y.cid := Option.some.inj (hp.symm.trans hyp)
        exact hnew (hyc ▸ List.mem_map_of_mem hy)
    · rw [List.mem_singleton.mp hy, hcid]
      refine isGreatest_new hp (fun x hx hxc => hnone (Or.inl ?_)) fun x hx hxp => hnone (Or.inr ?_)
      · exact hxc ▸ List.mem_map_of_mem hx
      · exact hxp ▸ List.mem_map_of_mem hx

theorem Merged.add (h : Merged contentHits seen s) (hit : Hit) :
    Merged contentHits (seen ++ [hit]) (s.add hit) := by
  unfold Merge.add
  by_cases hsource : hit.sourceChunkId.getD "" = ""
  · have hp : hit.parent = none := if_pos hsource
    simp only [if_pos hsource]
    refine ⟨h.index, h.distinct, h.kept, fun c => ?_, fun y hy => ?_⟩
    · rw [h.chunks, List.map_append, List.map_singleton, hp]
      simp
    · rw [relevances_concat_of_ne (hp ▸ nofun)]
      exact h.best y hy
  · have hp : hit.parent = some (hit.sourceChunkId.getD "") := if_neg hsource
    simp only [if_neg hsource]
    cases hi : s.contentByChunk.get? (hit.sourceChunkId.getD "") with
    | some i => exact h.boost hp hi
    | none => exact h.concat hp hi

end Step

theorem merged_foldl {contentHits : List Hit} (hypeHits : List Hit) {seen : List Hit} {s : Merge}
    (h : Merged contentHits seen s) :
    Merged contentHits (seen ++ hypeHits) (hypeHits.foldl Merge.add s) := by
  induction hypeHits generalizing seen s with
  | nil => rwa [List.append_nil]
  | cons hit rest ih =>
    have hrest := ih (h.add hit)
    rwa [List.append_assoc] at hrest

theorem merged_merge {contentHits : List Hit} (h : (contentHits.map Hit.cid).Nodup)
    (hypeHits : List Hit) : Merged contentHits hypeHits (merge contentHits hypeHits) :=
  merged_foldl hypeHits (merged_start h)

/-! ## The result -/

theorem mem_dedup {contentHits hypeHits : List Hit} {hit : Hit} :
    hit ∈ dedupWithHypeResults contentHits hypeHits ↔
      hit ∈ (merge contentHits hypeHits).merged :=
  (perm_rank Hit.score _).mem_iff

/-- What is returned is what the hits say of each chunk, and that is all. -/
theorem mem_ranked {contentHits : List Hit} (h : (contentHits.map Hit.cid).Nodup)
    (hypeHits : List Hit) (cid : String) (x : ℚ) :
    (cid, x) ∈ ranked (dedupWithHypeResults contentHits hypeHits) ↔
      IsGreatest (relevances contentHits hypeHits cid) x := by
  have hmerged := merged_merge h hypeHits
  constructor
  · rintro ⟨hit, hmem, he⟩
    obtain ⟨rfl, rfl⟩ := Prod.mk.inj he
    exact hmerged.best hit (mem_dedup.mp hmem)
  · intro hx
    have hchunk : cid ∈ (merge contentHits hypeHits).merged.map Hit.cid := by
      rw [hmerged.chunks]
      rcases hx.1 with ⟨hit, hmem, rfl, -⟩ | ⟨hit, hmem, hp, -⟩
      · exact Or.inl (List.mem_map_of_mem hmem)
      · exact Or.inr (hp ▸ List.mem_map_of_mem hmem)
    obtain ⟨hit, hmem, rfl⟩ := List.mem_map.mp hchunk
    exact ⟨hit, mem_dedup.mpr hmem, Prod.ext rfl ((hmerged.best hit hmem).unique hx)⟩

theorem relevances_perm {contentHits hypeHits hypeHits' : List Hit} (h : hypeHits.Perm hypeHits')
    (cid : String) :
    relevances contentHits hypeHits cid = relevances contentHits hypeHits' cid := by
  ext x
  simp only [relevances, Set.mem_ofPred_eq, h.mem_iff]

/-- Each chunk of a content hit or of a question hit is returned, once, with its best relevance,
and the best chunk first; the order of the question hits decides none of this. -/
theorem dedupWithHypeResults_spec (contentHits hypeHits : List Hit)
    (h : (contentHits.map Hit.cid).Nodup) :
    ((dedupWithHypeResults contentHits hypeHits).map Hit.cid).Nodup ∧
      (∀ hit ∈ contentHits, ∃ hit' ∈ dedupWithHypeResults contentHits hypeHits,
        hit.Keeps hit' ∧ hit'.cid = hit.cid) ∧
      (∀ cid, cid ∈ (dedupWithHypeResults contentHits hypeHits).map Hit.cid ↔
        cid ∈ contentHits.map Hit.cid ∨ some cid ∈ hypeHits.map Hit.parent) ∧
      (∀ hit ∈ dedupWithHypeResults contentHits hypeHits,
        IsGreatest (relevances contentHits hypeHits hit.cid) hit.score) ∧
      (dedupWithHypeResults contentHits hypeHits).Pairwise (fun a b => b.score ≤ a.score) ∧
      ∀ hypeHits', hypeHits.Perm hypeHits' →
        ranked (dedupWithHypeResults contentHits hypeHits') =
          ranked (dedupWithHypeResults contentHits hypeHits) := by
  have hmerged := merged_merge h hypeHits
  have hperm := perm_rank Hit.score (merge contentHits hypeHits).merged
  refine ⟨?_, fun hit hhit => ?_, fun cid => ?_, fun hit hhit => ?_, pairwise_rank _ _,
    fun hypeHits' hp => ?_⟩
  · exact (hperm.map Hit.cid).nodup_iff.mpr hmerged.distinct
  · obtain ⟨hit', hmem, hkeeps⟩ := hmerged.kept hit hhit
    exact ⟨hit', mem_dedup.mpr hmem, hkeeps⟩
  · rw [dedupWithHypeResults, (hperm.map Hit.cid).mem_iff]
    exact hmerged.chunks cid
  · exact hmerged.best hit (mem_dedup.mp hhit)
  · ext ⟨cid, x⟩
    rw [mem_ranked h, mem_ranked h, relevances_perm hp]

/-- A hit of its chunk, and a hit of a question for a chunk. -/
def plainHit (chunkId : String) (relevance : ℚ) : Hit :=
  ⟨some chunkId, none, none, some relevance, none, none, none, .empty⟩

def questionHit (sourceChunkId : String) (relevance : ℚ) : Hit :=
  ⟨none, none, some sourceChunkId, some relevance, none, none, none, .empty⟩

/-- Two questions for a chunk that the content search has not found. -/
theorem dedupWithHypeResults_twice :
    ranked (dedupWithHypeResults [plainHit "a" 1] [questionHit "b" 3, questionHit "b" 2]) =
      ranked (dedupWithHypeResults [plainHit "a" 1] [questionHit "b" 2, questionHit "b" 3]) :=
  (dedupWithHypeResults_spec [plainHit "a" 1] [questionHit "b" 2, questionHit "b" 3]
    (List.nodup_singleton _)).2.2.2.2.2 _ (List.Perm.swap _ _ _)

end Cerid.Retrieval.Hype
