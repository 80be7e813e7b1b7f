import Cerid.Lib.Ranking
import Cerid.Lib.Rounding
import Cerid.Lib.Run
import Cerid.Lib.Tally
import Cerid.Retrieval.Bm25
import Mathlib.Algebra.BigOperators.Ring.List

/-!
# A sparse index and its tenants

One domain of the sparse index: a vector a document, and for each token the documents that
have it.  A search adds up the products token by token, ranks the documents of all tenants,
and only then looks at who owns them.

The encoder is outside: what it returned is an input of the call, as is what a load finds in
the corpus.  Weights are rationals.
-/

namespace Cerid.Retrieval.Sparse

/-- A weight for each token. -/
abbrev Vec := Dict Nat ℚ

structure SparseIndex where
  docs : Dict String Vec
  postings : Dict Nat (List (String × ℚ))
  docTenant : Dict String String

def SparseIndex.start : SparseIndex where
  docs := .empty
  postings := .empty
  docTenant := .empty

/-- The chunk ids and texts of a call; the ids of a document's chunks are distinct. -/
structure Batch where
  chunks : List (String × String)
  nodup : (chunks.map Prod.fst).Nodup

/-- A line of the corpus; without an id it has the empty one. -/
structure Entry where
  id : String
  tenantId : Option String
  v : Vec

/-! ## Changing the index -/

/-- A document goes into the list of each of its tokens. -/
def post (postings : Dict Nat (List (String × ℚ))) (chunkId : String) (vec : Vec) :
    Dict Nat (List (String × ℚ)) :=
  vec.items.foldl (fun postings w =>
    postings.set w.1 ((postings.get? w.1).getD [] ++ [(chunkId, w.2)])) postings

def rebuildPostings (docs : Dict String Vec) : Dict Nat (List (String × ℚ)) :=
  docs.items.foldl (fun postings d => post postings d.1 d.2) .empty

def SparseIndex.put (idx : SparseIndex) (chunkId : String) (vec : Vec) (tenant : String) :
    SparseIndex where
  docs := idx.docs.set chunkId vec
  postings := post idx.postings chunkId vec
  docTenant := idx.docTenant.set chunkId tenant

variable (defaultTenant : String)

/-- One vector of an add; an empty one is skipped. -/
def addVector (tenant : String) (idx : SparseIndex) (p : String × Vec) : SparseIndex :=
  if p.2.items = [] then idx else idx.put p.1 p.2 tenant

/-- `encodeBatch` is `none` where the encoder fails or is not there. -/
def addDocuments (idx : SparseIndex) (batch : Batch)
    (encodeBatch : List String → Option (List Vec)) (tenantId : Option String) : SparseIndex :=
  let new := batch.chunks.filter (fun c => (idx.docs.get? c.1).isNone && !blank c.2)
  if new = [] then idx
  else match encodeBatch (new.map Prod.snd) with
    | none => idx
    | some vectors =>
      ((new.map Prod.fst).zip vectors).foldl (addVector (tenantId.getD defaultTenant)) idx

def removeDocuments (idx : SparseIndex) (chunkIds : List String) : SparseIndex :=
  let removeSet := chunkIds.filter (fun c => (idx.docs.get? c).isSome)
  if removeSet = [] then idx
  else
    let docs := removeSet.foldl Dict.erase idx.docs
    { docs := docs
      postings := rebuildPostings docs
      docTenant := removeSet.foldl Dict.erase idx.docTenant }

def rekeyStep (idx : SparseIndex) (mapping : Dict String String)
    (acc : Dict String Vec × Dict String String) (d : String × Vec) :
    Dict String Vec × Dict String String :=
  let new := (mapping.get? d.1).getD d.1
  if (acc.1.get? new).isSome then acc
  else (acc.1.set new d.2, acc.2.set new ((idx.docTenant.get? d.1).getD defaultTenant))

def rekey (idx : SparseIndex) (mapping : Dict String String) : SparseIndex :=
  if idx.docs.keys.filter (fun c => (mapping.get? c).isSome) = [] then idx
  else
    let r := idx.docs.items.foldl (rekeyStep defaultTenant idx mapping) (.empty, .empty)
    { docs := r.1
      postings := rebuildPostings r.1
      docTenant := r.2 }

/-- One line of the loop of `_load`. -/
def loadEntry (idx : SparseIndex) (e : Entry) : SparseIndex :=
  if e.id = "" ∨ e.v.items = [] then idx
  else if (idx.docs.get? e.id).isSome then idx
  else idx.put e.id e.v (e.tenantId.getD defaultTenant)

def load (entries : List Entry) : SparseIndex := entries.foldl (loadEntry defaultTenant) .start

inductive Op where
  | addDocuments (batch : Batch) (encodeBatch : List String → Option (List Vec))
      (tenantId : Option String)
  | removeDocuments (chunkIds : List String)
  | rekey (mapping : Dict String String)
  | load (entries : List Entry)

def SparseIndex.step (idx : SparseIndex) : Op → SparseIndex
  | .addDocuments batch encodeBatch tenantId =>
    Sparse.addDocuments defaultTenant idx batch encodeBatch tenantId
  | .removeDocuments chunkIds => Sparse.removeDocuments idx chunkIds
  | .rekey mapping => Sparse.rekey defaultTenant idx mapping
  | .load entries => Sparse.load defaultTenant entries

/-! ## Searching -/

def SparseIndex.tenantOf (idx : SparseIndex) (docId : String) : String :=
  (idx.docTenant.get? docId).getD defaultTenant

/-- The dot products, added up over the tokens of the query. -/
def scores (postings : Dict Nat (List (String × ℚ))) (qVec : Vec) : Dict String ℚ :=
  qVec.items.foldl (fun scores t =>
    ((postings.get? t.1).getD []).foldl (fun scores p => scores.add p.1 (t.2 * p.2)) scores) .empty

/-- The loop over what was fetched. -/
def collect (owned : String → Bool) (maxScore : ℚ) (topK : Nat) :
    List (String × ℚ) → List (String × ℚ) → List (String × ℚ)
  | [], output => output
  | (docId, score) :: rest, output =>
    if owned docId = false then collect owned maxScore topK rest output
    else
      let output := output ++ [(docId, roundTo 4 (score / maxScore))]
      if topK ≤ output.length then output else collect owned maxScore topK rest output

/-- `SparseIndex.search`, with what the encoder made of the query; `none` is a failure. -/
def search (idx : SparseIndex) (encoded : Option Vec) (topK : Nat) (tenantId : Option String) :
    List (String × ℚ) :=
  if idx.docs.items = [] then []
  else match encoded with
    | none => []
    | some qVec =>
      if qVec.items = [] then []
      else
        let ranked := rank Prod.snd (scores idx.postings qVec).items
        let fetchK := if tenantId.isSome then topK * 4 else topK
        match ranked with
        | [] => []
        | (_, maxScore) :: _ =>
          if maxScore ≤ 0 then []
          else collect (fun docId => tenantId.all (fun t => idx.tenantOf defaultTenant docId = t))
            maxScore topK (ranked.take fetchK) []

/-! ## What a tenant asks for -/

/-- The documents that have a token of the query, as they are met token by token. -/
def met (docs : Dict String Vec) (qVec : Vec) : List String :=
  firsts (qVec.items.flatMap (fun t =>
    (docs.items.filter (fun d => (d.2.get? t.1).isSome)).map Prod.fst))

def dot (qVec vec : Vec) : ℚ := (qVec.items.map (fun t => t.2 * (vec.get? t.1).getD 0)).sum

/-- The documents that have a token of the query, ranked by their dot products. -/
def ranking (docs : Dict String Vec) (qVec : Vec) : List (String × ℚ) :=
  rank Prod.snd ((met docs qVec).map (fun id => (id, dot qVec ((docs.get? id).getD .empty))))

/-- The first `k` with their products over the best one, if that is positive. -/
def trueTop (docs : Dict String Vec) (qVec : Vec) (k : Nat) : List (String × ℚ) :=
  match ranking docs qVec with
  | [] => []
  | (_, best) :: _ =>
    if best ≤ 0 then []
    else ((ranking docs qVec).take k).map (fun p => (p.1, roundTo 4 (p.2 / best)))

/-- The documents of a tenant. -/
def SparseIndex.mine (idx : SparseIndex) (tenantId : String) : Dict String Vec :=
  idx.docs.filter (fun id _ => idx.tenantOf defaultTenant id = tenantId)

/-- The documents of others, of `docs`, are not in the way of those of `own`: each of the
first `k` is fetched, and the best product of all rounds its score as the own best does. -/
def Undisturbed (docs own : Dict String Vec) (qVec : Vec) (k : Nat) : Prop :=
  match ranking docs qVec, ranking own qVec with
  | [], _ => True
  | _, [] => True
  | (_, best) :: _, (_, ownBest) :: _ =>
    if best ≤ 0 then True
    else if ownBest ≤ 0 then ∀ p ∈ ranking own qVec, p ∉ (ranking docs qVec).take (k * 4)
    else ∀ p ∈ (ranking own qVec).take k,
      p ∈ (ranking docs qVec).take (k * 4) ∧ roundTo 4 (p.2 / best) = roundTo 4 (p.2 / ownBest)

/-! ## The lists hold the documents -/

/-- The list of a token. -/
def listed (postings : Dict Nat (List (String × ℚ))) (tid : Nat) : List (String × ℚ) :=
  (postings.get? tid).getD []

/-- The documents that have a token, with its weights. -/
def holders (docs : List (String × Vec)) (tid : Nat) : List (String × ℚ) :=
  docs.filterMap (fun d => (d.2.get? tid).map (fun w => (d.1, w)))

def SparseIndex.Built (idx : SparseIndex) : Prop :=
  ∀ tid, listed idx.postings tid = holders idx.docs.items tid

theorem listed_set (postings : Dict Nat (List (String × ℚ))) (tid tid' : Nat) (p : String × ℚ) :
    listed (postings.set tid ((postings.get? tid).getD [] ++ [p])) tid' =
      if tid' = tid then listed postings tid' ++ [p] else listed postings tid' := by
  rw [listed, Dict.get?_set]
  by_cases h : tid' = tid
  · rw [if_pos h, if_pos h, h]
    rfl
  · rw [if_neg h, if_neg h]
    rfl

theorem listed_post (postings : Dict Nat (List (String × ℚ))) (chunkId : String) (vec : Vec)
    (tid : Nat) : listed (post postings chunkId vec) tid =
      listed postings tid ++ ((vec.get? tid).map (fun w => (chunkId, w))).toList := by
  obtain ⟨items, hnd⟩ := vec
  show listed (items.foldl _ postings) tid = listed postings tid ++
    (((items.find? (fun p => p.1 = tid)).map Prod.snd).map (fun w => (chunkId, w))).toList
  induction items generalizing postings with
  | nil => exact (List.append_nil _).symm
  | cons w rest ih =>
    rw [List.map_cons, List.nodup_cons] at hnd
    rw [List.foldl_cons, ih _ hnd.2, listed_set]
    by_cases hw : w.1 = tid
    · subst hw
      rw [if_pos rfl, find?_eq_none_of_not_mem Prod.fst hnd.1, List.append_assoc]
      simp
    · rw [if_neg (fun he => hw he.symm), List.find?_cons_of_neg (by simpa using hw)]

theorem listed_foldl_post (docs : List (String × Vec)) (postings : Dict Nat (List (String × ℚ)))
    (tid : Nat) : listed (docs.foldl (fun postings d => post postings d.1 d.2) postings) tid =
      listed postings tid ++ holders docs tid := by
  induction docs generalizing postings with
  | nil => exact (List.append_nil _).symm
  | cons d rest ih =>
    rw [List.foldl_cons, ih, listed_post, List.append_assoc]
    refine congrArg (listed postings tid ++ ·) ?_
    cases hget : d.2.get? tid <;> simp [holders, hget]

theorem built_rebuild (docs : Dict String Vec) (docTenant : Dict String String) :
    SparseIndex.Built { docs := docs, postings := rebuildPostings docs, docTenant := docTenant } :=
  fun tid => listed_foldl_post docs.items .empty tid

theorem built_start : SparseIndex.start.Built := fun _ => rfl

variable {idx : SparseIndex}

theorem built_put (h : idx.Built) {chunkId : String} (hnew : chunkId ∉ idx.docs.keys) (vec : Vec)
    (tenant : String) : (idx.put chunkId vec tenant).Built := by
  intro tid
  show listed (post idx.postings chunkId vec) tid = holders (idx.docs.set chunkId vec).items tid
  rw [listed_post, h tid, Dict.items_set_of_not_mem _ hnew, holders, holders, List.filterMap_append]
  refine congrArg (_ ++ ·) ?_
  cases hget : vec.get? tid <;> simp [hget]

theorem map_fst_zip_isPrefix {α β : Type} (xs : List α) (ys : List β) :
    (xs.zip ys).map Prod.fst <+: xs := by
  induction xs generalizing ys with
  | nil => exact List.nil_prefix
  | cons x rest ih =>
    cases ys with
    | nil => exact List.nil_prefix
    | cons y ys => exact (List.prefix_cons_inj x).mpr (ih ys)

section Added

variable (tenant : String) (inv : SparseIndex → Prop)
  (hput : ∀ i chunkId vec, inv i → chunkId ∉ i.docs.keys → inv (i.put chunkId vec tenant))
include hput

theorem foldl_addVector_invariant (ps : List (String × Vec)) (hnd : (ps.map Prod.fst).Nodup)
    (h : inv idx) (hnew : ∀ p ∈ ps, p.1 ∉ idx.docs.keys) :
    inv (ps.foldl (addVector tenant) idx) := by
  induction ps generalizing idx with
  | nil => exact h
  | cons p rest ih =>
    obtain ⟨hp, hrest⟩ := List.nodup_cons.mp hnd
    have hkeys : ∀ q ∈ rest, q.1 ∉ idx.docs.keys := fun q hq => hnew q (List.mem_cons_of_mem _ hq)
    rw [List.foldl_cons]
    by_cases hempty : p.2.items = []
    · rw [addVector, if_pos hempty]
      exact ih hrest h hkeys
    · rw [addVector, if_neg hempty]
      have hpnew := hnew p List.mem_cons_self
      refine ih hrest (hput idx p.1 p.2 h hpnew) (fun q hq hmem => ?_)
      have hset : q.1 ∈ (idx.docs.set p.1 p.2).keys := hmem
      rw [Dict.keys_set, if_neg hpnew] at hset
      rcases List.mem_append.mp hset with hold | hold
      · exact hkeys q hq hold
      · exact hp (List.mem_singleton.mp hold ▸ List.mem_map_of_mem hq)

/-- An add puts documents one by one, each under an id that is new. -/
theorem addDocuments_invariant (h : inv idx) (batch : Batch)
    (encodeBatch : List String → Option (List Vec)) {tenantId : Option String}
    (htenant : tenantId.getD defaultTenant = tenant) :
    inv (addDocuments defaultTenant idx batch encodeBatch tenantId) := by
  unfold addDocuments
  simp only
  split
  · exact h
  · split
    · exact h
    · next vectors _ =>
      have hsub : (((batch.chunks.filter (fun c => (idx.docs.get? c.1).isNone && !blank c.2)).map
          Prod.fst).zip vectors).map Prod.fst <+: (batch.chunks.filter (fun c =>
            (idx.docs.get? c.1).isNone && !blank c.2)).map Prod.fst :=
        map_fst_zip_isPrefix _ vectors
      rw [htenant]
      refine foldl_addVector_invariant tenant inv hput _ ?_ h (fun p hp => ?_)
      · exact (batch.nodup.sublist (List.filter_sublist.map Prod.fst)).sublist hsub.sublist
      · have hmem := hsub.subset (List.mem_map_of_mem (f := Prod.fst) hp)
        obtain ⟨c, hc, hce⟩ := List.mem_map.mp hmem
        have hnone := (List.mem_filter.mp hc).2
        rw [Bool.and_eq_true, Option.isNone_iff_eq_none, hce] at hnone
        exact (Dict.get?_eq_none_iff _ _).mp hnone.1

end Added

theorem built_loadEntry (h : idx.Built) (e : Entry) : (loadEntry defaultTenant idx e).Built := by
  unfold loadEntry
  split
  · exact h
  · split
    · exact h
    · next hnone =>
      rw [Bool.not_eq_true, Option.isSome_eq_false_iff, Option.isNone_iff_eq_none] at hnone
      exact built_put h ((Dict.get?_eq_none_iff _ _).mp hnone) _ _

theorem built_step (h : idx.Built) (op : Op) : (idx.step defaultTenant op).Built := by
  cases op with
  | addDocuments batch encodeBatch tenantId =>
    exact addDocuments_invariant defaultTenant _ SparseIndex.Built
      (fun _ _ vec hi hnew => built_put hi hnew vec _) h batch encodeBatch rfl
  | removeDocuments chunkIds =>
    show (removeDocuments idx chunkIds).Built
    unfold removeDocuments
    simp only
    split
    · exact h
    · exact built_rebuild _ _
  | rekey mapping =>
    show (rekey defaultTenant idx mapping).Built
    unfold rekey
    simp only
    split
    · exact h
    · exact built_rebuild _ _
  | load entries =>
    exact foldl_invariant (loadEntry defaultTenant) SparseIndex.Built (p := fun _ => True)
      (fun _ e hi _ => built_loadEntry defaultTenant hi e) built_start (fun _ _ => trivial)

/-- In every run the lists hold the documents. -/
theorem built_run (run : List Op) :
    (run.foldl (SparseIndex.step defaultTenant) SparseIndex.start).Built :=
  foldl_invariant (SparseIndex.step defaultTenant) SparseIndex.Built (p := fun _ => True)
    (fun _ op hi _ => built_step defaultTenant hi op) built_start (fun _ _ => trivial)

/-! ## The scores are dot products -/

/-- What the loops add up, in their order. -/
def hits (postings : Dict Nat (List (String × ℚ))) (qVec : Vec) : List (String × ℚ) :=
  qVec.items.flatMap (fun t => (listed postings t.1).map (fun p => (p.1, t.2 * p.2)))

theorem scores_eq_tally (postings : Dict Nat (List (String × ℚ))) (qVec : Vec) :
    scores postings qVec = Dict.tally (hits postings qVec) := by
  rw [Dict.tally, hits, List.foldl_flatMap]
  simp only [List.foldl_map]
  rfl

theorem holders_cons (d : String × Vec) (rest : List (String × Vec)) (tid : Nat) :
    holders (d :: rest) tid =
      ((d.2.get? tid).map (fun w => (d.1, w))).toList ++ holders rest tid := by
  rw [holders, holders]
  cases hget : d.2.get? tid with
  | none => exact List.filterMap_cons_none (by rw [hget]; rfl)
  | some w => exact List.filterMap_cons_some (by rw [hget]; rfl)

theorem holders_fst (docs : List (String × Vec)) (tid : Nat) :
    (holders docs tid).map Prod.fst =
      (docs.filter (fun d => (d.2.get? tid).isSome)).map Prod.fst := by
  induction docs with
  | nil => rfl
  | cons d rest ih =>
    rw [holders_cons, List.map_append, ih, List.filter_cons]
    cases d.2.get? tid <;> rfl

/-- A token weighs in a document what the lists say of it. -/
theorem sum_holders (docs : Dict String Vec) (tid : Nat) (id : String) :
    (((holders docs.items tid).filter (fun p => p.1 = id)).map Prod.snd).sum =
      (((docs.get? id).getD .empty).get? tid).getD 0 := by
  obtain ⟨items, hnd⟩ := docs
  show _ = ((((items.find? (fun p => p.1 = id)).map Prod.snd).getD .empty).get? tid).getD 0
  show (((holders items tid).filter (fun p => p.1 = id)).map Prod.snd).sum = _
  induction items with
  | nil => rfl
  | cons d rest ih =>
    obtain ⟨hnew, hrest⟩ := List.nodup_cons.mp hnd
    rw [holders_cons, List.filter_append, List.map_append, List.sum_append, ih hrest]
    by_cases hd : d.1 = id
    · have hnone : rest.find? (fun p => p.1 = id) = none :=
        find?_eq_none_of_not_mem Prod.fst (hd ▸ hnew)
      rw [hnone, List.find?_cons_of_pos (by simpa using hd)]
      cases hget : d.2.get? tid <;> simp [hd, hget]
    · rw [List.find?_cons_of_neg (by simpa using hd)]
      cases d.2.get? tid <;> simp [hd]

theorem hits_fst (h : idx.Built) (qVec : Vec) :
    firsts ((hits idx.postings qVec).map Prod.fst) = met idx.docs qVec := by
  rw [hits, met, List.map_flatMap]
  refine congrArg firsts (List.flatMap_congr (fun t _ => ?_))
  rw [List.map_map, ← holders_fst, ← h t.1]
  rfl

theorem hits_sum (h : idx.Built) (qVec : Vec) (id : String) :
    (((hits idx.postings qVec).filter (fun p => p.1 = id)).map Prod.snd).sum =
      dot qVec ((idx.docs.get? id).getD .empty) := by
  rw [hits, dot, List.filter_flatMap, List.map_flatMap, List.flatMap_def, List.sum_flatten,
    List.map_map]
  refine congrArg List.sum (List.map_congr_left (fun t _ => ?_))
  show ((((listed idx.postings t.1).map (fun p => (p.1, t.2 * p.2))).filter
    (fun p => p.1 = id)).map Prod.snd).sum = _
  rw [← sum_holders, ← h t.1, List.filter_map, List.map_map, ← List.sum_map_mul_left]
  rfl

/-- The scores of a search are the dot products of the documents that have a token of the
query. -/
theorem rank_scores (h : idx.Built) (qVec : Vec) :
    rank Prod.snd (scores idx.postings qVec).items = ranking idx.docs qVec := by
  rw [scores_eq_tally, Dict.items_tally, hits_fst h, ranking]
  exact congrArg (rank Prod.snd) (List.map_congr_left (fun id _ => Prod.ext rfl (hits_sum h qVec id)))

/-! ## The documents of one tenant -/

theorem met_filter (docs : Dict String Vec) (owned : String → Bool) (qVec : Vec) :
    met (docs.filter (fun id _ => owned id)) qVec = (met docs qVec).filter owned := by
  rw [met, met, filter_firsts, List.filter_flatMap]
  refine congrArg firsts (List.flatMap_congr (fun t _ => ?_))
  rw [List.filter_map, List.filter_filter]
  show ((docs.items.filter _).filter _).map Prod.fst = _
  rw [List.filter_filter]
  refine congrArg (List.map Prod.fst) (List.filter_congr (fun d _ => ?_))
  exact Bool.and_comm _ _

/-- The ranking of a tenant's documents is the tenant's part of the ranking. -/
theorem ranking_filter (docs : Dict String Vec) (owned : String → Bool) (qVec : Vec) :
    ranking (docs.filter (fun id _ => owned id)) qVec =
      (ranking docs qVec).filter (fun p => owned p.1) := by
  rw [ranking, ranking, filter_rank, List.filter_map, met_filter]
  refine congrArg (rank Prod.snd) (List.map_congr_left (fun id hid => ?_))
  have howned : owned id = true := (List.mem_filter.mp hid).2
  rw [Dict.get?_filter]
  cases docs.get? id with
  | none => rfl
  | some vec => rw [Option.filter_some, if_pos howned]

/-! ## What a search returns -/

/-- The loop takes what the tenant owns, up to `topK`. -/
theorem collect_eq (owned : String → Bool) (maxScore : ℚ) {topK : Nat} (fetched : List (String × ℚ))
    (output : List (String × ℚ)) (h : output.length < topK) :
    collect owned maxScore topK fetched output =
      output ++ ((fetched.filter (fun p => owned p.1)).take (topK - output.length)).map
        (fun p => (p.1, roundTo 4 (p.2 / maxScore))) := by
  induction fetched generalizing output with
  | nil => simp [collect]
  | cons p rest ih =>
    obtain ⟨docId, score⟩ := p
    rw [collect]
    by_cases howned : owned docId = true
    · obtain ⟨m, hm⟩ : ∃ m, topK - output.length = m + 1 := ⟨topK - output.length - 1, by omega⟩
      rw [if_neg (by simp [howned]), List.filter_cons_of_pos (by exact howned), hm,
        List.take_succ_cons, List.map_cons]
      simp only [List.length_append, List.length_singleton]
      by_cases hfull : topK ≤ output.length + 1
      · have hlast : m = 0 := by omega
        rw [if_pos hfull, hlast, List.take_zero, List.map_nil]
      · have hlen : (output ++ [(docId, roundTo 4 (score / maxScore))]).length < topK := by
          rw [List.length_append, List.length_singleton]
          omega
        have hrest : topK - (output.length + 1) = m := by omega
        rw [if_neg hfull, ih _ hlen, List.length_append, List.length_singleton, hrest,
          List.append_assoc, List.singleton_append]
    · rw [if_pos (by simpa using howned), List.filter_cons_of_neg (by simpa using howned)]
      exact ih output h

theorem ranking_nil {docs : Dict String Vec} {qVec : Vec} (h : docs.items = [] ∨ qVec.items = []) :
    ranking docs qVec = [] := by
  have hmet : met docs qVec = [] := by
    rcases h with h | h
    · rw [met, h]
      simp [firsts]
    · rw [met, h]
      rfl
  rw [ranking, hmet]
  rfl

/-- The fetched part of the ranking of all documents, less what others own. -/
theorem search_eq (h : idx.Built) (qVec : Vec) (topK : Nat) (tenantId : String) :
    search defaultTenant idx (some qVec) topK (some tenantId) =
      match ranking idx.docs qVec with
      | [] => []
      | (_, best) :: _ =>
        if best ≤ 0 then []
        else ((((ranking idx.docs qVec).take (topK * 4)).filter (fun p =>
          idx.tenantOf defaultTenant p.1 = tenantId)).take topK).map
            (fun p => (p.1, roundTo 4 (p.2 / best))) := by
  unfold search
  by_cases hdocs : idx.docs.items = []
  · rw [if_pos hdocs, ranking_nil (Or.inl hdocs)]
  · rw [if_neg hdocs]
    by_cases hq : qVec.items = []
    · simp only [if_pos hq, ranking_nil (Or.inr hq)]
    · simp only [if_neg hq, rank_scores h, Option.isSome_some, if_true, Option.all_some]
      cases ranking idx.docs qVec with
      | nil => rfl
      | cons top rest =>
        by_cases hbest : top.2 ≤ 0
        · simp only [if_pos hbest]
        · simp only [if_neg hbest]
          rcases Nat.eq_zero_or_pos topK with rfl | hpos
          · rfl
          · rw [collect_eq _ _ _ _ hpos]
            rfl

theorem nodup_ranking (docs : Dict String Vec) (qVec : Vec) : (ranking docs qVec).Nodup := by
  refine (perm_rank _ _).nodup_iff.mpr ?_
  exact (nodup_firsts _).map (fun _ _ he => congrArg Prod.fst he)

section Ranked

variable (owned : String × ℚ → Bool) (ranked : List (String × ℚ)) (topK : Nat)

theorem fetched_eq_nil_iff : ((ranked.take (topK * 4)).filter owned).take topK = [] ↔
    ∀ p ∈ ranked.filter owned, p ∉ ranked.take (topK * 4) := by
  constructor
  · intro hnil p hp hmem
    rcases List.take_eq_nil_iff.mp hnil with rfl | hnone
    · rw [Nat.zero_mul, List.take_zero] at hmem
      exact List.not_mem_nil hmem
    · exact List.filter_eq_nil_iff.mp hnone p hmem (List.mem_filter.mp hp).2
  · intro hout
    refine List.take_eq_nil_iff.mpr (Or.inr (List.filter_eq_nil_iff.mpr (fun p hp howned => ?_)))
    exact hout p (List.mem_filter.mpr ⟨List.mem_of_mem_take hp, howned⟩) hp

theorem fetched_map_eq_iff (hnd : ranked.Nodup) (best ownBest : ℚ) :
    (((ranked.take (topK * 4)).filter owned).take topK).map
        (fun p => (p.1, roundTo 4 (p.2 / best))) =
      ((ranked.filter owned).take topK).map (fun p => (p.1, roundTo 4 (p.2 / ownBest))) ↔
    ∀ p ∈ (ranked.filter owned).take topK, p ∈ ranked.take (topK * 4) ∧
      roundTo 4 (p.2 / best) = roundTo 4 (p.2 / ownBest) := by
  have hcut := take_filter_take_iff owned hnd (topK * 4) topK
  constructor
  · intro heq
    have hpre : ((ranked.take (topK * 4)).filter owned).take topK <+:
        (ranked.filter owned).take topK :=
      List.prefix_take_iff.mpr ⟨(List.take_prefix _ _).trans
        ((List.take_prefix (topK * 4) ranked).filter owned), List.length_take_le _ _⟩
    have hlen := congrArg List.length heq
    rw [List.length_map, List.length_map] at hlen
    have hsame := hpre.eq_of_length hlen
    rw [hsame] at heq
    intro p hp
    exact ⟨hcut.mp hsame p hp, congrArg Prod.snd (List.map_inj_left.mp heq p hp)⟩
  · intro hall
    rw [hcut.mpr (fun p hp => (hall p hp).1)]
    exact List.map_congr_left (fun p hp => Prod.ext rfl (hall p hp).2)

end Ranked

/-- A search returns the tenant's true top exactly when it is undisturbed. -/
theorem search_eq_trueTop_iff (h : idx.Built) (qVec : Vec) (topK : Nat) (tenantId : String) :
    search defaultTenant idx (some qVec) topK (some tenantId) =
        trueTop (idx.mine defaultTenant tenantId) qVec topK ↔
      Undisturbed idx.docs (idx.mine defaultTenant tenantId) qVec topK := by
  have hown := ranking_filter idx.docs (fun id => idx.tenantOf defaultTenant id = tenantId) qVec
  have hnd := nodup_ranking idx.docs qVec
  have hsorted : (ranking idx.docs qVec).Pairwise (fun p q => q.2 ≤ p.2) := pairwise_rank _ _
  rw [search_eq defaultTenant h, trueTop, Undisturbed, SparseIndex.mine, hown]
  generalize (fun p : String × ℚ => decide (idx.tenantOf defaultTenant p.1 = tenantId)) = owned
  generalize ranking idx.docs qVec = ranked at hnd hsorted
  have hnil := fetched_eq_nil_iff owned ranked topK
  have hmap := fetched_map_eq_iff owned ranked topK hnd
  cases ranked with
  | nil => simp
  | cons top rest =>
    obtain ⟨topId, best⟩ := top
    simp only
    generalize hfilter : ((topId, best) :: rest).filter owned = own at hnil hmap
    cases own with
    | nil =>
      have hnone := hnil.mpr nofun
      rw [hnone]
      simp
    | cons ownTop more =>
      obtain ⟨ownId, ownBest⟩ := ownTop
      simp only
      by_cases hbest : best ≤ 0
      · have hmem : (ownId, ownBest) ∈ (topId, best) :: rest :=
          List.mem_of_mem_filter (hfilter ▸ List.mem_cons_self)
        have hle : ownBest ≤ best := by
          rcases List.mem_cons.mp hmem with he | hrest
          · exact (congrArg Prod.snd he).le
          · exact (List.pairwise_cons.mp hsorted).1 _ hrest
        rw [if_pos hbest, if_pos hbest, if_pos (hle.trans hbest)]
        exact iff_of_true rfl trivial
      · rw [if_neg hbest, if_neg hbest]
        by_cases hownBest : ownBest ≤ 0
        · rw [if_pos hownBest, if_pos hownBest, List.map_eq_nil_iff]
          exact hnil
        · rw [if_neg hownBest, if_neg hownBest]
          exact hmap best ownBest

/-! ## Every run -/

/-- What the tenant asks for: the true top of its own documents. -/
def ownTop (idx : SparseIndex) (encoded : Option Vec) (topK : Nat) (tenantId : String) :
    List (String × ℚ) :=
  match encoded with
  | none => []
  | some qVec => trueTop (idx.mine defaultTenant tenantId) qVec topK

/-- After every run a search returns the true top of the tenant's own documents, whatever
others have, if and only if theirs do not disturb it. -/
theorem search_eq_ownTop_iff (run : List Op) (encoded : Option Vec) (topK : Nat)
    (tenantId : String) :
    let idx := run.foldl (SparseIndex.step defaultTenant) .start
    search defaultTenant idx encoded topK (some tenantId) =
        ownTop defaultTenant idx encoded topK tenantId ↔
      ∀ qVec, encoded = some qVec →
        Undisturbed idx.docs (idx.mine defaultTenant tenantId) qVec topK := by
  intro idx
  cases encoded with
  | none =>
    refine iff_of_true ?_ nofun
    show (if _ then _ else _) = _
    split <;> rfl
  | some qVec =>
    have hsearch := search_eq_trueTop_iff defaultTenant (built_run defaultTenant run) qVec topK tenantId
    rw [ownTop, hsearch]
    constructor
    · intro hund q hq
      rw [← Option.some.inj hq]
      exact hund
    · intro hall
      exact hall qVec rfl

/-! ## Two runs -/

theorem mine_put {chunkId : String} (hnew : chunkId ∉ idx.docs.keys) (vec : Vec)
    {other tenantId : String} (hne : other ≠ tenantId) :
    (idx.put chunkId vec other).mine defaultTenant tenantId = idx.mine defaultTenant tenantId := by
  refine Dict.ext_items ?_
  show (idx.docs.set chunkId vec).items.filter _ = idx.docs.items.filter _
  rw [Dict.items_set_of_not_mem _ hnew, List.filter_append]
  have hold : ∀ d ∈ idx.docs.items,
      decide ((idx.put chunkId vec other).tenantOf defaultTenant d.1 = tenantId) =
        decide (idx.tenantOf defaultTenant d.1 = tenantId) := by
    intro d hd
    have hid : d.1 ≠ chunkId := fun he => hnew (he ▸ List.mem_map_of_mem hd)
    rw [SparseIndex.tenantOf, SparseIndex.put, Dict.get?_set, if_neg hid, SparseIndex.tenantOf]
  have hlast : (idx.put chunkId vec other).tenantOf defaultTenant chunkId = other := by
    rw [SparseIndex.tenantOf, SparseIndex.put, Dict.get?_set, if_pos rfl, Option.getD_some]
  rw [List.filter_congr hold, List.filter_cons_of_neg (by simpa [hlast] using hne), List.filter_nil,
    List.append_nil]

/-- What another tenant adds leaves a tenant's documents as they were. -/
theorem mine_addDocuments {other tenantId : String} (hne : other ≠ tenantId) (batch : Batch)
    (encodeBatch : List String → Option (List Vec)) :
    (addDocuments defaultTenant idx batch encodeBatch (some other)).mine defaultTenant tenantId =
      idx.mine defaultTenant tenantId :=
  addDocuments_invariant defaultTenant other
    (fun i => i.mine defaultTenant tenantId = idx.mine defaultTenant tenantId)
    (fun _ _ vec hi hnew => (mine_put defaultTenant hnew vec hne).trans hi) rfl batch encodeBatch rfl

/-- And so does a removal of what others own. -/
theorem mine_removeDocuments {chunkIds : List String} {tenantId : String}
    (hother : ∀ c ∈ chunkIds, idx.tenantOf defaultTenant c ≠ tenantId) :
    (removeDocuments idx chunkIds).mine defaultTenant tenantId = idx.mine defaultTenant tenantId := by
  unfold removeDocuments
  simp only
  split
  · rfl
  · generalize hset : chunkIds.filter (fun c => (idx.docs.get? c).isSome) = removeSet
    have hgone : ∀ c ∈ removeSet, idx.tenantOf defaultTenant c ≠ tenantId := fun c hc =>
      hother c (List.mem_of_mem_filter (hset ▸ hc))
    have hkept : ∀ c ∉ removeSet, ((removeSet.foldl Dict.erase idx.docTenant).get? c).getD
        defaultTenant = idx.tenantOf defaultTenant c := by
      intro c hc
      rw [Dict.get?_foldl_erase, if_neg hc, SparseIndex.tenantOf]
    refine Dict.ext_items ?_
    show (removeSet.foldl Dict.erase idx.docs).items.filter (fun d => decide
      (((removeSet.foldl Dict.erase idx.docTenant).get? d.1).getD defaultTenant = tenantId)) =
        idx.docs.items.filter (fun d => decide (idx.tenantOf defaultTenant d.1 = tenantId))
    rw [Dict.items_foldl_erase, List.filter_filter]
    refine List.filter_congr (fun d _ => ?_)
    by_cases hd : d.1 ∈ removeSet
    · simp [hd, hgone d.1 hd]
    · simp [hd, hkept d.1 hd]

/-- Two indexes in which a tenant has the same documents answer it alike, where others do not
disturb. -/
theorem search_congr {idx idx' : SparseIndex} (h : idx.Built) (h' : idx'.Built) {tenantId : String}
    (hmine : idx'.mine defaultTenant tenantId = idx.mine defaultTenant tenantId) {qVec : Vec}
    {topK : Nat} (hund : Undisturbed idx.docs (idx.mine defaultTenant tenantId) qVec topK)
    (hund' : Undisturbed idx'.docs (idx'.mine defaultTenant tenantId) qVec topK) :
    search defaultTenant idx' (some qVec) topK (some tenantId) =
      search defaultTenant idx (some qVec) topK (some tenantId) := by
  rw [(search_eq_trueTop_iff defaultTenant h' qVec topK tenantId).mpr hund',
    (search_eq_trueTop_iff defaultTenant h qVec topK tenantId).mpr hund, hmine]

/-- Others add documents, or what is removed is not the tenant's. -/
def Foreign (tenantId : String) (idx : SparseIndex) : Op → Prop
  | .addDocuments _ _ other => other.getD defaultTenant ≠ tenantId
  | .removeDocuments chunkIds => ∀ c ∈ chunkIds, idx.tenantOf defaultTenant c ≠ tenantId
  | .rekey _ | .load _ => False

theorem mine_step {op : Op} {tenantId : String} (h : Foreign defaultTenant tenantId idx op) :
    (idx.step defaultTenant op).mine defaultTenant tenantId = idx.mine defaultTenant tenantId := by
  cases op with
  | addDocuments batch encodeBatch other =>
    cases other with
    | none => exact mine_addDocuments defaultTenant h batch encodeBatch
    | some other => exact mine_addDocuments defaultTenant h batch encodeBatch
  | removeDocuments chunkIds => exact mine_removeDocuments defaultTenant h
  | rekey mapping => exact h.elim
  | load entries => exact h.elim

/-- Whatever others do to their documents along a run, a tenant's search that they do not
disturb, before the run or after it, returns the same ids in the same order with the same
scores. -/
theorem search_run (before ops : List Op) {tenantId : String}
    (h : Along (SparseIndex.step defaultTenant) (Foreign defaultTenant tenantId)
      (before.foldl (SparseIndex.step defaultTenant) .start) ops) {qVec : Vec} {topK : Nat}
    (hbefore : Undisturbed (before.foldl (SparseIndex.step defaultTenant) .start).docs
      ((before.foldl (SparseIndex.step defaultTenant) .start).mine defaultTenant tenantId)
      qVec topK)
    (hafter : Undisturbed ((before ++ ops).foldl (SparseIndex.step defaultTenant) .start).docs
      (((before ++ ops).foldl (SparseIndex.step defaultTenant) .start).mine defaultTenant tenantId)
      qVec topK) :
    search defaultTenant ((before ++ ops).foldl (SparseIndex.step defaultTenant) .start)
        (some qVec) topK (some tenantId) =
      search defaultTenant (before.foldl (SparseIndex.step defaultTenant) .start)
        (some qVec) topK (some tenantId) := by
  have hbuilt := built_run defaultTenant before
  have hbuilt' := built_run defaultTenant (before ++ ops)
  rw [List.foldl_append] at hafter hbuilt' ⊢
  revert h hbefore hafter hbuilt hbuilt'
  generalize before.foldl (SparseIndex.step defaultTenant) .start = idx
  intro h hbefore hafter hbuilt hbuilt'
  have hmine : (ops.foldl (SparseIndex.step defaultTenant) idx).mine defaultTenant tenantId =
      idx.mine defaultTenant tenantId :=
    h.invariant (fun i => i.mine defaultTenant tenantId = idx.mine defaultTenant tenantId)
      (fun i op hi hop => (mine_step defaultTenant hop).trans hi) rfl
  exact search_congr defaultTenant hbuilt hbuilt' hmine hbefore hafter

def addedBy (tenantId id : String) (weight : ℚ) : Op :=
  .addDocuments { chunks := [(id, "alpha")], nodup := List.nodup_singleton _ }
    (fun _ => some [Dict.empty.set 7 weight]) (some tenantId)

theorem search_run_letters :
    search "default" ([addedBy "t1" "a" 4, addedBy "t2" "b" 1, .removeDocuments ["b"]].foldl
        (SparseIndex.step "default") .start) (some (Dict.empty.set 7 1)) 10 (some "t1") =
      search "default" ([addedBy "t1" "a" 4].foldl (SparseIndex.step "default") .start)
        (some (Dict.empty.set 7 1)) 10 (some "t1") := by
  refine search_run "default" [addedBy "t1" "a" 4]
    [addedBy "t2" "b" 1, .removeDocuments ["b"]] ⟨?_, ?_, trivial⟩ ?_ ?_
  · exact (by decide : ("t2" : String) ≠ "t1")
  · intro c hc
    rw [List.mem_singleton.mp hc]
    decide +kernel
  · have hbuilt := built_run "default" [addedBy "t1" "a" 4]
    exact (search_eq_trueTop_iff "default" hbuilt _ _ _).mp (by decide +kernel)
  · have hbuilt := built_run "default"
      ([addedBy "t1" "a" 4] ++ [addedBy "t2" "b" 1, .removeDocuments ["b"]])
    exact (search_eq_trueTop_iff "default" hbuilt _ _ _).mp (by decide +kernel)

/-- The document that another tenant adds rescales a tenant's score. -/
theorem not_unaffected : ¬ ∀ (defaultTenant : String) (run : List Op) (batch : Batch)
    (encodeBatch : List String → Option (List Vec)) (other tenantId : String) (encoded : Option Vec)
    (topK : Nat), other ≠ tenantId →
      let idx := run.foldl (SparseIndex.step defaultTenant) .start
      search defaultTenant (idx.step defaultTenant (.addDocuments batch encodeBatch (some other)))
          encoded topK (some tenantId) =
        search defaultTenant idx encoded topK (some tenantId) := by
  intro h
  have hsame := h "default" [.addDocuments { chunks := [("a", "alpha")], nodup := by decide }
    (fun _ => some [Dict.empty.set 7 1]) (some "t1")] { chunks := [("b", "beta")], nodup := by decide }
    (fun _ => some [Dict.empty.set 7 4]) "t2" "t1" (some (Dict.empty.set 7 1)) 10 (by decide)
  revert hsame
  decide +kernel

end Cerid.Retrieval.Sparse
