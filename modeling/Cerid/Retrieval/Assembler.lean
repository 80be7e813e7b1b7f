import Cerid.Lib.Ranking
import Cerid.Lib.Rounding
import Cerid.Lib.Text
import Cerid.Retrieval.Context
import Mathlib.Data.Finset.Card
import Mathlib.Data.Finset.Dedup

/-!
# Intelligent assembly

The rows of a context are chosen in two passes: first those that cover most of what the query asks
and no row covers yet, then the most relevant ones for which there is room.  Both passes charge a
row with the separator that joins it to the one before.

Relevances are rationals.
-/

namespace Cerid.Retrieval.Assembler

abbrev Text := List Char

/-- The patterns of the module, `str` and the number of a value, and the order in which a set of
places is gone through. -/
structure Env where
  split : Text → List Text
  findWords : Text → List Text
  str : Json → Text
  number : Json → ℚ
  order : List Nat → List Nat
  perm : ∀ l, (order l).Perm l

/-! ## Facets -/

def STOPWORDS : List String := [
  "a", "an", "the", "is", "are", "was", "were", "be", "been", "being",
  "have", "has", "had", "do", "does", "did", "will", "would", "could",
  "should", "may", "might", "shall", "can", "need", "dare", "ought",
  "used", "to", "of", "in", "for", "on", "with", "at", "by", "from",
  "as", "into", "through", "during", "before", "after", "above", "below",
  "between", "out", "off", "over", "under", "again", "further", "then",
  "once", "here", "there", "when", "where", "why", "how", "all", "each",
  "every", "both", "few", "more", "most", "other", "some", "such", "no",
  "nor", "not", "only", "own", "same", "so", "than", "too", "very",
  "just", "because", "but", "and", "or", "if", "while", "about", "up",
  "that", "this", "these", "those", "am", "what", "which", "who", "whom",
  "its", "it", "he", "she", "they", "them", "his", "her", "my", "your",
  "our", "their", "me", "him", "us", "i", "you", "we", "also", "like",
  "get", "got", "make", "made", "know", "think", "want", "see", "look",
  "find", "give", "tell", "say", "said", "going", "come", "take"]

def MIN_FACET_LENGTH : Nat := 8

def isMark (c : Char) : Bool := c ∈ ['?', '.', '!', ',', ';']

/-- `strip().strip("?.!,;")`. -/
def cleaned (part : Text) : Text :=
  ((Cerid.Text.strip part).dropWhile isMark).rdropWhile isMark

variable (env : Env)

def extractFacets (query : Text) : List Text :=
  let q := Cerid.Text.strip query
  if q = [] then []
  else
    let facets := ((env.split q).map cleaned).filter fun facet => MIN_FACET_LENGTH ≤ facet.length
    if facets = [] ∧ MIN_FACET_LENGTH ≤ q.length then [q] else facets

/-- `_facet_terms` and `_doc_terms`.  The words are found in the lower case of the text. -/
def terms (text : Text) : Finset Text :=
  ((env.findWords text).filter fun w => w ∉ STOPWORDS.map String.toList ∧ 3 ≤ w.length).toFinset

def facetCoverage (docTerms facetTerms : Finset Text) : ℚ :=
  if facetTerms = ∅ then 0 else (docTerms ∩ facetTerms).card / facetTerms.card

/-! ## Blocks -/

def blockSeparator : Text := "\n\n---\n\n".toList

def renderBlock (r : Context.Row) : Text :=
  let header := "[Source: ".toList ++ (r.filename.elim "unknown".toList env.str) ++
    " | Domain: ".toList ++ (r.domain.elim "unknown".toList env.str) ++ [']']
  let note := Context.historyNote r
  header ++ '\n' :: r.content ++ if note = [] then [] else '\n' :: note

/-! ## Packing -/

/-- What is looked up of the rows by their places. -/
structure Items where
  blocks : List Text
  docTerms : List (Finset Text)
  relevance : List ℚ
  facetTerms : List (Finset Text)

def Items.block (t : Items) (idx : Nat) : Text := t.blocks.getD idx []

def Items.terms (t : Items) (idx : Nat) : Finset Text := t.docTerms.getD idx ∅

def Items.relevanceOf (t : Items) (idx : Nat) : ℚ := t.relevance.getD idx 0

structure State where
  facetsCovered : List Bool
  selected : List Nat
  charCount : Nat
  remaining : List Nat

/-- `_cost`. -/
def State.cost (s : State) (t : Items) (idx : Nat) : Nat :=
  (t.block idx).length + if s.selected = [] then 0 else blockSeparator.length

/-- The facets that a row covers are covered with it. -/
def cover (t : Items) (covered : List Bool) (idx : Nat) : List Bool :=
  covered.zipWith (fun c ft => c || decide (3 / 10 ≤ facetCoverage (t.terms idx) ft)) t.facetTerms

def State.select (s : State) (t : Items) (idx : Nat) : State :=
  { s with
    facetsCovered := cover t s.facetsCovered idx
    selected := s.selected ++ [idx]
    charCount := s.charCount + s.cost t idx }

/-- The relevance of a row, and half of what it covers of the facets not yet covered. -/
def State.score (s : State) (t : Items) (idx : Nat) : ℚ :=
  let bonus := ((s.facetsCovered.zip t.facetTerms).map fun p =>
    if p.1 then 0 else facetCoverage (t.terms idx) p.2).sum
  t.relevanceOf idx + bonus * (1 / 2)

variable (maxChars : Int)

/-- The row with the highest score above -1 among those that fit, the first one of several. -/
def State.best (s : State) (t : Items) : Option Nat :=
  ((env.order s.remaining).foldl (fun (best : Option Nat × ℚ) idx =>
    if maxChars < s.charCount + s.cost t idx then best
    else if best.2 < s.score t idx then (some idx, s.score t idx) else best) (none, -1)).1

/-- The first pass. -/
def passOne (t : Items) : Nat → State → State
  | 0, s => s
  | n + 1, s =>
    if s.remaining = [] ∨ maxChars ≤ s.charCount then s
    else match s.best env maxChars t with
      | none => s
      | some idx =>
        let s := s.select t idx
        passOne t n { s with remaining := s.remaining.erase idx }

/-- A row of the second pass. -/
def State.pad (t : Items) (s : State) (idx : Nat) : State :=
  if maxChars < s.charCount + s.cost t idx then s else s.select t idx

def passTwo (t : Items) (s : State) : State :=
  (rank t.relevanceOf (env.order s.remaining)).foldl (State.pad maxChars t) s

structure Metadata where
  facetsTotal : Nat
  facetsCovered : Nat
  coverageRatio : ℚ
  facets : Option (List Text)

structure Assembled where
  context : Text
  sources : List Context.Row
  metadata : Metadata

def items (results : List Context.Row) (facets : List Text) : Items where
  blocks := results.map (renderBlock env)
  docTerms := results.map fun r => terms env r.content
  relevance := results.map fun r => r.relevance.elim 0 env.number
  facetTerms := facets.map (terms env)

def State.start (n m : Nat) : State where
  facetsCovered := List.replicate m false
  selected := []
  charCount := 0
  remaining := List.range n

/-- The state after both passes. -/
def pack (results : List Context.Row) (facets : List Text) : State :=
  let t := items env results facets
  passTwo env maxChars t
    (passOne env maxChars t results.length (.start results.length facets.length))

/-- `intelligent_assemble`. -/
def intelligentAssemble (results : List Context.Row) (query : Text) : Assembled :=
  if results = [] then
    { context := [], sources := [], metadata := ⟨0, 0, 0, none⟩ }
  else
    let facets := extractFacets env query
    let s := pack env maxChars results facets
    let coveredCount := s.facetsCovered.count true
    { context := List.intercalate blockSeparator
        (s.selected.map (items env results facets).block)
      sources := s.selected.filterMap fun idx => results[idx]?
      metadata := {
        facetsTotal := facets.length
        facetsCovered := coveredCount
        coverageRatio := if facets = [] then 1 else roundTo 4 (coveredCount / facets.length)
        facets := some facets } }

/-! ## The invariant -/

/-- A row covers a facet. -/
def Covers (docTerms facetTerms : Finset Text) : Prop := 3 / 10 ≤ facetCoverage docTerms facetTerms

instance (docTerms facetTerms : Finset Text) : Decidable (Covers docTerms facetTerms) :=
  inferInstanceAs (Decidable (3 / 10 ≤ facetCoverage docTerms facetTerms))

variable {env maxChars} {t : Items} {n : Nat} {s : State} {idx : Nat}

/-- No place is selected twice, the characters are those of the context, and the facets those of
the rows selected. -/
structure State.Packed (maxChars : Int) (t : Items) (n : Nat) (s : State) : Prop where
  nodup : s.selected.Nodup
  bound : ∀ idx ∈ s.selected, idx < n
  length : s.charCount = (List.intercalate blockSeparator (s.selected.map t.block)).length
  fits : (s.charCount : Int) ≤ max maxChars 0
  covered : s.facetsCovered = t.facetTerms.map fun ft =>
    s.selected.any fun idx => Covers (t.terms idx) ft

theorem length_intercalate_concat (sep : Text) (parts : List Text) (part : Text) :
    (List.intercalate sep (parts ++ [part])).length =
      (List.intercalate sep parts).length +
        (part.length + if parts = [] then 0 else sep.length) := by
  rw [Cerid.Text.intercalate_concat]
  split
  · next hnone => simp [hnone]
  · rw [List.length_append, List.length_append]
    omega

theorem cover_any (t : Items) (selected : List Nat) (idx : Nat) :
    cover t (t.facetTerms.map fun ft => selected.any fun i => Covers (t.terms i) ft) idx =
      t.facetTerms.map fun ft => (selected ++ [idx]).any fun i => Covers (t.terms i) ft := by
  rw [cover, List.zipWith_map_left, List.zipWith_self]
  refine List.map_congr_left fun ft _ => ?_
  rw [List.any_append, List.any_cons, List.any_nil, Bool.or_false]
  rfl

theorem State.packed_start (maxChars : Int) (t : Items) (n : Nat) :
    (State.start n t.facetTerms.length).Packed maxChars t n where
  nodup := List.nodup_nil
  bound := fun idx hidx => absurd hidx List.not_mem_nil
  length := rfl
  fits := Int.le_max_right _ _
  covered := by
    show List.replicate t.facetTerms.length false = _
    exact List.map_const'.symm

theorem State.Packed.select (h : s.Packed maxChars t n) (hlt : idx < n)
    (hnew : idx ∉ s.selected) (hfits : ¬ maxChars < s.charCount + s.cost t idx) :
    (s.select t idx).Packed maxChars t n where
  nodup := List.nodup_append.mpr ⟨h.nodup, List.nodup_singleton _, by
    rintro a ha b hb rfl
    exact hnew (List.mem_singleton.mp hb ▸ ha)⟩
  bound := by
    intro i hi
    rcases List.mem_append.mp hi with hi | hi
    · exact h.bound i hi
    · rwa [List.mem_singleton.mp hi]
  length := by
    show s.charCount + s.cost t idx =
      (List.intercalate blockSeparator ((s.selected ++ [idx]).map t.block)).length
    rw [List.map_append, List.map_singleton, length_intercalate_concat, h.length, State.cost]
    simp only [List.map_eq_nil_iff]
  fits := by
    have hle : (s.charCount : Int) + s.cost t idx ≤ maxChars := Int.not_lt.mp hfits
    show ((s.charCount + s.cost t idx : Nat) : Int) ≤ max maxChars 0
    push_cast
    exact hle.trans (Int.le_max_left _ _)
  covered := by
    show cover t s.facetsCovered idx = _
    rw [h.covered, cover_any]
    rfl

/-! ## The first pass -/

/-- The places that are not selected remain. -/
structure State.Complement (n : Nat) (s : State) : Prop where
  nodup : s.remaining.Nodup
  mem : ∀ idx, idx ∈ s.remaining ↔ idx < n ∧ idx ∉ s.selected

theorem State.complement_start (n m : Nat) : (State.start n m).Complement n where
  nodup := List.nodup_range
  mem := fun idx => by
    show idx ∈ List.range n ↔ idx < n ∧ idx ∉ []
    simp

theorem State.best_some {i : Nat} (h : s.best env maxChars t = some i) :
    i ∈ s.remaining ∧ ¬ maxChars < s.charCount + s.cost t i := by
  have hfold : ∀ (l : List Nat) (best : Option Nat × ℚ), (l.foldl (fun best idx =>
      if maxChars < s.charCount + s.cost t idx then best
      else if best.2 < s.score t idx then (some idx, s.score t idx) else best) best).1 = some i →
      best.1 = some i ∨ i ∈ l ∧ ¬ maxChars < s.charCount + s.cost t i := by
    intro l
    induction l with
    | nil => exact fun best hbest => Or.inl hbest
    | cons idx rest ih =>
      intro best hbest
      rw [List.foldl_cons] at hbest
      rcases ih _ hbest with hfirst | ⟨hmem, hfits⟩
      · split at hfirst
        · exact Or.inl hfirst
        · next hfits =>
          split at hfirst
          · obtain rfl := Option.some.inj hfirst
            exact Or.inr ⟨List.mem_cons_self, hfits⟩
          · exact Or.inl hfirst
      · exact Or.inr ⟨List.mem_cons_of_mem idx hmem, hfits⟩
  rcases hfold _ _ h with hnone | ⟨hmem, hfits⟩
  · cases hnone
  · exact ⟨(env.perm s.remaining).mem_iff.mp hmem, hfits⟩

theorem State.Complement.select (h : s.Complement n) (t : Items) (idx : Nat) :
    ({ s.select t idx with remaining := s.remaining.erase idx } : State).Complement n where
  nodup := h.nodup.erase idx
  mem := fun i => by
    show i ∈ s.remaining.erase idx ↔ i < n ∧ i ∉ s.selected ++ [idx]
    rw [h.nodup.mem_erase_iff, h.mem, List.mem_append, List.mem_singleton, not_or]
    tauto

theorem passOne_packed (k : Nat) (h : s.Packed maxChars t n) (hc : s.Complement n) :
    (passOne env maxChars t k s).Packed maxChars t n ∧
      (passOne env maxChars t k s).Complement n := by
  induction k generalizing s with
  | zero => exact ⟨h, hc⟩
  | succ k ih =>
    rw [passOne]
    split
    · exact ⟨h, hc⟩
    · split
      · exact ⟨h, hc⟩
      · next idx hbest =>
        obtain ⟨hmem, hfits⟩ := State.best_some hbest
        obtain ⟨hlt, hnew⟩ := (hc.mem idx).mp hmem
        have hselect := h.select hlt hnew hfits
        exact ih { hselect with } (hc.select t idx)

/-! ## The second pass -/

/-- A row that does not fit will not fit later. -/
theorem State.total_select (s : State) (t : Items) (i idx : Nat) :
    s.charCount + s.cost t idx ≤ (s.select t i).charCount + (s.select t i).cost t idx := by
  have hne : (s.select t i).selected ≠ [] :=
    List.append_ne_nil_of_right_ne_nil _ (List.cons_ne_nil _ _)
  have hcount : (s.select t i).charCount = s.charCount + s.cost t i := rfl
  rw [hcount]
  unfold State.cost
  rw [if_neg hne]
  split <;> omega

/-- There is no room for the row. -/
def State.Full (maxChars : Int) (t : Items) (s : State) (idx : Nat) : Prop :=
  maxChars < s.charCount + s.cost t idx

theorem State.Full.select (h : s.Full maxChars t idx) (i : Nat) :
    (s.select t i).Full maxChars t idx := by
  have hle := s.total_select t i idx
  unfold State.Full at h ⊢
  omega

theorem pad_foldl (l : List Nat) (h : s.Packed maxChars t n) (hl : l.Nodup)
    (hnew : ∀ idx ∈ l, idx < n ∧ idx ∉ s.selected) :
    let s' := l.foldl (State.pad maxChars t) s
    s'.Packed maxChars t n ∧ (∀ idx ∈ s.selected, idx ∈ s'.selected) ∧
      (∀ idx ∈ l, idx ∈ s'.selected ∨ s'.Full maxChars t idx) ∧
      ∀ idx, s.Full maxChars t idx → s'.Full maxChars t idx := by
  induction l generalizing s with
  | nil =>
    exact ⟨h, fun _ hidx => hidx, fun idx hidx => absurd hidx List.not_mem_nil, fun _ hf => hf⟩
  | cons idx rest ih =>
    obtain ⟨hhead, hrest⟩ := List.nodup_cons.mp hl
    obtain ⟨hidx, hnewrest⟩ := List.forall_mem_cons.mp hnew
    rw [List.foldl_cons]
    by_cases hfull : s.Full maxChars t idx
    · rw [show s.pad maxChars t idx = s from if_pos hfull]
      obtain ⟨hpacked, hkept, hall, hstays⟩ := ih h hrest hnewrest
      exact ⟨hpacked, hkept, List.forall_mem_cons.mpr ⟨Or.inr (hstays idx hfull), hall⟩, hstays⟩
    · rw [show s.pad maxChars t idx = s.select t idx from if_neg hfull]
      have hstep : ∀ i ∈ rest, i < n ∧ i ∉ (s.select t idx).selected := by
        intro i hi
        obtain ⟨hlt, hout⟩ := hnewrest i hi
        refine ⟨hlt, fun hmem => ?_⟩
        rcases List.mem_append.mp hmem with hmem | hmem
        · exact hout hmem
        · exact hhead (List.mem_singleton.mp hmem ▸ hi)
      obtain ⟨hpacked, hkept, hall, hstays⟩ := ih (h.select hidx.1 hidx.2 hfull) hrest hstep
      refine ⟨hpacked, fun i hi => hkept i (List.mem_append_left _ hi),
        List.forall_mem_cons.mpr ⟨Or.inl (hkept idx ?_), hall⟩,
        fun i hi => hstays i (hi.select idx)⟩
      exact List.mem_append_right _ List.mem_cons_self

theorem passTwo_packed (h : s.Packed maxChars t n) (hc : s.Complement n) :
    (passTwo env maxChars t s).Packed maxChars t n ∧
      ∀ idx < n, idx ∉ (passTwo env maxChars t s).selected →
        (passTwo env maxChars t s).Full maxChars t idx := by
  have hperm : (rank t.relevanceOf (env.order s.remaining)).Perm s.remaining :=
    (perm_rank _ _).trans (env.perm s.remaining)
  obtain ⟨hpacked, hkept, hall, _⟩ := pad_foldl (rank t.relevanceOf (env.order s.remaining)) h
    (hperm.nodup_iff.mpr hc.nodup) fun idx hidx => (hc.mem idx).mp (hperm.mem_iff.mp hidx)
  refine ⟨hpacked, fun idx hlt hout => ?_⟩
  by_cases hbefore : idx ∈ s.selected
  · exact absurd (hkept idx hbefore) hout
  · have hmem := hperm.mem_iff.mpr ((hc.mem idx).mpr ⟨hlt, hbefore⟩)
    exact (hall idx hmem).resolve_left hout

/-! ## The rows that were selected -/

theorem block_items {results : List Context.Row} {facets : List Text} {r : Context.Row}
    (h : results[idx]? = some r) : (items env results facets).block idx = renderBlock env r := by
  rw [Items.block, items, List.getD_eq_getElem?_getD, List.getElem?_map, h]
  rfl

theorem terms_items {results : List Context.Row} {facets : List Text} {r : Context.Row}
    (h : results[idx]? = some r) : (items env results facets).terms idx = terms env r.content := by
  rw [Items.terms, items, List.getD_eq_getElem?_getD, List.getElem?_map, h]
  rfl

/-- The rows at the places selected, with their blocks and what they cover. -/
theorem rows_selected (results : List Context.Row) (facets : List Text) {selected : List Nat}
    (h : ∀ idx ∈ selected, idx < results.length) :
    let rows := selected.filterMap fun idx => results[idx]?
    rows.map some = selected.map (fun idx => results[idx]?) ∧
      selected.map (items env results facets).block = rows.map (renderBlock env) ∧
      ∀ ft, selected.any (fun idx => Covers ((items env results facets).terms idx) ft) =
        rows.any fun r => Covers (terms env r.content) ft := by
  induction selected with
  | nil => exact ⟨rfl, rfl, fun _ => rfl⟩
  | cons idx rest ih =>
    obtain ⟨hidx, hrest⟩ := List.forall_mem_cons.mp h
    obtain ⟨hsome, hblocks, hcovers⟩ := ih hrest
    have hrow := List.getElem?_eq_getElem hidx
    rw [List.filterMap_cons_some hrow]
    refine ⟨?_, ?_, fun ft => ?_⟩
    · rw [List.map_cons, List.map_cons, hsome, hrow]
    · rw [List.map_cons, List.map_cons, hblocks, block_items hrow]
    · rw [List.any_cons, List.any_cons, hcovers, terms_items hrow]

theorem pack_packed (env : Env) (maxChars : Int) (results : List Context.Row)
    (facets : List Text) :
    (pack env maxChars results facets).Packed maxChars (items env results facets)
        results.length ∧
      ∀ idx < results.length, idx ∉ (pack env maxChars results facets).selected →
        (pack env maxChars results facets).Full maxChars (items env results facets) idx := by
  have hlength : (items env results facets).facetTerms.length = facets.length := List.length_map _
  have hstart := State.packed_start maxChars (items env results facets) results.length
  rw [hlength] at hstart
  obtain ⟨hpacked, hc⟩ := @passOne_packed env _ _ _ _ results.length hstart
    (State.complement_start results.length facets.length)
  exact passTwo_packed hpacked hc

/-- The context is within the budget and made of the blocks of the sources, each from a place of its
own; no other row would fit; and the facets covered are those that a source covers.  Below zero
the budget leaves the context empty. -/
theorem intelligentAssemble_spec (env : Env) (results : List Context.Row) (query : Text)
    (maxChars : Int) :
    let a := intelligentAssemble env maxChars results query
    ∃ selected : List Nat, selected.Nodup ∧
      a.sources.map some = selected.map (fun idx => results[idx]?) ∧
      a.context = List.intercalate blockSeparator (a.sources.map (renderBlock env)) ∧
      (a.context.length : Int) ≤ max maxChars 0 ∧
      (∀ idx r, results[idx]? = some r → idx ∉ selected →
        maxChars < (a.context.length + ((renderBlock env r).length +
          if a.sources = [] then 0 else blockSeparator.length) : Nat)) ∧
      a.metadata.facetsCovered = (extractFacets env query).countP fun facet =>
        a.sources.any fun r => Covers (terms env r.content) (terms env facet) := by
  intro a
  by_cases hresults : results = []
  · have ha : a = { context := [], sources := [], metadata := ⟨0, 0, 0, none⟩ } := if_pos hresults
    rw [ha, hresults]
    refine ⟨[], List.nodup_nil, rfl, rfl, Int.le_max_right _ _, fun idx r hr => ?_, ?_⟩
    · cases hr
    · simp
  · obtain ⟨hpacked, hfull⟩ := pack_packed env maxChars results (extractFacets env query)
    obtain ⟨hsome, hblocks, hcovers⟩ :=
      @rows_selected env results (extractFacets env query) _ hpacked.bound
    have ha : a = _ := if_neg hresults
    let s := pack env maxChars results (extractFacets env query)
    have hsources : a.sources = s.selected.filterMap fun idx => results[idx]? :=
      congrArg Assembled.sources ha
    have hcontext : a.context = List.intercalate blockSeparator
        (s.selected.map (items env results (extractFacets env query)).block) :=
      congrArg Assembled.context ha
    have hfacets : a.metadata.facetsCovered = s.facetsCovered.count true :=
      congrArg (fun a => a.metadata.facetsCovered) ha
    have hlength : a.context.length = s.charCount := by
      rw [hcontext]
      exact hpacked.length.symm
    refine ⟨s.selected, hpacked.nodup, ?_, ?_, ?_, fun idx r hr hout => ?_, ?_⟩
    · rw [hsources]
      exact hsome
    · rw [hcontext, hsources, hblocks]
    · rw [hlength]
      exact hpacked.fits
    · have hroom := hfull idx (List.getElem?_eq_some_iff.mp hr).1 hout
      rw [State.Full, State.cost, block_items hr] at hroom
      have hnil : a.sources = [] ↔ s.selected = [] := by
        rw [hsources, ← List.map_eq_nil_iff (f := some), hsome, List.map_eq_nil_iff]
      rw [hlength, if_congr hnil rfl rfl]
      push_cast at hroom ⊢
      exact hroom
    · rw [hfacets, hpacked.covered, List.count_eq_countP, List.countP_map, hsources]
      show ((extractFacets env query).map (terms env)).countP _ = _
      rw [List.countP_map]
      refine List.countP_congr fun facet _ => ?_
      show (_ == true) = true ↔ _
      rw [beq_true, ← hcovers]

/-- Patterns that find nothing. -/
def bareEnv : Env where
  split := fun q => [q]
  findWords := fun _ => []
  str := fun _ => []
  number := fun _ => 0
  order := id
  perm := List.Perm.refl

/-- Below zero no context is within the budget. -/
theorem negative_budget :
    ¬ ((intelligentAssemble bareEnv (-1) [{ content := ['x'] }] ['q']).context.length : Int) ≤
      -1 := by
  intro hlength
  omega

end Cerid.Retrieval.Assembler
