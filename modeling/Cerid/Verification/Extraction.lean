import Cerid.Lib.Distinct
import Cerid.Lib.Text
import Mathlib.Data.List.Basic
import Mathlib.Data.String.Basic

/-!
# The claims of a response

A response is gone through for admissions of ignorance, evasions and citations first, and then for
claims; the former are kept when the cap cuts.  What the passes over the text find is given, and
so is `str.lower`.
-/

namespace Cerid.Verification.Extraction

inductive Method where
  | llm | heuristic | ignorance | citation | evasion | none
deriving DecidableEq, Repr

/-- The passes over a response. -/
structure Extractors where
  ignorance : String → List String
  evasion : String → String → List String
  citation : String → List String
  hasCheckableFragment : String → Bool
  stripMetaSentences : String → String
  llm : String → Int → Option String → List String
  heuristic : String → List String
  resolvePronouns : List String → String → Option String → List String
  isMetaSelfReferential : String → Bool
  claimHasSubject : String → Bool

/-- The claim lists of a response. -/
structure ClaimLists where
  primary : List String
  ignorance : List String
  evasion : List String
  citation : List String

section

variable (lower : String → String)

/-- `xs[:n]`. -/
def upTo (xs : List String) (n : Int) : List String :=
  if 0 ≤ n then xs.take n.toNat else xs.take (xs.length + n).toNat

/-- The special claims that are met for the first time. -/
def specialClaims (ignorance evasion citation : List String) : List String :=
  firstOf lower [] (ignorance ++ evasion ++ citation)

/-- `_merge_special_claims`. -/
def mergeSpecialClaims (L : ClaimLists) (maxClaims : Int) : List String :=
  let specials := specialClaims lower L.ignorance L.evasion L.citation
  let budget := (max 0 (maxClaims - specials.length)).toNat
  upTo (firstOfUpTo lower budget (specials.map lower) L.primary ++ specials) maxClaims

variable (X : Extractors) (minLength maxClaims : Int) (responseText : String)
  (userQuery : Option String)

/-- `_detect_evasion(response_text, user_query) if user_query else []`. -/
def Extractors.evasionClaims : List String :=
  match userQuery with
  | none => []
  | some query => if query = "" then [] else X.evasion responseText query

/-- `_evasion_supersedes_primary`. -/
def Extractors.evasionSupersedesPrimary : Bool :=
  X.evasionClaims responseText userQuery ≠ [] &&
    !X.hasCheckableFragment (String.ofList (responseText.toList.take 5000))

def Extractors.dropMetaClaims (claims : List String) : List String :=
  claims.filter fun c => !X.isMetaSelfReferential c

def Extractors.enforceSubjectValidity (claims : List String) : List String :=
  claims.filter fun c => X.claimHasSubject c

def Extractors.llmClaims : List String :=
  let extractable := X.stripMetaSentences responseText
  let found := if extractable = "" then [] else X.llm extractable maxClaims userQuery
  X.dropMetaClaims (X.enforceSubjectValidity found)

def Extractors.heuristicClaims : List String :=
  let extractable := X.stripMetaSentences responseText
  let found := X.heuristic extractable
  if found = [] then []
  else X.dropMetaClaims
    (X.enforceSubjectValidity (X.resolvePronouns found extractable userQuery))

/-- `extract_claims`. -/
def extractClaims : List String × Method :=
  if (responseText.length : Int) < minLength then ([], .none)
  else
    let ignorance := X.ignorance responseText
    let evasion := X.evasionClaims responseText userQuery
    let citation := X.citation responseText
    let mergeSpecial := fun primary =>
      mergeSpecialClaims lower { primary, ignorance, evasion, citation } maxClaims
    if X.evasionSupersedesPrimary responseText userQuery then (mergeSpecial [], .evasion)
    else
      let llmClaims := X.llmClaims maxClaims responseText userQuery
      if llmClaims ≠ [] then (mergeSpecial llmClaims, .llm)
      else
        let heuristicClaims := X.heuristicClaims responseText userQuery
        if heuristicClaims ≠ [] then (mergeSpecial heuristicClaims, .heuristic)
        else if evasion ≠ [] then (mergeSpecial evasion, .evasion)
        else if ignorance ≠ [] ∨ citation ≠ [] then
          (upTo (ignorance ++ citation) maxClaims,
            if ignorance ≠ [] then .ignorance else .citation)
        else ([], .none)

/-! ## What is asked of the claims -/

/-- The primary claims: those of the model, or else of the patterns.  Where an evasion stands for
the whole response there are none. -/
def Extractors.primary : List String :=
  if X.evasionSupersedesPrimary responseText userQuery then []
  else if X.llmClaims maxClaims responseText userQuery ≠ [] then
    X.llmClaims maxClaims responseText userQuery
  else X.heuristicClaims responseText userQuery

/-- The claim lists of a response; a response that is too short has none. -/
def Extractors.lists : ClaimLists :=
  if (responseText.length : Int) < minLength then
    { primary := [], ignorance := [], evasion := [], citation := [] }
  else
    { primary := X.primary maxClaims responseText userQuery
      ignorance := X.ignorance responseText
      evasion := X.evasionClaims responseText userQuery
      citation := X.citation responseText }

def ClaimLists.specials (L : ClaimLists) : List String :=
  specialClaims lower L.ignorance L.evasion L.citation

/-- The distinct primary claims that are not special. -/
def ClaimLists.ordinary (L : ClaimLists) : List String :=
  firstOf lower ((L.specials lower).map lower) L.primary

/-- What the list of claims is to be, up to case. -/
structure Law (L : ClaimLists) (maxClaims : Int) (claims : List String) : Prop where
  short : (claims.length : Int) ≤ maxClaims
  distinct : (claims.map lower).Nodup
  specials : ((L.specials lower).length : Int) ≤ maxClaims → ∀ c ∈ L.specials lower, c ∈ claims
  longest : ∀ c ∈ (L.ordinary lower).take (maxClaims - (L.specials lower).length).toNat, c ∈ claims
  order : (claims.filter fun c => lower c ∉ (L.specials lower).map lower).Sublist L.primary

/-- The lists are put after one another as they are: there are neither primary claims nor
evasions. -/
structure Extractors.Unmerged : Prop where
  long : ¬ (responseText.length : Int) < minLength
  primary : X.primary maxClaims responseText userQuery = []
  evasion : X.evasionClaims responseText userQuery = []

end

/-! ## The merge -/

variable {lower : String → String} {maxClaims : Int} {L : ClaimLists}

theorem upTo_of_nonneg (h : 0 ≤ maxClaims) (xs : List String) :
    upTo xs maxClaims = xs.take maxClaims.toNat := if_pos h

theorem length_upTo_le (h : 0 ≤ maxClaims) (xs : List String) :
    ((upTo xs maxClaims).length : Int) ≤ maxClaims := by
  rw [upTo_of_nonneg h]
  have hlength := List.length_take_le maxClaims.toNat xs
  omega

/-- The claims before the cap cuts: the primary claims that the specials leave room for, and the
specials. -/
def ClaimLists.merged (lower : String → String) (L : ClaimLists) (maxClaims : Int) : List String :=
  (L.ordinary lower).take (maxClaims - (L.specials lower).length).toNat ++ L.specials lower

theorem mergeSpecialClaims_eq (h : 0 ≤ maxClaims) :
    mergeSpecialClaims lower L maxClaims = (L.merged lower maxClaims).take maxClaims.toNat := by
  unfold mergeSpecialClaims
  dsimp only
  rw [upTo_of_nonneg h, firstOfUpTo_eq_take]
  have hbudget : ∀ n : Int, (max 0 n).toNat = n.toNat := by
    intro n
    omega
  rw [hbudget]
  rfl

theorem keys_ordinary {c : String} (h : c ∈ L.ordinary lower) :
    lower c ∉ (L.specials lower).map lower :=
  (mem_keys_firstOf.mp (List.mem_map_of_mem h)).2

theorem nodup_merged : ((L.merged lower maxClaims).map lower).Nodup := by
  unfold ClaimLists.merged
  rw [List.map_append, List.nodup_append]
  refine ⟨?_, nodup_keys_firstOf _ _, fun a ha b hb hab => ?_⟩
  · rw [List.map_take]
    exact (nodup_keys_firstOf _ _).sublist (List.take_sublist _ _)
  · obtain ⟨c, hc, rfl⟩ := List.mem_map.mp ha
    exact keys_ordinary (List.mem_of_mem_take hc) (hab ▸ hb)

/-- If the specials have room, nothing is cut. -/
theorem length_merged_le (h : ((L.specials lower).length : Int) ≤ maxClaims) :
    (L.merged lower maxClaims).length ≤ maxClaims.toNat := by
  unfold ClaimLists.merged
  rw [List.length_append]
  have hlength := List.length_take_le (maxClaims - (L.specials lower).length).toNat
    (L.ordinary lower)
  omega

theorem filter_specials_eq_nil :
    (L.specials lower).filter (fun c => lower c ∉ (L.specials lower).map lower) = [] := by
  rw [List.filter_eq_nil_iff]
  intro c hc
  rw [decide_eq_true_iff, not_not]
  exact List.mem_map_of_mem hc

theorem merge_law (h : 0 ≤ maxClaims) :
    Law lower L maxClaims (mergeSpecialClaims lower L maxClaims) where
  short := length_upTo_le h _
  distinct := by
    rw [mergeSpecialClaims_eq h, List.map_take]
    exact nodup_merged.sublist (List.take_sublist _ _)
  specials := by
    intro hroom c hc
    rw [mergeSpecialClaims_eq h, List.take_of_length_le (length_merged_le hroom)]
    exact List.mem_append_right _ hc
  longest := by
    intro c hc
    rw [mergeSpecialClaims_eq h]
    by_cases hroom : ((L.specials lower).length : Int) ≤ maxClaims
    · rw [List.take_of_length_le (length_merged_le hroom)]
      exact List.mem_append_left _ hc
    · have hnone : (maxClaims - (L.specials lower).length).toNat = 0 := by omega
      rw [hnone] at hc
      exact absurd hc List.not_mem_nil
  order := by
    rw [mergeSpecialClaims_eq h]
    refine ((List.take_sublist _ _).filter _).trans ?_
    unfold ClaimLists.merged
    rw [List.filter_append, filter_specials_eq_nil, List.append_nil]
    exact List.filter_sublist.trans ((List.take_sublist _ _).trans (firstOf_sublist _ _))

/-- Primary claims that are special are as good as none. -/
theorem mergeSpecialClaims_evasion (lower : String → String) (L : ClaimLists) (maxClaims : Int) :
    mergeSpecialClaims lower { L with primary := L.evasion } maxClaims =
      mergeSpecialClaims lower { L with primary := [] } maxClaims := by
  have hseen : ∀ c ∈ L.evasion,
      lower c ∈ (specialClaims lower L.ignorance L.evasion L.citation).map lower := by
    intro c hc
    refine mem_keys_firstOf.mpr ⟨List.mem_map_of_mem ?_, List.not_mem_nil⟩
    exact List.mem_append_left _ (List.mem_append_right _ hc)
  unfold mergeSpecialClaims
  dsimp only
  rw [firstOfUpTo_eq_take, firstOfUpTo_eq_take, firstOf_eq_nil hseen]
  rfl

/-! ## The lists as they are -/

/-- If the first `n` claims are distinct and there are no more than `n` distinct ones, these are
the first `n`. -/
theorem firstOf_eq_take {xs : List String} {n : Nat} (hnodup : ((xs.take n).map lower).Nodup)
    (hlength : (firstOf lower [] xs).length ≤ n) : firstOf lower [] xs = xs.take n := by
  have hself : firstOf lower [] (xs.take n) = xs.take n :=
    firstOf_eq_self hnodup fun _ _ => List.not_mem_nil
  by_cases hlong : xs.length ≤ n
  · rw [List.take_of_length_le hlong] at hself ⊢
    exact hself
  · obtain ⟨more, hmore⟩ := firstOf_append lower [] (xs.take n) (xs.drop n)
    rw [List.take_append_drop, hself] at hmore
    rw [hmore, List.length_append, List.length_take] at hlength
    have hnil : more = [] := List.length_eq_zero_iff.mp (by omega)
    rw [hmore, hnil, List.append_nil]

/-- Lists that are put after one another fit the law if no two claims of what is left by the cap
are equal up to case. -/
theorem plain_law_iff (lower : String → String) (h : 0 ≤ maxClaims)
    (ignorance citation : List String) :
    Law lower { primary := [], ignorance, evasion := [], citation } maxClaims
        (upTo (ignorance ++ citation) maxClaims) ↔
      (((ignorance ++ citation).take maxClaims.toNat).map lower).Nodup := by
  have hspecials : ClaimLists.specials lower { primary := [], ignorance, evasion := [], citation } =
      firstOf lower [] (ignorance ++ citation) := by
    unfold ClaimLists.specials specialClaims
    rw [List.append_nil]
  rw [upTo_of_nonneg h]
  constructor
  · exact Law.distinct
  · intro hnodup
    refine { short := ?_, distinct := hnodup, specials := fun hroom c hc => ?_
             longest := fun c hc => ?_, order := ?_ }
    · have hlength := List.length_take_le maxClaims.toNat (ignorance ++ citation)
      omega
    · rw [hspecials] at hroom hc
      rw [firstOf_eq_take hnodup (by omega)] at hc
      exact hc
    · exact absurd (List.mem_of_mem_take hc) List.not_mem_nil
    · rw [hspecials]
      refine List.sublist_nil.mpr (List.filter_eq_nil_iff.mpr fun c hc => ?_)
      rw [decide_eq_true_iff, not_not]
      refine mem_keys_firstOf.mpr ⟨List.mem_map_of_mem ?_, List.not_mem_nil⟩
      exact List.mem_of_mem_take hc

/-! ## All paths -/

variable {X : Extractors} {minLength : Int} {responseText : String} {userQuery : Option String}

theorem Law.nonneg {claims : List String} (h : Law lower L maxClaims claims) : 0 ≤ maxClaims :=
  (Int.natCast_nonneg _).trans h.short

theorem law_short (h : 0 ≤ maxClaims) (hshort : (responseText.length : Int) < minLength) :
    Law lower (X.lists minLength maxClaims responseText userQuery) maxClaims
      (extractClaims lower X minLength maxClaims responseText userQuery).1 := by
  unfold Extractors.lists extractClaims
  rw [if_pos hshort, if_pos hshort]
  have hnodup : ((([] ++ [] : List String).take maxClaims.toNat).map lower).Nodup := by
    rw [List.append_nil, List.take_nil]
    exact List.nodup_nil
  have hplain := (plain_law_iff lower h [] []).mpr hnodup
  rw [upTo_of_nonneg h, List.append_nil, List.take_nil] at hplain
  exact hplain

/-- The claims of a response that is long enough. -/
theorem extractClaims_long (hlong : ¬ (responseText.length : Int) < minLength) :
    (extractClaims lower X minLength maxClaims responseText userQuery).1 =
      if X.primary maxClaims responseText userQuery = [] ∧
          X.evasionClaims responseText userQuery = [] then
        upTo (X.ignorance responseText ++ X.citation responseText) maxClaims
      else mergeSpecialClaims lower (X.lists minLength maxClaims responseText userQuery)
        maxClaims := by
  unfold Extractors.lists extractClaims Extractors.primary
  rw [if_neg hlong, if_neg hlong]
  dsimp only
  by_cases hsupersedes : X.evasionSupersedesPrimary responseText userQuery
  · have hevasion : X.evasionClaims responseText userQuery ≠ [] := by
      unfold Extractors.evasionSupersedesPrimary at hsupersedes
      rw [Bool.and_eq_true, decide_eq_true_iff] at hsupersedes
      exact hsupersedes.1
    rw [if_pos hsupersedes, if_pos hsupersedes, if_neg (fun h => hevasion h.2)]
  · rw [if_neg hsupersedes, if_neg hsupersedes]
    by_cases hllm : X.llmClaims maxClaims responseText userQuery ≠ []
    · rw [if_pos hllm, if_pos hllm, if_neg (fun h => hllm h.1)]
    · rw [if_neg hllm, if_neg hllm]
      by_cases hheuristic : X.heuristicClaims responseText userQuery ≠ []
      · rw [if_pos hheuristic, if_neg (fun h => hheuristic h.1)]
      · rw [if_neg hheuristic]
        rw [not_not] at hheuristic
        rw [hheuristic]
        by_cases hevasion : X.evasionClaims responseText userQuery ≠ []
        · rw [if_pos hevasion, if_neg (fun h => hevasion h.2)]
          exact mergeSpecialClaims_evasion lower
            { primary := [], ignorance := X.ignorance responseText
              evasion := X.evasionClaims responseText userQuery
              citation := X.citation responseText } maxClaims
        · have hnone : ([] : List String) = [] ∧ X.evasionClaims responseText userQuery = [] :=
            ⟨rfl, not_not.mp hevasion⟩
          rw [if_neg hevasion, if_pos hnone]
          by_cases hany : X.ignorance responseText ≠ [] ∨ X.citation responseText ≠ []
          · rw [if_pos hany]
          · rw [if_neg hany]
            rw [not_or, not_not, not_not] at hany
            rw [hany.1, hany.2]
            unfold upTo
            split <;> exact List.take_nil.symm

/-- The law holds of what is extracted exactly if the cap is none below zero and, where the
ignorance and citation claims are put after one another as they are, no two of those that the cap
leaves are equal up to case. -/
theorem extractClaims_iff (lower : String → String) (X : Extractors) (minLength maxClaims : Int)
    (responseText : String) (userQuery : Option String) :
    Law lower (X.lists minLength maxClaims responseText userQuery) maxClaims
        (extractClaims lower X minLength maxClaims responseText userQuery).1 ↔
      0 ≤ maxClaims ∧ (X.Unmerged minLength maxClaims responseText userQuery →
        (((X.ignorance responseText ++ X.citation responseText).take maxClaims.toNat).map
          lower).Nodup) := by
  refine ⟨fun hlaw => ⟨hlaw.nonneg, fun hunmerged => ?_⟩, fun ⟨hmax, hdistinct⟩ => ?_⟩
  · have hdistinct := hlaw.distinct
    rw [extractClaims_long hunmerged.long, if_pos ⟨hunmerged.primary, hunmerged.evasion⟩,
      upTo_of_nonneg hlaw.nonneg] at hdistinct
    exact hdistinct
  · by_cases hlong : (responseText.length : Int) < minLength
    · exact law_short hmax hlong
    · rw [extractClaims_long hlong]
      split
      · rename_i hempty
        unfold Extractors.lists
        rw [if_neg hlong, hempty.1, hempty.2]
        exact (plain_law_iff lower hmax _ _).mpr (hdistinct ⟨hlong, hempty.1, hempty.2⟩)
      · exact merge_law hmax

/-- The passes over a response that says twice what it does not know. -/
def sampleExtractors : Extractors where
  ignorance _ := ["I am not aware of the results", "I am not aware of the Results"]
  evasion _ _ := []
  citation _ := []
  hasCheckableFragment _ := false
  stripMetaSentences text := text
  llm _ _ _ := []
  heuristic _ := []
  resolvePronouns claims _ _ := claims
  isMetaSelfReferential _ := false
  claimHasSubject _ := true

theorem repeated_admission :
    ¬ Law Text.CaseFold.lower.fold (sampleExtractors.lists 25 10
        "I am not aware of the results. I am not aware of the Results." none) 10
      (extractClaims Text.CaseFold.lower.fold sampleExtractors 25 10
        "I am not aware of the results. I am not aware of the Results." none).1 := by
  intro h
  exact absurd h.distinct (by decide +kernel)

end Cerid.Verification.Extraction
