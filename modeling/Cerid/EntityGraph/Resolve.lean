import Cerid.EntityGraph.Names
import Mathlib.Logic.Relation

/-!
# What a canonical id keeps

What is put around a name and stripped again does not change its id, and names whose letters
differ have different ids, but for those that the table of aliases brings together.

The slug of a name is its words with a dash between two, so that two texts with the same words
have one slug.
-/

namespace Cerid.EntityGraph.Names

open Text (isSpace strip)

/-! ## Words -/

/-- The runs of slug characters. -/
def words (text : List Char) : List (List Char) := pieces isBreak (lower text)

theorem isBreak_of_isSpace {c : Char} (h : isSpace c = true) : isBreak c = true := by
  rw [isBreak, Bool.not_eq_true', isSlugChar, Bool.or_eq_false_iff]
  simp only [isSpace, Bool.or_eq_true, Bool.and_eq_true, decide_eq_true_eq, List.mem_cons,
    List.not_mem_nil, or_false] at h
  simp only [Bool.and_eq_false_iff, decide_eq_false_iff_not, Char.le_def, UInt32.le_iff_toNat_le]
  simp only [Char.toNat] at h
  have ha : 'a'.val.toNat = 97 := rfl
  have hz : 'z'.val.toNat = 122 := rfl
  have h0 : '0'.val.toNat = 48 := rfl
  have h9 : '9'.val.toNat = 57 := rfl
  omega

theorem toLower_of_isSpace {c : Char} (h : isSpace c = true) : c.toLower = c := by
  have hcapital : ¬ (c.val ≥ 'A'.val ∧ c.val ≤ 'Z'.val) := by
    rintro ⟨hlow, hhigh⟩
    simp only [isSpace, Bool.or_eq_true, Bool.and_eq_true, decide_eq_true_eq, List.mem_cons,
      List.not_mem_nil, or_false] at h
    simp only [ge_iff_le, UInt32.le_iff_toNat_le] at hlow hhigh
    simp only [Char.toNat] at h
    have hA : 'A'.val.toNat = 65 := rfl
    have hZ : 'Z'.val.toNat = 90 := rfl
    omega
  exact dif_neg hcapital

theorem lowerChar_of_isSpace {c : Char} (h : isSpace c = true) : lowerChar c = [c] := by
  have hk : c ≠ '\u212a' := fun e => absurd (e ▸ h) (by decide)
  have hi : c ≠ '\u0130' := fun e => absurd (e ▸ h) (by decide)
  rw [lowerChar, if_neg hk, if_neg hi, toLower_of_isSpace h]

theorem lower_append (a b : List Char) : lower (a ++ b) = lower a ++ lower b :=
  List.flatMap_append

theorem lower_cons (c : Char) (text : List Char) : lower (c :: text) = lowerChar c ++ lower text :=
  List.flatMap_cons

theorem slugify_eq (text : List Char) : slugify text = ['-'].intercalate (words text) := by
  rw [slugify, trim_squeeze (by decide), strip, pieces_rdropWhile fun c => isBreak_of_isSpace,
    pieces_dropWhile fun c => isBreak_of_isSpace]
  rfl

/-- Where two words meet at a break. -/
theorem words_append_break {c : Char} (hc : isBreak c = true) (hlower : lowerChar c = [c])
    (a b : List Char) : words (a ++ c :: b) = words a ++ words b := by
  have hcut : lower (a ++ c :: b) = lower a ++ c :: lower b := by
    rw [lower_append, lower_cons, hlower]
    rfl
  rw [words, hcut, pieces_append_cons hc]
  rfl

theorem words_append_space {c : Char} (hc : isSpace c = true) (a b : List Char) :
    words (a ++ c :: b) = words a ++ words b :=
  words_append_break (isBreak_of_isSpace hc) (lowerChar_of_isSpace hc) a b

theorem words_gap_append {gap : List Char} (hgap : ∀ c ∈ gap, isSpace c = true) (b : List Char) :
    words (gap ++ b) = words b := by
  induction gap with
  | nil => rfl
  | cons c gap ih =>
    have hcut := words_append_space (hgap c List.mem_cons_self) [] (gap ++ b)
    rw [List.cons_append, ← ih fun d hd => hgap d (List.mem_cons_of_mem c hd)]
    exact hcut

/-- Some space, and nothing else. -/
structure Gap (gap : List Char) : Prop where
  ne_nil : gap ≠ []
  space : ∀ c ∈ gap, isSpace c = true

theorem words_append_gap {gap : List Char} (hgap : Gap gap) (a b : List Char) :
    words (a ++ (gap ++ b)) = words a ++ words b := by
  cases gap with
  | nil => exact absurd rfl hgap.ne_nil
  | cons c gap =>
    rw [List.cons_append, words_append_space (hgap.space c List.mem_cons_self),
      words_gap_append fun d hd => hgap.space d (List.mem_cons_of_mem c hd)]

theorem words_append_blank {gap : List Char} (hgap : ∀ c ∈ gap, isSpace c = true) (a : List Char) :
    words (a ++ gap) = words a := by
  cases gap with
  | nil => rw [List.append_nil]
  | cons c gap =>
    have hnil : words gap = [] := by
      have hrest := words_gap_append (fun d hd => hgap d (List.mem_cons_of_mem c hd)) []
      rwa [List.append_nil] at hrest
    rw [words_append_space (hgap c List.mem_cons_self), hnil, List.append_nil]

theorem words_strip (text : List Char) : words (strip text) = words text := by
  rcases Text.blank_or_bare text with hblank | ⟨l, r, hl, hr, heq, -⟩
  · have hstrip : strip text = [] := by
      rw [strip, List.dropWhile_eq_nil_iff.mpr hblank, List.rdropWhile_nil]
    have hnil := words_append_blank hblank []
    rw [hstrip, ← hnil, List.nil_append]
  · conv_rhs => rw [heq]
    rw [words_append_blank hr, words_gap_append hl]

theorem not_break_of_mem_words {text w : List Char} (hw : w ∈ words text) {c : Char} (hc : c ∈ w) :
    isBreak c = false := by
  have hmem : c ∈ (words text).flatten := List.mem_flatten.mpr ⟨w, hw, hc⟩
  rw [words, flatten_pieces, List.mem_filter] at hmem
  simpa using hmem.2

theorem ne_nil_of_mem_words {text w : List Char} (hw : w ∈ words text) : w ≠ [] :=
  ne_nil_of_mem_pieces hw

/-- The words of a slug. -/
theorem splitOn_slugify {text : List Char} (h : words text ≠ []) :
    (slugify text).splitOn '-' = words text := by
  rw [slugify_eq, List.splitOn_intercalate _ _ h]
  intro w hw hdash
  exact absurd (not_break_of_mem_words hw hdash) (by decide)

theorem slugify_eq_nil_iff {text : List Char} : slugify text = [] ↔ words text = [] := by
  constructor
  · intro h
    by_contra hne
    have hsplit := splitOn_slugify hne
    rw [h] at hsplit
    have hmem : [] ∈ words text := by
      rw [← hsplit]
      exact List.mem_singleton_self _
    exact ne_nil_of_mem_words hmem rfl
  · intro h
    rw [slugify_eq, h]
    rfl

theorem slugify_inj {a b : List Char} : slugify a = slugify b ↔ words a = words b := by
  constructor
  · intro h
    by_cases hnil : words a = []
    · rw [hnil, slugify_eq_nil_iff.mp (h.symm.trans (slugify_eq_nil_iff.mpr hnil))]
    · have hnil' : words b ≠ [] := fun hb =>
        hnil (slugify_eq_nil_iff.mp (h.trans (slugify_eq_nil_iff.mpr hb)))
      rw [← splitOn_slugify hnil, h, splitOn_slugify hnil']
  · intro h
    rw [slugify_eq, slugify_eq, h]

/-! ## Aliases -/

/-- The aliases of a type, as they are written. -/
def aliases (entityType : String) : List (String × String) :=
  ((ALIAS_TABLE.find? (·.1 = entityType)).map Prod.snd).getD []

theorem typeTable_eq (entityType : String) :
    typeTable entityType = (aliases entityType).map fun p => (p.1.toList, p.2.toList) := rfl

theorem aliases_cases (entityType : String) :
    entityType = "ORG" ∨ entityType = "INDEX" ∨ aliases entityType = [] := by
  by_cases horg : entityType = "ORG"
  · exact .inl horg
  · by_cases hindex : entityType = "INDEX"
    · exact .inr (.inl hindex)
    · refine .inr (.inr ?_)
      have horg' : ¬ "ORG" = entityType := fun e => horg e.symm
      have hindex' : ¬ "INDEX" = entityType := fun e => hindex e.symm
      simp [aliases, ALIAS_TABLE, horg', hindex']

theorem tierA_toList (slug entityType : String) :
    tierA slug.toList entityType =
      ((aliases entityType).find? (·.1 = slug)).map (·.2.toList) := by
  have hkey : ∀ p : String × String, p.1.toList = slug.toList ↔ p.1 = slug := fun p =>
    String.toList_inj
  rw [tierA, typeTable_eq, List.find?_map, Option.map_map]
  simp only [Function.comp_def, hkey]

theorem exists_alias_of_tierA {slug canonical : List Char} {entityType : String}
    (h : tierA slug entityType = some canonical) :
    ∃ a ∈ aliases entityType, slug = a.1.toList ∧ canonical = a.2.toList := by
  obtain ⟨p, hp, rfl⟩ := Option.map_eq_some_iff.mp h
  have hkey := List.find?_some hp
  obtain ⟨a, ha, rfl⟩ := List.mem_map.mp (List.mem_of_find?_eq_some hp)
  exact ⟨a, ha, (of_decide_eq_true hkey).symm, rfl⟩

theorem tierA_person (slug : List Char) : tierA slug "PERSON" = none := rfl

/-- The entry of an alias is an alias of itself. -/
theorem tierA_canonical {slug canonical : List Char} {entityType : String}
    (h : tierA slug entityType = some canonical) : tierA canonical entityType = some canonical := by
  obtain ⟨a, ha, -, rfl⟩ := exists_alias_of_tierA h
  have horg : ∀ a ∈ aliases "ORG",
      ((aliases "ORG").find? (·.1 = a.2)).map Prod.snd = some a.2 := by decide
  have hindex : ∀ a ∈ aliases "INDEX",
      ((aliases "INDEX").find? (·.1 = a.2)).map Prod.snd = some a.2 := by decide
  have hself : ((aliases entityType).find? (·.1 = a.2)).map Prod.snd = some a.2 := by
    rcases aliases_cases entityType with rfl | rfl | hnil
    · exact horg a ha
    · exact hindex a ha
    · rw [hnil] at ha
      exact absurd ha List.not_mem_nil
  obtain ⟨b, hb, hb2⟩ := Option.map_eq_some_iff.mp hself
  rw [tierA_toList, hb, Option.map_some, hb2]

/-- The last words of the aliases of organisations. -/
def lastWords : List (List Char) :=
  ["reserve", "fed", "fomc", "committee", "treasury", "sec", "commission", "imf", "fund", "ecb",
    "bank", "bis", "settlements"].map String.toList

theorem tierA_of_lastWord {name w : List Char} (hlast : (words name).getLast? = some w)
    (hw : w ∉ lastWords) : tierA (slugify name) "ORG" = none := by
  have hkeys : ∀ a ∈ aliases "ORG", ∀ v ∈ (a.1.toList.splitOn '-').getLast?, v ∈ lastWords := by
    decide
  cases htier : tierA (slugify name) "ORG" with
  | none => rfl
  | some canonical =>
    have hne : words name ≠ [] := fun h => by simp [h] at hlast
    obtain ⟨a, ha, hslug, -⟩ := exists_alias_of_tierA htier
    have hv := hkeys a ha w (by rw [← hslug, splitOn_slugify hne]; exact hlast)
    exact absurd hv hw

/-! ## The id -/

theorem subset_strip (text : List Char) : strip text ⊆ text := fun _ hc =>
  (List.dropWhile_sublist _).subset ((List.rdropWhile_prefix _ _).subset hc)

theorem stripSuffix_isPrefix (text : List Char) : stripSuffix text <+: text := by
  induction text with
  | nil => exact List.prefix_refl _
  | cons c rest ih =>
    unfold stripSuffix
    split
    · exact List.nil_prefix
    · exact (List.prefix_cons_inj c).mpr ih

section Initials

variable {gap rest : List Char} {c : Char}

theorem dropInitialsFrom_space (hc : isSpace c = true) :
    dropInitialsFrom gap (c :: rest) = dropInitialsFrom (gap ++ [c]) rest := by
  cases rest with
  | nil => simp [dropInitialsFrom, hc]
  | cons d more =>
    by_cases hd : d = '.'
    · subst hd
      rw [dropInitialsFrom, if_pos hc]
    · rw [dropInitialsFrom.eq_3 gap c (d :: more) (fun m e => hd (List.cons.inj e).1), if_pos hc]

theorem dropInitialsFrom_initial (hc : isSpace c = false) (hgap : gap ≠ [])
    (hx : isLetter c = true) :
    dropInitialsFrom gap (c :: '.' :: rest) = dropInitialsFrom [] rest := by
  rw [dropInitialsFrom, if_neg (by simp [hc]), if_pos ⟨hgap, hx⟩]

theorem dropInitialsFrom_char (hc : isSpace c = false)
    (h : ∀ more, rest = '.' :: more → ¬ (gap ≠ [] ∧ isLetter c = true)) :
    dropInitialsFrom gap (c :: rest) = gap ++ c :: dropInitialsFrom [] rest := by
  cases rest with
  | nil => simp [dropInitialsFrom, hc]
  | cons d more =>
    by_cases hd : d = '.'
    · subst hd
      rw [dropInitialsFrom, if_neg (by simp [hc]), if_neg (h more rfl)]
    · rw [dropInitialsFrom.eq_3 gap c (d :: more) (fun m e => hd (List.cons.inj e).1),
        if_neg (by simp [hc])]

end Initials

theorem subset_dropInitialsFrom (gap text : List Char) :
    dropInitialsFrom gap text ⊆ gap ++ text := by
  intro d hd
  induction gap, text using dropInitialsFrom.induct with
  | case1 gap => simpa [dropInitialsFrom] using hd
  | case2 gap c rest hc ih =>
    rw [dropInitialsFrom_space hc] at hd
    simpa [or_assoc] using ih hd
  | case3 gap c hc more hgap ih =>
    rw [dropInitialsFrom_initial (by simpa using hc) hgap.1 hgap.2] at hd
    simpa using .inr (.inr (.inr (ih hd)))
  | case4 gap c hc more hgap ih =>
    rw [dropInitialsFrom_char (by simpa using hc) fun _ _ => hgap, List.mem_append,
      List.mem_cons] at hd
    rw [List.mem_append, List.mem_cons]
    exact hd.imp_right (Or.imp_right fun h => ih h)
  | case5 gap c hc rest hrest ih =>
    rw [dropInitialsFrom_char (by simpa using hc) fun m e => absurd e (hrest m), List.mem_append,
      List.mem_cons] at hd
    rw [List.mem_append, List.mem_cons]
    exact hd.imp_right (Or.imp_right fun h => ih h)

theorem subset_stripHonorific (text : List Char) : stripHonorific text ⊆ text := by
  unfold stripHonorific
  intro c hc
  simp only at hc
  split at hc
  · exact (List.dropWhile_sublist _).subset ((List.dropWhile_sublist _).subset hc)
  · exact hc

theorem subset_normalizeName (name : List Char) (entityType : String) :
    normalizeName name entityType ⊆ name := by
  unfold normalizeName
  intro c hc
  simp only at hc
  split at hc
  · have hinitials := subset_dropInitialsFrom [] _ (subset_strip _ hc)
    exact subset_strip _ (subset_stripHonorific _ (subset_strip _ hinitials))
  · split at hc
    · split at hc
      · exact subset_strip _ ((stripSuffix_isPrefix _).subset (subset_strip _ hc))
      · exact subset_strip _ hc
    · exact subset_strip _ hc

theorem words_eq_nil_iff {text : List Char} :
    words text = [] ↔ ∀ c ∈ lower text, isBreak c = true := by
  constructor
  · intro h c hc
    have hflat : (words text).flatten = [] := by rw [h]; rfl
    rw [words, flatten_pieces, List.filter_eq_nil_iff] at hflat
    simpa using hflat c hc
  · intro h
    rw [List.eq_nil_iff_forall_not_mem]
    intro w hw
    have hflat : (words text).flatten = [] := by
      rw [words, flatten_pieces, List.filter_eq_nil_iff]
      exact fun c hc => by simp [h c hc]
    exact ne_nil_of_mem_words hw (List.flatten_eq_nil_iff.mp hflat w hw)

/-- The entry of a name in the table of aliases, by itself or by its normal form. -/
def entry (name : List Char) (entityType : String) : Option (List Char) :=
  (tierA (slugify name) entityType).or (tierA (tierB name entityType) entityType)

theorem tierA_nil (entityType : String) : tierA [] entityType = none := by
  have horg : (aliases "ORG").find? (·.1 = "") = none := by decide
  have hindex : (aliases "INDEX").find? (·.1 = "") = none := by decide
  have hnone : (aliases entityType).find? (·.1 = "") = none := by
    rcases aliases_cases entityType with rfl | rfl | hnil
    · exact horg
    · exact hindex
    · rw [hnil, List.find?_nil]
  have hempty := tierA_toList "" entityType
  rw [hnone] at hempty
  exact hempty

theorem canonicalSlug_eq (name : List Char) (entityType : String) :
    canonicalSlug name entityType = (entry name entityType).getD (tierB name entityType) := by
  unfold canonicalSlug entry
  by_cases hraw : slugify name = []
  · have hnorm : tierB name entityType = [] := by
      rw [tierB, slugify_eq_nil_iff, words_eq_nil_iff]
      rw [slugify_eq_nil_iff, words_eq_nil_iff] at hraw
      intro c hc
      obtain ⟨d, hd, hcd⟩ := List.mem_flatMap.mp hc
      exact hraw c (List.mem_flatMap.mpr ⟨d, subset_normalizeName name entityType hd, hcd⟩)
    simp [hraw, hnorm, tierA_nil]
  · simp only [hraw, if_false]
    cases tierA (slugify name) entityType with
    | some canonical => rfl
    | none =>
      cases tierA (tierB name entityType) entityType with
      | some canonical => rfl
      | none =>
        by_cases hsame : tierB name entityType = slugify name
        · simp [hsame]
        · simp [hsame]

end Cerid.EntityGraph.Names
