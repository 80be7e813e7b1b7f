import Cerid.EntityGraph.Suffixes

/-!
# Canonical ids

The ids of a name and of what it becomes by one honorific, initials and one legal suffix are the
same, the normal form of a name resolves as the name does when nothing more comes off it, and
other letters make another id.
-/

namespace Cerid.EntityGraph.Names

open Text (isSpace strip Bare)

/-! ## What is put around a name -/

/-- An honorific in front of a person's name that starts with none; an initial between two words
of it, the first not an honorific; a legal suffix after an organisation's name that ends in none,
where it stands by itself and leaves more than an article. -/
inductive Decorates : String → List Char → List Char → Prop
  | honorific {h gap name : List Char} : isHonorific h = true → Gap gap → strip name ≠ [] →
      stripHonorific (strip name) = strip name → Decorates "PERSON" name (h ++ (gap ++ name))
  | initial {l u gap v r gap₁ gap₂ : List Char} {x : Char} : (∀ c ∈ l, isSpace c = true) →
      (∀ c ∈ r, isSpace c = true) → Bare u → Bare v → isHonorific u = false → Gap gap → Gap gap₁ →
      Gap gap₂ → isLetter x = true →
      Decorates "PERSON" (l ++ (u ++ (gap ++ v)) ++ r)
        (l ++ (u ++ (gap₁ ++ (x :: '.' :: (gap₂ ++ v)))) ++ r)
  | suffix {name comma gap suf : List Char} : (comma = [] ∨ comma = [',']) → Gap gap →
      isSuffix suf = true → strip name ≠ [] → normalizeName name "ORG" = strip name →
      ¬ Joins name (comma ++ (gap ++ suf)) →
      isNamed (strip (stripSuffix (strip (name ++ (comma ++ (gap ++ suf)))))) = true →
      Decorates "ORG" name (name ++ (comma ++ (gap ++ suf)))

theorem bare_of_strip_ne_nil {name : List Char} (h : strip name ≠ []) :
    ∃ l r, (∀ c ∈ l, isSpace c = true) ∧ (∀ c ∈ r, isSpace c = true) ∧
      name = l ++ strip name ++ r ∧ Bare (strip name) := by
  rcases Text.blank_or_bare name with hblank | hbare
  · exact absurd (by rw [strip, List.dropWhile_eq_nil_iff.mpr hblank, List.rdropWhile_nil]) h
  · exact hbare

theorem canonicalSlug_person (name : List Char) :
    canonicalSlug name "PERSON" = tierB name "PERSON" := by
  simp only [canonicalSlug_eq, entry, tierA_person, Option.or_none, Option.getD_none]

/-- A suffix ends the name and no alias. -/
theorem tierA_suffix {gap suf : List Char} (hgap : Gap gap) (hsuffix : isSuffix suf = true)
    (front : List Char) : tierA (slugify (front ++ (gap ++ suf))) "ORG" = none := by
  have hunlisted := (unlisted_of_isSuffix hsuffix).after front fun a => words_append_gap hgap a suf
  obtain ⟨w, hlast, hw⟩ := hunlisted
  exact tierA_of_lastWord hlast hw

theorem canonicalSlug_decorates {entityType : String} {name name' : List Char}
    (h : Decorates entityType name name') :
    canonicalSlug name' entityType = canonicalSlug name entityType := by
  cases h with
  | honorific hh hgap hne hfirst =>
    obtain ⟨l, r, hl, hr, heq, hm⟩ := bare_of_strip_ne_nil hne
    rw [canonicalSlug_person, canonicalSlug_person, tierB, tierB, heq, ← List.append_assoc]
    have hgap' : ∀ c ∈ _ ++ l, isSpace c = true := fun c hc =>
      (List.mem_append.mp hc).elim (hgap.space c) (hl c)
    rw [normalizeName_honorific hh ⟨by simp [hgap.ne_nil], hgap'⟩ hl hr hm hfirst]
  | initial hl hr hu hv hfirst hgap hgap₁ hgap₂ hx =>
    rw [canonicalSlug_person, canonicalSlug_person]
    exact tierB_initial hl hr hu hv hfirst hgap hgap₁ hgap₂ hx
  | @suffix _ comma gap suf hcomma hgap hsuffix hne hnone hjoins hnamed =>
    obtain ⟨l, r, hl, hr, heq, hm⟩ := bare_of_strip_ne_nil hne
    have hsuf := bare_of_isSuffix hsuffix
    -- the name is itself in normal form
    have hself : tierB name "ORG" = slugify name := by
      rw [tierB, hnone, slugify_inj, words_strip]
    -- so is what is left of the longer one
    have hlonger : tierB (name ++ (comma ++ (gap ++ suf))) "ORG" = slugify name := by
      have hstrip : strip (name ++ (comma ++ (gap ++ suf))) =
          strip name ++ r ++ (comma ++ (gap ++ suf)) := by
        have hbare := hm.append (r ++ (comma ++ gap)) hsuf
        have hpad := Text.strip_pad (r := []) hl (by simp) hbare
        conv_lhs => rw [heq]
        simpa using hpad
      have hjoins' : ¬ Joins (strip name ++ r) (comma ++ (gap ++ suf)) := by
        rintro ⟨front, c, z, hname, hrest⟩
        refine hjoins ⟨l ++ front, c, z, ?_, hrest⟩
        rw [heq, List.append_assoc, hname, List.append_assoc]
      have hwords := words_stripSuffix hcomma hgap hsuf.first hsuffix hjoins'
      rw [words_append_blank hr, words_strip] at hwords
      have horg : ¬ "ORG" = "PERSON" := by decide
      simp only [tierB, normalizeName, if_neg horg, if_true, hnamed]
      rw [slugify_inj, words_strip, hstrip, hwords]
    have hraw : tierA (slugify (name ++ (comma ++ (gap ++ suf)))) "ORG" = none := by
      rw [← List.append_assoc]
      exact tierA_suffix hgap hsuffix _
    rw [canonicalSlug_eq, canonicalSlug_eq, entry, entry, hraw, hlonger, hself]
    cases tierA (slugify name) "ORG" <;> rfl

/-! ## The normal form -/

theorem stripSuffix_cases (text : List Char) :
    stripSuffix text = text ∨ ∃ q t, text = q ++ t ∧ isLegalTail t = true := by
  induction text with
  | nil => exact .inl rfl
  | cons c rest ih =>
    by_cases hc : isLegalTail (c :: rest) = true
    · exact .inr ⟨[], c :: rest, rfl, hc⟩
    · rw [stripSuffix, if_neg hc]
      rcases ih with hsame | ⟨q, t, rfl, ht⟩
      · exact .inl (by rw [hsame])
      · exact .inr ⟨c :: q, t, rfl, ht⟩

/-- Where a name is an alias by itself, its normal form is the same alias. -/
theorem tierA_tierB {name canonical : List Char} {entityType : String}
    (h : tierA (slugify name) entityType = some canonical) :
    tierA (tierB name entityType) entityType = some canonical := by
  by_cases hperson : entityType = "PERSON"
  · subst hperson
    rw [tierA_person] at h
    cases h
  · suffices hsame : words (normalizeName name entityType) = words name by
      rwa [tierB, slugify_inj.mpr hsame]
    by_cases horg : entityType = "ORG"
    · subst horg
      have hwhole : stripSuffix (strip name) = strip name := by
        rcases stripSuffix_cases (strip name) with hwhole | ⟨q, t, heq, ht⟩
        · exact hwhole
        · -- with a suffix at its end the name is no alias
          obtain ⟨comma, gap, suf, rfl, -, hgap, -, hsuffix⟩ := isLegalTail_iff.mp ht
          have hnone := tierA_suffix hgap hsuffix (q ++ comma)
          rw [List.append_assoc, ← heq, slugify_inj.mpr (words_strip name), h] at hnone
          cases hnone
      simp only [normalizeName, if_neg hperson, hwhole, Text.strip_strip, ite_self]
      exact words_strip name
    · simp only [normalizeName, if_neg hperson, if_neg horg]
      exact words_strip name

/-- The slug characters of a text, without regard to case. -/
def letters (text : List Char) : List Char := (lower text).filter isSlugChar

theorem letters_eq_flatten (text : List Char) : letters text = (words text).flatten := by
  rw [words, flatten_pieces]
  simp [letters, isBreak]

/-- Names with one id have the same letters, or the table has one entry for both. -/
theorem letters_of_canonicalSlug {a b : List Char} {entityType : String}
    (h : canonicalSlug a entityType = canonicalSlug b entityType) :
    letters (normalizeName a entityType) = letters (normalizeName b entityType) ∨
      ∃ canonical, entry a entityType = some canonical ∧ entry b entityType = some canonical := by
  have hentry : ∀ {x y : List Char} {canonical : List Char}, entry x entityType = some canonical →
      (entry y entityType).getD (tierB y entityType) = canonical →
      entry y entityType = some canonical := by
    intro x y canonical hx hy
    cases hentry : entry y entityType with
    | some c =>
      rw [hentry] at hy
      exact congrArg some hy
    | none =>
      -- what the one name is an alias of is an alias of itself
      have halias : tierA canonical entityType = some canonical := by
        rw [entry, Option.or_eq_some_iff] at hx
        exact hx.elim tierA_canonical fun hx => tierA_canonical hx.2
      rw [hentry, Option.getD_none] at hy
      rw [entry, hy, halias, Option.or_eq_none_iff] at hentry
      cases hentry.2
  rw [canonicalSlug_eq, canonicalSlug_eq] at h
  cases ha : entry a entityType with
  | some canonical =>
    rw [ha] at h
    exact .inr ⟨canonical, rfl, hentry ha h.symm⟩
  | none =>
    cases hb : entry b entityType with
    | some canonical =>
      rw [hb] at h
      exact absurd (hentry hb h) (by simp [ha])
    | none =>
      rw [ha, hb] at h
      refine .inl ?_
      rw [letters_eq_flatten, letters_eq_flatten, slugify_inj.mp h]

/-! ## The ids -/

/-- Any sequence of such additions keeps the id of a name, a normal form from which nothing more
comes off has it too, and names that differ in a letter or a digit of ASCII have different ids,
but for those that the table brings together. -/
theorem resolveCanonical_keeps (typeLower : String → List Char) (entityType : String) :
    (∀ name name', Relation.ReflTransGen (Decorates entityType) name name' →
      resolveCanonical typeLower name' entityType = resolveCanonical typeLower name entityType) ∧
    (∀ name, normalizeName (normalizeName name entityType) entityType =
        normalizeName name entityType →
      resolveCanonical typeLower (normalizeName name entityType) entityType =
        resolveCanonical typeLower name entityType) ∧
    (∀ a b, letters (normalizeName a entityType) ≠ letters (normalizeName b entityType) →
      resolveCanonical typeLower a entityType ≠ resolveCanonical typeLower b entityType ∨
        ∃ canonical, entry a entityType = some canonical ∧
          entry b entityType = some canonical) := by
  refine ⟨fun name name' hruns => ?_, fun name hdone => ?_, fun a b hletters => ?_⟩
  · induction hruns with
    | refl => rfl
    | tail _ hstep ih =>
      rw [← ih, resolveCanonical, resolveCanonical, canonicalSlug_decorates hstep]
  · have hslug : canonicalSlug (normalizeName name entityType) entityType =
        canonicalSlug name entityType := by
      have htier : tierB (normalizeName name entityType) entityType = tierB name entityType := by
        rw [tierB, hdone]
        rfl
      have hnormal : slugify (normalizeName name entityType) = tierB name entityType := rfl
      rw [canonicalSlug_eq, canonicalSlug_eq, entry, entry, htier, hnormal, Option.or_self]
      cases hraw : tierA (slugify name) entityType with
      | none => rfl
      | some canonical => rw [tierA_tierB hraw, Option.or_self]
    rw [resolveCanonical, resolveCanonical, hslug]
  · by_cases hsame : canonicalSlug a entityType = canonicalSlug b entityType
    · exact .inr ((letters_of_canonicalSlug hsame).resolve_left hletters)
    · refine .inl fun h => hsame ?_
      rw [resolveCanonical, resolveCanonical] at h
      exact List.cons_inj_right ':' |>.mp (List.append_cancel_left h)

theorem smith_decorated :
    resolveCanonical (fun _ => "person".toList) "Dr. John A. Smith".toList "PERSON" =
      resolveCanonical (fun _ => "person".toList) "John Smith".toList "PERSON" := by
  have hspace : Gap [' '] := ⟨by simp, by simp; decide⟩
  have hinitial : Decorates "PERSON" "John Smith".toList "John A. Smith".toList :=
    @Decorates.initial [] "John".toList [' '] "Smith".toList [] [' '] [' '] 'A' (by simp) (by simp)
      (word_of_all (by decide)).bare (word_of_all (by decide)).bare (by decide) hspace
      hspace hspace (by decide)
  have hhonorific : Decorates "PERSON" "John A. Smith".toList "Dr. John A. Smith".toList :=
    @Decorates.honorific "Dr.".toList [' '] "John A. Smith".toList (by decide) hspace
      (by decide) (by decide)
  exact (resolveCanonical_keeps (fun _ => "person".toList) "PERSON").1 _ _
    ((Relation.ReflTransGen.single hinitial).tail hhonorific)

/-- A second honorific stays, as do a second suffix, an honorific of an organisation, an initial
after an honorific, one that is no letter of ASCII, a suffix that leaves an article and the end of
a name that joins the suffix; and letters of other scripts are no part of an id. -/
theorem second_honorific_kept :
    let resolved := fun name entityType : String =>
      resolveCanonical (fun t => t.toList.map Char.toLower) name.toList entityType
    resolved "Dr. Prof. John Smith" "PERSON" ≠ resolved "John Smith" "PERSON" ∧
      resolved "Acme Inc. LLC" "ORG" ≠ resolved "Acme" "ORG" ∧
      resolved "Dr. Acme" "ORG" ≠ resolved "Acme" "ORG" ∧
      resolved "Mr J. Smith" "PERSON" ≠ resolved "Mr Smith" "PERSON" ∧
      resolved "John \u0130. Smith" "PERSON" ≠ resolved "John Smith" "PERSON" ∧
      resolved "The Company" "ORG" ≠ resolved "The" "ORG" ∧
      resolved "Acme Pty Ltd" "ORG" ≠ resolved "Acme Pty" "ORG" ∧
      normalizeName "Dr. Prof. John Smith".toList "PERSON" = "Prof. John Smith".toList ∧
      resolved "Prof. John Smith" "PERSON" ≠ resolved "Dr. Prof. John Smith" "PERSON" ∧
      resolved "\u674e\u660e" "PERSON" = resolved "\u738b\u82b3" "PERSON" ∧
      entry "\u674e\u660e".toList "PERSON" = none := by
  decide +kernel

end Cerid.EntityGraph.Names
