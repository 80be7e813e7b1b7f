import Cerid.EntityGraph.Resolve

/-!
# Honorifics, initials and suffixes

One honorific in front of a name, an initial between two of its words and one legal suffix at its
end do not change its id.
-/

namespace Cerid.EntityGraph.Names

open Text (isSpace strip Bare)

/-! ## Patterns -/

theorem sameLetter_space {l c : Char} (h : sameLetter l c = true) (hl : isSpace l = false) :
    isSpace c = false := by
  cases hc : isSpace c with
  | false => rfl
  | true =>
    rw [sameLetter, toLower_of_isSpace hc, Bool.or_eq_true, Bool.or_eq_true] at h
    simp only [decide_eq_true_eq, Bool.and_eq_true, Bool.or_eq_true] at h
    obtain (rfl | ⟨-, rfl⟩) | ⟨-, rfl | rfl⟩ := h
    · exact hc.symm.trans hl
    · exact absurd hc (by decide)
    · exact absurd hc (by decide)
    · exact absurd hc (by decide)

theorem sameLetters_space {ls text : List Char} (h : sameLetters ls text = true)
    (hls : ∀ l ∈ ls, isSpace l = false) : ∀ c ∈ text, isSpace c = false := by
  induction ls, text using sameLetters.induct with
  | case1 => simp
  | case2 l ls c cs ih =>
    rw [sameLetters, Bool.and_eq_true] at h
    have hrest := ih h.2 fun l' hl' => hls l' (List.mem_cons_of_mem l hl')
    exact List.forall_mem_cons.mpr ⟨sameLetter_space h.1 (hls l List.mem_cons_self), hrest⟩
  | case3 ls cs hnil hcons => simp [sameLetters] at h

theorem ne_nil_of_sameLetters {ls text : List Char} (h : sameLetters ls text = true)
    (hls : ls ≠ []) : text ≠ [] := by
  rintro rfl
  cases ls with
  | nil => exact hls rfl
  | cons l ls => simp [sameLetters] at h

/-- A word: it is not empty and has no space. -/
structure Word (w : List Char) : Prop where
  ne_nil : w ≠ []
  solid : ∀ c ∈ w, isSpace c = false

theorem word_of_all {w : List Char} (h : (w ≠ [] && w.all (!isSpace ·)) = true) : Word w := by
  rw [Bool.and_eq_true, decide_eq_true_eq, List.all_eq_true] at h
  exact ⟨h.1, fun c hc => by simpa using h.2 c hc⟩

theorem Word.bare {w : List Char} (h : Word w) : Bare w :=
  ⟨h.ne_nil, fun c hc => h.solid c (List.mem_of_mem_head? hc),
    fun c hc => h.solid c (List.mem_of_getLast? hc)⟩

theorem word_of_sameLetters {ls text : List Char} (h : sameLetters ls text = true)
    (hls : Word ls) : Word text :=
  ⟨ne_nil_of_sameLetters h hls.ne_nil, sameLetters_space h hls.solid⟩

theorem word_of_isHonorific {w : List Char} (h : isHonorific w = true) : Word w := by
  have hlisted : ∀ p ∈ HONORIFICS, (p.1 ≠ [] && p.1.all (!isSpace ·)) = true ∧
      (p.1 ++ ['.'] ≠ [] && (p.1 ++ ['.']).all (!isSpace ·)) = true := by decide
  obtain ⟨p, hp, hsame⟩ := List.any_eq_true.mp h
  obtain ⟨hplain, hdot⟩ := hlisted p hp
  rw [Bool.or_eq_true, Bool.and_eq_true] at hsame
  obtain hsame | ⟨-, hsame⟩ := hsame
  · exact word_of_sameLetters hsame (word_of_all hplain)
  · exact word_of_sameLetters hsame (word_of_all hdot)

/-! ## An honorific -/

theorem takeWhile_word {w rest : List Char} (hw : ∀ c ∈ w, isSpace c = false)
    (hrest : ∀ c ∈ rest.head?, isSpace c = true) :
    (w ++ rest).takeWhile (!isSpace ·) = w ∧ (w ++ rest).dropWhile (!isSpace ·) = rest := by
  have hall : ∀ c ∈ w, (!isSpace c) = true := fun c hc => by simp [hw c hc]
  rw [List.takeWhile_append_of_pos hall, List.dropWhile_append_of_pos hall]
  cases rest with
  | nil => simp
  | cons c rest => simp [hrest c rfl]

theorem Gap.head {gap : List Char} (h : Gap gap) (rest : List Char) :
    ∀ c ∈ (gap ++ rest).head?, isSpace c = true := by
  intro c hc
  rw [List.head?_append_of_ne_nil _ h.ne_nil] at hc
  exact h.space c (List.mem_of_mem_head? hc)

/-- What is in front of a name is taken off. -/
theorem stripHonorific_append {h gap m : List Char} (hh : isHonorific h = true) (hgap : Gap gap)
    (hne : m ≠ []) (hfirst : ∀ c ∈ m.head?, isSpace c = false) :
    stripHonorific (h ++ (gap ++ m)) = m := by
  obtain ⟨hword, hrest⟩ := takeWhile_word (word_of_isHonorific hh).solid (hgap.head m)
  have hdrop : (gap ++ m).dropWhile isSpace = m := by
    rw [List.dropWhile_append_of_pos hgap.space, Text.dropWhile_of_first hfirst]
  simp [stripHonorific, hword, hrest, hh, hdrop, hne]

theorem normalizeName_honorific {h gap l m r : List Char} (hh : isHonorific h = true)
    (hgap : Gap (gap ++ l)) (hl : ∀ c ∈ l, isSpace c = true) (hr : ∀ c ∈ r, isSpace c = true)
    (hm : Bare m) (hfirst : stripHonorific m = m) :
    normalizeName (h ++ gap ++ (l ++ m ++ r)) "PERSON" = normalizeName (l ++ m ++ r) "PERSON" := by
  have hname : h ++ gap ++ (l ++ m ++ r) = [] ++ (h ++ (gap ++ l) ++ m) ++ r := by simp
  have hwhole : strip (h ++ gap ++ (l ++ m ++ r)) = h ++ (gap ++ l) ++ m := by
    rw [hname]
    exact Text.strip_pad (by simp) hr ((word_of_isHonorific hh).bare.append (gap ++ l) hm)
  simp only [normalizeName, if_true, hwhole, Text.strip_pad hl hr hm]
  rw [List.append_assoc, stripHonorific_append hh hgap hm.ne_nil hm.first, hfirst]

/-! ## An initial -/

/-- A text is one word, or a word with more after it. -/
theorem word_or_more {u : List Char} (hu : Bare u) :
    Word u ∨ ∃ w gap more, u = w ++ (gap ++ more) ∧ Word w ∧ Gap gap ∧ Bare more := by
  have hsplit := List.takeWhile_append_dropWhile (p := (!isSpace ·)) (l := u)
  have hsolid : ∀ c ∈ u.takeWhile (!isSpace ·), isSpace c = false := fun c hc => by
    simpa using List.mem_takeWhile_imp hc
  have hhead : ∀ c ∈ (u.dropWhile (!isSpace ·)).head?, isSpace c = true := by
    intro c hc
    have hnot := List.head?_dropWhile_not (!isSpace ·) u
    rw [Option.mem_def.mp hc] at hnot
    simpa using hnot
  generalize u.takeWhile (!isSpace ·) = w at hsplit hsolid
  generalize u.dropWhile (!isSpace ·) = rest at hsplit hhead
  subst hsplit
  by_cases hrest : rest = []
  · subst hrest
    rw [List.append_nil] at hu ⊢
    exact .inl ⟨hu.ne_nil, hsolid⟩
  · have hword : w ≠ [] := by
      rintro rfl
      obtain ⟨c, rest, rfl⟩ := List.exists_cons_of_ne_nil hrest
      exact absurd (hhead c rfl) (by simp [hu.first c rfl])
    have hgap : rest.takeWhile isSpace ≠ [] := by
      obtain ⟨c, rest, rfl⟩ := List.exists_cons_of_ne_nil hrest
      simp [hhead c rfl]
    have hback := List.takeWhile_append_dropWhile (p := isSpace) (l := rest)
    have hmore : rest.dropWhile isSpace ≠ [] := by
      intro hnil
      rw [List.dropWhile_eq_nil_iff] at hnil
      have hlast := List.getLast?_eq_some_getLast hrest
      have hnot := hu.last (rest.getLast hrest) (by
        rw [List.getLast?_append_of_ne_nil _ hrest]
        exact hlast)
      exact absurd (hnil _ (List.getLast_mem hrest)) (by simp [hnot])
    refine .inr ⟨w, rest.takeWhile isSpace, rest.dropWhile isSpace, by rw [hback],
      ⟨hword, hsolid⟩, ⟨hgap, fun c hc => List.mem_takeWhile_imp hc⟩, hmore, fun c hc => ?_,
      fun c hc => hu.last c ?_⟩
    · have hnot := List.head?_dropWhile_not isSpace rest
      rw [Option.mem_def.mp hc] at hnot
      exact hnot
    · rw [← hback, ← List.append_assoc, List.getLast?_append_of_ne_nil _ hmore]
      exact hc

/-- What is taken off in front of first words that are no honorific depends on nothing after
them. -/
theorem stripHonorific_front {u : List Char} (hu : Bare u) (hfirst : isHonorific u = false) :
    ∃ u', Bare u' ∧ ∀ gap, Gap gap → ∀ t,
      stripHonorific (u ++ (gap ++ t)) = u' ++ (gap ++ t) := by
  rcases word_or_more hu with hword | ⟨w, g, more, rfl, hword, hg, hmore⟩
  · refine ⟨u, hu, fun gap hgap t => ?_⟩
    obtain ⟨hfront, -⟩ := takeWhile_word hword.solid (hgap.head t)
    simp [stripHonorific, hfront, hfirst]
  · by_cases hh : isHonorific w = true
    · refine ⟨more, hmore, fun gap hgap t => ?_⟩
      have hne : more ++ (gap ++ t) ≠ [] := by simp [hmore.ne_nil]
      have hhead : ∀ c ∈ (more ++ (gap ++ t)).head?, isSpace c = false := by
        rw [List.head?_append_of_ne_nil _ hmore.ne_nil]
        exact hmore.first
      rw [List.append_assoc, List.append_assoc, stripHonorific_append hh hg hne hhead]
    · refine ⟨w ++ (g ++ more), hu, fun gap hgap t => ?_⟩
      rw [List.append_assoc, List.append_assoc]
      obtain ⟨hfront, -⟩ := takeWhile_word hword.solid (hg.head (more ++ (gap ++ t)))
      simp [stripHonorific, hfront, hh]

/-- The initials of a text that ends in a word, before what starts with space. -/
theorem dropInitialsFrom_append {gap u b : List Char} (hnil : u = [] → gap = [])
    (hlast : ∀ c ∈ u.getLast?, isSpace c = false) (hb : ∀ c ∈ b.head?, isSpace c = true) :
    dropInitialsFrom gap (u ++ b) = dropInitialsFrom gap u ++ dropInitialsFrom [] b := by
  have hnodot : ∀ more, b ≠ '.' :: more := by
    rintro more rfl
    exact absurd (hb '.' rfl) (by decide)
  have hshort : ∀ {c : Char} {rest : List Char}, rest ≠ [] →
      (∀ d ∈ (c :: rest).getLast?, isSpace d = false) → ∀ d ∈ rest.getLast?, isSpace d = false := by
    intro c rest hne h d hd
    refine h d ?_
    rwa [← List.singleton_append, List.getLast?_append_of_ne_nil _ hne]
  induction gap, u using dropInitialsFrom.induct with
  | case1 gap =>
    obtain rfl := hnil rfl
    rfl
  | case2 gap c rest hc ih =>
    have hne : rest ≠ [] := by
      rintro rfl
      exact absurd (hlast c rfl) (by simp [hc])
    rw [List.cons_append, dropInitialsFrom_space hc, dropInitialsFrom_space hc]
    exact ih (fun h => absurd h hne) (hshort hne hlast)
  | case3 gap c hc more hgap ih =>
    have hcs : isSpace c = false := by simpa using hc
    rw [List.cons_append, List.cons_append, dropInitialsFrom_initial hcs hgap.1 hgap.2,
      dropInitialsFrom_initial hcs hgap.1 hgap.2]
    refine ih (fun _ => rfl) ?_
    by_cases hmore : more = []
    · simp [hmore]
    · exact hshort hmore (hshort (List.cons_ne_nil _ _) hlast)
  | case4 gap c hc more hgap ih =>
    have hcs : isSpace c = false := by simpa using hc
    rw [List.cons_append, dropInitialsFrom_char hcs fun _ _ => hgap,
      dropInitialsFrom_char hcs fun _ _ => hgap, ih (fun _ => rfl)
        (hshort (List.cons_ne_nil _ _) hlast), List.append_assoc, List.cons_append]
  | case5 gap c hc rest hrest ih =>
    have hcs : isSpace c = false := by simpa using hc
    have hdot : ∀ more, rest ++ b ≠ '.' :: more := by
      intro more h
      cases rest with
      | nil => exact hnodot more h
      | cons d rest => exact hrest rest (by rw [(List.cons.inj h).1])
    rw [List.cons_append, dropInitialsFrom_char hcs fun m e => absurd e (hdot m),
      dropInitialsFrom_char hcs fun m e => absurd e (hrest m), ih (fun _ => rfl),
      List.append_assoc, List.cons_append]
    by_cases hne : rest = []
    · simp [hne]
    · exact hshort hne hlast

theorem dropInitialsFrom_gap {gap : List Char} (hgap : ∀ c ∈ gap, isSpace c = true)
    (read text : List Char) :
    dropInitialsFrom read (gap ++ text) = dropInitialsFrom (read ++ gap) text := by
  induction gap generalizing read with
  | nil => simp
  | cons c gap ih =>
    rw [List.cons_append, dropInitialsFrom_space (hgap c List.mem_cons_self),
      ih fun d hd => hgap d (List.mem_cons_of_mem c hd), List.append_assoc]
    rfl

/-- Which space is in front of a word does not matter. -/
theorem words_dropInitialsFrom {gap gap' v : List Char} (hgap : Gap gap) (hgap' : Gap gap')
    (hv : ∀ c ∈ v.head?, isSpace c = false) (a : List Char) :
    words (a ++ dropInitialsFrom gap v) = words (a ++ dropInitialsFrom gap' v) := by
  cases v with
  | nil =>
    have hempty : ∀ g, dropInitialsFrom g [] = g := fun g => rfl
    rw [hempty, hempty, words_append_blank hgap.space, words_append_blank hgap'.space]
  | cons c rest =>
    have hc : isSpace c = false := hv c rfl
    by_cases hinitial : ∃ more, rest = '.' :: more ∧ isLetter c = true
    · obtain ⟨more, rfl, hx⟩ := hinitial
      rw [dropInitialsFrom_initial hc hgap.ne_nil hx, dropInitialsFrom_initial hc hgap'.ne_nil hx]
    · have hnone : ∀ g : List Char, ∀ more, rest = '.' :: more → ¬ (g ≠ [] ∧ isLetter c = true) :=
        fun g more hrest h => hinitial ⟨more, hrest, h.2⟩
      rw [dropInitialsFrom_char hc (hnone gap), dropInitialsFrom_char hc (hnone gap'),
        words_append_gap hgap, words_append_gap hgap']

theorem isSpace_of_isLetter {x : Char} (hx : isLetter x = true) : isSpace x = false := by
  cases hs : isSpace x with
  | false => rfl
  | true =>
    simp only [isSpace, Bool.or_eq_true, Bool.and_eq_true, decide_eq_true_eq, List.mem_cons,
      List.not_mem_nil, or_false] at hs
    simp only [isLetter, Bool.or_eq_true, Bool.and_eq_true, decide_eq_true_eq, Char.le_def,
      UInt32.le_iff_toNat_le] at hx
    simp only [Char.toNat] at hs
    have ha : 'a'.val.toNat = 97 := rfl
    have hz : 'z'.val.toNat = 122 := rfl
    have hA : 'A'.val.toNat = 65 := rfl
    have hZ : 'Z'.val.toNat = 90 := rfl
    omega

theorem tierB_initial {l u gap v r gap₁ gap₂ : List Char} {x : Char}
    (hl : ∀ c ∈ l, isSpace c = true) (hr : ∀ c ∈ r, isSpace c = true) (hu : Bare u) (hv : Bare v)
    (hfirst : isHonorific u = false) (hgap : Gap gap) (hgap₁ : Gap gap₁) (hgap₂ : Gap gap₂)
    (hx : isLetter x = true) :
    tierB (l ++ (u ++ (gap₁ ++ (x :: '.' :: (gap₂ ++ v)))) ++ r) "PERSON" =
      tierB (l ++ (u ++ (gap ++ v)) ++ r) "PERSON" := by
  obtain ⟨u', hu', hstrip⟩ := stripHonorific_front hu hfirst
  have hxs := isSpace_of_isLetter hx
  -- what stands after the first words ends in a word
  have hbare : ∀ {g t : List Char}, Bare t → ∀ {w : List Char}, Bare w → Bare (w ++ (g ++ t)) := by
    intro g t ht w hw
    rw [← List.append_assoc]
    exact hw.append g ht
  have hinitial : Bare (x :: '.' :: (gap₂ ++ v)) := by
    have hdot : Bare [x, '.'] := ⟨List.cons_ne_nil _ _, by simpa using hxs, by simp; decide⟩
    exact hdot.append gap₂ hv
  have hstart : ∀ {g t : List Char}, Gap g →
      dropInitials (u' ++ (g ++ t)) = dropInitials u' ++ dropInitialsFrom g t := by
    intro g t hg
    rw [dropInitials, dropInitialsFrom_append (fun h => absurd h hu'.ne_nil) hu'.last (hg.head t),
      dropInitialsFrom_gap hg.space]
    rfl
  have hnormal : ∀ {g t : List Char}, Gap g → Bare t →
      words (normalizeName (l ++ (u ++ (g ++ t)) ++ r) "PERSON") =
        words (dropInitials u' ++ dropInitialsFrom g t) := by
    intro g t hg ht
    simp only [normalizeName, if_true]
    rw [Text.strip_pad hl hr (hbare ht hu), hstrip g hg, Text.strip_of_bare (hbare ht hu'),
      hstart hg, words_strip]
  rw [tierB, tierB, slugify_inj, hnormal hgap₁ hinitial, hnormal hgap hv,
    dropInitialsFrom_initial hxs hgap₁.ne_nil hx, dropInitialsFrom_gap hgap₂.space,
    List.nil_append]
  exact words_dropInitialsFrom hgap₂ hgap hv.first _

end Cerid.EntityGraph.Names
