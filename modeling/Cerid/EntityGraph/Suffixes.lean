import Cerid.EntityGraph.Decorations

/-!
# Legal suffixes

The first match of the pattern is cut off with all after it.  No alias of the table ends in a
word that ends a legal suffix, so that a name with one is not an alias by itself.
-/

namespace Cerid.EntityGraph.Names

open Text (isSpace strip Bare)

theorem sameLetters_append {ls ms a b : List Char} (ha : sameLetters ls a = true)
    (hb : sameLetters ms b = true) : sameLetters (ls ++ ms) (a ++ b) = true := by
  induction ls, a using sameLetters.induct with
  | case1 => exact hb
  | case2 l ls c cs ih =>
    rw [sameLetters, Bool.and_eq_true] at ha
    rw [List.cons_append, List.cons_append, sameLetters, ha.1, ih ha.2]
    rfl
  | case3 ls cs hnil hcons => simp [sameLetters] at ha

/-! ## The last word -/

/-- The lower cases of what a letter of a pattern matches. -/
def forms (l : Char) : List (List Char) :=
  [l] :: if l = 's' then [['\u017f']] else if l = 'i' then [['i', '\u0307'], ['\u0131']] else []

def variants : List Char → List (List Char)
  | [] => [[]]
  | l :: ls => (forms l).flatMap fun f => (variants ls).map (f ++ ·)

theorem lowerChar_mem_forms {l c : Char} (h : sameLetter l c = true) (hl : l.toNat < 128) :
    lowerChar c ∈ forms l := by
  rw [sameLetter, Bool.or_eq_true, Bool.or_eq_true] at h
  simp only [decide_eq_true_eq, Bool.and_eq_true, Bool.or_eq_true] at h
  obtain (rfl | ⟨rfl, rfl⟩) | ⟨rfl, rfl | rfl⟩ := h
  · have hk : c ≠ '\u212a' := by
      rintro rfl
      exact absurd hl (by decide)
    have hi : c ≠ '\u0130' := by
      rintro rfl
      exact absurd hl (by decide)
    rw [lowerChar, if_neg hk, if_neg hi]
    exact List.mem_cons_self
  · decide
  · decide
  · decide

theorem lower_mem_variants {ls text : List Char} (h : sameLetters ls text = true)
    (hls : ls.all (·.toNat < 128) = true) : lower text ∈ variants ls := by
  induction ls, text using sameLetters.induct with
  | case1 => exact List.mem_singleton_self _
  | case2 l ls c cs ih =>
    rw [sameLetters, Bool.and_eq_true] at h
    rw [List.all_cons, Bool.and_eq_true, decide_eq_true_eq] at hls
    have hrest := ih h.2 hls.2
    rw [lower_cons, variants, List.mem_flatMap]
    exact ⟨_, lowerChar_mem_forms h.1 hls.1, List.mem_map_of_mem hrest⟩
  | case3 ls cs hnil hcons => simp [sameLetters] at h

/-- The last word of a text ends no alias. -/
def Unlisted (text : List Char) : Prop := ∃ w, (words text).getLast? = some w ∧ w ∉ lastWords

theorem Unlisted.after {text : List Char} (h : Unlisted text) (before : List Char) {sep : List Char}
    (hsep : ∀ a, words (a ++ (sep ++ text)) = words a ++ words text) :
    Unlisted (before ++ (sep ++ text)) := by
  obtain ⟨w, hlast, hw⟩ := h
  have hne : words text ≠ [] := fun hnil => by simp [hnil] at hlast
  exact ⟨w, by rw [hsep, List.getLast?_append_of_ne_nil _ hne, hlast], hw⟩

theorem words_append_dot (a b : List Char) : words (a ++ '.' :: b) = words a ++ words b :=
  words_append_break (by decide) (by decide) a b

theorem Unlisted.dot {text : List Char} (h : Unlisted text) : Unlisted (text ++ ['.']) := by
  have hnil : words [] = [] := rfl
  rwa [Unlisted, words_append_dot, hnil, List.append_nil]

theorem unlisted_of_variants {ls text : List Char} (h : sameLetters ls text = true)
    (hls : ls.all (·.toNat < 128) = true)
    (hlast : ∀ v ∈ variants ls, (pieces isBreak v).getLast?.any (· ∉ lastWords) = true) :
    Unlisted text := by
  have hany := hlast _ (lower_mem_variants h hls)
  rw [Option.any_eq_true] at hany
  obtain ⟨w, hw, hunlisted⟩ := hany
  exact ⟨w, hw, of_decide_eq_true hunlisted⟩

theorem unlisted_ltd {text : List Char} (h : sameLetters "ltd".toList text = true) :
    Unlisted text :=
  unlisted_of_variants h (by decide) (by decide)

/-- `Pty`, a period or none, space or none, and `Ltd`. -/
theorem isPtyLtd_cases {text : List Char} (h : isPtyLtd text = true) :
    ∃ pty dot gap ltd, text = pty ++ (dot ++ (gap ++ ltd)) ∧
      sameLetters "pty".toList pty = true ∧ (dot = [] ∨ dot = ['.']) ∧
      (∀ c ∈ gap, isSpace c = true) ∧ sameLetters "ltd".toList ltd = true := by
  rw [isPtyLtd, Bool.and_eq_true] at h
  obtain ⟨hpty, hltd⟩ := h
  have htext := List.take_append_drop 3 text
  generalize text.take 3 = pty at hpty htext
  generalize text.drop 3 = rest at hltd htext
  subst htext
  have hgap : ∀ t : List Char, ∀ c ∈ t.takeWhile isSpace, isSpace c = true := fun t c hc =>
    List.mem_takeWhile_imp hc
  by_cases hdot : rest.head? = some '.'
  · obtain ⟨t, rfl⟩ := List.head?_eq_some_iff.mp hdot
    rw [if_pos hdot, List.drop_one, List.tail_cons] at hltd
    refine ⟨pty, ['.'], t.takeWhile isSpace, _, ?_, hpty, .inr rfl, hgap t, hltd⟩
    rw [List.takeWhile_append_dropWhile, List.singleton_append]
  · rw [if_neg hdot] at hltd
    refine ⟨pty, [], rest.takeWhile isSpace, _, ?_, hpty, .inl rfl, hgap rest, hltd⟩
    rw [List.takeWhile_append_dropWhile, List.nil_append]

theorem unlisted_of_isPtyLtd {text : List Char} (h : isPtyLtd text = true) : Unlisted text := by
  obtain ⟨pty, dot, gap, ltd, rfl, hpty, hdot, hgap, hltd⟩ := isPtyLtd_cases h
  by_cases hnil : gap = []
  · subst hnil
    rw [List.nil_append]
    rcases hdot with rfl | rfl
    · exact unlisted_of_variants (sameLetters_append hpty hltd) (by decide) (by decide)
    · have hcut : ∀ a, words (a ++ (['.'] ++ ltd)) = words a ++ words ltd := fun a =>
        words_append_dot a ltd
      exact (unlisted_ltd hltd).after pty hcut
  · rw [← List.append_assoc]
    exact (unlisted_ltd hltd).after (pty ++ dot) fun a => words_append_gap ⟨hnil, hgap⟩ a ltd

theorem unlisted_of_isSuffixName {text : List Char} (h : isSuffixName text = true) :
    Unlisted text := by
  have hlisted : ∀ ls ∈ LEGAL_SUFFIXES, ls.all (·.toNat < 128) = true ∧
      ∀ v ∈ variants ls, (pieces isBreak v).getLast?.any (· ∉ lastWords) = true := by
    decide
  rw [isSuffixName, Bool.or_eq_true] at h
  obtain h | h := h
  · obtain ⟨ls, hls, hsame⟩ := List.any_eq_true.mp h
    exact unlisted_of_variants hsame (hlisted ls hls).1 (hlisted ls hls).2
  · exact unlisted_of_isPtyLtd h

theorem unlisted_of_isSuffix {text : List Char} (h : isSuffix text = true) : Unlisted text := by
  rw [isSuffix, Bool.or_eq_true, Bool.and_eq_true, decide_eq_true_eq] at h
  obtain h | ⟨hlast, h⟩ := h
  · exact unlisted_of_isSuffixName h
  · rw [← List.dropLast_append_getLast? '.' hlast]
    exact (unlisted_of_isSuffixName h).dot

/-! ## The ends of a suffix -/

theorem bare_of_isSuffixName {text : List Char} (h : isSuffixName text = true) : Bare text := by
  have hlisted : ∀ ls ∈ LEGAL_SUFFIXES, (ls ≠ [] && ls.all (!isSpace ·)) = true := by
    decide
  rw [isSuffixName, Bool.or_eq_true] at h
  obtain h | h := h
  · obtain ⟨ls, hls, hsame⟩ := List.any_eq_true.mp h
    exact (word_of_sameLetters hsame (word_of_all (hlisted ls hls))).bare
  · obtain ⟨pty, dot, gap, ltd, rfl, hpty, -, -, hltd⟩ := isPtyLtd_cases h
    have hfront : Word pty := word_of_sameLetters hpty (word_of_all (by decide))
    have hback : Word ltd := word_of_sameLetters hltd (word_of_all (by decide))
    have hboth := hfront.bare.append (dot ++ gap) hback.bare
    rwa [List.append_assoc, List.append_assoc] at hboth

theorem bare_of_isSuffix {text : List Char} (h : isSuffix text = true) : Bare text := by
  have hdot : Bare ['.'] := (word_of_all (by decide)).bare
  rw [isSuffix, Bool.or_eq_true, Bool.and_eq_true, decide_eq_true_eq] at h
  obtain h | ⟨hlast, h⟩ := h
  · exact bare_of_isSuffixName h
  · rw [← List.dropLast_append_getLast? '.' hlast]
    have hboth := (bare_of_isSuffixName h).append [] hdot
    rwa [List.append_nil] at hboth

/-! ## The match -/

/-- What the pattern matches: a comma or none, space, and a suffix. -/
theorem isLegalTail_iff {text : List Char} :
    isLegalTail text = true ↔ ∃ comma gap suf, text = comma ++ (gap ++ suf) ∧
      (comma = [] ∨ comma = [',']) ∧ Gap gap ∧ (∀ c ∈ suf.head?, isSpace c = false) ∧
      isSuffix suf = true := by
  constructor
  · intro h
    have hback : ∀ rest : List Char, (rest.head?.any isSpace && isSuffix (rest.dropWhile isSpace)) =
        true → ∃ gap suf, rest = gap ++ suf ∧ Gap gap ∧ (∀ c ∈ suf.head?, isSpace c = false) ∧
          isSuffix suf = true := by
      intro rest hrest
      rw [Bool.and_eq_true, Option.any_eq_true] at hrest
      obtain ⟨⟨c, hc, hspace⟩, hsuffix⟩ := hrest
      have hgap : rest.takeWhile isSpace ≠ [] := by
        obtain ⟨rest, rfl⟩ := List.head?_eq_some_iff.mp hc
        simp [hspace]
      refine ⟨rest.takeWhile isSpace, rest.dropWhile isSpace,
        List.takeWhile_append_dropWhile.symm, ⟨hgap, fun d hd => List.mem_takeWhile_imp hd⟩,
        fun d hd => ?_, hsuffix⟩
      have hnot := List.head?_dropWhile_not isSpace rest
      rw [Option.mem_def.mp hd] at hnot
      exact hnot
    by_cases hcomma : text.head? = some ','
    · obtain ⟨rest, rfl⟩ := List.head?_eq_some_iff.mp hcomma
      obtain ⟨gap, suf, rfl, hfound⟩ := hback rest (by simpa [isLegalTail] using h)
      exact ⟨[','], gap, suf, rfl, .inr rfl, hfound⟩
    · obtain ⟨gap, suf, rfl, hfound⟩ := hback text (by simpa [isLegalTail, hcomma] using h)
      exact ⟨[], gap, suf, rfl, .inl rfl, hfound⟩
  · rintro ⟨comma, gap, suf, rfl, hcomma, hgap, hfirst, hsuffix⟩
    have hdrop : (gap ++ suf).dropWhile isSpace = suf := by
      rw [List.dropWhile_append_of_pos hgap.space, Text.dropWhile_of_first hfirst]
    obtain ⟨c, more, rfl⟩ := List.exists_cons_of_ne_nil hgap.ne_nil
    have hc : isSpace c = true := hgap.space c List.mem_cons_self
    have hne : c ≠ ',' := by
      rintro rfl
      exact absurd hc (by decide)
    rw [List.cons_append] at hdrop ⊢
    rcases hcomma with rfl | rfl
    · simp [isLegalTail, hne, hc, hdrop, hsuffix]
    · simp [isLegalTail, hc, hdrop, hsuffix]

theorem stripSuffix_of_legal {p t : List Char} (h : isLegalTail t = true) :
    ∃ q y, p = q ++ y ∧ isLegalTail (y ++ t) = true ∧ stripSuffix (p ++ t) = q := by
  induction p with
  | nil =>
    cases t with
    | nil => exact absurd h (by decide)
    | cons c t => exact ⟨[], [], rfl, h, by rw [List.nil_append, stripSuffix, if_pos h]⟩
  | cons c p ih =>
    by_cases hc : isLegalTail (c :: (p ++ t)) = true
    · exact ⟨[], c :: p, rfl, hc, by rw [List.cons_append, stripSuffix, if_pos hc]⟩
    · obtain ⟨q, y, rfl, hy, hstrip⟩ := ih
      exact ⟨c :: q, y, rfl, hy, by rw [List.cons_append, stripSuffix, if_neg hc, hstrip]⟩

/-- The end of a name and what is put after it make one suffix. -/
def Joins (name tail : List Char) : Prop :=
  ∃ front c z, name = front ++ c :: z ∧ isSpace c = true ∧ z ≠ [] ∧ isSuffix (z ++ tail) = true

/-- What is cut off of a name with a suffix that does not join it is no word of the name. -/
theorem break_of_legal {front y comma gap suf : List Char}
    (hjoins : ¬ Joins (front ++ y) (comma ++ (gap ++ suf)))
    (h : isLegalTail (y ++ (comma ++ (gap ++ suf))) = true) :
    ∀ c ∈ y, isSpace c = true ∨ c = ',' := by
  obtain ⟨comma', gap', suf', heq, hcomma, hgap, hfirst, hsuffix⟩ := isLegalTail_iff.mp h
  have hbreaks : ∀ c ∈ comma' ++ gap', isSpace c = true ∨ c = ',' := by
    intro c hc
    rcases List.mem_append.mp hc with hc | hc
    · rcases hcomma with rfl | rfl
      · exact absurd hc List.not_mem_nil
      · exact .inr (List.mem_singleton.mp hc)
    · exact .inl (hgap.space c hc)
  rw [← List.append_assoc comma'] at heq
  rcases List.append_eq_append_iff.mp heq with ⟨z, hz, -⟩ | ⟨z, hz, hsuf⟩
  · exact fun c hc => hbreaks c (by rw [hz]; exact List.mem_append_left z hc)
  · by_cases hnil : z = []
    · rw [hnil, List.append_nil] at hz
      exact hz ▸ hbreaks
    · -- the suffix would start within the name
      obtain ⟨g, c, hlast⟩ : ∃ g c, gap' = g ++ [c] :=
        ⟨_, _, (List.dropLast_append_getLast hgap.ne_nil).symm⟩
      refine absurd ⟨front ++ comma' ++ g, c, z, ?_, ?_, hnil, hsuf ▸ hsuffix⟩ hjoins
      · simp [hz, hlast]
      · exact hgap.space c (by simp [hlast])

theorem words_append_breaks {y : List Char} (hy : ∀ c ∈ y, isSpace c = true ∨ c = ',')
    (a : List Char) : words (a ++ y) = words a := by
  have hcomma : ∀ a b, words (a ++ ',' :: b) = words a ++ words b :=
    words_append_break (by decide) (by decide)
  have hnil : words [] = [] := rfl
  induction y using List.reverseRecOn with
  | nil => rw [List.append_nil]
  | append_singleton y c ih =>
    have hfront := ih fun d hd => hy d (List.mem_append_left _ hd)
    rw [← List.append_assoc]
    rcases hy c (by simp) with hc | rfl
    · rw [words_append_space hc, hfront, hnil, List.append_nil]
    · rw [hcomma, hfront, hnil, List.append_nil]

/-- A suffix that does not join the name is cut off of it. -/
theorem words_stripSuffix {name comma gap suf : List Char} (hcomma : comma = [] ∨ comma = [','])
    (hgap : Gap gap) (hfirst : ∀ c ∈ suf.head?, isSpace c = false) (hsuffix : isSuffix suf = true)
    (hjoins : ¬ Joins name (comma ++ (gap ++ suf))) :
    words (stripSuffix (name ++ (comma ++ (gap ++ suf)))) = words name := by
  have hlegal : isLegalTail (comma ++ (gap ++ suf)) = true :=
    isLegalTail_iff.mpr ⟨comma, gap, suf, rfl, hcomma, hgap, hfirst, hsuffix⟩
  obtain ⟨q, y, rfl, hy, hstrip⟩ := stripSuffix_of_legal (p := name) hlegal
  rw [hstrip, words_append_breaks (break_of_legal hjoins hy)]

end Cerid.EntityGraph.Names
