import Cerid.Lib.Pieces
import Cerid.Lib.SequenceMatcher
import Cerid.Verification.ClaimKey
import Mathlib.Data.Finset.Card
import Mathlib.Data.Finset.SymmDiff
import Mathlib.Data.List.Basic

/-!
# How alike two memories are

Texts are compared in lower case, with their numbers collapsed and without their punctuation.  Two
texts that differ by a listed token of negation are not alike at all.
-/

namespace Cerid.MemoryDedup

open Text
open Verification (lower)

abbrev Word := List Char

/-- `\w` and `\d`, of which nothing is assumed past ASCII but that a digit is a character of a
word, and a space and the typographic apostrophe are none. -/
structure CharClass extends Verification.WordClass where
  isDigit : Char → Bool
  ascii_digit : ∀ c : Char, c.toNat < 128 → isDigit c = c.isDigit
  word_of_digit : ∀ c, isDigit c = true → isWord c = true
  not_word_of_space : ∀ c, isSpace c = true → isWord c = false
  apostrophe : isWord '’' = false

theorem english_of_digit (c : Char) (h : c.isDigit = true) :
    Verification.WordClass.english.isWord c = true := by
  show ((c.isAlpha || c.isDigit) || c = '_') = true
  rw [h, Bool.or_true, Bool.true_or]

theorem not_english_of_space (c : Char) (hspace : isSpace c = true) :
    Verification.WordClass.english.isWord c = false := by
  have houtside : c.toNat < 48 ∨ 122 < c.toNat := by
    simp only [isSpace, List.mem_cons, List.not_mem_nil, or_false, Bool.or_eq_true,
      Bool.and_eq_true, decide_eq_true_iff] at hspace
    omega
  have hunderscore : c ≠ '_' := by
    rintro rfl
    revert houtside
    decide
  have hval : c.val.toNat = c.toNat := rfl
  have hword : Verification.WordClass.english.isWord c =
      (((decide (c.val ≥ 65 ∧ c.val ≤ 90) || (c.val ≥ 97 && c.val ≤ 122)) ||
        (c.val ≥ 48 && c.val ≤ 57)) || decide (c = '_')) := rfl
  rw [hword]
  simp [UInt32.le_iff_toNat_le, hunderscore]
  omega

def CharClass.english : CharClass where
  toWordClass := .english
  isDigit := Char.isDigit
  ascii_digit := fun _ _ => rfl
  word_of_digit := english_of_digit
  not_word_of_space := not_english_of_space
  apostrophe := by decide

section Normalize

variable (F : CaseFold) (W : CharClass)

/-- Where a number may go on. -/
inductive Reading where
  | outside | whole | fraction
deriving DecidableEq

/-- `_NUMBER_RE.sub("#", text)`, the number being `\d+(?:[.,]\d+)?`. -/
def collapseNumbers : Reading → List Char → List Char
  | _, [] => []
  | state, c :: rest =>
    if W.isDigit c then
      if state = .outside then '#' :: collapseNumbers .whole rest else collapseNumbers state rest
    else if state = .whole ∧ (c = '.' ∨ c = ',') ∧ rest.head?.any W.isDigit = true then
      collapseNumbers .fraction rest
    else c :: collapseNumbers .outside rest

/-- `[^\w\s#]`. -/
def CharClass.isPunctuation (c : Char) : Bool := !W.isWord c && !isSpace c && c ≠ '#'

def normalizeMemoryText (text : List Char) : List Char :=
  let noNumbers := collapseNumbers W .outside (lower F text)
  let noPunctuation := squeeze W.isPunctuation ' ' noNumbers
  strip (squeeze isSpace ' ' noPunctuation)

/-- `set(normalize_memory_text(text).split())`. -/
def tokens (text : List Char) : Finset Word :=
  (pieces isSpace (normalizeMemoryText F W text)).toFinset

def minContainmentTokens : Nat := 4

def negationTokens : Finset Word :=
  (["not", "no", "never", "cannot", "without", "n't", "isn", "aren", "wasn", "weren", "don",
    "doesn", "didn", "won", "wouldn", "couldn", "shouldn", "hasn", "haven", "hadn"].map
      String.toList).toFinset

def memorySimilarity (a b : List Char) : ℚ :=
  let na := normalizeMemoryText F W a
  let nb := normalizeMemoryText F W b
  if na = [] ∨ nb = [] then 0
  else
    let ta := tokens F W a
    let tb := tokens F W b
    if (symmDiff ta tb ∩ negationTokens).Nonempty then 0
    else
      let ratio := SequenceMatcher.ratio na nb
      let smaller := min ta.card tb.card
      if minContainmentTokens ≤ smaller then
        max ratio (((ta ∩ tb).card : ℚ) / (smaller : ℚ))
      else ratio

end Normalize

/-! ## Negation -/

/-- What a negation puts in, and in the place of what. -/
def plainNegations : List (List String × List String) :=
  [([], ["not"]), ([], ["do", "not"]), ([], ["does", "not"]), ([], ["did", "not"]), ([], ["no"]),
    ([], ["never"]), ([], ["without"]), (["with"], ["without"]), (["can"], ["cannot"])]

/-- The auxiliaries with what is left of them before `n't`. -/
def auxiliaries : List (String × String) :=
  [("am", "ai"), ("is", "is"), ("is", "ai"), ("are", "are"), ("are", "ai"), ("was", "was"),
    ("were", "were"), ("do", "do"), ("does", "does"), ("did", "did"), ("have", "have"),
    ("have", "ai"), ("has", "has"), ("has", "ai"), ("had", "had"), ("can", "ca"),
    ("could", "could"), ("will", "wo"), ("would", "would"), ("shall", "sha"),
    ("should", "should"), ("may", "may"), ("might", "might"), ("must", "must"),
    ("need", "need"), ("dare", "dare"), ("ought", "ought"), ("used", "used")]

/-- A contraction in `n't` takes the place of its auxiliary, or comes in with it. -/
def contractions : List (List String × List String) :=
  auxiliaries.flatMap fun x =>
    ["n't", "n’t"].flatMap fun ending => [([x.1], [x.2 ++ ending]), ([], [x.2 ++ ending])]

def negations : List (List Word × List Word) :=
  (plainNegations ++ contractions).map fun n => (n.1.map String.toList, n.2.map String.toList)

section Words

variable (F : CaseFold) (W : CharClass)

def isApostrophe (c : Char) : Bool := c = '\'' || c = '’'

/-- What tokens end at. -/
def CharClass.isGap (c : Char) : Bool := W.isPunctuation c || isSpace c

/-- What words end at. -/
def CharClass.isBoundary (c : Char) : Bool := W.isGap c && !isApostrophe c

/-- The words of a text, in lower case and without the quotes around them. -/
def words (text : List Char) : List Word :=
  (pieces W.isBoundary (lower F text)).map fun w =>
    (w.dropWhile isApostrophe).rdropWhile isApostrophe

/-- `b` says what `a` says with a negation in it, `n`. -/
def Negates (a b : List Char) (n : List Word) : Prop :=
  ∃ u x v, (x, n) ∈ negations ∧ words F W a = u ++ x ++ v ∧ words F W b = u ++ n ++ v

/-- The veto sees the negation `n`: a word of it has a listed token that `a` does not have. -/
def Seen (a : List Char) (n : List Word) : Prop :=
  ∃ w ∈ n, ∃ t ∈ pieces W.isGap w, t ∈ negationTokens ∧ t ∉ tokens F W a

end Words

/-! ## Tokens of words -/

variable {F : CaseFold} {W : CharClass}

theorem tokens_eq (text : List Char) :
    tokens F W text = (pieces W.isGap (collapseNumbers W .outside (lower F text))).toFinset := by
  have hspace : isSpace ' ' = true := by decide
  have hself : (fun c => isSpace c || isSpace c) = isSpace := by
    funext c
    exact Bool.or_self _
  unfold tokens normalizeMemoryText strip
  dsimp only
  rw [pieces_rdropWhile (fun _ h => h), pieces_dropWhile (fun _ h => h), pieces_squeeze hspace,
    hself, pieces_squeeze hspace]
  rfl

theorem CharClass.not_digit_of_gap {c : Char} (h : W.isGap c = true) : W.isDigit c = false := by
  rw [Bool.eq_false_iff]
  intro hdigit
  have hword := W.word_of_digit c hdigit
  rcases Bool.or_eq_true_iff.mp h with h | h
  · unfold CharClass.isPunctuation at h
    rw [hword] at h
    exact absurd h (by simp)
  · rw [W.not_word_of_space c h] at hword
    exact absurd hword Bool.false_ne_true

/-- Before what starts with no digit, a number ends. -/
theorem collapseNumbers_append {ys : List Char} (hys : ys.head?.any W.isDigit = false)
    (state : Reading) (xs : List Char) :
    ∃ state', collapseNumbers W state (xs ++ ys) =
      collapseNumbers W state xs ++ collapseNumbers W state' ys := by
  induction xs generalizing state with
  | nil => exact ⟨state, rfl⟩
  | cons c rest ih =>
    have hhead : (rest ++ ys).head?.any W.isDigit = rest.head?.any W.isDigit := by
      cases rest with
      | nil => exact hys
      | cons d rest => rfl
    rw [List.cons_append, collapseNumbers, collapseNumbers, hhead]
    split
    · split
      · obtain ⟨state', h⟩ := ih .whole
        exact ⟨state', by rw [h, List.cons_append]⟩
      · exact ih state
    · split
      · exact ih .fraction
      · obtain ⟨state', h⟩ := ih .outside
        exact ⟨state', by rw [h, List.cons_append]⟩

/-- What is no part of a number is left as it is, and no number goes on after it. -/
theorem collapseNumbers_word {w : List Char} (hne : w ≠ [])
    (h : ∀ c ∈ w, W.isDigit c = false ∧ c ≠ '.' ∧ c ≠ ',') (state : Reading) (ys : List Char) :
    collapseNumbers W state (w ++ ys) = w ++ collapseNumbers W .outside ys := by
  induction w generalizing state with
  | nil => exact absurd rfl hne
  | cons c rest ih =>
    obtain ⟨hdigit, hpoint, hcomma⟩ := h c List.mem_cons_self
    have hlast : ¬ (state = .whole ∧ (c = '.' ∨ c = ',') ∧
        (rest ++ ys).head?.any W.isDigit = true) := by
      rintro ⟨-, hc | hc, -⟩
      · exact hpoint hc
      · exact hcomma hc
    rw [List.cons_append, collapseNumbers, hdigit, if_neg Bool.false_ne_true, if_neg hlast,
      List.cons_append]
    by_cases hrest : rest = []
    · subst hrest
      rfl
    · exact congrArg (c :: ·) (ih hrest (fun d hd => h d (List.mem_cons_of_mem c hd)) .outside)

theorem CharClass.gap_of_apostrophe {c : Char} (h : isApostrophe c = true) :
    W.isGap c = true ∧ c ≠ '.' ∧ c ≠ ',' := by
  have hpunctuation : W.isWord c = false → isSpace c = false → c ≠ '#' → W.isGap c = true := by
    intro hword hspace hne
    unfold CharClass.isGap CharClass.isPunctuation
    simp [hword, hspace, hne]
  rcases Bool.or_eq_true_iff.mp h with h | h
  · obtain rfl := of_decide_eq_true h
    have hword : W.isWord '\'' = false := (W.ascii '\'' (by decide)).trans (by decide)
    exact ⟨hpunctuation hword (by decide) (by decide), by decide, by decide⟩
  · obtain rfl := of_decide_eq_true h
    exact ⟨hpunctuation W.apostrophe (by decide) (by decide), by decide, by decide⟩

/-- The normalisation leaves of a word in a text what it leaves of the word alone. -/
theorem mem_tokens_of_word {text w t : List Char} (hw : w ∈ words F W text)
    (hplain : ∀ c ∈ w, W.isDigit c = false ∧ c ≠ '.' ∧ c ≠ ',') (ht : t ∈ pieces W.isGap w) :
    t ∈ tokens F W text := by
  obtain ⟨f, hf, rfl⟩ := List.mem_map.mp hw
  have hquotes : ∀ c, isApostrophe c = true → W.isGap c = true := fun c hc =>
    (W.gap_of_apostrophe hc).1
  rw [pieces_rdropWhile hquotes, pieces_dropWhile hquotes] at ht
  have hfplain : ∀ c ∈ f, W.isDigit c = false ∧ c ≠ '.' ∧ c ≠ ',' := by
    intro c hc
    have hgap : isApostrophe c = true → W.isDigit c = false ∧ c ≠ '.' ∧ c ≠ ',' := fun h =>
      ⟨W.not_digit_of_gap (W.gap_of_apostrophe h).1, (W.gap_of_apostrophe h).2⟩
    rcases mem_dropWhile_or hc with hquote | hc
    · exact hgap hquote
    · rcases mem_rdropWhile_or hc with hquote | hc
      · exact hgap hquote
      · exact hplain c hc
  obtain ⟨before, after, heq, hbefore, hafter⟩ := exists_cut hf
  have hne := ne_nil_of_mem_pieces hf
  have hhead : (f ++ after).head?.any W.isDigit = false := by
    cases f with
    | nil => exact absurd rfl hne
    | cons c rest => exact (hfplain c List.mem_cons_self).1
  obtain ⟨state, hstate⟩ := collapseNumbers_append hhead .outside before
  rw [tokens_eq, List.mem_toFinset, heq, List.append_assoc, hstate,
    collapseNumbers_word hne hfplain, ← List.append_assoc]
  have hgap : ∀ c, W.isBoundary c = true → W.isGap c = true := fun c hc =>
    (Bool.and_eq_true_iff.mp hc).1
  refine mem_pieces_of_cut ?_ ?_ ht
  · rcases hbefore with rfl | ⟨front, c, rfl, hc⟩
    · exact Or.inl rfl
    · have hdigit := W.not_digit_of_gap (hgap c hc)
      have hhead : [c].head?.any W.isDigit = false := hdigit
      obtain ⟨state', h⟩ := collapseNumbers_append hhead .outside front
      refine Or.inr ⟨collapseNumbers W .outside front, c, h.trans ?_, hgap c hc⟩
      rw [collapseNumbers, hdigit, if_neg Bool.false_ne_true, if_neg (by simp), collapseNumbers]
  · rcases hafter with rfl | ⟨c, rest, rfl, hc⟩
    · exact Or.inl rfl
    · refine Or.inr ⟨c, collapseNumbers W .outside rest, ?_, hgap c hc⟩
      rw [collapseNumbers, W.not_digit_of_gap (hgap c hc), if_neg Bool.false_ne_true,
        if_neg (by simp)]

/-! ## The veto -/

/-- Of the words of negations nothing is a number or the point in one. -/
theorem negations_plain {x n : List Word} (h : (x, n) ∈ negations) {w : Word} (hw : w ∈ n) :
    ∀ c ∈ w, W.isDigit c = false ∧ c ≠ '.' ∧ c ≠ ',' := by
  have hall : negations.all (fun n => n.2.all fun w => w.all fun c =>
      ((c.toNat < 128 && !c.isDigit) || isApostrophe c) && c ≠ '.' && c ≠ ',') = true := by
    decide +kernel
  intro c hc
  have hn := List.all_eq_true.mp hall (x, n) h
  have hchar := List.all_eq_true.mp (List.all_eq_true.mp hn w hw) c hc
  rw [Bool.and_eq_true, Bool.and_eq_true, Bool.or_eq_true, decide_eq_true_iff,
    decide_eq_true_iff] at hchar
  refine ⟨?_, hchar.1.2, hchar.2⟩
  rcases hchar.1.1 with hascii | hquote
  · rw [Bool.and_eq_true, decide_eq_true_iff, Bool.not_eq_true'] at hascii
    exact (W.ascii_digit c hascii.1).trans hascii.2
  · exact W.not_digit_of_gap (W.gap_of_apostrophe hquote).1

/-- Texts that are at all alike have the same listed tokens. -/
theorem listed_iff {a b : List Char} {t : Word} (h : 0 < memorySimilarity F W a b)
    (ht : t ∈ negationTokens) : t ∈ tokens F W a ↔ t ∈ tokens F W b := by
  unfold memorySimilarity at h
  dsimp only at h
  split at h
  · exact absurd h (lt_irrefl 0)
  · split at h
    · exact absurd h (lt_irrefl 0)
    · rename_i hveto
      have hnot : t ∉ symmDiff (tokens F W a) (tokens F W b) := fun hmem =>
        hveto ⟨t, Finset.mem_inter.mpr ⟨hmem, ht⟩⟩
      rw [Finset.mem_symmDiff] at hnot
      constructor
      · intro ha
        by_contra hb
        exact hnot (Or.inl ⟨ha, hb⟩)
      · intro hb
        by_contra ha
        exact hnot (Or.inr ⟨hb, ha⟩)

/-- Enough shared tokens make texts alike, if the veto is silent. -/
theorem containment_le {a b : List Char}
    (hne : normalizeMemoryText F W a ≠ [] ∧ normalizeMemoryText F W b ≠ [])
    (hveto : ¬ (symmDiff (tokens F W a) (tokens F W b) ∩ negationTokens).Nonempty)
    (hmany : minContainmentTokens ≤ min (tokens F W a).card (tokens F W b).card) :
    ((tokens F W a ∩ tokens F W b).card : ℚ) /
        ((min (tokens F W a).card (tokens F W b).card : Nat) : ℚ) ≤
      memorySimilarity F W a b := by
  unfold memorySimilarity
  dsimp only
  rw [if_neg (fun h => h.elim hne.1 hne.2), if_neg hveto, if_pos hmany]
  exact le_max_right _ _

/-- A negation that the veto sees is in no text that has the listed tokens of the other. -/
theorem not_negates_of_seen {a b : List Char} {n : List Word} (hseen : Seen F W a n)
    (hsame : ∀ t ∈ negationTokens, t ∈ tokens F W a ↔ t ∈ tokens F W b) :
    ¬ Negates F W a b n := by
  rintro ⟨u, x, v, hn, -, hwords⟩
  obtain ⟨w, hw, t, ht, hlisted, hnot⟩ := hseen
  have hmem : w ∈ words F W b := by
    rw [hwords, List.append_assoc]
    exact List.mem_append_right _ (List.mem_append_left _ hw)
  exact hnot ((hsame t hlisted).mpr (mem_tokens_of_word hmem (negations_plain hn hw) ht))

end Cerid.MemoryDedup
