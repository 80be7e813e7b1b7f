import Cerid.Ingest.Coverage
import Cerid.Lib.NextFit

/-!
# What the chunks may hold

The code counts the tokens of the paragraphs and sentences that it gathers, and leaves out the
separators between them and the one after the header.  What it hands out is told here from the
counts alone, and a bound on the chunks is one on the texts so told.
-/

namespace Cerid.Ingest.Chunking

variable (e : Encoding) (maxTokens : Nat) (overlap : ℚ)

/-! ## The pieces -/

/-- How many tokens one window is after another. -/
def windowStep : Nat := (max 1 ((maxTokens : Int) - truncate (maxTokens * overlap))).toNat

/-- The window of so many tokens from `start`. -/
def windowAt (tokens : List Nat) (start : Nat) : List Char :=
  e.decode ((tokens.take (min (start + maxTokens) tokens.length)).drop start)

/-- Every piece of a text that is cut by tokens; a window that reaches the end is the last. -/
def TokenPieces (fits : List Char → Prop) (text : List Char) : Prop :=
  if countTokens e text ≤ maxTokens then fits text
  else ∀ k, (∀ j < k, j * windowStep maxTokens overlap + maxTokens < countTokens e text) →
    fits (windowAt e maxTokens (e.encode text) (k * windowStep maxTokens overlap))

/-- How paragraphs are gathered; the last one of a group is kept when it is short enough. -/
def paragraphFit : NextFit (List Char) where
  weight := countTokens e
  cap := maxTokens
  alone para := maxTokens < countTokens e para
  kept group := group.getLast?.toList.filter
    (fun last => (countTokens e last : Int) ≤ truncate (maxTokens * overlap))

/-- How the sentences of a paragraph are gathered. -/
def sentenceFit : NextFit (List Char) where
  weight := countTokens e
  cap := maxTokens
  alone _ := false
  kept _ := []

/-- Every piece of a paragraph that has too many tokens. -/
def LongPieces (fits : List Char → Prop) (para : List Char) : Prop :=
  if 1 < (splitSentences [] [] para).length then
    ∀ group, (sentenceFit e maxTokens).IsGroup (splitSentences [] [] para) group →
      fits ([' '].intercalate group)
  else TokenPieces e maxTokens overlap fits para

/-- Every piece of a text that is cut at its paragraphs. -/
def SemanticPieces (fits : List Char → Prop) (text : List Char) : Prop :=
  if countTokens e text ≤ maxTokens then fits text
  else
    (∀ group, (paragraphFit e maxTokens overlap).IsGroup (splitParagraphs text) group →
      fits (joinParts group)) ∧
    ∀ para ∈ splitParagraphs text, maxTokens < countTokens e para →
      LongPieces e maxTokens overlap fits para

def Pieces (mode : Mode) (fits : List Char → Prop) (text : List Char) : Prop :=
  match mode with
  | .token => TokenPieces e maxTokens overlap fits text
  | .semantic => SemanticPieces e maxTokens overlap fits text

/-! ## By tokens -/

section Tokens

variable {e maxTokens overlap} {fits : List Char → Prop}

theorem forall_windows {tokens : List Nat} {step : Nat} (hstep : 1 ≤ step) (hle : step ≤ maxTokens)
    {fuel start : Nat} (hstart : start < tokens.length) (hfuel : tokens.length ≤ start + fuel) :
    (∀ piece ∈ windows e tokens maxTokens step fuel start, fits piece) ↔
      ∀ k, (∀ j < k, start + j * step + maxTokens < tokens.length) →
        fits (windowAt e maxTokens tokens (start + k * step)) := by
  induction fuel generalizing start with
  | zero => omega
  | succ fuel ih =>
    have hshift : ∀ k, start + (k + 1) * step = start + step + k * step := by
      intro k
      rw [Nat.succ_mul]
      omega
    rw [windows, if_pos hstart]
    simp only [List.forall_mem_cons]
    by_cases hend : tokens.length ≤ min (start + maxTokens) tokens.length
    · rw [if_pos hend]
      constructor
      · rintro ⟨hfirst, -⟩ k hk
        cases k with
        | zero => rwa [Nat.zero_mul]
        | succ k =>
          have hzero := hk 0 (Nat.succ_pos k)
          rw [Nat.zero_mul] at hzero
          omega
      · intro h
        have hfirst := h 0 fun j hj => absurd hj (Nat.not_lt_zero j)
        rw [Nat.zero_mul] at hfirst
        exact ⟨hfirst, List.forall_mem_nil _⟩
    · rw [if_neg hend, ih (by omega) (by omega)]
      constructor
      · rintro ⟨hfirst, hrest⟩ k hk
        cases k with
        | zero => rwa [Nat.zero_mul]
        | succ k =>
          rw [hshift]
          refine hrest k fun j hj => ?_
          rw [← hshift]
          exact hk (j + 1) (Nat.succ_lt_succ hj)
      · intro h
        refine ⟨?_, fun k hk => ?_⟩
        · have hfirst := h 0 fun j hj => absurd hj (Nat.not_lt_zero j)
          rwa [Nat.zero_mul] at hfirst
        · rw [← hshift]
          refine h (k + 1) fun j hj => ?_
          cases j with
          | zero =>
            rw [Nat.zero_mul]
            omega
          | succ j =>
            rw [hshift]
            exact hk j (Nat.lt_of_succ_lt_succ hj)

theorem windowStep_bounds (hmax : 1 ≤ maxTokens) (h0 : 0 ≤ overlap) (h1 : overlap < 1) :
    1 ≤ windowStep maxTokens overlap ∧ windowStep maxTokens overlap ≤ maxTokens := by
  obtain ⟨hnonneg, hle⟩ := truncate_bounds maxTokens h0 h1
  unfold windowStep
  omega

theorem forall_chunkTextToken (hmax : 1 ≤ maxTokens) (h0 : 0 ≤ overlap) (h1 : overlap < 1)
    (text : List Char) : (∀ piece ∈ chunkTextToken e text maxTokens overlap, fits piece) ↔
      TokenPieces e maxTokens overlap fits text := by
  unfold chunkTextToken TokenPieces
  simp only
  rw [countTokens]
  split
  · simp
  · obtain ⟨hpos, hle⟩ := windowStep_bounds hmax h0 h1
    have hwindows : (∀ piece ∈ windows e (e.encode text) maxTokens (windowStep maxTokens overlap)
        (e.encode text).length 0, fits piece) ↔ _ :=
      forall_windows hpos hle (by omega) (Nat.le_add_left _ 0)
    simp only [Nat.zero_add] at hwindows
    exact hwindows

end Tokens

/-! ## Gathering -/

section Gathering

variable {e maxTokens overlap}

variable (P : NextFit (List Char)) (separator : List Char)
  (split : List Char → List (List Char))

/-- The chunks that the items have become: the groups that were closed, and what the items that
stand alone are split into. -/
def Made (xs : List (List Char)) (chunk : List Char) : Prop :=
  (∃ group, P.Closed xs group ∧ separator.intercalate group = chunk) ∨
    ∃ x ∈ xs, P.alone x = true ∧ chunk ∈ split x

/-- A loop of the code gathers as `P` does. -/
structure Gathers (xs : List (List Char)) (acc : Gathered) : Prop where
  parts : acc.parts = P.opened xs
  tokens : acc.tokens = P.load (P.opened xs)
  chunks : ∀ chunk, chunk ∈ acc.chunks ↔ Made P separator split xs chunk

variable {P separator split} {xs : List (List Char)} {acc : Gathered} {x chunk : List Char}

theorem made_snoc : Made P separator split (xs ++ [x]) chunk ↔
    Made P separator split xs chunk ∨
      (P.opened xs ≠ [] ∧ P.Closes (P.opened xs) x ∧ separator.intercalate (P.opened xs) = chunk) ∨
      (P.alone x = true ∧ chunk ∈ split x) := by
  unfold Made
  simp only [NextFit.closed_snoc, List.mem_append, List.mem_singleton]
  constructor
  · rintro (⟨group, hclosed | ⟨hne, rfl, hcloses⟩, hchunk⟩ | ⟨y, hy | rfl, halone, hchunk⟩)
    · exact Or.inl (Or.inl ⟨group, hclosed, hchunk⟩)
    · exact Or.inr (Or.inl ⟨hne, hcloses, hchunk⟩)
    · exact Or.inl (Or.inr ⟨y, hy, halone, hchunk⟩)
    · exact Or.inr (Or.inr ⟨halone, hchunk⟩)
  · rintro ((⟨group, hclosed, hchunk⟩ | ⟨y, hy, halone, hchunk⟩) | ⟨hne, hcloses, hchunk⟩ |
      ⟨halone, hchunk⟩)
    · exact Or.inl ⟨group, Or.inl hclosed, hchunk⟩
    · exact Or.inr ⟨y, Or.inl hy, halone, hchunk⟩
    · exact Or.inl ⟨_, Or.inr ⟨hne, rfl, hcloses⟩, hchunk⟩
    · exact Or.inr ⟨x, Or.inr rfl, halone, hchunk⟩

theorem gathers_nil : Gathers P separator split [] .start where
  parts := rfl
  tokens := rfl
  chunks chunk := by
    constructor
    · nofun
    · rintro (⟨group, hclosed, -⟩ | ⟨x, hx, -⟩)
      · exact (NextFit.not_closed_nil hclosed).elim
      · cases hx

/-- The item is gathered with the others. -/
theorem Gathers.push (h : Gathers P separator split xs acc) (halone : P.alone x = false)
    (hfull : ¬ (P.opened xs ≠ [] ∧ P.Full (P.opened xs) x)) :
    Gathers P separator split (xs ++ [x]) (acc.push x (P.weight x)) := by
  have hadd : P.opened (xs ++ [x]) = P.opened xs ++ [x] := by
    rw [NextFit.opened_snoc, NextFit.add, if_neg (by simp [halone]), if_neg hfull]
  constructor
  · rw [hadd, ← h.parts]
    rfl
  · rw [hadd, NextFit.load_snoc, ← h.tokens]
    rfl
  · intro chunk
    have hnot : ¬ (P.opened xs ≠ [] ∧ P.Closes (P.opened xs) x ∧
        separator.intercalate (P.opened xs) = chunk) := by
      rintro ⟨hne, halone' | hfull', -⟩
      · rw [halone] at halone'
        cases halone'
      · exact hfull ⟨hne, hfull'⟩
    rw [made_snoc, ← h.chunks]
    simp only [hnot, halone, Bool.false_eq_true, false_and, or_false]
    rfl

/-- The group is closed, and the item is gathered with what is kept of it. -/
theorem Gathers.close (h : Gathers P separator split xs acc) (halone : P.alone x = false)
    (hne : P.opened xs ≠ []) (hfull : P.Full (P.opened xs) x) {kept : Gathered}
    (hchunks : kept.chunks = acc.chunks ++ [separator.intercalate (P.opened xs)])
    (hparts : kept.parts = P.kept (P.opened xs))
    (htokens : kept.tokens = P.load (P.kept (P.opened xs))) :
    Gathers P separator split (xs ++ [x]) (kept.push x (P.weight x)) := by
  have hadd : P.opened (xs ++ [x]) = P.kept (P.opened xs) ++ [x] := by
    rw [NextFit.opened_snoc, NextFit.add, if_neg (by simp [halone]), if_pos ⟨hne, hfull⟩]
  constructor
  · rw [hadd, ← hparts]
    rfl
  · rw [hadd, NextFit.load_snoc, ← htokens]
    rfl
  · intro chunk
    show chunk ∈ kept.chunks ↔ _
    rw [hchunks, made_snoc, List.mem_append, h.chunks, List.mem_singleton]
    simp only [halone, Bool.false_eq_true, false_and, or_false, hne, NextFit.Closes, hfull,
      or_true, true_and, ne_eq, not_false_eq_true, eq_comm (a := chunk)]

/-- The group is closed, and the item is split. -/
theorem Gathers.stand (h : Gathers P separator split xs acc) (halone : P.alone x = true) :
    Gathers P separator split (xs ++ [x])
      { acc.flush separator with chunks := (acc.flush separator).chunks ++ split x } := by
  have hadd : P.opened (xs ++ [x]) = [] := by
    rw [NextFit.opened_snoc, NextFit.add, if_pos halone]
  unfold Gathered.flush
  split
  · next hnone =>
    rw [h.parts] at hnone
    constructor
    · rw [hadd, ← hnone, ← h.parts]
    · rw [hadd, ← hnone, ← h.tokens]
    · intro chunk
      show chunk ∈ acc.chunks ++ split x ↔ _
      rw [made_snoc, List.mem_append, h.chunks]
      simp only [hnone, halone, ne_eq, not_true_eq_false, false_and, false_or, true_and]
  · next hne =>
    rw [h.parts] at hne
    constructor
    · rw [hadd]
    · rw [hadd]
      rfl
    · intro chunk
      show chunk ∈ acc.chunks ++ [separator.intercalate acc.parts] ++ split x ↔ _
      rw [made_snoc, List.mem_append, List.mem_append, h.chunks, h.parts, List.mem_singleton]
      simp only [hne, halone, NextFit.Closes, ne_eq, not_false_eq_true, true_or, true_and,
        or_assoc, eq_comm (a := chunk)]

/-- The end closes the last group. -/
theorem Gathers.forall_flush (h : Gathers P separator split xs acc) {fits : List Char → Prop} :
    (∀ chunk ∈ (acc.flush separator).chunks, fits chunk) ↔
      (∀ group, P.IsGroup xs group → fits (separator.intercalate group)) ∧
        ∀ x ∈ xs, P.alone x = true → ∀ chunk ∈ split x, fits chunk := by
  have hflush : ∀ chunk, chunk ∈ (acc.flush separator).chunks ↔
      Made P separator split xs chunk ∨
        (P.opened xs ≠ [] ∧ separator.intercalate (P.opened xs) = chunk) := by
    intro chunk
    rw [← h.chunks, Gathered.flush, h.parts]
    split
    · next hnone => simp [hnone]
    · next hne =>
      rw [List.mem_append, List.mem_singleton]
      simp only [hne, ne_eq, not_false_eq_true, true_and, eq_comm (a := chunk)]
  constructor
  · intro hall
    refine ⟨fun group hgroup => ?_, fun x hx halone chunk hchunk => ?_⟩
    · rcases NextFit.isGroup_iff.mp hgroup with hclosed | ⟨hne, rfl⟩
      · exact hall _ ((hflush _).mpr (Or.inl (Or.inl ⟨group, hclosed, rfl⟩)))
      · exact hall _ ((hflush _).mpr (Or.inr ⟨hne, rfl⟩))
    · exact hall _ ((hflush _).mpr (Or.inl (Or.inr ⟨x, hx, halone, hchunk⟩)))
  · rintro ⟨hgroups, halones⟩ chunk hchunk
    rcases (hflush chunk).mp hchunk with (⟨group, hclosed, rfl⟩ | ⟨x, hx, halone, hmem⟩) |
      ⟨hne, rfl⟩
    · exact hgroups group (NextFit.isGroup_iff.mpr (Or.inl hclosed))
    · exact halones x hx halone chunk hmem
    · exact hgroups _ (NextFit.isGroup_iff.mpr (Or.inr ⟨hne, rfl⟩))

/-- A loop that gathers at each step gathers in the whole. -/
theorem Gathers.foldl {step : Gathered → List Char → Gathered}
    (hstep : ∀ {xs acc}, Gathers P separator split xs acc → ∀ x,
      Gathers P separator split (xs ++ [x]) (step acc x)) (xs : List (List Char)) :
    Gathers P separator split xs (xs.foldl step .start) := by
  induction xs using List.reverseRecOn with
  | nil => exact gathers_nil
  | append_singleton xs x ih =>
    rw [List.foldl_append]
    exact hstep ih x

end Gathering

/-! ## The loops -/

section Loops

variable {e maxTokens overlap} {xs : List (List Char)} {acc : Gathered}
  {split : List Char → List (List Char)} {fits : List Char → Prop}

theorem Gathers.addSentence (h : Gathers (sentenceFit e maxTokens) [' '] split xs acc)
    (sent : List Char) : Gathers (sentenceFit e maxTokens) [' '] split (xs ++ [sent])
      (addSentence e maxTokens acc sent) := by
  have hcount : maxTokens < acc.tokens + countTokens e sent ↔
      (sentenceFit e maxTokens).Full ((sentenceFit e maxTokens).opened xs) sent := by
    rw [h.tokens]
    rfl
  unfold Chunking.addSentence
  simp only
  by_cases hnone : (sentenceFit e maxTokens).opened xs = []
  · have hflush : acc.flush [' '] = acc := if_pos (h.parts.trans hnone)
    rw [hflush, ite_self]
    exact h.push rfl fun hc => hc.1 hnone
  · have hflush : acc.flush [' '] = ⟨acc.chunks ++ [[' '].intercalate acc.parts], [], 0⟩ :=
      if_neg (by rwa [h.parts])
    by_cases hfull : (sentenceFit e maxTokens).Full ((sentenceFit e maxTokens).opened xs) sent
    · rw [if_pos (hcount.mpr hfull), hflush]
      exact h.close rfl hnone hfull (by rw [h.parts]) rfl rfl
    · rw [if_neg (fun hc => hfull (hcount.mp hc))]
      exact h.push rfl fun hc => hfull hc.2

/-- What a paragraph that has too many tokens becomes. -/
def longChunks (e : Encoding) (maxTokens : Nat) (overlap : ℚ) (para : List Char) :
    List (List Char) :=
  if 1 < (splitSentences [] [] para).length then
    (((splitSentences [] [] para).foldl (addSentence e maxTokens) .start).flush [' ']).chunks
  else chunkTextToken e para maxTokens overlap

theorem flushOverlap_eq (hne : acc.parts ≠ []) : flushOverlap e maxTokens overlap acc =
    { chunks := acc.chunks ++ [['\n', '\n'].intercalate acc.parts]
      parts := (paragraphFit e maxTokens overlap).kept acc.parts
      tokens := (paragraphFit e maxTokens overlap).load
        ((paragraphFit e maxTokens overlap).kept acc.parts) } := by
  have hflush : acc.flush ['\n', '\n'] =
      ⟨acc.chunks ++ [['\n', '\n'].intercalate acc.parts], [], 0⟩ := if_neg hne
  have hlast := List.getLast?_eq_some_getLast hne
  unfold flushOverlap
  rw [hlast, hflush]
  simp only
  split
  · next hshort => simp [paragraphFit, hlast, hshort, NextFit.load, Gathered.push]
  · next hshort => simp [paragraphFit, hlast, hshort, NextFit.load]

theorem Gathers.addParagraph
    (h : Gathers (paragraphFit e maxTokens overlap) ['\n', '\n'] (longChunks e maxTokens overlap)
      xs acc) (para : List Char) :
    Gathers (paragraphFit e maxTokens overlap) ['\n', '\n'] (longChunks e maxTokens overlap)
      (xs ++ [para]) (addParagraph e maxTokens overlap acc para) := by
  by_cases hlong : maxTokens < countTokens e para
  · have hstand := h.stand (x := para) (decide_eq_true hlong)
    have hadd : Chunking.addParagraph e maxTokens overlap acc para =
        { acc.flush ['\n', '\n'] with
          chunks := (acc.flush ['\n', '\n']).chunks ++ longChunks e maxTokens overlap para } := by
      rw [Chunking.addParagraph, if_pos hlong, longChunks]
      simp only
      split <;> rfl
    rwa [hadd]
  · have halone : (paragraphFit e maxTokens overlap).alone para = false := decide_eq_false hlong
    have hcount : maxTokens < acc.tokens + countTokens e para ↔
        (paragraphFit e maxTokens overlap).Full
          ((paragraphFit e maxTokens overlap).opened xs) para := by
      rw [h.tokens]
      rfl
    rw [Chunking.addParagraph, if_neg hlong]
    simp only
    by_cases hfull : (paragraphFit e maxTokens overlap).Full
        ((paragraphFit e maxTokens overlap).opened xs) para
    · have hne : (paragraphFit e maxTokens overlap).opened xs ≠ [] := by
        intro hnone
        rw [hnone] at hfull
        exact hlong (by simpa [NextFit.Full, NextFit.load, paragraphFit] using hfull)
      rw [if_pos (hcount.mpr hfull), flushOverlap_eq (by rwa [h.parts]), h.parts]
      exact h.close halone hne hfull rfl rfl rfl
    · rw [if_neg (fun hc => hfull (hcount.mp hc))]
      exact h.push halone fun hc => hfull hc.2

theorem forall_longChunks (hmax : 1 ≤ maxTokens) (h0 : 0 ≤ overlap) (h1 : overlap < 1)
    (para : List Char) : (∀ chunk ∈ longChunks e maxTokens overlap para, fits chunk) ↔
      LongPieces e maxTokens overlap fits para := by
  unfold longChunks LongPieces
  split
  · have hsents : Gathers (sentenceFit e maxTokens) [' '] (fun _ => [])
        (splitSentences [] [] para)
        ((splitSentences [] [] para).foldl (Chunking.addSentence e maxTokens) .start) :=
      .foldl (fun h sent => h.addSentence sent) _
    rw [hsents.forall_flush, and_iff_left]
    exact fun _ _ halone => absurd halone Bool.false_ne_true
  · exact forall_chunkTextToken hmax h0 h1 para

/-- A text that is more than spaces has a paragraph. -/
theorem strip_eq_nil_of_splitParagraphs {text : List Char} (hnone : splitParagraphs text = []) :
    Text.strip text = [] := by
  have hsolid := filter_splitParagraphs text
  rw [hnone, List.flatMap_nil] at hsolid
  have hspaces : ∀ c ∈ text, Text.isSpace c = true := by
    intro c hc
    by_contra hs
    have hmem : c ∈ text.filter solid := List.mem_filter.mpr ⟨hc, by simp [solid, hs]⟩
    rw [← hsolid] at hmem
    cases hmem
  rw [Text.strip, List.dropWhile_eq_nil_iff.mpr hspaces]
  rfl

theorem forall_chunkTextSemantic (hmax : 1 ≤ maxTokens) (h0 : 0 ≤ overlap) (h1 : overlap < 1)
    (text : List Char) : (∀ piece ∈ chunkTextSemantic e text maxTokens overlap, fits piece) ↔
      SemanticPieces e maxTokens overlap fits text := by
  unfold chunkTextSemantic SemanticPieces
  simp only
  split
  · simp
  · split
    · next hnone =>
      rw [if_pos (strip_eq_nil_of_splitParagraphs hnone), hnone]
      refine iff_of_true nofun ⟨?_, nofun⟩
      rintro group ⟨hne, before, after, hsplit, rfl, -⟩
      rw [(List.append_eq_nil_iff.mp hsplit.symm).1] at hne
      exact absurd rfl hne
    · have hparas : Gathers (paragraphFit e maxTokens overlap) ['\n', '\n']
          (longChunks e maxTokens overlap) (splitParagraphs text)
          ((splitParagraphs text).foldl (addParagraph e maxTokens overlap) .start) :=
        .foldl (fun h para => h.addParagraph para) _
      rw [hparas.forall_flush]
      refine and_congr Iff.rfl (forall_congr' fun para => forall_congr' fun _ => ?_)
      rw [forall_longChunks hmax h0 h1]
      exact imp_congr decide_eq_true_iff Iff.rfl

end Loops

/-- A bound on the chunks is one on the pieces, with the header in front of them. -/
theorem forall_chunkText {e : Encoding} {fits : List Char → Prop} (text : List Char)
    (maxTokens : Nat) {overlap : ℚ} (h0 : 0 ≤ overlap) (h1 : overlap < 1) (mode : Mode)
    (contextHeader : List Char) :
    (∀ chunk ∈ chunkText e text maxTokens overlap mode contextHeader, fits chunk) ↔
      Pieces e
        (max 50 (maxTokens - if contextHeader = [] then 0 else countTokens e contextHeader))
        overlap mode (fun piece => fits (withHeader contextHeader piece)) text := by
  unfold chunkText
  simp only
  rw [List.forall_mem_map]
  cases mode with
  | token => exact forall_chunkTextToken (by omega) h0 h1 text
  | semantic => exact forall_chunkTextSemantic (by omega) h0 h1 text

/-! ## The bound -/

/-- Each chunk has at most `maxTokens` tokens, and with the headers and the repeats taken out the
chunks have what the text has. -/
structure SoundChunks (e : Encoding) (text : List Char) (maxTokens : Nat)
    (contextHeader : List Char) (chunks : List (List Char)) : Prop where
  bounded : ∀ chunk ∈ chunks, countTokens e chunk ≤ maxTokens
  covering : ∃ raw, chunks = raw.map (withHeader contextHeader) ∧
    Covers solid [] raw (text.filter solid)

def headerTokens (e : Encoding) (contextHeader : List Char) : Nat :=
  if contextHeader = [] then 0 else countTokens e contextHeader

/-- Nothing is lost; and the chunks are within the bound when each text that the counts gather is,
with its separators and the header. -/
theorem soundChunks_iff {e : Encoding} (he : e.Lawful) (text : List Char) (maxTokens : Nat)
    {overlap : ℚ} (h0 : 0 ≤ overlap) (h1 : overlap < 1) (mode : Mode) (contextHeader : List Char)
    (hroom : headerTokens e contextHeader + 50 ≤ maxTokens) :
    SoundChunks e text maxTokens contextHeader
        (chunkText e text maxTokens overlap mode contextHeader) ↔
      Pieces e (maxTokens - headerTokens e contextHeader) overlap mode
        (fun piece => countTokens e (withHeader contextHeader piece) ≤ maxTokens) text := by
  have hmax : max 50 (maxTokens - headerTokens e contextHeader) =
      maxTokens - headerTokens e contextHeader := by omega
  have hbounded : (∀ chunk ∈ chunkText e text maxTokens overlap mode contextHeader,
      countTokens e chunk ≤ maxTokens) ↔ _ :=
    forall_chunkText text maxTokens h0 h1 mode contextHeader
  rw [← hmax]
  exact ⟨fun h => hbounded.mp h.bounded,
    fun h => ⟨hbounded.mpr h, covers_chunkText he text maxTokens h0 h1 mode contextHeader⟩⟩

section Samples

/-- A token a character. -/
def charEncoding : Encoding where
  encode text := text.map Char.toNat
  decode tokens := tokens.map Char.ofNat

theorem charEncoding_lawful : charEncoding.Lawful where
  decode_append a b := List.map_append
  decode_encode text := by simp [charEncoding, Function.comp_def]
  count_append a b := by simp [countTokens, charEncoding]

theorem soundChunks_iff_letter :
    SoundChunks charEncoding ['a'] 51 ['h']
        (chunkText charEncoding ['a'] 51 (1 / 5) .semantic ['h']) ↔
      Pieces charEncoding 50 (1 / 5) .semantic
        (fun piece => countTokens charEncoding (withHeader ['h'] piece) ≤ 51) ['a'] :=
  soundChunks_iff charEncoding_lawful ['a'] 51 (by norm_num) (by norm_num) .semantic ['h']
    (by decide)

/-- The blank line after the header is not counted. -/
theorem not_soundChunks : ¬ ∀ (e : Encoding) (text : List Char) (maxTokens : Nat) (overlap : ℚ)
    (mode : Mode) (contextHeader : List Char), e.Lawful → 0 ≤ overlap → overlap < 1 →
      headerTokens e contextHeader + 50 ≤ maxTokens →
      SoundChunks e text maxTokens contextHeader
        (chunkText e text maxTokens overlap mode contextHeader) := by
  intro h
  have hsound := h charEncoding (List.replicate 50 'a') 51 (1 / 5) .semantic ['h']
    charEncoding_lawful (by norm_num) (by norm_num) (by decide)
  have hmem : withHeader ['h'] (List.replicate 50 'a') ∈
      chunkText charEncoding (List.replicate 50 'a') 51 (1 / 5) .semantic ['h'] := by
    simp [chunkText, chunkTextSemantic, countTokens, charEncoding]
  have hbound := hsound.bounded _ hmem
  simp [countTokens, charEncoding, withHeader] at hbound

end Samples
end Cerid.Ingest.Chunking
