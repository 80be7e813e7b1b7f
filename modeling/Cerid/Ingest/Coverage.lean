import Cerid.Ingest.Chunker
import Cerid.Lib.Cover

/-!
# What the chunks have of a document

Cutting drops spaces only.  With the header of each chunk and the repeats taken out, the chunks
have the other characters of the document in order.
-/

namespace Cerid.Ingest.Chunking

open Text (isSpace strip)

/-- What a text has besides spaces. -/
def solid (c : Char) : Bool := !isSpace c

/-- What is assumed of the encoder. -/
structure Encoding.Lawful (e : Encoding) : Prop where
  decode_append : ∀ a b, e.decode (a ++ b) = e.decode a ++ e.decode b
  decode_encode : ∀ text, e.decode (e.encode text) = text
  count_append : ∀ a b, countTokens e (a ++ b) ≤ countTokens e a + countTokens e b

/-! ## By tokens -/

section Tokens

variable {e : Encoding}

theorem Encoding.Lawful.decode_nil (h : e.Lawful) : e.decode [] = [] := by
  have hlength := congrArg List.length (h.decode_append [] [])
  rw [List.append_nil, List.length_append] at hlength
  exact List.length_eq_zero_iff.mp (by omega)

/-- The windows from `start` on, after one that ended at `stop`. -/
theorem covers_windows (h : e.Lawful) {tokens : List Nat} {maxTokens step : Nat}
    (hstep : 1 ≤ step) (hmax : step ≤ maxTokens) {fuel start stop : Nat} {before : List Char}
    (hstart : start ≤ stop) (hstop : stop ≤ start + maxTokens) (hlt : stop < tokens.length)
    (hfuel : tokens.length ≤ start + fuel)
    (hbefore : e.decode ((tokens.take stop).drop start) <:+ before) :
    Covers solid before (windows e tokens maxTokens step fuel start)
      ((e.decode (tokens.drop stop)).filter solid) := by
  induction fuel generalizing start stop before with
  | zero => omega
  | succ fuel ih =>
    have hcut : ∀ {a b c : Nat}, a ≤ b → b ≤ c → c ≤ tokens.length →
        (tokens.take c).drop a = (tokens.take b).drop a ++ (tokens.take c).drop b := by
      intro a b c hab hbc hc
      have htake : tokens.take b = (tokens.take c).take b := by
        rw [List.take_take, Nat.min_eq_left hbc]
      rw [htake, ← List.drop_append_of_le_length, List.take_append_drop]
      rw [List.length_take, List.length_take]
      omega
    rw [windows, if_pos (by omega)]
    simp only
    rw [hcut hstart (Nat.le_min.mpr ⟨hstop, hlt.le⟩) (Nat.min_le_right _ _), h.decode_append]
    by_cases hend : tokens.length ≤ min (start + maxTokens) tokens.length
    · rw [if_pos hend]
      have hlast : min (start + maxTokens) tokens.length = tokens.length := by omega
      rw [hlast, List.take_length]
      have hcovers : Covers solid before _ _ :=
        .cons _ (e.decode (tokens.drop stop)) hbefore .nil
      rwa [List.append_nil] at hcovers
    · rw [if_neg hend]
      have hnext : min (start + maxTokens) tokens.length = start + maxTokens := by omega
      rw [hnext]
      have hrest : Covers solid (e.decode ((tokens.take stop).drop start) ++
            e.decode ((tokens.take (start + maxTokens)).drop stop))
          (windows e tokens maxTokens step fuel (start + step))
          ((e.decode (tokens.drop (start + maxTokens))).filter solid) := by
        refine ih (by omega) (by omega) (by omega) (by omega) ?_
        have hsuffix := @hcut start (start + step) (start + maxTokens) (by omega) (by omega)
          (by omega)
        rw [← h.decode_append, ← hcut hstart hstop (by omega), hsuffix, h.decode_append]
        exact List.suffix_append _ _
      have hcovers := Covers.cons _ _ hbefore hrest
      have hdrop : tokens.drop stop = (tokens.take (start + maxTokens)).drop stop ++
          tokens.drop (start + maxTokens) := by
        have htail := @hcut stop (start + maxTokens) tokens.length hstop (by omega) le_rfl
        rwa [List.take_length] at htail
      rw [hdrop, h.decode_append, List.filter_append]
      exact hcovers

theorem truncate_bounds (maxTokens : Nat) {overlap : ℚ} (h0 : 0 ≤ overlap) (h1 : overlap < 1) :
    0 ≤ truncate (maxTokens * overlap) ∧ truncate (maxTokens * overlap) ≤ maxTokens := by
  have hpos : 0 ≤ (maxTokens : ℚ) * overlap := mul_nonneg (Nat.cast_nonneg _) h0
  rw [truncate, if_pos hpos]
  refine ⟨Int.floor_nonneg.mpr hpos, ?_⟩
  have hle : (maxTokens : ℚ) * overlap ≤ ((maxTokens : ℤ) : ℚ) := by
    rw [Int.cast_natCast]
    exact mul_le_of_le_one_right (Nat.cast_nonneg _) h1.le
  exact (Int.floor_le_floor hle).trans_eq (Int.floor_intCast _)

theorem covers_chunkTextToken (h : e.Lawful) (text : List Char) {maxTokens : Nat} {overlap : ℚ}
    (hmax : 1 ≤ maxTokens) (h0 : 0 ≤ overlap) (h1 : overlap < 1) :
    Covers solid [] (chunkTextToken e text maxTokens overlap) (text.filter solid) := by
  unfold chunkTextToken
  simp only
  split
  · exact .single text
  · obtain ⟨hnonneg, hle⟩ := truncate_bounds maxTokens h0 h1
    have hcovers : Covers solid [] (windows e (e.encode text) maxTokens
        (max 1 ((maxTokens : Int) - truncate (maxTokens * overlap))).toNat
        (e.encode text).length 0) ((e.decode ((e.encode text).drop 0)).filter solid) :=
      covers_windows h (by omega) (by omega) le_rfl (Nat.zero_le _) (by omega) (by omega)
        (by rw [List.take_zero, List.drop_nil, h.decode_nil])
    rwa [List.drop_zero, h.decode_encode] at hcovers

end Tokens

/-! ## Cutting -/

theorem filter_eq_nil_of_spaces {cs : List Char} (h : ∀ c ∈ cs, isSpace c = true) :
    cs.filter solid = [] :=
  List.filter_eq_nil_iff.mpr fun c hc => by simp [solid, h c hc]

theorem filter_replicate_newline (n : Nat) : (List.replicate n '\n').filter solid = [] :=
  filter_eq_nil_of_spaces fun c hc => by
    rw [List.eq_of_mem_replicate hc]
    decide

theorem filter_strip (text : List Char) : (strip text).filter solid = text.filter solid := by
  have hdrop : ∀ cs : List Char, (cs.dropWhile isSpace).filter solid = cs.filter solid := by
    intro cs
    conv_rhs => rw [← List.takeWhile_append_dropWhile (p := isSpace) (l := cs), List.filter_append]
    rw [filter_eq_nil_of_spaces fun c hc => List.mem_takeWhile_imp hc, List.nil_append]
  rw [strip, List.rdropWhile, List.filter_reverse, hdrop, ← List.filter_reverse,
    List.reverse_reverse, hdrop]

theorem filter_blank : ['\n', '\n'].filter solid = [] := by decide

theorem filter_space : [' '].filter solid = [] := by decide

/-- A separator of spaces leaves what the parts have. -/
theorem filter_intercalate {separator : List Char} (hsep : separator.filter solid = [])
    (parts : List (List Char)) :
    (separator.intercalate parts).filter solid = parts.flatMap (List.filter solid) := by
  induction parts with
  | nil => rfl
  | cons part rest ih =>
    cases rest with
    | nil => simp [List.intercalate]
    | cons next more =>
      rw [List.intercalate_cons_cons, List.filter_append, List.filter_append, hsep, ih,
        List.append_nil]
      rfl

theorem filter_splitBlocks (text block : List Char) (pending : Nat) :
    (splitBlocks block pending text).flatMap (List.filter solid) =
      block.filter solid ++ text.filter solid := by
  induction text generalizing block pending with
  | nil =>
    rw [splitBlocks]
    split
    · simp [filter_replicate_newline]
    · simp
  | cons c rest ih =>
    rw [splitBlocks]
    split
    · next hc =>
      have hspace : solid c = false := by
        rw [hc]
        decide
      rw [ih, List.filter_cons_of_neg (by simp [hspace])]
    · split
      · rw [ih, List.filter_append, List.filter_append, filter_replicate_newline, List.append_nil,
          List.append_assoc, ← List.filter_append, List.singleton_append]
      · rw [List.flatMap_cons, ih, ← List.filter_append, List.singleton_append]

theorem filter_addBlock (acc : List (List Char) × List (List Char)) (block : List Char) :
    (addBlock acc block).1.flatMap (List.filter solid) ++
        (addBlock acc block).2.flatMap (List.filter solid) =
      acc.1.flatMap (List.filter solid) ++ acc.2.flatMap (List.filter solid) ++
        block.filter solid := by
  have hjoin : (joinParts acc.2).filter solid = acc.2.flatMap (List.filter solid) :=
    filter_intercalate (by decide) _
  unfold addBlock
  simp only
  rw [← filter_strip block]
  split
  · next hempty => simp [hempty]
  · split
    · simp
    · split
      · next hopen => simp [hopen]
      · simp [hjoin]

theorem filter_splitParagraphs (text : List Char) :
    (splitParagraphs text).flatMap (List.filter solid) = text.filter solid := by
  have hfold : ∀ (blocks : List (List Char)) (acc : List (List Char) × List (List Char)),
      (blocks.foldl addBlock acc).1.flatMap (List.filter solid) ++
          (blocks.foldl addBlock acc).2.flatMap (List.filter solid) =
        acc.1.flatMap (List.filter solid) ++ acc.2.flatMap (List.filter solid) ++
          blocks.flatMap (List.filter solid) := by
    intro blocks
    induction blocks with
    | nil => simp
    | cons block rest ih =>
      intro acc
      rw [List.foldl_cons, ih, filter_addBlock, List.flatMap_cons, List.append_assoc _ _ (_ ++ _)]
      simp
  have hblocks := hfold (splitBlocks [] 0 (strip text)) ([], [])
  rw [filter_splitBlocks, filter_strip] at hblocks
  unfold splitParagraphs
  simp only
  generalize (splitBlocks [] 0 (strip text)).foldl addBlock ([], []) = acc at hblocks
  split
  · next hclosed => simpa [hclosed] using hblocks
  · rw [List.flatMap_append, List.flatMap_singleton, joinParts, filter_intercalate (by decide)]
    simpa using hblocks

theorem filter_splitSentences (text sentence spaces : List Char)
    (hspaces : ∀ c ∈ spaces, isSpace c = true) :
    (splitSentences sentence spaces text).flatMap (List.filter solid) =
      sentence.filter solid ++ text.filter solid := by
  have hnone := filter_eq_nil_of_spaces hspaces
  induction text generalizing sentence spaces with
  | nil => simp [splitSentences, hnone]
  | cons c rest ih =>
    rw [splitSentences]
    split
    · next hc =>
      rw [ih sentence (spaces ++ [c]), List.filter_cons_of_neg (by simp [solid, hc])]
      · intro x hx
        rcases List.mem_append.mp hx with hx | hx
        · exact hspaces x hx
        · rw [List.mem_singleton.mp hx]
          exact hc
      · rw [List.filter_append, hnone, List.filter_cons_of_neg (by simp [solid, hc])]
        rfl
    · split
      · rw [List.flatMap_cons, ih [c] [] nofun rfl, ← List.filter_append, List.singleton_append]
      · rw [ih (sentence ++ spaces ++ [c]) [] nofun rfl, List.filter_append, List.filter_append,
          hnone, List.append_nil, List.append_assoc, ← List.filter_append, List.singleton_append]

/-! ## Gathering -/

/-- The chunks so far and the gathered parts have what came before, where the first part may
repeat the end of the last chunk. -/
def Holds (acc : Gathered) (done : List Char) : Prop :=
  ∃ carried fresh chunked, acc.parts = carried ++ fresh ∧ Covers solid [] acc.chunks chunked ∧
    done = chunked ++ fresh.flatMap (List.filter solid) ∧
    (carried = [] ∨ ∃ part, carried = [part] ∧ part <:+ acc.chunks.getLast?.getD [])

section Gathering

variable {e : Encoding} {acc : Gathered} {done separator : List Char}

theorem holds_start : Holds .start [] := ⟨[], [], [], rfl, .nil, rfl, Or.inl rfl⟩

theorem Holds.push (h : Holds acc done) (part : List Char) (tokens : Nat) :
    Holds (acc.push part tokens) (done ++ part.filter solid) := by
  obtain ⟨carried, fresh, chunked, hparts, hcovers, hdone, hcarried⟩ := h
  refine ⟨carried, fresh ++ [part], chunked, ?_, hcovers, ?_, hcarried⟩
  · show acc.parts ++ [part] = _
    rw [hparts, List.append_assoc]
  · rw [hdone, List.flatMap_append, List.flatMap_singleton, List.append_assoc]

/-- The chunk that the parts become repeats the carried one. -/
theorem Holds.covers (h : Holds acc done) (hsep : separator.filter solid = [])
    (hne : acc.parts ≠ []) :
    Covers solid [] (acc.chunks ++ [separator.intercalate acc.parts]) done := by
  obtain ⟨carried, fresh, chunked, hparts, hcovers, rfl, hcarried⟩ := h
  rw [hparts] at hne ⊢
  rcases hcarried with rfl | ⟨part, rfl, hsuffix⟩
  · have hchunk := hcovers.concat List.nil_suffix (separator.intercalate fresh)
    rwa [filter_intercalate hsep] at hchunk
  · cases fresh with
    | nil =>
      have hchunk := hcovers.concat hsuffix []
      simpa [List.intercalate] using hchunk
    | cons next more =>
      have hchunk := hcovers.concat hsuffix (separator ++ separator.intercalate (next :: more))
      rwa [List.filter_append, hsep, filter_intercalate hsep, List.nil_append, ← List.append_assoc,
        ← List.intercalate_cons_cons] at hchunk

theorem Holds.flush (h : Holds acc done) (hsep : separator.filter solid = []) :
    Holds (acc.flush separator) done ∧ (acc.flush separator).parts = [] := by
  unfold Gathered.flush
  split
  · next hnone => exact ⟨h, hnone⟩
  · next hne =>
    exact ⟨⟨[], [], done, rfl, h.covers hsep hne, (List.append_nil done).symm, Or.inl rfl⟩, rfl⟩

/-- What is gathered when nothing is. -/
theorem Holds.covers_of_nil (h : Holds acc done) (hnone : acc.parts = []) :
    Covers solid [] acc.chunks done := by
  obtain ⟨carried, fresh, chunked, hparts, hcovers, rfl, -⟩ := h
  rw [hnone] at hparts
  obtain ⟨-, rfl⟩ := List.append_eq_nil_iff.mp hparts.symm
  rwa [List.flatMap_nil, List.append_nil]

/-- Chunks of what comes next, when nothing is gathered. -/
theorem Holds.extend (h : Holds acc done) (hnone : acc.parts = []) {chunks : List (List Char)}
    {next : List Char} (hchunks : Covers solid [] chunks next) :
    Holds { acc with chunks := acc.chunks ++ chunks } (done ++ next) :=
  ⟨[], [], done ++ next, hnone, (h.covers_of_nil hnone).append hchunks.weaken,
    (List.append_nil _).symm, Or.inl rfl⟩

theorem Holds.flushOverlap (h : Holds acc done) (maxTokens : Nat) (overlap : ℚ) :
    Holds (flushOverlap e maxTokens overlap acc) done := by
  unfold Chunking.flushOverlap
  cases hlast : acc.parts.getLast? with
  | none => exact h
  | some lastPart =>
    have hne : acc.parts ≠ [] := by
      rintro hnone
      rw [hnone] at hlast
      cases hlast
    obtain ⟨front, hfront⟩ : ∃ front, acc.parts = front ++ [lastPart] :=
      List.getLast?_eq_some_iff.mp hlast
    have hflush : acc.flush ['\n', '\n'] =
        ⟨acc.chunks ++ [['\n', '\n'].intercalate acc.parts], [], 0⟩ := if_neg hne
    simp only
    split
    · refine ⟨[lastPart], [], done, ?_, ?_, (List.append_nil done).symm,
        Or.inr ⟨lastPart, rfl, ?_⟩⟩
      · rw [hflush]
        rfl
      · rw [hflush]
        exact h.covers filter_blank hne
      · rw [hflush]
        show lastPart <:+ ((acc.chunks ++ [_]).getLast?).getD []
        rw [List.getLast?_concat, Option.getD_some, hfront]
        exact Text.isSuffix_intercalate _ _ _
    · exact (h.flush filter_blank).1

theorem Holds.addSentence (h : Holds acc done) (maxTokens : Nat) (sent : List Char) :
    Holds (addSentence e maxTokens acc sent) (done ++ sent.filter solid) := by
  unfold Chunking.addSentence
  simp only
  split
  · exact (h.flush filter_space).1.push sent _
  · exact h.push sent _

/-- A loop that takes the parts one by one. -/
theorem Holds.foldl (step : Gathered → List Char → Gathered)
    (hstep : ∀ {acc done}, Holds acc done → ∀ part,
      Holds (step acc part) (done ++ part.filter solid))
    (h : Holds acc done) (parts : List (List Char)) :
    Holds (parts.foldl step acc) (done ++ parts.flatMap (List.filter solid)) := by
  induction parts generalizing acc done with
  | nil => rwa [List.flatMap_nil, List.append_nil]
  | cons part rest ih =>
    rw [List.flatMap_cons, ← List.append_assoc]
    exact ih (hstep h part)

variable {maxTokens : Nat} {overlap : ℚ}

theorem Holds.addParagraph (h : Holds acc done) (he : e.Lawful) (hmax : 1 ≤ maxTokens)
    (h0 : 0 ≤ overlap) (h1 : overlap < 1) (para : List Char) :
    Holds (addParagraph e maxTokens overlap acc para) (done ++ para.filter solid) := by
  unfold Chunking.addParagraph
  simp only
  split
  · obtain ⟨hflushed, hnone⟩ := h.flush filter_blank
    split
    · have hsents : Holds ((splitSentences [] [] para).foldl
          (Chunking.addSentence e maxTokens) .start) (para.filter solid) := by
        have hall := holds_start.foldl (Chunking.addSentence e maxTokens)
          (fun h part => h.addSentence maxTokens part) (splitSentences [] [] para)
        rwa [filter_splitSentences para [] [] nofun] at hall
      obtain ⟨hchunks, hclosed⟩ := hsents.flush filter_space
      exact hflushed.extend hnone (hchunks.covers_of_nil hclosed)
    · exact hflushed.extend hnone (covers_chunkTextToken he para hmax h0 h1)
  · split
    · exact (h.flushOverlap maxTokens overlap).push para _
    · exact h.push para _

end Gathering

/-- The chunks, before the header is put in front of them. -/
theorem covers_chunkTextSemantic {e : Encoding} (he : e.Lawful) (text : List Char)
    {maxTokens : Nat} {overlap : ℚ} (hmax : 1 ≤ maxTokens) (h0 : 0 ≤ overlap) (h1 : overlap < 1) :
    Covers solid [] (chunkTextSemantic e text maxTokens overlap) (text.filter solid) := by
  unfold chunkTextSemantic
  simp only
  split
  · exact .single text
  · split
    · next hnone =>
      split
      · next hstrip =>
        rw [← filter_strip, hstrip]
        exact .nil
      · exact .single text
    · rw [← filter_splitParagraphs text]
      have hall := holds_start.foldl (addParagraph e maxTokens overlap)
        (fun h para => h.addParagraph he hmax h0 h1 para) (splitParagraphs text)
      obtain ⟨hflushed, hclosed⟩ := hall.flush filter_blank
      exact hflushed.covers_of_nil hclosed

theorem covers_chunkText {e : Encoding} (he : e.Lawful) (text : List Char) (maxTokens : Nat)
    {overlap : ℚ} (h0 : 0 ≤ overlap) (h1 : overlap < 1) (mode : Mode)
    (contextHeader : List Char) :
    ∃ raw, chunkText e text maxTokens overlap mode contextHeader =
        raw.map (withHeader contextHeader) ∧
      Covers solid [] raw (text.filter solid) := by
  refine ⟨_, rfl, ?_⟩
  cases mode with
  | token => exact covers_chunkTextToken he text (by omega) h0 h1
  | semantic => exact covers_chunkTextSemantic he text (by omega) h0 h1

end Cerid.Ingest.Chunking
