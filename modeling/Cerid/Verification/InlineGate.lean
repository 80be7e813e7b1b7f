import Cerid.Verification.Sentences
import Mathlib.Algebra.Order.Field.Rat

/-!
# The gate of a streamed answer

Each sentence that ends in the buffer is scored against the evidence and dropped if this contradicts
it.  The end of the buffer counts as the end of a sentence, so a fragment that ends after a
terminator or among the spaces after it may cut where the text does not.
-/

namespace Cerid.Verification.InlineGate

open Text

/-- What the scorer says of a sentence. -/
structure Scores where
  contradiction : Option ℚ
  others : List (List Char × ℚ) := []

/-- What came out of the gate, what it dropped, and what it asked the scorer about. -/
structure Outcome where
  output : List Char
  suppressed : List (List Char × Scores)
  scored : List (List Char)

def Outcome.append (a b : Outcome) : Outcome :=
  ⟨a.output ++ b.output, a.suppressed ++ b.suppressed, a.scored ++ b.scored⟩

def nliPremiseCharLimit : Nat := 2000

section Gate

-- the scorer of a premise and a sentence, which may raise
variable (scorer : List Char → List Char → Option Scores) (context : List Char) (ceiling : ℚ)

/-- `_gate`. -/
def gate (sentence : List Char) : Outcome :=
  let premise := context.take nliPremiseCharLimit
  let text := strip sentence
  if text = [] ∨ premise = [] then ⟨sentence, [], []⟩
  else
    match scorer premise text with
    | none => ⟨sentence, [], [text]⟩
    | some scores =>
      if ceiling ≤ scores.contradiction.getD 0 then ⟨[], [(text, scores)], [text]⟩
      else ⟨sentence, [], [text]⟩

/-- The pieces that the fragments of a stream are cut into, after a buffer. -/
def pieces (buffer : List Char) : List (List Char) → List (List Char)
  | [] => flush buffer
  | token :: rest => (drain (buffer ++ token)).1 ++ pieces (drain (buffer ++ token)).2 rest

def gateAll (sentences : List (List Char)) : Outcome :=
  sentences.foldr (fun sentence out => (gate scorer context ceiling sentence).append out)
    ⟨[], [], []⟩

/-- `inline_nli_gate`. -/
def inlineNliGate (tokens : List (List Char)) : Outcome :=
  gateAll scorer context ceiling (pieces [] tokens)

end Gate

/-! ## What is asked of the gate -/

/-- The fragments come to what their text comes to in one, for every scorer, and nothing is lost
where nothing is dropped. -/
structure Right (tokens : List (List Char)) : Prop where
  whole : ∀ scorer context ceiling,
    inlineNliGate scorer context ceiling tokens =
      inlineNliGate scorer context ceiling [tokens.flatten]
  lossless : ∀ scorer context ceiling,
    (inlineNliGate scorer context ceiling tokens).suppressed = [] →
      (inlineNliGate scorer context ceiling tokens).output = tokens.flatten

/-- The fragment that ends a buffer may end there, before the text that is still to come: if a
sentence ends with the buffer, it has its spaces, and no more of them follow, unless they stand
between two sentences that are the same. -/
def Harmless (buffer text : List Char) : Prop :=
  ∀ init last, drain buffer = (init ++ [last], []) → ∀ c rest, text = c :: rest →
    if isSpace c then ∃ next more, sentences text = next :: more ∧ strip next = strip last
    else Spaced last

/-- Every fragment but for the last ends harmlessly. -/
def Cuts (buffer : List Char) : List (List Char) → Prop
  | [] => True
  | token :: rest =>
    Harmless (buffer ++ token) rest.flatten ∧ Cuts (drain (buffer ++ token)).2 rest

/-! ## Outcomes -/

/-- The texts that are scored. -/
def texts (ps : List (List Char)) : List (List Char) := (ps.map strip).filter (· ≠ [])

/-- What comes out if the texts that `keep` holds of are kept. -/
def kept (keep : List Char → Bool) (ps : List (List Char)) : List Char :=
  (ps.filter fun p => strip p = [] || keep (strip p)).flatten

/-- The pieces come to the same, whatever is kept. -/
def Alike (ps qs : List (List Char)) : Prop :=
  texts ps = texts qs ∧ ∀ keep, kept keep ps = kept keep qs

theorem texts_append (ps qs : List (List Char)) : texts (ps ++ qs) = texts ps ++ texts qs := by
  unfold texts
  rw [List.map_append, List.filter_append]

theorem texts_cons {p : List Char} (hp : strip p ≠ []) (ps : List (List Char)) :
    texts (p :: ps) = strip p :: texts ps := by
  unfold texts
  rw [List.map_cons, List.filter_cons_of_pos]
  exact decide_eq_true hp

theorem texts_cons_blank {p : List Char} (hp : strip p = []) (ps : List (List Char)) :
    texts (p :: ps) = texts ps := by
  unfold texts
  rw [List.map_cons, List.filter_cons_of_neg]
  rw [hp]
  decide

theorem kept_append (keep : List Char → Bool) (ps qs : List (List Char)) :
    kept keep (ps ++ qs) = kept keep ps ++ kept keep qs := by
  unfold kept
  rw [List.filter_append, List.flatten_append]

theorem kept_cons_of {keep : List Char → Bool} {p : List Char}
    (hp : strip p = [] ∨ keep (strip p) = true) (ps : List (List Char)) :
    kept keep (p :: ps) = p ++ kept keep ps := by
  unfold kept
  rw [List.filter_cons_of_pos, List.flatten_cons]
  rcases hp with hp | hp
  · rw [decide_eq_true hp, Bool.true_or]
  · rw [hp, Bool.or_true]

theorem kept_cons_not {keep : List Char → Bool} {p : List Char} (hp : strip p ≠ [])
    (hkeep : keep (strip p) = false) (ps : List (List Char)) :
    kept keep (p :: ps) = kept keep ps := by
  unfold kept
  rw [List.filter_cons_of_neg]
  rw [decide_eq_false hp, hkeep]
  exact Bool.false_ne_true

theorem kept_true (ps : List (List Char)) : kept (fun _ => true) ps = ps.flatten := by
  unfold kept
  rw [List.filter_eq_self.mpr]
  exact fun p _ => Bool.or_true _

theorem kept_congr {keep keep' : List Char → Bool} {ps : List (List Char)}
    (h : ∀ p ∈ ps, strip p ≠ [] → keep (strip p) = keep' (strip p)) :
    kept keep ps = kept keep' ps := by
  unfold kept
  refine congrArg List.flatten (List.filter_congr fun p hp => ?_)
  by_cases hblank : strip p = []
  · rw [decide_eq_true hblank, Bool.true_or, Bool.true_or]
  · rw [h p hp hblank]

theorem alike_append_left (ps : List (List Char)) {qs rs : List (List Char)} :
    Alike (ps ++ qs) (ps ++ rs) ↔ Alike qs rs := by
  unfold Alike
  rw [texts_append, texts_append, List.append_cancel_left_eq]
  refine and_congr_right fun _ => forall_congr' fun keep => ?_
  rw [kept_append, kept_append, List.append_cancel_left_eq]

section Outcomes

variable {scorer : List Char → List Char → Option Scores} {context : List Char} {ceiling : ℚ}

theorem gate_blank {p : List Char} (h : strip p = [] ∨ context.take nliPremiseCharLimit = []) :
    gate scorer context ceiling p = ⟨p, [], []⟩ := if_pos h

/-- A sentence is kept or dropped. -/
theorem gate_cases (scorer : List Char → List Char → Option Scores) (ceiling : ℚ)
    {p : List Char} (hp : strip p ≠ [])
    (hpremise : context.take nliPremiseCharLimit ≠ []) :
    ((gate scorer context ceiling (strip p)).suppressed = [] ∧
      gate scorer context ceiling p = ⟨p, [], [strip p]⟩) ∨
    ∃ scores, (gate scorer context ceiling (strip p)).suppressed = [(strip p, scores)] ∧
      gate scorer context ceiling p = ⟨[], [(strip p, scores)], [strip p]⟩ := by
  unfold gate
  dsimp only
  rw [strip_strip, if_neg (fun h => h.elim hp hpremise), if_neg (fun h => h.elim hp hpremise)]
  cases scorer (context.take nliPremiseCharLimit) (strip p) with
  | none => exact Or.inl ⟨rfl, rfl⟩
  | some scores =>
    dsimp only
    split
    · exact Or.inr ⟨scores, rfl, rfl⟩
    · exact Or.inl ⟨rfl, rfl⟩

theorem gateAll_cons (p : List Char) (ps : List (List Char)) :
    gateAll scorer context ceiling (p :: ps) =
      (gate scorer context ceiling p).append (gateAll scorer context ceiling ps) := rfl

theorem gateAll_of_no_premise (h : context.take nliPremiseCharLimit = [])
    (ps : List (List Char)) : gateAll scorer context ceiling ps = ⟨ps.flatten, [], []⟩ := by
  induction ps with
  | nil => rfl
  | cons p ps ih =>
    rw [gateAll_cons, gate_blank (Or.inr h), ih]
    rfl

/-- What the gate makes of pieces depends on their texts and on what is kept of them. -/
theorem gateAll_eq (h : context.take nliPremiseCharLimit ≠ []) (ps : List (List Char)) :
    gateAll scorer context ceiling ps =
      { output := kept (fun t => (gate scorer context ceiling t).suppressed.isEmpty) ps
        suppressed := (texts ps).flatMap fun t => (gate scorer context ceiling t).suppressed
        scored := texts ps } := by
  induction ps with
  | nil => rfl
  | cons p ps ih =>
    rw [gateAll_cons, ih]
    by_cases hp : strip p = []
    · rw [gate_blank (Or.inl hp), kept_cons_of (Or.inl hp), texts_cons_blank hp]
      rfl
    · rw [texts_cons hp, List.flatMap_cons]
      rcases gate_cases scorer ceiling hp h with
        ⟨hnone, hgate⟩ | ⟨scores, hsome, hgate⟩
      · rw [hgate, hnone, kept_cons_of (Or.inr (by rw [hnone]; rfl))]
        rfl
      · rw [hgate, hsome, kept_cons_not hp (by rw [hsome]; rfl)]
        rfl

end Outcomes

/-- Outcomes are the same for all scorers exactly if the pieces are alike. -/
theorem gateAll_congr_iff {ps qs : List (List Char)} (hflat : ps.flatten = qs.flatten) :
    (∀ scorer context ceiling,
      gateAll scorer context ceiling ps = gateAll scorer context ceiling qs) ↔ Alike ps qs := by
  constructor
  · intro hall
    -- a scorer that contradicts what is not to be kept
    have hkept : ∀ keep : List Char → Bool,
        texts ps = texts qs ∧ kept keep ps = kept keep qs := by
      intro keep
      let scorer : List Char → List Char → Option Scores := fun _ t =>
        some { contradiction := some (if keep t then 0 else 1) }
      have hpremise : ['e'].take nliPremiseCharLimit ≠ [] := by decide
      have hgate : ∀ rs : List (List Char),
          kept (fun t => (gate scorer ['e'] 1 t).suppressed.isEmpty) rs = kept keep rs := by
        intro rs
        refine kept_congr fun r _ hr => ?_
        unfold gate
        dsimp only
        rw [strip_strip, if_neg (fun h => h.elim hr hpremise)]
        have hone : ¬ (1 : ℚ) ≤ 0 := by decide
        cases hkeep : keep (strip r) with
        | true => simp [scorer, hkeep, hone]
        | false => simp [scorer, hkeep]
      have heq := hall scorer ['e'] 1
      rw [gateAll_eq hpremise, gateAll_eq hpremise] at heq
      have houtput := congrArg Outcome.output heq
      dsimp only at houtput
      rw [hgate, hgate] at houtput
      exact ⟨congrArg Outcome.scored heq, houtput⟩
    exact ⟨(hkept fun _ => true).1, fun keep => (hkept keep).2⟩
  · intro halike scorer context ceiling
    by_cases h : context.take nliPremiseCharLimit = []
    · rw [gateAll_of_no_premise h, gateAll_of_no_premise h, hflat]
    · rw [gateAll_eq h, gateAll_eq h, halike.1, halike.2]

/-! ## One cut -/

theorem strip_ne_nil_of_terminal {s : List Char} (h : ∃ c ∈ s, isTerminal c = true) :
    strip s ≠ [] := by
  obtain ⟨c, hc, hterminal⟩ := h
  refine strip_ne_nil hc ?_
  rw [Bool.eq_false_iff]
  intro hspace
  exact absurd hterminal (by rw [not_terminal_of_space hspace]; exact Bool.false_ne_true)

theorem flatten_pieces (buffer : List Char) (tokens : List (List Char)) :
    (pieces buffer tokens).flatten = buffer ++ tokens.flatten := by
  induction tokens generalizing buffer with
  | nil => rw [pieces, flatten_flush, List.flatten_nil, List.append_nil]
  | cons token rest ih =>
    rw [pieces, List.flatten_append, ih, ← List.append_assoc, drain_append, List.flatten_cons,
      List.append_assoc]

theorem ne_nil_of_mem_pieces {buffer p : List Char} {tokens : List (List Char)}
    (h : p ∈ pieces buffer tokens) : p ≠ [] := by
  induction tokens generalizing buffer with
  | nil =>
    rw [pieces, flush] at h
    split at h
    · cases h
    · rename_i hbuffer
      rw [List.mem_singleton.mp h]
      exact hbuffer
  | cons token rest ih =>
    rw [pieces, List.mem_append] at h
    rcases h with h | h
    · obtain ⟨c, hc, -⟩ := mem_drain_terminal h
      exact List.ne_nil_of_mem hc
    · exact ih h

theorem sentences_eq_pieces (v : List Char) : sentences v = pieces [] [v] := rfl

theorem ne_nil_of_mem_sentences {v p : List Char} (h : p ∈ sentences v) : p ≠ [] :=
  ne_nil_of_mem_pieces (sentences_eq_pieces v ▸ h)

theorem cut_of_spaces {g : List Char} (hg : ∀ c ∈ g, isSpace c = true) : cut g = none := by
  cases h : cut g with
  | none => rfl
  | some p =>
    obtain ⟨c, hc, hterminal⟩ := cut_terminal h
    have hmem : c ∈ g := by
      rw [← cut_append h]
      exact List.mem_append_left _ hc
    rw [not_terminal_of_space (hg c hmem)] at hterminal
    cases hterminal

/-- Spaces before a text belong to its first sentence. -/
theorem sentences_gap {g v first : List Char} {more : List (List Char)}
    (hg : ∀ c ∈ g, isSpace c = true) (hv : sentences v = first :: more) :
    sentences (g ++ v) = (g ++ first) :: more := by
  have hcut := cut_append_of_open v (Or.inl (cut_of_spaces hg))
  cases h : cut v with
  | none =>
    rw [h] at hcut
    rw [sentences_of_none h, flush] at hv
    split at hv
    · cases hv
    · rename_i hne
      obtain ⟨rfl, rfl⟩ := List.cons.inj hv
      rw [sentences_of_none hcut, flush, if_neg fun hnil => hne (List.append_eq_nil_iff.mp hnil).2]
  | some p =>
    rw [h] at hcut
    rw [sentences_of_some h] at hv
    obtain ⟨rfl, rfl⟩ := List.cons.inj hv
    exact sentences_of_some hcut

/-- The first sentence of a text that starts with no space does not either. -/
theorem solid_first {v first : List Char} {more : List (List Char)} (hsolid : Solid v)
    (hv : sentences v = first :: more) (hfirst : first ≠ []) : Solid first ∧ strip first ≠ [] := by
  have hflat := flatten_sentences v
  rw [hv, List.flatten_cons] at hflat
  cases first with
  | nil => exact absurd rfl hfirst
  | cons c first =>
    rw [← hflat] at hsolid
    have hc : isSpace c = false := hsolid
    exact ⟨hc, strip_ne_nil List.mem_cons_self hc⟩

section Shift

variable {last g v : List Char} {ps : List (List Char)}

/-- A sentence whose spaces come with the next piece, where the next sentence is the same. -/
theorem alike_shift_of {first : List Char} {more : List (List Char)} (hlast : strip last ≠ [])
    (hg : ∀ c ∈ g, isSpace c = true) (hsame : strip first = strip last) :
    Alike (last :: ps) ((last ++ g) :: first :: more) ↔ Alike ps ((g ++ first) :: more) := by
  have hgap : strip (last ++ g) = strip last := strip_append_gap hg last
  have hnext : strip (g ++ first) = strip last := (strip_gap_append hg first).trans hsame
  have hfirst : strip first ≠ [] := hsame ▸ hlast
  have hgapne : strip (last ++ g) ≠ [] := hgap ▸ hlast
  have hnextne : strip (g ++ first) ≠ [] := hnext ▸ hlast
  unfold Alike
  rw [texts_cons hlast, texts_cons hgapne, texts_cons hfirst, texts_cons hnextne, hgap, hnext,
    hsame, List.cons_inj_right]
  refine and_congr_right fun _ => forall_congr' fun keep => ?_
  cases hkeep : keep (strip last) with
  | true =>
    rw [kept_cons_of (Or.inr hkeep), kept_cons_of (Or.inr (hgap ▸ hkeep)),
      kept_cons_of (Or.inr (hsame ▸ hkeep)), kept_cons_of (Or.inr (hnext ▸ hkeep)),
      List.append_assoc, List.append_assoc, List.append_cancel_left_eq]
  | false =>
    rw [kept_cons_not hlast hkeep, kept_cons_not hgapne (hgap ▸ hkeep),
      kept_cons_not hfirst (hsame ▸ hkeep), kept_cons_not hnextne (hnext ▸ hkeep)]

/-- Where it is another one, the spaces are left when the sentence is dropped. -/
theorem same_of_alike_shift (hlast : strip last ≠ []) (hg : ∀ c ∈ g, isSpace c = true)
    (hgne : g ≠ []) (hsolid : Solid v) (hflat : ps.flatten = g ++ v)
    (hps : ∀ p ∈ ps, p ≠ []) (h : Alike (last :: ps) ((last ++ g) :: sentences v)) :
    ∃ first more, sentences v = first :: more ∧ strip first = strip last := by
  have hgap : strip (last ++ g) = strip last := strip_append_gap hg last
  have hgapne : strip (last ++ g) ≠ [] := hgap ▸ hlast
  obtain ⟨htexts, hkept⟩ := h
  rw [texts_cons hlast, texts_cons hgapne, hgap, List.cons_inj_right] at htexts
  have hdrop := hkept fun t => decide (t ≠ strip last)
  have hnot : decide (strip last ≠ strip last) = false := by simp
  rw [kept_cons_not hlast hnot, kept_cons_not hgapne (hgap ▸ hnot)] at hdrop
  -- the first piece starts with a space
  obtain ⟨c, g', rfl⟩ := List.exists_cons_of_ne_nil hgne
  have hc : isSpace c = true := hg c List.mem_cons_self
  cases ps with
  | nil => cases hflat
  | cons p ps =>
    obtain ⟨d, p', rfl⟩ := List.exists_cons_of_ne_nil (hps p List.mem_cons_self)
    have hd : d = c := (List.cons.inj hflat).1
    subst hd
    cases hv : sentences v with
    | nil =>
      rw [hv] at htexts hdrop
      have hblank : strip (d :: p') = [] := by
        by_contra hne
        rw [texts_cons hne] at htexts
        cases htexts
      rw [kept_cons_of (Or.inl hblank)] at hdrop
      cases hdrop
    | cons first more =>
      refine ⟨first, more, rfl, ?_⟩
      have hfirstne : first ≠ [] := ne_nil_of_mem_sentences (hv ▸ List.mem_cons_self)
      obtain ⟨hfirst, hfirsttext⟩ := solid_first hsolid hv hfirstne
      by_contra hother
      rw [hv] at htexts hdrop
      rw [texts_cons hfirsttext] at htexts
      have hkeep : decide (strip first ≠ strip last) = true := decide_eq_true hother
      rw [kept_cons_of (p := first) (Or.inr hkeep)] at hdrop
      have hp : strip (d :: p') = [] ∨ decide (strip (d :: p') ≠ strip last) = true := by
        by_cases hblank : strip (d :: p') = []
        · exact Or.inl hblank
        · rw [texts_cons hblank] at htexts
          rw [(List.cons.inj htexts).1]
          exact Or.inr hkeep
      rw [kept_cons_of hp] at hdrop
      obtain ⟨e, first', rfl⟩ := List.exists_cons_of_ne_nil hfirstne
      have he : isSpace e = false := hfirst
      rw [← (List.cons.inj hdrop).1, hc] at he
      cases he

end Shift

/-- A sentence goes on where it was taken to end. -/
theorem not_alike_of_open {last v : List Char} {ps : List (List Char)}
    (hcut : cut last = some (last, [])) (hspaced : ¬ Spaced last) {c : Char} {rest : List Char}
    (hv : v = c :: rest) (hc : isSpace c = false) :
    ¬ Alike (last :: ps) (sentences (last ++ v)) := by
  intro halike
  have hlast : strip last ≠ [] := strip_ne_nil_of_terminal (cut_terminal hcut)
  have hlonger : ∃ x more, sentences (last ++ v) = (last ++ x) :: more ∧ c ∈ x := by
    have hopen := cut_append_of_open v
      (Or.inr ⟨hcut, hspaced, hv ▸ List.cons_ne_nil c rest, hv ▸ hc⟩)
    cases h : cut v with
    | none =>
      rw [h] at hopen
      rw [sentences_of_none hopen, flush,
        if_neg fun hnil => hlast (by rw [(List.append_eq_nil_iff.mp hnil).1]; rfl)]
      exact ⟨v, [], rfl, hv ▸ List.mem_cons_self⟩
    | some p =>
      rw [h] at hopen
      refine ⟨p.1, sentences p.2, sentences_of_some hopen, ?_⟩
      have happend := cut_append h
      obtain ⟨d, s, hs⟩ := List.exists_cons_of_ne_nil (cut_ne_nil h)
      rw [hs, hv, List.cons_append] at happend
      rw [hs, ← (List.cons.inj happend).1]
      exact List.mem_cons_self
  obtain ⟨x, more, hsentences, hx⟩ := hlonger
  have htexts := halike.1
  have hlongne : strip (last ++ x) ≠ [] := strip_ne_nil (List.mem_append_right _ hx) hc
  rw [hsentences, texts_cons hlast, texts_cons hlongne] at htexts
  have hfilter := congrArg (List.filter fun c => !isSpace c) (List.cons.inj htexts).1
  rw [filter_strip, filter_strip, List.filter_append, List.self_eq_append_right] at hfilter
  have hmem : c ∈ x.filter fun c => !isSpace c := List.mem_filter.mpr ⟨hx, by rw [hc]; rfl⟩
  rw [hfilter] at hmem
  cases hmem

/-- The spaces after a sentence come with the next piece. -/
theorem alike_shift {last v : List Char} {ps : List (List Char)} (hcut : cut last = some (last, []))
    (hspace : ¬ Solid v) (hflat : ps.flatten = v) (hps : ∀ p ∈ ps, p ≠ []) :
    Alike (last :: ps) (sentences (last ++ v)) ↔
      (∃ next more, sentences v = next :: more ∧ strip next = strip last) ∧
        Alike ps (sentences v) := by
  have hlast : strip last ≠ [] := strip_ne_nil_of_terminal (cut_terminal hcut)
  obtain ⟨g, v', rfl, hg, hsolid⟩ := exists_gap v
  have hgne : g ≠ [] := by
    rintro rfl
    exact hspace hsolid
  rw [sentences_of_some (cut_append_gap hcut hg (Or.inl hgne) hsolid)]
  constructor
  · intro halike
    obtain ⟨first, more, hv, hsame⟩ := same_of_alike_shift hlast hg hgne hsolid hflat hps halike
    rw [hv, alike_shift_of hlast hg hsame] at halike
    rw [sentences_gap hg hv]
    exact ⟨⟨g ++ first, more, rfl, (strip_gap_append hg first).trans hsame⟩, halike⟩
  · rintro ⟨⟨next, more, hv, hsame⟩, halike⟩
    cases hv' : sentences v' with
    | nil =>
      have hnil : v' = [] := by rw [← flatten_sentences v', hv', List.flatten_nil]
      rw [hnil, List.append_nil, sentences_of_none (cut_of_spaces hg), flush, if_neg hgne] at hv
      have hblank := strip_gap_append hg []
      rw [List.append_nil, (List.cons.inj hv).1, hsame] at hblank
      exact absurd hblank hlast
    | cons first more' =>
      rw [sentences_gap hg hv'] at hv halike
      obtain ⟨rfl, rfl⟩ := List.cons.inj hv
      rw [strip_gap_append hg] at hsame
      exact (alike_shift_of hlast hg hsame).mpr halike

/-- After the sentences of a buffer, the pieces of what follows come to what the whole text comes
to exactly if the buffer ends harmlessly and they come to what the text that follows comes to. -/
theorem alike_step {u v : List Char} {ps : List (List Char)}
    (hflat : ps.flatten = (drain u).2 ++ v) (hps : ∀ p ∈ ps, p ≠ []) :
    Alike ((drain u).1 ++ ps) (sentences (u ++ v)) ↔
      Harmless u v ∧ Alike ps (sentences ((drain u).2 ++ v)) := by
  by_cases hopen : (drain u).2 ≠ [] ∨ (drain u).1 = []
  · rw [sentences_append_of_open v hopen, alike_append_left]
    refine (and_iff_right ?_).symm
    intro init last hu
    rw [hu] at hopen
    rcases hopen with h | h
    · exact absurd rfl h
    · exact absurd h (List.concat_ne_nil last init)
  · rw [not_or, not_not] at hopen
    obtain ⟨hrest, hsome⟩ := hopen
    obtain ⟨init, last, hinit⟩ := (List.eq_nil_or_concat (drain u).1).resolve_left hsome
    rw [List.concat_eq_append] at hinit
    have hu : drain u = (init ++ [last], []) := Prod.ext hinit hrest
    obtain ⟨hcut, hsentences⟩ := sentences_append_last hu v
    have hlast : strip last ≠ [] := strip_ne_nil_of_terminal (cut_terminal hcut)
    rw [hrest, List.nil_append] at hflat
    have hharmless : Harmless u v ↔ ∀ c rest, v = c :: rest →
        if isSpace c then ∃ next more, sentences v = next :: more ∧ strip next = strip last
        else Spaced last := by
      constructor
      · exact fun h => h init last hu
      · intro h init' last' hu'
        obtain ⟨-, hlast'⟩ := List.append_inj' (Prod.mk.inj (hu.symm.trans hu')).1 rfl
        rw [← (List.cons.inj hlast').1]
        exact h
    rw [hinit, hsentences, List.append_assoc, alike_append_left, hrest, List.nil_append, hharmless,
      List.singleton_append]
    have hcancel : ∀ qs, Alike (last :: ps) (last :: qs) ↔ Alike ps qs := fun qs =>
      alike_append_left [last]
    cases hv : v with
    | nil =>
      rw [List.append_nil, sentences_of_some hcut, hcancel]
      exact (and_iff_right fun c rest h => nomatch h).symm
    | cons c rest =>
      rw [← hv]
      by_cases hc : isSpace c = true
      · have hspace : ¬ Solid v := by
          intro hsolid
          rw [hv] at hsolid
          exact absurd (hc.symm.trans hsolid) (by decide)
        rw [alike_shift hcut hspace hflat hps]
        refine and_congr_left fun _ => ?_
        constructor
        · intro h c' rest' hv'
          obtain ⟨rfl, rfl⟩ := List.cons.inj (hv.symm.trans hv')
          rw [if_pos hc]
          exact h
        · intro h
          have h := h c rest hv
          rwa [if_pos hc] at h
      · rw [Bool.not_eq_true] at hc
        have hsolid : Solid v := hv ▸ hc
        have hiff : (∀ c' rest', v = c' :: rest' →
            if isSpace c' then ∃ next more, sentences v = next :: more ∧ strip next = strip last
            else Spaced last) ↔ Spaced last := by
          constructor
          · intro h
            have h := h c rest hv
            rwa [if_neg (by rw [hc]; exact Bool.false_ne_true)] at h
          · intro h c' rest' hv'
            obtain ⟨rfl, rfl⟩ := List.cons.inj (hv.symm.trans hv')
            rw [if_neg (by rw [hc]; exact Bool.false_ne_true)]
            exact h
        rw [hiff]
        by_cases hspaced : Spaced last
        · have hnext : cut (last ++ v) = some (last ++ [], v) :=
            cut_append_gap hcut (fun _ h => absurd h List.not_mem_nil) (Or.inr hspaced) hsolid
          rw [List.append_nil] at hnext
          rw [sentences_of_some hnext, hcancel]
          exact (and_iff_right hspaced).symm
        · exact iff_of_false (not_alike_of_open hcut hspaced hv hc) fun h => hspaced h.1

/-! ## Streams -/

/-- A buffer in which no sentence ends, and the fragments after it. -/
theorem alike_pieces_iff {buffer : List Char} (hbuffer : cut buffer = none)
    (tokens : List (List Char)) :
    Alike (pieces buffer tokens) (sentences (buffer ++ tokens.flatten)) ↔ Cuts buffer tokens := by
  induction tokens generalizing buffer with
  | nil =>
    rw [List.flatten_nil, List.append_nil, sentences_of_none hbuffer]
    exact iff_of_true ⟨rfl, fun _ => rfl⟩ trivial
  | cons token rest ih =>
    rw [pieces, List.flatten_cons, ← List.append_assoc,
      alike_step (flatten_pieces _ rest) fun p hp => ne_nil_of_mem_pieces hp, ih (cut_drain _)]
    rfl

/-- What is not suppressed is not lost. -/
theorem gateAll_lossless {scorer : List Char → List Char → Option Scores} {context : List Char}
    {ceiling : ℚ} {ps : List (List Char)}
    (h : (gateAll scorer context ceiling ps).suppressed = []) :
    (gateAll scorer context ceiling ps).output = ps.flatten := by
  by_cases hpremise : context.take nliPremiseCharLimit = []
  · rw [gateAll_of_no_premise hpremise]
  · rw [gateAll_eq hpremise] at h ⊢
    rw [← kept_true]
    dsimp only at h ⊢
    refine kept_congr fun p hp hne => ?_
    have hmem : strip p ∈ texts ps :=
      List.mem_filter.mpr ⟨List.mem_map_of_mem hp, decide_eq_true hne⟩
    rw [List.flatMap_eq_nil_iff.mp h (strip p) hmem]
    rfl

theorem whole_iff_cuts (tokens : List (List Char)) :
    (∀ scorer context ceiling, inlineNliGate scorer context ceiling tokens =
      inlineNliGate scorer context ceiling [tokens.flatten]) ↔ Cuts [] tokens := by
  have hflat : (pieces [] tokens).flatten = (pieces [] [tokens.flatten]).flatten := by
    rw [flatten_pieces, flatten_pieces, List.flatten_singleton]
  exact (gateAll_congr_iff hflat).trans (alike_pieces_iff rfl tokens)

/-- The fragments of a stream come to what its text comes to exactly if each ends harmlessly. -/
theorem inlineNliGate_right_iff (tokens : List (List Char)) : Right tokens ↔ Cuts [] tokens := by
  refine ⟨fun h => (whole_iff_cuts tokens).mp h.whole, fun h => ?_⟩
  refine ⟨(whole_iff_cuts tokens).mpr h, fun scorer context ceiling hnone => ?_⟩
  exact (gateAll_lossless hnone).trans (flatten_pieces [] tokens)

/-- A number that two fragments share is cut at its point. -/
theorem number_cut : ¬ Right ["Pi is 3.".toList, "14.".toList] := by
  intro hright
  obtain ⟨hharmless, -⟩ := (whole_iff_cuts _).mp hright.whole
  have hdrain : drain "Pi is 3.".toList = ([] ++ ["Pi is 3.".toList], []) := by
    have hcut : cut "Pi is 3.".toList = some ("Pi is 3.".toList, []) := by decide +kernel
    rw [drain_of_some hcut, drain_of_none rfl]
    rfl
  have hspaced := hharmless [] "Pi is 3.".toList hdrain '1' "4.".toList (by decide +kernel)
  rw [if_neg (by decide), Spaced] at hspaced
  exact absurd hspaced (by decide +kernel)

end Cerid.Verification.InlineGate
