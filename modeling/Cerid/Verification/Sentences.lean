import Cerid.Lib.Text
import Mathlib.Data.List.Basic

/-!
# Sentences of a buffer

A sentence ends after a terminator that white space follows, with all of it, or at which the buffer
ends.  What a longer buffer is cut into depends on where the shorter one ended.
-/

namespace Cerid.Verification.InlineGate

open Text

def isTerminal (c : Char) : Bool := c ∈ ['.', '!', '?']

/-- `_SENTENCE_END.search(buffer)`, the pattern being `[.!?](\s+|$)`: the buffer up to the end of
the match, and the rest. -/
def cut : List Char → Option (List Char × List Char)
  | [] => none
  | c :: rest =>
    if isTerminal c && rest.head?.all isSpace then
      some (c :: rest.takeWhile isSpace, rest.dropWhile isSpace)
    else (cut rest).map fun p => (c :: p.1, p.2)

/-- No space starts the text. -/
def Solid (v : List Char) : Prop := v.head?.any isSpace = false

/-- A space ends the text. -/
def Spaced (u : List Char) : Prop := u.getLast?.any isSpace = true

/-! ## Runs of spaces -/

theorem takeWhile_gap {g v : List Char} (hg : ∀ c ∈ g, isSpace c = true) (hv : Solid v) :
    (g ++ v).takeWhile isSpace = g ∧ (g ++ v).dropWhile isSpace = v := by
  induction g with
  | nil =>
    cases v with
    | nil => exact ⟨rfl, rfl⟩
    | cons c v =>
      have hc : isSpace c = false := hv
      rw [List.nil_append, List.takeWhile_cons, List.dropWhile_cons, hc]
      exact ⟨rfl, rfl⟩
  | cons c g ih =>
    obtain ⟨htake, hdrop⟩ := ih fun d hd => hg d (List.mem_cons_of_mem c hd)
    rw [List.cons_append, List.takeWhile_cons, List.dropWhile_cons, hg c List.mem_cons_self,
      if_pos rfl, if_pos rfl, htake, hdrop]
    exact ⟨rfl, rfl⟩

theorem solid_dropWhile (v : List Char) : Solid (v.dropWhile isSpace) := by
  induction v with
  | nil => rfl
  | cons c v ih =>
    rw [List.dropWhile_cons]
    by_cases hc : isSpace c = true
    · rw [if_pos hc]
      exact ih
    · rw [if_neg hc]
      exact Bool.eq_false_iff.mpr hc

/-- Spaces and what follows them. -/
theorem exists_gap (v : List Char) :
    ∃ g v', v = g ++ v' ∧ (∀ c ∈ g, isSpace c = true) ∧ Solid v' :=
  ⟨v.takeWhile isSpace, v.dropWhile isSpace, List.takeWhile_append_dropWhile.symm,
    fun _ hc => List.mem_takeWhile_imp hc, solid_dropWhile v⟩

theorem not_terminal_of_space {c : Char} (h : isSpace c = true) : isTerminal c = false := by
  rw [Bool.eq_false_iff]
  intro hterminal
  have hc := of_decide_eq_true hterminal
  simp only [List.mem_cons, List.not_mem_nil, or_false] at hc
  rcases hc with rfl | rfl | rfl <;> exact absurd h (by decide)

/-- What is stripped off is space. -/
theorem filter_strip (cs : List Char) :
    (strip cs).filter (fun c => !isSpace c) = cs.filter (fun c => !isSpace c) := by
  have hfront : ∀ xs : List Char, (xs.dropWhile isSpace).filter (fun c => !isSpace c) =
      xs.filter (fun c => !isSpace c) := by
    intro xs
    have hnone : (xs.takeWhile isSpace).filter (fun c => !isSpace c) = [] := by
      rw [List.filter_eq_nil_iff]
      intro c hc
      rw [List.mem_takeWhile_imp hc]
      exact Bool.false_ne_true
    conv_rhs => rw [← List.takeWhile_append_dropWhile (p := isSpace) (l := xs)]
    rw [List.filter_append, hnone, List.nil_append]
  unfold strip List.rdropWhile
  rw [List.filter_reverse, hfront, List.filter_reverse, List.reverse_reverse, hfront]

theorem strip_gap_append {g : List Char} (hg : ∀ c ∈ g, isSpace c = true) (s : List Char) :
    strip (g ++ s) = strip s := by
  unfold strip
  rw [List.dropWhile_append_of_pos hg]

theorem strip_append_gap {g : List Char} (hg : ∀ c ∈ g, isSpace c = true) (s : List Char) :
    strip (s ++ g) = strip s := by
  rw [strip_eq_dropWhile, strip_eq_dropWhile]
  unfold List.rdropWhile
  rw [List.reverse_append, List.dropWhile_append_of_pos fun c hc => hg c (List.mem_reverse.mp hc)]

theorem strip_ne_nil {cs : List Char} {c : Char} (hc : c ∈ cs) (hspace : isSpace c = false) :
    strip cs ≠ [] := by
  intro h
  have hfilter := filter_strip cs
  rw [h, List.filter_nil] at hfilter
  have hmem : c ∈ cs.filter fun c => !isSpace c := List.mem_filter.mpr ⟨hc, by rw [hspace]; rfl⟩
  rw [← hfilter] at hmem
  cases hmem

/-! ## One sentence -/

theorem cut_append {b : List Char} {p : List Char × List Char} (h : cut b = some p) :
    p.1 ++ p.2 = b := by
  induction b generalizing p with
  | nil => cases h
  | cons c rest ih =>
    rw [cut] at h
    split at h
    · obtain rfl := Option.some.inj h
      exact congrArg (c :: ·) List.takeWhile_append_dropWhile
    · obtain ⟨q, hq, rfl⟩ := Option.map_eq_some_iff.mp h
      exact congrArg (c :: ·) (ih hq)

theorem cut_terminal {b : List Char} {p : List Char × List Char} (h : cut b = some p) :
    ∃ c ∈ p.1, isTerminal c = true := by
  induction b generalizing p with
  | nil => cases h
  | cons c rest ih =>
    rw [cut] at h
    split at h
    · rename_i hend
      obtain rfl := Option.some.inj h
      exact ⟨c, List.mem_cons_self, (Bool.and_eq_true_iff.mp hend).1⟩
    · obtain ⟨q, hq, rfl⟩ := Option.map_eq_some_iff.mp h
      obtain ⟨d, hd, hterminal⟩ := ih hq
      exact ⟨d, List.mem_cons_of_mem c hd, hterminal⟩

theorem cut_ne_nil {b : List Char} {p : List Char × List Char} (h : cut b = some p) :
    p.1 ≠ [] := by
  obtain ⟨c, hc, -⟩ := cut_terminal h
  exact List.ne_nil_of_mem hc

theorem head_append {rest : List Char} (hrest : rest ≠ []) (v : List Char) :
    (rest ++ v).head? = rest.head? := by
  cases rest with
  | nil => exact absurd rfl hrest
  | cons d rest => rfl

/-- A sentence that something follows stays a sentence. -/
theorem cut_append_of_rest {u s r : List Char} (h : cut u = some (s, r)) (hr : r ≠ [])
    (v : List Char) : cut (u ++ v) = some (s, r ++ v) := by
  induction u generalizing s with
  | nil => cases h
  | cons c rest ih =>
    have hrest : rest ≠ [] := by
      rintro rfl
      rw [cut] at h
      split at h
      · obtain ⟨-, rfl⟩ := Prod.mk.inj (Option.some.inj h)
        exact hr rfl
      · cases h
    rw [cut] at h
    rw [List.cons_append, cut, head_append hrest]
    split at h
    · rename_i hend
      rw [if_pos hend]
      obtain ⟨rfl, rfl⟩ := Prod.mk.inj (Option.some.inj h)
      have hsolid : Solid (rest.dropWhile isSpace ++ v) := by
        unfold Solid
        rw [head_append hr]
        exact solid_dropWhile rest
      have hgap := takeWhile_gap (g := rest.takeWhile isSpace)
        (fun _ hc => List.mem_takeWhile_imp hc) hsolid
      rw [← List.append_assoc, List.takeWhile_append_dropWhile] at hgap
      rw [hgap.1, hgap.2]
    · rename_i hend
      obtain ⟨q, hq, hp⟩ := Option.map_eq_some_iff.mp h
      obtain ⟨rfl, rfl⟩ := Prod.mk.inj hp
      rw [if_neg hend, ih hq]
      rfl

/-- A sentence that ends the buffer with a space, or that spaces follow, ends with all of them. -/
theorem cut_append_gap {u g v : List Char} (h : cut u = some (u, []))
    (hg : ∀ c ∈ g, isSpace c = true) (hspaced : g ≠ [] ∨ Spaced u) (hv : Solid v) :
    cut (u ++ (g ++ v)) = some (u ++ g, v) := by
  induction u with
  | nil => cases h
  | cons c rest ih =>
    rw [cut] at h
    rw [List.cons_append, cut]
    split at h
    · rename_i hend
      obtain ⟨hs, hr⟩ := Prod.mk.inj (Option.some.inj h)
      have hall : ∀ d ∈ rest, isSpace d = true := by
        rw [← (List.cons.inj hs).2]
        exact fun d hd => List.mem_takeWhile_imp hd
      have hboth : ∀ d ∈ rest ++ g, isSpace d = true := fun d hd =>
        (List.mem_append.mp hd).elim (hall d) (hg d)
      have hne : rest ++ g ≠ [] := by
        intro hnil
        obtain ⟨rfl, rfl⟩ := List.append_eq_nil_iff.mp hnil
        rcases hspaced with hg | hspaced
        · exact hg rfl
        · have hterminal := not_terminal_of_space (c := c) hspaced
          rw [hterminal] at hend
          exact Bool.false_ne_true hend
      have hhead : (rest ++ (g ++ v)).head?.all isSpace = true := by
        rw [← List.append_assoc, head_append hne]
        cases hrg : rest ++ g with
        | nil => rfl
        | cons d ds => exact hboth d (hrg ▸ List.mem_cons_self)
      rw [hhead, (Bool.and_eq_true_iff.mp hend).1, Bool.and_true, if_pos rfl, ← List.append_assoc,
        (takeWhile_gap hboth hv).1, (takeWhile_gap hboth hv).2]
      rfl
    · rename_i hend
      obtain ⟨q, hq, hp⟩ := Option.map_eq_some_iff.mp h
      obtain ⟨hs, hr⟩ := Prod.mk.inj hp
      have hcut : cut rest = some (rest, []) := by
        rw [hq, ← hr, ← (List.cons.inj hs).2]
      have hrest : rest ≠ [] := by
        rintro rfl
        cases hcut
      have hlast : g ≠ [] ∨ Spaced rest := hspaced.imp_right fun h => by
        unfold Spaced at h ⊢
        rw [← h]
        cases rest with
        | nil => exact absurd rfl hrest
        | cons d ds => rfl
      rw [head_append hrest, if_neg hend, ih hcut hlast]
      rfl

/-- Where no sentence ends, or one only as the buffer does, it goes on. -/
theorem cut_append_of_open {u : List Char} (v : List Char)
    (h : cut u = none ∨ cut u = some (u, []) ∧ ¬ Spaced u ∧ v ≠ [] ∧ Solid v) :
    cut (u ++ v) = (cut v).map fun p => (u ++ p.1, p.2) := by
  induction u with
  | nil =>
    rw [List.nil_append]
    cases cut v with
    | none => rfl
    | some p => rfl
  | cons c rest ih =>
    have hopen : (isTerminal c && (rest ++ v).head?.all isSpace) = false ∧
        (cut rest = none ∨ cut rest = some (rest, []) ∧ ¬ Spaced rest ∧ v ≠ [] ∧ Solid v) := by
      rw [cut] at h
      by_cases hend : (isTerminal c && rest.head?.all isSpace) = true
      · rw [if_pos hend] at h
        obtain ⟨heq, hspaced, hv, hsolid⟩ := h.resolve_left (Option.some_ne_none _)
        have hall : ∀ d ∈ rest, isSpace d = true := by
          rw [← (List.cons.inj (Prod.mk.inj (Option.some.inj heq)).1).2]
          exact fun d hd => List.mem_takeWhile_imp hd
        have hrest : rest = [] := by
          by_contra hne
          refine hspaced ?_
          unfold Spaced
          rw [List.getLast?_cons_of_ne_nil hne, List.getLast?_eq_some_getLast hne]
          exact hall _ (List.getLast_mem hne)
        subst hrest
        refine ⟨?_, Or.inl rfl⟩
        cases v with
        | nil => exact absurd rfl hv
        | cons d v =>
          have hd : isSpace d = false := hsolid
          rw [List.nil_append, List.head?_cons, Option.all_some, hd, Bool.and_false]
      · rw [if_neg hend] at h
        rw [Bool.not_eq_true] at hend
        by_cases hrest : rest = []
        · subst hrest
          rw [List.head?_nil, Option.all_none, Bool.and_true] at hend
          exact ⟨by rw [hend, Bool.false_and], Or.inl rfl⟩
        · refine ⟨by rw [head_append hrest, hend], ?_⟩
          rcases h with h | ⟨heq, hspaced, hv⟩
          · exact Or.inl (Option.map_eq_none_iff.mp h)
          · obtain ⟨q, hq, hp⟩ := Option.map_eq_some_iff.mp heq
            obtain ⟨hs, hr⟩ := Prod.mk.inj hp
            refine Or.inr ⟨by rw [hq, ← hr, ← (List.cons.inj hs).2], fun h => hspaced ?_, hv⟩
            unfold Spaced at h ⊢
            rw [List.getLast?_cons_of_ne_nil hrest]
            exact h
    rw [List.cons_append, cut, hopen.1, if_neg Bool.false_ne_true, ih hopen.2, Option.map_map]
    rfl

/-! ## All sentences -/

/-- The sentences that end in a buffer, and what is left in it. -/
def drain (buffer : List Char) : List (List Char) × List Char :=
  match _h : cut buffer with
  | none => ([], buffer)
  | some p => (p.1 :: (drain p.2).1, (drain p.2).2)
termination_by buffer.length
decreasing_by
  all_goals
    have hlength := congrArg List.length (cut_append _h)
    have hpos := List.length_pos_of_ne_nil (cut_ne_nil _h)
    rw [List.length_append] at hlength
    omega

theorem drain_of_none {b : List Char} (h : cut b = none) : drain b = ([], b) := by
  rw [drain]
  split
  · rfl
  · rename_i hsome
    rw [h] at hsome
    cases hsome

theorem drain_of_some {b : List Char} {p : List Char × List Char} (h : cut b = some p) :
    drain b = (p.1 :: (drain p.2).1, (drain p.2).2) := by
  rw [drain]
  split
  · rename_i hnone
    rw [h] at hnone
    cases hnone
  · rename_i q hsome
    rw [h] at hsome
    rw [Option.some.inj hsome]

/-- Sentence after sentence is cut off a buffer. -/
theorem drain_induction {P : List Char → Prop} (hnone : ∀ b, cut b = none → P b)
    (hsome : ∀ b p, cut b = some p → P p.2 → P b) (b : List Char) : P b := by
  induction hn : b.length using Nat.strong_induction_on generalizing b with
  | _ n ih =>
    cases h : cut b with
    | none => exact hnone b h
    | some p =>
      have hlength := congrArg List.length (cut_append h)
      have hpos := List.length_pos_of_ne_nil (cut_ne_nil h)
      rw [List.length_append] at hlength
      exact hsome b p h (ih p.2.length (by omega) p.2 rfl)

/-- What is left is flushed. -/
def flush (rest : List Char) : List (List Char) := if rest = [] then [] else [rest]

/-- The sentences of a text that comes as one. -/
def sentences (text : List Char) : List (List Char) := (drain text).1 ++ flush (drain text).2

theorem cut_drain (b : List Char) : cut (drain b).2 = none := by
  induction b using drain_induction with
  | hnone b h =>
    rw [drain_of_none h]
    exact h
  | hsome b p h ih =>
    rw [drain_of_some h]
    exact ih

theorem sentences_of_none {b : List Char} (h : cut b = none) : sentences b = flush b := by
  unfold sentences
  rw [drain_of_none h]
  rfl

theorem sentences_of_some {b : List Char} {p : List Char × List Char} (h : cut b = some p) :
    sentences b = p.1 :: sentences p.2 := by
  unfold sentences
  rw [drain_of_some h]
  rfl

theorem flatten_flush (b : List Char) : (flush b).flatten = b := by
  unfold flush
  split
  · rename_i h
    rw [h]
    rfl
  · exact List.flatten_singleton

theorem drain_append (b : List Char) : (drain b).1.flatten ++ (drain b).2 = b := by
  induction b using drain_induction with
  | hnone b h =>
    rw [drain_of_none h]
    rfl
  | hsome b p h ih =>
    rw [drain_of_some h, List.flatten_cons, List.append_assoc, ih]
    exact cut_append h

theorem flatten_sentences (b : List Char) : (sentences b).flatten = b := by
  unfold sentences
  rw [List.flatten_append, flatten_flush, drain_append]

theorem mem_drain_terminal {b s : List Char} (h : s ∈ (drain b).1) :
    ∃ c ∈ s, isTerminal c = true := by
  induction b using drain_induction with
  | hnone b hb =>
    rw [drain_of_none hb] at h
    cases h
  | hsome b p hb ih =>
    rw [drain_of_some hb] at h
    rcases List.mem_cons.mp h with rfl | h
    · exact cut_terminal hb
    · exact ih h

/-! ## A longer text -/

/-- What goes on in the middle of a sentence. -/
theorem sentences_append_of_open {u : List Char} (v : List Char)
    (h : (drain u).2 ≠ [] ∨ (drain u).1 = []) :
    sentences (u ++ v) = (drain u).1 ++ sentences ((drain u).2 ++ v) := by
  induction u using drain_induction with
  | hnone u hu => rw [drain_of_none hu, List.nil_append]
  | hsome u p hu ih =>
    rw [drain_of_some hu] at h ⊢
    have hrest : (drain p.2).2 ≠ [] := h.resolve_right (List.cons_ne_nil _ _)
    have hp : p.2 ≠ [] := by
      intro hnil
      rw [hnil, drain_of_none rfl] at hrest
      exact hrest rfl
    rw [sentences_of_some (cut_append_of_rest hu hp v), ih (Or.inl hrest), List.cons_append]

/-- A buffer that ends with a sentence, before what makes that sentence another one. -/
theorem sentences_append_last {u last : List Char} {init : List (List Char)}
    (hu : drain u = (init ++ [last], [])) (v : List Char) :
    cut last = some (last, []) ∧ sentences (u ++ v) = init ++ sentences (last ++ v) := by
  induction u using drain_induction generalizing init with
  | hnone u h =>
    rw [drain_of_none h] at hu
    exact absurd (Prod.mk.inj hu).1 (List.concat_ne_nil last init).symm
  | hsome u p h ih =>
    rw [drain_of_some h] at hu
    obtain ⟨hinit, hrest⟩ := Prod.mk.inj hu
    cases init with
    | nil =>
      rw [List.nil_append] at hinit
      obtain ⟨hfirst, hnone⟩ := List.cons.inj hinit
      have hp : p.2 = [] := by
        have happend := drain_append p.2
        rw [hnone, hrest] at happend
        exact happend.symm
      have hwhole : last = u := by
        rw [← hfirst, ← cut_append h, hp, List.append_nil]
      subst hwhole
      refine ⟨?_, rfl⟩
      rw [h, ← hp, ← hfirst]
    | cons first init =>
      obtain ⟨hfirst, hinit⟩ := List.cons.inj hinit
      have hp : p.2 ≠ [] := by
        intro hnil
        rw [hnil, drain_of_none rfl] at hinit
        exact absurd hinit (List.concat_ne_nil last init).symm
      obtain ⟨hlast, heq⟩ := ih (Prod.ext hinit hrest)
      refine ⟨hlast, ?_⟩
      rw [sentences_of_some (cut_append_of_rest h hp v), heq, List.cons_append, hfirst]

end Cerid.Verification.InlineGate
