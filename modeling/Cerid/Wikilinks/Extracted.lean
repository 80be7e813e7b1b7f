import Cerid.Wikilinks.Extract

/-!
# What is extracted

A text with its blocks blanked has a link wherever one stands in its brackets and no backtick
directly before them.  Two links never overlap, so that going over the text from left to right
misses none (`finditer_eq_links`).
-/

namespace Cerid.Wikilinks.Extract

/-! ## Blocks -/

/-- A text between two fences, which ends at the first that it meets. -/
def Fenced (c : Char) (body : Chars) : Prop :=
  isFence c ∧ ∀ p q, body ++ fence c = p ++ fence c ++ q → q = []

/-- A text and the same with its blocks blanked, from left to right. -/
inductive Blanked : Chars → Chars → Prop
  | nil : Blanked [] []
  | block {c : Char} {body rest out : Chars} : Fenced c body → Blanked rest out →
      Blanked (fence c ++ body ++ fence c ++ rest)
        (List.replicate (fence c ++ body ++ fence c).length ' ' ++ out)
  | char {c : Char} {rest out : Chars} :
      (∀ d body after, isFence d → c :: rest ≠ fence d ++ body ++ fence d ++ after) →
      Blanked rest out → Blanked (c :: rest) (c :: out)

theorem take_three {c : Char} {cs : Chars} (h : cs.take 3 = fence c) :
    cs = fence c ++ cs.drop 3 := by
  rw [← h, List.take_append_drop]

theorem closeFence_some {c : Char} {cs body rest : Chars}
    (h : closeFence c cs = some (body, rest)) :
    cs = body ++ fence c ++ rest ∧ ∀ p q, body ++ fence c = p ++ fence c ++ q → q = [] := by
  induction cs generalizing body with
  | nil => cases h
  | cons a cs ih =>
    rw [closeFence] at h
    split at h
    · next hfence =>
      obtain ⟨rfl, rfl⟩ := Prod.mk.inj (Option.some.inj h)
      refine ⟨take_three hfence, fun p q heq => ?_⟩
      have hlength := congrArg List.length heq
      simp only [List.nil_append, List.length_append] at hlength
      exact List.eq_nil_of_length_eq_zero (by omega)
    · next hfence =>
      obtain ⟨⟨body', rest'⟩, hclose, hpair⟩ := Option.map_eq_some_iff.mp h
      obtain ⟨rfl, rfl⟩ := Prod.mk.inj hpair
      obtain ⟨hcs, hfirst⟩ := ih hclose
      refine ⟨by rw [hcs]; rfl, fun p q heq => ?_⟩
      cases p with
      | nil =>
        refine absurd ?_ hfence
        have hstart : a :: cs = fence c ++ (q ++ rest') := by
          rw [hcs, ← List.append_assoc, ← List.nil_append (fence c), ← heq]
          simp
        rw [hstart]
        rfl
      | cons b p => exact hfirst p q (List.cons.inj heq).2

theorem closeFence_none {c : Char} {cs : Chars} (h : closeFence c cs = none) (p q : Chars) :
    cs ≠ p ++ fence c ++ q := by
  induction cs generalizing p with
  | nil =>
    intro heq
    have hlength := congrArg List.length heq
    simp [fence] at hlength
  | cons a cs ih =>
    rw [closeFence] at h
    split at h
    · cases h
    · next hfence =>
      cases p with
      | nil =>
        intro heq
        rw [heq] at hfence
        exact hfence rfl
      | cons b p =>
        intro heq
        exact ih (Option.map_eq_none_iff.mp h) p (List.cons.inj heq).2

theorem blockAt_some {cs after : Chars} {len : Nat} (h : blockAt cs = some (len, after)) :
    ∃ c body, Fenced c body ∧ cs = fence c ++ body ++ fence c ++ after ∧
      len = (fence c ++ body ++ fence c).length := by
  unfold blockAt at h
  split at h
  · next a b c rest =>
    split at h
    · next hfence =>
      obtain ⟨hfence, rfl, rfl⟩ := hfence
      obtain ⟨⟨body, rest'⟩, hclose, hpair⟩ := Option.map_eq_some_iff.mp h
      obtain ⟨rfl, rfl⟩ := Prod.mk.inj hpair
      obtain ⟨hrest, hfirst⟩ := closeFence_some hclose
      refine ⟨c, body, ⟨hfence, hfirst⟩, ?_, ?_⟩
      · rw [hrest]
        simp [fence]
      · simp [fence]
    · cases h
  · cases h

theorem blockAt_none {cs : Chars} (h : blockAt cs = none) (d : Char) (body after : Chars)
    (hd : isFence d) : cs ≠ fence d ++ body ++ fence d ++ after := by
  rintro rfl
  have hclose : closeFence d (body ++ fence d ++ after) = none := by
    have hcs : fence d ++ body ++ fence d ++ after = d :: d :: d :: (body ++ fence d ++ after) := by
      simp [fence]
    rw [hcs, blockAt, if_pos ⟨hd, rfl, rfl⟩] at h
    exact Option.map_eq_none_iff.mp h
  exact closeFence_none hclose body after rfl

theorem blanked_blank {n : Nat} {cs : Chars} (h : cs.length ≤ n) : Blanked cs (blank n cs) := by
  induction n generalizing cs with
  | zero =>
    rw [List.eq_nil_of_length_eq_zero (Nat.le_zero.mp h)]
    exact .nil
  | succ n ih =>
    cases cs with
    | nil => exact .nil
    | cons c rest =>
      rw [blank]
      split
      · next len after hblock =>
        obtain ⟨d, body, hfenced, hcs, rfl⟩ := blockAt_some hblock
        rw [hcs] at h ⊢
        refine .block hfenced (ih ?_)
        simp [fence] at h
        omega
      · next hblock => exact .char (blockAt_none hblock) (ih (Nat.le_of_succ_le_succ h))

theorem Blanked.length_eq {cs out : Chars} (h : Blanked cs out) : out.length = cs.length := by
  induction h with
  | nil => rfl
  | block _ _ ih => simp only [List.length_append, List.length_replicate, ih]
  | char _ _ ih => rw [List.length_cons, List.length_cons, ih]

theorem blanked_stripCodeBlocks (text : Chars) : Blanked text (stripCodeBlocks text) :=
  blanked_blank (Nat.le_refl _)

/-! ## Links in their brackets -/

/-- A part of a link, up to a character that it does not hold. -/
def Part (stops cs : Chars) : Prop := cs ≠ [] ∧ ∀ c ∈ cs, c ∉ stops

/-- The parts of a link are such as the pattern takes. -/
structure Form.Shaped (f : Form) : Prop where
  target : Part targetStops f.target
  heading : ∀ h ∈ f.heading, Part headingStops h
  displayAlias : ∀ a ∈ f.displayAlias, Part aliasStops a

theorem part_some {stops cs taken rest : Chars} (h : part stops cs = some (taken, rest)) :
    cs = taken ++ rest ∧ Part stops taken := by
  unfold part at h
  split at h
  · cases h
  · next hne =>
    obtain ⟨rfl, rfl⟩ := Prod.mk.inj (Option.some.inj h)
    refine ⟨(List.takeWhile_append_dropWhile).symm, hne, fun c hc => ?_⟩
    have hholds : holds stops c = true := List.mem_takeWhile_imp hc
    exact of_decide_eq_true hholds

theorem part_append {stops taken : Chars} (h : Part stops taken) {c : Char} (hc : c ∈ stops)
    (rest : Chars) : part stops (taken ++ c :: rest) = some (taken, c :: rest) := by
  have htaken : ∀ a ∈ taken, holds stops a = true := fun a ha => decide_eq_true (h.2 a ha)
  have hstop : ¬ holds stops c = true := fun hnot => of_decide_eq_true hnot hc
  rw [part, List.takeWhile_append_of_pos htaken, List.dropWhile_append_of_pos htaken,
    List.takeWhile_cons_of_neg hstop, List.dropWhile_cons_of_neg hstop, List.append_nil,
    if_neg h.1]

theorem optionalPart_some {marker : Char} {stops cs rest : Chars} {taken : Option Chars}
    (h : optionalPart marker stops cs = some (taken, rest)) :
    cs = taken.elim [] (marker :: ·) ++ rest ∧ ∀ t ∈ taken, Part stops t := by
  cases cs with
  | nil =>
    obtain ⟨rfl, rfl⟩ := Prod.mk.inj (Option.some.inj h)
    exact ⟨rfl, fun t ht => by cases ht⟩
  | cons c cs =>
    rw [optionalPart] at h
    split at h
    · next hmarker =>
      obtain ⟨⟨t, rest'⟩, hpart, hpair⟩ := Option.map_eq_some_iff.mp h
      obtain ⟨rfl, rfl⟩ := Prod.mk.inj hpair
      obtain ⟨hcs, hshape⟩ := part_some hpart
      refine ⟨by rw [hcs, hmarker]; rfl, fun t' ht' => ?_⟩
      rwa [← Option.some.inj ht']
    · obtain ⟨rfl, rfl⟩ := Prod.mk.inj (Option.some.inj h)
      exact ⟨rfl, fun t ht => by cases ht⟩

theorem optionalPart_append {marker : Char} {stops : Chars} {taken : Option Chars}
    (h : ∀ t ∈ taken, Part stops t) {c : Char} (hc : c ∈ stops) (hmarker : c ≠ marker)
    (rest : Chars) :
    optionalPart marker stops (taken.elim [] (marker :: ·) ++ c :: rest) =
      some (taken, c :: rest) := by
  cases taken with
  | none =>
    show optionalPart marker stops (c :: rest) = _
    rw [optionalPart, if_neg hmarker]
  | some t =>
    show optionalPart marker stops (marker :: (t ++ c :: rest)) = _
    rw [optionalPart, if_pos rfl, part_append (h t rfl) hc]
    rfl

theorem opening_some {cs rest : Chars} (h : opening cs = some rest) : cs = '[' :: '[' :: rest := by
  unfold opening at h
  split at h
  · obtain rfl := Option.some.inj h
    rfl
  · cases h

theorem closing_some {cs rest : Chars} (h : closing cs = some rest) : cs = ']' :: ']' :: rest := by
  unfold closing at h
  split at h
  · obtain rfl := Option.some.inj h
    rfl
  · cases h

theorem parseLink_some {cs after : Chars} {f : Form} (h : parseLink cs = some (f, after)) :
    cs = f.text ++ after ∧ f.Shaped := by
  obtain ⟨cs₁, hopening, h⟩ := Option.bind_eq_some_iff.mp h
  obtain ⟨⟨target, cs₂⟩, htarget, h⟩ := Option.bind_eq_some_iff.mp h
  obtain ⟨⟨heading, cs₃⟩, hheading, h⟩ := Option.bind_eq_some_iff.mp h
  obtain ⟨⟨displayAlias, cs₄⟩, halias, h⟩ := Option.bind_eq_some_iff.mp h
  obtain ⟨cs₅, hclosing, h⟩ := Option.bind_eq_some_iff.mp h
  obtain ⟨rfl, rfl⟩ := Prod.mk.inj (Option.some.inj h)
  obtain ⟨hcs₁, htarget⟩ := part_some htarget
  obtain ⟨hcs₂, hheading⟩ := optionalPart_some hheading
  obtain ⟨hcs₃, halias⟩ := optionalPart_some halias
  refine ⟨?_, htarget, hheading, halias⟩
  rw [opening_some hopening, hcs₁, hcs₂, hcs₃, closing_some hclosing, Form.text, Form.inner]
  simp only [List.cons_append, List.append_assoc, List.nil_append]

theorem parseLink_text {f : Form} (h : f.Shaped) (after : Chars) :
    parseLink (f.text ++ after) = some (f, after) := by
  obtain ⟨target, heading, displayAlias⟩ := f
  obtain ⟨htarget, hheading, halias⟩ := h
  obtain ⟨c, tail, hc, htail⟩ : ∃ c tail, (c = '|' ∨ c = ']') ∧
      displayAlias.elim [] ('|' :: ·) ++ ']' :: ']' :: after = c :: tail := by
    cases displayAlias with
    | none => exact ⟨']', _, Or.inr rfl, rfl⟩
    | some a => exact ⟨'|', _, Or.inl rfl, rfl⟩
  obtain ⟨d, tail', hd, htail'⟩ : ∃ d tail', d ∈ targetStops ∧
      heading.elim [] ('#' :: ·) ++ c :: tail = d :: tail' := by
    cases heading with
    | none =>
      refine ⟨c, tail, ?_, rfl⟩
      rcases hc with rfl | rfl <;> decide
    | some h => exact ⟨'#', _, by decide, rfl⟩
  have htext : (Form.mk target heading displayAlias).text ++ after =
      '[' :: '[' :: (target ++ d :: tail') := by
    rw [← htail', ← htail, Form.text, Form.inner]
    simp only [List.cons_append, List.append_assoc, List.nil_append]
  have hheadingPart : optionalPart '#' headingStops (d :: tail') = some (heading, c :: tail) := by
    rw [← htail']
    rcases hc with rfl | rfl
    · exact optionalPart_append hheading (by decide) (by decide) tail
    · exact optionalPart_append hheading (by decide) (by decide) tail
  have haliasPart : optionalPart '|' aliasStops (c :: tail) =
      some (displayAlias, ']' :: ']' :: after) := by
    rw [← htail]
    exact optionalPart_append halias (by decide) (by decide) _
  rw [htext, parseLink, opening, Option.bind_eq_bind, Option.bind_some, part_append htarget hd]
  simp only [Option.bind_eq_bind, Option.bind_some, hheadingPart, haliasPart, closing]
  rfl

/-! ## Links one by one -/

/-- A link of a text, with the place of its first bracket. -/
structure Link where
  pos : Nat
  isEmbed : Bool
  form : Form

def Link.match (l : Link) : Match := ⟨l.isEmbed, l.form⟩

/-- A `!` before the brackets that no backtick stands before. -/
def embeds (before : Chars) : Bool := before.head? = some '!' && before.tail.head? ≠ some '\x60'

/-- The link whose brackets open here. -/
def linkAt (before cs : Chars) : Option Link :=
  if before.head? = some '\x60' then none
  else (parseLink cs).map fun p => ⟨before.length, embeds before, p.1⟩

/-- The links at all places. -/
def links (before : Chars) : Chars → List Link
  | [] => []
  | c :: rest => (linkAt before (c :: rest)).toList ++ links (c :: before) rest

theorem parseLink_of_head {cs : Chars} (h : cs.head? ≠ some '[') : parseLink cs = none := by
  cases hparse : parseLink cs with
  | none => rfl
  | some p =>
    obtain ⟨hcs, _⟩ := @parseLink_some cs p.2 p.1 hparse
    rw [hcs] at h
    exact absurd rfl h

theorem linkAt_of_parse {before cs : Chars} (h : parseLink cs = none) :
    linkAt before cs = none := by
  rw [linkAt, h]
  split <;> rfl

/-- Where no bracket opens there is no link. -/
theorem links_append {skipped : Chars} (h : '[' ∉ skipped) (before cs : Chars) :
    links before (skipped ++ cs) = links (skipped.reverse ++ before) cs := by
  induction skipped generalizing before with
  | nil => rfl
  | cons c rest ih =>
    rw [List.mem_cons, not_or] at h
    have hnone : parseLink (c :: (rest ++ cs)) = none :=
      parseLink_of_head fun hhead => h.1 (Option.some.inj hhead).symm
    rw [List.cons_append, links, linkAt_of_parse hnone, ih h.2, List.reverse_cons,
      List.append_assoc]
    rfl

theorem Form.Shaped.not_mem_inner {f : Form} (h : f.Shaped) : '[' ∉ f.inner := by
  have hopen : ∀ stops cs, '[' ∈ stops → Part stops cs → '[' ∉ cs :=
    fun stops cs hstop hpart hmem => hpart.2 '[' hmem hstop
  have hoptional : ∀ (marker : Char) (stops : Chars) (taken : Option Chars), marker ≠ '[' →
      '[' ∈ stops → (∀ t ∈ taken, Part stops t) → '[' ∉ taken.elim [] (marker :: ·) := by
    intro marker stops taken hmarker hstop hpart
    cases taken with
    | none => exact List.not_mem_nil
    | some t =>
      exact fun hmem => (List.mem_cons.mp hmem).elim (fun heq => hmarker heq.symm)
        (hopen stops t hstop (hpart t rfl))
  rw [Form.inner]
  simp only [List.mem_append, not_or]
  exact ⟨⟨⟨hopen _ _ (by decide) h.target, hoptional _ _ _ (by decide) (by decide) h.heading⟩,
    hoptional _ _ _ (by decide) (by decide) h.displayAlias⟩, by decide⟩

/-- In its own text a link is the only one. -/
theorem links_text {f : Form} (h : f.Shaped) (before after : Chars) :
    links before (f.text ++ after) =
      (linkAt before (f.text ++ after)).toList ++ links (f.text.reverse ++ before) after := by
  have hinner : f.inner.head? ≠ some '[' := by
    intro hhead
    exact h.not_mem_inner (List.mem_of_mem_head? hhead)
  have hnone : parseLink ('[' :: (f.inner ++ after)) = none := by
    cases hparse : parseLink ('[' :: (f.inner ++ after)) with
    | none => rfl
    | some p =>
      obtain ⟨hcs, _⟩ := @parseLink_some _ p.2 p.1 hparse
      have hhead : (f.inner ++ after).head? = some '[' := congrArg (fun cs => cs.tail.head?) hcs
      have hne : f.inner ≠ [] := List.append_ne_nil_of_right_ne_nil _ (List.cons_ne_nil _ _)
      rw [List.head?_append_of_ne_nil _ hne] at hhead
      exact absurd hhead hinner
  show (linkAt before ('[' :: '[' :: (f.inner ++ after))).toList ++
    ((linkAt ('[' :: before) ('[' :: (f.inner ++ after))).toList ++
      links ('[' :: '[' :: before) (f.inner ++ after)) = _
  rw [linkAt_of_parse hnone, links_append h.not_mem_inner]
  simp [Form.text]

/-! ## All of them -/

/-- An embed is matched from its `!` on. -/
def Unmatched (before cs : Chars) : Prop :=
  before.head? = some '!' → before.tail.head? ≠ some '\x60' → parseLink cs = none

theorem Form.reverse_text (f : Form) : ∃ cs, f.text.reverse = ']' :: cs := by
  rw [Form.text, Form.inner, List.reverse_cons, List.reverse_cons, List.reverse_append]
  exact ⟨_, rfl⟩

theorem unmatched_after (f : Form) (before after : Chars) :
    Unmatched (f.text.reverse ++ before) after := by
  obtain ⟨cs, hcs⟩ := f.reverse_text
  rw [hcs]
  intro hhead
  cases Option.some.inj hhead

theorem matchAt_bang {before : Chars} (h : before.head? ≠ some '\x60') (rest : Chars) :
    matchAt before ('!' :: rest) = (parseLink rest).map fun p => (⟨true, p.1⟩, p.2) := by
  simp [matchAt, h]

theorem matchAt_other {before : Chars} (h : before.head? ≠ some '\x60') {c : Char} (hc : c ≠ '!')
    (rest : Chars) :
    matchAt before (c :: rest) = (parseLink (c :: rest)).map fun p => (⟨false, p.1⟩, p.2) := by
  simp [matchAt, h, hc]

theorem length_text (f : Form) : f.text.length ≠ 0 := Nat.succ_ne_zero _

/-- The matches are the links, one after the other; the induction is on the characters that are
left. -/
theorem finditer_eq_links {n : Nat} {before cs : Chars} (h : cs.length ≤ n)
    (hbefore : Unmatched before cs) :
    finditer n before cs = (links before cs).map Link.match := by
  induction n generalizing before cs with
  | zero =>
    rw [List.eq_nil_of_length_eq_zero (Nat.le_zero.mp h)]
    rfl
  | succ n ih =>
    cases cs with
    | nil => rfl
    | cons c rest =>
      rw [finditer]
      by_cases hback : before.head? = some '\x60'
      · have hmatch : matchAt before (c :: rest) = none := if_pos hback
        have hlink : linkAt before (c :: rest) = none := if_pos hback
        rw [hmatch, links, hlink]
        refine ih (Nat.le_of_succ_le_succ h) fun _ hnot => absurd ?_ hnot
        exact hback
      · by_cases hbang : c = '!'
        · subst hbang
          have hlink : linkAt before ('!' :: rest) = none :=
            linkAt_of_parse (parseLink_of_head (by simp))
          rw [links, hlink, Option.toList_none, List.nil_append]
          cases hparse : parseLink rest with
          | none =>
            rw [matchAt_bang hback, hparse]
            exact ih (Nat.le_of_succ_le_succ h) fun _ _ => hparse
          | some p =>
            obtain ⟨f, after⟩ := p
            obtain ⟨rfl, hshaped⟩ := parseLink_some hparse
            have hembeds : embeds ('!' :: before) = true := by
              simp [embeds, hback]
            have hhere : linkAt ('!' :: before) (f.text ++ after) =
                some ⟨before.length + 1, true, f⟩ := by
              rw [linkAt, if_neg (by simp), hparse, hembeds]
              rfl
            rw [matchAt_bang hback, hparse, links_text hshaped, hhere]
            have hafter : (Match.mk true f).text.reverse ++ before =
                f.text.reverse ++ '!' :: before := by
              simp [Match.text]
            simp only [Option.map_some, hafter]
            refine congrArg (_ :: ·) (ih ?_ (unmatched_after f _ after))
            simp only [List.length_cons, List.length_append] at h
            omega
        · rw [matchAt_other hback hbang]
          cases hparse : parseLink (c :: rest) with
          | none =>
            rw [links, linkAt_of_parse hparse]
            exact ih (Nat.le_of_succ_le_succ h)
              fun hhead => absurd (Option.some.inj hhead) hbang
          | some p =>
            obtain ⟨f, after⟩ := p
            obtain ⟨hcs, hshaped⟩ := parseLink_some hparse
            have hembeds : embeds before = false := by
              by_contra hnot
              rw [Bool.not_eq_false, embeds, Bool.and_eq_true, decide_eq_true_eq,
                decide_eq_true_eq] at hnot
              rw [hbefore hnot.1 hnot.2] at hparse
              cases hparse
            have hhere : linkAt before (c :: rest) = some ⟨before.length, false, f⟩ := by
              rw [linkAt, if_neg hback, hparse, hembeds]
              rfl
            rw [hcs] at hhere h ⊢
            rw [links_text hshaped, hhere]
            refine congrArg (_ :: ·) (ih ?_ (unmatched_after f _ after))
            have hne := length_text f
            rw [List.length_append] at h
            show after.length ≤ n
            omega

/-! ## Places -/

/-- A link stands in its brackets, no backtick directly before them. -/
structure Link.In (l : Link) (text : Chars) : Prop where
  place : ∃ before after, text = before ++ l.form.text ++ after ∧ before.length = l.pos ∧
    before.getLast? ≠ some '\x60' ∧
    (l.isEmbed = true ↔ ∃ front, before = front ++ ['!'] ∧ front.getLast? ≠ some '\x60')
  shaped : l.form.Shaped

theorem linkAt_some {before cs : Chars} {l : Link} :
    linkAt before cs = some l ↔ before.head? ≠ some '\x60' ∧
      ∃ after, cs = l.form.text ++ after ∧ l.form.Shaped ∧ l.pos = before.length ∧
        l.isEmbed = embeds before := by
  by_cases hback : before.head? = some '\x60'
  · rw [linkAt, if_pos hback]
    exact iff_of_false nofun fun h => h.1 hback
  · rw [linkAt, if_neg hback]
    constructor
    · intro h
      obtain ⟨⟨f, after⟩, hparse, rfl⟩ := Option.map_eq_some_iff.mp h
      obtain ⟨hcs, hshaped⟩ := parseLink_some hparse
      exact ⟨hback, after, hcs, hshaped, rfl, rfl⟩
    · rintro ⟨_, after, rfl, hshaped, hpos, hembed⟩
      obtain ⟨pos, isEmbed, f⟩ := l
      rw [parseLink_text hshaped]
      cases hpos
      cases hembed
      rfl

/-- The links from a place on are those whose brackets open there or later. -/
theorem mem_links {before cs : Chars} {l : Link} :
    l ∈ links before cs ↔ ∃ front back, cs = front ++ back ∧
      linkAt (front.reverse ++ before) back = some l := by
  induction cs generalizing before with
  | nil =>
    refine iff_of_false List.not_mem_nil ?_
    rintro ⟨front, back, hcs, hlink⟩
    obtain ⟨_, rfl⟩ := List.nil_eq_append_iff.mp hcs
    obtain ⟨_, after, hnil, _⟩ := linkAt_some.mp hlink
    cases hnil
  | cons c rest ih =>
    rw [links, List.mem_append, Option.mem_toList, ih]
    constructor
    · rintro (hhere | ⟨front, back, rfl, hlink⟩)
      · exact ⟨[], c :: rest, rfl, hhere⟩
      · refine ⟨c :: front, back, rfl, ?_⟩
        rwa [List.reverse_cons, List.append_assoc]
    · rintro ⟨front, back, hcs, hlink⟩
      cases front with
      | nil =>
        rw [List.nil_append] at hcs
        rw [← hcs] at hlink
        exact Or.inl hlink
      | cons d front =>
        obtain ⟨rfl, rfl⟩ := List.cons.inj hcs
        rw [List.reverse_cons, List.append_assoc] at hlink
        exact Or.inr ⟨front, back, rfl, hlink⟩

theorem pairwise_links (before cs : Chars) :
    (links before cs).Pairwise (fun l l' => l.pos < l'.pos) ∧
      ∀ l ∈ links before cs, before.length ≤ l.pos := by
  induction cs generalizing before with
  | nil => exact ⟨List.Pairwise.nil, fun l hl => absurd hl List.not_mem_nil⟩
  | cons c rest ih =>
    obtain ⟨hpair, hle⟩ := ih (c :: before)
    have hlater : ∀ l ∈ links (c :: before) rest, before.length < l.pos := fun l hl => hle l hl
    rw [links]
    cases hlink : linkAt before (c :: rest) with
    | none => exact ⟨hpair, fun l hl => Nat.le_of_lt (hlater l hl)⟩
    | some l =>
      obtain ⟨_, _, _, _, hpos, _⟩ := linkAt_some.mp hlink
      refine ⟨List.pairwise_cons.mpr ⟨fun l' hl' => ?_, hpair⟩, List.forall_mem_cons.mpr
        ⟨Nat.le_of_eq hpos.symm, fun l hl => Nat.le_of_lt (hlater l hl)⟩⟩
      rw [hpos]
      exact hlater l' hl'

theorem embeds_reverse (before : Chars) :
    embeds before.reverse = true ↔
      ∃ front, before = front ++ ['!'] ∧ front.getLast? ≠ some '\x60' := by
  rw [embeds, Bool.and_eq_true, decide_eq_true_eq, decide_eq_true_eq, List.head?_reverse]
  constructor
  · rintro ⟨hbang, hback⟩
    obtain ⟨front, rfl⟩ := List.getLast?_eq_some_iff.mp hbang
    refine ⟨front, rfl, ?_⟩
    rwa [List.reverse_append, List.reverse_singleton, List.singleton_append, List.tail_cons,
      List.head?_reverse] at hback
  · rintro ⟨front, rfl, hback⟩
    refine ⟨List.getLast?_concat, ?_⟩
    rwa [List.reverse_append, List.reverse_singleton, List.singleton_append, List.tail_cons,
      List.head?_reverse]

theorem mem_links_iff (text : Chars) (l : Link) : l ∈ links [] text ↔ l.In text := by
  rw [mem_links]
  constructor
  · rintro ⟨before, back, rfl, hlink⟩
    rw [List.append_nil] at hlink
    obtain ⟨hback, after, rfl, hshaped, hpos, hembed⟩ := linkAt_some.mp hlink
    rw [List.head?_reverse] at hback
    refine ⟨⟨before, after, (List.append_assoc _ _ _).symm, ?_, hback, ?_⟩, hshaped⟩
    · rw [hpos, List.length_reverse]
    · rw [hembed, embeds_reverse]
  · rintro ⟨⟨before, after, rfl, hpos, hback, hembed⟩, hshaped⟩
    refine ⟨before, l.form.text ++ after, List.append_assoc _ _ _, ?_⟩
    rw [List.append_nil]
    refine linkAt_some.mpr ⟨?_, after, rfl, hshaped, ?_, ?_⟩
    · rwa [List.head?_reverse]
    · rw [List.length_reverse, hpos]
    · exact Bool.eq_iff_iff.mpr (hembed.trans (embeds_reverse before).symm)

/-- What the graph is given of a section is what was found in its text. -/
theorem extractWikilinks_graph {text : Chars} (h : ¬ MAX_INPUT_BYTES ≤ byteLength text) :
    extractWikilinks text = Wikilinks.extractWikilinks
      ((finditer text.length [] (stripCodeBlocks text)).filterMap Match.ref) := by
  rw [Wikilinks.extractWikilinks, extractWikilinks, if_neg h, firstOf_id]
  split
  · next hnil =>
    rw [hnil]
    rfl
  · simp

end Cerid.Wikilinks.Extract
