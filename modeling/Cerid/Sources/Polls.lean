import Cerid.Lib.Run
import Cerid.Sources.Feed
import Mathlib.Data.List.Nodup

/-!
# Polls of a feed

A poll goes through the entries above its cursor, and writes the cursor behind each entry
that was ingested; it may stop anywhere, and the next one may read any cursor that was
written.  The feed lists its entries newest first and drops the oldest.  No entry is lost
(`listed_ingested`); where no cursor is lost and none is old, no entry comes twice
(`ingested_once`), and a backlog is worked off from its oldest end (`backlog_drained`).
-/

namespace Cerid.Sources.Feed

/-! ## One poll -/

/-- What becomes of an entry that is handed on. -/
inductive Outcome where
  /-- The ingest raised. -/
  | refused
  /-- The entry is there, and the process stopped. -/
  | cut
  /-- The cursor was written, unless the write failed. -/
  | stored (kept : Bool)
deriving DecidableEq

/-- The calls of a poll, and the cursors that were written. -/
structure Trace where
  calls : List Call
  cursors : List Cursor

def Entry.HasText (e : Entry) : Prop := e.text ≠ []

instance (e : Entry) : Decidable e.HasText := inferInstanceAs (Decidable (e.text ≠ []))

section Poll

variable (sourceId : Chars) (config : Config) (limit : Nat)

/-- The loop of `fetch_since` under the loop of `_run_source_poll`, after `n` events.  Where
no outcome is left the process has stopped. -/
def deliver (n : Nat) : List Entry → List Outcome → Trace
  | [], _ => ⟨[], []⟩
  | e :: rest, outcomes =>
    if ¬ e.HasText then deliver n rest outcomes
    else
      match outcomes with
      | [] | .refused :: _ => ⟨[], []⟩
      | .cut :: _ => ⟨[e.call sourceId config], []⟩
      | .stored kept :: more =>
        let next := if limit ≤ n + 1 then ⟨[], []⟩ else deliver (n + 1) rest more
        ⟨e.call sourceId config :: next.calls, (if kept then [e.cursor] else []) ++ next.cursors⟩

end Poll

structure Poll where
  /-- An older cursor that is read in place of the last one. -/
  stale : Option Cursor
  response : Option Chars
  outcomes : List Outcome

/-- `window` is the feed that was read last, and `published` the guids that have been in one,
newest first. -/
structure World where
  window : List Entry
  published : List Chars
  ingested : List Call
  cursors : List Cursor

/-- A source that was never polled. -/
def World.start : World := ⟨[], [], [], []⟩

def World.lastCursor (w : World) : Cursor := w.cursors.getLast?.getD Cursor.empty

def Poll.cursor (p : Poll) (w : World) : Cursor := p.stale.getD w.lastCursor

section Step

variable (R : Readers) (sourceId : Chars) (config : Config) (limit : Nat)

/-- The feed that a poll is answered with. -/
def Poll.feed (p : Poll) : List Entry :=
  match p.response with
  | none => []
  | some body =>
    if Text.strip config.url = [] then [] else feedOf R (body.take MAX_FEED_BYTES)

def Poll.trace (p : Poll) (w : World) : Trace :=
  deliver sourceId config limit 0 (entriesOf R config p.response (p.cursor w)) p.outcomes

def World.step (w : World) (p : Poll) : World :=
  let feed := p.feed R config
  { window := if feed = [] then w.window else feed
    published := (feed.map Entry.guid).filter (· ∉ w.published) ++ w.published
    ingested := w.ingested ++ (p.trace R sourceId config limit w).calls
    cursors := w.cursors ++ (p.trace R sourceId config limit w).cursors }

/-- New entries stand above the ones that were there, of which the last may be gone; and a
guid stands once. -/
def Continues (w : World) (feed : List Entry) : Prop :=
  (feed.map Entry.guid).Nodup ∧ ∃ new kept, feed = new ++ kept ∧ kept <+: w.window ∧
    ∀ e ∈ new, e.guid ∉ w.published

/-- The feed goes on from the one before, and the cursor is one that was written. -/
def World.Allowed (w : World) (p : Poll) : Prop :=
  (p.feed R config = [] ∨ Continues w (p.feed R config)) ∧
    ∀ c ∈ p.stale, c = Cursor.empty ∨ c ∈ w.cursors

/-- Besides, the last cursor is read, and none is lost after an ingest. -/
def World.InOrder (w : World) (p : Poll) : Prop :=
  w.Allowed R config p ∧ p.stale = none ∧ ∀ o ∈ p.outcomes, o = .refused ∨ o = .stored true

end Step

/-! ## What a poll goes through -/

section Deliver

variable {sourceId : Chars} {config : Config} {limit : Nat}

/-- An entry whose cursor was written is ingested, and so is what stands before it. -/
theorem deliver_cursors (entries : List Entry) (outcomes : List Outcome) (n : Nat) :
    ∀ c ∈ (deliver sourceId config limit n entries outcomes).cursors,
      ∃ before e after, entries = before ++ e :: after ∧ c = e.cursor ∧
        ∀ x ∈ before ++ [e], x.HasText →
          x.call sourceId config ∈ (deliver sourceId config limit n entries outcomes).calls := by
  induction entries generalizing n outcomes with
  | nil => exact fun c hc => absurd hc List.not_mem_nil
  | cons e rest ih =>
    intro c hc
    unfold deliver at hc ⊢
    by_cases he : e.HasText
    · rw [if_neg (not_not_intro he)] at hc ⊢
      cases outcomes with
      | nil => exact absurd hc List.not_mem_nil
      | cons o more =>
        cases o with
        | refused => exact absurd hc List.not_mem_nil
        | cut => exact absurd hc List.not_mem_nil
        | stored kept =>
          dsimp only at hc ⊢
          rcases List.mem_append.mp hc with hc | hc
          · have hkept : c = e.cursor := by
              cases kept with
              | true => exact List.mem_singleton.mp hc
              | false => exact absurd hc List.not_mem_nil
            refine ⟨[], e, rest, rfl, hkept, fun x hx _ => ?_⟩
            obtain rfl := List.mem_singleton.mp hx
            exact List.mem_cons_self
          · by_cases hn : limit ≤ n + 1
            · rw [if_pos hn] at hc
              exact absurd hc List.not_mem_nil
            · rw [if_neg hn] at hc ⊢
              obtain ⟨before, e', after, heq, hcur, hcalls⟩ := ih more (n + 1) c hc
              refine ⟨e :: before, e', after, by rw [heq, List.cons_append], hcur, ?_⟩
              intro x hx hxt
              rcases List.mem_cons.mp hx with rfl | hx
              · exact List.mem_cons_self
              · exact List.mem_cons_of_mem _ (hcalls x hx hxt)
    · rw [if_pos he] at hc ⊢
      obtain ⟨before, e', after, heq, hcur, hcalls⟩ := ih outcomes n c hc
      refine ⟨e :: before, e', after, by rw [heq, List.cons_append], hcur, ?_⟩
      intro x hx hxt
      rcases List.mem_cons.mp hx with rfl | hx
      · exact absurd hxt he
      · exact hcalls x hx hxt

variable (sourceId config limit) in
/-- Where every cursor is kept, a poll that ingests anything ends with the cursor behind the
last entry that it ingested. -/
theorem deliver_in_order (entries : List Entry) (outcomes : List Outcome) (n : Nat)
    (hok : ∀ o ∈ outcomes, o = .refused ∨ o = .stored true) :
    deliver sourceId config limit n entries outcomes = ⟨[], []⟩ ∨
      ∃ before e after, entries = before ++ e :: after ∧
        (deliver sourceId config limit n entries outcomes).cursors.getLast? = some e.cursor ∧
        (deliver sourceId config limit n entries outcomes).calls =
          ((before ++ [e]).filter (fun x => x.HasText)).map (Entry.call sourceId config) := by
  induction entries generalizing n outcomes with
  | nil => exact Or.inl rfl
  | cons e rest ih =>
    unfold deliver
    by_cases he : e.HasText
    · rw [if_neg (not_not_intro he)]
      cases outcomes with
      | nil => exact Or.inl rfl
      | cons o more =>
        rcases hok o List.mem_cons_self with rfl | rfl
        · exact Or.inl rfl
        · right
          dsimp only
          have hnext := ih more (n + 1) (fun o ho => hok o (List.mem_cons_of_mem _ ho))
          by_cases hn : limit ≤ n + 1
          · rw [if_pos hn]
            exact ⟨[], e, rest, rfl, rfl, by simp [he]⟩
          · rw [if_neg hn]
            rcases hnext with hnext | ⟨before, e', after, heq, hlast, hcalls⟩
            · rw [hnext]
              exact ⟨[], e, rest, rfl, rfl, by simp [he]⟩
            · refine ⟨e :: before, e', after, by rw [heq, List.cons_append], ?_, ?_⟩
              · rw [List.getLast?_append, hlast]
                rfl
              · rw [hcalls]
                simp [he]
    · rw [if_pos he]
      rcases ih outcomes n hok with hnext | ⟨before, e', after, heq, hlast, hcalls⟩
      · exact Or.inl hnext
      · refine Or.inr ⟨e :: before, e', after, by rw [heq, List.cons_append], hlast, ?_⟩
        rw [hcalls]
        simp [he]

/-- Where nothing goes wrong, the entries with a text are ingested up to the limit. -/
theorem deliver_calls (entries : List Entry) (outcomes : List Outcome) {n : Nat} (hn : n < limit)
    (hok : ∀ o ∈ outcomes, ∃ kept, o = .stored kept) :
    (deliver sourceId config limit n entries outcomes).calls =
      ((entries.filter (fun x => x.HasText)).take (min outcomes.length (limit - n))).map
        (Entry.call sourceId config) := by
  induction entries generalizing n outcomes with
  | nil => simp [deliver]
  | cons e rest ih =>
    unfold deliver
    by_cases he : e.HasText
    · rw [if_neg (not_not_intro he), List.filter_cons_of_pos (by simpa using he)]
      cases outcomes with
      | nil => simp
      | cons o more =>
        obtain ⟨kept, rfl⟩ := hok o List.mem_cons_self
        have hmin : min (Outcome.stored kept :: more).length (limit - n) =
            min more.length (limit - (n + 1)) + 1 := by
          rw [List.length_cons]
          omega
        dsimp only
        rw [hmin, List.take_succ_cons, List.map_cons]
        by_cases hlast : limit ≤ n + 1
        · rw [if_pos hlast]
          have hzero : min more.length (limit - (n + 1)) = 0 := by omega
          simp [hzero]
        · rw [if_neg hlast,
            ih more (by omega) (fun o ho => hok o (List.mem_cons_of_mem _ ho))]
    · rw [if_pos he, List.filter_cons_of_neg (by simpa using he)]
      exact ih outcomes hn hok

end Deliver

/-! ## No entry is lost -/

section Runs

variable (R : Readers) (sourceId : Chars) (config : Config) (limit : Nat)

/-- Where a cursor points into the feed, what is there and below is ingested. -/
def Settled (cursors : List Cursor) (ingested : List Call) (feed : List Entry) : Prop :=
  ∀ c ∈ cursors, ∀ above e below, feed = above ++ e :: below → c.lastGuid = some e.guid →
    ∀ x ∈ e :: below, x.HasText → x.call sourceId config ∈ ingested

/-- What holds along a run. -/
structure World.Sound (w : World) : Prop where
  listed : ∀ e ∈ w.window, e.guid ∈ w.published
  cursors : ∀ c ∈ w.cursors, ∃ guid ∈ w.published, c.lastGuid = some guid
  settled : Settled sourceId config w.cursors w.ingested w.window

variable {R sourceId config limit}

theorem entriesOf_eq (p : Poll) (c : Cursor) :
    entriesOf R config p.response c =
      (Watermark.newer Entry.guid c.lastGuid (p.feed R config)).reverse := by
  unfold entriesOf Poll.feed
  cases p.response with
  | none => rfl
  | some body =>
    dsimp only
    split
    · rfl
    · rw [parseFeed_fst]

/-- A guid that stands once stands at one place. -/
theorem split_unique {feed above above' below below' : List Entry} {e e' : Entry}
    (hnodup : (feed.map Entry.guid).Nodup) (h : feed = above ++ e :: below)
    (h' : feed = above' ++ e' :: below') (hguid : e.guid = e'.guid) :
    above = above' ∧ e = e' ∧ below = below' := by
  have habove : above = above' := by
    rw [← Watermark.newer_split hnodup h, ← Watermark.newer_split hnodup h', hguid]
  subst habove
  rw [h] at h'
  have htail := List.append_cancel_left h'
  rw [List.cons.injEq] at htail
  exact ⟨rfl, htail.1, htail.2⟩

/-- The feed that goes on from a window that was settled is settled. -/
theorem World.Sound.continues {w : World} (hw : w.Sound sourceId config) {feed : List Entry}
    (h : Continues w feed) : Settled sourceId config w.cursors w.ingested feed := by
  obtain ⟨-, new, kept, rfl, ⟨dropped, hwindow⟩, hfresh⟩ := h
  intro c hc above e below heq hguid
  obtain ⟨guid, hpub, hlast⟩ := hw.cursors c hc
  have hold : e.guid ∈ w.published := by
    rw [hguid] at hlast
    exact Option.some.inj hlast ▸ hpub
  obtain ⟨a, hkept⟩ : ∃ a, kept = a ++ e :: below := by
    rcases List.append_eq_append_iff.mp heq with ⟨a, -, hkept⟩ | ⟨a, hnew, hkept⟩
    · exact ⟨a, hkept⟩
    · cases a with
      | nil => exact ⟨[], hkept.symm⟩
      | cons x a =>
        rw [List.cons_append, List.cons.injEq] at hkept
        refine absurd hold (hfresh e ?_)
        rw [hnew, hkept.1]
        exact List.mem_append_right _ List.mem_cons_self
  have hsettled := hw.settled c hc a e (below ++ dropped)
    (by rw [← hwindow, hkept, List.append_assoc, List.cons_append]) hguid
  intro x hx
  rw [← List.cons_append] at hsettled
  exact hsettled x (List.mem_append_left _ hx)

/-- The feed of a poll is what the poll goes through, and below that what is settled. -/
theorem feed_split {w : World} {p : Poll}
    (hcursor : ∀ c ∈ p.stale, c = Cursor.empty ∨ c ∈ w.cursors)
    (hsettled : Settled sourceId config w.cursors w.ingested (p.feed R config)) :
    ∃ settled, p.feed R config = (entriesOf R config p.response (p.cursor w)).reverse ++ settled ∧
      ∀ x ∈ settled, x.HasText → x.call sourceId config ∈ w.ingested := by
  rw [entriesOf_eq, List.reverse_reverse]
  rcases Watermark.newer_cases Entry.guid (p.cursor w).lastGuid (p.feed R config) with
    hall | ⟨e, below, hmark, hfeed⟩
  · exact ⟨[], by rw [hall, List.append_nil], fun x hx => absurd hx List.not_mem_nil⟩
  · refine ⟨e :: below, hfeed, hsettled (p.cursor w) ?_ _ e below hfeed hmark⟩
    have hne : p.cursor w ≠ Cursor.empty := by
      intro h
      rw [h] at hmark
      cases hmark
    unfold Poll.cursor at hne ⊢
    cases hstale : p.stale with
    | some c =>
      rw [hstale] at hne
      exact (hcursor c hstale).resolve_left hne
    | none =>
      rw [hstale] at hne
      rw [Option.getD_none] at hne ⊢
      unfold World.lastCursor at hne ⊢
      cases hlast : w.cursors.getLast? with
      | none =>
        rw [hlast] at hne
        exact absurd rfl hne
      | some c => exact List.mem_of_getLast? hlast

/-- A poll leaves its feed settled. -/
theorem World.settled_step {w : World} {p : Poll}
    (hnodup : ((p.feed R config).map Entry.guid).Nodup)
    (hcursor : ∀ c ∈ p.stale, c = Cursor.empty ∨ c ∈ w.cursors)
    (hsettled : Settled sourceId config w.cursors w.ingested (p.feed R config)) :
    Settled sourceId config (w.step R sourceId config limit p).cursors
      (w.step R sourceId config limit p).ingested (p.feed R config) := by
  intro c hc above e below heq hguid x hx hxt
  show _ ∈ w.ingested ++ _
  rcases List.mem_append.mp hc with hc | hc
  · exact List.mem_append_left _ (hsettled c hc above e below heq hguid x hx hxt)
  · obtain ⟨before, e', after, hentries, rfl, hcalls⟩ := deliver_cursors _ _ _ c hc
    obtain ⟨settled, hsplit, hold⟩ := feed_split hcursor hsettled
    rw [hentries, List.reverse_append, List.reverse_cons] at hsplit
    have hplace : p.feed R config =
        after.reverse ++ e' :: (before.reverse ++ settled) := by
      rw [hsplit]
      simp
    have hguid' : e'.guid = e.guid := Option.some.inj hguid
    obtain ⟨-, rfl, rfl⟩ := split_unique hnodup hplace heq hguid'
    rcases List.mem_cons.mp hx with rfl | hx
    · exact List.mem_append_right _
        (hcalls x (List.mem_append_right _ (List.mem_singleton_self x)) hxt)
    · rcases List.mem_append.mp hx with hx | hx
      · exact List.mem_append_right _
          (hcalls x (List.mem_append_left _ (List.mem_reverse.mp hx)) hxt)
      · exact List.mem_append_left _ (hold x hx hxt)

theorem World.step_of_nil {w : World} {p : Poll} (h : p.feed R config = []) :
    w.step R sourceId config limit p = w := by
  have htrace : p.trace R sourceId config limit w = ⟨[], []⟩ := by
    unfold Poll.trace
    rw [entriesOf_eq, h]
    rfl
  unfold World.step
  rw [h, htrace]
  simp

/-- A poll keeps the invariant. -/
theorem World.Sound.step {w : World} (hw : w.Sound sourceId config) {p : Poll}
    (hok : w.Allowed R config p) : (w.step R sourceId config limit p).Sound sourceId config := by
  obtain ⟨hfeed, hcursor⟩ := hok
  by_cases hnil : p.feed R config = []
  · rw [World.step_of_nil hnil]
    exact hw
  · have hcont := hfeed.resolve_left hnil
    have hwindow : (w.step R sourceId config limit p).window = p.feed R config := if_neg hnil
    have hlisted : ∀ e ∈ p.feed R config,
        e.guid ∈ (w.step R sourceId config limit p).published := by
      intro e he
      by_cases hpub : e.guid ∈ w.published
      · exact List.mem_append_right _ hpub
      · exact List.mem_append_left _
          (List.mem_filter.mpr ⟨List.mem_map_of_mem he, by simpa using hpub⟩)
    refine ⟨?_, ?_, ?_⟩
    · rw [hwindow]
      exact hlisted
    · intro c hc
      rcases List.mem_append.mp hc with hc | hc
      · obtain ⟨guid, hpub, hlast⟩ := hw.cursors c hc
        exact ⟨guid, List.mem_append_right _ hpub, hlast⟩
      · obtain ⟨before, e, after, hentries, rfl, -⟩ := deliver_cursors _ _ _ c hc
        refine ⟨e.guid, hlisted e ?_, rfl⟩
        rw [entriesOf_eq] at hentries
        have hmem : e ∈ (Watermark.newer Entry.guid (p.cursor w).lastGuid
            (p.feed R config)).reverse := by
          rw [hentries]
          exact List.mem_append_right _ List.mem_cons_self
        exact (Watermark.newer_isPrefix _ _ _).subset (List.mem_reverse.mp hmem)
    · rw [hwindow]
      exact World.settled_step hcont.1 hcursor (hw.continues hcont)

theorem World.start_sound : World.start.Sound sourceId config where
  listed := fun _ h => absurd h List.not_mem_nil
  cursors := fun _ h => absurd h List.not_mem_nil
  settled := fun _ h => absurd h List.not_mem_nil

end Runs

section Results

variable (R : Readers) (sourceId : Chars) (config : Config) (limit : Nat)

abbrev World.run (w : World) (polls : List Poll) : World :=
  polls.foldl (World.step R sourceId config limit) w

/-- The entries with a text that a poll goes through. -/
def Poll.backlog (w : World) (p : Poll) : List Entry :=
  (entriesOf R config p.response (p.cursor w)).filter (fun e => e.HasText)

/-- A poll that nothing cuts short, within the limit. -/
structure Poll.Whole (w : World) (p : Poll) : Prop where
  outcomes : ∀ o ∈ p.outcomes, ∃ kept, o = .stored kept
  enough : (p.backlog R config w).length ≤ p.outcomes.length
  within : (p.backlog R config w).length ≤ limit

variable {R sourceId config limit}

theorem World.Sound.whole {w : World} (hw : w.Sound sourceId config) {p : Poll}
    (hok : w.Allowed R config p) (hwhole : p.Whole R config limit w) {e : Entry}
    (he : e ∈ p.feed R config) (hetext : e.HasText) :
    e.call sourceId config ∈ (w.step R sourceId config limit p).ingested := by
  show _ ∈ w.ingested ++ _
  obtain ⟨settled, hsplit, hold⟩ :=
    feed_split hok.2 (hw.continues (hok.1.resolve_left (List.ne_nil_of_mem he)))
  rw [hsplit] at he
  rcases List.mem_append.mp he with he | he
  · have hmem : e ∈ p.backlog R config w :=
      List.mem_filter.mpr ⟨List.mem_reverse.mp he, by simpa using hetext⟩
    have hlimit : 0 < limit := Nat.lt_of_lt_of_le (List.length_pos_of_mem hmem) hwhole.within
    refine List.mem_append_right _ ?_
    unfold Poll.trace
    rw [deliver_calls _ _ hlimit hwhole.outcomes, List.take_of_length_le]
    · exact List.mem_map_of_mem hmem
    · exact Nat.le_min.mpr ⟨hwhole.enough, hwhole.within⟩
  · exact List.mem_append_left _ (hold e he hetext)

variable (R sourceId config limit)

/-- However the polls before it were cut and whatever cursor it reads, after a poll that
nothing cuts short every entry of its feed with a text has been ingested. -/
theorem listed_ingested (polls : List Poll) (p : Poll)
    (hruns : Along (World.step R sourceId config limit) (World.Allowed R config) World.start
      (polls ++ [p]))
    (hwhole : p.Whole R config limit (World.start.run R sourceId config limit polls)) :
    ∀ e ∈ p.feed R config, e.HasText →
      e.call sourceId config ∈
        (World.start.run R sourceId config limit (polls ++ [p])).ingested := by
  obtain ⟨hbefore, hlast, -⟩ := along_append.mp hruns
  have hsound : (World.start.run R sourceId config limit polls).Sound sourceId config :=
    Along.invariant (World.Sound sourceId config) (fun _ _ hw hok => hw.step hok)
      World.start_sound hbefore
  have hrun : World.start.run R sourceId config limit (polls ++ [p]) =
      (World.start.run R sourceId config limit polls).step R sourceId config limit p :=
    List.foldl_concat ..
  intro e he hetext
  rw [hrun]
  exact hsound.whole hlast hwhole he hetext

end Results

/-! A feed of letters, each an item. -/

def letters : Readers where
  parse := fun cs => some ⟨cs.map (fun c => ⟨some [c], none, some [c], none, none, none⟩), [], []⟩
  rfc822 := fun _ => none
  iso := fun _ => none

def lettersConfig : Config := ⟨"feed".toList, []⟩

def letter (c : Char) : Entry := ⟨[c], [c], [], [], none⟩

/-- The process stops behind an ingest, and the next poll reads the cursor from before it. -/
theorem listed_ingested_letters :
    (letter 'b').call [] lettersConfig ∈
      (World.start.run letters [] lettersConfig 50
        [⟨none, some ['b', 'a'], [.stored true, .cut]⟩,
          ⟨none, some ['c', 'b'], [.stored true, .stored true]⟩]).ingested :=
  listed_ingested letters [] lettersConfig 50
    [⟨none, some ['b', 'a'], [.stored true, .cut]⟩]
    ⟨none, some ['c', 'b'], [.stored true, .stored true]⟩
    ⟨⟨Or.inr ⟨by decide +kernel, [letter 'b', letter 'a'], [], rfl, List.nil_prefix,
          fun _ _ => List.not_mem_nil⟩, fun _ hc => by cases hc⟩,
      ⟨Or.inr ⟨by decide +kernel, [letter 'c'], [letter 'b'], rfl, ⟨[letter 'a'], rfl⟩,
          by decide +kernel⟩, fun _ hc => by cases hc⟩, trivial⟩
    ⟨by decide +kernel, by decide +kernel, by decide +kernel⟩
    (letter 'b') (List.mem_cons_of_mem (letter 'c') List.mem_cons_self) (by decide)

/-! ## No entry comes twice -/

section Order

variable {R : Readers} {sourceId : Chars} {config : Config} {limit : Nat}

/-- What was published is what is above the last cursor, and what is at it and below, in whose
order the calls were made. -/
structure World.Ordered (w : World) : Prop where
  nodup : w.published.Nodup
  window : w.window.map Entry.guid <+: w.published
  order : ∃ above reached, w.published = above ++ reached ∧
    w.lastCursor.lastGuid = reached.head? ∧
      (w.ingested.map Call.guid).Sublist reached.reverse

theorem World.start_ordered : World.start.Ordered :=
  ⟨List.nodup_nil, List.nil_prefix, [], [], rfl, rfl, List.nil_sublist _⟩

/-- What a poll adds to the published guids stands above them, and its feed with it. -/
theorem World.Ordered.published {w : World} (hw : w.Ordered) {feed : List Entry}
    (h : Continues w feed) :
    ∃ new, (feed.map Entry.guid).filter (· ∉ w.published) ++ w.published = new ++ w.published ∧
      (new ++ w.published).Nodup ∧ feed.map Entry.guid <+: new ++ w.published := by
  obtain ⟨hnodup, new, kept, rfl, hkept, hfresh⟩ := h
  have hkept' : kept.map Entry.guid <+: w.published := (hkept.map Entry.guid).trans hw.window
  have hnew : (new.map Entry.guid).filter (· ∉ w.published) = new.map Entry.guid := by
    rw [List.filter_eq_self]
    intro guid hguid
    obtain ⟨e, he, rfl⟩ := List.mem_map.mp hguid
    simpa using hfresh e he
  have hold : (kept.map Entry.guid).filter (· ∉ w.published) = [] := by
    rw [List.filter_eq_nil_iff]
    intro guid hguid
    simpa using hkept'.subset hguid
  rw [List.map_append] at hnodup
  refine ⟨new.map Entry.guid, ?_, ?_, ?_⟩
  · rw [List.map_append, List.filter_append, hnew, hold, List.append_nil]
  · rw [List.nodup_append]
    refine ⟨(List.nodup_append.mp hnodup).1, hw.nodup, ?_⟩
    rintro guid hguid _ hpub rfl
    obtain ⟨e, he, rfl⟩ := List.mem_map.mp hguid
    exact hfresh e he hpub
  · rw [List.map_append]
    exact List.prefix_append_right_inj _ |>.mpr hkept'

/-- A poll from the last cursor goes through what is above it. -/
theorem newer_above {above reached : List Chars} {mark : Option Chars} {feed : List Entry}
    (hmark : mark = reached.head?) (hfeed : feed.map Entry.guid <+: above ++ reached) :
    (Watermark.newer Entry.guid mark feed).map Entry.guid <+: above := by
  have hnewer := ((Watermark.newer_isPrefix Entry.guid mark feed).map Entry.guid).trans
    hfeed
  cases reached with
  | nil =>
    rw [List.append_nil] at hnewer
    exact hnewer
  | cons guid below =>
    have hnot : guid ∉ (Watermark.newer Entry.guid mark feed).map Entry.guid := by
      intro hmem
      obtain ⟨e, he, rfl⟩ := List.mem_map.mp hmem
      have hne := List.mem_takeWhile_imp he
      rw [hmark] at hne
      simp at hne
    obtain ⟨t, ht⟩ := hnewer
    rcases List.append_eq_append_iff.mp ht with ⟨a, habove, -⟩ | ⟨a, hn, hbelow⟩
    · exact ⟨a, habove.symm⟩
    · cases a with
      | nil => exact ⟨[], by rw [List.append_nil, hn, List.append_nil]⟩
      | cons x a =>
        rw [List.cons_append, List.cons.injEq] at hbelow
        refine absurd ?_ hnot
        rw [hn, hbelow.1]
        exact List.mem_append_right _ List.mem_cons_self

/-- A poll in order keeps the order. -/
theorem World.Ordered.step {w : World} (hw : w.Ordered) {p : Poll}
    (hok : w.InOrder R config p) : (w.step R sourceId config limit p).Ordered := by
  obtain ⟨⟨hfeed, -⟩, hstale, houtcomes⟩ := hok
  by_cases hnil : p.feed R config = []
  · rw [World.step_of_nil hnil]
    exact hw
  · obtain ⟨new, hpub, hnodup, hprefix⟩ := hw.published (hfeed.resolve_left hnil)
    obtain ⟨above, reached, hsplit, hlast, hcalls⟩ := hw.order
    have hpub' : (w.step R sourceId config limit p).published = new ++ w.published := hpub
    have hwindow : (w.step R sourceId config limit p).window = p.feed R config := if_neg hnil
    have hcursor : p.cursor w = w.lastCursor := by
      unfold Poll.cursor
      rw [hstale, Option.getD_none]
    rw [hsplit, ← List.append_assoc] at hprefix
    refine ⟨hpub' ▸ hnodup, ?_, ?_⟩
    · rw [hwindow, hpub', hsplit, ← List.append_assoc]
      exact hprefix
    · obtain ⟨t, ht⟩ := newer_above hlast hprefix
      rcases deliver_in_order sourceId config limit
        (entriesOf R config p.response (p.cursor w)) p.outcomes 0 houtcomes with
        htrace | ⟨before, e, after, hentries, hcur, hmade⟩
      · have htrace' : p.trace R sourceId config limit w = ⟨[], []⟩ := htrace
        refine ⟨new ++ above, reached, ?_, ?_, ?_⟩
        · rw [hpub', hsplit, List.append_assoc]
        · show ((w.cursors ++ (p.trace R sourceId config limit w).cursors).getLast?.getD
            Cursor.empty).lastGuid = _
          rw [htrace', List.append_nil]
          exact hlast
        · show ((w.ingested ++ (p.trace R sourceId config limit w).calls).map Call.guid).Sublist _
          rw [htrace', List.append_nil]
          exact hcalls
      · rw [entriesOf_eq, hcursor] at hentries
        have hnewer := congrArg List.reverse hentries
        rw [List.reverse_reverse] at hnewer
        rw [hnewer] at ht
        refine ⟨after.reverse.map Entry.guid,
          e.guid :: (before.reverse.map Entry.guid ++ t ++ reached), ?_, ?_, ?_⟩
        · rw [hpub', hsplit, ← List.append_assoc, ← ht]
          simp
        · show ((w.cursors ++ (p.trace R sourceId config limit w).cursors).getLast?.getD
            Cursor.empty).lastGuid = _
          have hcur' : (p.trace R sourceId config limit w).cursors.getLast? = some e.cursor := hcur
          rw [List.getLast?_append, hcur']
          rfl
        · show ((w.ingested ++ (p.trace R sourceId config limit w).calls).map Call.guid).Sublist _
          have hmade' : (p.trace R sourceId config limit w).calls.map Call.guid =
              ((before ++ [e]).filter (fun x => x.HasText)).map Entry.guid := by
            unfold Poll.trace
            rw [hmade, List.map_map]
            rfl
          have hreached : (e.guid :: (before.reverse.map Entry.guid ++ t ++ reached)).reverse =
              reached.reverse ++ (t.reverse ++ (before ++ [e]).map Entry.guid) := by
            simp
          rw [List.map_append, hmade', hreached]
          refine hcalls.append (List.Sublist.trans ?_ (List.sublist_append_right _ _))
          exact List.filter_sublist.map Entry.guid

variable (R sourceId config limit)

/-- Where each poll reads the last cursor and none is lost, an entry is ingested at most once,
and the entries in the order in which they were published. -/
theorem ingested_once (polls : List Poll)
    (hruns : Along (World.step R sourceId config limit) (World.InOrder R config) World.start
      polls) :
    let w := World.start.run R sourceId config limit polls
    (w.ingested.map Call.guid).Nodup ∧
      (w.ingested.map Call.guid).Sublist w.published.reverse := by
  have hordered : (World.start.run R sourceId config limit polls).Ordered :=
    Along.invariant World.Ordered (fun _ _ hw hok => hw.step hok) World.start_ordered hruns
  obtain ⟨above, reached, hsplit, -, hcalls⟩ := hordered.order
  have hsub : ((World.start.run R sourceId config limit polls).ingested.map Call.guid).Sublist
      (World.start.run R sourceId config limit polls).published.reverse := by
    rw [hsplit, List.reverse_append]
    exact hcalls.trans (List.sublist_append_left _ _)
  exact ⟨hsub.nodup (List.nodup_reverse.mpr hordered.nodup), hsub⟩

end Order

theorem ingested_once_letters :
    ((World.start.run letters [] lettersConfig 50
        [⟨none, some ['b', 'a'], [.stored true, .refused]⟩,
          ⟨none, some ['c', 'b'], [.stored true, .stored true]⟩]).ingested.map Call.guid).Nodup :=
  (ingested_once letters [] lettersConfig 50
    [⟨none, some ['b', 'a'], [.stored true, .refused]⟩,
      ⟨none, some ['c', 'b'], [.stored true, .stored true]⟩]
    ⟨⟨⟨Or.inr ⟨by decide +kernel, [letter 'b', letter 'a'], [], rfl, List.nil_prefix,
          fun _ _ => List.not_mem_nil⟩, fun _ hc => by cases hc⟩, rfl, by decide⟩,
      ⟨⟨Or.inr ⟨by decide +kernel, [letter 'c'], [letter 'b'], rfl, ⟨[letter 'a'], rfl⟩,
          by decide +kernel⟩, fun _ hc => by cases hc⟩, rfl, by decide⟩, trivial⟩).1

/-! ## A backlog -/

section Backlog

variable (R : Readers) (sourceId : Chars) (config : Config) (limit : Nat)

/-- A poll of a body that goes well. -/
def smooth (body : Chars) : Poll :=
  ⟨none, some body, List.replicate limit (.stored true)⟩

variable {R sourceId config limit}

theorem smooth_backlog (body : Chars) (w : World) :
    (smooth limit body).backlog R config w =
      (Watermark.newer Entry.guid w.lastCursor.lastGuid
        ((smooth limit body).feed R config)).reverse.filter (fun e => e.HasText) := by
  unfold Poll.backlog
  rw [entriesOf_eq]
  rfl

variable (sourceId) in
/-- A poll that goes well takes as many entries from the backlog as the limit says. -/
theorem step_smooth {w : World} {body : Chars} (hlimit : 0 < limit)
    (hnodup : (((smooth limit body).feed R config).map Entry.guid).Nodup) :
    (w.step R sourceId config limit (smooth limit body)).ingested = w.ingested ++
        (((smooth limit body).backlog R config w).take limit).map (Entry.call sourceId config) ∧
      (smooth limit body).backlog R config
          (w.step R sourceId config limit (smooth limit body)) =
        ((smooth limit body).backlog R config w).drop limit := by
  have hstored : ∀ o ∈ (smooth limit body).outcomes, o = .stored true :=
    fun o ho => List.eq_of_mem_replicate ho
  have hcalls : ((smooth limit body).trace R sourceId config limit w).calls =
      (((smooth limit body).backlog R config w).take limit).map (Entry.call sourceId config) := by
    unfold Poll.trace
    rw [deliver_calls _ _ hlimit (fun o ho => ⟨true, hstored o ho⟩), Nat.sub_zero]
    have hlen : (smooth limit body).outcomes.length = limit := List.length_replicate
    rw [hlen, Nat.min_self]
    rfl
  refine ⟨congrArg (w.ingested ++ ·) hcalls, ?_⟩
  have hlast : (w.step R sourceId config limit (smooth limit body)).lastCursor =
      ((w.cursors ++ ((smooth limit body).trace R sourceId config limit w).cursors).getLast?.getD
        Cursor.empty) := rfl
  rcases deliver_in_order sourceId config limit
    (entriesOf R config (smooth limit body).response ((smooth limit body).cursor w))
    (smooth limit body).outcomes 0
    (fun o ho => Or.inr (hstored o ho)) with htrace | ⟨before, e, after, hentries, hcur, hmade⟩
  · have htrace' : (smooth limit body).trace R sourceId config limit w = ⟨[], []⟩ := htrace
    rw [htrace'] at hcalls
    have hempty : (smooth limit body).backlog R config w = [] := by
      have htake := List.map_eq_nil_iff.mp hcalls.symm
      exact (List.take_eq_nil_iff.mp htake).resolve_left (Nat.ne_of_gt hlimit)
    have hsame : (smooth limit body).backlog R config
        (w.step R sourceId config limit (smooth limit body)) =
        (smooth limit body).backlog R config w := by
      rw [htrace', List.append_nil] at hlast
      rw [smooth_backlog, smooth_backlog, hlast]
      rfl
    rw [hsame, hempty, List.drop_nil]
  · have hcur' : ((smooth limit body).trace R sourceId config limit w).cursors.getLast? =
        some e.cursor := hcur
    have hmade' : ((smooth limit body).trace R sourceId config limit w).calls =
        ((before ++ [e]).filter (fun x => x.HasText)).map (Entry.call sourceId config) := hmade
    have hbacklog : (smooth limit body).backlog R config w =
        (before ++ [e]).filter (fun x => x.HasText) ++ after.filter (fun x => x.HasText) := by
      unfold Poll.backlog
      rw [hentries, ← List.filter_append, List.append_assoc, List.singleton_append]
    have hnext : (smooth limit body).backlog R config
        (w.step R sourceId config limit (smooth limit body)) =
        after.filter (fun x => x.HasText) := by
      rw [entriesOf_eq] at hentries
      have hnewer := congrArg List.reverse hentries
      rw [List.reverse_reverse, List.reverse_append, List.reverse_cons, List.append_assoc,
        List.singleton_append] at hnewer
      have habove := Watermark.newer_of_newer hnodup hnewer
      rw [List.getLast?_append, hcur'] at hlast
      rw [smooth_backlog, hlast]
      show (Watermark.newer Entry.guid (some e.guid) _).reverse.filter _ = _
      rw [habove, List.reverse_reverse]
    -- what was taken is what stands up to `e`, so what is left is what stands after it
    have hlen := congrArg List.length (hcalls.symm.trans hmade')
    rw [List.length_map, List.length_map, List.length_take, hbacklog, List.length_append] at hlen
    rw [hnext, hbacklog, List.drop_append]
    have hzero : ((before ++ [e]).filter (fun x => x.HasText)).length ≤ limit := by omega
    rw [List.drop_of_length_le hzero, List.nil_append]
    rcases Nat.eq_or_lt_of_le hzero with heq | hlt
    · rw [heq, Nat.sub_self, List.drop_zero]
    · have hnil : after.filter (fun x => x.HasText) = [] := by
        rw [← List.length_eq_zero_iff]
        omega
      rw [hnil, List.drop_nil]

variable (R sourceId config limit)

/-- As long as the feed stays as it is, polls that go well ingest what is above the last cursor
from its oldest end, as many entries each as the limit says. -/
theorem backlog_drained (hlimit : 0 < limit) (w : World) (body : Chars)
    (hnodup : (((smooth limit body).feed R config).map Entry.guid).Nodup) (k : Nat) :
    (w.run R sourceId config limit (List.replicate k (smooth limit body))).ingested =
      w.ingested ++ (((smooth limit body).backlog R config w).take (k * limit)).map
        (Entry.call sourceId config) := by
  induction k generalizing w with
  | zero => simp
  | succ k ih =>
    obtain ⟨hcalls, hrest⟩ := step_smooth sourceId (w := w) hlimit hnodup
    rw [List.replicate_succ, World.run, List.foldl_cons]
    rw [ih, hcalls, hrest, List.append_assoc, ← List.map_append, ← List.take_add,
      Nat.succ_mul, Nat.add_comm (k * limit)]

end Backlog

theorem backlog_drained_letters :
    (World.start.run letters [] lettersConfig 2
      (List.replicate 2 (smooth 2 ['c', 'b', 'a']))).ingested.map Call.guid =
      [['a'], ['b'], ['c']] := by
  rw [backlog_drained letters [] lettersConfig 2 (by decide) World.start ['c', 'b', 'a']
    (by decide +kernel) 2]
  decide +kernel

end Cerid.Sources.Feed
