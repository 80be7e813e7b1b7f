import Cerid.Lib.Run
import Cerid.Lib.Timeline
import Cerid.Versions.Document
import Mathlib.Order.Nat

/-!
# A document's rows and its history

The history of a document is the stack of the texts that were ingested: a
re-ingest of a changed text puts an edition on it and undo takes the last one
off.  While no passage comes back that a version on record had and a later one
dropped, the rows are the spans of the history, but for those retention erased.
-/

namespace Cerid.Versions

inductive Event where
  | reingest (contentHash : String) (passages : List String) (now : Time)
  | undo (now : Time)
deriving DecidableEq, Repr

def Event.now : Event → Time
  | .reingest _ _ now => now
  | .undo now => now

/-- A document, its history, whether a version is no longer on record, and the
time of the last event. -/
structure World where
  doc : Document
  history : Timeline String Time
  dropped : Bool
  clock : Time

def start (contentHash : String) (passages : List String) (now : Time) : World where
  doc := ingest contentHash passages now
  history := { first := passages, rest := [] }
  dropped := false
  clock := now

/-- A text that has not changed and a refused undo leave the history as it is. -/
def step (kept : Nat) (w : World) : Event → World
  | .reingest contentHash passages now =>
    let doc := reingest kept w.doc contentHash passages now
    if w.doc.contentHash ≠ contentHash then
      { doc
        history := w.history.append { start := now, content := passages }
        dropped := w.dropped || overKept kept ((recordedVersions w.doc).length + 1)
        clock := now }
    else { w with doc, clock := now }
  | .undo now =>
    match undoDocument w.doc now with
    | .ok doc => { w with doc, history := w.history.dropLast, clock := now }
    | .error _ => { w with clock := now }

def run (kept : Nat) (w : World) (events : List Event) : World := events.foldl (step kept) w

/-- The start of the oldest version on record, once an older one is not. -/
def World.horizon (w : World) : Option Time :=
  if w.dropped then (recordedVersions w.doc).head?.map Version.validFrom else none

/-- The span closed at or before the horizon. -/
def Erased (horizon : Option Time) (s : Span Time) : Prop :=
  ∃ y c, s.closes = some y ∧ horizon = some c ∧ y ≤ c

/-- A version on record had the passage and a later one dropped it. -/
def World.left (w : World) (p : String) : Bool :=
  match (w.history.spanOf p).bind Span.closes, w.horizon with
  | none, _ => false
  | some _, none => true
  | some y, some c => decide (c < y)

/-- Time goes on, an unchanged text has the passages it had, and a changed one
brings none back that a version on record had and a later one dropped. -/
def Onward (w : World) (e : Event) : Prop :=
  w.clock < e.now ∧
    match e with
    | .reingest contentHash passages _ =>
      if w.doc.contentHash ≠ contentHash then ∀ p ∈ passages, w.left p = false
      else (∀ p ∈ passages, p ∈ w.history.current) ∧ ∀ p ∈ w.history.current, p ∈ passages
    | .undo _ => True

instance (w : World) : (e : Event) → Decidable (Onward w e)
  | .reingest contentHash passages now => inferInstanceAs (Decidable (w.clock < now ∧
      if w.doc.contentHash ≠ contentHash then ∀ p ∈ passages, w.left p = false
      else (∀ p ∈ passages, p ∈ w.history.current) ∧ ∀ p ∈ w.history.current, p ∈ passages))
  | .undo now => inferInstanceAs (Decidable (w.clock < now ∧ True))

def Row.span (row : Row) : Span Time := { opens := row.validFrom, closes := row.validTo }

/-- The validity interval of a passage's row, unless a forget hides it. -/
def interval (d : Document) (p : String) : Option (Span Time) :=
  if p ∈ d.forgotten then none else (d.rows.get? p).map Row.span

/-! ## The rows and the spans -/

/-- A passage that is not forgotten has the span of the history, if it is not
erased; a forgotten one has none, and its row was closed by no edition. -/
structure Agrees (d : Document) (h : Timeline String Time) (horizon : Option Time)
    (clock : Time) : Prop where
  shown : ∀ p, p ∉ d.forgotten → ∀ s,
    (d.rows.get? p).map Row.span = some s ↔ h.spanOf p = some s ∧ ¬ Erased horizon s
  lost : ∀ p ∈ d.forgotten, ∀ s, h.spanOf p = some s → Erased horizon s
  trashed : ∀ p ∈ d.forgotten, ∀ row, d.rows.get? p = some row →
    ∃ y, row.validTo = some y ∧ y ≤ clock ∧ ∀ e ∈ h.rest, e.start ≠ y

theorem not_erased_open {horizon : Option Time} {x : Option Time} :
    ¬ Erased horizon { opens := x, closes := none } := by
  rintro ⟨y, c, hy, -⟩
  exact absurd hy (by simp)

theorem Row.closed_eq_true_iff {row : Row} : row.closed = true ↔ ∃ y, row.validTo = some y := by
  rw [row.flag, Option.isSome_iff_exists]

theorem Row.closed_eq_false_iff {row : Row} : row.closed = false ↔ row.validTo = none := by
  rw [row.flag, Option.isSome_eq_false_iff, Option.isNone_iff_eq_none]

theorem get?_currentVersionRows {d : Document} {p : String} {row : Row} :
    (currentVersionRows d).get? p = some row ↔ d.rows.get? p = some row ∧ row.validTo = none := by
  simp [currentVersionRows, Option.filter_eq_some_iff, Row.closed_eq_false_iff]

theorem get?_closeRows_upsert (d : Document) (passages : List String) (f : String → Row)
    (version : Nat) (now : Time) (p : String) :
    (closeRows (passages.foldl (fun rows c => rows.set c (f c)) d.rows)
        ((currentVersionRows d).keys.filter (fun c => c ∉ passages)) version now).get? p =
      if p ∈ passages then some (f p)
      else (d.rows.get? p).map (fun row => if row.closed then row else row.close version now) := by
  rw [closeRows, Dict.get?_mapValues, Dict.get?_foldl_set_keys]
  by_cases hp : p ∈ passages
  · simp [hp]
  · simp only [hp, if_false]
    cases hrow : d.rows.get? p with
    | none => rfl
    | some row =>
      have hmem : p ∈ (currentVersionRows d).keys ↔ row.closed = false := by
        rw [Dict.mem_keys_iff]
        simp only [get?_currentVersionRows, hrow, Option.some.injEq, Row.closed_eq_false_iff]
        constructor
        · rintro ⟨_, h, ht⟩
          exact h ▸ ht
        · exact fun ht => ⟨row, rfl, ht⟩
      cases hclosed : row.closed <;> simp [hp, hmem, hclosed]

section

variable {d : Document} {h : Timeline String Time} {horizon : Option Time} {clock : Time}

theorem Agrees.get?_currentVersionRows (hd : Agrees d h horizon clock) {p : String}
    {x : Option Time} :
    ((currentVersionRows d).get? p).map Row.validFrom = some x ↔
      h.spanOf p = some { opens := x, closes := none } := by
  simp only [Option.map_eq_some_iff, Versions.get?_currentVersionRows]
  constructor
  · rintro ⟨row, ⟨hrow, ht⟩, rfl⟩
    have hp : p ∉ d.forgotten := by
      intro hp
      obtain ⟨y, hy, -⟩ := hd.trashed p hp row hrow
      rw [ht] at hy
      exact absurd hy (by simp)
    refine ((hd.shown p hp _).mp ?_).1
    simp [hrow, Row.span, ht]
  · intro hspan
    have hp : p ∉ d.forgotten := fun hp => not_erased_open (hd.lost p hp _ hspan)
    have hrow := (hd.shown p hp _).mpr ⟨hspan, not_erased_open⟩
    rw [Option.map_eq_some_iff] at hrow
    obtain ⟨row, hrow, hs⟩ := hrow
    simp only [Row.span, Span.mk.injEq] at hs
    exact ⟨row, ⟨hrow, hs.2⟩, hs.1⟩

theorem Agrees.openVersionMeta_span (hd : Agrees d h horizon clock) {passages : List String}
    {p : String} (hp : p ∈ passages) (version : Nat) (now : Time) :
    some (openVersionMeta version ((currentVersionRows d).get? p) now).span =
      (h.append { start := now, content := passages }).spanOf p := by
  rw [Timeline.spanOf_append]
  cases hrow : (currentVersionRows d).get? p with
  | some row =>
    have hspan := (hd.get?_currentVersionRows (p := p) (x := row.validFrom)).mp (by rw [hrow]; rfl)
    simp [hspan, Timeline.spanStep, hp, openVersionMeta, Row.span]
  | none =>
    have hopen : ∀ x, h.spanOf p ≠ some { opens := x, closes := none } := by
      intro x hx
      have := hd.get?_currentVersionRows.mpr hx
      simp [hrow] at this
    rcases hspan : h.spanOf p with _ | ⟨x, _ | y⟩
    · simp [Timeline.spanStep, hp, openVersionMeta, Row.span]
    · exact absurd hspan (hopen x)
    · simp [Timeline.spanStep, hp, openVersionMeta, Row.span]

/-- A changed text, before retention. -/
theorem Agrees.reingest (hd : Agrees d h horizon clock) (contentHash : String)
    (passages : List String) (version version' : Nat) {now : Time} (hnow : clock < now)
    (hhorizon : ∀ c, horizon = some c → c ≤ clock) :
    Agrees
      { d with
        rows := closeRows
          (passages.foldl (fun rows c => rows.set c
            (openVersionMeta version ((currentVersionRows d).get? c) now)) d.rows)
          ((currentVersionRows d).keys.filter (fun c => c ∉ passages)) version' now
        contentHash
        forgotten := d.forgotten.filter (fun c => c ∉ passages) }
      (h.append { start := now, content := passages }) horizon now := by
  have hrows := get?_closeRows_upsert d passages
    (fun c => openVersionMeta version ((currentVersionRows d).get? c) now) version' now
  constructor
  · intro p hp s
    simp only [hrows]
    by_cases hmem : p ∈ passages
    · rw [if_pos hmem, Option.map_some, hd.openVersionMeta_span hmem, iff_self_and]
      intro hs
      rw [Timeline.spanOf_append] at hs
      obtain ⟨x, hx⟩ := (Timeline.spanStep_eq_open_iff _).mpr
        (show p ∈ ({ start := now, content := passages } : Edition String Time).content from hmem)
      rw [hx, Option.some.injEq] at hs
      exact hs ▸ not_erased_open
    · have hp : p ∉ d.forgotten := by simpa [hmem] using hp
      have hshown := hd.shown p hp
      rw [if_neg hmem, Option.map_map, Timeline.spanOf_append]
      rcases hspan : h.spanOf p with _ | ⟨x, _ | y⟩
      · have hrow : d.rows.get? p = none := by
          simpa [hspan, Option.eq_none_iff_forall_ne_some] using hshown
        simp [hrow, Timeline.spanStep, hmem]
      · have hrow := (hshown _).mpr ⟨hspan, not_erased_open⟩
        rw [Option.map_eq_some_iff] at hrow
        obtain ⟨row, hrow, hs⟩ := hrow
        simp only [Row.span, Span.mk.injEq] at hs
        have hne : ¬ Erased horizon { opens := x, closes := some now } := by
          rintro ⟨y, c, hy, hc, hle⟩
          obtain rfl : now = y := by simpa using hy
          exact absurd hle (not_le.mpr ((hhorizon c hc).trans_lt hnow))
        have hclosed : row.closed = false := Row.closed_eq_false_iff.mpr hs.2
        simp only [hrow, Option.map_some, Function.comp, hclosed, Row.span, Row.close,
          Timeline.spanStep, hmem, if_false, hs.1, Option.some.injEq, Bool.false_eq_true]
        exact ⟨fun e => ⟨e, e ▸ hne⟩, fun e => e.1⟩
      · have hkeep : ∀ row, d.rows.get? p = some row → row.closed = true := by
          intro row hrow
          have := ((hshown row.span).mp (by rw [hrow]; rfl)).1
          rw [hspan, Option.some.injEq] at this
          exact Row.closed_eq_true_iff.mpr ⟨y, by rw [← show row.span.closes = row.validTo from rfl, ← this]⟩
        rw [show Timeline.spanStep p (some { opens := x, closes := some y })
          { start := now, content := passages } = h.spanOf p by simp [Timeline.spanStep, hmem, hspan],
          ← hshown]
        cases hrow : d.rows.get? p with
        | none => rfl
        | some row => simp [hkeep row hrow]
  · intro p hp s hs
    obtain ⟨hp, hmem⟩ : p ∈ d.forgotten ∧ p ∉ passages := by simpa using hp
    rw [Timeline.spanOf_append] at hs
    rcases hspan : h.spanOf p with _ | ⟨x, _ | y⟩
    · simp [hspan, Timeline.spanStep, hmem] at hs
    · exact absurd (hd.lost p hp _ hspan) not_erased_open
    · refine hd.lost p hp s ?_
      simpa [hspan, Timeline.spanStep, hmem] using hs
  · intro p hp row' hrow'
    obtain ⟨hp, hmem⟩ : p ∈ d.forgotten ∧ p ∉ passages := by simpa using hp
    simp only [hrows, if_neg hmem, Option.map_eq_some_iff] at hrow'
    obtain ⟨row, hrow, rfl⟩ := hrow'
    obtain ⟨y, hy, hle, hne⟩ := hd.trashed p hp row hrow
    rw [if_pos (Row.closed_eq_true_iff.mpr ⟨y, hy⟩)]
    refine ⟨y, hy, hle.trans hnow.le, fun e he => ?_⟩
    rcases List.mem_append.mp he with he | he
    · exact hne e he
    · rw [List.mem_singleton] at he
      subst he
      exact (hle.trans_lt hnow).ne'

/-- Retention erases what closed at the new horizon or before. -/
theorem Agrees.retire (hd : Agrees d h horizon clock) {cutoff : Time}
    (hle : ∀ c, horizon = some c → c ≤ cutoff) :
    Agrees (retireVersions d cutoff) h (some cutoff) clock := by
  have herased : ∀ s, Erased horizon s → Erased (some cutoff) s := by
    rintro s ⟨y, c, hy, hc, hyc⟩
    exact ⟨y, cutoff, hy, rfl, hyc.trans (hle c hc)⟩
  have hretired : ∀ row : Row, row.retired cutoff = true ↔ Erased (some cutoff) row.span := by
    intro row
    have hflag := row.flag
    cases ht : row.validTo <;> simp [Row.retired, Erased, Row.span, ht, hflag]
  have hmem : ∀ p, p ∈ (retireVersions d cutoff).forgotten ↔ p ∈ d.forgotten ∨
      ∃ row, d.rows.get? p = some row ∧ Erased (some cutoff) row.span := by
    intro p
    simp [retireVersions, Dict.mem_keys_iff, Option.filter_eq_some_iff, hretired]
  have hrows : ∀ p row, (retireVersions d cutoff).rows.get? p = some row ↔
      d.rows.get? p = some row ∧ ¬ Erased (some cutoff) row.span := by
    intro p row
    rw [← hretired]
    simp [retireVersions, Option.filter_eq_some_iff]
  constructor
  · intro p hp s
    rw [hmem, not_or] at hp
    simp only [Option.map_eq_some_iff, hrows]
    have hshown := hd.shown p hp.1
    constructor
    · rintro ⟨row, ⟨hrow, hne⟩, rfl⟩
      exact ⟨((hshown row.span).mp (by rw [hrow]; rfl)).1, hne⟩
    · rintro ⟨hspan, hne⟩
      have hrow := (hshown s).mpr ⟨hspan, fun h => hne (herased s h)⟩
      rw [Option.map_eq_some_iff] at hrow
      obtain ⟨row, hrow, rfl⟩ := hrow
      exact ⟨row, ⟨hrow, hne⟩, rfl⟩
  · intro p hp s hspan
    rcases (hmem p).mp hp with hp | ⟨row, hrow, he⟩
    · exact herased s (hd.lost p hp s hspan)
    · by_cases hpf : p ∈ d.forgotten
      · exact herased s (hd.lost p hpf s hspan)
      · have := ((hd.shown p hpf row.span).mp (by rw [hrow]; rfl)).1
        rw [hspan, Option.some.injEq] at this
        exact this ▸ he
  · intro p hp row hrow
    rw [hrows] at hrow
    rcases (hmem p).mp hp with hp | ⟨row', hrow', he⟩
    · exact hd.trashed p hp row hrow.1
    · rw [hrow.1, Option.some.injEq] at hrow'
      exact absurd (hrow' ▸ he) hrow.2

/-! ## Undo -/

theorem Row.undo_of_replaced {row : Row} {started : Time} (ht : row.validTo = some started)
    (older : Nat) (now : Time) :
    (row.undo started older now).span = { opens := row.validFrom, closes := none } := by
  have hclosed : row.closed = true := Row.closed_eq_true_iff.mpr ⟨started, ht⟩
  simp [Row.undo, Row.replaced, hclosed, ht, Row.span]

theorem Row.undo_of_brought {row : Row} {started : Time} (ht : row.validTo = none)
    (hf : row.validFrom = some started) (older : Nat) (now : Time) :
    (row.undo started older now).span = { opens := some started, closes := some now } := by
  have hclosed : row.closed = false := Row.closed_eq_false_iff.mpr ht
  simp [Row.undo, Row.replaced, Row.brought, hclosed, hf, Row.span]

theorem Row.undo_of_not {row : Row} {started : Time} (hr : row.validTo ≠ some started)
    (hb : row.validTo = none → row.validFrom ≠ some started) (older : Nat) (now : Time) :
    row.undo started older now = row := by
  have hr' : row.replaced started = false := by simp [Row.replaced, hr]
  have hb' : row.brought started = false := by
    rw [Row.brought, Bool.and_eq_false_iff]
    by_cases ht : row.validTo = none
    · exact Or.inr (by simp [hb ht])
    · left
      have hclosed : row.closed = true := by
        rw [Row.closed_eq_true_iff]
        exact Option.ne_none_iff_exists'.mp ht
      simp [hclosed]
  simp [Row.undo, hr', hb']

/-- On a row the newest version did not bring, undo takes the version's step
back, and either opens the row or leaves it. -/
theorem Row.unstep_span {row : Row} {started : Time}
    (hb : row.span ≠ { opens := some started, closes := none }) (older : Nat) (now : Time) :
    Timeline.unstep started (some row.span) = some (row.undo started older now).span ∧
      ((row.undo started older now).span = { opens := row.validFrom, closes := none } ∨
        row.undo started older now = row) := by
  by_cases hr : row.validTo = some started
  · rw [Row.undo_of_replaced hr]
    exact ⟨by simp [Row.span, hr, Timeline.unstep], Or.inl rfl⟩
  · have hf : row.validTo = none → row.validFrom ≠ some started := by
      intro ht hf
      exact hb (by rw [Row.span, ht, hf])
    rw [Row.undo_of_not hr hf]
    refine ⟨?_, Or.inr rfl⟩
    cases ht : row.validTo with
    | none => simp [Row.span, ht, Timeline.unstep, hf ht]
    | some y =>
      have hy : y ≠ started := fun hy => hr (by rw [ht, hy])
      simp [Row.span, ht, Timeline.unstep, hy]

theorem Row.brought_iff {row : Row} {started : Time} :
    row.brought started = true ↔ row.span = { opens := some started, closes := none } := by
  simp [Row.brought, Row.closed_eq_false_iff, Row.span, and_comm]

theorem Row.replaced_iff {row : Row} {started : Time} :
    row.replaced started = true ↔ row.validTo = some started := by
  simp only [Row.replaced, Bool.and_eq_true, Row.closed_eq_true_iff, decide_eq_true_eq,
    and_iff_right_iff_imp]
  exact fun ht => ⟨started, ht⟩

variable {e : Edition String Time}

theorem Agrees.not_replaced (hd : Agrees d (h.append e) horizon clock) {p : String}
    (hp : p ∈ d.forgotten) {row : Row} (hrow : d.rows.get? p = some row) :
    row.validTo ≠ some e.start := by
  obtain ⟨y, hy, -, hne⟩ := hd.trashed p hp row hrow
  rw [hy, ne_eq, Option.some.injEq]
  exact fun h => hne e (by simp [Timeline.append]) h.symm

/-- Before the newest edition a passage was visible, unless that edition brought
it, with the span its row has after undo. -/
theorem Agrees.undo (hd : Agrees d (h.append e) horizon clock) {now : Time} (hnow : clock < now)
    (hsorted : (h.append e).Sorted) (hpast : ∀ e' ∈ (h.append e).rest, e'.start ≤ clock)
    (hhorizon : ∀ c, horizon = some c → c < e.start)
    (hrejoins : (h.append e).Rejoins (fun y => ∃ c, horizon = some c ∧ y ≤ c)) (older : Nat) :
    Agrees
      { d with
        rows := d.rows.mapValues (fun _ row => row.undo e.start older now)
        forgotten := d.forgotten ++ (d.rows.filter (fun _ row => row.brought e.start)).keys }
      h horizon now := by
  have hmem : ∀ p, p ∈ (d.rows.filter (fun _ row => row.brought e.start)).keys ↔
      ∃ row, d.rows.get? p = some row ∧ row.span = { opens := some e.start, closes := none } := by
    intro p
    simp [Dict.mem_keys_iff, Option.filter_eq_some_iff, Row.brought_iff]
  -- A span that closed at the horizon or before is no work of the newest edition.
  have hkeep : ∀ s, Erased horizon s → Timeline.unstep e.start (some s) = some s := by
    rintro ⟨x, ys⟩ ⟨y, c, hy, hc, hle⟩
    obtain rfl : ys = some y := hy
    simp [Timeline.unstep, (hle.trans_lt (hhorizon c hc)).ne]
  have hlost : ∀ p, (∀ s, (h.append e).spanOf p = some s → Erased horizon s) →
      ∀ s, h.spanOf p = some s → Erased horizon s := by
    intro p hall s hs
    rcases Timeline.unstep_spanOf_append hsorted p with hback | ⟨-, -, hopen⟩
    · rcases hspan : (h.append e).spanOf p with _ | s'
      · rw [hspan, hs] at hback
        simp [Timeline.unstep] at hback
      · rw [hspan, hkeep s' (hall s' hspan), hs, Option.some.injEq] at hback
        exact hback ▸ hall s' hspan
    · exact absurd (hall _ hopen) not_erased_open
  constructor
  · intro p hp s
    simp only [List.mem_append, hmem, not_or, not_exists, not_and] at hp
    obtain ⟨hp, hbrought⟩ := hp
    have hshown := hd.shown p hp
    simp only [Dict.get?_mapValues, Option.map_map]
    cases hrow : d.rows.get? p with
    | none =>
      simp only [Option.map_none, reduceCtorEq, false_iff, not_and, not_not]
      refine hlost p (fun s' hs' => ?_) s
      by_contra hne
      exact absurd ((hshown s').mpr ⟨hs', hne⟩) (by simp [hrow])
    | some row =>
      obtain ⟨hspan, hne⟩ := (hshown row.span).mp (by rw [hrow]; rfl)
      rcases Timeline.unstep_spanOf_append hsorted p with hback | ⟨-, -, hopen⟩
      · obtain ⟨hundo, hopen⟩ := Row.unstep_span (hbrought row hrow) older now
        rw [← hback, hspan, hundo]
        simp only [Option.map_some, Function.comp, Option.some.injEq, iff_self_and]
        rintro rfl
        rcases hopen with hopen | hopen
        · rw [hopen]
          exact not_erased_open
        · rw [hopen]
          exact hne
      · rw [hspan, Option.some.injEq] at hopen
        exact absurd hopen (hbrought row hrow)
  · intro p hp s hs
    rcases List.mem_append.mp hp with hp | hp
    · exact hlost p (hd.lost p hp) s hs
    · by_cases hpf : p ∈ d.forgotten
      · exact hlost p (hd.lost p hpf) s hs
      · obtain ⟨row, hrow, hspan⟩ := (hmem p).mp hp
        have hopen := ((hd.shown p hpf row.span).mp (by rw [hrow]; rfl)).1
        rw [hspan] at hopen
        rcases Timeline.unstep_spanOf_append hsorted p with hback | ⟨hcontent, ⟨x, y, hxy⟩, -⟩
        · rw [hopen, hs] at hback
          simp [Timeline.unstep] at hback
        · obtain ⟨c, hc, hle⟩ := (Timeline.rejoins_append.mp hrejoins).2 p hcontent x y hxy
          rw [hs, Option.some.injEq] at hxy
          exact ⟨y, c, by rw [hxy], hc, hle⟩
  · intro p hp row' hrow'
    simp only [Dict.get?_mapValues, Option.map_eq_some_iff] at hrow'
    obtain ⟨row, hrow, rfl⟩ := hrow'
    have hrest : ∀ e' ∈ h.rest, e' ∈ (h.append e).rest := fun e' he' => List.mem_append_left _ he'
    by_cases hpf : p ∈ d.forgotten
    · obtain ⟨y, hy, hle, hne⟩ := hd.trashed p hpf row hrow
      rw [Row.undo_of_not (hd.not_replaced hpf hrow) (by simp [hy])]
      exact ⟨y, hy, hle.trans hnow.le, fun e' he' => hne e' (hrest e' he')⟩
    · obtain ⟨row', hrow', hspan⟩ := (hmem p).mp ((List.mem_append.mp hp).resolve_left hpf)
      obtain rfl : row = row' := by
        rw [hrow, Option.some.injEq] at hrow'
        exact hrow'
      simp only [Row.span, Span.mk.injEq] at hspan
      have hundo := Row.undo_of_brought hspan.2 hspan.1 older now
      simp only [Row.span, Span.mk.injEq] at hundo
      exact ⟨now, hundo.2, le_rfl, fun e' he' => ((hpast e' (hrest e' he')).trans_lt hnow).ne⟩

/-- The same spans and the same forgets. -/
theorem Agrees.congr {d' : Document} {clock' : Time} (hd : Agrees d h horizon clock)
    (hrows : ∀ p, (d'.rows.get? p).map Row.span = (d.rows.get? p).map Row.span)
    (hforgotten : ∀ p, p ∈ d'.forgotten ↔ p ∈ d.forgotten) (hle : clock ≤ clock') :
    Agrees d' h horizon clock' := by
  constructor
  · intro p hp s
    rw [hrows]
    exact hd.shown p (fun hp' => hp ((hforgotten p).mpr hp')) s
  · exact fun p hp => hd.lost p ((hforgotten p).mp hp)
  · intro p hp row hrow
    have hspan := hrows p
    rw [hrow, Option.map_some, eq_comm, Option.map_eq_some_iff] at hspan
    obtain ⟨row', hrow', hs⟩ := hspan
    simp only [Row.span, Span.mk.injEq] at hs
    obtain ⟨y, hy, hyle, hne⟩ := hd.trashed p ((hforgotten p).mp hp) row' hrow'
    exact ⟨y, hs.2 ▸ hy, hyle.trans hle, hne⟩

theorem Agrees.interval_iff (hd : Agrees d h horizon clock) {p : String} {s : Span Time} :
    interval d p = some s ↔ h.spanOf p = some s ∧ ¬ Erased horizon s := by
  unfold interval
  by_cases hp : p ∈ d.forgotten
  · simp only [hp, if_true, reduceCtorEq, false_iff, not_and, not_not]
    exact hd.lost p hp s
  · rw [if_neg hp]
    exact hd.shown p hp s

theorem Agrees.mem_openPassages (hd : Agrees d h horizon clock) {p : String} :
    p ∈ openPassages d ↔ p ∈ h.current := by
  rw [Timeline.mem_current_iff, openPassages, Dict.mem_keys_iff]
  simp only [← hd.get?_currentVersionRows, Option.map_eq_some_iff, Versions.get?_currentVersionRows,
    Dict.get?_filter, Option.filter_eq_some_iff, isCurrent, Option.isNone_iff_eq_none]
  constructor
  · rintro ⟨row, hrow⟩
    exact ⟨row.validFrom, row, hrow, rfl⟩
  · rintro ⟨_, row, hrow, _⟩
    exact ⟨row, hrow⟩

theorem validAt_iff (row : Row) (t : Time) : validAt row (some t) = true ↔ row.span.Holds t := by
  cases hf : row.validFrom <;> cases ht : row.validTo <;>
    simp [validAt, Row.span, Span.Holds, hf, ht]

theorem mem_asOf {t : Time} {p : String} :
    p ∈ asOf d (some t) ↔ ∃ s, interval d p = some s ∧ s.Holds t := by
  rw [asOf, Dict.mem_keys_iff]
  by_cases hp : p ∈ d.forgotten
  · simp [interval, hp]
  · simp only [interval, hp, if_false, Dict.get?_filter, Option.filter_eq_some_iff,
      not_false_eq_true, decide_true, Bool.true_and, validAt_iff, Option.map_eq_some_iff]
    constructor
    · rintro ⟨row, hrow, ht⟩
      exact ⟨row.span, ⟨row, hrow, rfl⟩, ht⟩
    · rintro ⟨_, ⟨row, hrow, hs⟩, ht⟩
      exact ⟨row, hrow, hs ▸ ht⟩

theorem Agrees.mem_asOf_iff (hd : Agrees d h horizon clock) (hsorted : h.Sorted)
    (hrejoins : h.Rejoins (fun y => ∃ c, horizon = some c ∧ y ≤ c)) {t : Time}
    (ht : ∀ c, horizon = some c → c ≤ t) (p : String) : p ∈ asOf d (some t) ↔ p ∈ h.inForce t := by
  rw [mem_asOf, Timeline.mem_inForce_iff hsorted hrejoins
    (fun y ⟨c, hc, hle⟩ => hle.trans (ht c hc))]
  simp only [hd.interval_iff]
  constructor
  · rintro ⟨s, ⟨hs, -⟩, hholds⟩
    exact ⟨s, hs, hholds⟩
  · rintro ⟨s, hs, hholds⟩
    refine ⟨s, ⟨hs, ?_⟩, hholds⟩
    rintro ⟨y, c, hy, hc, hle⟩
    exact absurd (hholds.2 y hy) (not_lt.mpr (hle.trans (ht c hc)))

end

/-! ## Runs -/

/-- The starts of the versions there ever were and that are not undone. -/
def World.starts (w : World) : List Time := w.doc.ingestedAt :: w.history.rest.map Edition.start

/-- What holds along an onward run. -/
structure Inv (w : World) : Prop where
  agrees : Agrees w.doc w.history w.horizon w.clock
  rejoins : w.history.Rejoins (fun y => ∃ c, w.horizon = some c ∧ y ≤ c)
  recorded : (recordedVersions w.doc).map Version.validFrom <:+ w.starts
  increasing : w.starts.Pairwise (· < ·)
  past : ∀ t ∈ w.starts, t ≤ w.clock

theorem Inv.sorted {w : World} (hw : Inv w) : w.history.Sorted :=
  List.pairwise_map.mp (List.pairwise_cons.mp hw.increasing).2

theorem recordedVersions_ne_nil (d : Document) : recordedVersions d ≠ [] := by
  unfold recordedVersions
  split
  · simp
  · assumption

theorem World.horizon_eq_some_iff {w : World} {c : Time} :
    w.horizon = some c ↔ w.dropped = true ∧
      ∃ v rest, recordedVersions w.doc = v :: rest ∧ v.validFrom = c := by
  unfold World.horizon
  cases w.dropped
  · simp
  · cases hh : recordedVersions w.doc <;> simp

theorem Inv.horizon_le {w : World} (hw : Inv w) {c : Time} (hc : w.horizon = some c) {v : Version}
    (hv : v ∈ recordedVersions w.doc) : c ≤ v.validFrom := by
  obtain ⟨-, v₀, rest, hh, rfl⟩ := World.horizon_eq_some_iff.mp hc
  have hinc := hw.increasing.sublist hw.recorded.sublist
  rw [hh, List.map_cons, List.pairwise_cons] at hinc
  rw [hh] at hv
  rcases List.mem_cons.mp hv with rfl | hv
  · exact le_rfl
  · exact (hinc.1 v.validFrom (List.mem_map_of_mem hv)).le

theorem Inv.horizon_le_clock {w : World} (hw : Inv w) {c : Time} (hc : w.horizon = some c) :
    c ≤ w.clock := by
  obtain ⟨v, hv⟩ := List.exists_mem_of_ne_nil _ (recordedVersions_ne_nil w.doc)
  exact (hw.horizon_le hc hv).trans
    (hw.past _ (hw.recorded.subset (List.mem_map_of_mem hv)))

/-- The horizon only moves on. -/
def Later (w w' : World) : Prop := ∀ c, w.horizon = some c → ∃ c', w'.horizon = some c' ∧ c ≤ c'

theorem Later.trans {w w' w'' : World} (h : Later w w') (h' : Later w' w'') : Later w w'' := by
  intro c hc
  obtain ⟨c', hc', hle⟩ := h c hc
  obtain ⟨c'', hc'', hle'⟩ := h' c' hc'
  exact ⟨c'', hc'', hle.trans hle'⟩

theorem Later.erased {w w' : World} (h : Later w w') {s : Span Time} (hs : Erased w.horizon s) :
    Erased w'.horizon s := by
  obtain ⟨y, c, hy, hc, hle⟩ := hs
  obtain ⟨c', hc', hle'⟩ := h c hc
  exact ⟨y, c', hy, hc', hle.trans hle'⟩

theorem recordDocumentVersion_cases (kept : Nat) (prev d : Document) (version : Nat)
    (contentHash : String) (now : Time) :
    let versions := recordedVersions prev ++ [{ version, contentHash, validFrom := now }]
    (overKept kept versions.length = false ∧
      recordDocumentVersion kept prev d version contentHash now = { d with version, versions }) ∨
    (overKept kept versions.length = true ∧ ∃ oldest rest,
      oldest :: rest <:+ versions ∧
      recordDocumentVersion kept prev d version contentHash now =
        { retireVersions d oldest.validFrom with version, versions := oldest :: rest }) := by
  intro versions
  cases hover : overKept kept versions.length with
  | false =>
    refine Or.inl ⟨rfl, ?_⟩
    rw [recordDocumentVersion, if_neg (by simpa [versions] using hover)]
  | true =>
    refine Or.inr ⟨rfl, ?_⟩
    have hlt : versions.length - kept < versions.length := by
      simp only [overKept, Bool.and_eq_true, decide_eq_true_eq] at hover
      omega
    have hcons := List.drop_eq_getElem_cons hlt
    refine ⟨_, _, hcons ▸ List.drop_suffix _ _, ?_⟩
    rw [recordDocumentVersion, if_pos hover]
    simp only [show recordedVersions prev ++ [{ version, contentHash, validFrom := now }] = versions from rfl,
      hcons, List.head?_cons, Option.map_some, Option.getD_some]

theorem Inv.start (contentHash : String) (passages : List String) (now : Time) :
    Inv (start contentHash passages now) where
  agrees := by
    constructor
    · intro p _ s
      simp only [Versions.start, ingest, World.horizon, Timeline.spanOf, List.foldl_nil,
        Dict.get?_foldl_set_keys, Dict.get?_empty]
      by_cases hp : p ∈ passages
      · simp only [hp, if_true, Option.map_some, Row.span, Option.some.injEq, iff_self_and]
        exact fun hs => hs ▸ not_erased_open
      · simp [hp]
    · exact fun p hp => absurd hp (by simp [Versions.start, ingest])
    · exact fun p hp => absurd hp (by simp [Versions.start, ingest])
  rejoins := by
    intro before e after hsplit
    simp [Versions.start] at hsplit
  recorded := by simp [recordedVersions, World.starts, Versions.start, ingest]
  increasing := by simp [World.starts, Versions.start]
  past := by simp [World.starts, Versions.start, ingest]

/-- The text comes again, cut as before. -/
theorem Inv.reingest_same {w : World} (hw : Inv w) {kept : Nat} {contentHash : String}
    {passages : List String} {now : Time} (hsame : w.doc.contentHash = contentHash)
    (hok : Onward w (.reingest contentHash passages now)) :
    Inv (step kept w (.reingest contentHash passages now)) ∧
      Later w (step kept w (.reingest contentHash passages now)) := by
  subst hsame
  obtain ⟨hnow, hpass⟩ := hok
  simp only [ne_eq, not_true, if_false] at hpass
  have hiff : ∀ p, p ∈ passages ↔ ∃ x, w.history.spanOf p = some { opens := x, closes := none } :=
    fun p => ⟨fun hp => (Timeline.mem_current_iff _ _).mp (hpass.1 p hp),
      fun hp => hpass.2 p ((Timeline.mem_current_iff _ _).mpr hp)⟩
  simp only [step, ne_eq, not_true, if_false, reingest]
  refine ⟨⟨?_, hw.rejoins, hw.recorded, hw.increasing, fun t ht => (hw.past t ht).trans hnow.le⟩,
    fun c hc => ⟨c, hc, le_rfl⟩⟩
  refine hw.agrees.congr (fun p => ?_) (fun p => ?_) hnow.le
  · simp only [Dict.get?_filter, Dict.get?_foldl_set_keys]
    by_cases hp : p ∈ passages
    · obtain ⟨x, hx⟩ := (hiff p).mp hp
      have hrow := hw.agrees.get?_currentVersionRows.mpr hx
      rw [Option.map_eq_some_iff] at hrow
      obtain ⟨row, hrow, rfl⟩ := hrow
      obtain ⟨hget, ht⟩ := get?_currentVersionRows.mp hrow
      simp [hp, hrow, hget, openVersionMeta, Row.span, ht]
    · have hnone : p ∉ (currentVersionRows w.doc).keys := by
        rw [Dict.mem_keys_iff]
        rintro ⟨row, hrow⟩
        exact hp ((hiff p).mpr ⟨row.validFrom,
          hw.agrees.get?_currentVersionRows.mp (by rw [hrow]; rfl)⟩)
      cases w.doc.rows.get? p <;> simp [hp, hnone]
  · rw [List.mem_filter, and_iff_left_iff_imp]
    intro hforgotten
    simp only [decide_eq_true_eq]
    intro hp
    obtain ⟨x, hx⟩ := (hiff p).mp hp
    exact not_erased_open (hw.agrees.lost p hforgotten _ hx)

theorem World.erased_of_left {w : World} {p : String} (hleft : w.left p = false) {x : Option Time}
    {y : Time} (hspan : w.history.spanOf p = some { opens := x, closes := some y }) :
    ∃ c, w.horizon = some c ∧ y ≤ c := by
  unfold World.left at hleft
  rw [hspan, Option.bind_some] at hleft
  cases hc : w.horizon with
  | none => simp [hc] at hleft
  | some c => exact ⟨c, rfl, by simpa [hc] using hleft⟩

/-- An edition on top keeps the invariant, when the rows agree with it and the
record is an end of the versions there are. -/
theorem Inv.append {w w' : World} (hw : Inv w) {v : Version} {passages : List String}
    (hnow : w.clock < v.validFrom) (hpass : ∀ p ∈ passages, w.left p = false)
    (hhistory : w'.history = w.history.append { start := v.validFrom, content := passages })
    (hingested : w'.doc.ingestedAt = w.doc.ingestedAt) (hclock : w'.clock = v.validFrom)
    (hrecorded : recordedVersions w'.doc <:+ recordedVersions w.doc ++ [v])
    (hagrees : Agrees w'.doc w'.history w'.horizon w'.clock) (hlater : Later w w') : Inv w' := by
  have hstarts : w'.starts = w.starts ++ [v.validFrom] := by
    simp [World.starts, hhistory, hingested, Timeline.append]
  constructor
  · exact hagrees
  · have hrejoins : w'.history.Rejoins (fun y => ∃ c, w.horizon = some c ∧ y ≤ c) := by
      rw [hhistory, Timeline.rejoins_append]
      exact ⟨hw.rejoins, fun p hp x y hspan => World.erased_of_left (hpass p hp) hspan⟩
    refine hrejoins.mono ?_
    rintro y ⟨c, hc, hle⟩
    obtain ⟨c', hc', hle'⟩ := hlater c hc
    exact ⟨c', hc', hle.trans hle'⟩
  · obtain ⟨pre, hpre⟩ := hw.recorded
    have hall : (recordedVersions w.doc ++ [v]).map Version.validFrom <:+
        w.starts ++ [v.validFrom] :=
      ⟨pre, by rw [List.map_append, ← List.append_assoc, hpre]; rfl⟩
    rw [hstarts]
    exact (hrecorded.map Version.validFrom).trans hall
  · rw [hstarts, List.pairwise_append]
    refine ⟨hw.increasing, List.pairwise_singleton _ _, fun t ht t' ht' => ?_⟩
    rw [List.mem_singleton.mp ht']
    exact (hw.past t ht).trans_lt hnow
  · intro t ht
    rw [hstarts] at ht
    rw [hclock]
    rcases List.mem_append.mp ht with ht | ht
    · exact (hw.past t ht).trans hnow.le
    · exact (List.mem_singleton.mp ht).le

/-- A changed text. -/
theorem Inv.reingest_changed {w : World} (hw : Inv w) {kept : Nat} {contentHash : String}
    {passages : List String} {now : Time} (hchanged : w.doc.contentHash ≠ contentHash)
    (hok : Onward w (.reingest contentHash passages now)) :
    Inv (step kept w (.reingest contentHash passages now)) ∧
      Later w (step kept w (.reingest contentHash passages now)) := by
  obtain ⟨hnow, hpass⟩ := hok
  simp only [hchanged, ne_eq, not_false_eq_true, if_true] at hpass
  set v : Version := { version := w.doc.priorVersion + 1, contentHash, validFrom := now } with hv
  have hfresh := hw.agrees.reingest contentHash passages (w.doc.priorVersion + 1)
    w.doc.priorVersion hnow (fun c => hw.horizon_le_clock)
  simp only [step, hchanged, ne_eq, not_false_eq_true, if_true, reingest]
  rcases recordDocumentVersion_cases kept w.doc _ (w.doc.priorVersion + 1) contentHash now with
    ⟨hover, hdoc⟩ | ⟨hover, oldest, rest, hsuffix, hdoc⟩
  all_goals
    rw [List.length_append, List.length_singleton] at hover
    rw [hdoc, hover]
    set w' : World := World.mk _ _ _ _ with hw'
  · -- Every version stays on record, and with them the horizon.
    have hhead : (recordedVersions w.doc ++ [v]).head? = (recordedVersions w.doc).head? :=
      List.head?_append_of_ne_nil _ (recordedVersions_ne_nil w.doc)
    have hrec : recordedVersions w'.doc = recordedVersions w.doc ++ [v] := by
      simp [hw', recordedVersions, hv]
    have hhorizon : w'.horizon = w.horizon := by
      rw [World.horizon, hrec, hhead, World.horizon]
      simp [hw']
    have hlater : Later w w' := fun c hc => ⟨c, hhorizon ▸ hc, le_rfl⟩
    refine ⟨hw.append (v := v) hnow hpass rfl rfl rfl (hrec ▸ List.suffix_rfl) ?_ hlater, hlater⟩
    rw [hhorizon]
    exact ⟨hfresh.shown, hfresh.lost, hfresh.trashed⟩
  · -- The oldest version kept is the new horizon.
    have hrec : recordedVersions w'.doc = oldest :: rest := by
      simp [hw', recordedVersions]
    have hhorizon : w'.horizon = some oldest.validFrom := by
      rw [World.horizon, hrec]
      simp [hw']
    have hmem : oldest ∈ recordedVersions w.doc ++ [v] := hsuffix.subset List.mem_cons_self
    have hle : ∀ c, w.horizon = some c → c ≤ oldest.validFrom := by
      intro c hc
      rcases List.mem_append.mp hmem with hmem | hmem
      · exact hw.horizon_le hc hmem
      · rw [List.mem_singleton.mp hmem]
        exact (hw.horizon_le_clock hc).trans hnow.le
    have hlater : Later w w' := fun c hc => ⟨oldest.validFrom, hhorizon, hle c hc⟩
    have hretired := hfresh.retire hle
    refine ⟨hw.append (v := v) hnow hpass rfl rfl rfl (hrec ▸ hsuffix) ?_ hlater, hlater⟩
    rw [hhorizon]
    exact ⟨hretired.shown, hretired.lost, hretired.trashed⟩

theorem Inv.lastEdition {w : World} (hw : Inv w) {vs : List Version} {older newer : Version}
    (hvs : w.doc.versions = vs ++ [older] ++ [newer]) :
    ∃ (h : Timeline String Time) (e : Edition String Time),
      w.history = h.append e ∧ e.start = newer.validFrom ∧
      (vs ++ [older]).map Version.validFrom <:+ w.doc.ingestedAt :: h.rest.map Edition.start ∧
      ∀ c, w.horizon = some c → c < e.start := by
  have hrec : recordedVersions w.doc = vs ++ [older] ++ [newer] := by
    rw [recordedVersions, if_neg (by simp [hvs]), hvs]
  obtain ⟨pre, hpre⟩ := hw.recorded
  rw [hrec, List.map_append, ← List.append_assoc, List.map_singleton] at hpre
  obtain ⟨⟨first, rest⟩, hh⟩ : ∃ h, w.history = h := ⟨_, rfl⟩
  rw [World.starts, hh] at hpre
  rcases List.eq_nil_or_concat' rest with rfl | ⟨rest, e, rfl⟩
  · have hlen := congrArg List.length hpre
    simp at hlen
    omega
  · rw [show Timeline.rest { first, rest := rest ++ [e] } = rest ++ [e] from rfl,
      @List.map_append _ _ _ rest, ← List.cons_append] at hpre
    obtain ⟨hpre, hlast⟩ := List.append_inj' hpre rfl
    have hstart : newer.validFrom = e.start := by simpa using hlast
    refine ⟨{ first, rest }, e, hh, hstart.symm, ⟨pre, hpre⟩, fun c hc => ?_⟩
    rw [← hstart]
    have holder : older ∈ recordedVersions w.doc := by simp [hrec]
    refine (hw.horizon_le hc holder).trans_lt ?_
    have hinc := hw.increasing.sublist hw.recorded.sublist
    rw [hrec, List.map_append, List.pairwise_append] at hinc
    exact hinc.2.2 _ (by simp) _ (by simp)

theorem Inv.undoDocument_eq {w : World} (hw : Inv w) {vs : List Version} {older newer : Version}
    (hvs : w.doc.versions = vs ++ [older] ++ [newer]) (now : Time) :
    undoDocument w.doc now = .ok { w.doc with
      rows := w.doc.rows.mapValues (fun _ row => row.undo newer.validFrom older.version now)
      version := older.version
      versions := vs ++ [older]
      contentHash := if older.contentHash = "" then w.doc.contentHash else older.contentHash
      forgotten := w.doc.forgotten ++
        (w.doc.rows.filter (fun _ row => row.brought newer.validFrom)).keys } := by
  obtain ⟨h, e, hh, hstart, -, -⟩ := hw.lastEdition hvs
  have hany : w.doc.rows.items.any
      (fun p => p.2.replaced newer.validFrom && decide (p.1 ∈ w.doc.forgotten)) = false := by
    rw [List.any_eq_false]
    rintro ⟨p, row⟩ hmem hp
    simp only [Bool.and_eq_true, Row.replaced_iff, decide_eq_true_eq] at hp
    rw [Dict.mem_items_iff] at hmem
    exact (hh ▸ hw.agrees).not_replaced hp.2 hmem (hstart ▸ hp.1)
  simp [undoDocument, hvs, hany]

theorem Inv.tick {w : World} (hw : Inv w) {now : Time} (hnow : w.clock < now) :
    Inv { w with clock := now } where
  agrees := hw.agrees.congr (fun _ => rfl) (fun _ => Iff.rfl) hnow.le
  rejoins := hw.rejoins
  recorded := hw.recorded
  increasing := hw.increasing
  past t ht := (hw.past t ht).trans hnow.le

theorem Inv.undo {w : World} (hw : Inv w) {kept : Nat} {now : Time} (hnow : w.clock < now) :
    Inv (step kept w (.undo now)) ∧ Later w (step kept w (.undo now)) := by
  have hrefused : w.doc.versions.length ≤ 1 → Inv (step kept w (.undo now)) ∧
      Later w (step kept w (.undo now)) := by
    intro hlen
    have herror : undoDocument w.doc now = .error "this document has no earlier version" := by
      unfold undoDocument
      rcases hrev : w.doc.versions.reverse with _ | ⟨newer, _ | ⟨older, vs⟩⟩
      · rfl
      · rfl
      · have := congrArg List.length hrev
        simp at this
        omega
    simp only [step, herror]
    exact ⟨hw.tick hnow, fun c hc => ⟨c, hc, le_rfl⟩⟩
  rcases List.eq_nil_or_concat' w.doc.versions with hvs | ⟨vs, newer, hvs⟩
  · exact hrefused (by simp [hvs])
  rcases List.eq_nil_or_concat' vs with rfl | ⟨vs, older, rfl⟩
  · exact hrefused (by simp [hvs])
  obtain ⟨h, e, hh, hstart, hsuffix, hhorizon⟩ := hw.lastEdition hvs
  have hsorted := hw.sorted
  have hpast := hw.past
  have hincreasing := hw.increasing
  have hrejoins := hw.rejoins
  have hagrees := hw.agrees
  rw [World.starts, hh] at hpast hincreasing
  rw [hh] at hsorted hrejoins hagrees
  have hstarts : w.doc.ingestedAt :: (h.append e).rest.map Edition.start =
      (w.doc.ingestedAt :: h.rest.map Edition.start) ++ [e.start] := by
    simp [Timeline.append]
  rw [hstarts] at hpast hincreasing
  have hundone := hagrees.undo hnow hsorted
    (fun e' he' => hpast _ (by
      rw [← hstarts]
      exact List.mem_cons_of_mem _ (List.mem_map_of_mem he'))) hhorizon hrejoins older.version
  simp only [step, hw.undoDocument_eq hvs, ← hstart, hh]
  set w' : World := World.mk _ _ _ _ with hw'
  have hdrop : w'.history = h := by
    simp [hw', Timeline.append, Timeline.dropLast]
  have hrec : recordedVersions w'.doc = vs ++ [older] := by
    simp [hw', recordedVersions]
  have hsame : w'.horizon = w.horizon := by
    have hold : recordedVersions w.doc = vs ++ [older] ++ [newer] := by
      rw [recordedVersions, if_neg (by simp [hvs]), hvs]
    rw [World.horizon, World.horizon, hrec, hold,
      List.head?_append_of_ne_nil (vs ++ [older]) (by simp)]
  have hstarts' : w'.starts = w.doc.ingestedAt :: h.rest.map Edition.start := by
    rw [World.starts, hdrop]
  refine ⟨⟨?_, ?_, ?_, ?_, ?_⟩, fun c hc => ⟨c, hsame ▸ hc, le_rfl⟩⟩
  · rw [hdrop, hsame]
    exact ⟨hundone.shown, hundone.lost, hundone.trashed⟩
  · rw [hdrop, hsame]
    exact (Timeline.rejoins_append.mp hrejoins).1
  · rw [hrec, hstarts']
    exact hsuffix
  · rw [hstarts']
    exact (List.pairwise_append.mp hincreasing).1
  · rw [hstarts']
    exact fun t ht => (hpast t (List.mem_append_left _ ht)).trans hnow.le

theorem Inv.step {w : World} (hw : Inv w) {kept : Nat} {e : Event} (hok : Onward w e) :
    Inv (step kept w e) ∧ Later w (Versions.step kept w e) := by
  cases e with
  | undo now => exact hw.undo hok.1
  | reingest contentHash passages now =>
    by_cases hsame : w.doc.contentHash = contentHash
    · exact hw.reingest_same hsame hok
    · exact hw.reingest_changed hsame hok

theorem Inv.run {w : World} (hw : Inv w) {kept : Nat} {events : List Event}
    (h : Along (Versions.step kept) Onward w events) :
    Inv (run kept w events) ∧ Later w (Versions.run kept w events) := by
  refine h.invariant (fun w' => Inv w' ∧ Later w w') (fun w' e hw' hok => ?_)
    ⟨hw, fun c hc => ⟨c, hc, le_rfl⟩⟩
  obtain ⟨hinv, hlater⟩ := hw'.1.step hok
  exact ⟨hinv, hw'.2.trans hlater⟩

end Cerid.Versions
