import Cerid.Retrieval.Bm25
import Cerid.Lib.Run

/-!
# A keyword corpus and crashes

An add appends the lines of its documents, and a crash may cut what it writes at any byte;
the new process loads the corpus.  A load ends at the first line that does not decode, with
an empty index, and the next append goes on where the last one was cut.

Beside the domain stands what a reader would expect of it: the documents whose text was
written whole and which were not removed since.
-/

namespace Cerid.Retrieval

open Text (joined cutLines)

/-! ## Runs with crashes -/

/-- The rows whose text stands whole in the first `n` bytes of their lines. -/
def landed : List Row → Nat → List Row
  | [], _ => []
  | r :: rest, n => if n < r.line.length then [] else r :: landed rest (n - r.line.length - 1)

/-- The first `n` bytes end within a line. -/
def tears : List Row → Nat → Bool
  | [], _ => false
  | r :: rest, n => if n < r.line.length then n ≠ 0 else tears rest (n - r.line.length - 1)

/-- An operation, or an add that a crash cuts after `n` bytes and the process that loads
the corpus then. -/
inductive Event where
  | op (op : Op)
  | torn (chunkIds texts : List String) (tenantId : Option String) (n now : Nat)

/-- A domain, and the documents that were written and not removed since. -/
structure Shelf where
  domain : Domain
  written : List Row

def Shelf.start : Shelf := { domain := .start, written := [] }

variable (defaultTenant : String) (debounce : Nat)

/-- The entries that an add would append. -/
def newEntries (w : Domain) (chunkIds texts : List String) (tenantId : Option String) : List Row :=
  (addEntries defaultTenant w.index chunkIds texts tenantId).2

/-- What an operation makes of the documents that are expected. -/
def expected (w : Shelf) : Op → List Row
  | .addDocuments chunkIds texts tenantId =>
    w.written ++ newEntries defaultTenant w.domain chunkIds texts tenantId
  | .removeDocuments chunkIds => removeRows w.written chunkIds
  | .rekey mapping => rekeyRows w.written mapping
  | _ => w.written

def Shelf.step (w : Shelf) : Event → Shelf
  | .op op =>
    { domain := w.domain.step defaultTenant debounce op, written := expected defaultTenant w op }
  | .torn chunkIds texts tenantId n now =>
    let entries := newEntries defaultTenant w.domain chunkIds texts tenantId
    let file := w.domain.file ++ (payload entries).take n
    { domain := reload defaultTenant now { w.domain with file }
      written := w.written ++ landed entries n }

/-- Loading the corpus after the step gives an index with every document that was written
and not removed. -/
def Shelf.Keeps (w : Shelf) (e : Event) : Prop :=
  ∀ now, ∀ r ∈ (w.step defaultTenant debounce e).written,
    r ∈ (load defaultTenant now (w.step defaultTenant debounce e).domain.file).rows defaultTenant

/-- The last line of the file was ended. -/
def ended (file : List Char) : Prop := file = [] ∨ file.getLast? = some '\n'

/-- An append starts on a fresh line, and a crash leaves no part of a line unless the file
has no document yet. -/
def Shelf.Clean (w : Shelf) : Event → Prop
  | .op (.addDocuments chunkIds texts tenantId) =>
    newEntries defaultTenant w.domain chunkIds texts tenantId = [] ∨ ended w.domain.file
  | .torn chunkIds texts tenantId n _ =>
    let entries := newEntries defaultTenant w.domain chunkIds texts tenantId
    ((payload entries).take n = [] ∨ ended w.domain.file) ∧
      (tears entries n = false ∨ w.written ++ landed entries n = [])
  | _ => True

instance (file : List Char) : Decidable (ended file) := inferInstanceAs (Decidable (_ ∨ _))

instance (w : Shelf) : DecidablePred (w.Clean defaultTenant)
  | .op (.addDocuments ..) => inferInstanceAs (Decidable (_ ∨ _))
  | .torn .. => inferInstanceAs (Decidable ((_ ∨ _) ∧ (_ ∨ _)))
  | .op (.removeDocuments _) | .op (.rekey _) | .op (.search ..) | .op (.rebuild _)
  | .op (.reload _) => isTrue trivial

/-! ## What a cut leaves -/

theorem row_line_pos (r : Row) : 0 < r.line.length := by
  obtain ⟨cs, h⟩ := row_line_eq r
  rw [h]
  exact Nat.succ_pos _

theorem landed_zero (rows : List Row) : landed rows 0 = [] := by
  cases rows with
  | nil => rfl
  | cons r rest => rw [landed, if_pos (row_line_pos r)]

theorem tears_zero (rows : List Row) : tears rows 0 = false := by
  cases rows with
  | nil => rfl
  | cons r rest => rw [tears, if_pos (row_line_pos r)]; rfl

theorem landed_isPrefix (rows : List Row) (n : Nat) : landed rows n <+: rows := by
  induction rows generalizing n with
  | nil => exact List.prefix_rfl
  | cons r rest ih =>
    rw [landed]
    split
    · exact List.nil_prefix
    · exact (List.prefix_cons_inj r).mpr (ih _)

/-- What is left of a line that was cut. -/
structure Fragment (cs : List Char) : Prop where
  ne : cs ≠ []
  part : ∃ (r : Row) (b : List Char), b ≠ [] ∧ r.line = cs ++ b

/-- What a cut leaves: whole lines and nothing, or a last one that was not ended, or a part
of one. -/
theorem cutLines_rows (rows : List Row) (n : Nat) : ∃ pre tail,
    cutLines (rows.map Row.line) n = (pre.map Row.line, tail) ∧
      (tears rows n = false ∧ landed rows n = pre ∧ tail = [] ∨
        tears rows n = false ∧ (∃ r, landed rows n = pre ++ [r] ∧ tail = r.line) ∨
        tears rows n = true ∧ landed rows n = pre ∧ Fragment tail) := by
  induction rows generalizing n with
  | nil => exact ⟨[], [], rfl, Or.inl ⟨rfl, rfl, rfl⟩⟩
  | cons r rest ih =>
    rw [List.map_cons, cutLines, tears, landed]
    by_cases hlt : n < r.line.length
    · rw [if_pos hlt.le, if_pos hlt, if_pos hlt]
      refine ⟨[], r.line.take n, rfl, ?_⟩
      by_cases hn : n = 0
      · subst hn
        exact Or.inl ⟨rfl, rfl, List.take_zero⟩
      · refine Or.inr (Or.inr ⟨decide_eq_true hn, rfl, ?_, r, r.line.drop n, ?_, ?_⟩)
        · intro hnil
          rw [List.take_eq_nil_iff] at hnil
          rcases hnil with hnil | hnil
          · exact hn hnil
          · exact absurd (row_line_pos r) (by rw [hnil]; exact Nat.lt_irrefl 0)
        · rw [ne_eq, List.drop_eq_nil_iff]
          omega
        · exact (List.take_append_drop n r.line).symm
    · rw [if_neg hlt, if_neg hlt]
      by_cases heq : n ≤ r.line.length
      · have hn : n = r.line.length := by omega
        have hzero : n - r.line.length - 1 = 0 := by omega
        rw [if_pos heq, hzero, landed_zero, tears_zero]
        exact ⟨[], _, rfl, Or.inr (Or.inl ⟨rfl, r, rfl, by rw [hn, List.take_length]⟩)⟩
      · rw [if_neg heq]
        obtain ⟨pre, tail, hcut, hcases⟩ := ih (n - r.line.length - 1)
        rw [hcut]
        refine ⟨r :: pre, tail, rfl, ?_⟩
        rcases hcases with ⟨ht, hl, htail⟩ | ⟨ht, r', hl, htail⟩ | ⟨ht, hl, htail⟩
        · exact Or.inl ⟨ht, by rw [hl], htail⟩
        · exact Or.inr (Or.inl ⟨ht, r', by rw [hl]; rfl, htail⟩)
        · exact Or.inr (Or.inr ⟨ht, by rw [hl], htail⟩)

/-! ## Loading after a crash -/

theorem Fragment.printable {cs : List Char} (h : Fragment cs) : Json.Printable cs := by
  obtain ⟨r, b, -, hr⟩ := h.part
  intro c hc
  refine printable_row r c ?_
  rw [hr]
  exact List.mem_append_left b hc

/-- A part of a line, stripped, is still a part of it. -/
theorem Fragment.strip {cs : List Char} (h : Fragment cs) : Fragment (Text.strip cs) := by
  obtain ⟨hne, r, b, hb, hr⟩ := h
  obtain ⟨line, hline⟩ := row_line_eq r
  obtain ⟨c, cs, rfl⟩ := List.exists_cons_of_ne_nil hne
  rw [hline, List.cons_append, List.cons.injEq] at hr
  have hdrop : (c :: cs).dropWhile Text.isSpace = c :: cs := by
    rw [← hr.1]
    exact List.dropWhile_cons_of_neg (by decide)
  rw [Text.strip, hdrop]
  obtain ⟨t, ht⟩ := List.rdropWhile_prefix Text.isSpace (c :: cs)
  refine ⟨?_, r, t ++ b, by simp [hb], ?_⟩
  · intro hnil
    rw [List.rdropWhile_eq_nil_iff] at hnil
    have hspace := hnil c List.mem_cons_self
    rw [← hr.1] at hspace
    cases hspace
  · rw [← List.append_assoc, ht, hline, List.cons_append, hr.1, hr.2]

theorem loadLine_fragment {cs : List Char} (h : Fragment cs) (idx : Index) :
    loadLine defaultTenant idx cs = none := by
  obtain ⟨hne, r, b, hb, hr⟩ := h.strip
  rw [loadLine, if_neg hne, Json.loads_cut (written_row r) hb hr]
  rfl

/-- A load that meets a part of a line gives an empty index. -/
theorem load_fragment (now : Nat) (rows : List Row) {cs : List Char} (h : Fragment cs) :
    load defaultTenant now (joined (rows.map Row.line) cs) = Index.start := by
  rw [load, fileLines_joined rows h.printable, if_neg h.ne, List.foldlM_append, foldlM_loadLine]
  simp only [Option.bind_eq_bind, Option.bind_some, List.foldlM_cons, loadLine_fragment defaultTenant h,
    Option.bind_none]

theorem not_ended_joined (lines : List (List Char)) {tail : List Char} (hne : tail ≠ [])
    (h : Json.Printable tail) : ¬ ended (joined lines tail) := by
  rcases List.eq_nil_or_concat tail with rfl | ⟨init, c, rfl⟩
  · exact absurd rfl hne
  · have hc := h c (by simp)
    rintro (hnil | hlast)
    · simp [joined] at hnil
    · simp [joined] at hlast
      rw [hlast] at hc
      exact absurd hc (by decide)

/-! ## The invariant -/

/-- The file has every document that was written, and the index has read them all. -/
structure Whole (w : Shelf) : Prop where
  aligned : w.domain.index.Aligned
  rows : w.domain.index.rows defaultTenant = w.written
  file : ∃ (rows last : List Row) (tail : List Char),
    w.domain.file = joined (rows.map Row.line) tail ∧ w.written = rows ++ last ∧
      (last = [] ∧ tail = [] ∨ ∃ r, last = [r] ∧ tail = r.line)

/-- Nothing was written but a part of a first line. -/
structure Stuck (w : Shelf) : Prop where
  aligned : w.domain.index.Aligned
  rows : w.domain.index.rows defaultTenant = []
  written : w.written = []
  file : Fragment w.domain.file

theorem Whole.nodup {w : Shelf} (h : Whole defaultTenant w) :
    (w.written.map Row.id).Nodup := by
  rw [← h.rows, h.aligned.ids]
  exact h.aligned.nodup

/-- A whole corpus is read in full. -/
theorem Whole.load {w : Shelf} (h : Whole defaultTenant w) (now : Nat) :
    (load defaultTenant now w.domain.file).Aligned ∧
      (load defaultTenant now w.domain.file).rows defaultTenant = w.written := by
  obtain ⟨rows, last, tail, hfile, hwritten, hlast⟩ := h.file
  have hnd := h.nodup
  rw [hwritten] at hnd ⊢
  rw [hfile]
  exact load_rows defaultTenant now hlast hnd

theorem whole_start : Whole defaultTenant Shelf.start where
  aligned := aligned_start
  rows := rfl
  file := ⟨[], [], [], rfl, rfl, Or.inl ⟨rfl, rfl⟩⟩

theorem ended_iff {w : Shelf} (h : Whole defaultTenant w) (hend : ended w.domain.file) :
    w.domain.file = payload w.written := by
  obtain ⟨rows, last, tail, hfile, hwritten, ⟨rfl, rfl⟩ | ⟨r, rfl, rfl⟩⟩ := h.file
  · rw [hfile, hwritten, List.append_nil]
    rfl
  · have hne : r.line ≠ [] := List.ne_nil_of_length_pos (row_line_pos r)
    rw [hfile] at hend
    exact absurd hend (not_ended_joined _ hne (printable_row r))

/-- A corpus that was rewritten, or appended to on a fresh line. -/
theorem whole_payload {idx : Index} {rows : List Row} (h : idx.Aligned)
    (hrows : idx.rows defaultTenant = rows) :
    Whole defaultTenant { domain := { index := idx, file := payload rows }, written := rows } where
  aligned := h
  rows := hrows
  file := ⟨rows, [], [], rfl, (List.append_nil rows).symm, Or.inl ⟨rfl, rfl⟩⟩

theorem newEntries_rows {w : Domain} (h : w.index.Aligned) (chunkIds texts : List String)
    (tenantId : Option String) :
    (addEntries defaultTenant w.index chunkIds texts tenantId).1.Aligned ∧
      (addEntries defaultTenant w.index chunkIds texts tenantId).1.rows defaultTenant =
        w.index.rows defaultTenant ++ newEntries defaultTenant w chunkIds texts tenantId := by
  obtain ⟨ha, -, hrows⟩ := addEntries_rows defaultTenant h chunkIds texts tenantId
  exact ⟨ha, hrows⟩

theorem whole_addDocuments {w : Shelf} (h : Whole defaultTenant w) (chunkIds texts : List String)
    (tenantId : Option String)
    (hclean : w.Clean defaultTenant (.op (.addDocuments chunkIds texts tenantId))) :
    Whole defaultTenant (w.step defaultTenant debounce (.op (.addDocuments chunkIds texts tenantId))) := by
  obtain ⟨ha, hrows⟩ := newEntries_rows defaultTenant h.aligned chunkIds texts tenantId
  rw [h.rows] at hrows
  rcases hclean with hnone | hend
  · have hpayload : payload (newEntries defaultTenant w.domain chunkIds texts tenantId) = [] := by
      rw [hnone]
      rfl
    have hfile : (w.step defaultTenant debounce (.op (.addDocuments chunkIds texts tenantId))).domain.file =
        w.domain.file := by
      show w.domain.file ++ payload (newEntries defaultTenant w.domain chunkIds texts tenantId) = _
      rw [hpayload, List.append_nil]
    have hwritten : (w.step defaultTenant debounce (.op (.addDocuments chunkIds texts tenantId))).written =
        w.written := by
      show w.written ++ newEntries defaultTenant w.domain chunkIds texts tenantId = _
      rw [hnone, List.append_nil]
    refine ⟨ha, hrows, ?_⟩
    rw [hfile, hwritten]
    exact h.file
  · have hfile := ended_iff defaultTenant h hend
    have hstep : w.step defaultTenant debounce (.op (.addDocuments chunkIds texts tenantId)) = {
        domain := {
          index := (addEntries defaultTenant w.domain.index chunkIds texts tenantId).1
          file := payload (w.written ++ newEntries defaultTenant w.domain chunkIds texts tenantId) }
        written := w.written ++ newEntries defaultTenant w.domain chunkIds texts tenantId } := by
      rw [← payload_append, ← hfile]
      rfl
    rw [hstep]
    exact whole_payload defaultTenant ha hrows

/-- A removal or a rename rewrites the corpus, or changes nothing. -/
theorem whole_rewrite {w : Shelf} (h : Whole defaultTenant w) {domain : Domain} {written : List Row}
    (ha : domain.index.Aligned) (hrows : domain.index.rows defaultTenant = written)
    (hdomain : domain = w.domain ∨ domain.file = payload (domain.index.rows defaultTenant)) :
    Whole defaultTenant { domain, written } := by
  rcases hdomain with rfl | hfile
  · refine ⟨ha, hrows, ?_⟩
    rw [← hrows, h.rows]
    exact h.file
  · obtain ⟨index, file⟩ := domain
    simp only at hfile
    rw [hfile, hrows]
    exact whole_payload defaultTenant ha hrows

theorem whole_reload {w : Shelf} (h : Whole defaultTenant w) (now : Nat) :
    Whole defaultTenant (w.step defaultTenant debounce (.op (.reload now))) where
  aligned := (h.load defaultTenant now).1
  rows := (h.load defaultTenant now).2
  file := h.file

theorem take_payload (rows : List Row) (n : Nat) :
    (payload rows).take n =
      joined (cutLines (rows.map Row.line) n).1 (cutLines (rows.map Row.line) n).2 :=
  Text.take_joined _ n

/-- What a new process makes of a corpus of whole lines. -/
theorem whole_of_file (now : Nat) {rows last : List Row} {tail : List Char}
    (hlast : last = [] ∧ tail = [] ∨ ∃ r, last = [r] ∧ tail = r.line)
    (hnd : ((rows ++ last).map Row.id).Nodup) :
    Whole defaultTenant {
      domain := {
        index := load defaultTenant now (joined (rows.map Row.line) tail)
        file := joined (rows.map Row.line) tail }
      written := rows ++ last } where
  aligned := (load_rows defaultTenant now hlast hnd).1
  rows := (load_rows defaultTenant now hlast hnd).2
  file := ⟨rows, last, tail, rfl, rfl, hlast⟩

theorem stuck_of_file (now : Nat) {file : List Char} (h : Fragment file) :
    Stuck defaultTenant {
      domain := { index := load defaultTenant now file, file }, written := [] } := by
  have hload : load defaultTenant now file = Index.start := load_fragment defaultTenant now [] h
  rw [hload]
  exact ⟨aligned_start, rfl, rfl, h⟩

/-- A cut that left nothing landed nothing. -/
theorem landed_of_take_nil {rows : List Row} {n : Nat} (h : (payload rows).take n = []) :
    landed rows n = [] := by
  obtain ⟨pre, tail, hcut, hcases⟩ := cutLines_rows rows n
  rw [take_payload, hcut, joined, List.append_eq_nil_iff] at h
  have hpre : pre = [] := by
    cases pre with
    | nil => rfl
    | cons r rest => simp at h
  rcases hcases with ⟨-, hl, -⟩ | ⟨-, r, -, htail⟩ | ⟨-, hl, -⟩
  · rw [hl, hpre]
  · have hnil : tail = [] := h.2
    rw [hnil] at htail
    exact absurd (row_line_pos r) (by rw [← htail]; exact Nat.lt_irrefl 0)
  · rw [hl, hpre]

/-- A cut add, on a corpus that was whole before. -/
theorem whole_torn {w : Shelf} (h : Whole defaultTenant w) (chunkIds texts : List String)
    (tenantId : Option String) (n now : Nat)
    (hclean : w.Clean defaultTenant (.torn chunkIds texts tenantId n now)) :
    Whole defaultTenant (w.step defaultTenant debounce (.torn chunkIds texts tenantId n now)) ∨
      Stuck defaultTenant (w.step defaultTenant debounce (.torn chunkIds texts tenantId n now)) := by
  obtain ⟨ha, hrows⟩ := newEntries_rows defaultTenant h.aligned chunkIds texts tenantId
  rw [h.rows] at hrows
  obtain ⟨happend, htears⟩ := hclean
  simp only [Shelf.step, reload]
  generalize newEntries defaultTenant w.domain chunkIds texts tenantId = entries at *
  have hnd : ((w.written ++ landed entries n).map Row.id).Nodup := by
    have hall : ((w.written ++ entries).map Row.id).Nodup := by
      rw [← hrows, ha.ids]
      exact ha.nodup
    exact hall.sublist (((List.Sublist.refl _).append (landed_isPrefix entries n).sublist).map _)
  rcases happend with hnil | hend
  · rw [hnil, landed_of_take_nil hnil, List.append_nil, List.append_nil]
    exact Or.inl (whole_reload defaultTenant debounce h now)
  · obtain ⟨pre, tail, hcut, hcases⟩ := cutLines_rows entries n
    have hfile : w.domain.file ++ (payload entries).take n =
        joined ((w.written ++ pre).map Row.line) tail := by
      rw [ended_iff defaultTenant h hend, take_payload, hcut, payload, List.map_append,
        Text.joined_append]
    rw [hfile]
    rcases hcases with ⟨-, hl, rfl⟩ | ⟨-, r, hl, rfl⟩ | ⟨ht, hl, hfragment⟩
    · rw [hl] at hnd ⊢
      rw [← List.append_nil (w.written ++ pre)] at hnd
      have hwhole := whole_of_file defaultTenant now (Or.inl ⟨rfl, rfl⟩) hnd
      rw [List.append_nil] at hwhole
      exact Or.inl hwhole
    · rw [hl, ← List.append_assoc] at hnd ⊢
      exact Or.inl (whole_of_file defaultTenant now (Or.inr ⟨r, rfl, rfl⟩) hnd)
    · have hnone : w.written ++ pre = [] := by
        rcases htears with htears | htears
        · rw [htears] at ht
          cases ht
        · rw [hl] at htears
          exact htears
      rw [hl, hnone]
      exact Or.inr (stuck_of_file defaultTenant now hfragment)

/-- Nothing but a part of a line is left as it is. -/
theorem stuck_step {w : Shelf} (h : Stuck defaultTenant w) (e : Event)
    (hclean : w.Clean defaultTenant e) : Stuck defaultTenant (w.step defaultTenant debounce e) := by
  have hids : w.domain.index.docIds = [] := by
    rw [← h.aligned.ids defaultTenant, h.rows]
    rfl
  have hset : ∀ id, id ∉ w.domain.index.docIdSet := by
    intro id hid
    rw [h.aligned.set, hids] at hid
    cases hid
  have hended : ¬ ended w.domain.file := by
    have heq : w.domain.file = joined [] w.domain.file := rfl
    rw [heq]
    exact not_ended_joined [] h.file.ne h.file.printable
  have hsame : ∀ index : Index, index.Aligned →
      index.rows defaultTenant = w.domain.index.rows defaultTenant →
      Stuck defaultTenant { domain := { w.domain with index }, written := w.written } :=
    fun index ha hrows => ⟨ha, hrows.trans h.rows, h.written, h.file⟩
  have hreload : ∀ now, Stuck defaultTenant {
      domain := { index := load defaultTenant now w.domain.file, file := w.domain.file }
      written := [] } := fun now => stuck_of_file defaultTenant now h.file
  cases e with
  | torn chunkIds texts tenantId n now =>
    have hnil := hclean.1.resolve_right hended
    simp only [Shelf.step, reload, hnil, landed_of_take_nil hnil, List.append_nil, h.written]
    exact hreload now
  | op op =>
    cases op with
    | addDocuments chunkIds texts tenantId =>
      obtain ⟨ha, hrows⟩ := newEntries_rows defaultTenant h.aligned chunkIds texts tenantId
      have hnone := hclean.resolve_right hended
      have hpayload : payload (newEntries defaultTenant w.domain chunkIds texts tenantId) = [] := by
        rw [hnone]
        rfl
      have hstep : w.step defaultTenant debounce (.op (.addDocuments chunkIds texts tenantId)) = {
          domain := {
            index := (addEntries defaultTenant w.domain.index chunkIds texts tenantId).1
            file := w.domain.file ++
              payload (newEntries defaultTenant w.domain chunkIds texts tenantId) }
          written := w.written ++ newEntries defaultTenant w.domain chunkIds texts tenantId } := rfl
      rw [hstep, hpayload, hnone, List.append_nil, List.append_nil]
      rw [hnone, List.append_nil] at hrows
      exact hsame _ ha hrows
    | removeDocuments chunkIds =>
      have hnone : chunkIds.filter (· ∈ w.domain.index.docIdSet) = [] := by
        rw [List.filter_eq_nil_iff]
        intro id _
        simp [hset id]
      have hstep : removeDocuments defaultTenant w.domain chunkIds = w.domain := by
        unfold removeDocuments
        simp only
        rw [if_pos hnone]
      simp only [Shelf.step, Domain.step, expected, hstep, h.written]
      exact ⟨h.aligned, h.rows, rfl, h.file⟩
    | rekey mapping =>
      have hstep : rekey defaultTenant w.domain mapping = w.domain := by
        unfold rekey
        simp only
        rw [hids, List.filter_nil, if_pos rfl]
      simp only [Shelf.step, Domain.step, expected, hstep, h.written]
      exact ⟨h.aligned, h.rows, rfl, h.file⟩
    | search query topK tenantId now waited =>
      obtain ⟨ha, hrows⟩ := maybeRebuild_rows defaultTenant debounce now waited h.aligned
      exact hsame _ ha hrows
    | rebuild now =>
      obtain ⟨ha, hrows⟩ := rebuild_rows defaultTenant now h.aligned
      exact hsame _ ha hrows
    | reload now =>
      have hw := h.written
      simp only [Shelf.step, Domain.step, expected, reload, hw]
      exact hreload now

/-- Each clean step keeps what was written, or leaves nothing. -/
theorem step_kept {w : Shelf} (h : Whole defaultTenant w ∨ Stuck defaultTenant w) (e : Event)
    (hclean : w.Clean defaultTenant e) :
    Whole defaultTenant (w.step defaultTenant debounce e) ∨
      Stuck defaultTenant (w.step defaultTenant debounce e) := by
  rcases h with h | h
  · have hsame : ∀ index : Index, index.Aligned →
        index.rows defaultTenant = w.domain.index.rows defaultTenant →
        Whole defaultTenant { domain := { w.domain with index }, written := w.written } :=
      fun index ha hrows => ⟨ha, hrows.trans h.rows, h.file⟩
    cases e with
    | torn chunkIds texts tenantId n now =>
      exact whole_torn defaultTenant debounce h chunkIds texts tenantId n now hclean
    | op op =>
      refine Or.inl ?_
      cases op with
      | addDocuments chunkIds texts tenantId =>
        exact whole_addDocuments defaultTenant debounce h chunkIds texts tenantId hclean
      | removeDocuments chunkIds =>
        obtain ⟨ha, hrows⟩ := removeDocuments_rows defaultTenant h.aligned chunkIds
        rw [h.rows] at hrows
        exact whole_rewrite defaultTenant h ha hrows
          (removeDocuments_file defaultTenant w.domain chunkIds)
      | rekey mapping =>
        obtain ⟨ha, hrows⟩ := rekey_rows defaultTenant h.aligned mapping
        rw [h.rows] at hrows
        exact whole_rewrite defaultTenant h ha hrows (rekey_file defaultTenant w.domain mapping)
      | search query topK tenantId now waited =>
        obtain ⟨ha, hrows⟩ := maybeRebuild_rows defaultTenant debounce now waited h.aligned
        exact hsame _ ha hrows
      | rebuild now =>
        obtain ⟨ha, hrows⟩ := rebuild_rows defaultTenant now h.aligned
        exact hsame _ ha hrows
      | reload now => exact whole_reload defaultTenant debounce h now
  · exact Or.inr (stuck_step defaultTenant debounce h e hclean)

theorem keeps_of_inv {w : Shelf} {e : Event}
    (h : Whole defaultTenant (w.step defaultTenant debounce e) ∨
      Stuck defaultTenant (w.step defaultTenant debounce e)) : w.Keeps defaultTenant debounce e := by
  intro now r hr
  rcases h with h | h
  · rw [(h.load defaultTenant now).2]
    exact hr
  · rw [h.written] at hr
    cases hr

/-- In every run of adds, removals, renames, searches, rebuilds, reloads and crashes during
an add, all of which are clean, the corpus loads after each step with every document that
was written and not removed. -/
theorem corpus_kept (run : List Event)
    (h : Along (Shelf.step defaultTenant debounce) (Shelf.Clean defaultTenant) Shelf.start run) :
    Along (Shelf.step defaultTenant debounce) (Shelf.Keeps defaultTenant debounce) Shelf.start run :=
  Along.imp (fun w => Whole defaultTenant w ∨ Stuck defaultTenant w)
    (fun _ e hw hclean => keeps_of_inv defaultTenant debounce
      (step_kept defaultTenant debounce hw e hclean))
    (fun _ e hw hclean => step_kept defaultTenant debounce hw e hclean)
    (Or.inl (whole_start defaultTenant)) h

/-- A crash after the first of two lines, and a removal. -/
theorem corpus_kept_cut :
    Along (Shelf.step "default" 5) (Shelf.Keeps "default" 5) Shelf.start [
      .op (.addDocuments ["a"] ["alpha"] none),
      .torn ["b", "c"] ["beta", "gamma"] none 52 0,
      .op (.removeDocuments ["a"])] :=
  corpus_kept "default" 5 _ (by decide)

section Lost

def alpha : Row := { id := "a", text := "alpha", tenantId := "default" }

/-- A document is added, and a crash cuts the line of the next. -/
def lost : List Event :=
  [.op (.addDocuments ["a"] ["alpha"] none), .torn ["b"] ["beta"] none 1 0]

theorem not_corpus_kept : ¬ ∀ (defaultTenant : String) (debounce : Nat) (run : List Event),
    Along (Shelf.step defaultTenant debounce) (Shelf.Keeps defaultTenant debounce) Shelf.start
      run := by
  intro h
  obtain ⟨-, hkeeps, -⟩ := h "default" 5 lost
  have hfragment : Fragment ['\x7b'] := by
    obtain ⟨cs, hcs⟩ := row_line_eq alpha
    exact ⟨List.cons_ne_nil _ _, alpha, cs ++ ['\x7d'], by simp, hcs⟩
  have hfile : ((Shelf.start.step "default" 5 (.op (.addDocuments ["a"] ["alpha"] none))).step
      "default" 5 (.torn ["b"] ["beta"] none 1 0)).domain.file =
      joined ([alpha].map Row.line) ['\x7b'] := rfl
  have hload := hkeeps 0 alpha List.mem_cons_self
  rw [hfile, load_fragment "default" 0 [alpha] hfragment] at hload
  cases hload

end Lost

end Cerid.Retrieval
