import Cerid.Lib.Json
import Cerid.Lib.Run
import Cerid.Lib.Text
import Mathlib.Data.List.Induction
import Mathlib.Logic.Function.Basic

/-!
# The context of an answer

The ranked rows are rendered one after the other.  A row is passed by if its artifact has enough
rows in the context, or if its text does not fit in what is left of the budget.  The budget is
charged with the texts alone: a blank line stands between any two of them.
-/

namespace Cerid.Retrieval.Context

abbrev Text := List Char

/-- `column_headers`: a list, the JSON text that a list is stored as, or anything else. -/
inductive ColumnHeaders where
  | list (headers : List Json)
  | text (raw : Text)
  | absent

structure HistoryEntry where
  validTo : Text
  value : Text

/-- A ranked row.  An artifact id may be missing or null. -/
structure Row where
  artifactId : Option (Option String) := none
  content : Text := []
  windowText : Text := []
  sheetName : Text := []
  rowIdx : Option Int := none
  columnHeaders : ColumnHeaders := .absent
  history : List HistoryEntry := []
  relevance : Option Json := none
  filename : Option Json := none
  domain : Option Json := none
  chunkIndex : Option Json := none
  sourceType : Option Json := none
  createdAt : Option Json := none
  packId : Option Json := none
  metadata : List (String × Json) := []

/-- `result.get("artifact_id", "")`. -/
def Row.key (r : Row) : Option String := r.artifactId.getD (some "")

/-- The artifact that the row belongs to, if any. -/
def Row.artifact (r : Row) : Option String := r.key.filter (· ≠ "")

structure TableFields where
  sheetName : Option Text
  rowIdx : Option Int
  columnHeaders : Option (List Text)

/-- A row of the context, as it is cited. -/
structure Source where
  content : Text
  relevance : Json
  artifactId : Option String
  filename : Json
  domain : Json
  chunkIndex : Json
  sourceType : Json
  createdAt : Json
  packId : Json
  metadata : Option (List (String × Json))
  history : Option (List HistoryEntry)
  table : TableFields

/-! ## The text of a row -/

section Rendering

-- `str` of a value
variable (str : Json → Text)

def headers : ColumnHeaders → List Text
  | .list items => items.map str
  | .text raw =>
    if raw.head? = some '[' then
      match Json.loads raw with
      | some (.arr items) => items.map str
      | _ => []
    else []
  | .absent => []

def tableProvenanceFields (r : Row) : TableFields where
  sheetName := if r.sheetName = [] then none else some r.sheetName
  rowIdx := r.rowIdx
  columnHeaders :=
    if headers str r.columnHeaders = [] then none else some (headers str r.columnHeaders)

def provenanceParts (fields : TableFields) : List Text :=
  (fields.sheetName.map (fun name => "sheet: ".toList ++ name)).toList ++
    (fields.rowIdx.map (fun n => "row: ".toList ++ (toString n).toList)).toList ++
    (fields.columnHeaders.map (fun names =>
      "columns: ".toList ++ List.intercalate ", ".toList names)).toList

def formatTableProvenance (fields : TableFields) : Text :=
  if provenanceParts fields = [] then []
  else '[' :: List.intercalate " | ".toList (provenanceParts fields) ++ [']']

def historyLine (e : HistoryEntry) : Text :=
  let day := e.validTo.take 10
  "- until ".toList ++ (if day = [] then "unknown".toList else day) ++ ": ".toList ++ e.value

def historyNote (r : Row) : Text :=
  if r.history = [] then []
  else "Earlier versions (newest first):\n".toList ++
    List.intercalate ['\n'] (r.history.map historyLine)

/-- The text that the row has in the context. -/
def render (r : Row) : Text :=
  let content := if r.windowText = [] then r.content else r.windowText
  let provenance := formatTableProvenance (tableProvenanceFields str r)
  let content := if provenance = [] then content else provenance ++ '\n' :: content
  let note := historyNote r
  if note = [] then content else content ++ '\n' :: note

def source (r : Row) : Source where
  content := (render str r).take 200
  relevance := r.relevance.getD (.num "0.0")
  artifactId := r.key
  filename := r.filename.getD (.str "")
  domain := r.domain.getD (.str "")
  chunkIndex := r.chunkIndex.getD (.num "0")
  sourceType := r.sourceType.getD (.str "kb")
  createdAt := r.createdAt.getD .null
  packId := r.packId.getD (.str "")
  metadata := if r.metadata = [] then none else some r.metadata
  history := if r.history = [] then none else some r.history
  table := tableProvenanceFields str r

end Rendering

/-! ## The loop -/

def CONTEXT_MAX_CHUNKS_PER_ARTIFACT : Nat := 5

/-- The cap that a call asks for; the default if it asks for none. -/
def perArtifact (maxChunks : Int) : Nat :=
  if maxChunks ≤ 0 then CONTEXT_MAX_CHUNKS_PER_ARTIFACT else maxChunks.toNat

structure State where
  contextParts : List Text
  includedSources : List Source
  charCount : Nat
  artifactCounts : Option String → Nat

def State.start : State where
  contextParts := []
  includedSources := []
  charCount := 0
  artifactCounts := fun _ => 0

variable (str : Json → Text) (maxChars maxChunks : Int)

def State.append (s : State) (r : Row) : State where
  contextParts := s.contextParts ++ [render str r]
  includedSources := s.includedSources ++ [source str r]
  charCount := s.charCount + (render str r).length
  artifactCounts := Function.update s.artifactCounts r.key (s.artifactCounts r.key + 1)

def State.step (s : State) (r : Row) : State :=
  if perArtifact maxChunks ≤ s.artifactCounts r.key then s
  else if maxChars < (s.charCount : Int) + (render str r).length then s
  else s.append str r

def blankLine : Text := ['\n', '\n']

structure Assembled where
  context : Text
  sources : List Source
  charCount : Nat

def State.finish (s : State) : Assembled where
  context := List.intercalate blankLine s.contextParts
  sources := s.includedSources
  charCount := s.charCount

def assembleContext (results : List Row) : Assembled :=
  (results.foldl (State.step str maxChars maxChunks) State.start).finish

/-! ## What is asked of a context -/

/-- The context with one more row at its end. -/
def Assembled.withRow (a : Assembled) (r : Row) : Text :=
  if a.sources = [] then render str r else a.context ++ blankLine ++ render str r

/-- How many of the sources are of an artifact. -/
def Assembled.sourcesOf (a : Assembled) (id : String) : Nat :=
  a.sources.countP (fun s => s.artifactId = some id)

/-- The context is within the budget and made of the texts of its sources; no artifact is above
its cap; and a row that is left out, when the rows before it are done, is one whose artifact is
at its cap or whose text does not fit any more. -/
structure Right (results : List Row) : Prop where
  fits : ((assembleContext str maxChars maxChunks results).context.length : Int) ≤ maxChars
  rendered : ∃ rows : List Row, rows.Sublist results ∧
    (assembleContext str maxChars maxChunks results).sources = rows.map (source str) ∧
    (assembleContext str maxChars maxChunks results).context =
      List.intercalate blankLine (rows.map (render str))
  capped : ∀ id, id ≠ "" → (assembleContext str maxChars maxChunks results).sourcesOf id ≤
    perArtifact maxChunks
  leftOut : ∀ before r after, results = before ++ r :: after →
    (assembleContext str maxChars maxChunks (before ++ [r])).sources =
      (assembleContext str maxChars maxChunks before).sources →
    (∃ id, r.artifact = some id ∧ perArtifact maxChunks ≤
      (assembleContext str maxChars maxChunks before).sourcesOf id) ∨
    maxChars < ((assembleContext str maxChars maxChunks before).withRow str r).length

/-- The length of the context, if the row is put at its end. -/
def State.lengthWith (s : State) (r : Row) : Nat :=
  s.charCount + 2 * s.contextParts.length + (render str r).length

/-- The branches that go wrong are not taken: a row that fits fits with the blank lines too, and
a row of no artifact that finds its counter full would not fit anyway. -/
structure State.Careful (s : State) (r : Row) : Prop where
  separators : s.artifactCounts r.key < perArtifact maxChunks →
    (s.charCount : Int) + (render str r).length ≤ maxChars →
    (s.lengthWith str r : Int) ≤ maxChars
  uncounted : r.artifact = none → perArtifact maxChunks ≤ s.artifactCounts r.key →
    maxChars < (s.lengthWith str r : Int)

/-! ## The invariant of the loop -/

variable {str maxChars maxChunks}

/-- What holds of the state, with the rows that were taken. -/
structure State.Holds (str : Json → Text) (maxChunks : Int) (s : State)
    (rows : List Row) : Prop where
  parts : s.contextParts = rows.map (render str)
  sources : s.includedSources = rows.map (source str)
  counts : ∀ k, s.artifactCounts k = rows.countP (fun r => r.key = k)
  capped : ∀ k, s.artifactCounts k ≤ perArtifact maxChunks
  empty : s.contextParts = [] → s.charCount = 0
  length : s.contextParts ≠ [] →
    (List.intercalate blankLine s.contextParts).length + 2 = s.charCount + 2 * s.contextParts.length

theorem State.holds_start : State.start.Holds str maxChunks [] where
  parts := rfl
  sources := rfl
  counts := fun _ => rfl
  capped := fun _ => Nat.zero_le _
  empty := fun _ => rfl
  length := fun h => absurd rfl h

variable {s : State} {rows : List Row} {r : Row}

theorem State.Holds.sources_eq_nil (h : s.Holds str maxChunks rows) :
    s.includedSources = [] ↔ s.contextParts = [] := by
  rw [h.parts, h.sources, List.map_eq_nil_iff, List.map_eq_nil_iff]

theorem State.Holds.withRow (h : s.Holds str maxChunks rows) (r : Row) :
    s.finish.withRow str r = List.intercalate blankLine (s.append str r).contextParts := by
  show (if s.includedSources = [] then _ else _) =
    List.intercalate blankLine (s.contextParts ++ [render str r])
  rw [Cerid.Text.intercalate_concat]
  exact if_congr h.sources_eq_nil rfl rfl

theorem State.Holds.length_withRow (h : s.Holds str maxChunks rows) (r : Row) :
    (s.finish.withRow str r).length = s.lengthWith str r := by
  unfold State.lengthWith
  show (if s.includedSources = [] then _ else _ : Text).length = _
  by_cases hparts : s.contextParts = []
  · rw [if_pos (h.sources_eq_nil.mpr hparts), h.empty hparts, hparts]
    simp
  · rw [if_neg (fun hnil => hparts (h.sources_eq_nil.mp hnil)), List.length_append,
      List.length_append]
    have hlength := h.length hparts
    have hblank : blankLine.length = 2 := rfl
    show (List.intercalate blankLine s.contextParts).length + _ + _ = _
    omega

theorem State.Holds.append (h : s.Holds str maxChunks rows)
    (hcap : s.artifactCounts r.key < perArtifact maxChunks) :
    (s.append str r).Holds str maxChunks (rows ++ [r]) where
  parts := by
    rw [List.map_append, ← h.parts]
    rfl
  sources := by
    rw [List.map_append, ← h.sources]
    rfl
  counts := by
    intro k
    show Function.update s.artifactCounts r.key (s.artifactCounts r.key + 1) k = _
    rw [List.countP_append, ← h.counts k]
    by_cases hk : k = r.key
    · subst hk
      rw [Function.update_self, List.countP_cons_of_pos (by simp)]
      rfl
    · rw [Function.update_of_ne hk, List.countP_cons_of_neg (by simp [Ne.symm hk])]
      rfl
  capped := by
    intro k
    show Function.update s.artifactCounts r.key (s.artifactCounts r.key + 1) k ≤ _
    by_cases hk : k = r.key
    · subst hk
      rw [Function.update_self]
      exact hcap
    · rw [Function.update_of_ne hk]
      exact h.capped k
  empty := fun hnil => absurd hnil (List.append_ne_nil_of_right_ne_nil _ (List.cons_ne_nil _ _))
  length := by
    intro _
    rw [← h.withRow r, h.length_withRow r]
    show _ = s.charCount + (render str r).length + 2 * (s.contextParts ++ [render str r]).length
    unfold State.lengthWith
    rw [List.length_append, List.length_singleton]
    omega

theorem State.step_eq_self (h : perArtifact maxChunks ≤ s.artifactCounts r.key ∨
      maxChars < (s.charCount : Int) + (render str r).length) :
    s.step str maxChars maxChunks r = s := by
  unfold State.step
  split_ifs with hcap hfit
  · rfl
  · rfl
  · exact absurd h (not_or.mpr ⟨hcap, hfit⟩)

theorem State.step_eq_append (hcap : s.artifactCounts r.key < perArtifact maxChunks)
    (hfit : (s.charCount : Int) + (render str r).length ≤ maxChars) :
    s.step str maxChars maxChunks r = s.append str r := by
  unfold State.step
  rw [if_neg (not_le.mpr hcap), if_neg (not_lt.mpr hfit)]

/-- A row is passed by, or put at the end. -/
theorem State.step_cases (str : Json → Text) (maxChars maxChunks : Int) 
    (s : State) (r : Row) :
    ((perArtifact maxChunks ≤ s.artifactCounts r.key ∨
        maxChars < (s.charCount : Int) + (render str r).length) ∧
      s.step str maxChars maxChunks r = s) ∨
    (s.artifactCounts r.key < perArtifact maxChunks ∧
      (s.charCount : Int) + (render str r).length ≤ maxChars ∧
      s.step str maxChars maxChunks r = s.append str r) := by
  by_cases hcap : perArtifact maxChunks ≤ s.artifactCounts r.key
  · exact Or.inl ⟨Or.inl hcap, State.step_eq_self (Or.inl hcap)⟩
  · by_cases hfit : maxChars < (s.charCount : Int) + (render str r).length
    · exact Or.inl ⟨Or.inr hfit, State.step_eq_self (Or.inr hfit)⟩
    · rw [not_le] at hcap
      rw [not_lt] at hfit
      exact Or.inr ⟨hcap, hfit, State.step_eq_append hcap hfit⟩

/-- The state after some rows. -/
def after (str : Json → Text) (maxChars maxChunks : Int) (results : List Row) : State :=
  results.foldl (State.step str maxChars maxChunks) State.start

theorem after_concat (before : List Row) (r : Row) :
    after str maxChars maxChunks (before ++ [r]) =
      (after str maxChars maxChunks before).step str maxChars maxChunks r :=
  List.foldl_append

/-- The rows that were taken. -/
theorem exists_holds (str : Json → Text) (maxChars maxChunks : Int) 
    (results : List Row) : ∃ rows : List Row, rows.Sublist results ∧
    (after str maxChars maxChunks results).Holds str maxChunks rows := by
  induction results using List.reverseRecOn with
  | nil => exact ⟨[], List.Sublist.refl _, State.holds_start⟩
  | append_singleton before r ih =>
    obtain ⟨rows, hsub, h⟩ := ih
    rw [after_concat]
    rcases State.step_cases str maxChars maxChunks (after str maxChars maxChunks before) r with
      ⟨-, hstep⟩ | ⟨hcap, -, hstep⟩
    · rw [hstep]
      exact ⟨rows, hsub.trans (List.sublist_append_left _ _), h⟩
    · rw [hstep]
      exact ⟨rows ++ [r], hsub.append (List.Sublist.refl _), h.append hcap⟩

theorem State.Holds.sourcesOf (h : s.Holds str maxChunks rows) (id : String) :
    s.finish.sourcesOf id = s.artifactCounts (some id) := by
  show s.includedSources.countP _ = _
  rw [h.counts, h.sources, List.countP_map]
  rfl

/-! ## The length of the context -/

theorem State.Holds.context_le (h : s.Holds str maxChunks rows) (r : Row) :
    s.finish.context.length ≤ s.lengthWith str r := by
  show (List.intercalate blankLine s.contextParts).length ≤ _
  unfold State.lengthWith
  by_cases hparts : s.contextParts = []
  · rw [hparts]
    exact Nat.zero_le _
  · have hlength := h.length hparts
    omega

theorem State.Holds.context_append (h : s.Holds str maxChunks rows) (r : Row) :
    (s.append str r).finish.context.length = s.lengthWith str r := by
  rw [← h.length_withRow r, h.withRow r]
  rfl

/-- The context never gets shorter. -/
theorem context_mono (str : Json → Text) (maxChars maxChunks : Int) 
    (before rest : List Row) :
    (after str maxChars maxChunks before).finish.context.length ≤
      (after str maxChars maxChunks (before ++ rest)).finish.context.length := by
  induction rest using List.reverseRecOn with
  | nil => rw [List.append_nil]
  | append_singleton rest r ih =>
    refine ih.trans ?_
    obtain ⟨rows, -, h⟩ := exists_holds str maxChars maxChunks (before ++ rest)
    rw [← List.append_assoc, after_concat]
    rcases State.step_cases str maxChars maxChunks
      (after str maxChars maxChunks (before ++ rest)) r with ⟨-, hstep⟩ | ⟨-, -, hstep⟩
    · rw [hstep]
    · rw [hstep, h.context_append r]
      exact h.context_le r

/-! ## When the context is as it is asked -/

variable {results : List Row}

theorem Right.careful (h : Right str maxChars maxChunks results) {before : List Row}
    {r : Row} {rest : List Row} (heq : results = before ++ r :: rest) :
    (after str maxChars maxChunks before).Careful str maxChars maxChunks r := by
  obtain ⟨rows, -, hholds⟩ := exists_holds str maxChars maxChunks before
  constructor
  · intro hcap hfit
    have hmono := context_mono str maxChars maxChunks (before ++ [r]) rest
    rw [after_concat, State.step_eq_append hcap hfit, hholds.context_append r, List.append_assoc,
      List.singleton_append, ← heq] at hmono
    have hfits := h.fits
    change ((after str maxChars maxChunks results).finish.context.length : Int) ≤ _ at hfits
    omega
  · intro hnone hfull
    have hsame : (assembleContext str maxChars maxChunks (before ++ [r])).sources =
        (assembleContext str maxChars maxChunks before).sources := by
      show (after str maxChars maxChunks (before ++ [r])).finish.sources = _
      rw [after_concat, State.step_eq_self (Or.inl hfull)]
      rfl
    rcases h.leftOut before r rest heq hsame with ⟨id, hid, -⟩ | hlong
    · rw [hnone] at hid
      cases hid
    · rw [← hholds.length_withRow r]
      exact hlong

theorem State.Careful.fits (h : s.Careful str maxChars maxChunks r)
    (hholds : s.Holds str maxChunks rows)
    (hfits : (s.finish.context.length : Int) ≤ maxChars) :
    ((s.step str maxChars maxChunks r).finish.context.length : Int) ≤ maxChars := by
  rcases State.step_cases str maxChars maxChunks s r with ⟨-, hstep⟩ | ⟨hcap, hfit, hstep⟩
  · rw [hstep]
    exact hfits
  · rw [hstep, hholds.context_append r]
    exact h.separators hcap hfit

theorem fits_of_careful (hmax : 0 ≤ maxChars)
    (h : Along (State.step str maxChars maxChunks)
      (State.Careful str maxChars maxChunks) State.start results) :
    ((after str maxChars maxChunks results).finish.context.length : Int) ≤ maxChars := by
  induction results using List.reverseRecOn with
  | nil => exact hmax
  | append_singleton before r ih =>
    obtain ⟨hbefore, hlast⟩ := along_append.mp h
    obtain ⟨rows, -, hholds⟩ := exists_holds str maxChars maxChunks before
    rw [after_concat]
    exact hlast.1.fits hholds (ih hbefore)

theorem leftOut_of_careful {before : List Row}
    (h : (after str maxChars maxChunks before).Careful str maxChars maxChunks r)
    (hsame : (assembleContext str maxChars maxChunks (before ++ [r])).sources =
      (assembleContext str maxChars maxChunks before).sources) :
    (∃ id, r.artifact = some id ∧ perArtifact maxChunks ≤
      (assembleContext str maxChars maxChunks before).sourcesOf id) ∨
    maxChars < ((assembleContext str maxChars maxChunks before).withRow str r).length := by
  obtain ⟨rows, -, hholds⟩ := exists_holds str maxChars maxChunks before
  have hlength := hholds.length_withRow r
  change ((assembleContext str maxChars maxChunks before).withRow str r).length = _
    at hlength
  rw [hlength]
  rcases State.step_cases str maxChars maxChunks (after str maxChars maxChunks before) r with
    ⟨hfull | hlong, -⟩ | ⟨-, -, hstep⟩
  · cases hid : r.artifact with
    | none => exact Or.inr (h.uncounted hid hfull)
    | some id =>
      refine Or.inl ⟨id, rfl, ?_⟩
      have hkey : r.key = some id := (Option.filter_eq_some_iff.mp hid).1
      rw [hkey, ← hholds.sourcesOf id] at hfull
      exact hfull
  · right
    unfold State.lengthWith
    omega
  · -- a row that is taken is a source more
    have hmore : (after str maxChars maxChunks (before ++ [r])).includedSources =
        (after str maxChars maxChunks before).includedSources ++ [source str r] := by
      rw [after_concat, hstep]
      rfl
    have hlen := congrArg List.length (hmore.symm.trans hsame)
    rw [List.length_append, List.length_singleton] at hlen
    exact absurd hlen (Nat.succ_ne_self _)

/-- The context is as it is asked exactly if the budget is none of debt, every row that is taken
fits with the blank lines, and no row without an artifact is passed by for a full counter. -/
theorem assembleContext_right_iff : Right str maxChars maxChunks results ↔
    0 ≤ maxChars ∧ Along (State.step str maxChars maxChunks)
      (State.Careful str maxChars maxChunks) State.start results := by
  constructor
  · intro h
    refine ⟨(Int.natCast_nonneg _).trans h.fits, ?_⟩
    exact along_iff_split.mpr fun before r rest heq => h.careful heq
  · rintro ⟨hmax, hcareful⟩
    obtain ⟨rows, hsub, hholds⟩ := exists_holds str maxChars maxChunks results
    refine { fits := fits_of_careful hmax hcareful, rendered := ⟨rows, hsub, hholds.sources, ?_⟩
             capped := fun id _ => ?_, leftOut := fun before r rest heq => ?_ }
    · exact congrArg (List.intercalate blankLine) hholds.parts
    · have hcap := hholds.capped (some id)
      rw [← hholds.sourcesOf id] at hcap
      exact hcap
    · exact leftOut_of_careful (along_iff_split.mp hcareful before r rest heq)

/-- Two texts that fill the budget, and six rows from outside. -/
theorem not_right :
    ¬ Right (fun _ => []) 2 5 [{ artifactId := some (some "a"), content := ['x'] },
      { artifactId := some (some "b"), content := ['y'] }] ∧
    ¬ Right (fun _ => []) 1000 5 (List.replicate 6 { content := ['x'] }) := by
  constructor
  · intro h
    exact absurd h.fits (by decide +kernel)
  · intro h
    rcases h.leftOut (List.replicate 5 { content := ['x'] }) { content := ['x'] } [] rfl rfl with
      ⟨id, hid, -⟩ | hlong
    · cases hid
    · exact absurd hlong (by decide +kernel)

end Cerid.Retrieval.Context
