import Cerid.Lib.Dict
import Cerid.Lib.Text

/-!
# Frontmatter

A note may start with a block of YAML between two fences.  The block is the header of the note
and what follows it is its body.  Only the keys of an allowlist come out of a header.

YAML itself is a parameter.
-/

namespace Cerid.Vault

open Text

/-- The values of YAML, as far as a header tells them apart. -/
inductive Value (α : Type) where
  | str (s : String)
  | bool (b : Bool)
  | strs (l : List String)
  | other (a : α)
  deriving DecidableEq, Repr

inductive Key (κ : Type) where
  | str (s : String)
  | other (k : κ)
  deriving DecidableEq, Repr

abbrev Mapping (κ α : Type) := Dict (Key κ) (Value α)

abbrev Header (α : Type) := Dict String (Value α)

inductive Loaded (κ α : Type) where
  | mapping (d : Mapping κ α)
  | other

/-- `yaml.safe_load` and `yaml.safe_dump`, which may raise. -/
structure Yaml (κ α : Type) where
  safeLoad : List Char → Option (Loaded κ α)
  safeDump : Header α → Option (List Char)

def RESERVED_KEYS : List String :=
  ["tags", "aliases", "cssclass", "status", "created", "updated", "source", "title"]

def CUSTOM_PREFIX : String := "cerid:"

def FENCE : List Char := ['-', '-', '-']

def isAllowlisted (key : String) : Bool :=
  key ∈ RESERVED_KEYS || CUSTOM_PREFIX.toList.isPrefixOf key.toList

section Header

variable {κ α : Type}

/-- `_coerce_string_list`. -/
def coerceStringList : Value α → Value α
  | .str s => .strs [s]
  | v => v

def coerced (key : String) (v : Value α) : Value α :=
  if key ∈ ["aliases", "tags"] then coerceStringList v else v

/-- A header that takes the allowlisted keys of a mapping, with their values as `f` has them. -/
def adopt (f : String → Value α → Value α) (header : Header α) (d : Mapping κ α) : Header α :=
  d.items.foldl (fun out p =>
    match p.1 with
    | .str k => if isAllowlisted k then out.set k (f k p.2) else out
    | .other _ => out) header

end Header

/-! ## Fences -/

def isFence (line : List Char) : Bool := line.rdropWhile isSpace = FENCE

/-- The lines before the first fence, and those after it. -/
def closing : List (List Char) → Option (List (List Char) × List (List Char))
  | [] => none
  | line :: rest =>
    if isFence line then some ([], rest)
    else (closing rest).map fun p => (line :: p.1, p.2)

def unlines (ls : List (List Char)) : List Char := ['\n'].intercalate ls

/-- The text between the fences at the start of a text, and the text after them. -/
def fenced (text : List Char) : Option (List Char × List Char) :=
  match text.splitOn '\n' with
  | [] => none
  | first :: rest =>
    if isFence first then (closing rest).map fun p => (unlines p.1, unlines p.2) else none

section Extract

variable {κ α : Type} (y : Yaml κ α)

/-- `extract_frontmatter`. -/
def extractFrontmatter (text : List Char) : Header α × List Char :=
  match fenced text with
  | none => (.empty, text)
  | some (yamlBlock, body) =>
    match y.safeLoad yamlBlock with
    | none => (.empty, text)
    | some .other => (.empty, body)
    | some (.mapping parsed) => (adopt coerced .empty parsed, body)

/-- A text that is read without a header and to its last character. -/
def Plain (text : List Char) : Prop := ∀ p, fenced text = some p → y.safeLoad p.1 = none

end Extract

/-! ## What a header takes -/

section Adopt

variable {κ α : Type} [DecidableEq κ]

theorem get?_foldl_adopt (f : String → Value α → Value α) (k : String)
    (items : List (Key κ × Value α)) (hnd : (items.map Prod.fst).Nodup) (header : Header α) :
    (items.foldl (fun out p =>
        match p.1 with
        | .str k => if isAllowlisted k then out.set k (f k p.2) else out
        | .other _ => out) header).get? k =
      (if isAllowlisted k then
        ((items.find? (fun p => p.1 = .str k)).map Prod.snd).map (f k) else none).or
        (header.get? k) := by
  induction items generalizing header with
  | nil => simp
  | cons p rest ih =>
    obtain ⟨key, v⟩ := p
    rw [List.map_cons, List.nodup_cons] at hnd
    rw [List.foldl_cons, ih hnd.2]
    cases key with
    | other k' => simp
    | str k' =>
      by_cases hk : k' = k
      · subst hk
        have hnone := find?_eq_none_of_not_mem Prod.fst hnd.1
        cases hallow : isAllowlisted k' with
        | false => simp [hallow]
        | true => simp [hallow, hnone]
      · have hk' : ¬ k = k' := fun e => hk e.symm
        cases hallow : isAllowlisted k' with
        | false => simp [hallow, hk]
        | true => simp [hallow, hk, hk']

theorem get?_adopt (f : String → Value α → Value α) (header : Header α) (d : Mapping κ α)
    (k : String) :
    (adopt f header d).get? k =
      (if isAllowlisted k then (d.get? (.str k)).map (f k) else none).or (header.get? k) :=
  get?_foldl_adopt f k d.items d.nodup header

/-- A header that is read has allowlisted keys only. -/
theorem get?_adopt_empty (f : String → Value α → Value α) (d : Mapping κ α) (k : String) :
    (adopt f .empty d).get? k =
      if isAllowlisted k then (d.get? (.str k)).map (f k) else none := by
  rw [get?_adopt, Dict.get?_empty, Option.or_none]

end Adopt

/-! ## What a fence takes off -/

theorem closing_append {block : List (List Char)} (hblock : ∀ l ∈ block, isFence l = false)
    {fence : List Char} (hfence : isFence fence = true) (rest : List (List Char)) :
    closing (block ++ fence :: rest) = some (block, rest) := by
  induction block with
  | nil => simp [closing, hfence]
  | cons l block ih =>
    have hl : isFence l = false := hblock l List.mem_cons_self
    have hrest := ih fun l' h => hblock l' (List.mem_cons_of_mem l h)
    simp [closing, hl, hrest]

theorem closing_eq_some {ls : List (List Char)} {p : List (List Char) × List (List Char)}
    (h : closing ls = some p) : ∃ fence, ls = p.1 ++ fence :: p.2 := by
  induction ls generalizing p with
  | nil => simp [closing] at h
  | cons l rest ih =>
    rw [closing] at h
    split at h
    · obtain rfl := Option.some.inj h
      exact ⟨l, rfl⟩
    · obtain ⟨q, hq, rfl⟩ := Option.map_eq_some_iff.mp h
      obtain ⟨fence, hrest⟩ := ih hq
      exact ⟨fence, by simp [hrest]⟩

theorem unlines_lines (text : List Char) : unlines (text.splitOn '\n') = text :=
  List.intercalate_splitOn '\n'

theorem isFence_fence : isFence FENCE = true := by decide

/-- A block with no fence in it comes out as it went in. -/
theorem fenced_append {block : List Char}
    (hblock : ∀ l ∈ block.splitOn '\n', isFence l = false) (body : List Char) :
    fenced (FENCE ++ '\n' :: (block ++ '\n' :: (FENCE ++ '\n' :: body))) = some (block, body) := by
  have hfence : '\n' ∉ FENCE := by decide
  have hlines : (FENCE ++ '\n' :: (block ++ '\n' :: (FENCE ++ '\n' :: body))).splitOn '\n' =
      FENCE :: (block.splitOn '\n' ++ FENCE :: body.splitOn '\n') := by
    rw [List.splitOn_append_cons_self_of_not_mem hfence, List.splitOn_append_cons_self,
      List.splitOn_append_cons_self_of_not_mem hfence]
  rw [fenced, hlines]
  simp [isFence_fence, closing_append hblock isFence_fence, unlines_lines]

theorem unlines_cons {first : List Char} {rest : List (List Char)} (hrest : rest ≠ []) :
    unlines (first :: rest) = first ++ '\n' :: unlines rest := by
  cases rest with
  | nil => exact absurd rfl hrest
  | cons l rest => simp [unlines, List.intercalate]

theorem unlines_suffix (before after : List (List Char)) :
    unlines after <:+ unlines (before ++ after) := by
  induction before with
  | nil => exact List.suffix_refl _
  | cons l before ih =>
    by_cases hrest : before ++ after = []
    · obtain ⟨rfl, rfl⟩ := List.append_eq_nil_iff.mp hrest
      exact List.nil_suffix
    · rw [List.cons_append, unlines_cons hrest]
      exact ih.trans ((List.suffix_cons _ _).trans (List.suffix_append _ _))

/-- What has a block starts with a dash, and ends with what follows the block. -/
theorem fenced_eq_some {text : List Char} {p : List Char × List Char}
    (h : fenced text = some p) :
    text.head? = some '-' ∧ p.2 <:+ text ∧ p.2.length < text.length := by
  have htext := unlines_lines text
  rw [fenced] at h
  cases hlines : text.splitOn '\n' with
  | nil => exact absurd hlines (List.splitOn_ne_nil '\n' text)
  | cons first rest =>
    rw [hlines] at h htext
    by_cases hfirst : isFence first = true
    · simp only [hfirst, if_true] at h
      obtain ⟨q, hq, rfl⟩ := Option.map_eq_some_iff.mp h
      obtain ⟨fence, rfl⟩ := closing_eq_some hq
      rw [unlines_cons (by simp)] at htext
      have hhead : FENCE <+: first := by
        rw [← of_decide_eq_true hfirst]
        exact List.rdropWhile_prefix isSpace first
      obtain ⟨tail, rfl⟩ := hhead
      have hsuffix : unlines q.2 <:+ unlines (q.1 ++ fence :: q.2) := by
        have hsplit : q.1 ++ fence :: q.2 = (q.1 ++ [fence]) ++ q.2 := by simp
        rw [hsplit]
        exact unlines_suffix _ _
      have hle := hsuffix.length_le
      refine ⟨by rw [← htext]; rfl, ?_, ?_⟩
      · rw [← htext]
        exact hsuffix.trans ((List.suffix_cons _ _).trans (List.suffix_append _ _))
      · rw [← htext, List.length_append, List.length_cons]
        show (unlines q.2).length < _
        omega
    · simp [hfirst] at h

section Extract

variable {κ α : Type} {y : Yaml κ α} {text : List Char}

theorem extractFrontmatter_plain (h : Plain y text) :
    extractFrontmatter y text = (.empty, text) := by
  unfold extractFrontmatter
  cases hfenced : fenced text with
  | none => rfl
  | some p => simp [h p hfenced]

theorem extractFrontmatter_of_not_plain (h : ¬ Plain y text) :
    ∃ p, fenced text = some p ∧ (extractFrontmatter y text).2 = p.2 := by
  simp only [Plain, not_forall] at h
  obtain ⟨p, hfenced, hload⟩ := h
  refine ⟨p, hfenced, ?_⟩
  obtain ⟨loaded, hloaded⟩ := Option.ne_none_iff_exists'.mp hload
  simp only [extractFrontmatter, hfenced, hloaded]
  cases loaded <;> rfl

theorem extractFrontmatter_suffix (y : Yaml κ α) (text : List Char) :
    (extractFrontmatter y text).2 <:+ text := by
  by_cases h : Plain y text
  · have hwhole : (extractFrontmatter y text).2 = text := by rw [extractFrontmatter_plain h]
    exact ⟨[], hwhole⟩
  · obtain ⟨p, hfenced, hbody⟩ := extractFrontmatter_of_not_plain h
    rw [hbody]
    exact (fenced_eq_some hfenced).2.1

theorem isAllowlisted_of_extract [DecidableEq κ] {key : String}
    (h : (extractFrontmatter y text).1.get? key ≠ none) : isAllowlisted key = true := by
  unfold extractFrontmatter at h
  split at h
  · simp at h
  split at h
  · simp at h
  · simp at h
  · rw [get?_adopt_empty] at h
    by_contra hallow
    simp [hallow] at h

end Extract

end Cerid.Vault
