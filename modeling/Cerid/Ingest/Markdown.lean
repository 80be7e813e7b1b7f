import Cerid.Ingest.Budget
import Cerid.Wikilinks.Extract

/-!
# The chunks of a Markdown section

A section is one chunk with its headings in front of it when the two have few enough tokens, and
is cut otherwise, where the headings are put in front of each piece.  The links of the body follow,
without a text.

The settings are parameters, and of the metadata of a section only the headings are read.
-/

namespace Cerid.Ingest.Markdown

open Chunking (Encoding Mode Pieces SoundChunks chunkText countTokens headerTokens solid withHeader)
open Wikilinks (WikilinkRef)

/-- A `MarkdownSection`, with the rest of its metadata. -/
structure ParsedElement (μ : Type) where
  text : List Char
  headingPath : List (List Char)
  metadata : μ

inductive Chunk (μ : Type) where
  | markdownSection (text : List Char) (sectionChunkIdx : Option Nat)
      (headingPath : List (List Char)) (metadata : μ)
  | wikilinkEdge (ref : WikilinkRef) (sourceChunkIdx : Nat)

/-- The text of a chunk that has one. -/
def Chunk.text? {μ : Type} : Chunk μ → Option (List Char)
  | .markdownSection text _ _ _ => some text
  | .wikilinkEdge _ _ => none

def headingBreadcrumb (headingPath : List (List Char)) : List Char :=
  if headingPath = [] then [] else " > ".toList.intercalate headingPath

def chunkOverlapRatio : ℚ := 1 / 5

theorem chunkOverlapRatio_nonneg : 0 ≤ chunkOverlapRatio := by norm_num [chunkOverlapRatio]

theorem chunkOverlapRatio_lt_one : chunkOverlapRatio < 1 := by norm_num [chunkOverlapRatio]

section Strategy

variable {μ : Type} (e : Encoding) (maxTokens : Nat) (mode : Mode)

def markdownWikilinkEdgeStrategy (element : ParsedElement μ) : List (Chunk μ) :=
  if element.text = [] then []
  else (Wikilinks.Extract.extractWikilinks element.text).map fun ref => .wikilinkEdge ref 0

/-- The texts of the chunks, with the place of each piece. -/
def textChunks (element : ParsedElement μ) : List (List Char × Option Nat) :=
  let breadcrumb := headingBreadcrumb element.headingPath
  let combined := withHeader breadcrumb element.text
  if countTokens e combined ≤ maxTokens then [(combined, none)]
  else
    let pieces := chunkText e element.text maxTokens chunkOverlapRatio mode []
    pieces.zipIdx.map fun piece => (withHeader breadcrumb piece.1, some piece.2)

def markdownSectionStrategy (element : ParsedElement μ) : List (Chunk μ) :=
  (textChunks e maxTokens mode element).map
      (fun chunk => .markdownSection chunk.1 chunk.2 element.headingPath element.metadata) ++
    markdownWikilinkEdgeStrategy element

/-- The chunks that have a text. -/
def texts (chunks : List (Chunk μ)) : List (List Char) := chunks.filterMap Chunk.text?

/-- The texts of a section are within the bound and have what its body has, and each begins with
the headings. -/
structure SoundSection (element : ParsedElement μ) (chunks : List (Chunk μ)) : Prop where
  sound : SoundChunks e element.text maxTokens (headingBreadcrumb element.headingPath)
    (texts chunks)
  starts : ∀ text ∈ texts chunks, headingBreadcrumb element.headingPath <+: text

variable {e maxTokens mode}

theorem texts_markdownSectionStrategy (element : ParsedElement μ) :
    texts (markdownSectionStrategy e maxTokens mode element) =
      (textChunks e maxTokens mode element).map Prod.fst := by
  have hedges : texts (markdownWikilinkEdgeStrategy element) = [] := by
    unfold markdownWikilinkEdgeStrategy texts
    split
    · rfl
    · rw [List.filterMap_map]
      exact List.filterMap_eq_nil_iff.mpr fun _ _ => rfl
  unfold texts at hedges ⊢
  rw [markdownSectionStrategy, List.filterMap_append, hedges, List.append_nil, List.filterMap_map]
  exact congrFun List.filterMap_eq_map _

/-- The body, or what it is cut into. -/
def rawTexts (e : Encoding) (maxTokens : Nat) (mode : Mode) (element : ParsedElement μ) :
    List (List Char) :=
  if countTokens e (withHeader (headingBreadcrumb element.headingPath) element.text) ≤ maxTokens
  then [element.text]
  else chunkText e element.text maxTokens chunkOverlapRatio mode []

theorem texts_eq_map (element : ParsedElement μ) :
    texts (markdownSectionStrategy e maxTokens mode element) =
      (rawTexts e maxTokens mode element).map
        (withHeader (headingBreadcrumb element.headingPath)) := by
  rw [texts_markdownSectionStrategy, textChunks, rawTexts]
  simp only
  split
  · rfl
  · rw [List.map_map]
    have hfst : (Prod.fst ∘ fun piece : List Char × Nat =>
        (withHeader (headingBreadcrumb element.headingPath) piece.1, some piece.2)) =
        withHeader (headingBreadcrumb element.headingPath) ∘ Prod.fst := rfl
    rw [hfst, ← List.map_map, List.zipIdx_map_fst]

theorem prefix_withHeader (header chunk : List Char) : header <+: withHeader header chunk := by
  unfold withHeader
  split
  · next hnone =>
    rw [hnone]
    exact List.nil_prefix
  · exact List.prefix_append _ _

theorem covers_rawTexts (he : e.Lawful) (element : ParsedElement μ) :
    Covers solid [] (rawTexts e maxTokens mode element) (element.text.filter solid) := by
  unfold rawTexts
  split
  · exact .single element.text
  · obtain ⟨raw, hraw, hcovers⟩ := Chunking.covers_chunkText he element.text maxTokens
      chunkOverlapRatio_nonneg chunkOverlapRatio_lt_one mode []
    have hbare : withHeader [] = id := funext fun chunk => if_pos rfl
    rwa [hraw, hbare, List.map_id]

theorem forall_texts (element : ParsedElement μ) (hmax : 50 ≤ maxTokens) :
    (∀ text ∈ texts (markdownSectionStrategy e maxTokens mode element),
        countTokens e text ≤ maxTokens) ↔
      countTokens e (withHeader (headingBreadcrumb element.headingPath) element.text) ≤ maxTokens ∨
        Pieces e maxTokens chunkOverlapRatio mode (fun piece => countTokens e
          (withHeader (headingBreadcrumb element.headingPath) piece) ≤ maxTokens) element.text := by
  rw [texts_eq_map, List.forall_mem_map, rawTexts]
  split
  · next hfits =>
    rw [List.forall_mem_singleton]
    exact iff_of_true hfits (Or.inl hfits)
  · next hfits =>
    rw [or_iff_right hfits, Chunking.forall_chunkText element.text maxTokens
      chunkOverlapRatio_nonneg chunkOverlapRatio_lt_one mode []]
    have hbare : withHeader [] = id := funext fun chunk => if_pos rfl
    rw [if_pos rfl, Nat.sub_zero, Nat.max_eq_right hmax, hbare]
    rfl

/-- A section keeps its body and its headings; its chunks are within the bound when it fits whole,
or each piece that the counts of the body alone gather does with the headings. -/
theorem soundSection_iff (he : e.Lawful) (element : ParsedElement μ)
    (hroom : headerTokens e (headingBreadcrumb element.headingPath) + 50 ≤ maxTokens) :
    SoundSection e maxTokens element (markdownSectionStrategy e maxTokens mode element) ↔
      countTokens e (withHeader (headingBreadcrumb element.headingPath) element.text) ≤ maxTokens ∨
        Pieces e maxTokens chunkOverlapRatio mode (fun piece => countTokens e
          (withHeader (headingBreadcrumb element.headingPath) piece) ≤ maxTokens) element.text := by
  have hmax : 50 ≤ maxTokens := by omega
  constructor
  · intro h
    exact (forall_texts element hmax).mp h.sound.bounded
  · intro h
    refine ⟨⟨(forall_texts element hmax).mpr h, _, texts_eq_map element, covers_rawTexts he element⟩, ?_⟩
    rw [texts_eq_map, List.forall_mem_map]
    exact fun piece _ => prefix_withHeader _ piece

end Strategy

section Samples

open Chunking (charEncoding charEncoding_lawful)

theorem soundSection_iff_letter :
    SoundSection charEncoding 51 ⟨['a'], [['h']], ()⟩
        (markdownSectionStrategy charEncoding 51 .semantic ⟨['a'], [['h']], ()⟩) ↔
      countTokens charEncoding (withHeader ['h'] ['a']) ≤ 51 ∨
        Pieces charEncoding 51 chunkOverlapRatio .semantic
          (fun piece => countTokens charEncoding (withHeader ['h'] piece) ≤ 51) ['a'] :=
  soundSection_iff charEncoding_lawful ⟨['a'], [['h']], ()⟩ (by decide)

/-- A body with few enough tokens is not cut, and its headings are too many. -/
theorem not_soundSection : ¬ ∀ (e : Encoding) (maxTokens : Nat) (mode : Mode)
    (element : ParsedElement Unit), e.Lawful →
      headerTokens e (headingBreadcrumb element.headingPath) + 50 ≤ maxTokens →
      SoundSection e maxTokens element (markdownSectionStrategy e maxTokens mode element) := by
  intro h
  have hsound := h charEncoding 51 .semantic ⟨List.replicate 50 'a', [['h']], ()⟩
    charEncoding_lawful (by decide)
  have hcrumb : headingBreadcrumb [['h']] = ['h'] := rfl
  have hmem : withHeader ['h'] (List.replicate 50 'a') ∈ texts (markdownSectionStrategy charEncoding
      51 .semantic (⟨List.replicate 50 'a', [['h']], ()⟩ : ParsedElement Unit)) := by
    rw [texts_eq_map]
    refine List.mem_map.mpr ⟨_, ?_, rfl⟩
    simp [rawTexts, hcrumb, chunkText, Chunking.chunkTextSemantic, countTokens, charEncoding,
      withHeader]
  have hbound := hsound.sound.bounded _ hmem
  simp [countTokens, charEncoding, withHeader] at hbound

end Samples

end Cerid.Ingest.Markdown
