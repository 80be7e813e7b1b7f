import Cerid.Ingest.ChunkIds
import Cerid.Lib.Run
import Mathlib.Data.List.Count
import Mathlib.Data.Rat.Floor
import Mathlib.Data.Set.Function

/-!
# Cutting a document into chunks

A text is cut at its paragraphs or by tokens, and with parents each chunk is cut again into
smaller ones; the ids are given out in the order in which the records are listed.

The encoder is outside, and texts that it refuses are never cut.  Ratios are rationals.
-/

namespace Cerid.Ingest.Chunking

open Text (isSpace strip)

/-- `tiktoken`. -/
structure Encoding where
  encode : List Char → List Nat
  decode : List Nat → List Char

def countTokens (e : Encoding) (text : List Char) : Nat := (e.encode text).length

/-! ## The header -/

def makeContextHeader (filename domain subCategory : List Char) : List Char :=
  " | ".toList.intercalate (
    (if filename = [] then [] else ["Source: ".toList ++ filename]) ++
    (if domain = [] then [] else ["Domain: ".toList ++ domain]) ++
    (if subCategory = [] then [] else ["Category: ".toList ++ subCategory]))

/-! ## By tokens -/

/-- `int` of a ratio. -/
def truncate (q : ℚ) : Int := if 0 ≤ q then ⌊q⌋ else ⌈q⌉

/-- The loop of `chunk_text_token`; it goes on by one token at least. -/
def windows (e : Encoding) (tokens : List Nat) (maxTokens step : Nat) :
    Nat → Nat → List (List Char)
  | 0, _ => []
  | fuel + 1, start =>
    if start < tokens.length then
      let stop := min (start + maxTokens) tokens.length
      e.decode ((tokens.take stop).drop start) ::
        (if tokens.length ≤ stop then []
        else windows e tokens maxTokens step fuel (start + step))
    else []

def chunkTextToken (e : Encoding) (text : List Char) (maxTokens : Nat) (overlap : ℚ) :
    List (List Char) :=
  let tokens := e.encode text
  if tokens.length ≤ maxTokens then [text]
  else
    let step := max 1 ((maxTokens : Int) - truncate (maxTokens * overlap))
    windows e tokens maxTokens step.toNat tokens.length 0

/-! ## By paragraphs -/

/-- `re.split` at two line feeds or more; `pending` are those met since `block`. -/
def splitBlocks (block : List Char) (pending : Nat) : List Char → List (List Char)
  | [] => if pending ≤ 1 then [block ++ List.replicate pending '\n'] else [block, []]
  | c :: rest =>
    if c = '\n' then splitBlocks block (pending + 1) rest
    else if pending ≤ 1 then splitBlocks (block ++ List.replicate pending '\n' ++ [c]) 0 rest
    else block :: splitBlocks [c] 0 rest

/-- Every line of the block that is not blank starts a table row. -/
def isTable (block : List Char) : Bool :=
  (block.splitOn '\n').all (fun line => strip line = [] || (strip line).head? = some '|')

def joinParts (parts : List (List Char)) : List Char := ['\n', '\n'].intercalate parts

/-- One block of `_split_paragraphs`, over the paragraphs and the table that is open. -/
def addBlock (acc : List (List Char) × List (List Char)) (block : List Char) :
    List (List Char) × List (List Char) :=
  let block := strip block
  if block = [] then acc
  else if isTable block then (acc.1, acc.2 ++ [block])
  else if acc.2 = [] then (acc.1 ++ [block], [])
  else (acc.1 ++ [joinParts acc.2, block], [])

def splitParagraphs (text : List Char) : List (List Char) :=
  let acc := (splitBlocks [] 0 (strip text)).foldl addBlock ([], [])
  if acc.2 = [] then acc.1 else acc.1 ++ [joinParts acc.2]

/-- `_SENTENCE_RE.split`: at the spaces between a mark and a capital. -/
def splitSentences (sentence spaces : List Char) : List Char → List (List Char)
  | [] => [sentence ++ spaces]
  | c :: rest =>
    if isSpace c then splitSentences sentence (spaces ++ [c]) rest
    else if spaces ≠ [] ∧ sentence.getLast?.any (· ∈ ['.', '!', '?']) ∧ 'A' ≤ c ∧ c ≤ 'Z' then
      sentence :: splitSentences [c] [] rest
    else splitSentences (sentence ++ spaces ++ [c]) [] rest

/-- The chunks so far and those that are gathered for the next one, with their tokens. -/
structure Gathered where
  chunks : List (List Char)
  parts : List (List Char)
  tokens : Nat

def Gathered.start : Gathered := { chunks := [], parts := [], tokens := 0 }

/-- What was gathered becomes a chunk. -/
def Gathered.flush (separator : List Char) (acc : Gathered) : Gathered :=
  if acc.parts = [] then acc
  else { chunks := acc.chunks ++ [separator.intercalate acc.parts], parts := [], tokens := 0 }

def Gathered.push (acc : Gathered) (part : List Char) (tokens : Nat) : Gathered :=
  { acc with parts := acc.parts ++ [part], tokens := acc.tokens + tokens }

def addSentence (e : Encoding) (maxTokens : Nat) (acc : Gathered) (sent : List Char) : Gathered :=
  let acc := if maxTokens < acc.tokens + countTokens e sent then acc.flush [' '] else acc
  acc.push sent (countTokens e sent)

/-- The last paragraph is kept as the overlap when it is short enough. -/
def flushOverlap (e : Encoding) (maxTokens : Nat) (overlap : ℚ) (acc : Gathered) : Gathered :=
  match acc.parts.getLast? with
  | none => acc
  | some lastPart =>
    let flushed := acc.flush ['\n', '\n']
    if (countTokens e lastPart : Int) ≤ truncate (maxTokens * overlap) then
      flushed.push lastPart (countTokens e lastPart)
    else flushed

def addParagraph (e : Encoding) (maxTokens : Nat) (overlap : ℚ) (acc : Gathered)
    (para : List Char) : Gathered :=
  if maxTokens < countTokens e para then
    let acc := acc.flush ['\n', '\n']
    let sentences := splitSentences [] [] para
    if 1 < sentences.length then
      let sents := (sentences.foldl (addSentence e maxTokens) .start).flush [' ']
      { acc with chunks := acc.chunks ++ sents.chunks }
    else { acc with chunks := acc.chunks ++ chunkTextToken e para maxTokens overlap }
  else
    let acc := if maxTokens < acc.tokens + countTokens e para then
      flushOverlap e maxTokens overlap acc else acc
    acc.push para (countTokens e para)

def chunkTextSemantic (e : Encoding) (text : List Char) (maxTokens : Nat) (overlap : ℚ) :
    List (List Char) :=
  if countTokens e text ≤ maxTokens then [text]
  else
    let paragraphs := splitParagraphs text
    if paragraphs = [] then (if strip text = [] then [] else [text])
    else ((paragraphs.foldl (addParagraph e maxTokens overlap) .start).flush ['\n', '\n']).chunks

inductive Mode where
  | token
  | semantic
deriving DecidableEq, Repr

/-- `f"{context_header}\n\n{chunk}"`. -/
def withHeader (contextHeader chunk : List Char) : List Char :=
  if contextHeader = [] then chunk else contextHeader ++ '\n' :: '\n' :: chunk

def chunkText (e : Encoding) (text : List Char) (maxTokens : Nat) (overlap : ℚ) (mode : Mode)
    (contextHeader : List Char) : List (List Char) :=
  let headerTokens := if contextHeader = [] then 0 else countTokens e contextHeader
  let effectiveMax := max 50 (maxTokens - headerTokens)
  let rawChunks := match mode with
    | .semantic => chunkTextSemantic e text effectiveMax overlap
    | .token => chunkTextToken e text effectiveMax overlap
  rawChunks.map (withHeader contextHeader)

/-! ## With parents -/

/-- The arguments of `chunk_with_parents` besides the text, and the settings it reads. -/
structure Options where
  parentChild : Bool
  maxTokens : Nat
  overlap : ℚ
  mode : Mode
  contextHeader : List Char
  childTokens : Nat
  childOverlap : ℚ

structure Record where
  chunkId : List Char
  text : List Char
  chunkLevel : ChunkLevel
  parentChunkId : Option (List Char)
  childIndex : Option Nat
  parentTokenCount : Option Nat
deriving DecidableEq, Repr

section Records

variable (e : Encoding) (nfc h16 : List Char → List Char)

/-- The records so far, and the assigner. -/
abbrev Listing := List Record × ChunkIdAssigner

def addFlat (acc : Listing) (text : List Char) : Listing :=
  let (chunkId, ids) := acc.2.assign nfc h16 .child text
  (acc.1 ++ [{ chunkId, text, chunkLevel := .flat, parentChunkId := none, childIndex := none
               parentTokenCount := none }], ids)

def addChild (parentId : List Char) (parentTokenCount : Nat) (acc : Listing)
    (child : List Char × Nat) : Listing :=
  let (chunkId, ids) := acc.2.assign nfc h16 .child child.1
  (acc.1 ++ [{ chunkId, text := child.1, chunkLevel := .child, parentChunkId := some parentId
               childIndex := some child.2, parentTokenCount := some parentTokenCount }], ids)

/-- A parent and its children. -/
def addParent (o : Options) (acc : Listing) (parentText : List Char) : Listing :=
  let (parentId, ids) := acc.2.assign nfc h16 .parent parentText
  let parentTokenCount := countTokens e parentText
  let acc := (acc.1 ++ [{ chunkId := parentId, text := parentText, chunkLevel := .parent
                          parentChunkId := some parentId, childIndex := none
                          parentTokenCount := some parentTokenCount }], ids)
  ((chunkTextToken e parentText o.childTokens o.childOverlap).zipIdx).foldl
    (addChild nfc h16 parentId parentTokenCount) acc

def chunkWithParents (text artifactId : List Char) (o : Options) : List Record :=
  let texts := chunkText e text o.maxTokens o.overlap o.mode o.contextHeader
  if o.parentChild then (texts.foldl (addParent e nfc h16 o) ([], .start artifactId)).1
  else (texts.foldl (addFlat nfc h16) ([], .start artifactId)).1

/-! ## The ids of a listing -/

def recordKey (r : Record) : List Char × List Char := chunkKey nfc r.chunkLevel r.text

/-- How many of the first `i` records have a key. -/
def earlier (rs : List Record) (i : Nat) (key : List Char × List Char) : Nat :=
  (rs.take i).countP (fun r => recordKey nfc r = key)

/-- The string that the id of the record at `i` hashes. -/
def hashedAt (artifactId : List Char) (rs : List Record) (i : Nat) (r : Record) : List Char :=
  hashInput artifactId (recordKey nfc r).1 (recordKey nfc r).2 (earlier nfc rs i (recordKey nfc r))

/-- Every record has the id of its key and its place among those of that key. -/
structure Numbered (artifactId : List Char) (acc : Listing) : Prop where
  artifact : acc.2.artifactId = artifactId
  seen : ∀ key, (acc.2.seen.get? key).getD 0 = acc.1.countP (fun r => recordKey nfc r = key)
  ids : ∀ i r, acc.1[i]? = some r →
    r.chunkId = artifactId ++ '_' :: h16 (hashedAt nfc artifactId acc.1 i r)

variable {artifactId : List Char} {acc : Listing}

theorem numbered_start : Numbered nfc h16 artifactId ([], .start artifactId) :=
  ⟨rfl, fun _ => rfl, nofun⟩

variable {nfc h16}

theorem numbered_append (h : Numbered nfc h16 artifactId acc) {level : ChunkLevel}
    {text : List Char} {r : Record} (hkey : recordKey nfc r = chunkKey nfc level text)
    (hid : r.chunkId = (acc.2.assign nfc h16 level text).1) :
    Numbered nfc h16 artifactId (acc.1 ++ [r], (acc.2.assign nfc h16 level text).2) where
  artifact := h.artifact
  seen key := by
    show ((acc.2.seen.set (chunkKey nfc level text) _).get? key).getD 0 = _
    rw [Dict.get?_set, List.countP_append, List.countP_singleton, hkey]
    by_cases hk : key = chunkKey nfc level text
    · rw [if_pos hk, Option.getD_some, h.seen, if_pos (decide_eq_true hk.symm), hk]
    · rw [if_neg hk, h.seen, if_neg (by simpa using fun he => hk he.symm), Nat.add_zero]
  ids i r' hr := by
    have htake : ∀ n ≤ acc.1.length, (acc.1 ++ [r]).take n = acc.1.take n := fun n hn =>
      List.take_append_of_le_length hn
    rcases Nat.lt_or_ge i acc.1.length with hlt | hge
    · rw [List.getElem?_append_left hlt] at hr
      rw [h.ids i r' hr, hashedAt, hashedAt, earlier, earlier, htake i hlt.le]
    · rw [List.getElem?_append_right hge] at hr
      have hi : i = acc.1.length := by
        have hsingle := (List.getElem?_eq_some_iff.mp hr).1
        rw [List.length_singleton] at hsingle
        omega
      rw [hi, Nat.sub_self, List.getElem?_cons_zero, Option.some.injEq] at hr
      rw [← hr, hid, hashedAt, earlier, hi, htake _ le_rfl, List.take_length, hkey, ← h.seen,
        ← h.artifact]
      rfl

theorem numbered_addFlat (h : Numbered nfc h16 artifactId acc) (text : List Char) :
    Numbered nfc h16 artifactId (addFlat nfc h16 acc text) := numbered_append h rfl rfl

theorem numbered_addChild (parentId : List Char) (parentTokenCount : Nat)
    (h : Numbered nfc h16 artifactId acc) (child : List Char × Nat) :
    Numbered nfc h16 artifactId (addChild nfc h16 parentId parentTokenCount acc child) :=
  numbered_append h rfl rfl

theorem foldl_numbered {α : Type} {step : Listing → α → Listing}
    (hstep : ∀ acc x, Numbered nfc h16 artifactId acc → Numbered nfc h16 artifactId (step acc x))
    (xs : List α) (h : Numbered nfc h16 artifactId acc) :
    Numbered nfc h16 artifactId (xs.foldl step acc) :=
  foldl_invariant step (Numbered nfc h16 artifactId) (p := fun _ => True)
    (fun _ x hacc _ => hstep _ x hacc) h (fun _ _ => trivial)

theorem numbered_addParent (o : Options) (h : Numbered nfc h16 artifactId acc)
    (parentText : List Char) : Numbered nfc h16 artifactId (addParent e nfc h16 o acc parentText) :=
  foldl_numbered (fun _ child hacc => numbered_addChild _ _ hacc child) _
    (numbered_append h rfl rfl)

variable (nfc h16)

/-- Every record of a document has the id of its key and its place. -/
theorem chunkId_eq (text artifactId : List Char) (o : Options) (i : Nat) (r : Record)
    (hr : (chunkWithParents e nfc h16 text artifactId o)[i]? = some r) :
    r.chunkId = artifactId ++ '_' ::
      h16 (hashedAt nfc artifactId (chunkWithParents e nfc h16 text artifactId o) i r) := by
  by_cases hp : o.parentChild = true
  · simp only [chunkWithParents, if_pos hp] at hr ⊢
    exact (foldl_numbered (fun _ x hacc => numbered_addParent e o hacc x) _
      (numbered_start nfc h16)).ids i r hr
  · simp only [chunkWithParents, if_neg hp] at hr ⊢
    exact (foldl_numbered (fun _ x hacc => numbered_addFlat hacc x) _
      (numbered_start nfc h16)).ids i r hr

/-! ## What ingest stores of a passage -/

/-- A context line and a header in front of the passage, or one of the two; a passage that
has no header does not begin like one, and one that has neither does not begin like either. -/
inductive Stored (passage : List Char) : List Char → Prop
  | headed (filename domain subCategory : List Char)
      (hne : makeContextHeader filename domain subCategory ≠ [])
      (hline : '\n' ∉ makeContextHeader filename domain subCategory) :
      Stored passage (withHeader (makeContextHeader filename domain subCategory) passage)
  | bare (hcontext : startsContext passage = false) (hheader : startsHeader passage = false) :
      Stored passage passage
  | contextual (context filename domain subCategory : List Char) (hcontext : '\n' ∉ context)
      (hline : '\n' ∉ makeContextHeader filename domain subCategory)
      (hheader : makeContextHeader filename domain subCategory = [] →
        startsHeader passage = false) :
      Stored passage ('[' :: context ++ ']' :: '\n' ::
        withHeader (makeContextHeader filename domain subCategory) passage)

/-- A header begins with one of the labels. -/
theorem makeContextHeader_label {filename domain subCategory : List Char}
    (hne : makeContextHeader filename domain subCategory ≠ []) :
    ∃ label ∈ headerLabels, label <+: makeContextHeader filename domain subCategory := by
  unfold makeContextHeader at hne ⊢
  by_cases hf : filename = []
  · by_cases hd : domain = []
    · by_cases hs : subCategory = []
      · rw [if_pos hf, if_pos hd, if_pos hs] at hne
        exact absurd rfl hne
      · rw [if_pos hf, if_pos hd, if_neg hs]
        exact ⟨"Category: ".toList, by decide,
          (List.prefix_append _ _).trans (Text.isPrefix_intercalate _ _ _)⟩
    · rw [if_pos hf, if_neg hd]
      exact ⟨"Domain: ".toList, by decide,
        (List.prefix_append _ _).trans (Text.isPrefix_intercalate _ _ _)⟩
  · rw [if_neg hf]
    exact ⟨"Source: ".toList, by decide,
      (List.prefix_append _ _).trans (Text.isPrefix_intercalate _ _ _)⟩

theorem dropContext_of_head {text : List Char} (h : text.head? ≠ some '[') :
    dropContext text = text := by
  have hline : (firstLine text).head? ≠ some '[' := by
    cases text with
    | nil => exact h
    | cons c rest =>
      rw [firstLine, List.takeWhile_cons]
      by_cases hc : c = '\n'
      · simp [hc]
      · rw [if_pos (decide_eq_true hc)]
        exact h
  have hstarts : startsContext text = false := by simp [startsContext, hline]
  rw [dropContext, hstarts]
  rfl

theorem dropHeader_withHeader {filename domain subCategory passage : List Char}
    (hline : '\n' ∉ makeContextHeader filename domain subCategory)
    (hheader : makeContextHeader filename domain subCategory = [] → startsHeader passage = false) :
    dropHeader (withHeader (makeContextHeader filename domain subCategory) passage) = passage := by
  by_cases hne : makeContextHeader filename domain subCategory = []
  · rw [withHeader, if_pos hne, dropHeader, hheader hne]
    rfl
  · obtain ⟨label, hlabel, hpre⟩ := makeContextHeader_label hne
    rw [withHeader, if_neg hne]
    exact dropHeader_line hline
      (List.any_eq_true.mpr ⟨label, hlabel, List.isPrefixOf_iff_prefix.mpr hpre⟩) passage

/-- A header does not begin like a context line. -/
theorem dropContext_withHeader {filename domain subCategory : List Char}
    (hne : makeContextHeader filename domain subCategory ≠ []) (passage : List Char) :
    dropContext (withHeader (makeContextHeader filename domain subCategory) passage) =
      withHeader (makeContextHeader filename domain subCategory) passage := by
  obtain ⟨label, hlabel, rest, hrest⟩ := makeContextHeader_label hne
  refine dropContext_of_head ?_
  have hhead : ∀ label ∈ headerLabels, ∀ tail, (label ++ tail).head? ≠ some '[' := by
    intro label hmem tail
    simp only [headerLabels, List.mem_cons, List.not_mem_nil, or_false] at hmem
    rcases hmem with rfl | rfl | rfl <;> simp
  rw [withHeader, if_neg hne, ← hrest, List.append_assoc]
  exact hhead label hlabel _

/-- The body of a stored text is its passage's. -/
theorem chunkBody_stored {passage text : List Char} (h : Stored passage text) :
    chunkBody nfc text = normalize nfc passage := by
  cases h with
  | headed filename domain subCategory hne hline =>
    rw [chunkBody, dropContext_withHeader hne, dropHeader_withHeader hline (fun h => absurd h hne)]
  | bare hcontext hheader =>
    rw [chunkBody, dropContext, hcontext]
    rw [if_neg Bool.false_ne_true, dropHeader, hheader, if_neg Bool.false_ne_true]
  | contextual context filename domain subCategory hcontext hline hheader =>
    rw [chunkBody, dropContext_line hcontext, dropHeader_withHeader hline hheader]

/-! ## Two chunkings of a document -/

/-- All that the ids of a listing hash. -/
def hashed (artifactId : List Char) (rs : List Record) : List (List Char) :=
  rs.zipIdx.map (fun p => hashedAt nfc artifactId rs p.2 p.1)

/-- The digests tell apart what is in the list. -/
def Collisionless (inputs : List (List Char)) : Prop :=
  ∀ x ∈ inputs, ∀ y ∈ inputs, h16 x = h16 y → x = y

instance (inputs : List (List Char)) : Decidable (Collisionless h16 inputs) :=
  inferInstanceAs (Decidable (∀ x ∈ inputs, ∀ y ∈ inputs, h16 x = h16 y → x = y))

/-- Two records have one id when their levels and bodies are the same and as many such came
before each; the ids of one listing are distinct; an id is given to one passage only, up to
normalization and spaces; and a passage keeps its id, whatever ingest puts in front of it,
while as many of its level and body come before it. -/
structure KeepsIds (rs rs' : List Record) : Prop where
  same : ∀ i j r r', rs[i]? = some r → rs'[j]? = some r' →
    (r.chunkId = r'.chunkId ↔ recordKey nfc r = recordKey nfc r' ∧
      earlier nfc rs i (recordKey nfc r) = earlier nfc rs' j (recordKey nfc r'))
  distinct : (rs.map Record.chunkId).Nodup
  passage : ∀ r ∈ rs, ∀ r' ∈ rs', r.chunkId = r'.chunkId →
    ∀ p p', Stored p r.text → Stored p' r'.text → normalize nfc p = normalize nfc p'
  kept : ∀ i j r r' p, rs[i]? = some r → rs'[j]? = some r' → Stored p r.text → Stored p r'.text →
    hashLevel r.chunkLevel = hashLevel r'.chunkLevel →
    earlier nfc rs i (recordKey nfc r) = earlier nfc rs' j (recordKey nfc r') →
      r.chunkId = r'.chunkId

theorem hashedAt_mem {artifactId : List Char} {rs : List Record} {i : Nat} {r : Record}
    (hr : rs[i]? = some r) : hashedAt nfc artifactId rs i r ∈ hashed nfc artifactId rs :=
  List.mem_map.mpr ⟨(r, i), List.mk_mem_zipIdx_iff_getElem?.mpr hr, rfl⟩

theorem earlier_lt {rs : List Record} {i j : Nat} {r : Record} (hr : rs[i]? = some r)
    (hij : i < j) : earlier nfc rs i (recordKey nfc r) < earlier nfc rs j (recordKey nfc r) := by
  have hstep : earlier nfc rs (i + 1) (recordKey nfc r) = earlier nfc rs i (recordKey nfc r) + 1 := by
    rw [earlier, List.take_add_one, hr, List.countP_append]
    simp [earlier]
  have hmono : earlier nfc rs (i + 1) (recordKey nfc r) ≤ earlier nfc rs j (recordKey nfc r) :=
    (List.take_sublist_take_left hij).countP_le
  omega

section Given

variable {rs rs' : List Record}
  (hids : ∀ i r, rs[i]? = some r → r.chunkId = artifactId ++ '_' :: h16 (hashedAt nfc artifactId rs i r))
  (hids' : ∀ i r, rs'[i]? = some r →
    r.chunkId = artifactId ++ '_' :: h16 (hashedAt nfc artifactId rs' i r))
  (hinj : Collisionless h16 (hashed nfc artifactId rs ++ hashed nfc artifactId rs'))
include hids hids' hinj

theorem chunkId_eq_iff (i j : Nat) (r r' : Record) (hr : rs[i]? = some r)
    (hr' : rs'[j]? = some r') :
    r.chunkId = r'.chunkId ↔ recordKey nfc r = recordKey nfc r' ∧
      earlier nfc rs i (recordKey nfc r) = earlier nfc rs' j (recordKey nfc r') := by
  rw [hids i r hr, hids' j r' hr']
  constructor
  · intro heq
    have hhash := (List.cons.inj (List.append_cancel_left heq)).2
    have hinput := hinj _ (List.mem_append_left _ (hashedAt_mem nfc hr)) _
      (List.mem_append_right _ (hashedAt_mem nfc hr')) hhash
    obtain ⟨hlevel, hbody, hcount⟩ := hashInput_inj hinput
    exact ⟨Prod.ext hlevel hbody, hcount⟩
  · intro h
    rw [hashedAt, hashedAt, h.2, h.1]

end Given

theorem distinct_of_same {rs : List Record}
    (hsame : ∀ i j r r', rs[i]? = some r → rs[j]? = some r' →
      (r.chunkId = r'.chunkId ↔ recordKey nfc r = recordKey nfc r' ∧
        earlier nfc rs i (recordKey nfc r) = earlier nfc rs j (recordKey nfc r'))) :
    (rs.map Record.chunkId).Nodup := by
  refine List.pairwise_iff_getElem.mpr (fun i j hi hj hij heq => ?_)
  rw [List.length_map] at hi hj
  rw [List.getElem_map, List.getElem_map] at heq
  have hri := List.getElem?_eq_getElem hi
  obtain ⟨hkey, hcount⟩ := (hsame i j _ _ hri (List.getElem?_eq_getElem hj)).mp heq
  have hlt := earlier_lt nfc hri hij
  rw [hcount, ← hkey] at hlt
  exact Nat.lt_irrefl _ hlt

end Records

section Samples

/-- A token a word. -/
def wordEncoding : Encoding where
  encode text := (words text).map List.length
  decode _ := []

/-- The settings as they are by default, with or without parents. -/
def defaults (parentChild : Bool) : Options where
  parentChild := parentChild
  maxTokens := 512
  overlap := 1 / 5
  mode := .semantic
  contextHeader := []
  childTokens := 128
  childOverlap := 1 / 10

/-- The digests of the four chunks of the samples. -/
def sampleDigest (input : List Char) : List Char :=
  if input = "doc\x00parent\x00alpha\x000".toList then "eaa69d0ea9ba458d".toList
  else if input = "doc\x00child\x00alpha\x000".toList then "fcc1eaa14e389028".toList
  else if input = "doc\x00parent\x00beta\x000".toList then "3ef9f87ca2c0495b".toList
  else if input = "doc\x00child\x00beta\x000".toList then "d232a7b8193d95e6".toList
  else []

end Samples

end Cerid.Ingest.Chunking
