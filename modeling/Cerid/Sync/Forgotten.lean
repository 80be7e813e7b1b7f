import Cerid.Forget.Registry
import Cerid.Sync.Records

/-!
# The forgotten tests of an import

Each import path asks the forget registry about the subjects it can read off its rows.
-/

namespace Cerid.Sync

open Forget (Kind Subject Index)

/-! ## Chunk ids -/

/-- A text read from its end, without the mark it ends in. -/
def dropMark (mark : String) (rev : List Char) : Option (List Char) :=
  if mark.toList.reverse.isPrefixOf rev then some (rev.drop mark.toList.length) else none

/-- A text read from its end, without the digits it ends in. -/
def dropDigits (rev : List Char) : Option (List Char) :=
  match rev.span Char.isDigit with
  | ([], _) => none
  | (_, rest) => some rest

/-- `positional_artifact_id`: what is before `_chunk_N`, `_parent_N` or `_child_N_M`. -/
def positionalArtifactId (chunkId : String) : Option String := do
  let rest ← dropDigits chunkId.toList.reverse
  let rev ← (dropMark "_chunk_" rest).or ((dropMark "_parent_" rest).or (do
    let rest ← dropMark "_" rest
    let rest ← dropDigits rest
    dropMark "_child_" rest))
  return String.ofList rev.reverse

def isHex (c : Char) : Bool := c.isDigit || ('a' ≤ c && c ≤ 'f')

/-- What is before `_` and sixteen hexadecimal digits. -/
def contentArtifactId (chunkId : String) : Option String := do
  let rev := chunkId.toList.reverse
  if (rev.take 16).length = 16 ∧ (rev.take 16).all isHex then
    let rest ← dropMark "_" (rev.drop 16)
    text (some (String.ofList rest.reverse))
  else none

def chunkArtifactId (chunkId : String) : Option String :=
  (text (positionalArtifactId chunkId)).or (contentArtifactId chunkId)

example : chunkArtifactId "note_child_3_12" = some "note" := by decide

example : chunkArtifactId "note_00c0ffee00c0ffee" = some "note" := by decide

/-! ## The tests -/

def isForgotten (reg : Index) (kind : Kind) (id : String) : Bool :=
  id ≠ "" && Forget.isForgotten reg { kind, id }

/-- The test of a subject that a row may not name. -/
def namesForgotten (reg : Index) (kind : Kind) (id : Option String) : Bool :=
  id.any (isForgotten reg kind)

def isForgottenArtifact (reg : Index) (artifactId : String) : Bool :=
  isForgotten reg .artifact artifactId

def startsWith (s mark : String) : Bool := mark.toList.isPrefixOf s.toList

def withoutMark (s mark : String) : String :=
  if startsWith s mark then String.ofList (s.toList.drop mark.toList.length) else s

/-- `TRANSCRIPT_FILENAME_PREFIX`. -/
def transcriptMark : String := "chat_"

/-- `LEGACY_VERIFIED_MEMORY_PREFIX`. -/
def legacyVerifiedMemoryMark : String := "verified_memory_"

def verifiedMemorySource : String := "verification"

/-- The conversation a transcript row came from. -/
def transcriptConversation (m : Meta) : Option String :=
  if startsWith (m.filename.getD "") transcriptMark then text m.conversationId else none

def isForgottenTranscript (reg : Index) (m : Meta) : Bool :=
  namesForgotten reg .conversation (transcriptConversation m)

def isVerifiedMemoryRow (rowId : String) (m : Meta) : Bool :=
  startsWith rowId legacyVerifiedMemoryMark || m.memorySourceType == some verifiedMemorySource

/-- The memory a recall document is of. -/
def verifiedMemory (rowId : String) (m : Meta) : Option String :=
  if isVerifiedMemoryRow rowId m then
    some ((text m.artifactId).getD (withoutMark rowId legacyVerifiedMemoryMark))
  else none

def isForgottenVerifiedMemory (reg : Index) (rowId : String) (m : Meta) : Bool :=
  namesForgotten reg .memory (verifiedMemory rowId m)

def isForgottenChunk (reg : Index) (rowId : String) (m : Meta) : Bool :=
  isForgotten reg .chunk rowId || namesForgotten reg .chunk (text m.parentChunkId)

def isForgottenLexicalRow (reg : Index) (rowId : String) : Bool :=
  isForgotten reg .chunk rowId || namesForgotten reg .artifact (chunkArtifactId rowId)

/-- The test `import_chroma` makes of a row that is new to the machine. -/
def isForgottenRow (reg : Index) (rowId : String) (m : Meta) : Bool :=
  namesForgotten reg .artifact (text m.artifactId) || isForgottenTranscript reg m ||
    isForgottenVerifiedMemory reg rowId m || isForgottenChunk reg rowId m

/-! ## The subjects a passage belongs to -/

def Subject.ofOption (kind : Kind) (id : Option String) : List Subject :=
  id.toList.map (fun id => { kind, id })

/-- The passage itself, its parent passage, its artifact, its memory and the
conversation its transcript came from. -/
def passageSubjects (rowId : String) (m : Meta) : List Subject :=
  { kind := .chunk, id := rowId } :: (Subject.ofOption .chunk (text m.parentChunkId) ++
    (Subject.ofOption .artifact (text m.artifactId) ++
      (Subject.ofOption .memory (verifiedMemory rowId m) ++
        Subject.ofOption .conversation (transcriptConversation m))))

/-- One of the subjects is forgotten. -/
def anyForgotten (reg : Index) (subjects : List Subject) : Bool :=
  subjects.any (fun s => isForgotten reg s.kind s.id)

@[simp] theorem anyForgotten_nil (reg : Index) : anyForgotten reg [] = false := rfl

@[simp] theorem anyForgotten_cons (reg : Index) (s : Subject) (rest : List Subject) :
    anyForgotten reg (s :: rest) = (isForgotten reg s.kind s.id || anyForgotten reg rest) := rfl

@[simp] theorem anyForgotten_append (reg : Index) (a b : List Subject) :
    anyForgotten reg (a ++ b) = (anyForgotten reg a || anyForgotten reg b) :=
  List.any_append

@[simp] theorem anyForgotten_ofOption (reg : Index) (kind : Kind) (id : Option String) :
    anyForgotten reg (Subject.ofOption kind id) = namesForgotten reg kind id := by
  cases id <;> simp [Subject.ofOption, namesForgotten, anyForgotten]

/-- The vector import tests every subject of a passage. -/
theorem isForgottenRow_eq (reg : Index) (rowId : String) (m : Meta) :
    isForgottenRow reg rowId m = anyForgotten reg (passageSubjects rowId m) := by
  simp only [isForgottenRow, isForgottenTranscript, isForgottenVerifiedMemory, isForgottenChunk,
    passageSubjects, anyForgotten_cons, anyForgotten_append, anyForgotten_ofOption]
  ac_rfl

theorem anyForgotten_flatMap {α : Type} (reg : Index) (xs : List α) (f : α → List Subject) :
    anyForgotten reg (xs.flatMap f) = xs.any (fun x => anyForgotten reg (f x)) := by
  induction xs with
  | nil => rfl
  | cons x rest ih => rw [List.flatMap_cons, anyForgotten_append, ih, List.any_cons]

end Cerid.Sync
