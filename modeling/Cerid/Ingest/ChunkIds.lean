import Cerid.Lib.Dict
import Cerid.Lib.Text

/-!
# Content-addressed chunk ids

The id of a chunk hashes its artifact, its level, its body and how many equal bodies of that
level came before it in the artifact.  The body is the stored text without the context line
and the header that ingest puts in front of a passage.

A text is its list of characters.  `nfc` is the normalization of `unicodedata`, and `h16` the
first sixteen digits of the SHA-256 of a text.
-/

namespace Cerid.Ingest.Chunking

open Text (isSpace)

/-! ## Bodies -/

/-- A text up to its first line feed. -/
def firstLine (text : List Char) : List Char := text.takeWhile (· ≠ '\n')

/-- What follows the first line, from its line feed. -/
def afterLine (text : List Char) : List Char := text.dropWhile (· ≠ '\n')

/-- `_CONTEXT_LINE` matches: the first line is in brackets and was ended. -/
def startsContext (text : List Char) : Bool :=
  (firstLine text).head? = some '[' && (firstLine text).getLast? = some ']' &&
    decide (2 ≤ (firstLine text).length) && decide (afterLine text ≠ [])

def headerLabels : List (List Char) :=
  ["Source: ".toList, "Domain: ".toList, "Category: ".toList]

/-- `_HEADER` matches: a first line with one of the labels, and an empty line. -/
def startsHeader (text : List Char) : Bool :=
  headerLabels.any (fun label => label.isPrefixOf text) && ['\n', '\n'].isPrefixOf (afterLine text)

def dropContext (text : List Char) : List Char :=
  if startsContext text then (afterLine text).drop 1 else text

def dropHeader (text : List Char) : List Char :=
  if startsHeader text then (afterLine text).drop 2 else text

/-- `str.split`. -/
def words (text : List Char) : List (List Char) := (text.splitOnP isSpace).filter (· ≠ [])

section Ids

variable (nfc h16 : List Char → List Char)

/-- The words of a text, a space between two. -/
def normalize (text : List Char) : List Char := [' '].intercalate (words (nfc text))

def chunkBody (text : List Char) : List Char := normalize nfc (dropHeader (dropContext text))

/-! ## Ids -/

inductive ChunkLevel where
  | parent
  | child
  | flat
deriving DecidableEq, Repr

def hashLevel : ChunkLevel → List Char
  | .parent => "parent".toList
  | _ => "child".toList

/-- What is hashed. -/
def hashInput (artifactId level body : List Char) (occurrence : Nat) : List Char :=
  ['\x00'].intercalate [artifactId, level, body, Nat.toDigits 10 occurrence]

def contentChunkId (artifactId level body : List Char) (occurrence : Nat) : List Char :=
  artifactId ++ '_' :: h16 (hashInput artifactId level body occurrence)

structure ChunkIdAssigner where
  artifactId : List Char
  seen : Dict (List Char × List Char) Nat

def ChunkIdAssigner.start (artifactId : List Char) : ChunkIdAssigner where
  artifactId := artifactId
  seen := .empty

/-- The level and the body of a chunk. -/
def chunkKey (level : ChunkLevel) (text : List Char) : List Char × List Char :=
  (hashLevel level, chunkBody nfc text)

def ChunkIdAssigner.assign (ids : ChunkIdAssigner) (level : ChunkLevel) (text : List Char) :
    List Char × ChunkIdAssigner :=
  let key := chunkKey nfc level text
  let occurrence := (ids.seen.get? key).getD 0
  (contentChunkId h16 ids.artifactId key.1 key.2 occurrence,
    { ids with seen := ids.seen.set key (occurrence + 1) })

end Ids

/-! ## What is hashed tells chunks apart -/

theorem not_mem_toDigits (n : Nat) : '\x00' ∉ Nat.toDigits 10 n := by
  intro h
  have hdigit := Nat.isDigit_of_mem_toDigits (by decide) (by decide) h
  revert hdigit
  decide

theorem not_mem_hashLevel (level : ChunkLevel) : '\x00' ∉ hashLevel level := by
  cases level <;> decide

theorem hashInput_eq (artifactId level body : List Char) (occurrence : Nat) :
    hashInput artifactId level body occurrence =
      artifactId ++ '\x00' :: (level ++ '\x00' :: (body ++ '\x00' :: Nat.toDigits 10 occurrence)) := by
  simp [hashInput, List.intercalate]

theorem split_at_first {α : Type} {a : α} {x x' z z' : List α} (hx : a ∉ x) (hx' : a ∉ x')
    (h : x ++ a :: z = x' ++ a :: z') : x = x' ∧ z = z' := by
  induction x generalizing x' with
  | nil =>
    cases x' with
    | nil => exact ⟨rfl, (List.cons.inj h).2⟩
    | cons c rest => exact absurd ((List.cons.inj h).1 ▸ List.mem_cons_self) hx'
  | cons c rest ih =>
    cases x' with
    | nil => exact absurd ((List.cons.inj h).1 ▸ List.mem_cons_self) hx
    | cons c' rest' =>
      obtain ⟨hc, hrest⟩ := List.cons.inj h
      obtain ⟨he, hz⟩ := ih (fun hm => hx (List.mem_cons_of_mem c hm))
        (fun hm => hx' (List.mem_cons_of_mem c' hm)) hrest
      exact ⟨by rw [hc, he], hz⟩

/-- The level holds no NUL and neither do the digits, so that a body may. -/
theorem hashInput_inj {artifactId body body' : List Char} {level level' : ChunkLevel} {n n' : Nat}
    (h : hashInput artifactId (hashLevel level) body n =
      hashInput artifactId (hashLevel level') body' n') :
    hashLevel level = hashLevel level' ∧ body = body' ∧ n = n' := by
  rw [hashInput_eq, hashInput_eq] at h
  have htail := (List.cons.inj (List.append_cancel_left h)).2
  obtain ⟨hlevel, hrest⟩ :=
    split_at_first (not_mem_hashLevel level) (not_mem_hashLevel level') htail
  have hback : (Nat.toDigits 10 n).reverse ++ '\x00' :: body.reverse =
      (Nat.toDigits 10 n').reverse ++ '\x00' :: body'.reverse := by
    have hrev := congrArg List.reverse hrest
    simpa using hrev
  obtain ⟨hdigits, hbody⟩ := split_at_first (fun hm => not_mem_toDigits n (List.mem_reverse.mp hm))
    (fun hm => not_mem_toDigits n' (List.mem_reverse.mp hm)) hback
  have hread := congrArg (fun digits => Nat.ofDigitChars 10 digits 0)
    (List.reverse_inj.mp hdigits)
  refine ⟨hlevel, List.reverse_inj.mp hbody, ?_⟩
  simpa using hread

/-! ## What a body leaves of a stored text -/

section Stored

theorem all_ne_of_not_mem {line : List Char} (h : '\n' ∉ line) :
    ∀ c ∈ line, decide (c ≠ '\n') = true := by
  intro c hc
  refine decide_eq_true (fun he => h ?_)
  rw [← he]
  exact hc

theorem firstLine_append {line : List Char} (h : '\n' ∉ line) (rest : List Char) :
    firstLine (line ++ '\n' :: rest) = line := by
  rw [firstLine, List.takeWhile_append_of_pos (all_ne_of_not_mem h)]
  simp

theorem afterLine_append {line : List Char} (h : '\n' ∉ line) (rest : List Char) :
    afterLine (line ++ '\n' :: rest) = '\n' :: rest := by
  rw [afterLine, List.dropWhile_append_of_pos (all_ne_of_not_mem h)]
  simp

theorem dropContext_line {context : List Char} (h : '\n' ∉ context) (rest : List Char) :
    dropContext ('[' :: context ++ ']' :: '\n' :: rest) = rest := by
  have hline : '\n' ∉ '[' :: (context ++ [']']) := by simp [h]
  have heq : '[' :: context ++ ']' :: '\n' :: rest =
      ('[' :: (context ++ [']'])) ++ '\n' :: rest := by simp
  have hstarts : startsContext ('[' :: context ++ ']' :: '\n' :: rest) = true := by
    rw [heq, startsContext, firstLine_append hline, afterLine_append hline]
    simp [List.getLast?_cons]
  rw [dropContext, if_pos hstarts, heq, afterLine_append hline, List.drop_one, List.tail_cons]

theorem dropHeader_line {header : List Char} (h : '\n' ∉ header)
    (hlabel : headerLabels.any (fun label => label.isPrefixOf header) = true) (rest : List Char) :
    dropHeader (header ++ '\n' :: '\n' :: rest) = rest := by
  have hstarts : startsHeader (header ++ '\n' :: '\n' :: rest) = true := by
    obtain ⟨label, hmem, hpre⟩ := List.any_eq_true.mp hlabel
    rw [startsHeader, afterLine_append h, Bool.and_eq_true]
    refine ⟨List.any_eq_true.mpr ⟨label, hmem, ?_⟩, rfl⟩
    rw [List.isPrefixOf_iff_prefix] at hpre ⊢
    exact hpre.trans (List.prefix_append _ _)
  rw [dropHeader, if_pos hstarts, afterLine_append h]
  rfl

end Stored

end Cerid.Ingest.Chunking
