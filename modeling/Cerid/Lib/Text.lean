import Mathlib.Data.List.Basic
import Mathlib.Data.List.DropRight

/-!
# Bytes and lines

The UTF-8 text of a file read with replacement characters, and the lines of a text.
What is proved of them is about ASCII, which a file of escaped JSON keeps to: such a text
is its own bytes, and splits only where a line feed was written.  Then lists of names
written with commas, and the folding of case.
-/

namespace Cerid.Text

/-- Texts are looked up in lists of texts. -/
instance lawfulBEqChars : LawfulBEq (List Char) := inferInstance

/-! ## UTF-8 -/

def encode (cs : List Char) : List UInt8 := cs.flatMap String.utf8EncodeChar

/-- A sequence that is not finished: the bytes it still wants, the range of the next one,
and the number read so far. -/
structure Pending where
  more : Nat
  low : Nat
  high : Nat
  value : Nat

/-- The first byte of a longer sequence. -/
def lead (b : Nat) : Option Pending :=
  if 0xc2 ≤ b ∧ b ≤ 0xdf then some ⟨1, 0x80, 0xbf, b - 0xc0⟩
  else if b = 0xe0 then some ⟨2, 0xa0, 0xbf, 0⟩
  else if b = 0xed then some ⟨2, 0x80, 0x9f, 0xd⟩
  else if 0xe1 ≤ b ∧ b ≤ 0xef then some ⟨2, 0x80, 0xbf, b - 0xe0⟩
  else if b = 0xf0 then some ⟨3, 0x90, 0xbf, 0⟩
  else if 0xf1 ≤ b ∧ b ≤ 0xf3 then some ⟨3, 0x80, 0xbf, b - 0xf0⟩
  else if b = 0xf4 then some ⟨3, 0x80, 0x8f, 4⟩
  else none

/-- A byte met where a character starts. -/
def start (b : Nat) : List Char × Option Pending :=
  if b < 0x80 then ([Char.ofNat b], none)
  else match lead b with
    | some p => ([], some p)
    | none => (['\ufffd'], none)

def decodeFrom : Option Pending → List UInt8 → List Char
  | none, [] => []
  | some _, [] => ['\ufffd']
  | none, b :: rest => (start b.toNat).1 ++ decodeFrom (start b.toNat).2 rest
  | some p, b :: rest =>
    if p.low ≤ b.toNat ∧ b.toNat ≤ p.high then
      let value := p.value * 64 + (b.toNat - 0x80)
      if p.more = 1 then Char.ofNat value :: decodeFrom none rest
      else decodeFrom (some ⟨p.more - 1, 0x80, 0xbf, value⟩) rest
    else '\ufffd' :: (start b.toNat).1 ++ decodeFrom (start b.toNat).2 rest

/-- Decoding with `errors="replace"`: a sequence that breaks off is one replacement
character. -/
def decode (bytes : List UInt8) : List Char := decodeFrom none bytes

/-- The byte of an ASCII character. -/
def byte (c : Char) : UInt8 := UInt8.ofNat c.toNat

def Ascii (cs : List Char) : Prop := ∀ c ∈ cs, c.toNat < 0x80

theorem encodeChar_ascii {c : Char} (h : c.toNat < 0x80) :
    String.utf8EncodeChar c = [byte c] := by
  have hval : c.val.toNat ≤ 0x7f := Nat.le_of_lt_succ h
  simp only [String.utf8EncodeChar]
  rw [if_pos hval]
  rfl

/-- An ASCII text is one byte a character. -/
theorem encode_ascii {cs : List Char} (h : Ascii cs) :
    encode cs = cs.map byte := by
  induction cs with
  | nil => rfl
  | cons c rest ih =>
    rw [encode, List.flatMap_cons, encodeChar_ascii (h c List.mem_cons_self), List.map_cons]
    exact congrArg _ (ih (fun c' hc' => h c' (List.mem_cons_of_mem c hc')))

theorem decode_ascii {cs : List Char} (h : Ascii cs) :
    decode (cs.map byte) = cs := by
  induction cs with
  | nil => rfl
  | cons c rest ih =>
    have hc : c.toNat < 0x80 := h c List.mem_cons_self
    have hbyte : (byte c).toNat = c.toNat := by
      rw [byte, UInt8.toNat_ofNat']
      omega
    rw [List.map_cons, decode, decodeFrom, hbyte, start, if_pos hc, Char.ofNat_toNat]
    exact congrArg _ (ih (fun c' hc' => h c' (List.mem_cons_of_mem c hc')))

/-! ## Lines -/

/-- The lines of a text that breaks at some characters, and once at `\r\n`; `line` is what
was read of the first. -/
def linesFrom (breaks : Char → Bool) (line : List Char) : List Char → List (List Char)
  | [] => if line = [] then [] else [line]
  | '\r' :: '\n' :: rest => line :: linesFrom breaks [] rest
  | c :: rest =>
    if breaks c then line :: linesFrom breaks [] rest else linesFrom breaks (line ++ [c]) rest

/-- `str.splitlines`. -/
def splitlines (cs : List Char) : List (List Char) :=
  linesFrom (· ∈ ['\n', '\r', '\x0b', '\x0c', '\x1c', '\x1d', '\x1e', '\x85', '\u2028', '\u2029'])
    [] cs

/-- The lines of a file opened in text mode, without their ends. -/
def fileLines (cs : List Char) : List (List Char) := linesFrom (· ∈ ['\n', '\r']) [] cs

/-- What is read in text mode: every end of a line is a line feed. -/
def universal : List Char → List Char
  | [] => []
  | '\r' :: '\n' :: rest => '\n' :: universal rest
  | c :: rest => (if c = '\r' then '\n' else c) :: universal rest

theorem universal_cons {c : Char} (hc : c ≠ '\r') (cs : List Char) :
    universal (c :: cs) = c :: universal cs := by
  rw [universal, if_neg hc]
  rintro rest rfl
  exact absurd rfl hc

theorem universal_append {a : List Char} (ha : '\r' ∉ a) (b : List Char) :
    universal (a ++ b) = a ++ universal b := by
  induction a with
  | nil => rfl
  | cons c a ih =>
    have hc : c ≠ '\r' := fun e => ha (e ▸ List.mem_cons_self)
    have ha' : '\r' ∉ a := fun h => ha (List.mem_cons_of_mem c h)
    rw [List.cons_append, universal_cons hc, ih ha', List.cons_append]

theorem not_mem_universal (cs : List Char) : '\r' ∉ universal cs := by
  induction cs using universal.induct with
  | case1 => simp [universal]
  | case2 rest ih => simpa [universal] using ih
  | case3 c rest hc ih =>
    rw [universal.eq_3 c rest hc, List.mem_cons, not_or]
    refine ⟨?_, ih⟩
    split
    · decide
    · rename_i hne
      exact fun e => hne e.symm

/-- `str.isspace` of one character. -/
def isSpace (c : Char) : Bool :=
  c.toNat ∈ [0x20, 0x85, 0xa0, 0x1680, 0x2028, 0x2029, 0x202f, 0x205f, 0x3000] ||
    (9 ≤ c.toNat && c.toNat ≤ 13) || (28 ≤ c.toNat && c.toNat ≤ 31) ||
    (0x2000 ≤ c.toNat && c.toNat ≤ 0x200a)

/-- `str.strip`. -/
def strip (cs : List Char) : List Char := (cs.dropWhile isSpace).rdropWhile isSpace

/-- Lines that were ended, and a last one that was not. -/
def joined (lines : List (List Char)) (tail : List Char) : List Char :=
  lines.flatMap (· ++ ['\n']) ++ tail

theorem joined_append (a b : List (List Char)) (tail : List Char) :
    joined (a ++ b) tail = joined a [] ++ joined b tail := by
  simp [joined]

theorem joined_cons (line : List Char) (lines : List (List Char)) (tail : List Char) :
    joined (line :: lines) tail = line ++ '\n' :: joined lines tail := by
  simp [joined]

section Breaks

variable {breaks : Char → Bool}

theorem linesFrom_cons {c : Char} (hr : breaks '\r' = true) (hc : breaks c = false)
    (line rest : List Char) :
    linesFrom breaks line (c :: rest) = linesFrom breaks (line ++ [c]) rest := by
  have hne : c ≠ '\r' := by
    rintro rfl
    rw [hr] at hc
    cases hc
  rw [linesFrom.eq_def]
  split
  · next h => cases h
  · next h =>
    rw [List.cons.injEq] at h
    exact absurd h.1 hne
  · next h =>
    rw [List.cons.injEq] at h
    rw [← h.1, ← h.2, hc]
    rfl

theorem linesFrom_line (hr : breaks '\r' = true) (hn : breaks '\n' = true) {t : List Char}
    (ht : ∀ c ∈ t, breaks c = false) (line rest : List Char) :
    linesFrom breaks line (t ++ '\n' :: rest) = (line ++ t) :: linesFrom breaks [] rest := by
  induction t generalizing line with
  | nil =>
    rw [List.nil_append, linesFrom, if_pos hn, List.append_nil]
    intro _ h
    cases h
  | cons c t ih =>
    rw [List.cons_append, linesFrom_cons hr (ht c List.mem_cons_self),
      ih (fun c' hc' => ht c' (List.mem_cons_of_mem c hc')), List.append_assoc,
      List.singleton_append]

theorem linesFrom_end (hr : breaks '\r' = true) {t : List Char} (ht : ∀ c ∈ t, breaks c = false)
    (line : List Char) :
    linesFrom breaks line t = if line ++ t = [] then [] else [line ++ t] := by
  induction t generalizing line with
  | nil => rw [linesFrom, List.append_nil]
  | cons c t ih =>
    rw [linesFrom_cons hr (ht c List.mem_cons_self),
      ih (fun c' hc' => ht c' (List.mem_cons_of_mem c hc')), List.append_assoc,
      List.singleton_append]

/-- A text splits into the lines it was made of. -/
theorem linesFrom_joined (hr : breaks '\r' = true) (hn : breaks '\n' = true)
    {lines : List (List Char)} {tail : List Char}
    (hlines : ∀ line ∈ lines, ∀ c ∈ line, breaks c = false) (htail : ∀ c ∈ tail, breaks c = false) :
    linesFrom breaks [] (joined lines tail) = lines ++ if tail = [] then [] else [tail] := by
  induction lines with
  | nil => exact linesFrom_end hr htail []
  | cons line lines ih =>
    rw [joined_cons, linesFrom_line hr hn (hlines line List.mem_cons_self), List.nil_append,
      ih (fun l hl => hlines l (List.mem_cons_of_mem line hl)), List.cons_append]

end Breaks

/-! ## A text cut short -/

/-- The texts that stand whole in the first `n` characters of their lines, and what stands
there of the next. -/
def cutLines : List (List Char) → Nat → List (List Char) × List Char
  | [], _ => ([], [])
  | line :: rest, n =>
    if n ≤ line.length then ([], line.take n)
    else
      let r := cutLines rest (n - line.length - 1)
      (line :: r.1, r.2)

theorem take_joined (lines : List (List Char)) (n : Nat) :
    (joined lines []).take n = joined (cutLines lines n).1 (cutLines lines n).2 := by
  induction lines generalizing n with
  | nil => simp [joined, cutLines]
  | cons line rest ih =>
    rw [joined_cons, cutLines]
    split
    · next h => simp [joined, List.take_append_of_le_length h]
    · next h =>
      have hn : n = line.length + (n - line.length - 1 + 1) := by omega
      simp only
      rw [joined_cons, ← ih, hn, List.take_length_add_append, List.take_succ_cons]
      simp

/-! ## Names between commas -/

theorem rdropWhile_cons {α : Type*} (p : α → Bool) (x : α) (xs : List α) :
    (x :: xs).rdropWhile p =
      if xs.rdropWhile p = [] then (if p x then [] else [x]) else x :: xs.rdropWhile p := by
  induction xs using List.reverseRecOn with
  | nil => simp [List.rdropWhile_singleton]
  | append_singleton ys y ih =>
    rw [← List.cons_append]
    by_cases h : p y = true
    · rw [List.rdropWhile_concat_pos _ _ _ h, List.rdropWhile_concat_pos _ _ _ h, ih]
    · rw [List.rdropWhile_concat_neg _ _ _ h, List.rdropWhile_concat_neg _ _ _ h]
      simp

theorem strip_eq_dropWhile (cs : List Char) :
    strip cs = (cs.rdropWhile isSpace).dropWhile isSpace := by
  unfold strip
  induction cs with
  | nil => rfl
  | cons c cs ih =>
    rw [rdropWhile_cons, List.dropWhile_cons]
    by_cases hc : isSpace c = true
    · rw [if_pos hc, ih]
      by_cases hn : cs.rdropWhile isSpace = []
      · simp [hn, hc]
      · simp [hn, hc]
    · rw [if_neg hc, rdropWhile_cons]
      by_cases hn : cs.rdropWhile isSpace = []
      · simp [hn, hc]
      · simp [hn, hc]

theorem strip_strip (cs : List Char) : strip (strip cs) = strip cs := by
  have hfront : (strip cs).dropWhile isSpace = strip cs := by
    rw [strip_eq_dropWhile]
    exact List.dropWhile_idempotent isSpace _
  have hback : (strip cs).rdropWhile isSpace = strip cs := by
    unfold strip
    exact List.rdropWhile_idempotent isSpace _
  calc
    strip (strip cs) = ((strip cs).dropWhile isSpace).rdropWhile isSpace := rfl
    _ = (strip cs).rdropWhile isSpace := by rw [hfront]
    _ = strip cs := hback

/-- A text with no blank at its ends. -/
structure Bare (cs : List Char) : Prop where
  ne_nil : cs ≠ []
  first : ∀ c ∈ cs.head?, isSpace c = false
  last : ∀ c ∈ cs.getLast?, isSpace c = false

theorem dropWhile_of_first {cs : List Char} (h : ∀ c ∈ cs.head?, isSpace c = false) :
    cs.dropWhile isSpace = cs := by
  cases cs with
  | nil => rfl
  | cons c rest => rw [List.dropWhile_cons_of_neg (by simp [h c rfl])]

theorem rdropWhile_of_last {cs : List Char} (h : ∀ c ∈ cs.getLast?, isSpace c = false) :
    cs.rdropWhile isSpace = cs := by
  rw [List.rdropWhile_eq_self_iff]
  intro hne
  simp [h _ (List.getLast?_eq_some_getLast hne)]

theorem strip_pad {l m r : List Char} (hl : ∀ c ∈ l, isSpace c = true)
    (hr : ∀ c ∈ r, isSpace c = true) (hm : Bare m) : strip (l ++ m ++ r) = m := by
  have hfront : (l ++ m ++ r).dropWhile isSpace = m ++ r := by
    rw [List.append_assoc, List.dropWhile_append_of_pos hl]
    refine dropWhile_of_first fun c hc => hm.first c ?_
    rwa [List.head?_append_of_ne_nil _ hm.ne_nil] at hc
  have hback : (m ++ r).rdropWhile isSpace = m.rdropWhile isSpace := by
    unfold List.rdropWhile
    rw [List.reverse_append, List.dropWhile_append_of_pos fun c hc => hr c (List.mem_reverse.mp hc)]
  rw [strip, hfront, hback, rdropWhile_of_last hm.last]

theorem strip_of_bare {m : List Char} (hm : Bare m) : strip m = m := by
  have hpad := strip_pad (l := []) (r := []) (by simp) (by simp) hm
  simpa using hpad

theorem Bare.append {a b : List Char} (ha : Bare a) (gap : List Char) (hb : Bare b) :
    Bare (a ++ gap ++ b) := by
  refine ⟨by simp [ha.ne_nil], fun c hc => ha.first c ?_, fun c hc => hb.last c ?_⟩
  · rwa [List.append_assoc, List.head?_append_of_ne_nil _ ha.ne_nil] at hc
  · rwa [List.getLast?_append_of_ne_nil _ hb.ne_nil] at hc

/-- A text is blank, or what is left of it has no blank at its ends. -/
theorem blank_or_bare (cs : List Char) :
    (∀ c ∈ cs, isSpace c = true) ∨ ∃ l r, (∀ c ∈ l, isSpace c = true) ∧
      (∀ c ∈ r, isSpace c = true) ∧ cs = l ++ strip cs ++ r ∧ Bare (strip cs) := by
  have hfront := List.takeWhile_append_dropWhile (p := isSpace) (l := cs)
  by_cases hnil : strip cs = []
  · refine .inl fun c hc => ?_
    rw [← hfront, List.mem_append] at hc
    rcases hc with hc | hc
    · exact List.mem_takeWhile_imp hc
    · exact List.rdropWhile_eq_nil_iff.mp hnil c hc
  · refine .inr ⟨cs.takeWhile isSpace, (cs.dropWhile isSpace).rtakeWhile isSpace,
      fun c hc => List.mem_takeWhile_imp hc, ?_, ?_, hnil, fun c hc => ?_, fun c hc => ?_⟩
    · intro c hc
      exact List.mem_takeWhile_imp (List.mem_reverse.mp hc)
    · rw [List.append_assoc, strip, List.rdropWhile_append_rtakeWhile, hfront]
    · rw [strip_eq_dropWhile] at hc
      have hnot := List.head?_dropWhile_not isSpace (cs.rdropWhile isSpace)
      rw [Option.mem_def.mp hc] at hnot
      exact hnot
    · have hnot := List.rdropWhile_last_not isSpace (cs.dropWhile isSpace) hnil
      rw [Option.mem_def, List.getLast?_eq_some_getLast hnil] at hc
      obtain rfl := Option.some.inj hc
      exact Bool.eq_false_iff.mpr hnot

section Intercalate

variable {α : Type} (separator part : List α) (parts : List (List α))

theorem intercalate_concat : separator.intercalate (parts ++ [part]) =
    if parts = [] then part else separator.intercalate parts ++ separator ++ part := by
  induction parts with
  | nil => exact List.intercalate_singleton
  | cons p rest ih =>
    rw [if_neg (List.cons_ne_nil p rest), List.cons_append]
    cases rest with
    | nil =>
      rw [List.nil_append, List.intercalate_cons_cons, List.intercalate_singleton,
        List.intercalate_singleton]
    | cons q rest =>
      rw [if_neg (List.cons_ne_nil q rest)] at ih
      rw [List.cons_append, List.intercalate_cons_cons, ← List.cons_append, ih,
        List.intercalate_cons_cons]
      simp only [List.append_assoc]

theorem isSuffix_intercalate : part <:+ separator.intercalate (parts ++ [part]) := by
  rw [intercalate_concat]
  split
  · exact List.suffix_rfl
  · exact List.suffix_append _ _

theorem isPrefix_intercalate : part <+: separator.intercalate (part :: parts) := by
  cases parts with
  | nil => simp [List.intercalate]
  | cons next rest => simp [List.intercalate]

end Intercalate

/-- The parts of a comma-separated text, each without its blanks; an empty part is left
out. -/
def names (cs : List Char) : List (List Char) := ((cs.splitOn ',').map strip).filter (· ≠ [])

/-! ## Folding case -/

/-- `str.casefold`, one character at a time.  Of characters past ASCII nothing is assumed. -/
structure CaseFold where
  char : Char → List Char
  ascii : ∀ c : Char, c.toNat < 128 → char c = [c.toLower]

/-- The folding that leaves what is past ASCII alone. -/
def CaseFold.lower : CaseFold where
  char := fun c => [c.toLower]
  ascii := fun _ _ => rfl

def CaseFold.fold (F : CaseFold) (s : String) : String := String.ofList (s.toList.flatMap F.char)

theorem CaseFold.fold_ascii (F : CaseFold) {s : String} (h : ∀ c ∈ s.toList, c.toNat < 128) :
    F.fold s = String.ofList (s.toList.map Char.toLower) := by
  have hmap : ∀ cs : List Char, (∀ c ∈ cs, c.toNat < 128) →
      cs.flatMap F.char = cs.map Char.toLower := by
    intro cs hcs
    induction cs with
    | nil => rfl
    | cons c rest ih =>
      rw [List.flatMap_cons, F.ascii c (hcs c List.mem_cons_self),
        ih (fun d hd => hcs d (List.mem_cons_of_mem c hd)), List.map_cons, List.singleton_append]
  unfold CaseFold.fold
  rw [hmap s.toList h]

/-- The same, with a hypothesis that evaluates: a bounded quantifier over characters may be
decided by going through all of them. -/
theorem CaseFold.fold_of_all (F : CaseFold) {s : String}
    (h : s.toList.all (fun c => c.toNat < 128) = true) :
    F.fold s = String.ofList (s.toList.map Char.toLower) :=
  F.fold_ascii (fun c hc => of_decide_eq_true (List.all_eq_true.mp h c hc))

end Cerid.Text
