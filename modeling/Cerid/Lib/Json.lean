import Cerid.Lib.Run
import Mathlib.Data.List.Sort
import Mathlib.Data.List.TakeWhile

/-!
# JSON text

`dumps` writes a value as the standard library of the source's language does, in ASCII
and on one line; `loads` reads it back.  Three things are said of a text that `dumps`
wrote, and each is carried through the values by one rule for strings and one for
objects: its characters are printable ASCII, what stands after it is left unread, and
its brackets close only at its end.  The last is why an object whose text is cut short
is never read: `loads` accepts balanced text only.
-/

namespace Cerid

/-- A decoded value.  A number is kept as the text it was written with. -/
inductive Json where
  | null
  | bool (b : Bool)
  | num (literal : String)
  | str (s : String)
  | arr (items : List Json)
  | obj (members : List (String × Json))

namespace Json

/-- The value of a key.  A key met twice has the value met last. -/
def get? (key : String) : Json → Option Json
  | .obj members => (members.reverse.find? (fun m => m.1 = key)).map Prod.snd
  | _ => none

/-! ## Writing -/

def hexDigit (n : Nat) : Char := if n < 10 then Char.ofNat (48 + n) else Char.ofNat (87 + n)

def hex4 (n : Nat) : List Char :=
  [hexDigit (n / 4096 % 16), hexDigit (n / 256 % 16), hexDigit (n / 16 % 16), hexDigit (n % 16)]

def escapeUnit (n : Nat) : List Char := '\\' :: 'u' :: hex4 n

/-- A character of a string with `ensure_ascii`. -/
def escapeChar (c : Char) : List Char :=
  if c = '\x22' then ['\\', '\x22']
  else if c = '\\' then ['\\', '\\']
  else if c = '\n' then ['\\', 'n']
  else if c = '\r' then ['\\', 'r']
  else if c = '\t' then ['\\', 't']
  else if c = '\x0c' then ['\\', 'f']
  else if c = '\x08' then ['\\', 'b']
  else if 0x20 ≤ c.toNat ∧ c.toNat < 0x7f then [c]
  else if c.toNat < 0x10000 then escapeUnit c.toNat
  else escapeUnit (0xd800 + (c.toNat - 0x10000) / 1024) ++
    escapeUnit (0xdc00 + (c.toNat - 0x10000) % 1024)

def quote (s : String) : List Char := '\x22' :: s.toList.flatMap escapeChar ++ ['\x22']

mutual

/-- `json.dumps`. -/
def dumps : Json → List Char
  | .null => ['n', 'u', 'l', 'l']
  | .bool true => ['t', 'r', 'u', 'e']
  | .bool false => ['f', 'a', 'l', 's', 'e']
  | .num literal => literal.toList
  | .str s => quote s
  | .arr items => '[' :: dumpItems items ++ [']']
  | .obj members => '\x7b' :: dumpMembers members ++ ['\x7d']

def dumpItems : List Json → List Char
  | [] => []
  | [v] => dumps v
  | v :: rest => dumps v ++ ',' :: ' ' :: dumpItems rest

def dumpMembers : List (String × Json) → List Char
  | [] => []
  | [(k, v)] => quote k ++ ':' :: ' ' :: dumps v
  | (k, v) :: rest => quote k ++ ':' :: ' ' :: dumps v ++ ',' :: ' ' :: dumpMembers rest

end

mutual

/-- What `sort_keys` does to the objects of a value. -/
def sortKeys : Json → Json
  | .arr items => .arr (sortItems items)
  | .obj members => .obj ((sortMembers members).insertionSort (fun a b => a.1 ≤ b.1))
  | v => v

def sortItems : List Json → List Json
  | [] => []
  | v :: rest => sortKeys v :: sortItems rest

def sortMembers : List (String × Json) → List (String × Json)
  | [] => []
  | (k, v) :: rest => (k, sortKeys v) :: sortMembers rest

end

/-! ## Reading -/

def isSpace (c : Char) : Bool := c = ' ' || c = '\t' || c = '\n' || c = '\r'

def skipSpace (cs : List Char) : List Char := cs.dropWhile isSpace

def hexValue (c : Char) : Option Nat :=
  if 48 ≤ c.toNat ∧ c.toNat ≤ 57 then some (c.toNat - 48)
  else if 97 ≤ c.toNat ∧ c.toNat ≤ 102 then some (c.toNat - 87)
  else if 65 ≤ c.toNat ∧ c.toNat ≤ 70 then some (c.toNat - 55)
  else none

def hex4Value (a b c d : Char) : Option Nat := do
  let a ← hexValue a
  let b ← hexValue b
  let c ← hexValue c
  let d ← hexValue d
  return ((a * 16 + b) * 16 + c) * 16 + d

/-- The escapes of one character. -/
def backslash (c : Char) : Option Nat :=
  if c = '\x22' then some 0x22
  else if c = '\\' then some 0x5c
  else if c = '/' then some 0x2f
  else if c = 'b' then some 0x08
  else if c = 'f' then some 0x0c
  else if c = 'n' then some 0x0a
  else if c = 'r' then some 0x0d
  else if c = 't' then some 0x09
  else none

/-- The numbers a string stands for, read up to its closing quote. -/
def scanUnits : List Char → Option (List Nat × List Char)
  | [] => none
  | c :: rest =>
    if c = '\x22' then some ([], rest)
    else if c = '\\' then
      match rest with
      | 'u' :: a :: b :: c :: d :: rest => do
        let n ← hex4Value a b c d
        let (units, rest) ← scanUnits rest
        return (n :: units, rest)
      | e :: rest => do
        let n ← backslash e
        let (units, rest) ← scanUnits rest
        return (n :: units, rest)
      | [] => none
    else if c.toNat < 0x20 then none
    else do
      let (units, rest) ← scanUnits rest
      return (c.toNat :: units, rest)

def isHigh (n : Nat) : Prop := 0xd800 ≤ n ∧ n < 0xdc00

def isLow (n : Nat) : Prop := 0xdc00 ≤ n ∧ n < 0xe000

instance (n : Nat) : Decidable (isHigh n) := inferInstanceAs (Decidable (_ ∧ _))

instance (n : Nat) : Decidable (isLow n) := inferInstanceAs (Decidable (_ ∧ _))

/-- A surrogate alone is no character here, and stands as the replacement character. -/
def unitChar (n : Nat) : Char := if isHigh n ∨ isLow n then '\ufffd' else Char.ofNat n

/-- The characters of a string, a pair of surrogates being one. -/
def joinUnits : List Nat → List Char
  | [] => []
  | [n] => [unitChar n]
  | n :: m :: rest =>
    if isHigh n ∧ isLow m then
      Char.ofNat (0x10000 + (n - 0xd800) * 1024 + (m - 0xdc00)) :: joinUnits rest
    else unitChar n :: joinUnits (m :: rest)

/-- The string after its opening quote. -/
def string (cs : List Char) : Option (String × List Char) :=
  (scanUnits cs).map (fun r => (String.ofList (joinUnits r.1), r.2))

def isDigit (c : Char) : Bool := 48 ≤ c.toNat && c.toNat ≤ 57

def minus : List Char → List Char × List Char
  | '-' :: rest => (['-'], rest)
  | cs => ([], cs)

def integer : List Char → Option (List Char × List Char)
  | '0' :: rest => some (['0'], rest)
  | cs =>
    let digits := cs.takeWhile isDigit
    if digits = [] then none else some (digits, cs.dropWhile isDigit)

/-- `marker` and at least one digit after it, or nothing. -/
def digitsAfter (marker rest : List Char) : List Char × List Char :=
  let digits := rest.takeWhile isDigit
  if digits = [] then ([], marker ++ rest) else (marker ++ digits, rest.dropWhile isDigit)

def fraction : List Char → List Char × List Char
  | '.' :: rest => digitsAfter ['.'] rest
  | cs => ([], cs)

def exponent : List Char → List Char × List Char
  | e :: sign :: rest =>
    if e = 'e' ∨ e = 'E' then
      if sign = '+' ∨ sign = '-' then digitsAfter [e, sign] rest else digitsAfter [e] (sign :: rest)
    else ([], e :: sign :: rest)
  | cs => ([], cs)

/-- A number, as the text it is written with. -/
def number (cs : List Char) : Option (List Char × List Char) := do
  let (sign, rest) := minus cs
  let (int, rest) ← integer rest
  let (frac, rest) := fraction rest
  let (exp, rest) := exponent rest
  return (sign ++ int ++ frac ++ exp, rest)

/-- The words that are values, the three that are not numbers among them. -/
def words : List (List Char × Json) := [
  (['n', 'u', 'l', 'l'], .null),
  (['t', 'r', 'u', 'e'], .bool true),
  (['f', 'a', 'l', 's', 'e'], .bool false),
  (['N', 'a', 'N'], .num "NaN"),
  (['I', 'n', 'f', 'i', 'n', 'i', 't', 'y'], .num "Infinity"),
  (['-', 'I', 'n', 'f', 'i', 'n', 'i', 't', 'y'], .num "-Infinity")]

/-- A value that is neither a string nor one with brackets. -/
def scalar (cs : List Char) : Option (Json × List Char) :=
  match words.find? (fun w => w.1.isPrefixOf cs) with
  | some w => some (w.2, cs.drop w.1.length)
  | none => (number cs).map (fun r => (.num (String.ofList r.1), r.2))

mutual

/-- `scan_once`, with fuel for the nesting and the members. -/
def value : Nat → List Char → Option (Json × List Char)
  | 0, _ => none
  | _, [] => none
  | fuel + 1, c :: rest =>
    if c = '\x22' then (string rest).map (fun r => (.str r.1, r.2))
    else if c = '\x7b' then
      match skipSpace rest with
      | [] => none
      | c :: cs =>
        if c = '\x7d' then some (.obj [], cs)
        else (object fuel (c :: cs)).map (fun r => (.obj r.1, r.2))
    else if c = '[' then
      match skipSpace rest with
      | [] => none
      | c :: cs =>
        if c = ']' then some (.arr [], cs)
        else (array fuel (c :: cs)).map (fun r => (.arr r.1, r.2))
    else scalar (c :: rest)

/-- `JSONObject`, from the key of a member. -/
def object : Nat → List Char → Option (List (String × Json) × List Char)
  | 0, _ => none
  | _, [] => none
  | fuel + 1, c :: rest =>
    if c = '\x22' then do
      let (k, rest) ← string rest
      match skipSpace rest with
      | ':' :: rest => do
        let (v, rest) ← value fuel (skipSpace rest)
        match skipSpace rest with
        | '\x7d' :: rest => return ([(k, v)], rest)
        | ',' :: rest => do
          let (members, rest) ← object fuel (skipSpace rest)
          return ((k, v) :: members, rest)
        | _ => none
      | _ => none
    else none

/-- `JSONArray`, from an item. -/
def array : Nat → List Char → Option (List Json × List Char)
  | 0, _ => none
  | fuel + 1, cs => do
    let (v, rest) ← value fuel cs
    match skipSpace rest with
    | ']' :: rest => return ([v], rest)
    | ',' :: rest => do
      let (items, rest) ← array fuel (skipSpace rest)
      return (v :: items, rest)
    | _ => none

end

/-- `json.loads`. -/
def loads (cs : List Char) : Option Json := do
  let (v, rest) ← value (cs.length + 1) (skipSpace cs)
  if skipSpace rest = [] then some v else none

/-! ## Brackets -/

inductive Mode where
  | text
  | string
  | escaped
deriving DecidableEq, Repr

/-- How deep a text stands in brackets, and whether in a string. -/
structure Nesting where
  depth : Nat
  mode : Mode
deriving DecidableEq, Repr

def Nesting.step (s : Nesting) (c : Char) : Nesting :=
  match s.mode with
  | .text =>
    if c = '\x22' then { s with mode := .string }
    else if c = '\x7b' ∨ c = '[' then { s with depth := s.depth + 1 }
    else if c = '\x7d' ∨ c = ']' then { s with depth := s.depth - 1 }
    else s
  | .string =>
    if c = '\x22' then { s with mode := .text }
    else if c = '\\' then { s with mode := .escaped }
    else s
  | .escaped => { s with mode := .string }

/-- The text leaves the nesting it is met in. -/
def Balanced (cs : List Char) : Prop :=
  ∀ d, cs.foldl Nesting.step ⟨d, .text⟩ = ⟨d, .text⟩

/-- The text leads a string from inside to its end. -/
def Closes (cs : List Char) : Prop :=
  ∀ d, cs.foldl Nesting.step ⟨d, .string⟩ = ⟨d, .text⟩

/-- A character that opens and closes nothing outside a string. -/
def Plain (c : Char) : Prop := ∀ d, Nesting.step ⟨d, .text⟩ c = ⟨d, .text⟩

theorem Balanced.append {a b : List Char} (ha : Balanced a) (hb : Balanced b) :
    Balanced (a ++ b) := by
  intro d
  rw [List.foldl_append, ha d, hb d]

theorem balanced_plain {cs : List Char} (h : ∀ c ∈ cs, Plain c) : Balanced cs := by
  intro d
  induction cs with
  | nil => rfl
  | cons c rest ih =>
    rw [List.foldl_cons, h c List.mem_cons_self d]
    exact ih (fun c' hc' => h c' (List.mem_cons_of_mem c hc'))

theorem balanced_quoted {cs : List Char} (h : Closes cs) : Balanced ('\x22' :: cs) := fun d => h d

theorem balanced_bracketed {«open» close : Char} {cs : List Char} (h : Balanced cs)
    (ho : «open» = '\x7b' ∨ «open» = '[') (hc : close = '\x7d' ∨ close = ']') :
    Balanced («open» :: cs ++ [close]) := by
  intro d
  have hopen : Nesting.step ⟨d, .text⟩ «open» = ⟨d + 1, .text⟩ := by
    rcases ho with rfl | rfl <;> rfl
  have hclose : Nesting.step ⟨d + 1, .text⟩ close = ⟨d, .text⟩ := by
    rcases hc with rfl | rfl <;> rfl
  rw [List.cons_append, List.foldl_cons, hopen, List.foldl_append, h (d + 1), List.foldl_cons,
    hclose, List.foldl_nil]

theorem plain_space {c : Char} (h : isSpace c = true) : Plain c := by
  intro d
  simp only [isSpace, Bool.or_eq_true, decide_eq_true_eq] at h
  rcases h with ((rfl | rfl) | rfl) | rfl <;> rfl

/-- What `skipSpace` skips. -/
theorem skipSpace_eq (cs : List Char) : ∃ a, cs = a ++ skipSpace cs ∧ Balanced a := by
  refine ⟨cs.takeWhile isSpace, List.takeWhile_append_dropWhile.symm, ?_⟩
  exact balanced_plain (fun c hc => plain_space (List.mem_takeWhile_imp hc))

/-! ## What is read is balanced -/

/-- The reader took a balanced text off the front. -/
def Took (cs rest : List Char) : Prop := ∃ a, cs = a ++ rest ∧ Balanced a

theorem Took.refl (cs : List Char) : Took cs cs := ⟨[], rfl, fun _ => rfl⟩

theorem Took.trans {a b c : List Char} (h : Took a b) (h' : Took b c) : Took a c := by
  obtain ⟨x, rfl, hx⟩ := h
  obtain ⟨y, rfl, hy⟩ := h'
  exact ⟨x ++ y, (List.append_assoc _ _ _).symm, hx.append hy⟩

theorem took_skipSpace (cs : List Char) : Took cs (skipSpace cs) := skipSpace_eq cs

theorem took_plain {cs : List Char} (c : Char) (h : Plain c) : Took (c :: cs) cs :=
  ⟨[c], rfl, balanced_plain (fun c' hc' => by rw [List.mem_singleton.mp hc']; exact h)⟩

/-- A character that ends nothing inside a string. -/
theorem step_string {c : Char} (h : c ≠ '\x22') (h' : c ≠ '\\') (d : Nat) :
    Nesting.step ⟨d, .string⟩ c = ⟨d, .string⟩ := by
  simp [Nesting.step, h, h']

theorem hexValue_ne {c : Char} {n : Nat} (h : hexValue c = some n) : c ≠ '\x22' ∧ c ≠ '\\' := by
  constructor
  · rintro rfl
    cases h
  · rintro rfl
    cases h

theorem Closes.cons {c : Char} {cs : List Char} (hc : ∀ d, Nesting.step ⟨d, .string⟩ c = ⟨d, .string⟩)
    (h : Closes cs) : Closes (c :: cs) := by
  intro d
  rw [List.foldl_cons, hc d]
  exact h d

theorem Closes.escape {c : Char} {cs : List Char} (h : Closes cs) : Closes ('\\' :: c :: cs) :=
  fun d => h d

theorem closes_hex4 {a b c d : Char} {n : Nat} {cs : List Char} (h : hex4Value a b c d = some n)
    (hcs : Closes cs) : Closes (a :: b :: c :: d :: cs) := by
  simp only [hex4Value, Option.bind_eq_bind, Option.bind_eq_some_iff] at h
  obtain ⟨_, ha, _, hb, _, hc, _, hd, -⟩ := h
  have inner : ∀ {c : Char} {n : Nat}, hexValue c = some n → ∀ d,
      Nesting.step ⟨d, .string⟩ c = ⟨d, .string⟩ :=
    fun hx => step_string (hexValue_ne hx).1 (hexValue_ne hx).2
  exact (((hcs.cons (inner hd)).cons (inner hc)).cons (inner hb)).cons (inner ha)

/-- A string is read up to the quote that closes it. -/
theorem scanUnits_closes {cs rest : List Char} {units : List Nat}
    (h : scanUnits cs = some (units, rest)) : ∃ a, cs = a ++ rest ∧ Closes a := by
  fun_induction scanUnits cs generalizing units rest with
  | case1 => cases h
  | case2 rest' =>
    cases h
    exact ⟨['\x22'], rfl, fun _ => rfl⟩
  | case3 a b c d rest' _ ih =>
    simp only [Option.bind_eq_bind, Option.bind_eq_some_iff] at h
    obtain ⟨n, hn, ⟨units', r⟩, hr, h⟩ := h
    cases h
    obtain ⟨x, rfl, hx⟩ := ih hr
    exact ⟨'\\' :: 'u' :: a :: b :: c :: d :: x, rfl, (closes_hex4 hn hx).escape⟩
  | case4 e rest' _ _ ih =>
    simp only [Option.bind_eq_bind, Option.bind_eq_some_iff] at h
    obtain ⟨n, hn, ⟨units', r⟩, hr, h⟩ := h
    cases h
    obtain ⟨x, rfl, hx⟩ := ih hr
    exact ⟨'\\' :: e :: x, rfl, hx.escape⟩
  | case5 => cases h
  | case6 => cases h
  | case7 c rest' hq hb _ ih =>
    simp only [Option.bind_eq_bind, Option.bind_eq_some_iff] at h
    obtain ⟨⟨units', r⟩, hr, h⟩ := h
    cases h
    obtain ⟨x, rfl, hx⟩ := ih hr
    exact ⟨c :: x, rfl, hx.cons (step_string hq hb)⟩

theorem string_took {cs rest : List Char} {s : String} (h : string cs = some (s, rest)) :
    Took ('\x22' :: cs) rest := by
  rw [string, Option.map_eq_some_iff] at h
  obtain ⟨⟨units, r⟩, hr, h⟩ := h
  cases h
  obtain ⟨a, rfl, ha⟩ := scanUnits_closes hr
  exact ⟨'\x22' :: a, rfl, balanced_quoted ha⟩

theorem plain_of_ne {c : Char} (h : c ∉ ['\x22', '\x7b', '[', '\x7d', ']']) : Plain c := by
  intro d
  simp only [List.mem_cons, List.not_mem_nil, or_false, not_or] at h
  obtain ⟨hq, ho, ho', hc, hc'⟩ := h
  simp [Nesting.step, hq, ho, ho', hc, hc']

theorem plain_of_all {cs : List Char}
    (h : (cs.all fun c => decide (c ∉ ['\x22', '\x7b', '[', '\x7d', ']'])) = true) :
    ∀ c ∈ cs, Plain c :=
  fun c hc => plain_of_ne (of_decide_eq_true (List.all_eq_true.mp h c hc))

theorem plain_digit {c : Char} (h : isDigit c = true) : Plain c := by
  refine plain_of_ne ?_
  intro hc
  simp only [List.mem_cons, List.not_mem_nil, or_false] at hc
  rcases hc with rfl | rfl | rfl | rfl | rfl <;> cases h

/-- A reader that splits its text, and keeps plain characters. -/
def Splits (cs : List Char) (r : List Char × List Char) : Prop :=
  cs = r.1 ++ r.2 ∧ ∀ c ∈ r.1, Plain c

theorem splits_digits (cs : List Char) :
    Splits cs (cs.takeWhile isDigit, cs.dropWhile isDigit) :=
  ⟨List.takeWhile_append_dropWhile.symm, fun _ hc => plain_digit (List.mem_takeWhile_imp hc)⟩

theorem splits_integer {cs : List Char} {r : List Char × List Char} (h : integer cs = some r) :
    Splits cs r := by
  unfold integer at h
  split at h
  · cases h
    exact ⟨rfl, fun c hc => by rw [List.mem_singleton.mp hc]; exact plain_digit rfl⟩
  · simp only at h
    split at h
    · cases h
    · cases h
      exact splits_digits cs

theorem splits_digitsAfter (marker : List Char) (h : ∀ c ∈ marker, Plain c) (rest : List Char) :
    Splits (marker ++ rest) (digitsAfter marker rest) := by
  unfold digitsAfter
  simp only
  split
  · exact ⟨rfl, nofun⟩
  · obtain ⟨heq, hplain⟩ := splits_digits rest
    refine ⟨?_, fun c hc => (List.mem_append.mp hc).elim (h c) (hplain c)⟩
    rw [List.append_assoc]
    exact congrArg _ heq

theorem splits_fraction (cs : List Char) : Splits cs (fraction cs) := by
  unfold fraction
  split
  · next rest =>
    refine splits_digitsAfter ['.'] (fun c hc => ?_) rest
    rw [List.mem_singleton.mp hc]
    exact plain_of_ne (by decide)
  · exact ⟨rfl, nofun⟩

theorem splits_exponent (cs : List Char) : Splits cs (exponent cs) := by
  unfold exponent
  split
  · next e sign rest =>
    have plain : ∀ c, c = 'e' ∨ c = 'E' ∨ c = '+' ∨ c = '-' → Plain c := by
      rintro c (rfl | rfl | rfl | rfl) <;> exact plain_of_ne (by decide)
    split
    · next he =>
      have hplain : Plain e := plain e (he.imp_right Or.inl)
      split
      · next hs =>
        refine splits_digitsAfter [e, sign] (fun c hc => ?_) rest
        rcases List.mem_cons.mp hc with rfl | hc
        · exact hplain
        · rw [List.mem_singleton.mp hc]
          exact plain sign (Or.inr (Or.inr hs))
      · refine splits_digitsAfter [e] (fun c hc => ?_) (sign :: rest)
        rw [List.mem_singleton.mp hc]
        exact hplain
    · exact ⟨rfl, nofun⟩
  · exact ⟨rfl, nofun⟩

theorem Splits.append {cs : List Char} {r r' : List Char × List Char} (h : Splits cs r)
    (h' : Splits r.2 r') : Splits cs (r.1 ++ r'.1, r'.2) := by
  obtain ⟨heq, hplain⟩ := h
  obtain ⟨heq', hplain'⟩ := h'
  refine ⟨?_, fun c hc => (List.mem_append.mp hc).elim (hplain c) (hplain' c)⟩
  rw [heq, heq', List.append_assoc]

theorem splits_number {cs : List Char} {r : List Char × List Char} (h : number cs = some r) :
    Splits cs r := by
  have sign : Splits cs (minus cs) := by
    unfold minus
    split
    · exact ⟨rfl, fun c hc => by rw [List.mem_singleton.mp hc]; exact plain_of_ne (by decide)⟩
    · exact ⟨rfl, nofun⟩
  simp only [number, Option.bind_eq_bind, Option.bind_eq_some_iff] at h
  obtain ⟨int, hint, h⟩ := h
  cases h
  exact ((sign.append (splits_integer hint)).append (splits_fraction _)).append (splits_exponent _)

theorem scalar_took {cs rest : List Char} {v : Json} (h : scalar cs = some (v, rest)) :
    Took cs rest := by
  unfold scalar at h
  split at h
  · next w hw =>
    cases h
    have hwords : w ∈ words := List.mem_of_find?_eq_some hw
    have hfront : w.1.isPrefixOf cs = true :=
      List.find?_some (p := fun w : List Char × Json => w.1.isPrefixOf cs) hw
    have happend := List.prefix_iff_eq_append.mp (List.isPrefixOf_iff_prefix.mp hfront)
    refine ⟨w.1, happend.symm, balanced_plain ?_⟩
    simp only [words, List.mem_cons, List.not_mem_nil, or_false] at hwords
    rcases hwords with rfl | rfl | rfl | rfl | rfl | rfl
    all_goals exact plain_of_all (by decide)
  · rw [Option.map_eq_some_iff] at h
    obtain ⟨r, hr, h⟩ := h
    cases h
    obtain ⟨heq, hplain⟩ := splits_number hr
    exact ⟨r.1, heq, balanced_plain hplain⟩

theorem took_skipSpace_cons {cs rest : List Char} {c : Char} (h : skipSpace cs = c :: rest) :
    Took cs (c :: rest) := by
  rw [← h]
  exact took_skipSpace cs

theorem took_bracketed {«open» close : Char} {cs rest : List Char} (h : Took cs (close :: rest))
    (ho : «open» = '\x7b' ∨ «open» = '[') (hc : close = '\x7d' ∨ close = ']') :
    Took («open» :: cs) rest := by
  obtain ⟨a, rfl, ha⟩ := h
  exact ⟨«open» :: a ++ [close], by simp, balanced_bracketed ha ho hc⟩

section Level

-- one more level of each function, for what it takes of the functions that it calls
variable {fuel : Nat}

theorem took_value_succ
    (ihObject : ∀ {cs ms rest}, object fuel cs = some (ms, rest) → Took cs ('\x7d' :: rest))
    (ihArray : ∀ {cs vs rest}, array fuel cs = some (vs, rest) → Took cs (']' :: rest))
    {cs : List Char} {v : Json} {rest : List Char}
    (h : value (fuel + 1) cs = some (v, rest)) : Took cs rest := by
  cases cs with
  | nil => rw [value] at h; cases h; exact nofun
  | cons c cs =>
    rw [value] at h
    split at h
    · next hc =>
      rw [Option.map_eq_some_iff] at h
      obtain ⟨⟨s, r⟩, hr, h⟩ := h
      cases h
      rw [hc]
      exact string_took hr
    · split at h
      · next hc =>
        rw [hc]
        split at h
        · cases h
        · next c' cs' hskip =>
          refine took_bracketed ?_ (Or.inl rfl) (Or.inl rfl)
          split at h
          · next hc' =>
            cases h
            rw [← hc']
            exact took_skipSpace_cons hskip
          · rw [Option.map_eq_some_iff] at h
            obtain ⟨⟨ms, r⟩, hr, h⟩ := h
            cases h
            exact (took_skipSpace_cons hskip).trans (ihObject hr)
      · split at h
        · next hc =>
          rw [hc]
          split at h
          · cases h
          · next c' cs' hskip =>
            refine took_bracketed ?_ (Or.inr rfl) (Or.inr rfl)
            split at h
            · next hc' =>
              cases h
              rw [← hc']
              exact took_skipSpace_cons hskip
            · rw [Option.map_eq_some_iff] at h
              obtain ⟨⟨vs, r⟩, hr, h⟩ := h
              cases h
              exact (took_skipSpace_cons hskip).trans (ihArray hr)
        · exact scalar_took h

theorem took_object_succ
    (ihValue : ∀ {cs v rest}, value fuel cs = some (v, rest) → Took cs rest)
    (ihObject : ∀ {cs ms rest}, object fuel cs = some (ms, rest) → Took cs ('\x7d' :: rest))
    {cs : List Char} {ms : List (String × Json)} {rest : List Char}
    (h : object (fuel + 1) cs = some (ms, rest)) : Took cs ('\x7d' :: rest) := by
  cases cs with
  | nil => rw [object] at h; cases h; exact nofun
  | cons c cs =>
    rw [object] at h
    split at h
    · next hc =>
      simp only [Option.bind_eq_bind, Option.bind_eq_some_iff] at h
      obtain ⟨⟨k, r⟩, hk, h⟩ := h
      split at h
      · next r' hcolon =>
        simp only [Option.bind_eq_some_iff] at h
        obtain ⟨⟨v, r''⟩, hv, h⟩ := h
        have hmember : Took (c :: cs) r'' := by
          rw [hc]
          refine (string_took hk).trans ((took_skipSpace_cons hcolon).trans ?_)
          exact (took_plain ':' (plain_of_ne (by decide))).trans
            ((took_skipSpace _).trans (ihValue hv))
        split at h
        · next hclose =>
          cases h
          exact hmember.trans (took_skipSpace_cons hclose)
        · next hcomma =>
          simp only [Option.bind_eq_some_iff] at h
          obtain ⟨⟨ms', r4⟩, hms, h⟩ := h
          cases h
          refine hmember.trans ((took_skipSpace_cons hcomma).trans ?_)
          exact (took_plain ',' (plain_of_ne (by decide))).trans
            ((took_skipSpace _).trans (ihObject hms))
        · cases h
      · cases h
    · cases h

theorem took_array_succ
    (ihValue : ∀ {cs v rest}, value fuel cs = some (v, rest) → Took cs rest)
    (ihArray : ∀ {cs vs rest}, array fuel cs = some (vs, rest) → Took cs (']' :: rest))
    {cs : List Char} {vs : List Json} {rest : List Char}
    (h : array (fuel + 1) cs = some (vs, rest)) : Took cs (']' :: rest) := by
  rw [array] at h
  simp only [Option.bind_eq_bind, Option.bind_eq_some_iff] at h
  obtain ⟨⟨v, r⟩, hv, h⟩ := h
  split at h
  · next hclose =>
    cases h
    exact (ihValue hv).trans (took_skipSpace_cons hclose)
  · next hcomma =>
    simp only [Option.bind_eq_some_iff] at h
    obtain ⟨⟨vs', r'⟩, hvs, h⟩ := h
    cases h
    refine (ihValue hv).trans ((took_skipSpace_cons hcomma).trans ?_)
    exact (took_plain ',' (plain_of_ne (by decide))).trans
      ((took_skipSpace _).trans (ihArray hvs))
  · cases h

end Level

/-- A value takes balanced text, and so do the members of an object and the items of an array
up to the bracket that closes them. -/
theorem took_value (fuel : Nat) :
    (∀ {cs v rest}, value fuel cs = some (v, rest) → Took cs rest) ∧
    (∀ {cs ms rest}, object fuel cs = some (ms, rest) → Took cs ('\x7d' :: rest)) ∧
    (∀ {cs vs rest}, array fuel cs = some (vs, rest) → Took cs (']' :: rest)) := by
  induction fuel with
  | zero =>
    refine ⟨fun h => ?_, fun h => ?_, fun h => ?_⟩
    · rw [value] at h; cases h
    · rw [object] at h; cases h
    · rw [array] at h; cases h
  | succ fuel ih =>
    obtain ⟨ihValue, ihObject, ihArray⟩ := ih
    exact ⟨took_value_succ ihObject ihArray, took_object_succ ihValue ihObject,
      took_array_succ ihValue ihArray⟩

/-! ## What is written -/

/-- The characters `ensure_ascii` leaves. -/
def Printable (cs : List Char) : Prop := ∀ c ∈ cs, 0x20 ≤ c.toNat ∧ c.toNat < 0x7f

/-- The text leaves the nesting it is met in, and never closes a bracket it did not open. -/
structure Nested (cs : List Char) : Prop where
  balanced : Balanced cs
  within : ∀ d, Along Nesting.step (fun s _ => d ≤ s.depth) ⟨d, .text⟩ cs

/-- The same for a text inside a string. -/
structure Quoted (cs : List Char) : Prop where
  stays : ∀ d, cs.foldl Nesting.step ⟨d, .string⟩ = ⟨d, .string⟩
  within : ∀ d, Along Nesting.step (fun s _ => d ≤ s.depth) ⟨d, .string⟩ cs

theorem Nested.append {a b : List Char} (ha : Nested a) (hb : Nested b) : Nested (a ++ b) where
  balanced := ha.balanced.append hb.balanced
  within d := by
    rw [along_append, ha.balanced d]
    exact ⟨ha.within d, hb.within d⟩

theorem quoted_nil : Quoted [] := ⟨fun _ => rfl, fun _ => trivial⟩

theorem nested_nil : Nested [] := ⟨fun _ => rfl, fun _ => trivial⟩

theorem nested_plain {c : Char} (h : Plain c) {cs : List Char} (hcs : Nested cs) :
    Nested (c :: cs) where
  balanced d := by
    rw [List.foldl_cons, h d]
    exact hcs.balanced d
  within d := by
    refine ⟨le_refl d, ?_⟩
    rw [h d]
    exact hcs.within d

theorem quoted_cons {c : Char} (hq : c ≠ '\x22') (hb : c ≠ '\\') {cs : List Char}
    (hcs : Quoted cs) : Quoted (c :: cs) where
  stays d := by
    rw [List.foldl_cons, step_string hq hb]
    exact hcs.stays d
  within d := by
    refine ⟨le_refl d, ?_⟩
    rw [step_string hq hb]
    exact hcs.within d

theorem quoted_escape (c : Char) {cs : List Char} (hcs : Quoted cs) : Quoted ('\\' :: c :: cs) where
  stays d := hcs.stays d
  within d := ⟨le_refl d, le_refl d, hcs.within d⟩

theorem nested_quote {cs : List Char} (h : Quoted cs) : Nested ('\x22' :: cs ++ ['\x22']) where
  balanced d := by
    rw [List.cons_append, List.foldl_cons, List.foldl_append]
    exact congrArg (Nesting.step · '\x22') (h.stays d)
  within d := by
    rw [List.cons_append]
    refine ⟨le_refl d, along_append.mpr ⟨h.within d, ?_, trivial⟩⟩
    exact (congrArg Nesting.depth (h.stays d)).ge

theorem nested_bracketed {«open» close : Char} {cs : List Char} (h : Nested cs)
    (ho : «open» = '\x7b' ∨ «open» = '[') (hc : close = '\x7d' ∨ close = ']') :
    Nested («open» :: cs ++ [close]) where
  balanced := balanced_bracketed h.balanced ho hc
  within d := by
    have hopen : Nesting.step ⟨d, .text⟩ «open» = ⟨d + 1, .text⟩ := by
      rcases ho with rfl | rfl <;> rfl
    rw [List.cons_append]
    refine ⟨le_refl d, ?_⟩
    rw [hopen, along_append]
    refine ⟨?_, ?_, trivial⟩
    · exact Along.imp (fun _ => True) (fun s _ _ hd => Nat.le_of_succ_le hd) (fun _ _ _ _ => trivial)
        trivial (h.within (d + 1))
    · rw [h.balanced (d + 1)]
      exact Nat.le_succ d

/-- A text in brackets has not closed its bracket before its end. -/
theorem not_balanced_cut {«open» close : Char} {cs : List Char} (h : Nested cs)
    (ho : «open» = '\x7b' ∨ «open» = '[') {a b : List Char} (hne : b ≠ [])
    (heq : cs ++ [close] = a ++ b) : ¬ Balanced («open» :: a) := by
  intro hbal
  have hopen : Nesting.step ⟨0, .text⟩ «open» = ⟨1, .text⟩ := by
    rcases ho with rfl | rfl <;> rfl
  have hwithin : Along Nesting.step (fun s _ => 1 ≤ s.depth) ⟨1, .text⟩ (cs ++ [close]) := by
    refine along_append.mpr ⟨h.within 1, ?_, trivial⟩
    rw [h.balanced 1]
  rw [heq, along_append] at hwithin
  have hend : a.foldl Nesting.step ⟨1, .text⟩ = ⟨0, .text⟩ := by
    have h0 := hbal 0
    rw [List.foldl_cons, hopen] at h0
    exact h0
  obtain ⟨c, b, rfl⟩ := List.exists_cons_of_ne_nil hne
  have hdeep := hwithin.2.1
  rw [hend] at hdeep
  cases hdeep

/-! ## Strings -/

theorem hexDigit_spec : ∀ n < 16, hexValue (hexDigit n) = some n ∧
    0x20 ≤ (hexDigit n).toNat ∧ (hexDigit n).toNat < 0x7f := by decide

theorem hexValue_hexDigit {n : Nat} (h : n < 16) : hexValue (hexDigit n) = some n :=
  (hexDigit_spec n h).1

theorem hex4Value_hex4 {n : Nat} (h : n < 0x10000) :
    hex4Value (hexDigit (n / 4096 % 16)) (hexDigit (n / 256 % 16)) (hexDigit (n / 16 % 16))
      (hexDigit (n % 16)) = some n := by
  simp only [hex4Value, hexValue_hexDigit (Nat.mod_lt _ (by decide : 16 > 0)), Option.bind_eq_bind,
    Option.bind_some, Option.pure_def, Option.some.injEq]
  omega

theorem scanUnits_escapeUnit {n : Nat} (h : n < 0x10000) (rest : List Char) :
    scanUnits (escapeUnit n ++ rest) = (scanUnits rest).map (fun r => (n :: r.1, r.2)) := by
  simp only [escapeUnit, hex4, List.cons_append, List.nil_append]
  rw [scanUnits]
  simp only [hex4Value_hex4 h, Option.bind_eq_bind, Option.bind_some]
  cases scanUnits rest <;> rfl

/-- The numbers that stand for a character. -/
def charUnits (c : Char) : List Nat :=
  if c.toNat < 0x10000 then [c.toNat]
  else [0xd800 + (c.toNat - 0x10000) / 1024, 0xdc00 + (c.toNat - 0x10000) % 1024]

theorem toNat_lt (c : Char) : c.toNat < 0x110000 := by
  rcases c.valid with h | h
  · exact lt_trans h (by decide)
  · exact h.2

theorem scanUnits_backslash {e : Char} {n : Nat} (h : backslash e = some n) (rest : List Char) :
    scanUnits ('\\' :: e :: rest) = (scanUnits rest).map (fun r => (n :: r.1, r.2)) := by
  have hu : e ≠ 'u' := by
    rintro rfl
    cases h
  have hstep : scanUnits ('\\' :: e :: rest) = (do
      let n ← backslash e
      let (units, rest) ← scanUnits rest
      return (n :: units, rest)) := by
    rw [scanUnits.eq_def]
    simp only
    rw [if_neg (by decide), if_pos trivial]
    split
    · next heq =>
      rw [List.cons.injEq] at heq
      exact absurd heq.1 hu
    · next heq =>
      rw [List.cons.injEq] at heq
      rw [heq.1, heq.2]
    · next heq => cases heq
  rw [hstep, h]
  simp only [Option.bind_eq_bind, Option.bind_some]
  cases scanUnits rest <;> rfl

theorem scanUnits_char {c : Char} (hq : c ≠ '\x22') (hb : c ≠ '\\') (hc : ¬ c.toNat < 0x20)
    (rest : List Char) :
    scanUnits (c :: rest) = (scanUnits rest).map (fun r => (c.toNat :: r.1, r.2)) := by
  rw [scanUnits.eq_def]
  simp only
  rw [if_neg hq, if_neg hb, if_neg hc]
  cases scanUnits rest <;> rfl

theorem charUnits_ascii {c : Char} {n : Nat} (h : c.toNat = n) (hn : n < 0x10000) :
    charUnits c = [n] := by
  rw [charUnits, h, if_pos hn]

theorem scanUnits_escapeChar (c : Char) (rest : List Char) :
    scanUnits (escapeChar c ++ rest) =
      (scanUnits rest).map (fun r => (charUnits c ++ r.1, r.2)) := by
  have hlt := toNat_lt c
  unfold escapeChar
  by_cases hq : c = '\x22'
  · subst hq
    exact scanUnits_backslash rfl rest
  rw [if_neg hq]
  by_cases hb : c = '\\'
  · subst hb
    exact scanUnits_backslash rfl rest
  rw [if_neg hb]
  split_ifs with hn hr ht hf hbs hp hs
  · subst hn
    exact scanUnits_backslash rfl rest
  · subst hr
    exact scanUnits_backslash rfl rest
  · subst ht
    exact scanUnits_backslash rfl rest
  · subst hf
    exact scanUnits_backslash rfl rest
  · subst hbs
    exact scanUnits_backslash rfl rest
  · rw [charUnits_ascii rfl (by omega)]
    exact scanUnits_char hq hb (by omega) rest
  · rw [charUnits_ascii rfl hs]
    exact scanUnits_escapeUnit hs rest
  · rw [charUnits, if_neg hs, List.append_assoc, scanUnits_escapeUnit (by omega),
      scanUnits_escapeUnit (by omega), Option.map_map]
    rfl

theorem scanUnits_escaped (s : List Char) (rest : List Char) :
    scanUnits (s.flatMap escapeChar ++ '\x22' :: rest) = some (s.flatMap charUnits, rest) := by
  induction s with
  | nil => rw [List.flatMap_nil, List.nil_append, scanUnits.eq_def]; rfl
  | cons c s ih =>
    rw [List.flatMap_cons, List.append_assoc, scanUnits_escapeChar, ih, List.flatMap_cons]
    rfl

theorem joinUnits_cons {n : Nat} (h : ¬ isHigh n) (units : List Nat) :
    joinUnits (n :: units) = unitChar n :: joinUnits units := by
  cases units with
  | nil => rfl
  | cons m rest => rw [joinUnits, if_neg (fun hp => h hp.1)]

theorem joinUnits_charUnits (c : Char) (units : List Nat) :
    joinUnits (charUnits c ++ units) = c :: joinUnits units := by
  have hlt := toNat_lt c
  have hvalid : c.toNat < 0xd800 ∨ 0xdfff < c.toNat := by
    rcases c.valid with h | h
    · exact Or.inl h
    · exact Or.inr h.1
  unfold charUnits
  split
  · have hhigh : ¬ isHigh c.toNat := by simp only [isHigh]; omega
    have hlow : ¬ isLow c.toNat := by simp only [isLow]; omega
    rw [List.singleton_append, joinUnits_cons hhigh, unitChar, if_neg (not_or.mpr ⟨hhigh, hlow⟩),
      Char.ofNat_toNat]
  · have hpair : isHigh (0xd800 + (c.toNat - 0x10000) / 1024) ∧
        isLow (0xdc00 + (c.toNat - 0x10000) % 1024) := by
      simp only [isHigh, isLow]
      omega
    have hchar : 0x10000 + (0xd800 + (c.toNat - 0x10000) / 1024 - 0xd800) * 1024 +
        (0xdc00 + (c.toNat - 0x10000) % 1024 - 0xdc00) = c.toNat := by omega
    rw [List.cons_append, List.singleton_append, joinUnits, if_pos hpair, hchar, Char.ofNat_toNat]

theorem joinUnits_flatMap (s : List Char) : joinUnits (s.flatMap charUnits) = s := by
  induction s with
  | nil => rfl
  | cons c s ih => rw [List.flatMap_cons, joinUnits_charUnits, ih]

/-- A string reads back, and nothing after it is read. -/
theorem string_quote (s : String) (rest : List Char) :
    string (s.toList.flatMap escapeChar ++ '\x22' :: rest) = some (s, rest) := by
  rw [string, scanUnits_escaped, Option.map_some, joinUnits_flatMap, String.ofList_toList]

theorem quoted_escapeUnit {n : Nat} {cs : List Char} (h : Quoted cs) :
    Quoted (escapeUnit n ++ cs) := by
  have hdigit : ∀ n, hexDigit (n % 16) ≠ '\x22' ∧ hexDigit (n % 16) ≠ '\\' :=
    fun n => hexValue_ne (hexValue_hexDigit (Nat.mod_lt n (by decide)))
  refine quoted_escape 'u' ?_
  refine quoted_cons (hdigit _).1 (hdigit _).2 (quoted_cons (hdigit _).1 (hdigit _).2 ?_)
  exact quoted_cons (hdigit _).1 (hdigit _).2 (quoted_cons (hdigit _).1 (hdigit _).2 h)

theorem quoted_escapeChar (c : Char) {cs : List Char} (h : Quoted cs) :
    Quoted (escapeChar c ++ cs) := by
  unfold escapeChar
  split_ifs with hq hb
  iterate 7 exact quoted_escape _ h
  · exact quoted_cons hq hb h
  · exact quoted_escapeUnit h
  · rw [List.append_assoc]
    exact quoted_escapeUnit (quoted_escapeUnit h)

theorem nested_quoted (s : String) : Nested (quote s) := by
  refine nested_quote ?_
  induction s.toList with
  | nil => exact quoted_nil
  | cons c rest ih => exact quoted_escapeChar c ih

theorem printable_nil : Printable [] := fun _ hc => absurd hc List.not_mem_nil

theorem Printable.append {a b : List Char} (ha : Printable a) (hb : Printable b) :
    Printable (a ++ b) := fun c hc => (List.mem_append.mp hc).elim (ha c) (hb c)

theorem Printable.cons {c : Char} {cs : List Char} (hcs : Printable cs)
    (h : 0x20 ≤ c.toNat ∧ c.toNat < 0x7f) : Printable (c :: cs) := List.forall_mem_cons.mpr ⟨h, hcs⟩

theorem printable_escapeUnit (n : Nat) : Printable (escapeUnit n) := by
  have hdigit : ∀ n, 0x20 ≤ (hexDigit (n % 16)).toNat ∧ (hexDigit (n % 16)).toNat < 0x7f :=
    fun n => (hexDigit_spec _ (Nat.mod_lt n (by decide))).2
  refine Printable.cons (Printable.cons ?_ (by decide)) (by decide)
  exact (((printable_nil.cons (hdigit _)).cons (hdigit _)).cons (hdigit _)).cons (hdigit _)

theorem printable_escapeChar (c : Char) : Printable (escapeChar c) := by
  unfold escapeChar
  split_ifs with _ _ _ _ _ _ _ hp
  iterate 7 exact (printable_nil.cons (by decide)).cons (by decide)
  · exact printable_nil.cons hp
  · exact printable_escapeUnit _
  · exact (printable_escapeUnit _).append (printable_escapeUnit _)

theorem printable_quote (s : String) : Printable (quote s) := by
  refine Printable.cons (Printable.append ?_ (printable_nil.cons (by decide))) (by decide)
  intro c hc
  obtain ⟨c', -, hc⟩ := List.mem_flatMap.mp hc
  exact printable_escapeChar c' c hc

/-! ## Reading back -/

/-- What is known of the text of a value. -/
structure Written (v : Json) : Prop where
  printable : Printable (dumps v)
  nested : Nested (dumps v)
  starts : ∃ c cs, dumps v = c :: cs ∧ isSpace c = false
  reads : ∀ rest fuel, (dumps v).length < fuel → value fuel (dumps v ++ rest) = some (v, rest)

theorem skipSpace_cons {c : Char} (h : isSpace c = false) (cs : List Char) :
    skipSpace (c :: cs) = c :: cs := by
  rw [skipSpace, List.dropWhile_cons, h]
  rfl

theorem skipSpace_space (cs : List Char) : skipSpace (' ' :: cs) = skipSpace cs := rfl

theorem Written.skipSpace {v : Json} (h : Written v) (rest : List Char) :
    skipSpace (dumps v ++ rest) = dumps v ++ rest := by
  obtain ⟨c, cs, heq, hc⟩ := h.starts
  rw [heq]
  exact skipSpace_cons hc _

/-- The rule for strings. -/
theorem written_str (s : String) : Written (.str s) where
  printable := printable_quote s
  nested := nested_quoted s
  starts := ⟨'\x22', _, rfl, rfl⟩
  reads rest fuel h := by
    obtain ⟨fuel, rfl⟩ := Nat.exists_eq_succ_of_ne_zero (Nat.ne_of_gt (Nat.zero_lt_of_lt h))
    rw [dumps, quote, List.cons_append, List.cons_append, value, if_pos rfl, List.append_assoc,
      List.singleton_append, string_quote]
    rfl

/-- The members after the first, with the comma before each. -/
def dumpRest : List (String × Json) → List Char
  | [] => []
  | (k, v) :: rest => ',' :: ' ' :: (quote k ++ ':' :: ' ' :: dumps v) ++ dumpRest rest

theorem dumpMembers_cons (k : String) (v : Json) (rest : List (String × Json)) :
    dumpMembers ((k, v) :: rest) = quote k ++ ':' :: ' ' :: dumps v ++ dumpRest rest := by
  induction rest generalizing k v with
  | nil => simp [dumpMembers, dumpRest]
  | cons m rest ih =>
    obtain ⟨k', v'⟩ := m
    rw [dumpMembers, ih, dumpRest]
    · simp
    · simp

/-- One member of an object is read as it was written. -/
theorem object_member {v : Json} (hv : Written v) (k : String) (cs : List Char) {fuel : Nat}
    (hfuel : (dumps v).length < fuel) :
    object (fuel + 1) (quote k ++ ':' :: ' ' :: dumps v ++ cs) = (match skipSpace cs with
      | '\x7d' :: rest => some ([(k, v)], rest)
      | ',' :: rest => (object fuel (skipSpace rest)).map (fun r => ((k, v) :: r.1, r.2))
      | _ => none) := by
  have htext : quote k ++ ':' :: ' ' :: dumps v ++ cs =
      '\x22' :: (k.toList.flatMap escapeChar ++ '\x22' :: ':' :: ' ' :: (dumps v ++ cs)) := by
    simp [quote]
  rw [htext, object, if_pos rfl, string_quote]
  simp only [Option.bind_eq_bind, Option.bind_some]
  rw [skipSpace_cons rfl]
  simp only
  rw [skipSpace_space, hv.skipSpace, hv.reads cs fuel hfuel]
  simp only [Option.bind_some]
  split
  · rfl
  · next rest _ => cases object fuel (skipSpace rest) <;> rfl
  · rfl

theorem dumpMembers_quote (k : String) (v : Json) (members : List (String × Json)) :
    ∃ cs, dumpMembers ((k, v) :: members) = '\x22' :: cs := by
  rw [dumpMembers_cons, quote]
  exact ⟨_, rfl⟩

theorem skipSpace_dumpMembers (k : String) (v : Json) (members : List (String × Json))
    (rest : List Char) :
    skipSpace (dumpMembers ((k, v) :: members) ++ rest) =
      dumpMembers ((k, v) :: members) ++ rest := by
  obtain ⟨cs, heq⟩ := dumpMembers_quote k v members
  rw [heq]
  exact skipSpace_cons rfl _

/-- What holds of keys and values, and is kept by appending and by separators, holds of the
members together. -/
theorem dumpMembers_induction {P : List Char → Prop} (nil : P [])
    (append : ∀ {a b}, P a → P b → P (a ++ b))
    (separator : ∀ c ∈ [',', ':', ' '], ∀ {cs}, P cs → P (c :: cs)) (key : ∀ k, P (quote k))
    {members : List (String × Json)} (h : ∀ m ∈ members, P (dumps m.2)) :
    P (dumpMembers members) := by
  have comma : ∀ {cs}, P cs → P (',' :: cs) := separator ',' (by decide)
  have colon : ∀ {cs}, P cs → P (':' :: cs) := separator ':' (by decide)
  have space : ∀ {cs}, P cs → P (' ' :: cs) := separator ' ' (by decide)
  have hmember : ∀ m ∈ members, P (quote m.1 ++ ':' :: ' ' :: dumps m.2) :=
    fun m hm => append (key m.1) (colon (space (h m hm)))
  have hrest : ∀ ms : List (String × Json), (∀ m ∈ ms, m ∈ members) → P (dumpRest ms) := by
    intro ms hms
    induction ms with
    | nil => exact nil
    | cons m ms ih =>
      exact comma (space (append (hmember m (hms m List.mem_cons_self))
        (ih (fun m' hm' => hms m' (List.mem_cons_of_mem m hm')))))
  cases members with
  | nil => exact nil
  | cons m members =>
    rw [dumpMembers_cons]
    exact append (hmember m List.mem_cons_self)
      (hrest members (fun m' hm' => List.mem_cons_of_mem m hm'))

theorem nested_dumpMembers {members : List (String × Json)} (h : ∀ m ∈ members, Written m.2) :
    Nested (dumpMembers members) := by
  refine dumpMembers_induction nested_nil Nested.append (fun c hc _ hcs => nested_plain ?_ hcs)
    nested_quoted (fun m hm => (h m hm).nested)
  exact plain_of_all (by decide) c hc

theorem printable_dumpMembers {members : List (String × Json)} (h : ∀ m ∈ members, Written m.2) :
    Printable (dumpMembers members) := by
  have hseparators : Printable [',', ':', ' '] :=
    ((printable_nil.cons (by decide)).cons (by decide)).cons (by decide)
  exact dumpMembers_induction printable_nil Printable.append
    (fun c hc _ hcs => hcs.cons (hseparators c hc)) printable_quote
    (fun m hm => (h m hm).printable)

theorem object_dumpMembers (k : String) (v : Json) (members : List (String × Json))
    (hv : Written v) (h : ∀ m ∈ members, Written m.2) (rest : List Char) (fuel : Nat)
    (hfuel : (dumpMembers ((k, v) :: members)).length < fuel) :
    object fuel (dumpMembers ((k, v) :: members) ++ '\x7d' :: rest) =
      some ((k, v) :: members, rest) := by
  induction members generalizing k v fuel with
  | nil =>
    obtain ⟨fuel, rfl⟩ := Nat.exists_eq_succ_of_ne_zero (Nat.ne_of_gt (Nat.zero_lt_of_lt hfuel))
    rw [dumpMembers_cons] at hfuel ⊢
    simp only [List.length_append, List.length_cons] at hfuel
    rw [List.append_assoc, object_member hv k _ (by omega)]
    rfl
  | cons m members ih =>
    obtain ⟨k', v'⟩ := m
    obtain ⟨fuel, rfl⟩ := Nat.exists_eq_succ_of_ne_zero (Nat.ne_of_gt (Nat.zero_lt_of_lt hfuel))
    have hcomma : dumpMembers ((k, v) :: (k', v') :: members) =
        quote k ++ ':' :: ' ' :: dumps v ++ ',' :: ' ' :: dumpMembers ((k', v') :: members) := by
      rw [dumpMembers_cons, dumpRest, dumpMembers_cons, List.append_assoc]
      simp
    rw [hcomma] at hfuel ⊢
    simp only [List.length_append, List.length_cons] at hfuel
    have hrest := ih k' v' (h (k', v') List.mem_cons_self)
      (fun m hm => h m (List.mem_cons_of_mem _ hm)) fuel (by omega)
    rw [List.append_assoc, List.cons_append, List.cons_append, object_member hv k _ (by omega),
      skipSpace_cons rfl]
    simp only
    rw [skipSpace_space, skipSpace_dumpMembers, hrest]
    rfl

/-- The rule for objects. -/
theorem written_obj {members : List (String × Json)} (h : ∀ m ∈ members, Written m.2) :
    Written (.obj members) where
  printable := by
    rw [dumps]
    refine Printable.cons (Printable.append ?_ (printable_nil.cons (by decide))) (by decide)
    exact printable_dumpMembers h
  nested := by
    rw [dumps]
    exact nested_bracketed (nested_dumpMembers h) (Or.inl rfl) (Or.inl rfl)
  starts := ⟨'\x7b', _, by rw [dumps]; rfl, rfl⟩
  reads rest fuel hfuel := by
    rw [dumps] at hfuel ⊢
    simp only [List.length_append, List.length_cons, List.length_nil] at hfuel
    obtain ⟨fuel, rfl⟩ := Nat.exists_eq_succ_of_ne_zero (Nat.ne_of_gt (Nat.zero_lt_of_lt hfuel))
    rw [List.cons_append, List.cons_append, value, if_neg (by decide), if_pos rfl,
      List.append_assoc, List.singleton_append]
    cases members with
    | nil => rfl
    | cons m members =>
      obtain ⟨k, v⟩ := m
      have hobject := object_dumpMembers k v members (h (k, v) List.mem_cons_self)
        (fun m hm => h m (List.mem_cons_of_mem _ hm)) rest fuel (by omega)
      obtain ⟨cs, hquote⟩ := dumpMembers_quote k v members
      rw [skipSpace_dumpMembers]
      rw [hquote, List.cons_append] at hobject ⊢
      simp only
      rw [if_neg (by decide), hobject]
      rfl

/-- What was written reads back. -/
theorem loads_dumps {v : Json} (h : Written v) : loads (dumps v) = some v := by
  have hskip : skipSpace (dumps v) = dumps v := by
    have hs := h.skipSpace []
    rw [List.append_nil] at hs
    exact hs
  have hreads := h.reads [] ((dumps v).length + 1) (Nat.lt_succ_self _)
  rw [List.append_nil] at hreads
  rw [loads, hskip, hreads]
  rfl

/-- The text of an object that is cut short does not decode. -/
theorem loads_cut {members : List (String × Json)} (h : ∀ m ∈ members, Written m.2)
    {a b : List Char} (hne : b ≠ []) (heq : dumps (.obj members) = a ++ b) : loads a = none := by
  cases hload : loads a with
  | none => rfl
  | some v =>
    exfalso
    simp only [loads, Option.bind_eq_bind, Option.bind_eq_some_iff] at hload
    obtain ⟨⟨v', rest⟩, hvalue, hrest⟩ := hload
    have hend : skipSpace rest = [] := by
      by_contra hn
      rw [if_neg hn] at hrest
      cases hrest
    have htook : Took a [] := by
      refine (took_skipSpace a).trans (((took_value _).1 hvalue).trans ?_)
      rw [← hend]
      exact took_skipSpace rest
    obtain ⟨a', ha', hbal⟩ := htook
    rw [List.append_nil] at ha'
    subst ha'
    cases a with
    | nil => cases hvalue
    | cons c a =>
      rw [dumps, List.cons_append, List.cons_append, List.cons.injEq] at heq
      rw [← heq.1] at hbal
      exact not_balanced_cut (nested_dumpMembers h) (Or.inl rfl) hne heq.2 hbal

end Json

end Cerid
