import Cerid.Lib.Json
import Mathlib.Data.List.Lex
import Mathlib.Data.Rat.Defs
import Mathlib.Order.TypeTags
import Mathlib.Order.WithBot

/-!
# Documents

A document is what one JSON text spells, with its strings as code points, its numbers as
the language's own and its members in the order of the text.  `write` spells it with no
white space.  Two documents that are written alike are one document once the surrogates
that meet in their strings are joined (`joined_of_write`).
-/

namespace Cerid.Document

/-- A code point, surrogates among them. -/
abbrev Point := Fin 0x110000

abbrev Str := List Point

def spell (cs : List Char) : Str := cs.map (fun c => ⟨c.toNat, Json.toNat_lt c⟩)

def str (s : String) : Str := spell s.toList

theorem str_ne_nil {s : String} (h : s ≠ "") : str s ≠ [] := by
  rw [str, spell, Ne, List.map_eq_nil_iff, String.toList_eq_nil_iff]
  exact h

/-- The floats of the language that are numbers: their texts, and their places among the
integers.  A text reads back as its float, so no two floats share one. -/
class Floats (F : Type) where
  repr : F → List Char
  value : F → WithBot (WithTop ℚ)
  repr_injective : Function.Injective repr
  repr_ne_nil : ∀ x, repr x ≠ []
  repr_head : ∀ x, ∀ c ∈ (repr x).head?, c ∈ ['-', 'I'] ∨ c.isDigit
  repr_bare : ∀ x, ∀ c ∈ repr x, c ∉ [',', ']', '\x7d']
  repr_float : ∀ x, ∃ c ∈ repr x, c ≠ '-' ∧ c.isDigit = false

instance noFloats : Floats Empty where
  repr := Empty.elim
  value := Empty.elim
  repr_injective x := x.elim
  repr_ne_nil x := x.elim
  repr_head x := x.elim
  repr_bare x := x.elim
  repr_float x := x.elim

/-- The sixteen-bit units of a string. -/
def units (s : Str) : List Nat :=
  s.flatMap (fun p => if p.val < 0x10000 then [p.val]
    else [0xd800 + (p.val - 0x10000) / 1024, 0xdc00 + (p.val - 0x10000) % 1024])

def point (n : Nat) : Point := Fin.ofNat 0x110000 n

/-- A reader makes one code point of two surrogates that meet. -/
def joinPairs : List Nat → Str
  | [] => []
  | [n] => [point n]
  | n :: m :: rest =>
    if Json.isHigh n ∧ Json.isLow m then
      point (0x10000 + (n - 0xd800) * 1024 + (m - 0xdc00)) :: joinPairs rest
    else point n :: joinPairs (m :: rest)

/-- A string as it reads back. -/
def joined (s : Str) : Str := joinPairs (units s)

def escapeUnit (n : Nat) : List Char :=
  if n < 0x80 then Json.escapeChar (Char.ofNat n) else Json.escapeUnit n

def quote (s : Str) : List Char := '\x22' :: (units s).flatMap escapeUnit ++ ['\x22']

def intText : Int → List Char
  | .ofNat n => Nat.toDigits 10 n
  | .negSucc n => '-' :: Nat.toDigits 10 (n + 1)

inductive Doc (F : Type) where
  | null
  | bool (b : Bool)
  | int (n : Int)
  | float (x : F)
  | nan
  | str (s : Str)
  | arr (items : List (Doc F))
  | obj (members : List (Str × Doc F))

variable {F : Type}

namespace Doc

mutual

/-- The text with no white space. -/
def write [Floats F] : Doc F → List Char
  | null => ['n', 'u', 'l', 'l']
  | bool true => ['t', 'r', 'u', 'e']
  | bool false => ['f', 'a', 'l', 's', 'e']
  | int n => intText n
  | float x => Floats.repr x
  | nan => ['N', 'a', 'N']
  | str s => quote s
  | arr [] => ['[', ']']
  | arr (v :: rest) => '[' :: (v.write ++ moreItems rest)
  | obj [] => ['\x7b', '\x7d']
  | obj ((k, v) :: rest) => '\x7b' :: (quote k ++ ':' :: (v.write ++ moreMembers rest))

def moreItems [Floats F] : List (Doc F) → List Char
  | [] => [']']
  | v :: rest => ',' :: (v.write ++ moreItems rest)

def moreMembers [Floats F] : List (Str × Doc F) → List Char
  | [] => ['\x7d']
  | (k, v) :: rest => ',' :: (quote k ++ ':' :: (v.write ++ moreMembers rest))

end

mutual

/-- The document with every string as it reads back. -/
def joined : Doc F → Doc F
  | str s => str (Document.joined s)
  | arr items => arr (joinedItems items)
  | obj members => obj (joinedMembers members)
  | d => d

def joinedItems : List (Doc F) → List (Doc F)
  | [] => []
  | v :: rest => v.joined :: joinedItems rest

def joinedMembers : List (Str × Doc F) → List (Str × Doc F)
  | [] => []
  | (k, v) :: rest => (Document.joined k, v.joined) :: joinedMembers rest

end

/-- Induction over the documents within a document. -/
theorem within {P : Doc F → Prop} (null : P null) (bool : ∀ b, P (bool b)) (int : ∀ n, P (int n))
    (float : ∀ x, P (float x)) (nan : P nan) (str : ∀ s, P (str s))
    (arr : ∀ items, (∀ v ∈ items, P v) → P (arr items))
    (obj : ∀ members : List (Str × Doc F), (∀ m ∈ members, P m.2) → P (obj members)) (d : Doc F) :
    P d := by
  refine @Doc.rec F P (fun items => ∀ v ∈ items, P v) (fun members => ∀ m ∈ members, P m.2)
    (fun m => P m.2) null bool int float nan str (fun items h => arr items h)
    (fun members h => obj members h) ?_ ?_ ?_ ?_ ?_ d
  · exact fun v hv => absurd hv List.not_mem_nil
  · exact fun v rest hv hrest => List.forall_mem_cons.mpr ⟨hv, hrest⟩
  · exact fun m hm => absurd hm List.not_mem_nil
  · exact fun m rest hm hrest => List.forall_mem_cons.mpr ⟨hm, hrest⟩
  · exact fun k v hv => hv

theorem joinedItems_eq_map (items : List (Doc F)) : joinedItems items = items.map joined := by
  induction items with
  | nil => rfl
  | cons v rest ih => rw [joinedItems, ih, List.map_cons]

theorem joinedMembers_eq_map (members : List (Str × Doc F)) :
    joinedMembers members = members.map (fun m => (Document.joined m.1, m.2.joined)) := by
  induction members with
  | nil => rfl
  | cons m rest ih => rw [joinedMembers, ih, List.map_cons]

end Doc

/-! ## Strings -/

theorem val_point {n : Nat} (h : n < 0x110000) : (point n).val = n := Nat.mod_eq_of_lt h

theorem units_lt {s : Str} {n : Nat} (h : n ∈ units s) : n < 0x10000 := by
  obtain ⟨p, _, hp⟩ := List.mem_flatMap.mp h
  have hlt := p.isLt
  split at hp
  · rw [List.mem_singleton.mp hp]
    assumption
  · rcases List.mem_cons.mp hp with rfl | hp
    · omega
    · rw [List.mem_singleton.mp hp]
      omega

theorem units_cons (p : Point) (s : Str) : units (p :: s) = units [p] ++ units s := by
  rw [units, List.flatMap_cons, units, List.flatMap_singleton, units]

theorem units_point {n : Nat} (h : n < 0x10000) : units [point n] = [n] := by
  rw [units, List.flatMap_singleton, val_point (by omega), if_pos h]

theorem units_pair {n m : Nat} (h : Json.isHigh n ∧ Json.isLow m) :
    units [point (0x10000 + (n - 0xd800) * 1024 + (m - 0xdc00))] = [n, m] := by
  obtain ⟨⟨hn, hn'⟩, hm, hm'⟩ := h
  have hhigh : 0xd800 + (0x10000 + (n - 0xd800) * 1024 + (m - 0xdc00) - 0x10000) / 1024 = n := by
    omega
  have hlow : 0xdc00 + (0x10000 + (n - 0xd800) * 1024 + (m - 0xdc00) - 0x10000) % 1024 = m := by
    omega
  rw [units, List.flatMap_singleton, val_point (by omega), if_neg (by omega), hhigh, hlow]

/-- Joining keeps the units. -/
theorem units_joinPairs {l : List Nat} (h : ∀ n ∈ l, n < 0x10000) : units (joinPairs l) = l := by
  induction l using joinPairs.induct with
  | case1 => rfl
  | case2 n => exact units_point (h n List.mem_cons_self)
  | case3 n m rest hpair ih =>
    rw [joinPairs, if_pos hpair, units_cons, units_pair hpair,
      ih (fun k hk => h k (List.mem_cons_of_mem n (List.mem_cons_of_mem m hk)))]
    rfl
  | case4 n m rest hpair ih =>
    rw [joinPairs, if_neg hpair, units_cons, units_point (h n List.mem_cons_self),
      ih (fun k hk => h k (List.mem_cons_of_mem n hk))]
    rfl

theorem units_joined (s : Str) : units (joined s) = units s := units_joinPairs fun _ h => units_lt h

theorem joined_joined (s : Str) : joined (joined s) = joined s := by
  rw [joined, units_joined, joined]

theorem quote_joined (s : Str) : quote (joined s) = quote s := by rw [quote, units_joined, quote]

theorem joinPairs_cons {n : Nat} (h : ¬ Json.isHigh n) (l : List Nat) :
    joinPairs (n :: l) = point n :: joinPairs l := by
  cases l with
  | nil => rfl
  | cons m rest => rw [joinPairs, if_neg (fun hp => h hp.1)]

/-- A string with no surrogates reads back as it is. -/
theorem joined_of_scalar {s : Str} (h : ∀ p ∈ s, p.val < 0xd800 ∨ 0xdfff < p.val) :
    joined s = s := by
  induction s with
  | nil => rfl
  | cons p s ih =>
    have hp := h p List.mem_cons_self
    have hlt := p.isLt
    have hs : joinPairs (units s) = s := ih (fun q hq => h q (List.mem_cons_of_mem p hq))
    rw [joined, units_cons, units, List.flatMap_singleton]
    split
    · next hbmp =>
      have hhigh : ¬ Json.isHigh p.val := by
        rw [Json.isHigh]
        omega
      rw [List.singleton_append, joinPairs_cons hhigh, hs]
      exact congrArg (· :: s) (Fin.ext (val_point hlt))
    · next hbmp =>
      have hpair : Json.isHigh (0xd800 + (p.val - 0x10000) / 1024) ∧
          Json.isLow (0xdc00 + (p.val - 0x10000) % 1024) := by
        rw [Json.isHigh, Json.isLow]
        omega
      rw [List.cons_append, List.singleton_append, joinPairs, if_pos hpair, hs]
      refine congrArg (· :: s) (Fin.ext ?_)
      rw [val_point (by omega)]
      omega

theorem joined_spell (cs : List Char) : joined (spell cs) = spell cs := by
  refine joined_of_scalar fun p hp => ?_
  obtain ⟨c, _, rfl⟩ := List.mem_map.mp hp
  rcases c.valid with h | h
  · exact Or.inl h
  · exact Or.inr h.1

theorem joined_str (s : String) : joined (str s) = str s := joined_spell s.toList

theorem str_injective : Function.Injective str := by
  intro a b h
  refine String.toList_inj.mp (List.map_injective_iff.mpr (fun c d hcd => ?_) h)
  exact Char.ext (UInt32.toNat_inj.mp (Fin.mk.inj hcd))

theorem scanUnits_escapeUnit {n : Nat} (h : n < 0x10000) (rest : List Char) :
    Json.scanUnits (escapeUnit n ++ rest) =
      (Json.scanUnits rest).map (fun r => (n :: r.1, r.2)) := by
  rw [escapeUnit]
  split
  · next hn =>
    have hc : (Char.ofNat n).toNat = n := (by decide : ∀ n < 0x80, (Char.ofNat n).toNat = n) n hn
    rw [Json.scanUnits_escapeChar, Json.charUnits_ascii hc h]
    rfl
  · exact Json.scanUnits_escapeUnit h rest

theorem scanUnits_quote {l : List Nat} (h : ∀ n ∈ l, n < 0x10000) (rest : List Char) :
    Json.scanUnits (l.flatMap escapeUnit ++ '\x22' :: rest) = some (l, rest) := by
  induction l with
  | nil =>
    rw [List.flatMap_nil, List.nil_append, Json.scanUnits.eq_def]
    rfl
  | cons n l ih =>
    rw [List.flatMap_cons, List.append_assoc, scanUnits_escapeUnit (h n List.mem_cons_self),
      ih (fun k hk => h k (List.mem_cons_of_mem n hk))]
    rfl

/-- A quoted string ends where it says, and says which string it is. -/
theorem quote_split {s s' : Str} {r r' : List Char} (h : quote s ++ r = quote s' ++ r') :
    joined s = joined s' ∧ r = r' := by
  have hscan : Json.scanUnits ((units s).flatMap escapeUnit ++ ['\x22'] ++ r) =
      Json.scanUnits ((units s').flatMap escapeUnit ++ ['\x22'] ++ r') :=
    congrArg Json.scanUnits (List.cons.inj h).2
  rw [List.append_assoc, List.singleton_append, scanUnits_quote (fun _ hn => units_lt hn),
    List.append_assoc, List.singleton_append, scanUnits_quote (fun _ hn => units_lt hn)] at hscan
  obtain ⟨hunits, hrest⟩ := Prod.mk.inj (Option.some.inj hscan)
  exact ⟨by rw [joined, hunits, joined], hrest⟩

/-! ## Texts -/

theorem forall_of_all {p : Char → Prop} [DecidablePred p] {cs : List Char}
    (h : cs.all (fun c => decide (p c)) = true) : ∀ c ∈ cs, p c :=
  fun c hc => of_decide_eq_true (List.all_eq_true.mp h c hc)

/-- What may stand after a value, if anything does. -/
def Ends (r : List Char) : Prop := ∀ c ∈ r.head?, c ∈ [',', ']', '\x7d']

def Bare (t : List Char) : Prop := ∀ c ∈ t, c ∉ [',', ']', '\x7d']

theorem ends_nil : Ends [] := fun _ h => by cases h

theorem ends_cons {c : Char} (h : c ∈ [',', ']', '\x7d']) (r : List Char) : Ends (c :: r) := by
  rintro d ⟨⟩
  exact h

theorem bare_split {t t' r r' : List Char} (ht : Bare t) (ht' : Bare t') (hr : Ends r)
    (hr' : Ends r') (h : t ++ r = t' ++ r') : t = t' ∧ r = r' := by
  induction t generalizing t' with
  | nil =>
    cases t' with
    | nil => exact ⟨rfl, h⟩
    | cons c t' =>
      rw [List.nil_append] at h
      subst h
      exact absurd (hr c rfl) (ht' c List.mem_cons_self)
  | cons c t ih =>
    cases t' with
    | nil =>
      rw [List.nil_append] at h
      subst h
      exact absurd (hr' c rfl) (ht c List.mem_cons_self)
    | cons c' t' =>
      obtain ⟨rfl, hrest⟩ := List.cons.inj h
      obtain ⟨rfl, hr⟩ := ih (fun d hd => ht d (List.mem_cons_of_mem c hd))
        (fun d hd => ht' d (List.mem_cons_of_mem c hd)) hrest
      exact ⟨rfl, hr⟩

theorem toDigits_ne {n : Nat} {c : Char} (h : c ∈ Nat.toDigits 10 n) : c.isDigit = true :=
  Nat.isDigit_of_mem_toDigits (by decide) (by decide) h

theorem toDigits_injective {n m : Nat} (h : Nat.toDigits 10 n = Nat.toDigits 10 m) : n = m := by
  rw [← Nat.ofDigitChars_ten_toDigits (n := n), h, Nat.ofDigitChars_ten_toDigits]

/-- The characters of an integer. -/
theorem mem_intText {n : Int} {c : Char} (h : c ∈ intText n) : c = '-' ∨ c.isDigit = true := by
  cases n with
  | ofNat n => exact Or.inr (toDigits_ne h)
  | negSucc n => exact (List.mem_cons.mp h).imp_right toDigits_ne

theorem intText_ne_nil (n : Int) : intText n ≠ [] := by
  cases n with
  | ofNat n => exact Nat.toDigits_ne_nil
  | negSucc n => exact List.cons_ne_nil _ _

theorem intText_injective : Function.Injective intText := by
  have hminus : ∀ {n m : Nat}, Nat.toDigits 10 n ≠ '-' :: Nat.toDigits 10 m := fun h =>
    absurd (toDigits_ne (h ▸ List.mem_cons_self)) (by decide)
  intro a b h
  cases a with
  | ofNat n =>
    cases b with
    | ofNat m => exact congrArg Int.ofNat (toDigits_injective h)
    | negSucc m => exact absurd h hminus
  | negSucc n =>
    cases b with
    | ofNat m => exact absurd h.symm hminus
    | negSucc m => rw [Nat.succ.inj (toDigits_injective (List.cons.inj h).2)]

namespace Doc

variable [Floats F]

/-- The text of a value that is neither a string nor one with brackets. -/
def word : Doc F → Option (List Char)
  | null => some ['n', 'u', 'l', 'l']
  | bool true => some ['t', 'r', 'u', 'e']
  | bool false => some ['f', 'a', 'l', 's', 'e']
  | int n => some (intText n)
  | float x => some (Floats.repr x)
  | nan => some ['N', 'a', 'N']
  | _ => none

def StartsNumber (t : List Char) : Prop := ∀ c ∈ t.head?, c ∈ ['-', 'I'] ∨ c.isDigit = true

theorem startsNumber_intText (n : Int) : StartsNumber (intText n) := by
  intro c hc
  rcases mem_intText (List.mem_of_mem_head? hc) with rfl | h
  · exact Or.inl List.mem_cons_self
  · exact Or.inr h

theorem number_of_word {a : Doc F} {t : List Char} (ha : a.word = some t) (h : StartsNumber t) :
    (∃ n, a = int n) ∨ ∃ x, a = float x := by
  cases a with
  | null =>
    cases ha
    exact absurd (h 'n' rfl) (by decide)
  | bool b =>
    cases b with
    | true =>
      cases ha
      exact absurd (h 't' rfl) (by decide)
    | false =>
      cases ha
      exact absurd (h 'f' rfl) (by decide)
  | int n => exact Or.inl ⟨n, rfl⟩
  | float x => exact Or.inr ⟨x, rfl⟩
  | nan =>
    cases ha
    exact absurd (h 'N' rfl) (by decide)
  | str s => cases ha
  | arr items => cases ha
  | obj members => cases ha

theorem intText_ne_repr (n : Int) (x : F) : intText n ≠ Floats.repr x := by
  intro h
  obtain ⟨c, hc, hminus, hdigit⟩ := Floats.repr_float x
  rcases mem_intText (h ▸ hc) with hm | hd
  · exact hminus hm
  · rw [hd] at hdigit
    cases hdigit

/-- Words that are alike are of one value. -/
theorem word_injective {a b : Doc F} {t : List Char} (ha : a.word = some t) (hb : b.word = some t) :
    a = b := by
  by_cases hnum : StartsNumber t
  · rcases number_of_word ha hnum with ⟨n, rfl⟩ | ⟨x, rfl⟩ <;>
      rcases number_of_word hb hnum with ⟨m, rfl⟩ | ⟨y, rfl⟩ <;>
      have heq := Option.some.inj (ha.trans hb.symm)
    · rw [intText_injective heq]
    · exact absurd heq (intText_ne_repr n y)
    · exact absurd heq.symm (intText_ne_repr m x)
    · rw [Floats.repr_injective heq]
  · have hint : ∀ n, t ≠ intText n := fun n h => hnum (h ▸ startsNumber_intText n)
    have hfloat : ∀ x : F, t ≠ Floats.repr x := fun x h => hnum (h ▸ Floats.repr_head x)
    cases a with
    | int n => exact absurd (Option.some.inj ha).symm (hint n)
    | float x => exact absurd (Option.some.inj ha).symm (hfloat x)
    | str s => cases ha
    | arr items => cases ha
    | obj members => cases ha
    | null =>
      cases b with
      | null => rfl
      | int n => exact absurd (Option.some.inj hb).symm (hint n)
      | float x => exact absurd (Option.some.inj hb).symm (hfloat x)
      | bool c => cases c <;> cases ha <;> cases hb
      | _ => cases ha; cases hb
    | nan =>
      cases b with
      | nan => rfl
      | int n => exact absurd (Option.some.inj hb).symm (hint n)
      | float x => exact absurd (Option.some.inj hb).symm (hfloat x)
      | bool c => cases c <;> cases ha <;> cases hb
      | _ => cases ha; cases hb
    | bool c =>
      cases b with
      | bool d => cases c <;> cases d <;> cases ha <;> first | rfl | cases hb
      | int n => exact absurd (Option.some.inj hb).symm (hint n)
      | float x => exact absurd (Option.some.inj hb).symm (hfloat x)
      | _ => cases c <;> cases ha <;> cases hb

/-- The first character of a value that is no word. -/
def opening : Doc F → Option Char
  | str _ => some '\x22'
  | arr _ => some '['
  | obj _ => some '\x7b'
  | _ => none

def openingOf (c : Char) : Option Char := if c ∈ ['\x22', '[', '\x7b'] then some c else none

theorem openingOf_number {c : Char} (h : c ∈ ['-', 'I'] ∨ c.isDigit = true) :
    openingOf c = none := by
  have hnot : ∀ d ∈ ['\x22', '[', '\x7b'], ¬ (d ∈ ['-', 'I'] ∨ d.isDigit = true) :=
    forall_of_all (by decide)
  rw [openingOf, if_neg (fun hc => hnot c hc h)]

theorem write_opening (a : Doc F) : ∃ c cs, a.write = c :: cs ∧ openingOf c = a.opening := by
  cases a with
  | null => exact ⟨'n', _, by rw [write], rfl⟩
  | bool b =>
    cases b with
    | true => exact ⟨'t', _, by rw [write], rfl⟩
    | false => exact ⟨'f', _, by rw [write], rfl⟩
  | int n =>
    obtain ⟨c, cs, hcs⟩ := List.exists_cons_of_ne_nil (intText_ne_nil n)
    exact ⟨c, cs, by rw [write, hcs], openingOf_number (startsNumber_intText n c (by rw [hcs]; rfl))⟩
  | float x =>
    obtain ⟨c, cs, hcs⟩ := List.exists_cons_of_ne_nil (Floats.repr_ne_nil x)
    exact ⟨c, cs, by rw [write, hcs], openingOf_number (Floats.repr_head x c (by rw [hcs]; rfl))⟩
  | nan => exact ⟨'N', _, by rw [write], rfl⟩
  | str s => exact ⟨'\x22', _, by rw [write, quote, List.cons_append], rfl⟩
  | arr items =>
    cases items with
    | nil => exact ⟨'[', _, by rw [write], rfl⟩
    | cons v rest => exact ⟨'[', _, by rw [write], rfl⟩
  | obj members =>
    cases members with
    | nil => exact ⟨'\x7b', _, by rw [write], rfl⟩
    | cons m rest => exact ⟨'\x7b', _, by rw [write], rfl⟩

theorem opening_eq {a b : Doc F} {r r' : List Char} (h : a.write ++ r = b.write ++ r') :
    a.opening = b.opening := by
  obtain ⟨c, cs, hc, ha⟩ := write_opening a
  obtain ⟨d, ds, hd, hb⟩ := write_opening b
  rw [hc, hd] at h
  rw [← ha, ← hb, (List.cons.inj h).1]

theorem exists_word {a : Doc F} (h : a.opening = none) : ∃ t, a.word = some t := by
  cases a with
  | bool b => cases b <;> exact ⟨_, rfl⟩
  | str s => cases h
  | arr items => cases h
  | obj members => cases h
  | _ => exact ⟨_, rfl⟩

theorem write_of_word {a : Doc F} {t : List Char} (h : a.word = some t) :
    a.write = t ∧ a.joined = a ∧ Bare t := by
  cases a with
  | null =>
    cases h
    exact ⟨by rw [write], rfl, forall_of_all (by decide)⟩
  | bool b =>
    cases b <;> cases h
    · exact ⟨by rw [write], rfl, forall_of_all (by decide)⟩
    · exact ⟨by rw [write], rfl, forall_of_all (by decide)⟩
  | int n =>
    cases h
    refine ⟨by rw [write], rfl, fun c hc => ?_⟩
    rcases mem_intText hc with rfl | hd
    · decide
    · have hnot : ∀ d ∈ [',', ']', '\x7d'], ¬ d.isDigit = true := forall_of_all (by decide)
      exact fun hmem => hnot c hmem hd
  | float x =>
    cases h
    exact ⟨by rw [write], rfl, Floats.repr_bare x⟩
  | nan =>
    cases h
    exact ⟨by rw [write], rfl, forall_of_all (by decide)⟩
  | str s => cases h
  | arr items => cases h
  | obj members => cases h

/-- The text of a value, followed by what may follow one, tells the value. -/
def Splits (a : Doc F) : Prop :=
  ∀ (b : Doc F) (r r' : List Char), Ends r → Ends r' → a.write ++ r = b.write ++ r' →
    a.joined = b.joined ∧ r = r'

theorem ends_moreItems (items : List (Doc F)) (r : List Char) : Ends (moreItems items ++ r) := by
  cases items <;> exact ends_cons (by decide) _

theorem ends_moreMembers (members : List (Str × Doc F)) (r : List Char) :
    Ends (moreMembers members ++ r) := by
  cases members <;> exact ends_cons (by decide) _

theorem moreItems_split {items : List (Doc F)} (h : ∀ v ∈ items, Splits v) (items' : List (Doc F))
    (r r' : List Char) (heq : moreItems items ++ r = moreItems items' ++ r') :
    joinedItems items = joinedItems items' ∧ r = r' := by
  induction items generalizing items' with
  | nil =>
    cases items' with
    | nil => exact ⟨rfl, (List.cons.inj heq).2⟩
    | cons v rest => exact absurd (List.cons.inj heq).1 (by decide)
  | cons v rest ih =>
    cases items' with
    | nil => exact absurd (List.cons.inj heq).1 (by decide)
    | cons w rest' =>
      rw [moreItems, moreItems, List.cons_append, List.cons_append, List.append_assoc,
        List.append_assoc] at heq
      obtain ⟨hv, hrest⟩ := h v List.mem_cons_self w _ _ (ends_moreItems rest r)
        (ends_moreItems rest' r') (List.cons.inj heq).2
      obtain ⟨hrest, hr⟩ := ih (fun u hu => h u (List.mem_cons_of_mem v hu)) rest' hrest
      exact ⟨by rw [joinedItems, joinedItems, hv, hrest], hr⟩

theorem member_split {k k' : Str} {v v' : Doc F} (hv : Splits v) {r r' : List Char} (hr : Ends r)
    (hr' : Ends r') (heq : quote k ++ ':' :: (v.write ++ r) = quote k' ++ ':' :: (v'.write ++ r')) :
    Document.joined k = Document.joined k' ∧ v.joined = v'.joined ∧ r = r' := by
  obtain ⟨hk, hrest⟩ := quote_split heq
  obtain ⟨hv, hr⟩ := hv v' r r' hr hr' (List.cons.inj hrest).2
  exact ⟨hk, hv, hr⟩

theorem moreMembers_split {members : List (Str × Doc F)} (h : ∀ m ∈ members, Splits m.2)
    (members' : List (Str × Doc F)) (r r' : List Char)
    (heq : moreMembers members ++ r = moreMembers members' ++ r') :
    joinedMembers members = joinedMembers members' ∧ r = r' := by
  induction members generalizing members' with
  | nil =>
    cases members' with
    | nil => exact ⟨rfl, (List.cons.inj heq).2⟩
    | cons m rest => exact absurd (List.cons.inj heq).1 (by decide)
  | cons m rest ih =>
    obtain ⟨k, v⟩ := m
    cases members' with
    | nil => exact absurd (List.cons.inj heq).1 (by decide)
    | cons m' rest' =>
      obtain ⟨k', v'⟩ := m'
      simp only [moreMembers, List.cons_append, List.append_assoc] at heq
      obtain ⟨hk, hv, hrest⟩ := member_split (h (k, v) List.mem_cons_self)
        (ends_moreMembers rest r) (ends_moreMembers rest' r') (List.cons.inj heq).2
      obtain ⟨hrest, hr⟩ := ih (fun u hu => h u (List.mem_cons_of_mem _ hu)) rest' hrest
      exact ⟨by rw [joinedMembers, joinedMembers, hk, hv, hrest], hr⟩

theorem splits_word {a : Doc F} {t : List Char} (h : a.word = some t) : Splits a := by
  intro b r r' hr hr' heq
  have hopen : a.opening = none := by
    cases a <;> first | rfl | cases h
  obtain ⟨t', hb⟩ := exists_word (opening_eq heq ▸ hopen)
  obtain ⟨hwa, hja, hta⟩ := write_of_word h
  obtain ⟨hwb, hjb, htb⟩ := write_of_word hb
  rw [hwa, hwb] at heq
  obtain ⟨rfl, hrest⟩ := bare_split hta htb hr hr' heq
  exact ⟨by rw [word_injective h hb], hrest⟩

theorem write_ne_close (a : Doc F) (r r' : List Char) : a.write ++ r ≠ ']' :: r' := by
  intro h
  obtain ⟨c, cs, hc, hopen⟩ := write_opening a
  rw [hc, List.cons_append] at h
  obtain rfl : c = ']' := (List.cons.inj h).1
  obtain ⟨t, ht⟩ := exists_word (hopen.symm.trans (by decide))
  obtain ⟨hw, _, hbare⟩ := write_of_word ht
  rw [hw] at hc
  exact hbare ']' (hc ▸ List.mem_cons_self) (by decide)

theorem splits_arr {items : List (Doc F)} (h : ∀ v ∈ items, Splits v) : Splits (arr items) := by
  intro b r r' hr hr' heq
  have hopen := opening_eq heq
  cases b <;> cases hopen
  rename_i items'
  cases items with
  | nil =>
    cases items' with
    | nil => exact ⟨rfl, (List.cons.inj (List.cons.inj heq).2).2⟩
    | cons w rest' =>
      simp only [write, List.cons_append, List.append_assoc] at heq
      exact absurd (List.cons.inj heq).2.symm (write_ne_close w _ _)
  | cons v rest =>
    cases items' with
    | nil =>
      simp only [write, List.cons_append, List.append_assoc] at heq
      exact absurd (List.cons.inj heq).2 (write_ne_close v _ _)
    | cons w rest' =>
      simp only [write, List.cons_append, List.append_assoc] at heq
      obtain ⟨hv, hrest⟩ := h v List.mem_cons_self w _ _ (ends_moreItems rest r)
        (ends_moreItems rest' r') (List.cons.inj heq).2
      obtain ⟨hrest, hr⟩ := moreItems_split (fun u hu => h u (List.mem_cons_of_mem v hu)) rest' r r'
        hrest
      exact ⟨by rw [joined, joined, joinedItems, joinedItems, hv, hrest], hr⟩

theorem splits_obj {members : List (Str × Doc F)} (h : ∀ m ∈ members, Splits m.2) :
    Splits (obj members) := by
  intro b r r' hr hr' heq
  have hopen := opening_eq heq
  cases b <;> cases hopen
  rename_i members'
  cases members with
  | nil =>
    cases members' with
    | nil => exact ⟨rfl, (List.cons.inj (List.cons.inj heq).2).2⟩
    | cons m rest' => exact absurd (List.cons.inj (List.cons.inj heq).2).1 (by decide)
  | cons m rest =>
    obtain ⟨k, v⟩ := m
    cases members' with
    | nil => exact absurd (List.cons.inj (List.cons.inj heq).2).1 (by decide)
    | cons m' rest' =>
      obtain ⟨k', v'⟩ := m'
      simp only [write, List.cons_append, List.append_assoc] at heq
      obtain ⟨hk, hv, hrest⟩ := member_split (h (k, v) List.mem_cons_self)
        (ends_moreMembers rest r) (ends_moreMembers rest' r') (List.cons.inj heq).2
      obtain ⟨hrest, hr⟩ := moreMembers_split (fun u hu => h u (List.mem_cons_of_mem _ hu)) rest'
        r r' hrest
      exact ⟨by rw [joined, joined, joinedMembers, joinedMembers, hk, hv, hrest], hr⟩

theorem splits (a : Doc F) : Splits a := by
  induction a using within with
  | null => exact splits_word rfl
  | bool b => cases b <;> exact splits_word rfl
  | int n => exact splits_word rfl
  | float x => exact splits_word rfl
  | nan => exact splits_word rfl
  | str s =>
    intro b r r' _ _ heq
    have hopen := opening_eq heq
    cases b <;> cases hopen
    rw [write, write] at heq
    obtain ⟨hs, hr⟩ := quote_split heq
    exact ⟨by rw [joined, joined, hs], hr⟩
  | arr items ih => exact splits_arr ih
  | obj members ih => exact splits_obj ih

/-- Documents that are written alike are one document once their strings are joined. -/
theorem joined_of_write {a b : Doc F} (h : a.write = b.write) : a.joined = b.joined :=
  (splits a b [] [] ends_nil ends_nil (by rw [h])).1

/-- Joining the strings of a document leaves its text. -/
theorem write_joined (a : Doc F) : a.joined.write = a.write := by
  have hitems : ∀ items : List (Doc F), (∀ v ∈ items, v.joined.write = v.write) →
      moreItems (joinedItems items) = moreItems items := by
    intro items h
    induction items with
    | nil => rfl
    | cons v rest ih =>
      rw [joinedItems, moreItems, moreItems, h v List.mem_cons_self,
        ih (fun u hu => h u (List.mem_cons_of_mem v hu))]
  have hmembers : ∀ members : List (Str × Doc F), (∀ m ∈ members, m.2.joined.write = m.2.write) →
      moreMembers (joinedMembers members) = moreMembers members := by
    intro members h
    induction members with
    | nil => rfl
    | cons m rest ih =>
      rw [joinedMembers, moreMembers, moreMembers, quote_joined, h m List.mem_cons_self,
        ih (fun u hu => h u (List.mem_cons_of_mem m hu))]
  induction a using within with
  | str s => rw [joined, write, write, quote_joined]
  | arr items ih =>
    cases items with
    | nil => rfl
    | cons v rest =>
      rw [joined, joinedItems, write, write, ih v List.mem_cons_self,
        hitems rest (fun u hu => ih u (List.mem_cons_of_mem v hu))]
  | obj members ih =>
    cases members with
    | nil => rfl
    | cons m rest =>
      obtain ⟨k, v⟩ := m
      rw [joined, joinedMembers, write, write, quote_joined, ih (k, v) List.mem_cons_self,
        hmembers rest (fun u hu => ih u (List.mem_cons_of_mem _ hu))]
  | _ => rfl

end Doc

end Cerid.Document
