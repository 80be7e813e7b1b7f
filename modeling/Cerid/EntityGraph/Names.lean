import Cerid.Lib.Dict
import Cerid.Lib.Pieces
import Cerid.Lib.Text

/-!
# The names of entities

A name is made canonical by a table of aliases and by what is stripped from it: an honorific,
the middle initials and a legal suffix.  What is left is written as a slug of ASCII letters and
digits.

A name is its list of characters.
-/

namespace Cerid.EntityGraph.Names

open Text (isSpace strip)

/-! ## Letters -/

/-- `str.lower` of a character, as far as ASCII comes out of it: three characters beside the
capitals of ASCII have an ASCII letter, or one and a mark, for their lower case. -/
def lowerChar (c : Char) : List Char :=
  if c = '\u212a' then ['k']
  else if c = '\u0130' then ['i', '\u0307']
  else [c.toLower]

def lower (text : List Char) : List Char := text.flatMap lowerChar

/-- `[a-z0-9]`. -/
def isSlugChar (c : Char) : Bool := ('a' ≤ c && c ≤ 'z') || ('0' ≤ c && c ≤ '9')

def isBreak (c : Char) : Bool := !isSlugChar c

/-- `_slugify`. -/
def slugify (text : List Char) : List Char :=
  ((squeeze isBreak '-' (strip (lower text))).dropWhile (· = '-')).rdropWhile (· = '-')

/-- What a letter of a pattern matches, without regard to case. -/
def sameLetter (l c : Char) : Bool :=
  c.toLower = l || (l = 's' && c = '\u017f') || (l = 'i' && (c = '\u0130' || c = '\u0131'))

def sameLetters : List Char → List Char → Bool
  | [], [] => true
  | l :: ls, c :: cs => sameLetter l c && sameLetters ls cs
  | _, _ => false

/-! ## Aliases -/

/-- `_ALIAS_TABLE`. -/
def ALIAS_TABLE : List (String × List (String × String)) :=
  [("ORG",
    [("federal-reserve", "federal-reserve"), ("fed", "federal-reserve"),
      ("the-fed", "federal-reserve"), ("fomc", "federal-reserve"),
      ("federal-open-market-committee", "federal-reserve"),
      ("treasury", "us-treasury"), ("us-treasury", "us-treasury"),
      ("united-states-treasury", "us-treasury"), ("department-of-the-treasury", "us-treasury"),
      ("sec", "sec"), ("securities-and-exchange-commission", "sec"), ("us-sec", "sec"),
      ("imf", "imf"), ("international-monetary-fund", "imf"),
      ("ecb", "ecb"), ("european-central-bank", "ecb"),
      ("bis", "bis"), ("bank-for-international-settlements", "bis")]),
    ("INDEX",
    [("s-p-500", "sp500"), ("sp500", "sp500"), ("s-p", "sp500"), ("spx", "sp500"),
      ("dow-jones", "dow-jones"), ("djia", "dow-jones"), ("dow", "dow-jones"),
      ("nasdaq", "nasdaq"), ("nasdaq-composite", "nasdaq"), ("ixic", "nasdaq")])]

/-- `_ALIAS_TABLE.get(entity_type, {})`. -/
def typeTable (entityType : String) : List (List Char × List Char) :=
  (((ALIAS_TABLE.find? (·.1 = entityType)).map Prod.snd).getD []).map fun p =>
    (p.1.toList, p.2.toList)

/-- `_tier_a`. -/
def tierA (slug : List Char) (entityType : String) : Option (List Char) :=
  ((typeTable entityType).find? (·.1 = slug)).map Prod.snd

/-! ## What is stripped -/

/-- The honorifics, and whether a period may follow. -/
def HONORIFICS : List (List Char × Bool) :=
  [("mr".toList, true), ("mrs".toList, true), ("ms".toList, true), ("miss".toList, false),
    ("dr".toList, true), ("prof".toList, true), ("sir".toList, false), ("dame".toList, false),
    ("rev".toList, true), ("gen".toList, true), ("adm".toList, true)]

def isHonorific (word : List Char) : Bool :=
  HONORIFICS.any fun h => sameLetters h.1 word || (h.2 && sameLetters (h.1 ++ ['.']) word)

/-- `_HONORIFIC_RE.sub("", text)`: a first word with space after it, if it is an honorific. -/
def stripHonorific (text : List Char) : List Char :=
  let word := text.takeWhile (!isSpace ·)
  let rest := text.dropWhile (!isSpace ·)
  if isHonorific word && rest ≠ [] then rest.dropWhile isSpace else text

/-- `[A-Za-z]`. -/
def isLetter (c : Char) : Bool := ('A' ≤ c && c ≤ 'Z') || ('a' ≤ c && c ≤ 'z')

/-- `_MIDDLE_INITIAL_RE.sub("", text)`, where `gap` is the space read so far. -/
def dropInitialsFrom (gap : List Char) : List Char → List Char
  | [] => gap
  | c :: rest =>
    if isSpace c then dropInitialsFrom (gap ++ [c]) rest
    else
      match rest with
      | '.' :: more =>
        if gap ≠ [] ∧ isLetter c then dropInitialsFrom [] more
        else gap ++ c :: dropInitialsFrom [] ('.' :: more)
      | rest => gap ++ c :: dropInitialsFrom [] rest

def dropInitials (text : List Char) : List Char := dropInitialsFrom [] text

def LEGAL_SUFFIXES : List (List Char) :=
  ["inc", "llc", "l.l.c", "corp", "corporation", "ltd", "limited", "plc", "p.l.c", "co", "company",
    "llp", "lp", "l.p", "n.a", "na", "s.a", "sa", "gmbh", "ag", "b.v", "nv"].map String.toList

/-- `Pty\.?\s*Ltd`. -/
def isPtyLtd (text : List Char) : Bool :=
  let rest := text.drop 3
  sameLetters "pty".toList (text.take 3) &&
    sameLetters "ltd".toList
      ((if rest.head? = some '.' then rest.drop 1 else rest).dropWhile isSpace)

def isSuffixName (text : List Char) : Bool :=
  LEGAL_SUFFIXES.any (sameLetters · text) || isPtyLtd text

/-- A suffix, which a period may end. -/
def isSuffix (text : List Char) : Bool :=
  isSuffixName text || (text.getLast? = some '.' && isSuffixName text.dropLast)

/-- `_LEGAL_SUFFIX_RE` matches the whole of a text. -/
def isLegalTail (text : List Char) : Bool :=
  let rest := if text.head? = some ',' then text.drop 1 else text
  rest.head?.any isSpace && isSuffix (rest.dropWhile isSpace)

/-- `_LEGAL_SUFFIX_RE.sub("", text)`, of a text that does not end in a line feed. -/
def stripSuffix : List Char → List Char
  | [] => []
  | c :: rest => if isLegalTail (c :: rest) then [] else c :: stripSuffix rest

def STOP_WORDS : List (List Char) := ["the".toList, "a".toList, "an".toList]

/-- A name is left: it is not empty and not an article. -/
def isNamed (text : List Char) : Bool := text ≠ [] && lower text ∉ STOP_WORDS

/-- `_normalize_name`. -/
def normalizeName (name : List Char) (entityType : String) : List Char :=
  let normalized := strip name
  if entityType = "PERSON" then strip (dropInitials (strip (stripHonorific normalized)))
  else if entityType = "ORG" then
    let stripped := strip (stripSuffix normalized)
    if isNamed stripped then stripped else normalized
  else normalized

/-- `_tier_b`. -/
def tierB (name : List Char) (entityType : String) : List Char :=
  slugify (normalizeName name entityType)

/-- The slug of `resolve_canonical` without an embedder. -/
def canonicalSlug (name : List Char) (entityType : String) : List Char :=
  let rawSlug := slugify name
  if rawSlug = [] then []
  else
    match tierA rawSlug entityType with
    | some canonicalSlug => canonicalSlug
    | none =>
      let normSlug := tierB name entityType
      match tierA normSlug entityType with
      | some canonicalSlug => canonicalSlug
      | none => if normSlug ≠ rawSlug then normSlug else rawSlug

/-- `resolve_canonical` without an embedder, for what `str.lower` makes of the type. -/
def resolveCanonical (typeLower : String → List Char) (name : List Char) (entityType : String) :
    List Char :=
  typeLower entityType ++ ':' :: canonicalSlug name entityType

end Cerid.EntityGraph.Names
