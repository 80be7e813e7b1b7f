import Cerid.Lib.Distinct
import Cerid.Lib.Text
import Cerid.Wikilinks.Graph
import Mathlib.Algebra.GroupWithZero.Nat

/-!
# The links of a text

`extractWikilinks` blanks what stands between two fences and matches a pattern in what is left,
from left to right.  A match does not start after a backtick, and no text is in two matches.

A text is a list of characters, of which `before` is what stands before a place, read backwards.
-/

namespace Cerid.Wikilinks.Extract

abbrev Chars := List Char

def MAX_INPUT_BYTES : Nat := 50 * 1024

/-! ## Fences -/

def isFence (c : Char) : Prop := c = '\x60' ∨ c = '~'

instance (c : Char) : Decidable (isFence c) := inferInstanceAs (Decidable (_ ∨ _))

def fence (c : Char) : Chars := [c, c, c]

/-- What stands before the next fence, and what after it. -/
def closeFence (c : Char) : Chars → Option (Chars × Chars)
  | [] => none
  | a :: rest =>
    if (a :: rest).take 3 = fence c then some ([], rest.drop 2)
    else (closeFence c rest).map fun p => (a :: p.1, p.2)

/-- How long a fenced block is that starts here, and what comes after it. -/
def blockAt : Chars → Option (Nat × Chars)
  | a :: b :: c :: rest =>
    if isFence a ∧ b = a ∧ c = a then (closeFence a rest).map fun p => (p.1.length + 6, p.2)
    else none
  | _ => none

/-- As many blocks and characters as `n`. -/
def blank : Nat → Chars → Chars
  | 0, cs => cs
  | _ + 1, [] => []
  | n + 1, c :: rest =>
    match blockAt (c :: rest) with
    | some (len, after) => List.replicate len ' ' ++ blank n after
    | none => c :: blank n rest

/-- `_strip_code_blocks`. -/
def stripCodeBlocks (text : Chars) : Chars := blank text.length text

/-! ## The pattern -/

/-- The groups of a match but the first one. -/
structure Form where
  target : Chars
  heading : Option Chars
  displayAlias : Option Chars
deriving DecidableEq, Repr

def targetStops : Chars := ['[', ']', '|', '#', '\n']

def headingStops : Chars := ['[', ']', '|', '\n']

def aliasStops : Chars := ['[', ']', '\n']

/-- A character of a part. -/
def holds (stops : Chars) (c : Char) : Bool := c ∉ stops

/-- The characters up to one that the part may not hold, of which none can go on with less. -/
def part (stops cs : Chars) : Option (Chars × Chars) :=
  if cs.takeWhile (holds stops) = [] then none
  else some (cs.takeWhile (holds stops), cs.dropWhile (holds stops))

/-- Where the marker stands, nothing but its part can follow. -/
def optionalPart (marker : Char) (stops cs : Chars) : Option (Option Chars × Chars) :=
  match cs with
  | [] => some (none, [])
  | c :: rest =>
    if c = marker then (part stops rest).map fun p => (some p.1, p.2) else some (none, c :: rest)

def closing : Chars → Option Chars
  | ']' :: ']' :: rest => some rest
  | _ => none

def opening : Chars → Option Chars
  | '[' :: '[' :: rest => some rest
  | _ => none

/-- A link in its brackets. -/
def parseLink (cs : Chars) : Option (Form × Chars) := do
  let cs ← opening cs
  let (target, cs) ← part targetStops cs
  let (heading, cs) ← optionalPart '#' headingStops cs
  let (displayAlias, cs) ← optionalPart '|' aliasStops cs
  let cs ← closing cs
  return (⟨target, heading, displayAlias⟩, cs)

def Form.inner (f : Form) : Chars :=
  f.target ++ (f.heading.elim [] ('#' :: ·)) ++ (f.displayAlias.elim [] ('|' :: ·)) ++ [']', ']']

def Form.text (f : Form) : Chars := '[' :: '[' :: f.inner

/-- A match, with its first group. -/
structure Match where
  isEmbed : Bool
  form : Form
deriving DecidableEq, Repr

def Match.text (m : Match) : Chars := if m.isEmbed then '!' :: m.form.text else m.form.text

/-- `_WIKILINK_RE` at a place. -/
def matchAt (before cs : Chars) : Option (Match × Chars) :=
  if before.head? = some '\x60' then none
  else if cs.head? = some '!' then (parseLink cs.tail).map fun p => (⟨true, p.1⟩, p.2)
  else (parseLink cs).map fun p => (⟨false, p.1⟩, p.2)

/-- `finditer`, over as many matches and characters as `n`. -/
def finditer : Nat → Chars → Chars → List Match
  | 0, _, _ => []
  | _ + 1, _, [] => []
  | n + 1, before, c :: rest =>
    match matchAt before (c :: rest) with
    | some (m, after) => m :: finditer n (m.text.reverse ++ before) after
    | none => finditer n (c :: before) rest

/-- The link of a match, unless its target is blank. -/
def Match.ref (m : Match) : Option WikilinkRef :=
  let target := Text.strip m.form.target
  if target = [] then none
  else
    let heading := Text.strip (m.form.heading.getD [])
    let displayAlias := Text.strip (m.form.displayAlias.getD [])
    some {
      target := String.ofList target
      displayAlias := String.ofList (if displayAlias = [] then target else displayAlias)
      heading := String.ofList heading
      isEmbed := m.isEmbed }

def byteLength (text : Chars) : Nat := (text.map Char.utf8Size).sum

/-- `extract_wikilinks`. -/
def extractWikilinks (text : Chars) : List WikilinkRef :=
  if text = [] then []
  else if MAX_INPUT_BYTES ≤ byteLength text then []
  else firstOf id [] ((finditer text.length [] (stripCodeBlocks text)).filterMap Match.ref)

end Cerid.Wikilinks.Extract
