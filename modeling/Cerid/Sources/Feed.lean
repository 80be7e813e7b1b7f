import Cerid.Lib.Text
import Cerid.Lib.Watermark

/-!
# Feeds

The entries of an RSS or Atom document that are newer than a cursor, and the calls that
hand them to the ingest, oldest first.  The parser of XML and the two readers of dates are
parameters.
-/

namespace Cerid.Sources.Feed

open Text (isSpace strip)

abbrev Chars := List Char

/-! ## Text out of HTML -/

/-- `re.sub`, for a pattern given by the length of its match at the front of a text. -/
def subFrom (matchLength : Chars → Option Nat) (replacement : Chars) : Nat → Chars → Chars
  | _, [] => []
  | skip + 1, _ :: rest => subFrom matchLength replacement skip rest
  | 0, c :: rest =>
    match matchLength (c :: rest) with
    | some (n + 1) => replacement ++ subFrom matchLength replacement n rest
    | _ => c :: subFrom matchLength replacement 0 rest

def sub (matchLength : Chars → Option Nat) (replacement text : Chars) : Chars :=
  subFrom matchLength replacement 0 text

def literal (pattern cs : Chars) : Option Nat :=
  if pattern.isPrefixOf cs then some pattern.length else none

def find (pattern : Chars) : Chars → Option Nat
  | [] => none
  | c :: rest => if pattern.isPrefixOf (c :: rest) then some 0 else (find pattern rest).map (· + 1)

/-- `<name[^>]*>.*?</name>`, where a dot is any character. -/
def block (name cs : Chars) : Option Nat :=
  let opening := '<' :: name
  let closing := '<' :: '/' :: name ++ ['>']
  if opening.isPrefixOf cs then
    let before := opening.length + ((cs.drop opening.length).takeWhile (· ≠ '>')).length + 1
    (find closing (cs.drop before)).map (fun n => before + n + closing.length)
  else none

/-- `<[^>]+>`. -/
def tag : Chars → Option Nat
  | '<' :: rest =>
    let inner := rest.takeWhile (· ≠ '>')
    if inner = [] ∨ rest.drop inner.length = [] then none else some (inner.length + 2)
  | _ => none

/-- `\s+`. -/
def blanks (cs : Chars) : Option Nat := some (cs.takeWhile isSpace).length

/-- The entities that are decoded, in their order. -/
def ENTITIES : List (String × Char) :=
  [("&amp;", '&'), ("&lt;", '<'), ("&gt;", '>'), ("&nbsp;", ' '), ("&quot;", '\x22'),
    ("&#39;", '\x27'), ("&apos;", '\x27')]

/-- `_html_to_text`. -/
def htmlToText (html : Chars) : Chars :=
  let text := sub (block "script".toList) [] html
  let text := sub (block "style".toList) [] text
  let text := sub tag [' '] text
  let text := ENTITIES.foldl (fun text e => sub (literal e.1.toList) [e.2] text) text
  strip (sub blanks [' '] text)

example : htmlToText "<p>a &lt; b</p>\n<script>x<y</script>c".toList = "a < b c".toList := by
  decide +kernel

/-! ## Entries -/

/-- What is read of an `<item>`.  A child that is missing has no text. -/
structure RssItem where
  guid : Option Chars
  link : Option Chars
  title : Option Chars
  description : Option Chars
  encoded : Option Chars
  pubDate : Option Chars

/-- What is read of an `<item>` of RSS 1.0. -/
structure RdfItem where
  about : Option Chars
  link : Option Chars
  title : Option Chars
  description : Option Chars
  date : Option Chars

/-- What is read of an Atom `<entry>`; `href` is the attribute of its link. -/
structure AtomEntry where
  id : Option Chars
  href : Option Chars
  title : Option Chars
  content : Option Chars
  summary : Option Chars
  published : Option Chars
  updated : Option Chars

/-- The elements of a document, in its order. -/
structure Document where
  items : List RssItem
  rdf : List RdfItem
  entries : List AtomEntry

structure Entry where
  guid : Chars
  title : Chars
  url : Chars
  content : Chars
  publishedAt : Option Chars
deriving DecidableEq

structure Cursor where
  lastGuid : Option Chars
  lastPublishedAt : Option Chars
deriving DecidableEq

/-- What an empty cursor is read as. -/
def Cursor.empty : Cursor := ⟨none, none⟩

/-- `_text`. -/
def text (el : Option Chars) : Chars := strip (el.getD [])

/-- `a or b`, of texts. -/
def orText (a b : Chars) : Chars := if a = [] then b else a

/-- The readers of what is not in the repository. -/
structure Readers where
  /-- Without a value it is a parse error. -/
  parse : Chars → Option Document
  rfc822 : Chars → Option Chars
  iso : Chars → Option Chars

section Readers

variable (R : Readers)

/-- `_normalize_date`. -/
def normalizeDate (raw : Chars) : Option Chars :=
  if raw = [] then none
  else some ((R.rfc822 raw).getD
    ((R.iso (sub (literal ['Z']) "+00:00".toList raw)).getD raw))

/-- An entry without a guid is left out. -/
def guided (entry : Entry) : Option Entry := if entry.guid = [] then none else some entry

def RssItem.entry? (it : RssItem) : Option Entry :=
  guided {
    guid := orText (text it.guid) (text it.link)
    title := text it.title
    url := text it.link
    content := orText (text it.description) (text it.encoded)
    publishedAt := normalizeDate R (text it.pubDate) }

def RdfItem.entry? (it : RdfItem) : Option Entry :=
  guided {
    guid := orText (it.about.getD []) (text it.link)
    title := text it.title
    url := text it.link
    content := text it.description
    publishedAt := normalizeDate R (text it.date) }

def AtomEntry.entry? (en : AtomEntry) : Option Entry :=
  guided {
    guid := orText (orText (text en.id) (en.href.getD [])) (text en.title)
    title := text en.title
    url := en.href.getD []
    content := orText (text en.content) (text en.summary)
    publishedAt := normalizeDate R (orText (text en.published) (text en.updated)) }

def Document.feed (d : Document) : List Entry :=
  d.items.filterMap (RssItem.entry? R) ++ d.rdf.filterMap (RdfItem.entry? R) ++
    d.entries.filterMap (AtomEntry.entry? R)

/-- A declaration of a document type or of an entity, in any case of its letters. -/
def declares (xml : Chars) : Bool :=
  let lowered := xml.map Char.toLower
  (find "<!doctype".toList lowered).isSome || (find "<!entity".toList lowered).isSome

/-- The entries of a text, newest first as they stand; none where it is refused or does not
parse. -/
def feedOf (xml : Chars) : List Entry :=
  if declares xml then []
  else ((R.parse xml).map (Document.feed R)).getD []

/-- The cursor behind an entry. -/
def Entry.cursor (e : Entry) : Cursor := ⟨some e.guid, e.publishedAt⟩

/-- `_parse_feed`. -/
def parseFeed (xml : Chars) (cursor : Cursor) : List Entry × Cursor :=
  let items := feedOf R xml
  let new := Watermark.newer Entry.guid cursor.lastGuid items
  match items with
  | [] => ([], cursor)
  | newest :: _ => if new = [] then ([], cursor) else (new.reverse, newest.cursor)

/-- The entries of `_parse_feed`: what is above the cursor, oldest first. -/
theorem parseFeed_fst (xml : Chars) (cursor : Cursor) :
    (parseFeed R xml cursor).1 =
      (Watermark.newer Entry.guid cursor.lastGuid (feedOf R xml)).reverse := by
  unfold parseFeed
  dsimp only
  cases hitems : feedOf R xml with
  | nil => rfl
  | cons newest rest =>
    dsimp only
    split
    · next h => rw [h]; rfl
    · rfl

end Readers

/-! ## What is handed on -/

/-- `_MAX_FEED_BYTES`; it is the characters that are counted. -/
def MAX_FEED_BYTES : Nat := 8 * 1024 * 1024

/-- What of the configuration of a source is read. -/
structure Config where
  url : Chars
  domain : Chars

def Config.domainName (config : Config) : Chars :=
  let general := "general".toList
  orText (strip (orText config.domain general)) general

/-- A call of the ingest. -/
structure Call where
  content : Chars
  domain : Chars
  sourceId : Chars
  title : Chars
  url : Chars
  guid : Chars
  publishedAt : Chars
deriving DecidableEq

def Entry.text (e : Entry) : Chars := strip (htmlToText (orText e.content e.title))

def Entry.call (sourceId : Chars) (config : Config) (e : Entry) : Call :=
  { content := e.text, domain := config.domainName, sourceId := sourceId, title := e.title,
    url := e.url, guid := e.guid, publishedAt := e.publishedAt.getD [] }

/-- The entries that a poll goes through. -/
def entriesOf (R : Readers) (config : Config) (response : Option Chars) (cursor : Cursor) :
    List Entry :=
  match response with
  | none => []
  | some body =>
    if strip config.url = [] then []
    else (parseFeed R (body.take MAX_FEED_BYTES) cursor).1

end Cerid.Sources.Feed
