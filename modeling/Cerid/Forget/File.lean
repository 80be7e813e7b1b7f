import Cerid.Forget.Registry
import Cerid.Lib.Json
import Cerid.Lib.Text

/-!
# The bytes of a registry file

What `append` writes and the reader makes of it, byte for byte.  An append that a crash
cuts short leaves a fragment without a line feed, and the next one starts a fresh line;
the fragment stays where it is, a line of its own.

Here an entry has the texts the file holds; an entry of the registry is one of these, for
any spelling of forget ids and times.
-/

namespace Cerid.Forget.File

open Text (Ascii byte encode decode splitlines joined cutLines)

def KINDS : List String := ["conversation", "artifact", "chunk", "memory", "operator_entry"]

def STATES : List String := ["trashed", "restored", "purged", "readded"]

structure Subject where
  kind : String
  id : String
deriving DecidableEq, Repr

structure Entry where
  forgetId : String
  subject : Subject
  state : String
  at_ : String
  machineId : String
  requestedBy : String
  userId : String
deriving DecidableEq, Repr

def Entry.toJson (e : Entry) : Json := .obj [
  ("forget_id", .str e.forgetId),
  ("subject", .obj [("kind", .str e.subject.kind), ("id", .str e.subject.id)]),
  ("state", .str e.state),
  ("at", .str e.at_),
  ("machine_id", .str e.machineId),
  ("requested_by", .str e.requestedBy),
  ("user_id", .str e.userId)]

/-- What `from_json` accepts. -/
def Entry.accepted (e : Entry) : Bool :=
  e.subject.kind ∈ KINDS && e.state ∈ STATES && e.subject.id ≠ ""

/-- `str()` of a decoded value; of one that is not a string it is `repr`. -/
def str (repr : Json → String) : Json → String
  | .str s => s
  | v => repr v

def Entry.fromJson (repr : Json → String) (row : Json) : Option Entry := do
  let subj ← row.get? "subject"
  let forgetId ← row.get? "forget_id"
  let kind ← subj.get? "kind"
  let id ← subj.get? "id"
  let state ← row.get? "state"
  let at_ ← row.get? "at"
  let text := fun key => ((row.get? key).map (str repr)).getD ""
  let entry : Entry := {
    forgetId := str repr forgetId
    subject := { kind := str repr kind, id := str repr id }
    state := str repr state, at_ := str repr at_, machineId := text "machine_id"
    requestedBy := text "requested_by", userId := text "user_id" }
  if entry.accepted then some entry else none

def parseLine (repr : Json → String) (line : List Char) : Option Entry :=
  (Json.loads line).bind (Entry.fromJson repr)

/-- `Registry._parse`. -/
def parse (repr : Json → String) (lines : List (List Char)) : List Entry :=
  lines.filterMap (parseLine repr)

/-- The entries of a registry file. -/
def read (repr : Json → String) (file : List UInt8) : List Entry :=
  parse repr (splitlines (decode file))

def Entry.line (e : Entry) : List Char := Json.dumps (Json.sortKeys e.toJson)

def payload (entries : List Entry) : List Char := entries.flatMap (fun e => e.line ++ ['\n'])

/-- The last write left no line feed. -/
def unended (file : List UInt8) : Bool := file ≠ [] && file.getLast? ≠ some 0x0a

/-- The bytes an append writes. -/
def written (file : List UInt8) (entries : List Entry) : List UInt8 :=
  encode (if unended file then '\n' :: payload entries else payload entries)

/-- An append, and after how many bytes a crash cut it. -/
structure Append where
  entries : List Entry
  cut : Option Nat

/-- `Registry.append`, up to the cut. -/
def append (file : List UInt8) (a : Append) : List UInt8 :=
  file ++ match a.cut with
    | none => written file a.entries
    | some n => (written file a.entries).take n

/-- The entries whose text stands whole in the first `n` bytes of a payload. -/
def whole : List Entry → Nat → List Entry
  | [], _ => []
  | e :: rest, n => if n < e.line.length then [] else e :: whole rest (n - e.line.length - 1)

/-- The entries an append got into the file. -/
def Append.landed (file : List UInt8) (a : Append) : List Entry :=
  match a.cut with
  | none => a.entries
  | some n => whole a.entries (if unended file then n - 1 else n)

/-! ## Lines -/

/-- The entry as it is written, its keys sorted. -/
theorem sortKeys_toJson (e : Entry) : Json.sortKeys e.toJson = .obj [
    ("at", .str e.at_),
    ("forget_id", .str e.forgetId),
    ("machine_id", .str e.machineId),
    ("requested_by", .str e.requestedBy),
    ("state", .str e.state),
    ("subject", .obj [("id", .str e.subject.id), ("kind", .str e.subject.kind)]),
    ("user_id", .str e.userId)] := by
  simp only [Entry.toJson, Json.sortKeys, Json.sortMembers]
  simp only [List.insertionSort, List.foldr, List.orderedInsert]
  simp +decide

theorem written_members (e : Entry) : ∀ m ∈ [
    ("at", Json.str e.at_),
    ("forget_id", .str e.forgetId),
    ("machine_id", .str e.machineId),
    ("requested_by", .str e.requestedBy),
    ("state", .str e.state),
    ("subject", .obj [("id", .str e.subject.id), ("kind", .str e.subject.kind)]),
    ("user_id", .str e.userId)], Json.Written m.2 := by
  have hsubject : ∀ m ∈ [("id", Json.str e.subject.id), ("kind", .str e.subject.kind)],
      Json.Written m.2 := by
    simp only [List.forall_mem_cons, List.not_mem_nil, false_implies, implies_true, and_true]
    exact ⟨Json.written_str _, Json.written_str _⟩
  simp only [List.forall_mem_cons, List.not_mem_nil, false_implies, implies_true, and_true]
  exact ⟨Json.written_str _, Json.written_str _, Json.written_str _, Json.written_str _,
    Json.written_str _, Json.written_obj hsubject, Json.written_str _⟩

theorem written_entry (e : Entry) : Json.Written (Json.sortKeys e.toJson) := by
  rw [sortKeys_toJson]
  exact Json.written_obj (written_members e)

theorem fromJson_toJson (repr : Json → String) (e : Entry) :
    Entry.fromJson repr (Json.sortKeys e.toJson) = if e.accepted then some e else none := by
  rw [sortKeys_toJson]
  simp [Entry.fromJson, Json.get?, str]

/-- A whole line reads back as its entry, if that is accepted. -/
theorem parseLine_line (repr : Json → String) (e : Entry) :
    parseLine repr e.line = if e.accepted then some e else none := by
  rw [parseLine, Entry.line, Json.loads_dumps (written_entry e), Option.bind_some, fromJson_toJson]

/-- A line that was cut reads as nothing. -/
theorem parseLine_cut (repr : Json → String) (e : Entry) {n : Nat} (h : n < e.line.length) :
    parseLine repr (e.line.take n) = none := by
  have hne : e.line.drop n ≠ [] := by
    rw [ne_eq, List.drop_eq_nil_iff]
    omega
  have hline : e.line = _ := congrArg Json.dumps (sortKeys_toJson e)
  rw [parseLine, Json.loads_cut (written_members e) hne
    (hline.symm.trans (List.take_append_drop n e.line).symm)]
  rfl

theorem line_pos (e : Entry) : 0 < e.line.length := by
  obtain ⟨c, cs, h, -⟩ := (written_entry e).starts
  rw [Entry.line, h]
  exact Nat.succ_pos _

theorem printable_line (e : Entry) : Json.Printable e.line := (written_entry e).printable

theorem payload_eq (entries : List Entry) : payload entries = joined (entries.map Entry.line) [] := by
  simp [payload, joined, List.flatMap_map]

/-! ## A file as its lines -/

/-- The file is these lines, and a last one that was not ended. -/
structure Holds (file : List UInt8) (lines : List (List Char)) (tail : List Char) : Prop where
  bytes : file = (joined lines tail).map byte
  lines : ∀ line ∈ lines, Json.Printable line
  tail : Json.Printable tail

variable {file : List UInt8} {lines : List (List Char)} {tail : List Char}

theorem ascii_joined (hl : ∀ line ∈ lines, Json.Printable line) (ht : Json.Printable tail) :
    Ascii (joined lines tail) := by
  intro c hc
  rcases List.mem_append.mp hc with hc | hc
  · obtain ⟨line, hline, hc⟩ := List.mem_flatMap.mp hc
    rcases List.mem_append.mp hc with hc | hc
    · exact (hl line hline c hc).2.trans (by decide)
    · rw [List.mem_singleton.mp hc]
      decide
  · exact (ht c hc).2.trans (by decide)

theorem not_break {cs : List Char} (h : Json.Printable cs) : ∀ c ∈ cs, decide (c ∈
    ['\n', '\r', '\x0b', '\x0c', '\x1c', '\x1d', '\x1e', '\x85', '\u2028', '\u2029']) = false := by
  intro c hc
  rw [decide_eq_false_iff_not]
  intro hmem
  simp only [List.mem_cons, List.not_mem_nil, or_false] at hmem
  rcases hmem with rfl | rfl | rfl | rfl | rfl | rfl | rfl | rfl | rfl | rfl
  all_goals exact absurd (h _ hc) (by decide)

theorem parse_append (repr : Json → String) (a b : List (List Char)) :
    parse repr (a ++ b) = parse repr a ++ parse repr b := List.filterMap_append

theorem parse_nil (repr : Json → String) : parse repr [[]] = [] := rfl

theorem Holds.read (h : Holds file lines tail) (repr : Json → String) :
    read repr file = parse repr (lines ++ [tail]) := by
  have hascii := ascii_joined h.lines h.tail
  rw [File.read, h.bytes]
  rw [Text.decode_ascii hascii, splitlines, Text.linesFrom_joined (by decide) (by decide)
    (fun line hline => not_break (h.lines line hline)) (not_break h.tail)]
  by_cases ht : tail = []
  · rw [if_pos ht, ht, List.append_nil, parse_append, parse_nil, List.append_nil]
  · rw [if_neg ht]

theorem unended_concat (bytes : List UInt8) (b : UInt8) :
    unended (bytes ++ [b]) = true ↔ b ≠ 0x0a := by
  simp [unended]

theorem byte_ne {c : Char} (h : 0x20 ≤ c.toNat ∧ c.toNat < 0x7f) : byte c ≠ 0x0a := by
  intro hb
  have hnat := congrArg UInt8.toNat hb
  rw [byte, UInt8.toNat_ofNat'] at hnat
  have h10 : (0x0a : UInt8).toNat = 10 := rfl
  omega

/-- A file is not ended exactly when its last line is not. -/
theorem Holds.unended (h : Holds file lines tail) : unended file = true ↔ tail ≠ [] := by
  rw [h.bytes]
  rcases List.eq_nil_or_concat tail with rfl | ⟨init, c, rfl⟩
  · rcases List.eq_nil_or_concat lines with rfl | ⟨init, line, rfl⟩
    · exact iff_of_false nofun (fun hne => hne rfl)
    · have heq : (joined (init.concat line) []).map byte =
          (joined init []).map byte ++ line.map byte ++ [0x0a] := by
        simp [joined, byte]
      rw [heq, unended_concat]
      exact iff_of_false (fun hne => hne rfl) (fun hne => hne rfl)
  · have heq : (joined lines (init.concat c)).map byte =
        (joined lines init).map byte ++ [byte c] := by
      simp [joined]
    rw [heq, unended_concat]
    exact iff_of_true (byte_ne (h.tail c (by simp))) (by simp)

/-- More lines, on a fresh line where the file was not ended. -/
theorem Holds.extend (h : Holds file lines tail) (repr : Json → String) {ls : List (List Char)}
    {t : List Char} (hls : ∀ line ∈ ls, Json.Printable line) (ht : Json.Printable t)
    {bytes : List UInt8} (hbytes : bytes =
      encode (if File.unended file then '\n' :: joined ls t else joined ls t)) :
    ∃ lines' tail', Holds (file ++ bytes) lines' tail' ∧
      parse repr (lines' ++ [tail']) = parse repr (lines ++ [tail]) ++ parse repr (ls ++ [t]) := by
  have hascii := ascii_joined hls ht
  by_cases hend : File.unended file = true
  · rw [if_pos hend, Text.encode_ascii (List.forall_mem_cons.mpr ⟨by decide, hascii⟩)] at hbytes
    refine ⟨lines ++ [tail] ++ ls, t, ⟨?_, ?_, ht⟩, ?_⟩
    · rw [hbytes, h.bytes]
      simp [joined]
    · intro line hline
      rcases List.mem_append.mp hline with hline | hline
      · rcases List.mem_append.mp hline with hline | hline
        · exact h.lines line hline
        · rw [List.mem_singleton.mp hline]
          exact h.tail
      · exact hls line hline
    · rw [List.append_assoc, parse_append]
  · rw [if_neg hend, Text.encode_ascii hascii] at hbytes
    have htail : tail = [] := by
      by_contra hne
      exact hend (h.unended.mpr hne)
    subst htail
    refine ⟨lines ++ ls, t, ⟨?_, ?_, ht⟩, ?_⟩
    · rw [hbytes, h.bytes]
      simp [joined]
    · exact fun line hline => (List.mem_append.mp hline).elim (h.lines line) (hls line)
    · rw [List.append_assoc, parse_append, parse_append repr lines [[]], parse_nil, List.append_nil]

/-! ## Appends -/

theorem filter_accepted_cons (e : Entry) (rest : List Entry) (repr : Json → String) :
    parse repr [e.line] ++ rest.filter Entry.accepted = (e :: rest).filter Entry.accepted := by
  rw [parse, List.filterMap_cons, parseLine_line, List.filterMap_nil]
  by_cases h : e.accepted = true
  · rw [if_pos h, List.filter_cons_of_pos h]
    rfl
  · rw [if_neg h, List.filter_cons_of_neg h]
    rfl

/-- A payload that was written in full. -/
theorem parse_lines (repr : Json → String) (entries : List Entry) :
    parse repr (entries.map Entry.line ++ [[]]) = entries.filter Entry.accepted := by
  rw [parse_append, parse_nil, List.append_nil]
  induction entries with
  | nil => rfl
  | cons e rest ih =>
    rw [← filter_accepted_cons e rest repr, ← ih, ← parse_append]
    rfl

theorem whole_zero (entries : List Entry) : whole entries 0 = [] := by
  cases entries with
  | nil => rfl
  | cons e rest => rw [whole, if_pos (line_pos e)]

/-- A payload that was cut reads as the entries whose text it holds. -/
theorem parse_cutLines (repr : Json → String) (entries : List Entry) (n : Nat) :
    parse repr ((cutLines (entries.map Entry.line) n).1 ++
      [(cutLines (entries.map Entry.line) n).2]) = (whole entries n).filter Entry.accepted := by
  induction entries generalizing n with
  | nil => rfl
  | cons e rest ih =>
    rw [List.map_cons, cutLines, whole]
    by_cases hlt : n < e.line.length
    · rw [if_pos hlt.le, if_pos hlt, List.nil_append, parse, List.filterMap_cons,
        parseLine_cut repr e hlt]
      rfl
    · rw [if_neg hlt]
      by_cases heq : n ≤ e.line.length
      · have hn : n = e.line.length := by omega
        rw [if_pos heq, List.nil_append, hn, List.take_length, Nat.sub_self, Nat.zero_sub,
          whole_zero, ← filter_accepted_cons e [] repr]
        simp
      · rw [if_neg heq]
        simp only
        rw [← filter_accepted_cons e _ repr, ← ih, ← parse_append]
        rfl

theorem printable_lines (entries : List Entry) :
    ∀ line ∈ entries.map Entry.line, Json.Printable line := by
  intro line hline
  obtain ⟨e, -, rfl⟩ := List.mem_map.mp hline
  exact printable_line e

theorem printable_cutLines {ls : List (List Char)} (h : ∀ line ∈ ls, Json.Printable line) (n : Nat) :
    (∀ line ∈ (cutLines ls n).1, Json.Printable line) ∧ Json.Printable (cutLines ls n).2 := by
  induction ls generalizing n with
  | nil => exact ⟨List.forall_mem_nil _, Json.printable_nil⟩
  | cons line rest ih =>
    have hline : Json.Printable line := h line List.mem_cons_self
    rw [cutLines]
    split
    · exact ⟨List.forall_mem_nil _, fun c hc => hline c (List.mem_of_mem_take hc)⟩
    · obtain ⟨hrest, htail⟩ := ih (fun l hl => h l (List.mem_cons_of_mem line hl)) (n - line.length - 1)
      exact ⟨List.forall_mem_cons.mpr ⟨hline, hrest⟩, htail⟩

/-- The bytes of a write that was cut are those of the text cut there. -/
theorem take_written (file : List UInt8) (entries : List Entry) (n : Nat) :
    (written file entries).take n =
      encode ((if unended file then '\n' :: payload entries else payload entries).take n) := by
  have hascii : Ascii (if unended file then '\n' :: payload entries else payload entries) := by
    have hpayload : Ascii (payload entries) := by
      rw [payload_eq]
      exact ascii_joined (printable_lines entries) Json.printable_nil
    split
    · exact List.forall_mem_cons.mpr ⟨by decide, hpayload⟩
    · exact hpayload
  rw [written, Text.encode_ascii hascii,
    Text.encode_ascii (fun c hc => hascii c (List.mem_of_mem_take hc)), List.map_take]

/-- An append, cut or not, adds what it got into the file to what is read of it. -/
theorem Holds.append (h : Holds file lines tail) (repr : Json → String) (a : Append) :
    ∃ lines' tail', Holds (append file a) lines' tail' ∧
      parse repr (lines' ++ [tail']) =
        parse repr (lines ++ [tail]) ++ (a.landed file).filter Entry.accepted := by
  obtain ⟨entries, cut⟩ := a
  have hlines := printable_lines entries
  cases cut with
  | none =>
    show ∃ lines' tail', Holds (file ++ written file entries) lines' tail' ∧ _ =
      _ ++ entries.filter Entry.accepted
    rw [← parse_lines repr entries]
    refine h.extend repr hlines Json.printable_nil ?_
    rw [written, payload_eq]
  | some n =>
    show ∃ lines' tail', Holds (file ++ (written file entries).take n) lines' tail' ∧ _ =
      _ ++ (whole entries (if File.unended file then n - 1 else n)).filter Entry.accepted
    rw [take_written, payload_eq, ← parse_cutLines repr]
    obtain ⟨hcut, hfragment⟩ := printable_cutLines hlines (if File.unended file then n - 1 else n)
    by_cases hend : File.unended file = true
    · rw [if_pos hend] at hcut hfragment ⊢
      rw [if_pos hend]
      cases n with
      | zero =>
        refine ⟨lines, tail, ?_, ?_⟩
        · rw [List.take_zero]
          exact (List.append_nil file).symm ▸ h
        · rw [Nat.zero_sub, parse_cutLines, whole_zero]
          simp
      | succ n =>
        rw [List.take_succ_cons, Nat.add_sub_cancel] at *
        refine h.extend repr hcut hfragment ?_
        rw [if_pos hend, Text.take_joined]
    · rw [if_neg hend] at hcut hfragment ⊢
      rw [if_neg hend]
      refine h.extend repr hcut hfragment ?_
      rw [if_neg hend, Text.take_joined]

theorem holds_start : Holds [] [] [] := ⟨rfl, nofun, Json.printable_nil⟩

theorem whole_prefix (entries : List Entry) (n : Nat) : whole entries n <+: entries := by
  induction entries generalizing n with
  | nil => exact List.prefix_rfl
  | cons e rest ih =>
    rw [whole]
    split
    · exact List.nil_prefix
    · exact (List.prefix_cons_inj e).mpr (ih _)

/-- Over every run of appends, each cut at any byte or not at all: what is read of the file
grows, at its end, by the entries whose text the append got into the file; that is a first
part of its entries, and all of them when it completed.  Entries that `from_json` does not
accept are read by no one. -/
theorem read_appends (repr : Json → String) (run : List Append) :
    Along append (fun file a =>
      read repr (append file a) = read repr file ++ (a.landed file).filter Entry.accepted ∧
      a.landed file <+: a.entries ∧ (a.cut = none → a.landed file = a.entries)) [] run := by
  refine along_of_invariant (fun file => ∃ lines tail, Holds file lines tail) ?_ ?_
    ⟨[], [], holds_start⟩ run
  · rintro file a ⟨lines, tail, h⟩
    obtain ⟨lines', tail', h', hparse⟩ := h.append repr a
    refine ⟨?_, ?_, fun hcut => ?_⟩
    · rw [h'.read, h.read, hparse]
    · unfold Append.landed
      split
      · exact List.prefix_rfl
      · exact whole_prefix _ _
    · rw [Append.landed, hcut]
  · rintro file a ⟨lines, tail, h⟩
    obtain ⟨lines', tail', h', -⟩ := h.append repr a
    exact ⟨lines', tail', h'⟩

section Batch

def letter : Entry where
  forgetId := "fg_1"
  subject := { kind := "artifact", id := "letter" }
  state := "trashed"
  at_ := "2026-01-01T00:00:00Z"
  machineId := "m"
  requestedBy := "ui"
  userId := ""

def invoice : Entry := { letter with subject := { kind := "artifact", id := "invoice" } }

/-- A crash between two entries of one append leaves the first. -/
theorem not_torn_ignored : ¬ ∀ (repr : Json → String) (run : List Append),
    (∀ a ∈ run, ∀ e ∈ a.entries, e.accepted = true) →
    read repr (run.foldl append []) =
      (run.filter (fun a => a.cut = none)).flatMap Append.entries := by
  intro h
  have hrun := h (fun _ => "") [{ entries := [letter, invoice], cut := some (letter.line.length + 1) }]
    (by decide)
  obtain ⟨lines, tail, hholds, hparse⟩ := holds_start.append (fun _ => "")
    { entries := [letter, invoice], cut := some (letter.line.length + 1) }
  rw [List.foldl_cons, List.foldl_nil, hholds.read, hparse] at hrun
  have hlanded : Append.landed [] { entries := [letter, invoice], cut := some (letter.line.length + 1) }
      = [letter] := by
    simp [Append.landed, unended, whole, line_pos]
  rw [hlanded] at hrun
  cases hrun

end Batch

/-! ## The file of the engine -/

/-- An entry of the registry as the file spells it. -/
def spelled (forgetId : ForgetId → String) (iso : Time → String) (e : Forget.Entry) : Entry where
  forgetId := forgetId e.forgetId
  subject := { kind := e.subject.kind.toJson, id := e.subject.id }
  state := e.state.toJson
  at_ := iso e.at_
  machineId := e.machineId
  requestedBy := e.requestedBy
  userId := e.userId

theorem accepted_spelled (forgetId : ForgetId → String) (iso : Time → String) (e : Forget.Entry) :
    (spelled forgetId iso e).accepted = decide (e.subject.id ≠ "") := by
  have hkind : e.subject.kind.toJson ∈ KINDS := by cases e.subject.kind <;> decide
  have hstate : e.state.toJson ∈ STATES := by cases e.state <;> decide
  by_cases hid : e.subject.id = ""
  · simp [Entry.accepted, spelled, hid]
  · simp [Entry.accepted, spelled, hkind, hstate, hid]

theorem Holds.appends (h : Holds file lines tail) (repr : Json → String) (run : List Append)
    (hrun : ∀ a ∈ run, a.cut = none) :
    ∃ lines' tail', Holds (run.foldl File.append file) lines' tail' ∧
      parse repr (lines' ++ [tail']) =
        parse repr (lines ++ [tail]) ++ (run.flatMap Append.entries).filter Entry.accepted := by
  induction run generalizing file lines tail with
  | nil => exact ⟨lines, tail, h, by simp⟩
  | cons a rest ih =>
    obtain ⟨lines', tail', h', hparse⟩ := h.append repr a
    obtain ⟨lines'', tail'', h'', hparse'⟩ := ih h' (fun a' ha' => hrun a' (List.mem_cons_of_mem a ha'))
    refine ⟨lines'', tail'', h'', ?_⟩
    rw [hparse', hparse, Append.landed, hrun a List.mem_cons_self, List.flatMap_cons,
      List.filter_append, List.append_assoc]

/-- What the lines of the registry model stand for: a file of completed appends reads as
those lines do. -/
theorem read_spelled (repr : Json → String) (forgetId : ForgetId → String) (iso : Time → String)
    (batches : List (List Forget.Entry)) :
    read repr ((batches.map (fun es =>
      { entries := es.map (spelled forgetId iso), cut := none })).foldl append []) =
      (Forget.parse (batches.flatMap dump)).map (spelled forgetId iso) := by
  obtain ⟨lines, tail, h, hparse⟩ := holds_start.appends repr
    (batches.map (fun es => { entries := es.map (spelled forgetId iso), cut := none }))
    (by simp)
  have hdump : batches.flatMap dump = dump batches.flatten := by
    rw [dump, List.map_flatten]
    rfl
  have hentries : (batches.map (fun es => ({
      entries := es.map (spelled forgetId iso), cut := none } : Append))).flatMap Append.entries =
      batches.flatten.map (spelled forgetId iso) := by
    rw [List.flatMap_map, List.map_flatten]
    rfl
  rw [h.read, hparse, hdump, parse_dump, hentries, List.nil_append, parse_nil, List.nil_append,
    List.filter_map]
  congr 1
  exact List.filter_congr (fun e _ => accepted_spelled forgetId iso e)

end Cerid.Forget.File
