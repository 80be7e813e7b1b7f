import Cerid.Vault.Frontmatter

/-!
# Writing a note

A note is written under one header, made of stamps and of what the caller gives.  An append
keeps the body of the file and not its header, and a header in the text that is written is not
looked for.

The checks of the vault and the path, the state of the disk and the ingestion of what was
written are parameters.
-/

namespace Cerid.Vault

open Text

inductive Mode where
  | create | append | overwrite
  | other (name : String)
  deriving DecidableEq, Repr

structure WriteNoteRequest (κ α : Type) where
  vaultId : String
  path : String
  content : List Char
  frontmatter : Option (Mapping κ α) := none
  mode : Mode := .create
  allowSynthesisInput : Bool := false

inductive Contents where
  | text (cs : List Char)
  /-- Bytes that are not UTF-8. -/
  | undecodable
  deriving DecidableEq, Repr

abbrev File := Option Contents

/-- The file of a note, and the one that is renamed to it. -/
structure Folder where
  note : File
  tmp : File

/-- How a write goes: to its end, or up to the call that raises. -/
inductive Disk where
  | works | noFolder | noRename
  | noWrite (left : File)

inductive WriteError where
  | rejected (reason : String)
  | unsupportedMode (name : String)
  | alreadyExists (path : String)
  | notRepresentable
  | notDecoded
  | osError
  deriving DecidableEq, Repr

structure WriteNoteResult (α : Type) where
  filePath : String
  artifactId : Option String
  ingested : Bool
  frontmatterWritten : Header α
  mode : Mode
  reingestError : Option String

structure Env (κ α : Type) where
  yaml : Yaml κ α
  /-- The path of a request's file, or why the request is rejected. -/
  checks : WriteNoteRequest κ α → Except String String
  utcnowIso : String
  disk : Disk
  unlinks : Bool
  /-- The artifact of a text that is ingested, or why there is none. -/
  reingest : List Char → Except String String

def CERID_SYNTHESIS_SOURCE_TYPE : String := "cerid-synthesis"

section Write

variable {κ α : Type} (env : Env κ α) (req : WriteNoteRequest κ α)

def stamps : Header α :=
  let fm := (Dict.empty.set "source" (.str CERID_SYNTHESIS_SOURCE_TYPE)).set "cerid:created"
    (.str env.utcnowIso)
  if req.allowSynthesisInput then fm.set "cerid:reanalyze" (.bool true) else fm

/-- `_build_default_frontmatter`. -/
def buildDefaultFrontmatter : Header α :=
  match req.frontmatter with
  | none => stamps env req
  | some callerFrontmatter => adopt (fun _ v => v) (stamps env req) callerFrontmatter

/-- `_serialise_frontmatter`, of a header that was dumped. -/
def serialiseFrontmatter (body : List Char) : List Char :=
  FENCE ++ '\n' :: (body ++ (FENCE ++ ['\n']))

/-- `_atomic_write`. -/
def atomicWrite (folder : Folder) (payload : List Char) : Except WriteError Unit × Folder :=
  match env.disk with
  | .noFolder => (.error .osError, folder)
  | .noWrite left => (.error .osError, { folder with tmp := if env.unlinks then none else left })
  | .noRename =>
    (.error .osError, { folder with tmp := if env.unlinks then none else some (.text payload) })
  | .works => (.ok (), { note := some (.text payload), tmp := none })

def separator (existingBody : List Char) : List Char :=
  if existingBody ≠ [] ∧ ¬ ['\n', '\n'] <:+ existingBody then ['\n', '\n'] else []

/-- The text that is written under a header to a file that is there or not. -/
def payload (path : String) (note : File) (fmBlock : List Char) : Except WriteError (List Char) :=
  match req.mode, note with
  | .other name, _ => .error (.unsupportedMode name)
  | .create, some _ => .error (.alreadyExists path)
  | .create, none | .overwrite, _ | .append, none => .ok (fmBlock ++ req.content)
  | .append, some .undecodable => .error .notDecoded
  | .append, some (.text raw) =>
    let existingBody := (extractFrontmatter env.yaml (universal raw)).2
    .ok (fmBlock ++ existingBody ++ separator existingBody ++ req.content)

def result (path : String) (payload : List Char) : WriteNoteResult α :=
  match env.reingest payload with
  | .ok artifactId =>
    ⟨path, some artifactId, true, buildDefaultFrontmatter env req, req.mode, none⟩
  | .error reason =>
    ⟨path, none, false, buildDefaultFrontmatter env req, req.mode, some reason⟩

/-- `write_note`. -/
def writeNote (folder : Folder) : Except WriteError (WriteNoteResult α) × Folder :=
  match env.checks req with
  | .error reason => (.error (.rejected reason), folder)
  | .ok path =>
    match req.mode with
    | .other name => (.error (.unsupportedMode name), folder)
    | _ =>
      match env.yaml.safeDump (buildDefaultFrontmatter env req) with
      | none => (.error .notRepresentable, folder)
      | some body =>
        match payload env req path folder.note (serialiseFrontmatter body) with
        | .error e => (.error e, folder)
        | .ok payload =>
          match atomicWrite env folder payload with
          | (.error e, after) => (.error e, after)
          | (.ok (), after) => (.ok (result env req path payload), after)

/-! ## What is asked of a write -/

/-- The header and the body of a file, as it is read. -/
def parsed : File → Option (Header α × List Char)
  | some (.text cs) => some (extractFrontmatter env.yaml (universal cs))
  | _ => none

/-- The file that a request adds to. -/
def addedTo (folder : Folder) : File := if req.mode = .append then folder.note else none

/-- The header and the body that are there already. -/
def old (folder : Folder) : Header α × List Char :=
  (parsed env (addedTo req folder)).getD (.empty, [])

/-- The header and the body of the text that is to be written. -/
def given : Header α × List Char := extractFrontmatter env.yaml (universal req.content)

/-- A key of the header that is asked for: the caller's goes before that of the content, this
before a stamp, and this before what the file had. -/
def asked (folder : Folder) (key : String) : Option (Value α) :=
  (((adopt coerced .empty (req.frontmatter.getD .empty)).get? key).or
    ((given env req).1.get? key)).or
    (((stamps env req).get? key).or ((old env req folder).1.get? key))

/-- A body that is the old one, then the new one after no more than some line ends. -/
def Follows (before new body : List Char) : Prop :=
  if before = [] then body = new
  else ∃ gap, (∀ c ∈ gap, c = '\n') ∧ body = before ++ gap ++ new

/-- What was written reads as it was asked for, and where nothing was, the file is as it was. -/
structure Right (folder : Folder) : Prop where
  failed : ∀ e, (writeNote env req folder).1 = .error e →
    (writeNote env req folder).2.note = folder.note
  written : ∀ r, (writeNote env req folder).1 = .ok r →
    ∃ header body, parsed env (writeNote env req folder).2.note = some (header, body) ∧
      (∀ key, header.get? key = asked env req folder key) ∧
      Follows (old env req folder).2 (given env req).2 body

/-- A header that is dumped is loaded again; its text ends its last line, has no line that is a
fence and no end of a line but line feeds. -/
def Yaml.Undoes (y : Yaml κ α) (header : Header α) : Prop :=
  ∀ text, y.safeDump header = some text → ∃ block, text = block ++ ['\n'] ∧ '\r' ∉ block ∧
    (∀ l ∈ block.splitOn '\n', isFence l = false) ∧
    ∃ d, y.safeLoad block = some (.mapping d) ∧
      d.items = header.items.map fun p => (.str p.1, p.2)

/-- The request goes through. -/
structure Granted (folder : Folder) : Prop where
  checked : ∃ path, env.checks req = .ok path
  mode : ∀ name, req.mode ≠ .other name
  dumped : env.yaml.safeDump (buildDefaultFrontmatter env req) ≠ none
  absent : req.mode = .create → folder.note = none
  decoded : req.mode = .append → folder.note ≠ some .undecodable
  disk : env.disk = .works

/-- The keys that a new header has. -/
def Renewed [DecidableEq κ] (key : String) : Prop :=
  key = "source" ∨ key = "cerid:created" ∨
    (req.allowSynthesisInput = true ∧ key = "cerid:reanalyze") ∨
    ∃ d, req.frontmatter = some d ∧ d.get? (.str key) ≠ none

/-! ## The header -/

variable {env req}

theorem get?_stamps (key : String) :
    (stamps env req).get? key =
      if req.allowSynthesisInput = true ∧ key = "cerid:reanalyze" then some (.bool true)
      else if key = "cerid:created" then some (.str env.utcnowIso)
      else if key = "source" then some (.str CERID_SYNTHESIS_SOURCE_TYPE) else none := by
  unfold stamps
  cases req.allowSynthesisInput <;> simp

theorem stamps_ne_none {key : String} :
    (stamps env req).get? key ≠ none ↔ key = "source" ∨ key = "cerid:created" ∨
      (req.allowSynthesisInput = true ∧ key = "cerid:reanalyze") := by
  rw [get?_stamps]
  by_cases hre : req.allowSynthesisInput = true ∧ key = "cerid:reanalyze"
  · simp [hre]
  · by_cases hcreated : key = "cerid:created"
    · simp [hcreated]
    · simp [hre, hcreated]

theorem isAllowlisted_of_stamps {key : String} (h : (stamps env req).get? key ≠ none) :
    isAllowlisted key = true := by
  obtain rfl | rfl | ⟨-, rfl⟩ := stamps_ne_none.mp h <;> decide

theorem coerced_of_stamps {key : String} (h : (stamps env req).get? key ≠ none) (v : Value α) :
    coerced key v = v := by
  obtain rfl | rfl | ⟨-, rfl⟩ := stamps_ne_none.mp h <;> rfl

variable [DecidableEq κ]

theorem get?_buildDefaultFrontmatter (key : String) :
    (buildDefaultFrontmatter env req).get? key =
      (if isAllowlisted key then (req.frontmatter.getD .empty).get? (.str key) else none).or
        ((stamps env req).get? key) := by
  unfold buildDefaultFrontmatter
  cases req.frontmatter with
  | none => simp
  | some d => simp [get?_adopt]

/-- A header that was loaded again, as it is read. -/
theorem get?_adopt_build {d : Mapping κ α}
    (hd : d.items = (buildDefaultFrontmatter env req).items.map fun p => (.str p.1, p.2))
    (key : String) :
    (adopt coerced .empty d).get? key =
      ((adopt coerced .empty (req.frontmatter.getD .empty)).get? key).or
        ((stamps env req).get? key) := by
  have hget : d.get? (.str key) = (buildDefaultFrontmatter env req).get? key := by
    rw [Dict.get?, hd, List.find?_map, Option.map_map]
    simp [Dict.get?, Function.comp_def]
  rw [get?_adopt_empty, get?_adopt_empty, hget, get?_buildDefaultFrontmatter]
  cases hallow : isAllowlisted key with
  | false =>
    have hstamp : (stamps env req).get? key = none := by
      by_contra h
      exact absurd (isAllowlisted_of_stamps h) (by simp [hallow])
    simp [hstamp]
  | true =>
    simp only [if_true]
    cases (req.frontmatter.getD .empty).get? (.str key) with
    | some v => simp
    | none =>
      cases hstamp : (stamps env req).get? key with
      | none => rfl
      | some v =>
        have hkey : (stamps env req).get? key ≠ none := by simp [hstamp]
        simp [coerced_of_stamps hkey]

/-! ## The text -/

/-- What is written reads as its header, then the rest of it. -/
theorem extract_serialise (hyaml : env.yaml.Undoes (buildDefaultFrontmatter env req))
    {text : List Char} (htext : env.yaml.safeDump (buildDefaultFrontmatter env req) = some text)
    (rest : List Char) : ∃ header,
    extractFrontmatter env.yaml (universal (serialiseFrontmatter text ++ rest)) =
      (header, universal rest) ∧
    ∀ key, header.get? key =
      ((adopt coerced .empty (req.frontmatter.getD .empty)).get? key).or
        ((stamps env req).get? key) := by
  obtain ⟨block, rfl, hr, hblock, d, hload, hd⟩ := hyaml text htext
  refine ⟨adopt coerced .empty d, ?_, get?_adopt_build hd⟩
  have hfence : '\r' ∉ FENCE := by decide
  have hsplit : serialiseFrontmatter (block ++ ['\n']) ++ rest =
      (FENCE ++ '\n' :: (block ++ '\n' :: (FENCE ++ ['\n']))) ++ rest := by
    simp [serialiseFrontmatter]
  have hmem : '\r' ∉ FENCE ++ '\n' :: (block ++ '\n' :: (FENCE ++ ['\n'])) := by
    simp [hfence, hr]
  have hread : universal (serialiseFrontmatter (block ++ ['\n']) ++ rest) =
      FENCE ++ '\n' :: (block ++ '\n' :: (FENCE ++ '\n' :: universal rest)) := by
    rw [hsplit, universal_append hmem]
    simp
  rw [hread, extractFrontmatter, fenced_append hblock]
  simp [hload]

/-! ## The file -/

variable {folder : Folder}

omit [DecidableEq κ] in
theorem atomicWrite_error {payload : List Char} {e : WriteError}
    (h : (atomicWrite env folder payload).1 = .error e) :
    (atomicWrite env folder payload).2.note = folder.note := by
  unfold atomicWrite at h ⊢
  cases hdisk : env.disk with
  | noFolder => rfl
  | noRename => rfl
  | noWrite left => rfl
  | works => simp [hdisk] at h

omit [DecidableEq κ] in
theorem atomicWrite_ok {payload : List Char} (h : (atomicWrite env folder payload).1 = .ok ()) :
    env.disk = .works := by
  unfold atomicWrite at h
  cases hdisk : env.disk with
  | works => rfl
  | noFolder => simp [hdisk] at h
  | noRename => simp [hdisk] at h
  | noWrite left => simp [hdisk] at h

omit [DecidableEq κ] in
theorem payload_ok {path : String} {note : File} {fmBlock cs : List Char}
    (h : payload env req path note fmBlock = .ok cs) :
    (∀ name, req.mode ≠ .other name) ∧ (req.mode = .create → note = none) ∧
      (req.mode = .append → note ≠ some .undecodable) := by
  unfold payload at h
  split at h <;> simp_all

omit [DecidableEq κ] in
theorem payload_granted (h : Granted env req folder) (path : String) (fmBlock : List Char) :
    payload env req path folder.note fmBlock =
      .ok (fmBlock ++ ((old env req folder).2 ++ separator (old env req folder).2 ++
        req.content)) := by
  have hnone : separator [] = [] := rfl
  cases hmode : req.mode with
  | other name => exact absurd hmode (h.mode name)
  | create => simp [payload, old, addedTo, parsed, hmode, h.absent hmode, hnone]
  | overwrite => simp [payload, old, addedTo, parsed, hmode, hnone]
  | append =>
    cases hnote : folder.note with
    | none => simp [payload, old, addedTo, parsed, hmode, hnote, hnone]
    | some contents =>
      cases contents with
      | undecodable => exact absurd hnote (h.decoded hmode)
      | text raw => simp [payload, old, addedTo, parsed, hmode, hnote]

variable (env req folder) in
omit [DecidableEq κ] in
/-- A request ends before the disk is touched, or with what the disk does. -/
theorem writeNote_cases :
    (∃ e, writeNote env req folder = (.error e, folder)) ∨
      ∃ path text cs, env.checks req = .ok path ∧
        env.yaml.safeDump (buildDefaultFrontmatter env req) = some text ∧
        payload env req path folder.note (serialiseFrontmatter text) = .ok cs ∧
        writeNote env req folder =
          ((atomicWrite env folder cs).1.map fun _ => result env req path cs,
            (atomicWrite env folder cs).2) := by
  unfold writeNote
  split
  · exact .inl ⟨_, rfl⟩
  rename_i path hpath
  split
  · exact .inl ⟨_, rfl⟩
  split
  · exact .inl ⟨_, rfl⟩
  rename_i text htext
  split
  · exact .inl ⟨_, rfl⟩
  rename_i cs hcs
  refine .inr ⟨path, text, cs, hpath, htext, hcs, ?_⟩
  obtain ⟨done, after⟩ := atomicWrite env folder cs
  cases done <;> rfl

omit [DecidableEq κ] in
theorem note_of_error {e : WriteError} (h : (writeNote env req folder).1 = .error e) :
    (writeNote env req folder).2.note = folder.note := by
  obtain ⟨e', heq⟩ | ⟨path, text, cs, -, -, -, heq⟩ := writeNote_cases env req folder
  · rw [heq]
  · rw [heq] at h ⊢
    cases hdone : (atomicWrite env folder cs).1 with
    | error e' => exact atomicWrite_error hdone
    | ok u => simp [hdone, Except.map] at h

omit [DecidableEq κ] in
theorem granted_of_ok {r : WriteNoteResult α} (h : (writeNote env req folder).1 = .ok r) :
    Granted env req folder := by
  obtain ⟨e', heq⟩ | ⟨path, text, cs, hpath, htext, hcs, heq⟩ := writeNote_cases env req folder
  · simp [heq] at h
  · obtain ⟨hmode, habsent, hdecoded⟩ := payload_ok hcs
    refine ⟨⟨path, hpath⟩, hmode, by simp [htext], habsent, hdecoded, ?_⟩
    cases hdone : (atomicWrite env folder cs).1 with
    | error e' => simp [heq, hdone, Except.map] at h
    | ok u => exact atomicWrite_ok hdone

omit [DecidableEq κ] in
/-- What a request that goes through leaves. -/
theorem writeNote_granted (h : Granted env req folder) :
    ∃ r text, env.yaml.safeDump (buildDefaultFrontmatter env req) = some text ∧
      (writeNote env req folder).1 = .ok r ∧
      (writeNote env req folder).2.note = some (.text (serialiseFrontmatter text ++
        ((old env req folder).2 ++ separator (old env req folder).2 ++ req.content))) := by
  obtain ⟨path, hpath⟩ := h.checked
  obtain ⟨text, htext⟩ := Option.ne_none_iff_exists'.mp h.dumped
  have hpayload := payload_granted h path (serialiseFrontmatter text)
  refine ⟨result env req path (serialiseFrontmatter text ++
    ((old env req folder).2 ++ separator (old env req folder).2 ++ req.content)), text, htext, ?_⟩
  unfold writeNote
  rw [hpath]
  cases hmode : req.mode with
  | other name => exact absurd hmode (h.mode name)
  | create => simp [htext, hpayload, atomicWrite, h.disk]
  | append => simp [htext, hpayload, atomicWrite, h.disk]
  | overwrite => simp [htext, hpayload, atomicWrite, h.disk]

/-! ## The body -/

theorem newline_of_separator (cs : List Char) : ∀ c ∈ separator cs, c = '\n' := by
  unfold separator
  split <;> simp

omit [DecidableEq κ] in
theorem not_mem_old : '\r' ∉ (old env req folder).2 := by
  unfold old
  cases addedTo req folder with
  | none => simp [parsed]
  | some contents =>
    cases contents with
    | undecodable => simp [parsed]
    | text raw =>
      have hsuffix := extractFrontmatter_suffix env.yaml (universal raw)
      exact fun h => not_mem_universal raw (hsuffix.subset h)

theorem isAllowlisted_of_old {key : String} (h : (old env req folder).1.get? key ≠ none) :
    isAllowlisted key = true := by
  unfold old at h
  cases hfile : addedTo req folder with
  | none => simp [hfile, parsed] at h
  | some contents =>
    cases contents with
    | undecodable => simp [hfile, parsed] at h
    | text raw =>
      rw [hfile] at h
      exact isAllowlisted_of_extract h

omit [DecidableEq κ] in
theorem universal_body :
    universal ((old env req folder).2 ++ separator (old env req folder).2 ++ req.content) =
      (old env req folder).2 ++ separator (old env req folder).2 ++ universal req.content := by
  refine universal_append ?_ _
  rw [List.mem_append, not_or]
  refine ⟨not_mem_old, fun h => ?_⟩
  exact absurd (newline_of_separator _ _ h) (by decide)

theorem follows_separator (before new : List Char) :
    Follows before new (before ++ separator before ++ new) := by
  unfold Follows
  split
  · rename_i hnil
    subst hnil
    rfl
  · exact ⟨separator before, newline_of_separator before, rfl⟩

/-- A body that starts with a dash follows only as a whole. -/
theorem not_follows {before new text : List Char} (hhead : text.head? = some '-')
    (hlen : new.length < text.length) :
    ¬ Follows before new (before ++ separator before ++ text) := by
  intro h
  unfold Follows at h
  split at h
  · rename_i hnil
    subst hnil
    have heq : text = new := h
    exact absurd (congrArg List.length heq) (by omega)
  · obtain ⟨gap, hgap, heq⟩ := h
    rw [List.append_assoc, List.append_assoc, List.append_cancel_left_eq] at heq
    have hlength := congrArg List.length heq
    rw [List.length_append, List.length_append] at hlength
    -- the gap reaches into the text, whose first character is no line end
    obtain ⟨more, rfl⟩ : separator before <+: gap :=
      List.prefix_of_prefix_length_le (List.prefix_append _ text)
        (by rw [heq]; exact List.prefix_append gap new) (by omega)
    rw [List.append_assoc, List.append_cancel_left_eq] at heq
    cases more with
    | nil => simp at hlength; omega
    | cons c more =>
      rw [heq] at hhead
      have hc := hgap c (by simp)
      simp [hc] at hhead

/-! ## The whole -/

/-- A key that is not renewed is in no new header. -/
theorem renewed_iff {key : String} (hallow : isAllowlisted key = true) :
    Renewed req key ↔
      ((adopt coerced .empty (req.frontmatter.getD .empty)).get? key).or
        ((stamps env req).get? key) ≠ none := by
  rw [get?_adopt_empty, if_pos hallow, Ne, Option.or_eq_none_iff, not_and_or, ← Ne, ← Ne,
    stamps_ne_none]
  unfold Renewed
  cases req.frontmatter with
  | none => simp
  | some d => simp; tauto

/-- A request that goes through is right where its text has no header of its own and its header has
every key of the file it adds to. -/
theorem writeNote_right_iff (folder : Folder)
    (hyaml : env.yaml.Undoes (buildDefaultFrontmatter env req)) :
    Right env req folder ↔ (Granted env req folder →
      Plain env.yaml (universal req.content) ∧
        ∀ key, (old env req folder).1.get? key ≠ none → Renewed req key) := by
  constructor
  · intro hright hgranted
    obtain ⟨r, text, htext, hok, hnote⟩ := writeNote_granted hgranted
    obtain ⟨header, hextract, hheader⟩ := extract_serialise hyaml htext
      ((old env req folder).2 ++ separator (old env req folder).2 ++ req.content)
    obtain ⟨header', body, hparsed, hkeys, hfollows⟩ := hright.written r hok
    rw [hnote, parsed, hextract, Option.some.injEq, Prod.mk.injEq] at hparsed
    obtain ⟨rfl, rfl⟩ := hparsed
    rw [universal_body] at hfollows
    have hplain : Plain env.yaml (universal req.content) := by
      by_contra hplain
      obtain ⟨p, hfenced, hbody⟩ := extractFrontmatter_of_not_plain hplain
      obtain ⟨hhead, -, hlen⟩ := fenced_eq_some hfenced
      rw [given, hbody] at hfollows
      exact not_follows hhead hlen hfollows
    refine ⟨hplain, fun key hold => ?_⟩
    rw [renewed_iff (isAllowlisted_of_old hold), ← hheader, hkeys, asked, given,
      extractFrontmatter_plain hplain]
    simpa using fun _ _ => hold
  · intro hcond
    refine ⟨fun e h => note_of_error h, fun r hok => ?_⟩
    have hgranted := granted_of_ok hok
    obtain ⟨hplain, hrenewed⟩ := hcond hgranted
    obtain ⟨r', text, htext, -, hnote⟩ := writeNote_granted hgranted
    obtain ⟨header, hextract, hheader⟩ := extract_serialise hyaml htext
      ((old env req folder).2 ++ separator (old env req folder).2 ++ req.content)
    refine ⟨header, _, by rw [hnote, parsed, hextract], fun key => ?_, ?_⟩
    · rw [hheader, asked, given, extractFrontmatter_plain hplain]
      simp only [Dict.get?_empty, Option.or_none, ← Option.or_assoc]
      cases hnew : ((adopt coerced .empty (req.frontmatter.getD .empty)).get? key).or
          ((stamps env req).get? key) with
      | some v => rfl
      | none =>
        by_contra hold
        have hkept : (old env req folder).1.get? key ≠ none := fun h => hold (by rw [h]; rfl)
        exact (renewed_iff (isAllowlisted_of_old hkept)).mp (hrenewed key hkept) hnew
    · rw [universal_body, given, extractFrontmatter_plain hplain]
      exact follows_separator _ _

end Write

/-! ## A note that is added to -/

/-- A key and its value, at the first colon that a blank follows. -/
def cutPair : List Char → Option (List Char × List Char)
  | ':' :: ' ' :: rest => some ([], rest)
  | c :: rest => (cutPair rest).map fun p => (c :: p.1, p.2)
  | [] => none

/-- YAML of pairs of texts, a line each; what starts with a digit is quoted. -/
def pairYaml : Yaml Empty Empty where
  safeLoad text := do
    let pairs ← (text.splitOn '\n').mapM cutPair
    some (.mapping (pairs.foldl (fun d p =>
      d.set (.str (String.ofList p.1)) (.str (String.ofList (p.2.filter (· ≠ '\x27'))))) .empty))
  safeDump header := do
    let lines ← header.items.mapM fun p =>
      match p.2 with
      | .str s =>
        let quoted := if (s.toList.headD ' ').isDigit then '\x27' :: (s.toList ++ ['\x27'])
          else s.toList
        some (p.1.toList ++ ':' :: ' ' :: quoted ++ ['\n'])
      | _ => none
    some lines.flatten

def noonEnv : Env Empty Empty where
  yaml := pairYaml
  checks req := .ok req.path
  utcnowIso := "2026-01-02T12:00:00+00:00"
  disk := .works
  unlinks := true
  reingest _ := .ok "a1"

def titledFolder : Folder where
  note := some (.text "---\ntitle: Plan\n---\nfirst".toList)
  tmp := none

def addRequest : WriteNoteRequest Empty Empty where
  vaultId := "v"
  path := "plan.md"
  content := "second".toList
  mode := .append

/-- The pairs of what a text loads to. -/
def Loaded.items? {κ α : Type} : Loaded κ α → Option (List (Key κ × Value α))
  | .mapping d => some d.items
  | .other => none

theorem undoes_noon (req : WriteNoteRequest Empty Empty) (hcaller : req.frontmatter = none)
    (hstamp : req.allowSynthesisInput = false) :
    noonEnv.yaml.Undoes (buildDefaultFrontmatter noonEnv req) := by
  have hheader :
      buildDefaultFrontmatter noonEnv req = buildDefaultFrontmatter noonEnv addRequest := by
    simp [buildDefaultFrontmatter, stamps, hcaller, hstamp, addRequest]
  rw [hheader]
  intro text htext
  have hdump : pairYaml.safeDump (buildDefaultFrontmatter noonEnv addRequest) =
      some "source: cerid-synthesis\ncerid:created: '2026-01-02T12:00:00+00:00'\n".toList := by
    decide +kernel
  obtain rfl := Option.some.inj (hdump.symm.trans htext)
  refine ⟨"source: cerid-synthesis\ncerid:created: '2026-01-02T12:00:00+00:00'".toList,
    by decide +kernel, by decide +kernel, by decide +kernel, ?_⟩
  have hload : (pairYaml.safeLoad
      "source: cerid-synthesis\ncerid:created: '2026-01-02T12:00:00+00:00'".toList).bind
        Loaded.items? =
      some ((buildDefaultFrontmatter noonEnv addRequest).items.map fun p => (.str p.1, p.2)) := by
    decide +kernel
  obtain ⟨loaded, hloaded, hitems⟩ := Option.bind_eq_some_iff.mp hload
  cases loaded with
  | other => simp [Loaded.items?] at hitems
  | mapping d => exact ⟨d, hloaded, Option.some.inj hitems⟩

theorem plain_second : Plain pairYaml (universal "second".toList) := by
  intro p hp
  have hnone : fenced (universal "second".toList) = none := by decide +kernel
  exact absurd (hnone.symm.trans hp) (by simp)

theorem replace_right : Right noonEnv { addRequest with mode := .overwrite } titledFolder :=
  (writeNote_right_iff titledFolder (undoes_noon _ rfl rfl)).mpr fun _ =>
    ⟨plain_second, fun _ h => absurd rfl h⟩

/-- The title of the file that is added to is gone. -/
theorem title_dropped :
    noonEnv.yaml.Undoes (buildDefaultFrontmatter noonEnv addRequest) ∧
      ¬ Right noonEnv addRequest titledFolder := by
  refine ⟨undoes_noon addRequest rfl rfl, fun hright => ?_⟩
  have hgranted : Granted noonEnv addRequest titledFolder :=
    ⟨⟨"plan.md", rfl⟩, by simp [addRequest], by decide +kernel, by simp [addRequest],
      by simp [titledFolder], rfl⟩
  obtain ⟨r, -, -, hok, -⟩ := writeNote_granted hgranted
  obtain ⟨header, body, hparsed, hkeys, -⟩ := hright.written r hok
  have hnone : (parsed noonEnv (writeNote noonEnv addRequest titledFolder).2.note).bind
      (fun p => p.1.get? "title") = none := by decide +kernel
  have hsome : asked noonEnv addRequest titledFolder "title" ≠ none := by decide +kernel
  rw [hparsed] at hnone
  exact hsome ((hkeys "title").symm.trans hnone)

end Cerid.Vault
