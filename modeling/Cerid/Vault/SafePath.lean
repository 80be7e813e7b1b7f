import Cerid.Lib.Links
import Cerid.Vault.WriteNote
import Mathlib.Data.List.Infix
import Mathlib.Logic.Function.Basic

/-!
# Where a note is written

The path of a request is resolved under the root of its vault, links included, and refused
where it leads out or into a folder that is not written to.  `writeNoteAt` is the write in a
tree of files and links.  It changes nothing outside the vault, unless a link stands where the
temporary file goes (`write_confined`); at the file of the note it is `writeNote`.
-/

namespace Cerid.Vault

open Text
open Links (Segment resolve)

abbrev Name := List Char

/-- The names from the root of the disk. -/
abbrev Path := List Name

/-! ## Trees -/

inductive Node where
  | dir
  | file (contents : Contents)
  | link (target : Links.Target Name)

/-- What stands at the paths. -/
abbrev Tree := Path → Option Node

namespace Tree

/-- The root of the disk is there. -/
def node (t : Tree) (p : Path) : Option Node := if p = [] then some .dir else t p

def link (t : Tree) (p : Path) : Option (Links.Target Name) :=
  match t.node p with
  | some (.link target) => some target
  | _ => none

def isDir (t : Tree) (p : Path) : Bool :=
  match t.node p with
  | some .dir => true
  | _ => false

def file (t : Tree) (p : Path) : File :=
  match t.node p with
  | some (.file contents) => some contents
  | _ => none

def set (t : Tree) (p : Path) (n : Option Node) : Tree := Function.update t p n

/-- Whatever is there stands in a folder. -/
def WellFormed (t : Tree) : Prop := ∀ p n, t (p ++ [n]) ≠ none → t.node p = some .dir

end Tree

/-! ## The path of a request -/

inductive PathError where
  | notVault | noRoot | empty | absolute | notRelative | noName | loop | outside | notRegular
  | skipped (rel : List Char)
  | attachment (rel : List Char)
  deriving DecidableEq, Repr

/-- What is said of a request for a path in a vault; `repr` quotes a text. -/
def PathError.message (repr : List Char → String) (vaultId vaultPath path : List Char) :
    PathError → String
  | notVault => "Folder " ++ repr vaultId ++ " is not registered as a vault — " ++
      "set is_vault=True on the watched-folder before writing."
  | noRoot => "Vault root not accessible: " ++ repr vaultPath
  | empty => "path must not be empty"
  | absolute => "path must be relative, got absolute: " ++ repr path
  | notRelative => "path must be relative"
  | noName => "has an empty name"
  | loop => "Symlink loop"
  | outside => "path resolves outside vault root: " ++ repr path
  | notRegular => "path exists but is not a regular file: " ++ repr path
  | skipped rel => "path " ++ repr rel ++ " resolves to a templates/skip folder — " ++
      "Cerid will not write notes there."
  | attachment rel => "path " ++ repr rel ++ " resolves to an attachments folder — " ++
      "Cerid will not write markdown notes there."

/-- The parts of `Path`. -/
def parts (text : List Char) : List Name :=
  (text.splitOn '/').filter (fun s => s ≠ [] ∧ s ≠ ['.'])

def segment (part : Name) : Segment Name := if part = ['.', '.'] then .parent else .name part

/-- `Path.suffix`, of a name. -/
def suffix (name : Name) : Name :=
  let ext := name.rtakeWhile (· ≠ '.')
  if ext ≠ [] ∧ ext.length + 1 < name.length then '.' :: ext else []

/-- A candidate with `.md` where it has no suffix; there is no name to put it to in an empty
path. -/
def withMd (candidate : List Name) : Option (List Name) :=
  candidate.getLast?.map fun name =>
    if suffix name = [] then candidate.dropLast ++ [name ++ ".md".toList] else candidate

/-- The record of a watched folder. -/
structure Record where
  isVault : Bool
  path : List Char

/-- The folders of `VaultProfile`, in lower case. -/
structure Profile where
  mocs : List Name
  daily : List Name
  templates : List Name
  attachments : List Name
  skip : List Name

inductive PathClassification where
  | skip | moc | daily | attachment | regular
  deriving DecidableEq, Repr

section Checks

variable (lower : List Char → List Char)

/-- The first component of a path that was normalised. -/
def topFolder (relPath : List Char) : List Char :=
  let normalised := relPath.map (fun c => if c = '\\' then '/' else c)
  let normalised := if ['.', '/'].isPrefixOf normalised then normalised.drop 2 else normalised
  lower ((normalised.dropWhile (· = '/')).takeWhile (· ≠ '/'))

/-- `classify_path`. -/
def classifyPath (profile : Profile) (relPath : List Char) : PathClassification :=
  let first := topFolder lower relPath
  if first = [] then .regular
  else if first ∈ profile.skip ∨ first ∈ profile.templates then .skip
  else if first ∈ profile.mocs then .moc
  else if first ∈ profile.daily then .daily
  else if first ∈ profile.attachments then .attachment
  else .regular

def relText (rel : Path) : List Char := ['/'].intercalate rel

def absText (p : Path) : List Char := '/' :: relText p

variable (depth : Nat) (t : Tree)

/-- `Path.resolve` of an absolute path. -/
def resolved (text : List Char) : Option Path :=
  resolve t.link depth [] ((parts text).map segment)

/-- The root that `_load_vault` has checked. -/
def loadVault (record : Record) : Except PathError Path :=
  if record.isVault = false then .error .notVault
  else
    match resolved depth t record.path with
    | none => .error .noRoot
    | some root => if record.path ≠ [] ∧ t.isDir root then .ok root else .error .noRoot

/-- `_resolve_safe_path`: the path, and what of it is under the root. -/
def resolveSafePath (root : Path) (relPath : List Char) : Except PathError (Path × Path) :=
  let raw := strip relPath
  let clean := (raw.dropWhile (· = '/')).dropWhile (· = '\\')
  if raw = [] then .error .empty
  else if raw.head? = some '/' then .error .absolute
  else if clean = [] then .error .notRelative
  else if clean.head? = some '/' then .error .absolute
  else
    match withMd (parts clean) with
    | none => .error .noName
    | some candidate =>
      match resolve t.link depth [] (root.map .name ++ candidate.map segment) with
      | none => .error .loop
      | some combined =>
        if ¬ root <+: combined then .error .outside
        else
          match t.node combined with
          | none | some (.file _) => .ok (combined, combined.drop root.length)
          | _ => .error .notRegular

/-- `_reject_disallowed_classification`. -/
def rejectClassification (profile : Profile) (rel : Path) : Except PathError Unit :=
  match classifyPath lower profile (relText rel) with
  | .skip => .error (.skipped (relText rel))
  | .attachment => .error (.attachment (relText rel))
  | _ => .ok ()

/-- What is checked of a request before anything is written. -/
def safePath (record : Record) (profile : Profile) (relPath : List Char) :
    Except PathError (Path × Path) := do
  let root ← loadVault depth t record
  let paths ← resolveSafePath depth t root relPath
  rejectClassification lower profile paths.2
  return paths

end Checks

/-! ## Writing in a tree -/

/-- The folders of a path, the outermost first. -/
def folders (p : Path) : List Path := p.dropLast.inits.tail

/-- `Path.mkdir` with its parents. -/
def mkdirs : List Path → Tree → Bool × Tree
  | [], t => (true, t)
  | folder :: rest, t =>
    match t.node folder with
    | none => mkdirs rest (t.set folder (some .dir))
    | some .dir => mkdirs rest t
    | some _ => (false, t)

def tmpPath (p : Path) : Path := p.dropLast ++ [p.getLast?.getD [] ++ ".tmp".toList]

section Write

variable (depth : Nat)

/-- Where the file of a path is, through a link at its end. -/
def opened (t : Tree) (p : Path) : Option Path :=
  match t.link p with
  | some _ => resolve t.link depth [] (p.map .name)
  | none => some p

/-- `Path.write_text`. -/
def writeText (t : Tree) (p : Path) (contents : Contents) : Option Tree :=
  match opened depth t p with
  | none => none
  | some q =>
    match t.node q with
    | none | some (.file _) =>
      if t.isDir q.dropLast then some (t.set q (some (.file contents))) else none
    | _ => none

def present (t : Tree) (p : Path) : Bool :=
  match opened depth t p with
  | none => false
  | some q => (t.node q).isSome

/-- The end of `_atomic_write`, whichever way it was reached. -/
def cleaned (unlinks : Bool) (t : Tree) (tmp : Path) : Tree :=
  if unlinks && present depth t tmp then t.set tmp none else t

/-- `os.replace` of the temporary file. -/
def replace (t : Tree) (p : Path) : Option Tree :=
  if t.isDir p then none else some ((t.set p (t.node (tmpPath p))).set (tmpPath p) none)

/-- `_atomic_write`, once the folders are there. -/
def writeInFolder (disk : Disk) (unlinks : Bool) (t : Tree) (p : Path) (payload : List Char) :
    Except WriteError Unit × Tree :=
  match disk with
  | .noFolder => (.error .osError, t)
  | .noWrite left =>
    let after := (left.bind (writeText depth t (tmpPath p))).getD t
    (.error .osError, cleaned depth unlinks after (tmpPath p))
  | .noRename =>
    let after := (writeText depth t (tmpPath p) (.text payload)).getD t
    (.error .osError, cleaned depth unlinks after (tmpPath p))
  | .works =>
    match writeText depth t (tmpPath p) (.text payload) with
    | none => (.error .osError, cleaned depth unlinks t (tmpPath p))
    | some after =>
      match replace after p with
      | none => (.error .osError, cleaned depth unlinks after (tmpPath p))
      | some after => (.ok (), after)

def atomicWriteAt (disk : Disk) (unlinks : Bool) (t : Tree) (p : Path) (payload : List Char) :
    Except WriteError Unit × Tree :=
  match disk with
  | .noFolder => (.error .osError, t)
  | disk =>
    let made := mkdirs (folders p) t
    if made.1 then writeInFolder depth disk unlinks made.2 p payload
    else (.error .osError, made.2)

variable {κ α : Type} (env : Env κ α) (req : WriteNoteRequest κ α)

/-- What is left of `write_note` behind its checks. -/
def writeChecked (t : Tree) (paths : Path × Path) :
    Except WriteError (WriteNoteResult α) × Tree :=
  match req.mode with
  | .other name => (.error (.unsupportedMode name), t)
  | _ =>
    match env.yaml.safeDump (buildDefaultFrontmatter env req) with
    | none => (.error .notRepresentable, t)
    | some body =>
      match payload env req (String.ofList (relText paths.2)) (t.file paths.1)
        (serialiseFrontmatter body) with
      | .error e => (.error e, t)
      | .ok payload =>
        match atomicWriteAt depth env.disk env.unlinks t paths.1 payload with
        | (.error e, after) => (.error e, after)
        | (.ok (), after) => (.ok (result env req (String.ofList (absText paths.1)) payload), after)

variable (lower : List Char → List Char) (repr : List Char → String) (record : Record)
  (profile : Profile)

/-- `write_note`, in a tree. -/
def writeNoteAt (t : Tree) : Except WriteError (WriteNoteResult α) × Tree :=
  match safePath lower depth t record profile req.path.toList with
  | .error e =>
    (.error (.rejected (e.message repr req.vaultId.toList record.path req.path.toList)), t)
  | .ok paths => writeChecked depth env req t paths

end Write

/-! ## What is checked -/

section Checked

variable {depth : Nat} {t : Tree} {lower : List Char → List Char}

theorem resolveSafePath_ok {root : Path} {relPath : List Char} {paths : Path × Path}
    (h : resolveSafePath depth t root relPath = .ok paths) :
    ∃ rest, paths = (root ++ rest, rest) ∧ Links.Plain t.link (root ++ rest) ∧
      (t.node (root ++ rest) = none ∨ ∃ c, t.node (root ++ rest) = some (.file c)) := by
  unfold resolveSafePath at h
  dsimp only at h
  split at h
  · cases h
  split at h
  · cases h
  split at h
  · cases h
  split at h
  · cases h
  split at h
  · cases h
  split at h
  · cases h
  next combined hcombined =>
    by_cases hin : root <+: combined
    · rw [if_neg (not_not_intro hin)] at h
      obtain ⟨rest, rfl⟩ := hin
      have hplain := Links.resolve_plain Links.plain_nil hcombined
      rw [List.drop_left] at h
      split at h
      · next hnode =>
        cases h
        exact ⟨rest, rfl, hplain, Or.inl hnode⟩
      · next c hnode =>
        cases h
        exact ⟨rest, rfl, hplain, Or.inr ⟨c, hnode⟩⟩
      · cases h
    · rw [if_pos hin] at h
      cases h

variable {record : Record} {profile : Profile}

theorem loadVault_isDir {root : Path} (h : loadVault depth t record = .ok root) :
    t.isDir root = true := by
  unfold loadVault at h
  split at h
  · cases h
  split at h
  · cases h
  split at h
  · next hok =>
    cases h
    exact hok.2
  · cases h

theorem rejectClassification_ok {rel : Path} {u : Unit}
    (h : rejectClassification lower profile rel = .ok u) :
    classifyPath lower profile (relText rel) ≠ .skip ∧
      classifyPath lower profile (relText rel) ≠ .attachment := by
  unfold rejectClassification at h
  constructor
  · intro hclass
    rw [hclass] at h
    cases h
  · intro hclass
    rw [hclass] at h
    cases h

/-- A path that passes is one under the root of the vault, met by no link, where there is no
file or a regular one, in a folder that is written to. -/
theorem safePath_ok {relPath : List Char} {paths : Path × Path}
    (h : safePath lower depth t record profile relPath = .ok paths) :
    ∃ root rest, loadVault depth t record = .ok root ∧ t.isDir root = true ∧
      paths = (root ++ rest, rest) ∧ rest ≠ [] ∧ Links.Plain t.link (root ++ rest) ∧
      (t.node (root ++ rest) = none ∨ ∃ c, t.node (root ++ rest) = some (.file c)) ∧
      classifyPath lower profile (relText rest) ≠ .skip ∧
      classifyPath lower profile (relText rest) ≠ .attachment := by
  unfold safePath at h
  cases hroot : loadVault depth t record with
  | error e =>
    rw [hroot] at h
    cases h
  | ok root =>
    cases hpaths : resolveSafePath depth t root relPath with
    | error e =>
      simp only [hroot, hpaths, bind, Except.bind] at h
      cases h
    | ok paths' =>
      obtain ⟨rest, rfl, hplain, hnode⟩ := resolveSafePath_ok hpaths
      simp only [hroot, hpaths, bind, Except.bind] at h
      cases hreject : rejectClassification lower profile rest with
      | error e =>
        rw [hreject] at h
        cases h
      | ok u =>
        rw [hreject] at h
        cases h
        have hdir := loadVault_isDir hroot
        refine ⟨root, rest, rfl, hdir, rfl, ?_, hplain, hnode, rejectClassification_ok hreject⟩
        rintro rfl
        rw [List.append_nil] at hnode
        unfold Tree.isDir at hdir
        rcases hnode with hnode | ⟨c, hnode⟩
        · rw [hnode] at hdir
          cases hdir
        · rw [hnode] at hdir
          cases hdir

end Checked

/-! ## What a write changes -/

namespace Tree

theorem set_self (t : Tree) (p : Path) (n : Option Node) : t.set p n p = n :=
  Function.update_self ..

theorem set_of_ne {t : Tree} {p q : Path} (h : q ≠ p) (n : Option Node) : t.set p n q = t q :=
  Function.update_of_ne h ..

theorem node_of_ne_nil {t : Tree} {p : Path} (h : p ≠ []) : t.node p = t p := if_neg h

theorem node_set_of_ne {t : Tree} {p q : Path} (h : q ≠ p) (n : Option Node) :
    (t.set p n).node q = t.node q := by
  unfold node
  rw [set_of_ne h]

theorem isDir_iff {t : Tree} {p : Path} : t.isDir p = true ↔ t.node p = some .dir := by
  unfold isDir
  split
  · next h => simp [h]
  · next h =>
    constructor
    · intro h'
      cases h'
    · intro h'
      exact absurd h' h

/-- The folders above what is there are there. -/
theorem WellFormed.isDir {t : Tree} (h : t.WellFormed) {p q : Path} (hp : t.isDir p = true)
    (hq : q <+: p) : t.isDir q = true := by
  induction p using List.reverseRecOn with
  | nil =>
    obtain rfl := List.prefix_nil.mp hq
    exact hp
  | append_singleton p n ih =>
    rcases List.prefix_concat_iff.mp hq with rfl | hq
    · exact hp
    · have hnode : t (p ++ [n]) = some .dir := by
        rw [← node_of_ne_nil (t := t) (p := p ++ [n]) (by simp)]
        exact isDir_iff.mp hp
      exact ih (isDir_iff.mpr (h p n (by simp [hnode]))) hq

end Tree

theorem mkdirs_changes {t : Tree} {fs : List Path} {q : Path} (h : (mkdirs fs t).2 q ≠ t q) :
    q ∈ fs ∧ t.node q = none := by
  induction fs generalizing t with
  | nil => exact absurd rfl h
  | cons folder rest ih =>
    rw [mkdirs] at h
    cases hnode : t.node folder with
    | none =>
      rw [hnode] at h
      by_cases hq : q = folder
      · subst hq
        exact ⟨List.mem_cons_self, hnode⟩
      · rw [← Tree.set_of_ne (t := t) hq (some .dir)] at h
        obtain ⟨hmem, hnone⟩ := ih h
        rw [Tree.node_set_of_ne hq] at hnone
        exact ⟨List.mem_cons_of_mem _ hmem, hnone⟩
    | some n =>
      rw [hnode] at h
      cases n with
      | dir =>
        obtain ⟨hmem, hnone⟩ := ih h
        exact ⟨List.mem_cons_of_mem _ hmem, hnone⟩
      | file c => exact absurd rfl h
      | link target => exact absurd rfl h

theorem mkdirs_node {t : Tree} {fs : List Path} {q : Path} :
    (mkdirs fs t).2.node q = t.node q ∨ (mkdirs fs t).2.node q = some .dir := by
  induction fs generalizing t with
  | nil => exact Or.inl rfl
  | cons folder rest ih =>
    rw [mkdirs]
    cases hnode : t.node folder with
    | none =>
      dsimp only
      by_cases hq : q = folder
      · subst hq
        refine Or.inr (ih.elim (fun h => h.trans ?_) id)
        have hne : q ≠ [] := by
          rintro rfl
          cases hnode
        rw [Tree.node_of_ne_nil hne, Tree.set_self]
      · exact ih.imp (fun h => h.trans (Tree.node_set_of_ne hq _)) id
    | some n =>
      cases n with
      | dir => exact ih
      | file c => exact Or.inl rfl
      | link target => exact Or.inl rfl

theorem mkdirs_link {t : Tree} {fs : List Path} {q : Path} (h : t.link q = none) :
    (mkdirs fs t).2.link q = none := by
  unfold Tree.link at h ⊢
  have hnode : (mkdirs fs t).2.node q = t.node q ∨ (mkdirs fs t).2.node q = some .dir :=
    mkdirs_node
  rcases hnode with hq | hq
  · rw [hq]
    exact h
  · rw [hq]

section Changes

variable {depth : Nat}

theorem opened_of_link {t : Tree} {p : Path} (h : t.link p = none) : opened depth t p = some p := by
  unfold opened
  rw [h]

theorem writeText_eq {t t' : Tree} {p : Path} {c : Contents} (h : t.link p = none)
    (hw : writeText depth t p c = some t') : t' = t.set p (some (.file c)) := by
  unfold writeText at hw
  rw [opened_of_link h] at hw
  dsimp only at hw
  split at hw
  · split at hw
    · exact (Option.some.inj hw).symm
    · cases hw
  · split at hw
    · exact (Option.some.inj hw).symm
    · cases hw
  · cases hw

theorem cleaned_of_ne {unlinks : Bool} {t : Tree} {tmp q : Path} (h : q ≠ tmp) :
    cleaned depth unlinks t tmp q = t q := by
  unfold cleaned
  split
  · exact Tree.set_of_ne h _
  · rfl

theorem writeText_of_ne {t : Tree} {p q : Path} {c : Contents} (h : t.link p = none) (hq : q ≠ p) :
    ((writeText depth t p c).getD t) q = t q := by
  cases hw : writeText depth t p c with
  | none => rfl
  | some t' =>
    rw [writeText_eq h hw]
    exact Tree.set_of_ne hq _

/-- Where no link stands at the temporary file, only it and the file of the note change. -/
theorem writeInFolder_of_ne {disk : Disk} {unlinks : Bool} {t : Tree} {p q : Path}
    {payload : List Char} (h : t.link (tmpPath p) = none) (hp : q ≠ p) (htmp : q ≠ tmpPath p) :
    (writeInFolder depth disk unlinks t p payload).2 q = t q := by
  cases disk with
  | noFolder => rfl
  | noRename => exact (cleaned_of_ne htmp).trans (writeText_of_ne h htmp)
  | noWrite left =>
    refine (cleaned_of_ne htmp).trans ?_
    cases left with
    | none => rfl
    | some c => exact writeText_of_ne h htmp
  | works =>
    unfold writeInFolder
    cases hw : writeText depth t (tmpPath p) (.text payload) with
    | none => exact cleaned_of_ne htmp
    | some after =>
      have hafter : after q = t q := by
        rw [writeText_eq h hw]
        exact Tree.set_of_ne htmp _
      dsimp only
      cases hr : replace after p with
      | none => exact (cleaned_of_ne htmp).trans hafter
      | some renamed =>
        unfold replace at hr
        split at hr
        · cases hr
        · cases hr
          exact (Tree.set_of_ne htmp _).trans ((Tree.set_of_ne hp _).trans hafter)

/-- A write changes the file of the note, the temporary one and folders that were not
there. -/
theorem atomicWriteAt_changes {disk : Disk} {unlinks : Bool} {t : Tree} {p q : Path}
    {payload : List Char} (h : t.link (tmpPath p) = none)
    (hq : (atomicWriteAt depth disk unlinks t p payload).2 q ≠ t q) :
    q = p ∨ q = tmpPath p ∨ q ∈ folders p ∧ t.node q = none := by
  by_contra hnot
  rw [not_or, not_or] at hnot
  obtain ⟨hp, htmp, hfolder⟩ := hnot
  have hmade : (mkdirs (folders p) t).2 q = t q := by
    by_contra hne
    exact hfolder (mkdirs_changes hne)
  have hwritten : ∀ disk,
      (writeInFolder depth disk unlinks (mkdirs (folders p) t).2 p payload).2 q = t q :=
    fun disk => (writeInFolder_of_ne (mkdirs_link h) hp htmp).trans hmade
  apply hq
  unfold atomicWriteAt
  cases disk with
  | noFolder => rfl
  | works =>
    dsimp only
    split
    · exact hwritten .works
    · exact hmade
  | noRename =>
    dsimp only
    split
    · exact hwritten .noRename
    · exact hmade
  | noWrite left =>
    dsimp only
    split
    · exact hwritten (.noWrite left)
    · exact hmade

end Changes

/-! ## Confinement -/

section Confined

variable {κ α : Type} (depth : Nat) (env : Env κ α) (req : WriteNoteRequest κ α)
  (lower : List Char → List Char) (repr : List Char → String) (record : Record)
  (profile : Profile)

/-- The text that comes to be written, if a write comes to that. -/
def written (path : String) (note : File) : Option (List Char) :=
  match req.mode with
  | .other _ => none
  | _ =>
    (env.yaml.safeDump (buildDefaultFrontmatter env req)).bind fun body =>
      (payload env req path note (serialiseFrontmatter body)).toOption

theorem writeChecked_tree (t : Tree) (paths : Path × Path) :
    (writeChecked depth env req t paths).2 =
      (written env req (String.ofList (relText paths.2)) (t.file paths.1)).elim t (fun text =>
        (atomicWriteAt depth env.disk env.unlinks t paths.1 text).2) := by
  unfold writeChecked written
  split
  · rfl
  · cases env.yaml.safeDump (buildDefaultFrontmatter env req) with
    | none => rfl
    | some body =>
      dsimp only [Option.bind_some]
      cases payload env req (String.ofList (relText paths.2)) (t.file paths.1)
        (serialiseFrontmatter body) with
      | error e => rfl
      | ok text =>
        dsimp only [Except.toOption, Option.elim]
        split
        · next h => rw [h]
        · next h => rw [h]

/-- Whatever links the vault holds and whatever path is asked for, all that a write changes is
under the root of the vault: the file of the note, its temporary file, and folders that were
not there.  No link may stand at the temporary file. -/
theorem write_confined (t : Tree) (hwf : t.WellFormed)
    (htmp : ∀ paths, safePath lower depth t record profile req.path.toList = .ok paths →
      t.link (tmpPath paths.1) = none)
    (q : Path)
    (hq : (writeNoteAt depth env req lower repr record profile t).2 q ≠ t q) :
    ∃ root paths, loadVault depth t record = .ok root ∧
      safePath lower depth t record profile req.path.toList = .ok paths ∧
      root <+: q ∧ q ≠ root ∧
      (q = paths.1 ∨ q = tmpPath paths.1 ∨ q ∈ folders paths.1 ∧ t.node q = none) := by
  unfold writeNoteAt at hq
  cases hpaths : safePath lower depth t record profile req.path.toList with
  | error e =>
    rw [hpaths] at hq
    exact absurd rfl hq
  | ok paths =>
    rw [hpaths] at hq
    dsimp only at hq
    have hlink := htmp paths hpaths
    obtain ⟨root, rest, hroot, hdir, rfl, hrest, -⟩ := safePath_ok hpaths
    have hchange : q = root ++ rest ∨ q = tmpPath (root ++ rest) ∨
        q ∈ folders (root ++ rest) ∧ t.node q = none := by
      rw [writeChecked_tree] at hq
      cases hw : written env req (String.ofList (relText rest)) (t.file (root ++ rest)) with
      | none =>
        rw [hw] at hq
        exact absurd rfl hq
      | some text =>
        rw [hw] at hq
        exact atomicWriteAt_changes hlink hq
    have hunder : root <+: q ∧ q ≠ root := by
      have hdrop : (root ++ rest).dropLast = root ++ rest.dropLast :=
        List.dropLast_append_of_ne_nil hrest
      rcases hchange with rfl | rfl | ⟨hmem, hnone⟩
      · exact ⟨List.prefix_append _ _, by simpa using hrest⟩
      · unfold tmpPath
        rw [hdrop, List.append_assoc]
        exact ⟨List.prefix_append _ _, by simp⟩
      · have hpre : q <+: root ++ rest.dropLast := by
          rw [← hdrop]
          exact List.mem_inits _ _ |>.mp (List.mem_of_mem_tail hmem)
        have hnot : ¬ q <+: root := by
          intro h
          have hq' := Tree.isDir_iff.mp (hwf.isDir hdir h)
          rw [hnone] at hq'
          cases hq'
        refine ⟨?_, fun h => hnot (h ▸ List.prefix_refl _)⟩
        exact (List.prefix_or_prefix_of_prefix hpre (List.prefix_append _ _)).resolve_left hnot
    exact ⟨root, _, hroot, rfl, hunder.1, hunder.2, hchange⟩

end Confined

/-- One folder, `v`. -/
def vaultTree : Tree := fun p => if p = [['v']] then some .dir else none

def vaultRecord : Record := ⟨true, ['/', 'v']⟩

def bareProfile : Profile := ⟨[], [], [], [], []⟩

theorem write_confined_vault :
    ∃ root paths, loadVault 0 vaultTree vaultRecord = .ok root ∧
      safePath id 0 vaultTree vaultRecord bareProfile addRequest.path.toList = .ok paths ∧
      root <+: [['v'], "plan.md".toList] ∧ [['v'], "plan.md".toList] ≠ root ∧
      ([['v'], "plan.md".toList] = paths.1 ∨ [['v'], "plan.md".toList] = tmpPath paths.1 ∨
        [['v'], "plan.md".toList] ∈ folders paths.1 ∧
          vaultTree.node [['v'], "plan.md".toList] = none) := by
  refine write_confined 0 noonEnv addRequest id String.ofList vaultRecord bareProfile vaultTree
    ?_ ?_ [['v'], "plan.md".toList] ?_
  · intro p n hn
    have hroot : p ++ [n] = [['v']] := by
      by_contra hne
      exact hn (if_neg hne)
    have hp : p = [] := by
      have hlen := congrArg List.length hroot
      rw [List.length_append] at hlen
      exact List.eq_nil_of_length_eq_zero (Nat.succ.inj hlen)
    rw [hp]
    rfl
  · intro paths _
    generalize tmpPath paths.1 = p
    have hnode : vaultTree.node p = none ∨ vaultTree.node p = some .dir := by
      unfold Tree.node vaultTree
      split
      · exact Or.inr rfl
      · split
        · exact Or.inr rfl
        · exact Or.inl rfl
    unfold Tree.link
    rcases hnode with h | h
    · rw [h]
    · rw [h]
  · intro hsame
    have hsome : ((writeNoteAt 0 noonEnv addRequest id String.ofList vaultRecord bareProfile
        vaultTree).2 [['v'], "plan.md".toList]).isSome = true := by
      decide +kernel
    rw [hsame] at hsome
    exact absurd hsome (by decide +kernel)

/-- A link at the temporary file is written through: what is outside changes. -/
example :
    (writeNoteAt 1 noonEnv addRequest id String.ofList vaultRecord bareProfile
      ((vaultTree.set [['o']] (some .dir)).set [['v'], "plan.md.tmp".toList]
        (some (.link ⟨true, [.name ['o'], .name ['x']]⟩)))).2.file [['o'], ['x']] ≠ none := by
  decide +kernel

/-! ## A note in its folder -/

section Note

variable {depth : Nat}

theorem mkdirs_made {t : Tree} {fs : List Path} (h : (mkdirs fs t).1 = true) {f : Path}
    (hf : f ∈ fs) : (mkdirs fs t).2.isDir f = true := by
  induction fs generalizing t with
  | nil => cases hf
  | cons folder rest ih =>
    have hkept : ∀ t' : Tree, t'.isDir folder = true → (mkdirs rest t').2.isDir folder = true := by
      intro t' hdir
      rw [Tree.isDir_iff] at hdir ⊢
      exact mkdirs_node.elim (fun h => h.trans hdir) id
    rw [mkdirs] at h ⊢
    cases hnode : t.node folder with
    | none =>
      rw [hnode] at h
      dsimp only at h ⊢
      rcases List.mem_cons.mp hf with rfl | hf
      · refine hkept _ ?_
        have hne : f ≠ [] := by
          rintro rfl
          cases hnode
        rw [Tree.isDir_iff, Tree.node_of_ne_nil hne, Tree.set_self]
      · exact ih h hf
    | some n =>
      rw [hnode] at h
      cases n with
      | dir =>
        dsimp only at h ⊢
        rcases List.mem_cons.mp hf with rfl | hf
        · exact hkept t (Tree.isDir_iff.mpr hnode)
        · exact ih h hf
      | file c => cases h
      | link target => cases h

theorem tmpPath_ne {p : Path} (hp : p ≠ []) : tmpPath p ≠ p := by
  intro h
  have hlast := congrArg List.getLast? h
  unfold tmpPath at hlast
  rw [List.getLast?_concat, List.getLast?_eq_some_getLast hp, Option.getD_some] at hlast
  have hlen := congrArg List.length (Option.some.inj hlast)
  rw [List.length_append] at hlen
  have htmp : ".tmp".toList.length = 4 := rfl
  omega

theorem length_of_mem_folders {p q : Path} (hp : p ≠ []) (h : q ∈ folders p) :
    q.length < p.length := by
  have hlen := ((List.mem_inits _ _).mp (List.mem_of_mem_tail h)).length_le
  rw [List.length_dropLast] at hlen
  have hpos := List.length_pos_of_ne_nil hp
  omega

theorem length_tmpPath {p : Path} (hp : p ≠ []) : (tmpPath p).length = p.length := by
  have hpos := List.length_pos_of_ne_nil hp
  unfold tmpPath
  rw [List.length_append, List.length_dropLast, List.length_singleton]
  omega

/-- What is as deep as the note is not made. -/
theorem mkdirs_of_length {t : Tree} {p q : Path} (hp : p ≠ []) (hq : q.length = p.length) :
    (mkdirs (folders p) t).2.node q = t.node q := by
  have hsame : (mkdirs (folders p) t).2 q = t q := by
    by_contra hne
    have hlt := length_of_mem_folders hp (mkdirs_changes hne).1
    omega
  unfold Tree.node
  rw [hsame]

theorem isDir_of_made {t : Tree} {p : Path} (h : (mkdirs (folders p) t).1 = true) :
    (mkdirs (folders p) t).2.isDir p.dropLast = true := by
  cases hdrop : p.dropLast with
  | nil => rfl
  | cons n rest =>
    refine mkdirs_made h ?_
    unfold folders
    rw [hdrop, List.inits_cons, List.tail_cons]
    exact List.mem_map_of_mem ((List.mem_inits rest rest).mpr (List.prefix_refl rest))

theorem writeText_works {t : Tree} {p : Path} {c : Contents} (hlink : t.link p = none)
    (hdir : t.isDir p = false) (hparent : t.isDir p.dropLast = true) :
    writeText depth t p c = some (t.set p (some (.file c))) := by
  unfold writeText
  rw [opened_of_link hlink]
  dsimp only
  unfold Tree.link at hlink
  unfold Tree.isDir at hdir
  cases hnode : t.node p with
  | none => rw [if_pos hparent]
  | some n =>
    cases n with
    | dir => simp [hnode] at hdir
    | link target => simp [hnode] at hlink
    | file c' => rw [if_pos hparent]

/-- Where nothing is in the way the file holds what was to be written. -/
theorem atomicWriteAt_note {unlinks : Bool} {t : Tree} {p : Path} {text : List Char} (hp : p ≠ [])
    (hmade : (mkdirs (folders p) t).1 = true) (hdir : t.isDir p = false)
    (hlink : t.link (tmpPath p) = none) (htmp : t.isDir (tmpPath p) = false) :
    (atomicWriteAt depth .works unlinks t p text).1 = .ok () ∧
      (atomicWriteAt depth .works unlinks t p text).2.file p = some (.text text) := by
  have hne : p ≠ tmpPath p := fun h => tmpPath_ne hp h.symm
  have htmp' : (mkdirs (folders p) t).2.isDir (tmpPath p) = false := by
    unfold Tree.isDir at htmp ⊢
    rw [mkdirs_of_length hp (length_tmpPath hp)]
    exact htmp
  have hdir' : ((mkdirs (folders p) t).2.set (tmpPath p) (some (.file (.text text)))).isDir p =
      false := by
    unfold Tree.isDir at hdir ⊢
    rw [Tree.node_set_of_ne hne, mkdirs_of_length hp rfl]
    exact hdir
  have hparent : (mkdirs (folders p) t).2.isDir (tmpPath p).dropLast = true := by
    unfold tmpPath
    rw [List.dropLast_concat]
    exact isDir_of_made hmade
  have hfile : ∀ (t' : Tree), ((t'.set p (some (.file (.text text)))).set (tmpPath p) none).file p =
      some (.text text) := by
    intro t'
    unfold Tree.file
    rw [Tree.node_set_of_ne hne, Tree.node_of_ne_nil hp, Tree.set_self]
  have htmpne : tmpPath p ≠ [] := by simp [tmpPath]
  unfold atomicWriteAt writeInFolder
  dsimp only
  rw [if_pos hmade, writeText_works (mkdirs_link hlink) htmp' hparent]
  dsimp only
  unfold replace
  rw [hdir', if_neg Bool.false_ne_true, Tree.node_of_ne_nil htmpne, Tree.set_self]
  exact ⟨rfl, hfile _⟩

variable {κ α : Type} (env : Env κ α) (req : WriteNoteRequest κ α)

theorem written_path (path path' : String) (note : File) :
    written env req path note = written env req path' note := by
  have hpay : ∀ fmBlock, (payload env req path note fmBlock).toOption =
      (payload env req path' note fmBlock).toOption := by
    intro fmBlock
    unfold payload
    cases req.mode with
    | other name => rfl
    | overwrite => rfl
    | create =>
      cases note with
      | none => rfl
      | some c => rfl
    | append =>
      cases note with
      | none => rfl
      | some c =>
        cases c with
        | text raw => rfl
        | undecodable => rfl
  unfold written
  simp only [hpay]

theorem writeNote_folder {path : String} (hchecks : env.checks req = .ok path) (folder : Folder) :
    (writeNote env req folder).2 =
      (written env req path folder.note).elim folder (fun text =>
        (atomicWrite env folder text).2) := by
  unfold writeNote written
  rw [hchecks]
  dsimp only
  cases req.mode with
  | other name => rfl
  | create | overwrite | append =>
    dsimp only
    cases env.yaml.safeDump (buildDefaultFrontmatter env req) with
    | none => rfl
    | some body =>
      dsimp only [Option.bind_some]
      cases payload env req path folder.note (serialiseFrontmatter body) with
      | error e => rfl
      | ok text =>
        dsimp only [Except.toOption, Option.elim]
        split
        · next h => rw [h]
        · next h => rw [h]

/-- Where nothing is in the way, the file of the note becomes what `writeNote` makes of it. -/
theorem writeChecked_note {t : Tree} {paths : Path × Path} (path : String)
    (hworks : env.disk = .works) (hp : paths.1 ≠ [])
    (hmade : (mkdirs (folders paths.1) t).1 = true) (hdir : t.isDir paths.1 = false)
    (hlink : t.link (tmpPath paths.1) = none) (htmp : t.isDir (tmpPath paths.1) = false) :
    (writeChecked depth env req t paths).2.file paths.1 =
      (writeNote { env with checks := fun _ => .ok path } req
        ⟨t.file paths.1, t.file (tmpPath paths.1)⟩).2.note := by
  have hsame : ∀ note, written { env with checks := fun _ => .ok path } req path note =
      written env req path note := fun _ => rfl
  rw [writeChecked_tree, writeNote_folder { env with checks := fun _ => .ok path } req rfl, hsame,
    written_path env req (String.ofList (relText paths.2)) path]
  cases written env req path (t.file paths.1) with
  | none => rfl
  | some text =>
    dsimp only [Option.elim]
    rw [hworks, (atomicWriteAt_note hp hmade hdir hlink htmp).2]
    rfl

end Note

end Cerid.Vault
