import Cerid.Ingest.Identity
import Cerid.Ingest.Ownership

/-!
# Scanning a watched folder

A scan goes over the files of the folder.  A file whose content has a record that is not of an
error is passed over as a duplicate; any other is ingested, and a record of its content is kept
for thirty days.

The files are those the walk reaches: neither hidden nor in an excluded folder.  `ingest_file`
takes every path; a dry run writes nothing and is left out, as are the counters.
-/

namespace Cerid.Folders

open Ingest

abbrev Path := {p : String // p ≠ ""}

/-- A file and its content. -/
abbrev File := Path × String

/-- What is made of a file on its way into the knowledge base. -/
structure Intake where
  /-- `_file_content_hash`, of the bytes. -/
  fileHash : String → String
  /-- `_content_hash`, of the text. -/
  contentHash : String → String
  text : File → String
  priorHashes : File → List String
  domain : File → String
  filename : Path → String
  chunks : File → String → List Chunk
  folderIsDir : String → Bool
  distinct : ∀ f id, ((chunks f id).map Chunk.digest).Nodup

inductive Status where
  | ingested | duplicate | lowQuality | error | skipped | unsupported
  deriving DecidableEq, Repr

structure Record where
  status : Status
  expires : Nat

structure State where
  folder : Dict Path String
  now : Nat
  /-- `cerid:scan:files:{hash}`. -/
  records : String → Option Record
  lib : Library

def State.start : State where
  folder := .empty
  now := 0
  records := fun _ => none
  lib := { nodes := .empty, rows := fun _ => none }

/-- How an ingest ends. -/
inductive Ending where
  /-- It raises, when it has written or before. -/
  | raises (written : Bool)
  /-- Nothing is written: there is no text, or it was forgotten or is below its source's
  floor.  The quality in the answer is at least the minimum, or not. -/
  | declined (good : Bool)
  | answers (good : Bool)

/-- What a scan meets at a file. -/
inductive Outcome where
  | unsupported
  /-- Too large, or in a folder that the vault leaves out. -/
  | skipped
  | unreadable
  | reads (ending : Ending)

/-- `_FILE_HASH_TTL`. -/
def fileHashTtl : Nat := 2592000

/-- `_record_file_scanned`. -/
def State.record (s : State) (hash : String) (status : Status) : State :=
  { s with records := Function.update s.records hash (some ⟨status, s.now + fileHashTtl⟩) }

/-- There is a record, and it is not `_is_error_record`. -/
def State.known (s : State) (hash : String) : Bool :=
  (s.records hash).any (fun r => decide (s.now < r.expires) && decide (r.status ≠ .error))

variable (I : Intake)

/-- The file as `ingest_content` gets it. -/
def State.source (s : State) (f : File) : Source where
  sourcePath := f.1.val
  filename := I.filename f.1
  domain := I.domain f
  text := I.text f
  priorHashes := I.priorHashes f
  chunks := I.chunks f
  files := {
    pathExists := fun path => s.folder.items.any (fun g => g.1.val = path)
    folderIsDir := I.folderIsDir }
  forceReindex := false
  hasPath := f.1.property
  distinct := I.distinct f

/-- The status of a file, by the quality in the answer. -/
def graded (good : Bool) : Status := if good then .ingested else .lowQuality

/-- The status of a file whose ingest has answered. -/
def ending (good : Bool) (result : Result) : Status :=
  match result with
  | .duplicate _ => .duplicate
  | .error _ | .success _ | .updated _ => graded good

/-- The file is read, and its content has no record. -/
def State.take (s : State) (f : File) (e : Ending) : State × Status :=
  let hash := I.fileHash f.2
  let answer := ingestContent I.contentHash s.lib (s.source I f)
  match e with
  | .raises written =>
    (({ s with lib := if written then answer.1 else s.lib } : State).record hash .error, .error)
  | .declined good => (s.record hash (graded good), graded good)
  | .answers good =>
    let status := ending good answer.2
    (({ s with lib := answer.1 } : State).record hash status, status)

/-- One file of a scan, and its report. -/
def State.visit (s : State) (f : File) (o : Outcome) : State × Status :=
  match o with
  | .unsupported => (s, .unsupported)
  | .skipped => (s, .skipped)
  | .unreadable => (s, .error)
  | .reads e => if s.known (I.fileHash f.2) then (s, .duplicate) else s.take I f e

/-- The order of a walk, and what it meets. -/
structure Scan where
  order : List File → List File
  perm : ∀ files, (order files).Perm files
  outcome : File → Outcome

/-- A scan on its way: the files it has been to, and its reports. -/
structure Progress where
  state : State
  seen : List File
  reports : List Status

def Progress.next (outcome : File → Outcome) (g : Progress) (f : File) : Progress where
  state := (g.state.visit I f (outcome f)).1
  seen := g.seen ++ [f]
  reports := g.reports ++ [(g.state.visit I f (outcome f)).2]

def Scan.start (s : State) : Progress where
  state := s
  seen := []
  reports := []

/-- `scan_folder`. -/
def scanFolder (s : State) (scan : Scan) : Progress :=
  (scan.order s.folder.items).foldl (Progress.next I scan.outcome) (Scan.start s)

/-- An edit, some time, or a scan. -/
inductive Event where
  | write (path : Path) (content : String)
  | delete (path : Path)
  | pass (seconds : Nat)
  | scan (scan : Scan)

def step (s : State) : Event → State
  | .write path content => { s with folder := s.folder.set path content }
  | .delete path => { s with folder := s.folder.erase path }
  | .pass seconds => { s with now := s.now + seconds }
  | .scan scan => (scanFolder I s scan).state

end Cerid.Folders

/-!
# Documents that are up to date

The document of a file is the node at its path in its domain; a file without one shares the
document of another with its content.  A scan that reports every file as ingested or duplicate
leaves every document up to date, if the contents it passes over are those of the documents,
and what it ingests takes no content from a file it has been to (`scans_current`).
-/

namespace Cerid.Folders

open Ingest

variable (I : Intake)

/-- The hashes under which a file's content is known. -/
def hashes (f : File) : List String := I.contentHash (I.text f) :: I.priorHashes f

/-- The file's document has the file's content. -/
def Current (lib : Library) (f : File) : Bool :=
  match findBySourcePath lib f.1.val (I.domain f) with
  | some x => decide (x.2.contentHash ∈ hashes I f)
  | none => (checkDuplicate lib (hashes I f)).isSome

def AllCurrent (s : State) : Prop := ∀ f ∈ s.folder.items, Current I s.lib f = true

/-- The scan reports no error, and no file of low quality or unsupported. -/
def Clean (s : State) (scan : Scan) : Prop :=
  ∀ status ∈ (scanFolder I s scan).reports,
    status ≠ .error ∧ status ≠ .lowQuality ∧ status ≠ .unsupported

/-- An ingest leaves its file up to date, and the files seen as they are: a duplicate has no
document of its own with another content, a document that gets a new content is not one that a
file seen before shares, and a new one does not have the id of a node that is there. -/
def Safe (s : State) (seen : List File) (f : File) : Prop :=
  match route s.lib (I.contentHash (I.text f)) (s.source I f) with
  | .duplicate _ => ∀ x, findBySourcePath s.lib f.1.val (I.domain f) = some x →
      x.2.contentHash ∈ hashes I f
  | .reingest _ prev => ∀ q ∈ seen, prev.contentHash ∉ hashes I q
  | .create => s.lib.nodes.get? (I.contentHash (I.text f)) = none

/-- A file that is not ingested is up to date, and the ingest of any other is safe. -/
def Sound (outcome : File → Outcome) (g : Progress) (f : File) : Prop :=
  match outcome f with
  | .unsupported | .unreadable => True
  | .skipped => Current I g.state.lib f = true
  | .reads e =>
    if g.state.known (I.fileHash f.2) then Current I g.state.lib f = true
    else
      match e with
      | .raises _ => True
      | .declined good => good = true → Current I g.state.lib f = true
      | .answers _ => Safe I g.state g.seen f

/-- All along the scan. -/
def Careful (s : State) : Event → Prop
  | .scan scan =>
    Along (Progress.next I scan.outcome) (Sound I scan.outcome) (Scan.start s)
      (scan.order s.folder.items)
  | _ => True

variable {I}

/-! ## Finding nodes after a write -/

section Find

variable {α : Type} {p : String × α → Bool} {items : List (String × α)} {k : String} {v : α}

/-- A write to a key whose item was not looked for is found, or changes nothing. -/
theorem find_setItem (h : ∀ x ∈ items, x.1 = k → p x = false) :
    (setItem items k v).find? p = items.find? p ∨
      (setItem items k v).find? p = some (k, v) := by
  induction items with
  | nil =>
    cases hp : p (k, v) with
    | true => exact Or.inr (List.find?_cons_of_pos hp)
    | false => exact Or.inl (List.find?_cons_of_neg (by simp [hp]))
  | cons x rest ih =>
    obtain ⟨k', v'⟩ := x
    have hrest := ih (fun x hx => h x (List.mem_cons_of_mem _ hx))
    by_cases hk : k' = k
    · subst hk
      have hold := h (k', v') List.mem_cons_self rfl
      rw [setItem, if_pos rfl]
      cases hp : p (k', v) with
      | true => exact Or.inr (List.find?_cons_of_pos hp)
      | false =>
        rw [List.find?_cons_of_neg (by simp [hp]), List.find?_cons_of_neg (by simp [hold])]
        exact Or.inl rfl
    · rw [setItem, if_neg hk]
      cases hp : p (k', v') with
      | true =>
        rw [List.find?_cons_of_pos hp, List.find?_cons_of_pos hp]
        exact Or.inl rfl
      | false =>
        rw [List.find?_cons_of_neg (by simp [hp]), List.find?_cons_of_neg (by simp [hp])]
        exact hrest

/-- A write to the key that was found is found. -/
theorem find_setItem_self {v' : α} (h : items.find? p = some (k, v')) (hp : p (k, v) = true)
    (hnodup : (items.map Prod.fst).Nodup) : (setItem items k v).find? p = some (k, v) := by
  induction items with
  | nil => nomatch h
  | cons x rest ih =>
    obtain ⟨k₀, v₀⟩ := x
    rw [List.map_cons, List.nodup_cons] at hnodup
    by_cases hk : k₀ = k
    · subst hk
      rw [setItem, if_pos rfl]
      exact List.find?_cons_of_pos hp
    · rw [setItem, if_neg hk]
      cases hx : p (k₀, v₀) with
      | true =>
        rw [List.find?_cons_of_pos hx, Option.some_inj, Prod.mk.injEq] at h
        exact absurd h.1 hk
      | false =>
        rw [List.find?_cons_of_neg (by simp [hx])] at h ⊢
        exact ih h hnodup.2

end Find

theorem findBySourcePath_some {lib : Library} {path domain : String} {x : String × Node}
    (h : findBySourcePath lib path domain = some x) :
    lib.nodes.get? x.1 = some x.2 ∧ x.2.sourcePath = path ∧ x.2.domain = domain := by
  unfold findBySourcePath at h
  split_ifs at h
  have hboth := List.find?_some h
  rw [decide_eq_true_iff] at hboth
  exact ⟨(Dict.mem_items_iff _ _ _).mp (List.mem_of_find?_eq_some h), hboth⟩

theorem checkDuplicate_isSome {lib : Library} {wanted : List String} :
    (checkDuplicate lib wanted).isSome = true ↔
      ∃ id n, lib.nodes.get? id = some n ∧ n.contentHash ∈ wanted := by
  unfold checkDuplicate
  rw [List.find?_isSome]
  constructor
  · rintro ⟨⟨id, n⟩, hmem, hhash⟩
    exact ⟨id, n, (Dict.mem_items_iff _ _ _).mp hmem, of_decide_eq_true hhash⟩
  · rintro ⟨id, n, hget, hhash⟩
    exact ⟨(id, n), (Dict.mem_items_iff _ _ _).mpr hget, decide_eq_true hhash⟩

/-! ## A node is written -/

variable {lib : Library} {rows : ChunkId → Option Row} {id : String} {node : Node} {f : File}

theorem findBySourcePath_set (rows : ChunkId → Option Row) (node : Node)
    (hold : ∀ n, lib.nodes.get? id = some n → n.sourcePath ≠ f.1.val) :
    findBySourcePath { nodes := lib.nodes.set id node, rows := rows } f.1.val (I.domain f) =
        findBySourcePath lib f.1.val (I.domain f) ∨
      findBySourcePath { nodes := lib.nodes.set id node, rows := rows } f.1.val (I.domain f) =
        some (id, node) := by
  unfold findBySourcePath
  rw [if_neg f.1.property, if_neg f.1.property]
  refine find_setItem (fun x hx hk => ?_)
  refine decide_eq_false (fun hboth => ?_)
  exact hold x.2 (hk ▸ (Dict.mem_items_iff _ _ _).mp hx) hboth.1

/-- A file keeps its content if the node written is neither at its path nor taken from it. -/
theorem current_other (h : Current I lib f = true)
    (hold : ∀ n, lib.nodes.get? id = some n → n.sourcePath ≠ f.1.val)
    (hnew : node.sourcePath ≠ f.1.val)
    (hkeeps : ∀ n, lib.nodes.get? id = some n → n.contentHash ∈ hashes I f →
      node.contentHash ∈ hashes I f) :
    Current I { nodes := lib.nodes.set id node, rows := rows } f = true := by
  have hfind : findBySourcePath { nodes := lib.nodes.set id node, rows := rows } f.1.val
      (I.domain f) = findBySourcePath lib f.1.val (I.domain f) := by
    rcases findBySourcePath_set (I := I) rows node hold with hsame | hwritten
    · exact hsame
    · exact absurd (findBySourcePath_some hwritten).2.1 hnew
  unfold Current at h ⊢
  rw [hfind]
  cases hown : findBySourcePath lib f.1.val (I.domain f) with
  | some x =>
    rw [hown] at h
    exact h
  | none =>
    rw [hown] at h
    obtain ⟨id', n, hget, hhash⟩ := checkDuplicate_isSome.mp h
    refine checkDuplicate_isSome.mpr ?_
    by_cases hid : id' = id
    · subst hid
      exact ⟨id', node, by simp, hkeeps n hget hhash⟩
    · exact ⟨id', n, by simp [hid, hget], hhash⟩

/-- A file is up to date once its content is written at its path, where there was nothing or
the node that is written. -/
theorem current_written (hpath : node.sourcePath = f.1.val) (hdomain : node.domain = I.domain f)
    (hhash : node.contentHash ∈ hashes I f)
    (hown : findBySourcePath lib f.1.val (I.domain f) = none ∨
      ∃ prev, findBySourcePath lib f.1.val (I.domain f) = some (id, prev)) :
    Current I { nodes := lib.nodes.set id node, rows := rows } f = true := by
  have hfind : findBySourcePath { nodes := lib.nodes.set id node, rows := rows } f.1.val
      (I.domain f) = some (id, node) := by
    unfold findBySourcePath at hown ⊢
    rw [if_neg f.1.property] at hown ⊢
    rcases hown with hnone | ⟨prev, hprev⟩
    · have hold : ∀ x ∈ lib.nodes.items, x.1 = id →
          decide (x.2.sourcePath = f.1.val ∧ x.2.domain = I.domain f) = false := by
        intro x hx _
        rw [← Bool.not_eq_true]
        exact List.find?_eq_none.mp hnone x hx
      rcases find_setItem (v := node) hold with hsame | hwritten
      · have hall := List.find?_eq_none.mp (hsame.trans hnone) (id, node)
          ((Dict.mem_items_iff (lib.nodes.set id node) _ _).mpr (by simp))
        exact absurd (decide_eq_true ⟨hpath, hdomain⟩) hall
      · exact hwritten
    · exact find_setItem_self hprev (decide_eq_true ⟨hpath, hdomain⟩) lib.nodes.nodup
  unfold Current
  rw [hfind]
  exact decide_eq_true hhash

/-! ## Where a file is sent -/

variable {s : State}

theorem route_duplicate
    (h : route lib (I.contentHash (I.text f)) (s.source I f) = .duplicate id) :
    ∃ n, lib.nodes.get? id = some n ∧ n.contentHash ∈ hashes I f := by
  unfold route at h
  have hnoforce : (s.source I f).forceReindex = false := rfl
  rw [hnoforce, if_neg Bool.false_ne_true] at h
  cases hdup : checkDuplicate lib (hashes I f) with
  | none =>
    rw [show checkDuplicate lib (I.contentHash (I.text f) :: (s.source I f).priorHashes) = none
      from hdup] at h
    dsimp only at h
    split at h
    · cases h
    · split at h
      · cases h
      · split at h <;> cases h
  | some x =>
    rw [show checkDuplicate lib (I.contentHash (I.text f) :: (s.source I f).priorHashes) = some x
      from hdup] at h
    have hid : x.1 = id := Route.duplicate.inj h
    have hhash := List.find?_some hdup
    rw [decide_eq_true_iff] at hhash
    exact ⟨x.2, hid ▸ (Dict.mem_items_iff _ _ _).mp (List.mem_of_find?_eq_some hdup), hhash⟩

theorem route_other
    (h : ∀ id, route lib (I.contentHash (I.text f)) (s.source I f) ≠ .duplicate id) :
    checkDuplicate lib (hashes I f) = none := by
  cases hdup : checkDuplicate lib (hashes I f) with
  | none => rfl
  | some x =>
    refine absurd ?_ (h x.1)
    unfold route
    have hnoforce : (s.source I f).forceReindex = false := rfl
    rw [hnoforce, if_neg Bool.false_ne_true,
      show checkDuplicate lib (I.contentHash (I.text f) :: (s.source I f).priorHashes) = some x
        from hdup]

/-- A document found at the path that is not taken would have the same content. -/
theorem own_none (hdup : checkDuplicate lib (hashes I f) = none)
    (haccepts : accepts false (I.contentHash (I.text f))
      (findBySourcePath lib f.1.val (I.domain f)) = none) :
    findBySourcePath lib f.1.val (I.domain f) = none := by
  cases hown : findBySourcePath lib f.1.val (I.domain f) with
  | none => rfl
  | some x =>
    rw [hown] at haccepts
    unfold accepts at haccepts
    have hsame : x.2.contentHash = I.contentHash (I.text f) := by
      by_contra hne
      simp [hne] at haccepts
    have hin : (checkDuplicate lib (hashes I f)).isSome = true :=
      checkDuplicate_isSome.mpr ⟨x.1, x.2, (findBySourcePath_some hown).1,
        hsame ▸ List.mem_cons_self⟩
    rw [hdup] at hin
    nomatch hin

theorem route_cases
    (h : ∀ id, route lib (I.contentHash (I.text f)) (s.source I f) ≠ .duplicate id) :
    (route lib (I.contentHash (I.text f)) (s.source I f) = .create ∧
        findBySourcePath lib f.1.val (I.domain f) = none) ∨
      ∃ id prev, route lib (I.contentHash (I.text f)) (s.source I f) = .reingest id prev ∧
        (findBySourcePath lib f.1.val (I.domain f) = none ∨
          findBySourcePath lib f.1.val (I.domain f) = some (id, prev)) := by
  have hdup := route_other h
  have hnoforce : (s.source I f).forceReindex = false := rfl
  have hnone : checkDuplicate lib
      (I.contentHash (I.text f) :: (s.source I f).priorHashes) = none := hdup
  unfold route
  rw [hnoforce, if_neg Bool.false_ne_true, hnone]
  dsimp only
  cases hpath : accepts false (I.contentHash (I.text f))
      (findBySourcePath lib (s.source I f).sourcePath (s.source I f).domain) with
  | some x => exact Or.inr ⟨x.1, x.2, rfl, Or.inr (accepts_eq_some hpath)⟩
  | none =>
    have hown := own_none hdup hpath
    split
    · rename_i x hx
      nomatch hx
    · split
      · exact Or.inl ⟨rfl, hown⟩
      · split
        · exact Or.inr ⟨_, _, rfl, Or.inl hown⟩
        · exact Or.inl ⟨rfl, hown⟩

/-! ## What an ingest writes -/

/-- The library after a file is ingested. -/
def State.ingested (I : Intake) (s : State) (f : File) : Library :=
  (ingestContent I.contentHash s.lib (s.source I f)).1

theorem ingested_duplicate
    (h : route s.lib (I.contentHash (I.text f)) (s.source I f) = .duplicate id) :
    s.ingested I f = noteSourcePath s.lib (s.source I f).files id f.1.val (I.filename f.1) := by
  unfold State.ingested ingestContent
  show (match route s.lib (I.contentHash (I.text f)) (s.source I f) with
    | .duplicate id => _ | .reingest id prev => _ | .create => _ : Library × Result).1 = _
  rw [h]
  rfl

theorem ingested_reingest {prev : Node}
    (h : route s.lib (I.contentHash (I.text f)) (s.source I f) = .reingest id prev) :
    ∃ rows node, s.ingested I f = { nodes := s.lib.nodes.set id node, rows := rows } ∧
      node.contentHash = I.contentHash (I.text f) ∧ node.sourcePath = f.1.val ∧
      node.domain = I.domain f := by
  obtain ⟨-, hdomain, -, htaken⟩ := route_reingest h
  have hfree := htaken rfl
  unfold State.ingested ingestContent
  show ∃ rows node, (match route s.lib (I.contentHash (I.text f)) (s.source I f) with
    | .duplicate id => _ | .reingest id prev => _ | .create => _ : Library × Result).1 = _ ∧ _
  rw [h]
  dsimp only
  unfold reingestArtifact
  rw [show hashTaken s.lib id (I.contentHash (s.source I f).text) = false from hfree]
  refine ⟨_, _, rfl, rfl, ?_, hdomain⟩
  exact if_pos f.1.property

theorem ingested_create
    (h : route s.lib (I.contentHash (I.text f)) (s.source I f) = .create)
    (hfresh : s.lib.nodes.get? (I.contentHash (I.text f)) = none) :
    ∃ rows node, s.ingested I f =
        { nodes := s.lib.nodes.set (I.contentHash (I.text f)) node, rows := rows } ∧
      node.contentHash = I.contentHash (I.text f) ∧ node.sourcePath = f.1.val ∧
      node.domain = I.domain f := by
  have hdup : checkDuplicate s.lib (hashes I f) = none :=
    route_other (s := s) (fun id hid => by rw [h] at hid; nomatch hid)
  have hfree : hashTaken s.lib (I.contentHash (I.text f)) (I.contentHash (I.text f)) = false :=
    not_hashTaken List.mem_cons_self hdup
  unfold State.ingested ingestContent
  show ∃ rows node, (match route s.lib (I.contentHash (I.text f)) (s.source I f) with
    | .duplicate id => _ | .reingest id prev => _ | .create => _ : Library × Result).1 = _ ∧ _
  rw [h]
  show ∃ rows node, (createArtifact s.lib (s.source I f) (I.contentHash (I.text f))).1 = _ ∧ _
  rw [create_fresh hfresh, hfree, if_neg Bool.false_ne_true]
  exact ⟨_, _, rfl, rfl, rfl, rfl⟩

theorem ingested_own {seen : List File} (h : Safe I s seen f) :
    Current I (s.ingested I f) f = true := by
  unfold Safe at h
  by_cases hdup : ∃ id, route s.lib (I.contentHash (I.text f)) (s.source I f) = .duplicate id
  · obtain ⟨id, hid⟩ := hdup
    rw [hid] at h
    obtain ⟨n, hget, hhash⟩ := route_duplicate hid
    rw [ingested_duplicate hid]
    have hkept : ∀ lib : Library,
        findBySourcePath lib f.1.val (I.domain f) =
          findBySourcePath s.lib f.1.val (I.domain f) →
        (∃ n, lib.nodes.get? id = some n ∧ n.contentHash ∈ hashes I f) →
        Current I lib f = true := by
      intro lib hfind hsome
      unfold Current
      rw [hfind]
      cases hown : findBySourcePath s.lib f.1.val (I.domain f) with
      | some x => exact decide_eq_true (h x hown)
      | none => exact checkDuplicate_isSome.mpr ⟨id, hsome⟩
    rcases noteSourcePath_cases s.lib (s.source I f).files id f.1.val (I.filename f.1) with
      hsame | ⟨m, fname, hm, hpath, -, hmoved⟩
    · rw [hsame]
      exact hkept s.lib rfl ⟨n, hget, hhash⟩
    · rw [hget, Option.some_inj] at hm
      subst hm
      rw [hmoved]
      have hold : ∀ m, s.lib.nodes.get? id = some m → m.sourcePath ≠ f.1.val := by
        intro m hm
        rw [hget, Option.some_inj] at hm
        exact hm ▸ hpath
      rcases findBySourcePath_set (I := I) s.lib.rows
        { n with sourcePath := f.1.val, filename := fname } hold with hfind | hfind
      · exact hkept _ hfind ⟨{ n with sourcePath := f.1.val, filename := fname }, by simp, hhash⟩
      · unfold Current
        rw [hfind]
        exact decide_eq_true hhash
  · rcases route_cases (fun id hid => hdup ⟨id, hid⟩) with
      ⟨hcreate, hown⟩ | ⟨id, prev, hre, hown⟩
    · rw [hcreate] at h
      obtain ⟨rows, node, heq, hhash, hpath, hdomain⟩ := ingested_create hcreate h
      rw [heq]
      exact current_written hpath hdomain (hhash ▸ List.mem_cons_self) (Or.inl hown)
    · obtain ⟨rows, node, heq, hhash, hpath, hdomain⟩ := ingested_reingest hre
      rw [heq]
      exact current_written hpath hdomain (hhash ▸ List.mem_cons_self)
        (hown.imp_right (fun hsome => ⟨prev, hsome⟩))

theorem ingested_other {seen : List File} (h : Safe I s seen f) {q : File} (hq : q ∈ seen)
    (hne : q.1 ≠ f.1) (hfile : q ∈ s.folder.items) (hcurrent : Current I s.lib q = true) :
    Current I (s.ingested I f) q = true := by
  have hpath : f.1.val ≠ q.1.val := fun heq => hne (Subtype.ext heq.symm)
  unfold Safe at h
  by_cases hdup : ∃ id, route s.lib (I.contentHash (I.text f)) (s.source I f) = .duplicate id
  · obtain ⟨id, hid⟩ := hdup
    rw [ingested_duplicate hid]
    rcases noteSourcePath_cases s.lib (s.source I f).files id f.1.val (I.filename f.1) with
      hsame | ⟨m, fname, hm, -, hgone, hmoved⟩
    · rw [hsame]
      exact hcurrent
    · rw [hmoved]
      refine current_other hcurrent (fun n hn => ?_) hpath (fun n hn hhash => ?_)
      · rw [hm, Option.some_inj] at hn
        subst hn
        rcases hgone with hempty | ⟨hgone, -⟩
        · rw [hempty]
          exact q.1.property.symm
        · intro heq
          have hthere : s.folder.items.any (fun g => g.1.val = m.sourcePath) = true :=
            List.any_eq_true.mpr ⟨q, hfile, decide_eq_true heq.symm⟩
          exact Bool.false_ne_true (hgone.symm.trans hthere)
      · rw [hm, Option.some_inj] at hn
        subst hn
        exact hhash
  · rcases route_cases (fun id hid => hdup ⟨id, hid⟩) with
      ⟨hcreate, -⟩ | ⟨id, prev, hre, -⟩
    · rw [hcreate] at h
      obtain ⟨rows, node, heq, -, hnode, -⟩ := ingested_create hcreate h
      have hfresh : s.lib.nodes.get? (I.contentHash (I.text f)) = none := h
      rw [heq]
      refine current_other hcurrent (fun n hn => ?_) (hnode ▸ hpath) (fun n hn _ => ?_)
      · rw [hfresh] at hn
        nomatch hn
      · rw [hfresh] at hn
        nomatch hn
    · rw [hre] at h
      obtain ⟨rows, node, heq, -, hnode, -⟩ := ingested_reingest hre
      obtain ⟨hget, -, hprev, -⟩ := route_reingest hre
      rw [heq]
      refine current_other hcurrent (fun n hn => ?_) (hnode ▸ hpath) (fun n hn hhash => ?_)
      · rw [hget, Option.some_inj] at hn
        subst hn
        rcases hprev with hsame | hempty | hforce
        · rw [hsame]
          exact hpath
        · rw [hempty]
          exact q.1.property.symm
        · nomatch hforce
      · rw [hget, Option.some_inj] at hn
        subst hn
        exact absurd hhash (h q hq)

/-! ## A scan -/

/-- A report that a clean scan may have. -/
def Status.fine (status : Status) : Prop :=
  status ≠ .error ∧ status ≠ .lowQuality ∧ status ≠ .unsupported

theorem visit_folder (s : State) (f : File) (o : Outcome) :
    (s.visit I f o).1.folder = s.folder := by
  unfold State.visit
  cases o with
  | unsupported | skipped | unreadable => rfl
  | reads e =>
    dsimp only
    split
    · rfl
    · cases e <;> rfl

/-- A visit with a fine report leaves its file up to date, and those seen before. -/
theorem next_current {outcome : File → Outcome} {g : Progress}
    (hsound : Sound I outcome g f)
    (hfine : (g.state.visit I f (outcome f)).2.fine)
    (hseen : ∀ q ∈ g.seen, q.1 ≠ f.1 ∧ q ∈ g.state.folder.items ∧
      Current I g.state.lib q = true) :
    ∀ q ∈ g.seen ++ [f], Current I (g.state.visit I f (outcome f)).1.lib q = true := by
  -- nothing is written
  have hsame : Current I g.state.lib f = true →
      ∀ q ∈ g.seen ++ [f], Current I g.state.lib q = true := by
    intro hf q hq
    rcases List.mem_append.mp hq with hq | hq
    · exact (hseen q hq).2.2
    · exact List.mem_singleton.mp hq ▸ hf
  unfold Sound at hsound
  unfold State.visit at hfine ⊢
  cases ho : outcome f with
  | unsupported =>
    rw [ho] at hfine
    exact absurd rfl hfine.2.2
  | unreadable =>
    rw [ho] at hfine
    exact absurd rfl hfine.1
  | skipped =>
    rw [ho] at hsound
    exact hsame hsound
  | reads e =>
    rw [ho] at hsound hfine
    dsimp only at hsound hfine ⊢
    cases hknown : g.state.known (I.fileHash f.2) with
    | true =>
      rw [hknown, if_pos rfl] at hsound
      rw [if_pos rfl]
      exact hsame hsound
    | false =>
      rw [hknown, if_neg Bool.false_ne_true] at hsound hfine
      rw [if_neg Bool.false_ne_true]
      cases e with
      | raises written => exact absurd rfl hfine.1
      | declined good =>
        cases good with
        | false => exact absurd rfl hfine.2.1
        | true => exact hsame (hsound rfl)
      | answers good =>
        intro q hq
        show Current I (g.state.ingested I f) q = true
        rcases List.mem_append.mp hq with hq | hq
        · obtain ⟨hne, hfile, hcurrent⟩ := hseen q hq
          exact ingested_other hsound hq hne hfile hcurrent
        · rw [List.mem_singleton.mp hq]
          exact ingested_own hsound

theorem reports_append (outcome : File → Outcome) (files : List File) (g : Progress) :
    ∃ more, (files.foldl (Progress.next I outcome) g).reports = g.reports ++ more := by
  induction files generalizing g with
  | nil => exact ⟨[], (List.append_nil _).symm⟩
  | cons f rest ih =>
    obtain ⟨more, hmore⟩ := ih (g.next I outcome f)
    exact ⟨_ :: more, hmore.trans (List.append_assoc _ [_] more)⟩

/-- All that a scan has been to is up to date. -/
theorem scan_current {outcome : File → Outcome} (files : List File) (g : Progress)
    (hsound : Along (Progress.next I outcome) (Sound I outcome) g files)
    (hfine : ∀ status ∈ (files.foldl (Progress.next I outcome) g).reports, status.fine)
    (hnodup : ((g.seen ++ files).map Prod.fst).Nodup)
    (hfiles : ∀ q ∈ g.seen ++ files, q ∈ g.state.folder.items)
    (hcurrent : ∀ q ∈ g.seen, Current I g.state.lib q = true) :
    (files.foldl (Progress.next I outcome) g).state.folder = g.state.folder ∧
      ∀ q ∈ g.seen ++ files,
        Current I (files.foldl (Progress.next I outcome) g).state.lib q = true := by
  induction files generalizing g with
  | nil =>
    rw [List.append_nil]
    exact ⟨rfl, hcurrent⟩
  | cons f rest ih =>
    obtain ⟨more, hmore⟩ := reports_append (I := I) outcome rest (g.next I outcome f)
    rw [List.foldl_cons] at hfine ⊢
    have hreport : (g.state.visit I f (outcome f)).2.fine := by
      refine hfine _ ?_
      rw [hmore]
      exact List.mem_append_left _ (List.mem_append_right _ (List.mem_singleton_self _))
    have hfolder : (g.next I outcome f).state.folder = g.state.folder := visit_folder _ _ _
    have happ : (g.next I outcome f).seen ++ rest = g.seen ++ f :: rest :=
      List.append_assoc _ [f] rest
    have hvisited := next_current hsound.1 hreport (fun q hq => by
      refine ⟨fun heq => ?_, hfiles q (List.mem_append_left _ hq), hcurrent q hq⟩
      rw [List.map_append, List.map_cons] at hnodup
      exact List.disjoint_of_nodup_append hnodup (List.mem_map_of_mem hq)
        (heq ▸ List.mem_cons_self))
    obtain ⟨hrest, hall⟩ := ih (g.next I outcome f) hsound.2 hfine (by rw [happ]; exact hnodup)
      (by rw [happ, hfolder]; exact hfiles) hvisited
    rw [happ] at hall
    exact ⟨hrest.trans hfolder, hall⟩

section Sample

/-- Notes of one passage. -/
def notes : Intake where
  fileHash := fun content => content
  contentHash := sampleHash
  text := Prod.snd
  priorHashes := fun _ => []
  domain := fun _ => "general"
  filename := Subtype.val
  chunks := fun f _ => [{ digest := f.2, retrieveEligible := true }]
  folderIsDir := fun _ => true
  distinct := fun _ _ => by simp

/-- A scan that reads and ingests everything. -/
def plainScan : Scan where
  order := fun files => files
  perm := fun _ => List.Perm.refl _
  outcome := fun _ => .reads (.answers true)

def alpha : Path := ⟨"/notes/alpha.md", by decide⟩

def beta : Path := ⟨"/notes/beta.md", by decide⟩

/-- Two notes, one of them edited after a scan. -/
def edited : List Event :=
  [.write alpha "A", .write beta "B", .scan plainScan, .write alpha "C"]

/-- A note is edited, and changed back. -/
def changedBack : List Event :=
  [.write alpha "A", .scan plainScan, .write alpha "B", .scan plainScan, .write alpha "A"]

end Sample

end Cerid.Folders
