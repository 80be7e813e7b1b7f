import Cerid.Ingest.Identity

/-!
# Knowledge packs

A pack is installed by ingesting the files of its archive and recording the artifacts that
the ingests answered; a newer version replaces the record, and what the old one listed is
removed.  Only one install or uninstall runs at a time.

The files of a pack carry no attachments.  What is done before the first ingest (staging,
download, checksum, extraction) is an input, and the recompute jobs are left out.
-/

namespace Cerid.Packs

open Ingest (Source Library Result ingestContent removeContent)

/-! ## Packs and the install state -/

/-- A file of the archive under `content/`, and how it is handed to the ingest. -/
structure ContentFile where
  relPath : String
  source : Source

structure PackManifest where
  id : String
  version : String
  licenseCategory : String
  downloadUrl : String
  files : List ContentFile

/-- A record of the install state.  It is kept here with the file of every artifact, and with
the files that were skipped; on disk there are the ids alone. -/
structure InstalledPack where
  packId : String
  version : String
  files : List (String × Option String)
  deriving DecidableEq, Repr

def InstalledPack.artifactIds (p : InstalledPack) : List String := p.files.filterMap Prod.snd

/-- The files that the install skipped. -/
def InstalledPack.missing (p : InstalledPack) : List String :=
  (p.files.filter (fun f => f.2.isNone)).map Prod.fst

def findInstalled (state : List InstalledPack) (packId : String) : Option InstalledPack :=
  state.find? (fun p => p.packId = packId)

def upsertInstalled (state : List InstalledPack) (record : InstalledPack) : List InstalledPack :=
  state.filter (fun p => p.packId ≠ record.packId) ++ [record]

def removeInstalled (state : List InstalledPack) (packId : String) : List InstalledPack :=
  state.filter (fun p => p.packId ≠ packId)

/-! ## What may go wrong -/

/-- How the ingest of a file ends. -/
inductive Attempt where
  | answers
  | raises
  /-- It raises when the artifact is written already. -/
  | lands
  deriving DecidableEq, Repr

/-- The inputs of one call. -/
structure Setting where
  allowedCategories : List String
  /-- Staging, download, checksum and extraction succeed. -/
  staged : Bool
  attempt : String → Attempt
  deleteFails : String → Bool
  /-- How many of its ingests, its write of the state and its deletes, in this order, are done
  when the process stops. -/
  stop : Option Nat

/-- The part of the actions that is done. -/
def upTo {α : Type} (stop : Option Nat) (actions : List α) : List α :=
  match stop with
  | none => actions
  | some n => actions.take n

/-! ## The library, the install state, and their history -/

/-- An artifact that a pack removed: whose ingest had created it, whether the record of
another pack listed it, and whether a file that it was listed for has just failed. -/
structure Removal where
  pack : String
  id : String
  creator : Option String
  elsewhere : Bool
  ofFailed : Bool
  deriving DecidableEq, Repr

/-- An install: the files that the record of this version lacked, and those it ingested. -/
structure Call where
  missing : List String
  attempted : List String
  deriving DecidableEq, Repr

structure World where
  lib : Library
  installed : List InstalledPack
  /-- The pack whose ingest created the artifact. -/
  creator : String → Option String
  removals : List Removal
  calls : List Call

/-- No pack was ever installed. -/
def World.start (lib : Library) : World where
  lib := lib
  installed := []
  creator := fun _ => none
  removals := []
  calls := []

def holds (lib : Library) (id : String) : Bool := (lib.nodes.get? id).isSome

def World.has (w : World) (id : String) : Bool := holds w.lib id

/-- What an ingest writes, on behalf of a pack or of somebody else. -/
def World.write (w : World) (author : Option String) (lib : Library) : World :=
  { w with
    lib := lib
    creator := fun id => if !w.has id && holds lib id then author else w.creator id }

/-- The record of another pack lists the artifact. -/
def World.elsewhere (w : World) (pack id : String) : Bool :=
  w.installed.any (fun p => p.packId ≠ pack && id ∈ p.artifactIds)

/-- `remove_content`; an artifact that is not there is missing. -/
def World.remove (w : World) (pack : String) (ofFailed : String → Bool) (id : String) : World :=
  if w.has id then
    { w with
      lib := removeContent w.lib id
      removals := w.removals ++
        [{ pack := pack
           id := id
           creator := w.creator id
           elsewhere := w.elsewhere pack id
           ofFailed := ofFailed id }] }
  else w

/-- The loop over artifacts; a delete that fails is logged. -/
def World.removeAll (w : World) (pack : String) (s : Setting) (ofFailed : String → Bool)
    (ids : List String) : World :=
  ids.foldl (fun w id => if s.deleteFails id then w else w.remove pack ofFailed id) w

def World.called (w : World) (missing attempted : List String) : World :=
  { w with calls := w.calls ++ [{ missing := missing, attempted := attempted }] }

/-- The artifact id of an answer that the install counts. -/
def artifactId : Result → Option String
  | .success id | .updated id | .duplicate id => some id
  | .error _ => none

/-- A file with this artifact is among those that failed. -/
def ofFailed (old : InstalledPack) (answers : List (String × Option String)) (id : String) : Bool :=
  old.files.any (fun f => f.2 = some id && (f.1, none) ∈ answers)

section Hash

-- `_content_hash`
variable (contentHash : String → String)

/-- One round of the ingest loop: the world, and what the files so far were ingested as. -/
def ingestOne (p : PackManifest) (s : Setting) (acc : World × List (String × Option String))
    (f : ContentFile) : World × List (String × Option String) :=
  let written := ingestContent contentHash acc.1.lib f.source
  match s.attempt f.relPath with
  | .answers =>
    (acc.1.write (some p.id) written.1, acc.2 ++ [(f.relPath, artifactId written.2)])
  | .raises => (acc.1, acc.2 ++ [(f.relPath, none)])
  | .lands => (acc.1.write (some p.id) written.1, acc.2 ++ [(f.relPath, none)])

def ingestAll (w : World) (p : PackManifest) (s : Setting) :
    World × List (String × Option String) :=
  (upTo s.stop p.files).foldl (ingestOne contentHash p s) (w, [])

/-- The gates of an install, and what comes before its first ingest. -/
def refused (p : PackManifest) (s : Setting) : Bool :=
  p.licenseCategory = "unknown" || p.licenseCategory ∉ s.allowedCategories ||
    p.downloadUrl = "" || !s.staged || p.files.isEmpty

/-- The process stops before it has done `n` actions. -/
def Setting.stopsBefore (s : Setting) (n : Nat) : Bool := s.stop.any (fun k => k < n)

/-- The clean-up after a version bump. -/
def cleanUp (w : World) (p : PackManifest) (s : Setting) (old record : InstalledPack) : World :=
  let superseded := old.artifactIds.filter (fun id => id ∉ record.artifactIds)
  w.removeAll p.id s (ofFailed old record.files)
    (upTo (s.stop.map (fun k => k - (p.files.length + 1))) superseded)

def commit (w : World) (p : PackManifest) (s : Setting) (existing : Option InstalledPack)
    (answers : List (String × Option String)) : World :=
  let record : InstalledPack := { packId := p.id, version := p.version, files := answers }
  let w := { w with installed := upsertInstalled w.installed record }
  match existing with
  | none => w
  | some old => cleanUp w p s old record

def installPack (w : World) (p : PackManifest) (s : Setting) : World :=
  let existing := findInstalled w.installed p.id
  match existing.filter (fun e => e.version = p.version) with
  | some same => w.called same.missing []
  | none =>
    if refused p s then w.called [] []
    else
      let ingested := ingestAll contentHash w p s
      let w := ingested.1.called [] (ingested.2.map Prod.fst)
      if s.stopsBefore (p.files.length + 1) then w
      else commit w p s existing ingested.2

def uninstallPack (w : World) (packId : String) (s : Setting) : World :=
  match findInstalled w.installed packId with
  | none => w
  | some record =>
    let w := w.removeAll packId s (fun _ => false) (upTo s.stop record.artifactIds)
    if s.stopsBefore (record.artifactIds.length + 1) then w
    else { w with installed := removeInstalled w.installed packId }

/-! ## Runs -/

inductive Op where
  | install (p : PackManifest) (s : Setting)
  | uninstall (packId : String) (s : Setting)
  /-- Somebody else ingests a document. -/
  | ingest (f : Source)
  /-- Somebody else removes one. -/
  | delete (id : String)

def step (w : World) : Op → World
  | .install p s => installPack contentHash w p s
  | .uninstall packId s => uninstallPack w packId s
  | .ingest f => w.write none (ingestContent contentHash w.lib f).1
  | .delete id => if w.has id then { w with lib := removeContent w.lib id } else w

end Hash

/-! ## What an ingest and a removal leave -/

theorem holds_set (nodes : Dict String Ingest.Node) (rows : Ingest.ChunkId → Option Ingest.Row)
    (id : String) (n : Ingest.Node) (x : String) :
    holds { nodes := nodes.set id n, rows := rows } x = true ↔
      (nodes.get? x).isSome = true ∨ x = id := by
  unfold holds
  dsimp only
  rw [Dict.get?_set]
  by_cases h : x = id
  · rw [if_pos h]
    simp [h]
  · rw [if_neg h]
    simp [h]

theorem holds_noteSourcePath (lib : Library) (files : Ingest.Files) (id path filename x : String) :
    holds (Ingest.noteSourcePath lib files id path filename) x = holds lib x := by
  unfold Ingest.noteSourcePath
  split
  · rfl
  · next n hn =>
    split
    · rfl
    · unfold holds
      dsimp only
      rw [Dict.get?_set]
      split
      · next hx =>
        subst hx
        rw [hn]
        rfl
      · rfl

/-- An ingest removes nothing, and creates at most the artifact that it answers with. -/
theorem holds_ingestContent (contentHash : String → String) (lib : Library) (f : Source)
    (x : String) :
    (holds lib x = true → holds (ingestContent contentHash lib f).1 x = true) ∧
      (holds (ingestContent contentHash lib f).1 x = true →
        holds lib x = true ∨ artifactId (ingestContent contentHash lib f).2 = some x) := by
  unfold ingestContent
  dsimp only
  cases Ingest.route lib (contentHash f.text) f with
  | duplicate id =>
    dsimp only
    rw [holds_noteSourcePath]
    exact ⟨fun h => h, Or.inl⟩
  | reingest id prev =>
    dsimp only
    unfold Ingest.reingestArtifact
    dsimp only
    split
    · exact ⟨fun h => h, Or.inl⟩
    · rw [holds_set]
      refine ⟨Or.inl, fun h => ?_⟩
      rcases h with h | h
      · exact Or.inl h
      · exact Or.inr (congrArg some h.symm)
  | create =>
    dsimp only
    unfold Ingest.createArtifact
    dsimp only
    split
    · rw [holds_set]
      refine ⟨Or.inl, fun h => ?_⟩
      rcases h with h | h
      · exact Or.inl h
      · exact Or.inr (congrArg some h.symm)
    · split
      · exact ⟨fun h => h, Or.inl⟩
      · rw [holds_set]
        refine ⟨Or.inl, fun h => ?_⟩
        rcases h with h | h
        · exact Or.inl h
        · exact Or.inr (congrArg some h.symm)

@[simp] theorem World.has_write (w : World) (author : Option String) (lib : Library) (x : String) :
    (w.write author lib).has x = holds lib x := rfl

theorem World.creator_write_old (w : World) (author : Option String) (lib : Library) {x : String}
    (h : w.has x = true) : (w.write author lib).creator x = w.creator x := by
  unfold World.write
  dsimp only
  rw [h]
  rfl

theorem World.creator_write_new (w : World) (author : Option String) (lib : Library) {x : String}
    (h : w.has x = false) (hx : holds lib x = true) : (w.write author lib).creator x = author := by
  unfold World.write
  dsimp only
  rw [h, hx]
  rfl

theorem holds_removeContent (lib : Library) (id x : String) :
    holds (removeContent lib id) x = true ↔ holds lib x = true ∧ x ≠ id := by
  unfold holds removeContent
  dsimp only
  rw [Dict.get?_erase]
  by_cases h : x = id
  · rw [if_pos h]
    simp [h]
  · rw [if_neg h]
    simp [h]

theorem World.has_remove (w : World) (pack : String) (ofFailed : String → Bool) (id x : String) :
    (w.remove pack ofFailed id).has x = true ↔ w.has x = true ∧ x ≠ id := by
  unfold World.remove
  split
  · exact holds_removeContent w.lib id x
  · next h =>
    refine ⟨fun hx => ⟨hx, ?_⟩, And.left⟩
    rintro rfl
    exact h hx

/-- What a removal does not touch. -/
theorem World.remove_frame (w : World) (pack : String) (ofFailed : String → Bool) (id : String) :
    (w.remove pack ofFailed id).installed = w.installed ∧
      (w.remove pack ofFailed id).creator = w.creator ∧
      (w.remove pack ofFailed id).calls = w.calls := by
  unfold World.remove
  split
  · exact ⟨rfl, rfl, rfl⟩
  · exact ⟨rfl, rfl, rfl⟩

theorem World.removeAll_frame (pack : String) (s : Setting) (ofFailed : String → Bool)
    (ids : List String) (w : World) :
    (w.removeAll pack s ofFailed ids).installed = w.installed ∧
      (w.removeAll pack s ofFailed ids).creator = w.creator ∧
      (w.removeAll pack s ofFailed ids).calls = w.calls := by
  unfold World.removeAll
  induction ids generalizing w with
  | nil => exact ⟨rfl, rfl, rfl⟩
  | cons id rest ih =>
    rw [List.foldl_cons]
    split
    · exact ih w
    · obtain ⟨hi, hc, hl⟩ := ih (w.remove pack ofFailed id)
      obtain ⟨hi', hc', hl'⟩ := w.remove_frame pack ofFailed id
      exact ⟨hi.trans hi', hc.trans hc', hl.trans hl'⟩

theorem World.has_removeAll (pack : String) (s : Setting) (ofFailed : String → Bool)
    (ids : List String) (w : World) (x : String) :
    (w.removeAll pack s ofFailed ids).has x = true ↔
      w.has x = true ∧ (x ∈ ids → s.deleteFails x = true) := by
  unfold World.removeAll
  induction ids generalizing w with
  | nil => simp
  | cons id rest ih =>
    rw [List.foldl_cons]
    by_cases hid : s.deleteFails id = true
    · rw [if_pos hid, ih]
      refine and_congr_right fun _ => ⟨fun h hx => ?_, fun h hx => h (List.mem_cons_of_mem _ hx)⟩
      rcases List.mem_cons.mp hx with rfl | hx
      · exact hid
      · exact h hx
    · rw [if_neg hid, ih, World.has_remove]
      constructor
      · rintro ⟨⟨hw, hne⟩, h⟩
        refine ⟨hw, fun hx => ?_⟩
        rcases List.mem_cons.mp hx with hx | hx
        · exact absurd hx hne
        · exact h hx
      · rintro ⟨hw, h⟩
        refine ⟨⟨hw, ?_⟩, fun hx => h (List.mem_cons_of_mem _ hx)⟩
        rintro rfl
        exact hid (h List.mem_cons_self)

/-! ## The install state -/

theorem findInstalled_some {state : List InstalledPack} {packId : String} {p : InstalledPack}
    (h : findInstalled state packId = some p) : p ∈ state ∧ p.packId = packId :=
  ⟨List.mem_of_find?_eq_some h, by simpa using List.find?_some h⟩

theorem mem_upsertInstalled {state : List InstalledPack} {record p : InstalledPack} :
    p ∈ upsertInstalled state record ↔ (p ∈ state ∧ p.packId ≠ record.packId) ∨ p = record := by
  unfold upsertInstalled
  rw [List.mem_append, List.mem_filter, List.mem_singleton, decide_eq_true_iff]

theorem mem_removeInstalled {state : List InstalledPack} {packId : String} {p : InstalledPack} :
    p ∈ removeInstalled state packId ↔ p ∈ state ∧ p.packId ≠ packId := by
  unfold removeInstalled
  rw [List.mem_filter, decide_eq_true_iff]

theorem mem_artifactIds {p : InstalledPack} {id : String} :
    id ∈ p.artifactIds ↔ ∃ path, (path, some id) ∈ p.files := by
  unfold InstalledPack.artifactIds
  rw [List.mem_filterMap]
  constructor
  · rintro ⟨⟨path, found⟩, hmem, hid⟩
    exact ⟨path, (show found = some id from hid) ▸ hmem⟩
  · rintro ⟨path, hmem⟩
    exact ⟨(path, some id), hmem, rfl⟩

theorem upTo_subset {α : Type} (stop : Option Nat) (actions : List α) {x : α}
    (h : x ∈ upTo stop actions) : x ∈ actions := by
  cases stop with
  | none => exact h
  | some n => exact List.mem_of_mem_take h

end Cerid.Packs
