import Cerid.Ingest.Ownership
import Cerid.Packs.Install

/-!
# What a pack removes

A record lists what the ingests answered, whether the pack created it or only found it.  As
long as they find no artifact but the pack's own, a removal takes away nothing but what the
pack created and no other pack lists.
-/

namespace Cerid.Packs

open Ingest (Source Library Result ingestContent removeContent)

/-- Every artifact that a pack removed was created by its own ingest, and no other installed
pack listed it. -/
def World.RemovedOwn (w : World) : Prop :=
  ∀ r ∈ w.removals, r.creator = some r.pack ∧ r.elsewhere = false

section Hash

variable (contentHash : String → String)

/-- What the ingest of this text would create is listed by no pack but this one. -/
def Unlisted (w : World) (author : Option String) (f : Source) : Prop :=
  ∀ id, w.has id = false → holds (ingestContent contentHash w.lib f).1 id = true →
    ∀ p ∈ w.installed, some p.packId ≠ author → id ∉ p.artifactIds

/-- The ingest of the file finds nothing but what this pack created. -/
def OwnFile (p : PackManifest) (s : Setting) (acc : World × List (String × Option String))
    (f : ContentFile) : Prop :=
  s.attempt f.relPath ≠ .raises →
    Unlisted contentHash acc.1 (some p.id) f.source ∧
      (s.attempt f.relPath = .answers →
        ∀ id, artifactId (ingestContent contentHash acc.1.lib f.source).2 = some id →
          acc.1.has id = true → acc.1.creator id = some p.id)

/-- The install passes its gates and is not of the recorded version. -/
def Proceeds (w : World) (p : PackManifest) (s : Setting) : Prop :=
  (findInstalled w.installed p.id).filter (fun e => e.version = p.version) = none ∧
    refused p s = false

/-- The ingests of an install find nothing but what its pack created; and nobody creates an
artifact that a record of somebody else's lists still. -/
def Own (w : World) : Op → Prop
  | .install p s => Proceeds w p s →
    Along (ingestOne contentHash p s) (OwnFile contentHash p s) (w, []) (upTo s.stop p.files)
  | .ingest f => Unlisted contentHash w none f
  | .uninstall _ _ | .delete _ => True

end Hash

/-! ## The invariant -/

/-- What a record lists, and is there, its pack created. -/
structure World.Owns (w : World) : Prop where
  listed : ∀ p ∈ w.installed, ∀ id ∈ p.artifactIds, w.has id = true →
    w.creator id = some p.packId
  removed : w.RemovedOwn

theorem World.start_owns (lib : Library) : (World.start lib).Owns where
  listed := fun _ h => nomatch h
  removed := fun _ h => nomatch h

theorem World.Owns.called {w : World} (h : w.Owns) (missing attempted : List String) :
    (w.called missing attempted).Owns where
  listed := h.listed
  removed := h.removed

variable {contentHash : String → String}

theorem World.Owns.write {w : World} (h : w.Owns) {author : Option String} {f : Source}
    (hnew : Unlisted contentHash w author f) :
    (w.write author (ingestContent contentHash w.lib f).1).Owns where
  removed := h.removed
  listed := by
    intro p hp id hid hhas
    rw [World.has_write] at hhas
    cases hold : w.has id with
    | true =>
      rw [World.creator_write_old _ _ _ hold]
      exact h.listed p hp id hid hold
    | false =>
      rw [World.creator_write_new _ _ _ hold hhas]
      by_contra hother
      exact hnew id hold hhas p hp (fun heq => hother heq.symm) hid

/-- A pack that removes what it created. -/
theorem World.Owns.removeAll {w : World} (h : w.Owns) (pack : String) (s : Setting)
    (ofFailed : String → Bool) (ids : List String)
    (hids : ∀ id ∈ ids, w.has id = true → w.creator id = some pack) :
    (w.removeAll pack s ofFailed ids).Owns := by
  unfold World.removeAll
  induction ids generalizing w with
  | nil => exact h
  | cons id rest ih =>
    have hrest : ∀ id' ∈ rest, w.has id' = true → w.creator id' = some pack :=
      fun id' hid' => hids id' (List.mem_cons_of_mem _ hid')
    rw [List.foldl_cons]
    split
    · exact ih h hrest
    · obtain ⟨hinstalled, hcreator, -⟩ := w.remove_frame pack ofFailed id
      refine ih { listed := ?_, removed := ?_ } ?_
      · intro p hp x hx hhas
        rw [hinstalled] at hp
        rw [hcreator]
        exact h.listed p hp x hx ((w.has_remove _ _ _ _).mp hhas).1
      · unfold World.remove
        split
        · next hid =>
          intro r hr
          rcases List.mem_append.mp hr with hr | hr
          · exact h.removed r hr
          · have hown := hids id List.mem_cons_self hid
            rw [List.mem_singleton] at hr
            subst hr
            refine ⟨hown, ?_⟩
            dsimp only [World.elsewhere]
            rw [List.any_eq_false]
            intro p hp hother
            rw [Bool.and_eq_true, decide_eq_true_iff, decide_eq_true_iff] at hother
            have hcreated := h.listed p hp id hother.2 hid
            exact hother.1 (Option.some.inj (hcreated.symm.trans hown))
        · exact h.removed
      · intro x hx hhas
        rw [hcreator]
        exact hrest x hx ((w.has_remove _ _ _ _).mp hhas).1

/-! ## Installs -/

/-- What the ingest loop keeps: the record that is there, and that every answer so far is of
an artifact that is the pack's own, or gone. -/
structure Loop (w : World) (p : PackManifest) (acc : World × List (String × Option String)) :
    Prop where
  owns : acc.1.Owns
  installed : acc.1.installed = w.installed
  answered : ∀ path id, (path, some id) ∈ acc.2 → acc.1.has id = true →
    acc.1.creator id = some p.id

theorem Loop.write {w : World} {p : PackManifest} {acc : World × List (String × Option String)}
    (h : Loop w p acc) {f : Source} (hnew : Unlisted contentHash acc.1 (some p.id) f)
    {path : String} {found : Option String}
    (hfound : ∀ id, found = some id → acc.1.has id = true → acc.1.creator id = some p.id) :
    Loop w p (acc.1.write (some p.id) (ingestContent contentHash acc.1.lib f).1,
      acc.2 ++ [(path, found)]) where
  owns := h.owns.write hnew
  installed := h.installed
  answered := by
    intro path' id hmem hhas
    dsimp only at hhas ⊢
    rw [World.has_write] at hhas
    cases hold : acc.1.has id with
    | false => exact World.creator_write_new _ _ _ hold hhas
    | true =>
      rw [World.creator_write_old _ _ _ hold]
      rcases List.mem_append.mp hmem with hmem | hmem
      · exact h.answered path' id hmem hold
      · rw [List.mem_singleton, Prod.mk.injEq] at hmem
        exact hfound id hmem.2.symm hold

theorem Loop.step {w : World} {p : PackManifest} {s : Setting}
    {acc : World × List (String × Option String)} {f : ContentFile} (h : Loop w p acc)
    (hown : OwnFile contentHash p s acc f) : Loop w p (ingestOne contentHash p s acc f) := by
  unfold ingestOne
  unfold OwnFile at hown
  dsimp only
  cases hattempt : s.attempt f.relPath with
  | answers =>
    obtain ⟨hnew, hfound⟩ := hown (by rw [hattempt]; decide)
    exact h.write hnew (hfound hattempt)
  | lands =>
    obtain ⟨hnew, -⟩ := hown (by rw [hattempt]; decide)
    exact h.write hnew (fun _ h => nomatch h)
  | raises =>
    refine { owns := h.owns, installed := h.installed, answered := ?_ }
    intro path id hmem
    rcases List.mem_append.mp hmem with hmem | hmem
    · exact h.answered path id hmem
    · rw [List.mem_singleton, Prod.mk.injEq] at hmem
      exact nomatch hmem.2

theorem World.Owns.upsert {w : World} (h : w.Owns) (record : InstalledPack)
    (hrecord : ∀ id ∈ record.artifactIds, w.has id = true → w.creator id = some record.packId) :
    World.Owns { w with installed := upsertInstalled w.installed record } where
  removed := h.removed
  listed := by
    intro p hp id hid hhas
    rcases mem_upsertInstalled.mp hp with hp | hp
    · exact h.listed p hp.1 id hid hhas
    · subst hp
      exact hrecord id hid hhas

theorem World.Owns.install {w : World} (h : w.Owns) {p : PackManifest} {s : Setting}
    (hown : Own contentHash w (.install p s)) : (installPack contentHash w p s).Owns := by
  unfold installPack
  dsimp only
  cases hsame : (findInstalled w.installed p.id).filter (fun e => e.version = p.version) with
  | some same => exact h.called _ _
  | none =>
    dsimp only
    cases hrefused : refused p s with
    | true =>
      rw [if_pos rfl]
      exact h.called _ _
    | false =>
      rw [if_neg Bool.false_ne_true]
      have hloop : Loop w p (ingestAll contentHash w p s) :=
        Along.invariant (Loop w p) (fun _ _ hl ho => hl.step ho)
          { owns := h, installed := rfl, answered := fun _ _ hmem => absurd hmem List.not_mem_nil }
          (hown ⟨hsame, hrefused⟩)
      generalize ingestAll contentHash w p s = ingested at hloop ⊢
      obtain ⟨w', answers⟩ := ingested
      dsimp only at hloop ⊢
      have howns := hloop.owns.called [] (answers.map Prod.fst)
      split
      · exact howns
      · unfold commit
        have hcommit := howns.upsert { packId := p.id, version := p.version, files := answers }
          (fun id hid hhas => by
            obtain ⟨path, hmem⟩ := mem_artifactIds.mp hid
            exact hloop.answered path id hmem hhas)
        cases hexisting : findInstalled w.installed p.id with
        | none => exact hcommit
        | some old =>
          obtain ⟨hmem, hpack⟩ := findInstalled_some hexisting
          refine hcommit.removeAll _ _ _ _ (fun id hid hhas => ?_)
          have hin := List.mem_of_mem_filter (upTo_subset _ _ hid)
          have hlisted := hloop.owns.listed old (hloop.installed ▸ hmem) id hin hhas
          exact hpack ▸ hlisted

theorem World.Owns.uninstall {w : World} (h : w.Owns) (packId : String) (s : Setting) :
    (uninstallPack w packId s).Owns := by
  unfold uninstallPack
  cases hfound : findInstalled w.installed packId with
  | none => exact h
  | some record =>
    dsimp only
    obtain ⟨hmem, hpack⟩ := findInstalled_some hfound
    have howns := h.removeAll packId s (fun _ => false) (upTo s.stop record.artifactIds)
      (fun id hid hhas => hpack ▸ h.listed record hmem id (upTo_subset _ _ hid) hhas)
    split
    · exact howns
    · exact
        { removed := howns.removed
          listed := fun p hp => howns.listed p (mem_removeInstalled.mp hp).1 }

theorem World.Owns.step {w : World} (h : w.Owns) {op : Op} (hown : Own contentHash w op) :
    (step contentHash w op).Owns := by
  cases op with
  | install p s => exact h.install hown
  | uninstall packId s => exact h.uninstall packId s
  | ingest f => exact h.write hown
  | delete id =>
    show World.Owns (if w.has id then { w with lib := removeContent w.lib id } else w)
    split
    · exact
        { removed := h.removed
          listed := fun p hp x hx hhas =>
            h.listed p hp x hx ((holds_removeContent w.lib id x).mp hhas).1 }
    · exact h

/-- Along every run whose installs find nothing but their own artifacts, a version bump or an
uninstall removes nothing but what the pack created and no other installed pack lists. -/
theorem removed_own (contentHash : String → String) (lib : Library) (ops : List Op)
    (h : Along (step contentHash) (Own contentHash) (World.start lib) ops) :
    (ops.foldl (step contentHash) (World.start lib)).RemovedOwn := by
  have howns := Along.invariant World.Owns (fun _ _ hw ho => hw.step ho) (World.start_owns lib) h
  exact howns.removed

/-! ## A pack of its own, and one that shares a text -/

/-- A setting in which nothing goes wrong. -/
def smooth : Setting where
  allowedCategories := ["public_domain", "permissive", "attribution"]
  staged := true
  attempt := fun _ => .answers
  deleteFails := fun _ => false
  stop := none

/-- A pack of one file. -/
def onePage (id version text : String) : PackManifest where
  id := id
  version := version
  licenseCategory := "permissive"
  downloadUrl := "https://packs/" ++ id
  files := [{ relPath := "page.md", source := Ingest.note (id ++ version) text }]

def emptyLibrary : Library := { nodes := .empty, rows := fun _ => none }

/-- The library of somebody who has written a note. -/
def notedLibrary (text : String) : Library :=
  (ingestContent Ingest.sampleHash emptyLibrary (Ingest.note "mine.md" text)).1

theorem unlisted_of_all {w : World} {author : String}
    (h : ∀ p ∈ w.installed, p.packId = author) (f : Source) :
    Unlisted contentHash w (some author) f := by
  intro id _ _ p hp hne
  exact absurd (congrArg some (h p hp)) hne

/-- The one file of a pack that shares no text with what is there. -/
theorem own_onePage {w : World} {id version text : String}
    (hinstalled : ∀ p ∈ w.installed, p.packId = id)
    (hnew : ∀ x, artifactId (ingestContent Ingest.sampleHash w.lib
      (Ingest.note (id ++ version) text)).2 = some x → w.has x = false) :
    Own Ingest.sampleHash w (.install (onePage id version text) smooth) := by
  intro _
  refine ⟨fun _ => ⟨unlisted_of_all hinstalled _, fun _ x hx hhas => ?_⟩, trivial⟩
  exact absurd hhas (by rw [hnew x hx]; decide)

/-- A pack is installed, replaced by its next version, and uninstalled. -/
def upgraded : List Op :=
  [.install (onePage "p" "1" "A") smooth, .install (onePage "p" "2" "B") smooth,
    .uninstall "p" smooth]

theorem removed_own_upgraded :
    (upgraded.foldl (step Ingest.sampleHash) (World.start (notedLibrary "C"))).RemovedOwn := by
  refine removed_own Ingest.sampleHash (notedLibrary "C") upgraded
    ⟨own_onePage (fun _ h => nomatch h) ?_, own_onePage ?_ ?_, trivial, trivial⟩
  · intro x hx
    have hid : artifactId (ingestContent Ingest.sampleHash (World.start (notedLibrary "C")).lib
        (Ingest.note ("p" ++ "1") "A")).2 = some "sha256:A" := by decide +kernel
    rw [hid, Option.some.injEq] at hx
    subst hx
    decide +kernel
  · decide +kernel
  · intro x hx
    have hid : artifactId (ingestContent Ingest.sampleHash
        (step Ingest.sampleHash (World.start (notedLibrary "C"))
          (.install (onePage "p" "1" "A") smooth)).lib
        (Ingest.note ("p" ++ "2") "B")).2 = some "sha256:B" := by decide +kernel
    rw [hid, Option.some.injEq] at hx
    subst hx
    decide +kernel

/-- A pack brings a text that is there already: the record lists the note, and the uninstall
removes it. -/
theorem shared_text_removed :
    ¬ ∀ (contentHash : String → String) (lib : Library) (ops : List Op),
      (ops.foldl (step contentHash) (World.start lib)).RemovedOwn := by
  intro h
  have hown := h Ingest.sampleHash (notedLibrary "A")
    [.install (onePage "p" "1" "A") smooth, .uninstall "p" smooth]
    { pack := "p", id := "sha256:A", creator := none, elsewhere := false, ofFailed := false }
    (by decide +kernel)
  exact absurd hown.1 (by decide)

end Cerid.Packs
