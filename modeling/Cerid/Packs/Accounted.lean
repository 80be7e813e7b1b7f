import Cerid.Packs.Owned

/-!
# Failures in the middle of an install

The record is written once, after the ingests, and a failure of one file or of one delete is
logged and passed over.  As long as none of this leaves an artifact behind, every artifact
that a pack created is in its record.
-/

namespace Cerid.Packs

open Ingest (Source Library Result ingestContent removeContent)

/-- Every artifact that is there and that a pack created is in the record of the pack; no
upgrade removed an artifact of a file that had failed; and an install of a version that is
recorded attempted what the record lacks. -/
structure World.Accounted (w : World) : Prop where
  listed : ∀ id pack, w.has id = true → w.creator id = some pack →
    ∃ p ∈ w.installed, p.packId = pack ∧ id ∈ p.artifactIds
  kept : ∀ r ∈ w.removals, r.ofFailed = false
  repeated : ∀ c ∈ w.calls, ∀ path ∈ c.missing, path ∈ c.attempted

/-- Of these artifacts, those that are there and that the pack created are removed when `done`
are deleted. -/
def Cleaned (w : World) (pack : String) (s : Setting) (done ids : List String) : Prop :=
  ∀ id ∈ ids, w.has id = true → w.creator id = some pack →
    id ∈ done ∧ s.deleteFails id = false

section Hash

variable (contentHash : String → String)

/-- What an install that ingests may not do: no ingest raises after it wrote; if the process
stops before the record is written, the ingests created nothing; and in an upgrade no file
fails that the old version has an artifact of, and what the pack created and no longer lists
is deleted. -/
def Settles (w : World) (p : PackManifest) (s : Setting) : Prop :=
  let ingested := ingestAll contentHash w p s
  (∀ f ∈ upTo s.stop p.files, s.attempt f.relPath ≠ .lands) ∧
    (s.stopsBefore (p.files.length + 1) = true →
      ∀ id, ingested.1.has id = true → w.has id = true) ∧
    (s.stopsBefore (p.files.length + 1) = false →
      ∀ old, findInstalled w.installed p.id = some old →
        (∀ path id, (path, none) ∈ ingested.2 → (path, some id) ∉ old.files) ∧
          let superseded := old.artifactIds.filter
            (fun id => id ∉ (InstalledPack.mk p.id p.version ingested.2).artifactIds)
          Cleaned ingested.1 p.id s
            (upTo (s.stop.map (fun k => k - (p.files.length + 1))) superseded) superseded)

/-- An install is repeated only for a record that lacks no file, and otherwise settles; and an
uninstall that writes the state deletes what the pack created. -/
def Settled (w : World) : Op → Prop
  | .install p s =>
    (∀ e, findInstalled w.installed p.id = some e → e.version = p.version → e.missing = []) ∧
      (Proceeds w p s → Settles contentHash w p s)
  | .uninstall packId s => ∀ record, findInstalled w.installed packId = some record →
    s.stopsBefore (record.artifactIds.length + 1) = false →
      Cleaned w packId s record.artifactIds record.artifactIds
  | .ingest _ | .delete _ => True

end Hash

/-! ## The invariant -/

/-- A pack has one record. -/
structure World.Books (w : World) : Prop extends w.Accounted where
  once : ∀ p ∈ w.installed, ∀ q ∈ w.installed, p.packId = q.packId → p = q

theorem World.start_books (lib : Library) : (World.start lib).Books where
  listed := fun _ _ _ h => nomatch h
  kept := fun _ h => nomatch h
  repeated := fun _ h => nomatch h
  once := fun _ h => nomatch h

theorem World.Books.called {w : World} (h : w.Books) (attempted : List String) :
    (w.called [] attempted).Books where
  listed := h.listed
  kept := h.kept
  repeated := by
    intro c hc path hpath
    rcases List.mem_append.mp hc with hc | hc
    · exact h.repeated c hc path hpath
    · rw [List.mem_singleton] at hc
      subst hc
      exact nomatch hpath
  once := h.once

theorem findInstalled_once {state : List InstalledPack} {p : InstalledPack} (hp : p ∈ state)
    (honce : ∀ p ∈ state, ∀ q ∈ state, p.packId = q.packId → p = q) :
    findInstalled state p.packId = some p := by
  cases hfound : findInstalled state p.packId with
  | none =>
    exact absurd (decide_eq_true rfl) (List.find?_eq_none.mp hfound p hp)
  | some q =>
    obtain ⟨hq, hpack⟩ := findInstalled_some hfound
    rw [honce q hq p hp hpack]

theorem World.removeAll_kept (pack : String) (s : Setting) {ofFailed : String → Bool}
    (hfailed : ∀ id, ofFailed id = false) (ids : List String) (w : World)
    (hw : ∀ r ∈ w.removals, r.ofFailed = false) :
    ∀ r ∈ (w.removeAll pack s ofFailed ids).removals, r.ofFailed = false := by
  unfold World.removeAll
  induction ids generalizing w with
  | nil => exact hw
  | cons id rest ih =>
    rw [List.foldl_cons]
    split
    · exact ih w hw
    · refine ih _ (fun r hr => ?_)
      unfold World.remove at hr
      split at hr
      · rcases List.mem_append.mp hr with hr | hr
        · exact hw r hr
        · rw [List.mem_singleton] at hr
          subst hr
          exact hfailed id
      · exact hw r hr

/-! ## The ingest loop -/

variable {contentHash : String → String}

/-- What the ingests of a pack have done so far. -/
structure Written (w : World) (p : PackManifest)
    (acc : World × List (String × Option String)) : Prop where
  installed : acc.1.installed = w.installed
  removals : acc.1.removals = w.removals
  calls : acc.1.calls = w.calls
  old : ∀ id, w.has id = true → acc.1.has id = true ∧ acc.1.creator id = w.creator id
  new : ∀ id, w.has id = false → acc.1.has id = true →
    acc.1.creator id = some p.id ∧ ∃ path, (path, some id) ∈ acc.2

theorem Written.step {w : World} {p : PackManifest} {s : Setting}
    {acc : World × List (String × Option String)} {f : ContentFile} (h : Written w p acc)
    (hf : s.attempt f.relPath ≠ .lands) : Written w p (ingestOne contentHash p s acc f) := by
  unfold ingestOne
  dsimp only
  cases hattempt : s.attempt f.relPath with
  | lands => exact absurd hattempt hf
  | raises =>
    refine
      { installed := h.installed, removals := h.removals, calls := h.calls, old := h.old,
        new := fun id hid hhas => ?_ }
    obtain ⟨hcreator, path, hmem⟩ := h.new id hid hhas
    exact ⟨hcreator, path, List.mem_append_left _ hmem⟩
  | answers =>
    obtain ⟨hold, hnew⟩ : (∀ x, holds acc.1.lib x = true → _) ∧ ∀ x, _ → _ :=
      ⟨fun x => (holds_ingestContent contentHash acc.1.lib f.source x).1,
        fun x => (holds_ingestContent contentHash acc.1.lib f.source x).2⟩
    refine
      { installed := h.installed, removals := h.removals, calls := h.calls, old := ?_, new := ?_ }
    · intro id hid
      obtain ⟨hhas, hcreator⟩ := h.old id hid
      exact ⟨hold id hhas, (World.creator_write_old _ _ _ hhas).trans hcreator⟩
    · intro id hid hhas
      cases hbefore : acc.1.has id with
      | true =>
        obtain ⟨hcreator, path, hmem⟩ := h.new id hid hbefore
        exact ⟨(World.creator_write_old _ _ _ hbefore).trans hcreator, path,
          List.mem_append_left _ hmem⟩
      | false =>
        refine ⟨World.creator_write_new _ _ _ hbefore hhas, f.relPath, ?_⟩
        rcases hnew id hhas with hheld | hanswer
        · exact absurd (hheld.symm.trans hbefore) (by decide)
        · refine List.mem_append_right _ (List.mem_singleton.mpr ?_)
          rw [hanswer]

theorem ingestAll_written (w : World) (p : PackManifest) (s : Setting)
    (hlands : ∀ f ∈ upTo s.stop p.files, s.attempt f.relPath ≠ .lands) :
    Written w p (ingestAll contentHash w p s) :=
  foldl_invariant (ingestOne contentHash p s) (Written w p)
    (fun _ _ h hf => h.step hf)
    { installed := rfl, removals := rfl, calls := rfl, old := fun _ h => ⟨h, rfl⟩,
      new := fun id hid hhas => absurd (hid.symm.trans hhas) (by decide) } hlands

/-! ## Installs and uninstalls -/

/-- The world once the record is written: what is there is in it, or in a record from
before. -/
structure Recorded (w : World) (record : InstalledPack) (w' : World) : Prop where
  installed : w'.installed = upsertInstalled w.installed record
  kept : ∀ r ∈ w'.removals, r.ofFailed = false
  repeated : ∀ c ∈ w'.calls, ∀ path ∈ c.missing, path ∈ c.attempted
  listed : ∀ id pack, w'.has id = true → w'.creator id = some pack →
    (∃ q ∈ w.installed, q.packId = pack ∧ id ∈ q.artifactIds) ∨
      (pack = record.packId ∧ id ∈ record.artifactIds)

theorem upsertInstalled_once {state : List InstalledPack} (record : InstalledPack)
    (honce : ∀ p ∈ state, ∀ q ∈ state, p.packId = q.packId → p = q) :
    ∀ p ∈ upsertInstalled state record, ∀ q ∈ upsertInstalled state record,
      p.packId = q.packId → p = q := by
  intro p hp q hq hpack
  rcases mem_upsertInstalled.mp hp with ⟨hp, hne⟩ | rfl
  · rcases mem_upsertInstalled.mp hq with ⟨hq, -⟩ | rfl
    · exact honce p hp q hq hpack
    · exact absurd hpack hne
  · rcases mem_upsertInstalled.mp hq with ⟨-, hne⟩ | rfl
    · exact absurd hpack.symm hne
    · rfl

/-- A first install. -/
theorem Recorded.fresh {w w' : World} {record : InstalledPack} (h : w.Books)
    (hr : Recorded w record w') (hnone : findInstalled w.installed record.packId = none) :
    w'.Books where
  kept := hr.kept
  repeated := hr.repeated
  once := hr.installed ▸ upsertInstalled_once record h.once
  listed := by
    intro id pack hhas hcreator
    rw [hr.installed]
    rcases hr.listed id pack hhas hcreator with ⟨q, hq, hpack, hid⟩ | ⟨hpack, hid⟩
    · refine ⟨q, mem_upsertInstalled.mpr (Or.inl ⟨hq, fun heq => ?_⟩), hpack, hid⟩
      have hfound := findInstalled_once hq h.once
      rw [heq, hnone] at hfound
      exact nomatch hfound
    · exact ⟨record, mem_upsertInstalled.mpr (Or.inr rfl), hpack.symm, hid⟩

/-- An upgrade that deletes what it leaves out. -/
theorem Recorded.upgraded {w w' : World} {record old : InstalledPack} (h : w.Books)
    (hr : Recorded w record w') (hold : findInstalled w.installed record.packId = some old)
    {s : Setting} {done : List String}
    (hfailed : ∀ path id, (path, none) ∈ record.files → (path, some id) ∉ old.files)
    (hcleaned : Cleaned w' record.packId s done
      (old.artifactIds.filter (fun id => id ∉ record.artifactIds))) :
    (w'.removeAll record.packId s (ofFailed old record.files) done).Books := by
  obtain ⟨hmem, hpack'⟩ := findInstalled_some hold
  obtain ⟨hinstalled, hcreators, hcalls⟩ :=
    World.removeAll_frame record.packId s (ofFailed old record.files) done w'
  refine { listed := ?_, kept := ?_, repeated := ?_, once := ?_ }
  · intro id pack hhas hcreator
    rw [hcreators] at hcreator
    rw [hinstalled, hr.installed]
    obtain ⟨hhas, hfails⟩ := (World.has_removeAll _ _ _ _ _ _).mp hhas
    rcases hr.listed id pack hhas hcreator with ⟨q, hq, hpack, hid⟩ | ⟨hpack, hid⟩
    · by_cases hother : q.packId = record.packId
      · have hsame := h.once q hq old hmem (hother.trans hpack'.symm)
        by_cases hagain : id ∈ record.artifactIds
        · exact ⟨record, mem_upsertInstalled.mpr (Or.inr rfl), hother.symm.trans hpack, hagain⟩
        · -- it is superseded, so it was deleted
          have hsuper : id ∈ old.artifactIds.filter (fun id => id ∉ record.artifactIds) :=
            List.mem_filter.mpr ⟨hsame ▸ hid, decide_eq_true hagain⟩
          obtain ⟨hreached, hworks⟩ := hcleaned id hsuper hhas
            (hcreator.trans (congrArg some (hpack.symm.trans hother)))
          exact absurd (hworks.symm.trans (hfails hreached)) (by decide)
      · exact ⟨q, mem_upsertInstalled.mpr (Or.inl ⟨hq, hother⟩), hpack, hid⟩
    · exact ⟨record, mem_upsertInstalled.mpr (Or.inr rfl), hpack.symm, hid⟩
  · refine World.removeAll_kept _ _ (fun id => ?_) _ _ hr.kept
    unfold ofFailed
    rw [List.any_eq_false]
    intro f hf hboth
    rw [Bool.and_eq_true, decide_eq_true_iff, decide_eq_true_iff] at hboth
    exact hfailed f.1 id hboth.2 (hboth.1 ▸ hf)
  · rw [hcalls]
    exact hr.repeated
  · rw [hinstalled, hr.installed]
    exact upsertInstalled_once record h.once

/-- What is there after the ingests is in a record, or among their answers. -/
theorem Written.listed {w : World} {p : PackManifest}
    {acc : World × List (String × Option String)} (hw : Written w p acc) (h : w.Books) (id pack : String)
    (hhas : acc.1.has id = true) (hcreator : acc.1.creator id = some pack) :
    (∃ q ∈ w.installed, q.packId = pack ∧ id ∈ q.artifactIds) ∨
      (pack = p.id ∧ id ∈ (InstalledPack.mk p.id p.version acc.2).artifactIds) := by
  cases hbefore : w.has id with
  | true => exact Or.inl (h.listed id pack hbefore ((hw.old id hbefore).2 ▸ hcreator))
  | false =>
    obtain ⟨hown, hanswered⟩ := hw.new id hbefore hhas
    exact Or.inr ⟨Option.some.inj (hcreator.symm.trans hown), mem_artifactIds.mpr hanswered⟩

theorem World.Books.install {w : World} (h : w.Books) {p : PackManifest} {s : Setting}
    (hok : Settled contentHash w (.install p s)) : (installPack contentHash w p s).Books := by
  obtain ⟨hrepeat, hsettles⟩ := hok
  unfold installPack
  dsimp only
  cases hsame : (findInstalled w.installed p.id).filter (fun e => e.version = p.version) with
  | some same =>
    dsimp only
    obtain ⟨hfound, hversion⟩ := Option.filter_eq_some_iff.mp hsame
    rw [hrepeat same hfound (of_decide_eq_true hversion)]
    exact h.called []
  | none =>
    dsimp only
    cases hrefused : refused p s with
    | true =>
      rw [if_pos rfl]
      exact h.called []
    | false =>
      rw [if_neg Bool.false_ne_true]
      obtain ⟨hlands, hstopped, hdone⟩ := hsettles ⟨hsame, hrefused⟩
      have hwritten : Written w p (ingestAll contentHash w p s) := ingestAll_written w p s hlands
      generalize ingestAll contentHash w p s = ingested at hwritten hstopped hdone ⊢
      have hrepeated : ∀ c ∈ (ingested.1.called [] (ingested.2.map Prod.fst)).calls,
          ∀ path ∈ c.missing, path ∈ c.attempted := by
        show ∀ c ∈ ingested.1.calls ++ [{ missing := [], attempted := ingested.2.map Prod.fst }], _
        rw [hwritten.calls]
        exact (h.called (ingested.2.map Prod.fst)).repeated
      have hkept : ∀ r ∈ ingested.1.removals, r.ofFailed = false := by
        rw [hwritten.removals]
        exact h.kept
      cases hstop : s.stopsBefore (p.files.length + 1) with
      | true =>
        rw [if_pos rfl]
        refine { listed := ?_, kept := hkept, repeated := hrepeated, once := ?_ }
        · intro id pack hhas hcreator
          have hbefore := hstopped hstop id hhas
          show ∃ q ∈ ingested.1.installed, _
          rw [hwritten.installed]
          exact h.listed id pack hbefore ((hwritten.old id hbefore).2 ▸ hcreator)
        · show ∀ q ∈ ingested.1.installed, ∀ q' ∈ ingested.1.installed, _
          rw [hwritten.installed]
          exact h.once
      | false =>
        rw [if_neg Bool.false_ne_true]
        have hrecorded : Recorded w { packId := p.id, version := p.version, files := ingested.2 }
            { ingested.1.called [] (ingested.2.map Prod.fst) with
              installed := upsertInstalled ingested.1.installed
                { packId := p.id, version := p.version, files := ingested.2 } } :=
          { installed := by
              show upsertInstalled ingested.1.installed _ = _
              rw [hwritten.installed]
            kept := hkept
            repeated := hrepeated
            listed := fun id pack hhas hcreator => hwritten.listed h id pack hhas hcreator }
        unfold commit
        cases hexisting : findInstalled w.installed p.id with
        | none => exact hrecorded.fresh h hexisting
        | some old =>
          obtain ⟨hfailed, hcleaned⟩ := hdone hstop old hexisting
          exact hrecorded.upgraded h hexisting hfailed hcleaned

theorem upTo_of_not_stopsBefore {s : Setting} {α : Type} {actions : List α} {n : Nat}
    (hn : actions.length ≤ n) (h : s.stopsBefore n = false) : upTo s.stop actions = actions := by
  unfold Setting.stopsBefore at h
  cases hstop : s.stop with
  | none => rfl
  | some k =>
    rw [hstop, Option.any_some, decide_eq_false_iff_not] at h
    exact List.take_of_length_le (by omega)

theorem World.Books.uninstall {w : World} (h : w.Books) {packId : String} {s : Setting}
    (hok : Settled contentHash w (.uninstall packId s)) : (uninstallPack w packId s).Books := by
  unfold uninstallPack
  cases hfound : findInstalled w.installed packId with
  | none => exact h
  | some record =>
    dsimp only
    obtain ⟨hmem, hpack⟩ := findInstalled_some hfound
    obtain ⟨hinstalled, hcreators, hcalls⟩ :=
      World.removeAll_frame packId s (fun _ => false) (upTo s.stop record.artifactIds) w
    have hkept : ∀ r ∈ (w.removeAll packId s (fun _ => false)
        (upTo s.stop record.artifactIds)).removals, r.ofFailed = false :=
      World.removeAll_kept packId s (fun _ => rfl) (upTo s.stop record.artifactIds) w h.kept
    have hlisted : ∀ id pack,
        (w.removeAll packId s (fun _ => false) (upTo s.stop record.artifactIds)).has id = true →
        (w.removeAll packId s (fun _ => false) (upTo s.stop record.artifactIds)).creator id =
          some pack → ∃ q ∈ w.installed, q.packId = pack ∧ id ∈ q.artifactIds := by
      intro id pack hhas hcreator
      rw [hcreators] at hcreator
      exact h.listed id pack ((World.has_removeAll _ _ _ _ _ _).mp hhas).1 hcreator
    cases hstop : s.stopsBefore (record.artifactIds.length + 1) with
    | true =>
      rw [if_pos rfl]
      refine { listed := ?_, kept := hkept, repeated := ?_, once := ?_ }
      · rw [hinstalled]
        exact hlisted
      · rw [hcalls]
        exact h.repeated
      · rw [hinstalled]
        exact h.once
    | false =>
      rw [if_neg Bool.false_ne_true]
      refine { listed := ?_, kept := hkept, repeated := ?_, once := ?_ }
      · intro id pack hhas hcreator
        obtain ⟨q, hq, hqpack, hid⟩ := hlisted id pack hhas hcreator
        show ∃ q ∈ removeInstalled (w.removeAll _ _ _ _).installed packId, _
        rw [hinstalled]
        refine ⟨q, mem_removeInstalled.mpr ⟨hq, fun heq => ?_⟩, hqpack, hid⟩
        -- its own pack deleted it
        have hsame := h.once q hq record hmem (heq.trans hpack.symm)
        subst hsame
        obtain ⟨hbefore, hfails⟩ := (World.has_removeAll _ _ _ _ _ _).mp hhas
        have hcreated : w.creator id = some packId := by
          have hc : w.creator id = some pack := hcreators ▸ hcreator
          rw [hc, ← hqpack, heq]
        have hclean := hok q hfound hstop id hid hbefore hcreated
        rw [upTo_of_not_stopsBefore (Nat.le_succ _) hstop] at hfails
        exact absurd (hclean.2.symm.trans (hfails hid)) (by decide)
      · show ∀ c ∈ (w.removeAll _ _ _ _).calls, _
        rw [hcalls]
        exact h.repeated
      · show ∀ q ∈ removeInstalled (w.removeAll _ _ _ _).installed packId,
          ∀ q' ∈ removeInstalled (w.removeAll _ _ _ _).installed packId, _
        rw [hinstalled]
        intro q hq q' hq' hqpack
        exact h.once q (mem_removeInstalled.mp hq).1 q' (mem_removeInstalled.mp hq').1 hqpack

theorem World.Books.step {w : World} (h : w.Books) {op : Op} (hok : Settled contentHash w op) :
    (step contentHash w op).Books := by
  cases op with
  | install p s => exact h.install hok
  | uninstall packId s => exact h.uninstall hok
  | ingest f =>
    refine { listed := ?_, kept := h.kept, repeated := h.repeated, once := h.once }
    intro id pack hhas hcreator
    cases hbefore : w.has id with
    | true =>
      have hold := World.creator_write_old w none (ingestContent contentHash w.lib f).1 hbefore
      exact h.listed id pack hbefore (hold.symm.trans hcreator)
    | false =>
      have hnew := World.creator_write_new w none (ingestContent contentHash w.lib f).1 hbefore hhas
      exact nomatch hnew.symm.trans hcreator
  | delete id =>
    show World.Books (if w.has id then { w with lib := removeContent w.lib id } else w)
    split
    · refine { listed := ?_, kept := h.kept, repeated := h.repeated, once := h.once }
      intro x pack hhas hcreator
      exact h.listed x pack ((holds_removeContent w.lib id x).mp hhas).1 hcreator
    · exact h

/-- Along every run in which what fails or stops leaves nothing behind, every artifact that a
pack created is in its record, no upgrade costs a failed file its old version, and a repeated
install has nothing to make up for. -/
theorem accounted (contentHash : String → String) (lib : Library) (ops : List Op)
    (h : Along (step contentHash) (Settled contentHash) (World.start lib) ops) :
    (ops.foldl (step contentHash) (World.start lib)).Accounted := by
  have hbooks := Along.invariant World.Books (fun _ _ hw ho => hw.step ho) (World.start_books lib) h
  exact hbooks.toAccounted

/-! ## An upgrade that goes well, and one that loses a page -/

theorem settled_install {w : World} {p : PackManifest}
    (hother : ∀ e, findInstalled w.installed p.id = some e → e.version ≠ p.version)
    (hall : (ingestAll contentHash w p smooth).2.all (fun f => f.2.isSome) = true) :
    Settled contentHash w (.install p smooth) := by
  refine ⟨fun e he hsame => absurd hsame (hother e he), fun _ => ⟨fun _ _ => ?_, fun h => ?_, ?_⟩⟩
  · show Attempt.answers ≠ .lands
    decide
  · exact absurd (show false = true from h) Bool.false_ne_true
  · intro _ old _
    refine ⟨fun path id hmem => ?_, fun id hid _ _ => ⟨hid, rfl⟩⟩
    exact absurd (List.all_eq_true.mp hall _ hmem) Bool.false_ne_true

theorem settled_uninstall (w : World) (packId : String) :
    Settled contentHash w (.uninstall packId smooth) :=
  fun _ _ _ _ hid _ _ => ⟨hid, rfl⟩

theorem accounted_upgraded :
    (upgraded.foldl (step Ingest.sampleHash) (World.start (notedLibrary "C"))).Accounted := by
  refine accounted Ingest.sampleHash (notedLibrary "C") upgraded
    ⟨settled_install (fun _ h => nomatch h) (by decide +kernel),
      settled_install ?_ (by decide +kernel), settled_uninstall _ _, trivial⟩
  intro e he
  have hrecord : findInstalled (step Ingest.sampleHash (World.start (notedLibrary "C"))
      (.install (onePage "p" "1" "A") smooth)).installed "p" =
        some { packId := "p", version := "1", files := [("page.md", some "sha256:A")] } := by
    decide +kernel
  have he' := hrecord.symm.trans he
  rw [Option.some.injEq] at he'
  subst he'
  decide

/-- The one page of the new version fails to ingest: the old version is removed, and the pack
is recorded as installed. -/
theorem failed_page_lost :
    ¬ ∀ (contentHash : String → String) (lib : Library) (ops : List Op),
      (ops.foldl (step contentHash) (World.start lib)).Accounted := by
  intro h
  have hkept := (h Ingest.sampleHash (notedLibrary "C")
    [.install (onePage "p" "1" "A") smooth,
      .install (onePage "p" "2" "B") { smooth with attempt := fun _ => .raises }]).kept
    { pack := "p", id := "sha256:A", creator := some "p", elsewhere := false, ofFailed := true }
    (by decide +kernel)
  exact absurd hkept (by decide)

end Cerid.Packs
