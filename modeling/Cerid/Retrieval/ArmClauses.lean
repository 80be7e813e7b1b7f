import Cerid.Retrieval.Arms
import Cerid.Retrieval.ScopeRight

/-!
# What the arms let through

The clause of each arm, read off for every filter: what is left of the filter when the conditions
are added, and the conditions that are not skipped.
-/

namespace Cerid.Retrieval

open Where

/-! ## The steps that are skipped -/

section Skips

variable (c : Scoping) (filter : Option Where)

/-- The tenant is not added where the first step that adds something finds it. -/
def SkipsTenant : Prop := ∃ w, filter = some w ∧ ¬c.early ∧ w.has "tenant_id" = true

def SkipsPending : Prop :=
  ∃ w, filter = some w ∧ (seen (c.cutsTenant w) w).named "cerid_state" = true

def SkipsParent : Prop :=
  ∃ w, filter = some w ∧ (seen (c.cutsFolders w) w).named "chunk_level" = true

/-- What is left of the filter when a condition is added. -/
def leftHolds (m : Metadata) : Prop := ∀ w, filter = some w → w.left.holds m = true

/-- The fields of the filter that stand beside its list, or are all of it. -/
def besideHolds (m : Metadata) : Prop := ∀ w, filter = some w → w.fieldsHold m = true

theorem optHolds_iff {filter : Option Where} (m : Metadata) :
    optHolds m filter = true ↔ besideHolds filter m ∧ leftHolds filter m := by
  cases filter with
  | none => exact ⟨fun _ => ⟨nofun, nofun⟩, fun _ => rfl⟩
  | some w =>
    show w.holds m = true ↔ _
    rw [holds_eq, Bool.and_eq_true]
    constructor
    · intro h
      exact ⟨fun w' hw' => by cases hw'; exact h.1, fun w' hw' => by cases hw'; exact h.2⟩
    · intro h
      exact ⟨h.1 w rfl, h.2 w rfl⟩

end Skips

/-- Where nothing is skipped. -/
theorem added_congr {c : Scoping} {tenant pending parent tenant' pending' parent' : Prop}
    (htenant : tenant ↔ tenant') (hpending : pending ↔ pending') (hparent : parent ↔ parent')
    (m : Metadata) : c.Added tenant pending parent m ↔ c.Added tenant' pending' parent' m := by
  rw [propext htenant, propext hpending, propext hparent]

variable {c : Scoping} {filter : Option Where}

/-- What a search that goes through accepts. -/
theorem optHolds_queryWhere {r : Option Where} (h : queryWhere c filter = .ok r)
    (htaken : optTaken r = true) (m : Metadata) :
    optHolds m r = true ↔ leftHolds filter m ∧
      c.Added (SkipsTenant c filter) (SkipsPending c filter) (SkipsParent c filter) m := by
  cases filter with
  | none =>
    rw [(queryWhere_proper proper_none h).1 m]
    refine and_congr ⟨fun _ => nofun, fun _ => rfl⟩ (added_congr ?_ ?_ ?_ m)
    · exact ⟨False.elim, fun hskip => nomatch hskip⟩
    · exact ⟨fun hskip => absurd hskip Bool.false_ne_true, fun hskip => nomatch hskip⟩
    · exact ⟨fun hskip => absurd hskip Bool.false_ne_true, fun hskip => nomatch hskip⟩
  | some w =>
    have htenant : SkipsTenant c (some w) ↔ ¬c.early ∧ w.has "tenant_id" = true :=
      ⟨fun ⟨w', hw', h⟩ => by cases hw'; exact h, fun h => ⟨w, rfl, h⟩⟩
    have hpending : SkipsPending c (some w) ↔
        (seen (c.cutsTenant w) w).named "cerid_state" = true :=
      ⟨fun ⟨w', hw', h⟩ => by cases hw'; exact h, fun h => ⟨w, rfl, h⟩⟩
    have hparent : SkipsParent c (some w) ↔
        (seen (c.cutsFolders w) w).named "chunk_level" = true :=
      ⟨fun ⟨w', hw', h⟩ => by cases hw'; exact h, fun h => ⟨w, rfl, h⟩⟩
    have hleft : leftHolds (some w) m ↔ w.left.holds m = true :=
      ⟨fun h => h w rfl, fun h w' hw' => by cases hw'; exact h⟩
    rw [hleft, added_congr htenant hpending hparent]
    cases hempty : w.isEmpty with
    | false =>
      have hmeans := means_of_ok hempty h
      exact hmeans.holds ((hmeans.taken.mp htaken).elim (fun h => Or.inl (Or.inl h.2))
        fun h => h.2) m
    | true =>
      -- The empty mapping is replaced, or the store would not take the clause.
      by_cases hfits : FitsEmpty c
      · have hwhole : w.left = w := left_of_plain (Or.inl (empty_fields hempty).2)
        have hname : ∀ (cut : Prop) [Decidable cut] (f : String),
            (seen cut w).named f = true ↔ False := by
          intro cut _ f
          rw [seen, hwhole, ite_self, empty_named hempty]
          exact iff_of_false Bool.false_ne_true id
        rw [queryWhere_empty hempty hfits] at h
        rw [(queryWhere_proper proper_none h).1 m, hwhole, empty_holds hempty m]
        refine and_congr ⟨fun _ => rfl, fun _ => rfl⟩ (added_congr ?_ ?_ ?_ m)
        · have hhas : w.has "tenant_id" = false := by
            have hnamed := empty_named hempty "tenant_id"
            rw [named, Bool.or_eq_false_iff] at hnamed
            exact hnamed.1
          rw [hhas]
          exact ⟨False.elim, fun hskip => Bool.false_ne_true hskip.2⟩
        · rw [hname]
          exact iff_of_false Bool.false_ne_true id
        · rw [hname]
          exact iff_of_false Bool.false_ne_true id
      · obtain ⟨r', hr', hnot⟩ := not_taken_of_empty hempty hfits
        cases h.symm.trans hr'
        rw [hnot] at htaken
        cases htaken

/-- A field of the filter that the tenant's step finds is the tenant. -/
theorem tenant_of_skips {r : Option Where} (h : queryWhere c filter = .ok r)
    (hskips : SkipsTenant c filter) {m : Metadata} (hbeside : besideHolds filter m) {active : String}
    (hactive : c.tenant = some active) : m "tenant_id" = some (.str active) := by
  obtain ⟨w, hw, hearly, hhas⟩ := hskips
  rw [hw] at h
  have hne : w.isEmpty = false := by
    cases hempty : w.isEmpty with
    | false => rfl
    | true =>
      have hnamed := empty_named hempty "tenant_id"
      rw [named, hhas] at hnamed
      cases hnamed
  exact tenant_of_fields hearly hne h hhas (hbeside w hw) hactive

theorem accepts_eq_true_iff {w : Except ScopeError (Option Where)} {m : Metadata} :
    accepts w m = true ↔ ∃ r, w = .ok r ∧ optTaken r = true ∧ optHolds m r = true := by
  cases w with
  | error e => exact iff_of_false Bool.false_ne_true fun ⟨r, hr, _⟩ => nomatch hr
  | ok r =>
    show (optTaken r && optHolds m r) = true ↔ _
    rw [Bool.and_eq_true]
    exact ⟨fun h => ⟨r, rfl, h⟩, fun ⟨r', hr', h⟩ => by cases hr'; exact h⟩

/-- The clause of a search: what is left of the filter, and what is added. -/
theorem accepts_queryWhere_iff {m : Metadata} :
    accepts (queryWhere c filter) m = true ↔
      (∃ r, queryWhere c filter = .ok r ∧ optTaken r = true) ∧ leftHolds filter m ∧
        c.Added (SkipsTenant c filter) (SkipsPending c filter) (SkipsParent c filter) m := by
  rw [accepts_eq_true_iff]
  constructor
  · intro ⟨r, hr, htaken, hholds⟩
    exact ⟨⟨r, hr, htaken⟩, (optHolds_queryWhere hr htaken m).mp hholds⟩
  · intro ⟨⟨r, hr, htaken⟩, hboth⟩
    exact ⟨r, hr, htaken, (optHolds_queryWhere hr htaken m).mpr hboth⟩

namespace KbQuery

variable (q : KbQuery)

/-- The clause for questions is the one of a search that adds less. -/
def hypeScoping (domain : String) : Scoping :=
  { q.scoping domain with verified := false, pcEnabled := false, asOf := some "" }

theorem hypeWhere_eq (domain : String) :
    q.hypeWhere domain = queryWhere (q.hypeScoping domain) q.metadataFilter := rfl

/-- The clause for an artifact's chunks means the artifact, the pending state, the tenant and the
folders. -/
theorem accepts_artifactWhere_iff (artifactId : String) (m : Metadata) :
    accepts (q.artifactWhere artifactId) m = true ↔
      m "artifact_id" = some (.str artifactId) ∧
      (q.filterPending = true → m "cerid_state" ≠ some (.str "pending")) ∧
      (∀ active, q.tenant = some active → m "tenant_id" = some (.str active)) ∧
      ∀ id ∈ q.foldersOff, m "watched_folder_id" ≠ some (.str id) := by
  have hsingle := proper_single "artifact_id" (.value (.str artifactId))
  have hpending := adds_excludePending hsingle q.filterPending
  obtain ⟨hproper, hholds, htaken, -⟩ := asChromaClause_spec hpending.proper
  obtain ⟨v, hv⟩ : ∃ v, withTenantScope q.tenant (excludePending q.filterPending
      (some (single "artifact_id" (.value (.str artifactId))))) = .ok v := by
    cases q.tenant with
    | none => exact ⟨_, rfl⟩
    | some active =>
      cases q.filterPending with
      | false => exact ⟨_, rfl⟩
      | true => exact ⟨_, rfl⟩
  have htenant := adds_withTenantScope hpending.proper hv
  have hfolders := adds_excludeFolders htenant.proper q.foldersOff
  have hwhere : q.artifactWhere artifactId = .ok (excludeFolders v q.foldersOff) := by
    rw [artifactWhere, hv]
    rfl
  have hnamed : optNamed "cerid_state" (some (single "artifact_id" (.value (.str artifactId)))) =
      false := rfl
  rw [hwhere]
  show (optTaken _ && optHolds m _) = true ↔ _
  rw [hfolders.taken, htenant.taken, htaken, hpending.taken, hfolders.holds, htenant.holds, hholds,
    hpending.holds, hnamed, Bool.false_or]
  show ((_ || (single "artifact_id" (.value (.str artifactId))).taken) &&
    ((((single "artifact_id" (.value (.str artifactId))).holds m && _) && _) && _)) = true ↔ _
  rw [taken_single, Bool.or_true, Bool.true_and, holds_single, Bool.and_eq_true, Bool.and_eq_true,
    Bool.and_eq_true, and_assoc, and_assoc, guard_iff, unless_iff, tenantHolds_iff]
  refine and_congr decide_eq_true_iff (and_congr (imp_congr_right fun _ => ?_)
    (and_congr Iff.rfl ?_))
  · exact single_ne_holds m "cerid_state" (.str "pending")
  · rw [foldersClause_holds]
    constructor
    · intro h id hid
      exact h (fun hnil => List.not_mem_nil (hnil ▸ hid)) id hid
    · exact fun h _ => h

end KbQuery

end Cerid.Retrieval
