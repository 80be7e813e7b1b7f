import Cerid.Retrieval.Scope

/-!
# What the clause of a domain query says

A step fuses its condition in and leaves the rest, if the clause it is given has no field beside
a list.  Such fields are used up by the first step that adds to the list, and a step that looks
for a field does not add its condition where the caller names it.
-/

namespace Cerid.Retrieval

open Where

section Steps

variable {w r : Option Where}

/-- The record types, the verified memories and the tenant. -/
def Scoping.early (c : Scoping) : Prop := c.recordTypes ≠ [] ∨ c.verified = true

instance (c : Scoping) : Decidable c.early := inferInstanceAs (Decidable (_ ∨ _))

/-- A clause has no list. -/
def flat (w : Option Where) : Bool := w.all fun w => w.all.isNone

def tenantHolds (tenant : Option String) (m : Metadata) : Bool :=
  tenant.all fun active => (tenantClause active).holds m

theorem isEmpty_blank (w : Where) (h : w.isEmpty = false) : isEmpty w = false := h

theorem false_blank (w : Where) (_ : w.isEmpty = false) : (fun _ : Where => false) w = false := rfl

theorem any_never (w : Option Where) : w.any (fun _ : Where => false) = false := by
  cases w with
  | none => rfl
  | some w => rfl

/-- What a step makes of a clause: it adds its condition `extra`, and names only `field`. -/
structure Adds (w r : Option Where) (extra : Metadata → Bool) (fields : List String) : Prop where
  proper : Proper r
  holds : ∀ m, optHolds m r = (optHolds m w && extra m)
  taken : optTaken r = optTaken w
  named : ∀ f, f ∉ fields → optNamed f r = optNamed f w

theorem adds_self (hw : Proper w) (fields : List String) : Adds w w (fun _ => true) fields where
  proper := hw
  holds := fun _ => (Bool.and_true _).symm
  taken := rfl
  named := fun _ _ => rfl

theorem Adds.trans {w₁ w₂ w₃ : Option Where} {e₁ e₂ : Metadata → Bool} {f₁ f₂ : List String}
    (h₁ : Adds w₁ w₂ e₁ f₁) (h₂ : Adds w₂ w₃ e₂ f₂) :
    Adds w₁ w₃ (fun m => e₁ m && e₂ m) (f₁ ++ f₂) where
  proper := h₂.proper
  holds := fun m => by rw [h₂.holds, h₁.holds, Bool.and_assoc]
  taken := h₂.taken.trans h₁.taken
  named := fun f hf => by
    rw [List.mem_append, not_or] at hf
    rw [h₂.named f hf.2, h₁.named f hf.1]

/-- A step of the family. -/
theorem adds_fuse {blank skip : Where → Bool} (hblank : ∀ w : Where, w.isEmpty = false → blank w = false)
    (hw : Proper w) (field : String) (condition : Condition) :
    Adds w (some (fuse blank skip w (single field condition)))
      (fun m => w.any skip || (single field condition).holds m) [field] where
  proper := proper_fuse hw (proper_single field condition)
  holds := fun m => holds_fuse hblank m hw _
  taken := by
    show (fuse blank skip w (single field condition)).taken = _
    rw [taken_fuse hblank hw, taken_single, Bool.or_true, Bool.and_true]
  named := fun f hf => by
    show (fuse blank skip w (single field condition)).named f = _
    rw [named_fuse hblank f hw rfl, has_single, decide_eq_false (fun h => hf (List.mem_singleton.mpr h)),
      Bool.and_false, Bool.or_false]

/-- A step that skips nothing. -/
theorem adds_always {blank : Where → Bool} (hblank : ∀ w : Where, w.isEmpty = false → blank w = false)
    (hw : Proper w) (field : String) (condition : Condition) :
    Adds w (some (fuse blank (fun _ => false) w (single field condition)))
      (single field condition).holds [field] := by
  have hadd := @adds_fuse w blank (fun _ => false) hblank hw field condition
  rw [any_never] at hadd
  exact hadd

/-- A step that is made under a condition, and one that is not made under it. -/
theorem Adds.ite {extra : Metadata → Bool} {fields : List String} (hadd : Adds w r extra fields)
    (hw : Proper w) (p : Prop) [Decidable p] :
    Adds w (if p then r else w) (fun m => !decide p || extra m) fields := by
  by_cases h : p
  · rw [if_pos h, decide_eq_true h]
    exact hadd
  · rw [if_neg h, decide_eq_false h]
    exact adds_self hw fields

theorem Adds.ite_not {extra : Metadata → Bool} {fields : List String} (hadd : Adds w r extra fields)
    (hw : Proper w) (p : Prop) [Decidable p] :
    Adds w (if p then w else r) (fun m => decide p || extra m) fields := by
  by_cases h : p
  · rw [if_pos h, decide_eq_true h]
    exact adds_self hw fields
  · rw [if_neg h, decide_eq_false h]
    exact hadd

theorem adds_withRecordTypes (hw : Proper w) (recordTypes : List String) :
    Adds w (withRecordTypes w recordTypes)
      (fun m => decide (recordTypes = []) || (recordTypesClause recordTypes).holds m)
      ["record_type"] :=
  (adds_always isEmpty_blank hw "record_type" (recordTypesCondition recordTypes)).ite_not hw _

theorem adds_domainFilter (c : Scoping) (hw : Proper w) :
    Adds w (domainFilter c w)
      (fun m => (decide (c.recordTypes = []) || (recordTypesClause c.recordTypes).holds m) &&
        (!decide (c.verified = true) || notVerifiedMemoryWhere.holds m))
      ["record_type", "memory_source_type"] := by
  have htypes := adds_withRecordTypes hw c.recordTypes
  exact htypes.trans ((adds_always isEmpty_blank htypes.proper "memory_source_type"
    (.ne (.str "verification"))).ite htypes.proper (c.verified = true))

theorem adds_excludePending (hw : Proper w) (on : Bool) :
    Adds w (excludePending on w)
      (fun m => !decide (on = true) || (optNamed "cerid_state" w || excludePendingClause.holds m))
      ["cerid_state"] :=
  (adds_fuse false_blank hw "cerid_state" (.ne (.str "pending"))).ite hw _

theorem adds_excludeFolders (hw : Proper w) (folderIds : List String) :
    Adds w (excludeFolders w folderIds)
      (fun m => decide (folderIds = []) || (foldersClause folderIds).holds m)
      ["watched_folder_id"] :=
  (adds_always false_blank hw "watched_folder_id" (.notIn (folderIds.map .str))).ite_not hw _

theorem adds_pcFuseChildFilter (hw : Proper w) :
    Adds w (pcFuseChildFilter w) (fun m => optNamed "chunk_level" w || childClause.holds m)
      ["chunk_level"] :=
  adds_fuse false_blank hw "chunk_level" (.ne (.str "parent"))

/-- The rest of the conditions; those of pending and of parent chunks where the caller does not
name the field. -/
theorem adds_finish (c : Scoping) (hw : Proper w) :
    ∃ fields, Adds w (finish c w)
      (fun m => ((!decide (c.filterPending = true) ||
            (optNamed "cerid_state" w || excludePendingClause.holds m)) &&
          (decide (c.foldersOff = []) || (foldersClause c.foldersOff).holds m)) &&
        ((!decide (c.pcEnabled = true) || (optNamed "chunk_level" w || childClause.holds m)) &&
          (!decide (c.asOf = none) || currentOnlyWhere.holds m))) fields := by
  have hpending := adds_excludePending hw c.filterPending
  have hboth := hpending.trans (adds_excludeFolders hpending.proper c.foldersOff)
  -- Neither of the two names a level.
  have hlevel := hboth.named "chunk_level" (by decide)
  have hparent := (adds_pcFuseChildFilter hboth.proper).ite hboth.proper (c.pcEnabled = true)
  rw [hlevel] at hparent
  exact ⟨_, hboth.trans (hparent.trans ((adds_always isEmpty_blank hparent.proper "version_closed"
    (.ne (.num 1))).ite hparent.proper (c.asOf = none)))⟩

/-! ## The tenant -/

theorem optNamed_conj (field : String) (clauses : List Where) :
    optNamed field (some (conj clauses)) = clauses.any (has field) := Bool.false_or _

/-- A clause that is not empty and has no list has fields, and one that has a list and is plain
has none. -/
theorem fields_ne_nil {v : Where} (hv : v.isEmpty = false) (hall : v.all = none) :
    v.fields.items ≠ [] := by
  intro hitems
  rw [isEmpty, hitems, hall] at hv
  exact absurd hv (by decide)

theorem asChromaClause_list (fields : Dict String Condition) (clauses : List Where) :
    asChromaClause (some (mk fields (some clauses))) = some (mk fields (some clauses)) := by
  show some (if fields.items.length + 1 ≤ 1 then mk fields (some clauses)
    else mk fields (some clauses)) = _
  rw [ite_self]

theorem asChromaClause_flat (fields : Dict String Condition) :
    asChromaClause (some (mk fields none)) =
      some (if fields.items.length ≤ 1 then mk fields none else conj (singles fields)) := rfl

theorem asChromaClause_spec (hw : Proper w) :
    Proper (asChromaClause w) ∧ (∀ m, optHolds m (asChromaClause w) = optHolds m w) ∧
      optTaken (asChromaClause w) = (flat w || optTaken w) ∧
      ∀ f, optNamed f (asChromaClause w) = optNamed f w := by
  cases w with
  | none => exact ⟨hw, fun _ => rfl, rfl, fun _ => rfl⟩
  | some v =>
    obtain ⟨hplain, hne⟩ := hw v rfl
    obtain ⟨fields, all⟩ := v
    cases all with
    | some clauses =>
      rw [asChromaClause_list]
      exact ⟨hw, fun _ => rfl, (Bool.false_or _).symm, fun _ => rfl⟩
    | none =>
      have hitems := fields_ne_nil hne rfl
      have hpos : 0 < fields.items.length := List.length_pos_iff.mpr hitems
      rw [asChromaClause_flat]
      by_cases hone : fields.items.length ≤ 1
      · have htaken : (Where.mk fields none).taken = true := by
          rw [taken]
          exact decide_eq_true (by omega)
        rw [if_pos hone]
        exact ⟨hw, fun _ => rfl, htaken.trans (Bool.true_or _).symm, fun _ => rfl⟩
      · rw [if_neg hone]
        refine ⟨fun clause h => ?_, fun m => ?_, ?_, fun f => ?_⟩
        · cases h
          exact ⟨plain_conj _, rfl⟩
        · show (conj (singles fields)).holds m = holds m (mk fields none)
          rw [holds_conj, all_holds_singles, holds]
        · show (conj (singles fields)).taken = _
          rw [taken_conj, all_taken_singles]
          rfl
        · show optNamed f (some (conj (singles fields))) = _
          rw [optNamed_conj, any_has_singles]
          exact (Bool.or_false _).symm

theorem holds_field {v : Where} {field : String} {condition : Condition} {m : Metadata}
    (hget : v.fields.get? field = some condition) (hv : v.holds m = true) :
    condition.holds (m field) = true := by
  rw [holds_eq, Bool.and_eq_true] at hv
  exact List.all_eq_true.mp hv.1 _ ((Dict.mem_items_iff _ _ _).mpr hget)

/-- The tenant's clause before the others. -/
theorem adds_tenantClause {v : Where} (hv : v.Plain) (active : String) :
    Adds (some v) (some (conj (tenantClause active :: v.clauses))) (tenantHolds (some active))
      ["tenant_id"] where
  proper := fun clause h => by
    cases h
    exact ⟨plain_conj _, rfl⟩
  holds := fun m => by
    show (conj (tenantClause active :: v.clauses)).holds m = _
    rw [holds_conj, List.all_cons, all_clauses _ (holds_conj m), left_of_plain hv, Bool.and_comm]
    rfl
  taken := by
    show (conj (tenantClause active :: v.clauses)).taken = _
    rw [taken_conj, List.all_cons, all_clauses _ taken_conj, left_of_plain hv, tenantClause,
      taken_single, Bool.true_and]
    rfl
  named := fun f hf => by
    rw [optNamed_conj, List.any_cons, any_clauses_of_plain hv, tenantClause, has_single,
      decide_eq_false (fun h => hf (List.mem_singleton.mpr h)), Bool.false_or]
    rfl

/-- The tenant's step, when it does not raise. -/
theorem adds_withTenantScope (hw : Proper w) {tenant : Option String}
    (h : withTenantScope tenant w = .ok r) :
    Adds (asChromaClause w) r (tenantHolds tenant) ["tenant_id"] := by
  obtain ⟨hproper, hholds, htaken, hnamed⟩ := asChromaClause_spec hw
  cases tenant with
  | none =>
    cases h
    exact adds_self hproper _
  | some active =>
    cases w with
    | none =>
      cases h
      exact
        { proper := proper_single _ _
          holds := fun _ => rfl
          taken := taken_single "tenant_id" (.value (.str active))
          named := fun f hf => by
            show (tenantClause active).named f = false
            rw [tenantClause, named, has_single, decide_eq_false (fun h => hf (List.mem_singleton.mpr h))]
            rfl }
    | some v =>
      obtain ⟨hplain, hne⟩ := hw v rfl
      rw [withTenantScope, if_neg (by rw [hne]; exact Bool.false_ne_true)] at h
      split at h
      · rename_i condition hget
        split at h
        · cases h
        · rename_i hactive
          cases h
          rw [not_not] at hactive
          refine { adds_self hproper _ with holds := fun m => ?_ }
          -- The caller's own equality is the tenant's.
          rw [hholds]
          refine (Bool.and_eq_left_iff_imp.mpr fun hv => ?_).symm
          have hfield : condition.holds (m "tenant_id") = true :=
            holds_field hget hv
          rw [hactive] at hfield
          exact (holds_single m "tenant_id" _).trans hfield
      · obtain ⟨fields, all⟩ := v
        cases all with
        | some clauses =>
          rw [asChromaClause_list] at h ⊢
          cases h
          exact adds_tenantClause hplain active
        | none =>
          rw [asChromaClause_flat] at h ⊢
          by_cases hone : fields.items.length ≤ 1
          · rw [if_pos hone] at h ⊢
            cases h
            exact adds_tenantClause (Or.inl rfl) active
          · rw [if_neg hone] at h ⊢
            cases h
            exact adds_tenantClause (plain_conj _) active

end Steps

end Cerid.Retrieval
