import Cerid.Retrieval.Scoped

/-!
# What is kept of a filter

A clause with fields beside a list is carried whole until a step adds to the list; from there on
only the list is kept.
-/

namespace Cerid.Retrieval

open Where

variable (c : Scoping)

/-! ## What is kept and what is added -/

/-- The tenant's step, or one before it, leaves the fields beside a list out. -/
def Scoping.cutsTenant (w : Where) : Prop :=
  c.early ∨ (c.tenant ≠ none ∧ w.has "tenant_id" = false)

instance (w : Where) : Decidable (c.cutsTenant w) := inferInstanceAs (Decidable (_ ∨ _))

def Scoping.cutsPending (w : Where) : Prop :=
  c.cutsTenant w ∨ (c.filterPending = true ∧ w.named "cerid_state" = false)

instance (w : Where) : Decidable (c.cutsPending w) := inferInstanceAs (Decidable (_ ∨ _))

def Scoping.cutsFolders (w : Where) : Prop := c.cutsPending w ∨ c.foldersOff ≠ []

instance (w : Where) : Decidable (c.cutsFolders w) := inferInstanceAs (Decidable (_ ∨ _))

def Scoping.cutsParent (w : Where) : Prop :=
  c.cutsFolders w ∨ (c.pcEnabled = true ∧ w.named "chunk_level" = false)

instance (w : Where) : Decidable (c.cutsParent w) := inferInstanceAs (Decidable (_ ∨ _))

def Scoping.cuts (w : Where) : Prop := c.cutsParent w ∨ c.asOf = none

instance (w : Where) : Decidable (c.cuts w) := inferInstanceAs (Decidable (_ ∨ _))

/-- The caller's filter as a step finds it. -/
def seen (cut : Prop) [Decidable cut] (w : Where) : Where := if cut then w.left else w

/-- The conditions of the query, but for those of the tenant, of pending and of parent chunks
where they are skipped. -/
structure Scoping.Added (tenant pending parent : Prop) (m : Metadata) : Prop where
  recordTypes : c.recordTypes ≠ [] → ∃ t ∈ c.recordTypes, m "record_type" = some (.str t)
  verified : c.verified = true → m "memory_source_type" ≠ some (.str "verification")
  tenant : ¬tenant → ∀ active, c.tenant = some active → m "tenant_id" = some (.str active)
  pending : ¬pending → c.filterPending = true → m "cerid_state" ≠ some (.str "pending")
  folders : ∀ id ∈ c.foldersOff, m "watched_folder_id" ≠ some (.str id)
  parent : ¬parent → c.pcEnabled = true → m "chunk_level" ≠ some (.str "parent")
  closed : c.asOf = none → m "version_closed" ≠ some (.num 1)

/-- A row meets what is kept of the caller's filter and the conditions that are added. -/
def Scoping.Keeps (w : Where) (m : Metadata) : Prop :=
  w.left.holds m = true ∧
    c.Added (¬c.early ∧ w.has "tenant_id" = true)
      ((seen (c.cutsTenant w) w).named "cerid_state" = true)
      ((seen (c.cutsFolders w) w).named "chunk_level" = true) m

/-! ## The clauses -/

section Clauses

variable (m : Metadata)

theorem recordTypesClause_holds {recordTypes : List String} (h : recordTypes ≠ []) :
    (recordTypesClause recordTypes).holds m = true ↔
      ∃ t ∈ recordTypes, m "record_type" = some (.str t) := by
  rw [recordTypesClause, holds_single]
  match recordTypes, h with
  | [t], _ =>
    show decide _ = true ↔ _
    rw [decide_eq_true_iff]
    exact ⟨fun h => ⟨t, List.mem_singleton.mpr rfl, h⟩,
      fun ⟨t', ht', h⟩ => by rw [h, List.mem_singleton.mp ht']⟩
  | t :: t' :: rest, _ =>
    show Option.any _ _ = true ↔ _
    rw [Option.any_eq_true]
    constructor
    · rintro ⟨v, hv, hmem⟩
      rw [decide_eq_true_iff, List.mem_map] at hmem
      obtain ⟨t₀, ht₀, rfl⟩ := hmem
      exact ⟨t₀, ht₀, hv⟩
    · rintro ⟨t₀, ht₀, hm⟩
      exact ⟨_, hm, decide_eq_true (List.mem_map_of_mem ht₀)⟩

theorem single_ne_holds (field : String) (v : MetaValue) :
    (single field (.ne v)).holds m = true ↔ m field ≠ some v := by
  rw [holds_single]
  exact decide_eq_true_iff

theorem tenantHolds_iff (tenant : Option String) :
    tenantHolds tenant m = true ↔ ∀ active, tenant = some active →
      m "tenant_id" = some (.str active) := by
  cases tenant with
  | none => exact ⟨fun _ => nofun, fun _ => rfl⟩
  | some active =>
    show (tenantClause active).holds m = true ↔ _
    rw [tenantClause, holds_single]
    show decide _ = true ↔ _
    rw [decide_eq_true_iff]
    exact ⟨fun h _ hactive => by cases hactive; exact h, fun h => h active rfl⟩

theorem foldersClause_holds (folderIds : List String) :
    (foldersClause folderIds).holds m = true ↔
      ∀ id ∈ folderIds, m "watched_folder_id" ≠ some (.str id) := by
  rw [foldersClause, holds_single]
  show (!Option.any _ _) = true ↔ _
  rw [Bool.not_eq_true', ← Bool.not_eq_true, Option.any_eq_true]
  constructor
  · intro h id hid hm
    exact h ⟨_, hm, decide_eq_true (List.mem_map_of_mem hid)⟩
  · rintro h ⟨v, hv, hmem⟩
    rw [decide_eq_true_iff, List.mem_map] at hmem
    obtain ⟨id, hid, rfl⟩ := hmem
    exact h id hid hv

theorem guard_iff (p : Prop) [Decidable p] (b : Bool) :
    (!decide p || b) = true ↔ (p → b = true) := by
  rw [Bool.or_eq_true, Bool.not_eq_true', decide_eq_false_iff_not, ← imp_iff_not_or]

theorem unless_iff (p : Prop) [Decidable p] (b : Bool) :
    (decide p || b) = true ↔ (¬p → b = true) := by
  rw [Bool.or_eq_true, decide_eq_true_iff, or_iff_not_imp_left]

/-- What the steps add, read off. -/
theorem added_iff (tenant pending parent : Bool) :
    ((((decide (c.recordTypes = []) || (recordTypesClause c.recordTypes).holds m) &&
          (!decide (c.verified = true) || notVerifiedMemoryWhere.holds m)) &&
        (tenant || tenantHolds c.tenant m)) &&
      (((!decide (c.filterPending = true) || (pending || excludePendingClause.holds m)) &&
          (decide (c.foldersOff = []) || (foldersClause c.foldersOff).holds m)) &&
        ((!decide (c.pcEnabled = true) || (parent || childClause.holds m)) &&
          (!decide (c.asOf = none) || currentOnlyWhere.holds m)))) = true ↔
      c.Added (tenant = true) (pending = true) (parent = true) m := by
  have hskip : ∀ (b b' : Bool), (b || b') = true ↔ (¬b = true → b' = true) := fun b b' => by
    rw [Bool.or_eq_true, or_iff_not_imp_left]
  simp only [Bool.and_eq_true]
  rw [unless_iff, guard_iff, hskip, tenantHolds_iff, guard_iff, hskip, unless_iff, foldersClause_holds,
    guard_iff, hskip, guard_iff, notVerifiedMemoryWhere, single_ne_holds, excludePendingClause,
    single_ne_holds, childClause, single_ne_holds, currentOnlyWhere, single_ne_holds]
  constructor
  · intro ⟨⟨⟨htypes, hverified⟩, htenant⟩, ⟨hpending, hfolders⟩, hparent, hclosed⟩
    exact
      { recordTypes := fun h => (recordTypesClause_holds m h).mp (htypes h)
        verified := hverified
        tenant := htenant
        pending := fun hskip hon => hpending hon hskip
        folders := fun id hid => hfolders (List.ne_nil_of_mem hid) id hid
        parent := fun hskip hon => hparent hon hskip
        closed := hclosed }
  · intro h
    exact ⟨⟨⟨fun hne => (recordTypesClause_holds m hne).mpr (h.recordTypes hne), h.verified⟩,
      h.tenant⟩, ⟨fun hon hskip => h.pending hskip hon, fun _ => h.folders⟩,
      fun hon hskip => h.parent hskip hon, h.closed⟩

end Clauses

/-! ## Filters without fields beside a list -/

section Proper

variable {c}

theorem fuseWhere_conj {w : Where} (hne : w.isEmpty = false) (clause : Where) :
    fuseWhere (some w) clause = conj (w.clauses ++ [clause]) := by
  rw [fuseWhere, fuse, if_neg (by rw [hne]; exact Bool.false_ne_true)]
  rfl

/-- A condition that is added to a filter makes a list. -/
theorem domainFilter_conj {w : Where} (hne : w.isEmpty = false) (h : c.early) :
    ∃ clauses, domainFilter c (some w) = some (conj clauses) := by
  by_cases htypes : c.recordTypes = []
  · have hverified := h.resolve_left (not_not.mpr htypes)
    rw [domainFilter, if_pos hverified, withRecordTypes, if_pos htypes]
    exact ⟨_, congrArg some (fuseWhere_conj hne _)⟩
  · have htypes' : withRecordTypes (some w) c.recordTypes =
        some (conj (w.clauses ++ [recordTypesClause c.recordTypes])) := by
      rw [withRecordTypes, if_neg htypes]
      exact congrArg some (fuseWhere_conj hne _)
    by_cases hverified : c.verified = true
    · rw [domainFilter, if_pos hverified, htypes']
      exact ⟨_, congrArg some (fuseWhere_conj rfl _)⟩
    · rw [domainFilter, if_neg hverified, htypes']
      exact ⟨_, rfl⟩

theorem early_domainFilter {w : Option Where} (hw : Proper w) (h : c.early) :
    flat (domainFilter c w) = true → optTaken (domainFilter c w) = true := by
  intro hflat
  rw [(adds_domainFilter c hw).taken]
  cases w with
  | none => rfl
  | some v =>
    obtain ⟨clauses, hclauses⟩ := domainFilter_conj (hw v rfl).2 h
    rw [hclauses] at hflat
    exact absurd hflat Bool.false_ne_true

theorem domainFilter_of_not_early {w : Option Where} (h : ¬c.early) : domainFilter c w = w := by
  rw [Scoping.early, not_or, not_not] at h
  rw [domainFilter, if_neg h.2, withRecordTypes, if_pos h.1]

theorem queryWhere_ok {w r : Option Where} (h : queryWhere c w = .ok r) :
    ∃ v, withTenantScope c.tenant (domainFilter c w) = .ok v ∧ r = finish c v := by
  rw [queryWhere] at h
  cases hv : withTenantScope c.tenant (domainFilter c w) with
  | error e =>
    rw [hv] at h
    cases h
  | ok v =>
    rw [hv] at h
    cases h
    exact ⟨v, rfl, rfl⟩

/-- The clause for a proper filter. -/
theorem queryWhere_proper {w r : Option Where} (hw : Proper w) (h : queryWhere c w = .ok r) :
    (∀ m, optHolds m r = true ↔ optHolds m w = true ∧
      c.Added False (optNamed "cerid_state" w = true) (optNamed "chunk_level" w = true) m) ∧
    (optTaken r = true ↔ (¬c.early ∧ flat w = true) ∨ optTaken w = true) := by
  obtain ⟨v, hv, rfl⟩ := queryWhere_ok h
  have hdomain := adds_domainFilter c hw
  obtain ⟨hproper, hholds, htaken, hnamed⟩ := asChromaClause_spec hdomain.proper
  have htenant := adds_withTenantScope hdomain.proper hv
  obtain ⟨fields, hfinish⟩ := adds_finish c htenant.proper
  -- The names that the last steps look for are the caller's.
  have hname : ∀ f, f ∉ ["record_type", "memory_source_type", "tenant_id"] →
      optNamed f v = optNamed f w := by
    intro f hf
    rw [htenant.named f (fun h => hf (by rw [List.mem_singleton.mp h]; decide)), hnamed,
      hdomain.named f (fun h => hf (List.mem_append_left ["tenant_id"] h))]
  refine ⟨fun m => ?_, ?_⟩
  · have hadded := added_iff c m false (optNamed "cerid_state" w) (optNamed "chunk_level" w)
    rw [Bool.false_or, show (false = true) = False from eq_false Bool.false_ne_true] at hadded
    rw [hfinish.holds, htenant.holds, hholds, hdomain.holds, hname "cerid_state" (by decide),
      hname "chunk_level" (by decide), ← hadded, ← Bool.and_eq_true]
    simp only [Bool.and_assoc]
  · rw [hfinish.taken, htenant.taken, htaken, Bool.or_eq_true]
    by_cases hearly : c.early
    · constructor
      · intro h
        exact Or.inr (hdomain.taken ▸ h.elim (early_domainFilter hw hearly) id)
      · intro h
        exact Or.inr (hdomain.taken ▸ h.resolve_left fun h => h.1 hearly)
    · rw [domainFilter_of_not_early hearly]
      exact or_congr (by rw [and_iff_right hearly]) Iff.rfl

end Proper

/-! ## Filters with fields beside a list -/

/-- Until a step adds to the list, a clause is carried whole; from there on the list is kept. -/
structure Carried (cut : Prop) (w : Where) (v : Option Where) (extra : Metadata → Bool)
    (fields : List String) : Prop where
  after : cut → Adds (some w.left) v extra fields
  before : ¬cut → v = some w ∧ ∀ m, extra m = true

section Carried

variable {cut : Prop} {w : Where} {v : Option Where}
  {extra : Metadata → Bool} {fields : List String}

theorem Adds.mono {w r : Option Where} {fields' : List String} (h : Adds w r extra fields)
    (hsub : fields ⊆ fields') : Adds w r extra fields' where
  proper := h.proper
  holds := h.holds
  taken := h.taken
  named := fun f hf => h.named f fun hmem => hf (hsub hmem)

theorem proper_left (hall : w.all ≠ none) : Proper (some w.left) := by
  intro clause h
  cases h
  obtain ⟨fields, all⟩ := w
  cases all with
  | none => exact absurd rfl hall
  | some clauses => exact ⟨plain_conj clauses, rfl⟩

/-- A step of the family. -/
theorem Carried.step [Decidable cut] (h : Carried cut w v extra fields) (hne : w.isEmpty = false)
    (hall : w.all ≠ none) (p : Prop) [Decidable p] {blank : Where → Bool} (skip : Where → Bool)
    (hblank : ∀ u : Where, u.isEmpty = false → blank u = false)
    (hskip : skip w.left = true → skip w = true)
    (hseen : ∀ u, Adds (some w.left) u extra fields → u.any skip = skip w.left) (field : String)
    (condition : Condition) :
    Carried (cut ∨ (p ∧ skip w = false)) w
      (if p then some (fuse blank skip v (single field condition)) else v)
      (fun m => extra m &&
        (!decide p || (skip (seen cut w) || (single field condition).holds m)))
      (fields ++ [field]) := by
  have hleft := proper_left hall
  have hneleft := (hleft w.left rfl).2
  by_cases hp : p
  · rw [if_pos hp]
    by_cases hcut : cut
    · refine ⟨fun _ => ?_, fun hno => absurd (Or.inl hcut) hno⟩
      have hadds := h.after hcut
      have hstep := hadds.trans (@adds_fuse v blank skip hblank hadds.proper field condition)
      rw [hseen v hadds] at hstep
      rw [seen, if_pos hcut, decide_eq_true hp]
      exact hstep
    · obtain ⟨rfl, hextra⟩ := h.before hcut
      by_cases hs : skip w = true
      · refine ⟨fun hyes => ?_, fun _ => ⟨?_, fun m => ?_⟩⟩
        · rcases hyes with hyes | ⟨_, hno⟩
          · exact absurd hyes hcut
          · exact absurd (hs.symm.trans hno) (Bool.false_ne_true ∘ Eq.symm)
        · rw [fuse, hblank w hne, hs]
          rfl
        · rw [hextra, seen, if_neg hcut, hs, Bool.true_or, Bool.or_true]
          rfl
      · rw [Bool.not_eq_true] at hs
        have hsleft : skip w.left = false := by
          rw [← Bool.not_eq_true]
          exact fun h => Bool.false_ne_true (hs.symm.trans (hskip h))
        refine ⟨fun _ => ?_, fun hno => absurd (Or.inr ⟨hp, hs⟩) hno⟩
        -- The step adds to the list, and the fields beside it are gone.
        rw [fuse_left (hblank w hne) hs (hblank w.left hneleft) hsleft]
        have hstep := @adds_fuse _ blank skip hblank hleft field condition
        have hfun : (fun m => (some w.left).any skip || (single field condition).holds m) =
            fun m => extra m &&
              (!decide p || (skip (seen cut w) || (single field condition).holds m)) := by
          funext m
          rw [hextra, seen, if_neg hcut, hs, decide_eq_true hp]
          show (skip w.left || _) = _
          rw [hsleft]
          rfl
        rw [hfun] at hstep
        exact hstep.mono (List.subset_append_right fields [field])
  · rw [if_neg hp, decide_eq_false hp]
    have hfun : (fun m => extra m && (!false || (skip (seen cut w) ||
        (single field condition).holds m))) = extra := by
      funext m
      exact Bool.and_true _
    rw [hfun]
    exact ⟨fun hyes => (h.after (hyes.resolve_right fun h => hp h.1)).mono
        (List.subset_append_left fields [field]),
      fun hno => h.before fun hcut => hno (Or.inl hcut)⟩

theorem Carried.congr {cut' : Prop} {extra' : Metadata → Bool} {v' : Option Where}
    (h : Carried cut w v extra fields) (hv : v' = v) (hcut : cut' ↔ cut)
    (hextra : ∀ m, extra' m = extra m) : Carried cut' w v' extra' fields := by
  rw [hv, show extra' = extra from funext hextra, show cut' = cut from propext hcut]
  exact h

theorem left_named (f : String) (h : w.left.named f = true) : w.named f = true := by
  obtain ⟨items, all⟩ := w
  cases all with
  | none => exact h
  | some clauses =>
    rw [named, Bool.or_eq_true]
    refine Or.inr ?_
    have hlist : (conj clauses).named f = listHas f (conj clauses) := Bool.false_or _
    exact hlist.symm.trans h

theorem any_named {u : Option Where} (h : Adds (some w.left) u extra fields) {f : String}
    (hf : f ∉ fields) : u.any (named f) = w.left.named f := h.named f hf

end Carried

section Finish

variable {c} {w : Where} {v : Option Where} {extra : Metadata → Bool}

/-- The steps after the tenant's. -/
theorem carried_finish (h : Carried (c.cutsTenant w) w v extra ["tenant_id"])
    (hne : w.isEmpty = false) (hall : w.all ≠ none) :
    ∃ fields, Carried (c.cuts w) w (finish c v)
      (fun m => (((extra m &&
        (!decide (c.filterPending = true) ||
          ((seen (c.cutsTenant w) w).named "cerid_state" || excludePendingClause.holds m))) &&
        (decide (c.foldersOff = []) || (foldersClause c.foldersOff).holds m)) &&
        (!decide (c.pcEnabled = true) ||
          ((seen (c.cutsFolders w) w).named "chunk_level" || childClause.holds m))) &&
        (!decide (c.asOf = none) || currentOnlyWhere.holds m)) fields := by
  have hpending : Carried (c.cutsPending w) w (excludePending c.filterPending v) _ _ :=
    h.step hne hall (c.filterPending = true) (named "cerid_state") false_blank
      (left_named "cerid_state") (fun u hu => any_named hu (by decide)) "cerid_state"
      (.ne (.str "pending"))
  have hfolders := hpending.step hne hall (¬c.foldersOff = []) (fun _ => false) false_blank nofun
    (fun u _ => any_never u) "watched_folder_id" (.notIn (c.foldersOff.map .str))
  have hparent := (hfolders.congr
    (show excludeFolders (excludePending c.filterPending v) c.foldersOff = _ by
      rw [excludeFolders, ite_not]; rfl)
    (show c.cutsFolders w ↔ _ by rw [Scoping.cutsFolders, and_iff_left rfl]) fun m => rfl).step
      hne hall (c.pcEnabled = true) (named "chunk_level") false_blank (left_named "chunk_level")
      (fun u hu => any_named hu (by decide)) "chunk_level" (.ne (.str "parent"))
  have hclosed := hparent.step hne hall (c.asOf = none) (fun _ => false) isEmpty_blank nofun
    (fun u _ => any_never u) "version_closed" (.ne (.num 1))
  refine ⟨_, hclosed.congr rfl ?_ fun m => ?_⟩
  · rw [Scoping.cuts, and_iff_left rfl]
    rfl
  · have hoff : decide (c.foldersOff = []) = !decide (¬c.foldersOff = []) := by
      rw [decide_not, Bool.not_not]
    rw [hoff]
    rfl

/-- The tenant's step on a clause with a list that no earlier step has added to. -/
theorem carried_tenant (hearly : ¬c.early) (hall : w.all ≠ none) (hne : w.isEmpty = false)
    (h : withTenantScope c.tenant (some w) = .ok v) :
    Carried (c.cutsTenant w) w v
      (fun m => w.has "tenant_id" || tenantHolds c.tenant m) ["tenant_id"] := by
  obtain ⟨items, all⟩ := w
  cases all with
  | none => exact absurd rfl hall
  | some clauses =>
    cases htenant : c.tenant with
    | none =>
      rw [htenant, withTenantScope, asChromaClause_list] at h
      cases h
      refine ⟨fun hcut => ?_, fun _ => ⟨rfl, fun m => Bool.or_true _⟩⟩
      exact absurd htenant (hcut.resolve_left hearly).1
    | some active =>
      rw [htenant, withTenantScope, if_neg (by rw [hne]; exact Bool.false_ne_true)] at h
      cases hget : (mk items (some clauses)).fields.get? "tenant_id" with
      | some condition =>
        have hhas : (mk items (some clauses)).has "tenant_id" = true :=
          decide_eq_true ((Dict.mem_keys_iff _ _).mpr ⟨_, hget⟩)
        rw [hget] at h
        dsimp only at h
        split at h
        · cases h
        · rw [asChromaClause_list] at h
          cases h
          refine ⟨fun hcut => ?_, fun _ => ⟨rfl, fun m => ?_⟩⟩
          · exact absurd (hhas.symm.trans (hcut.resolve_left hearly).2) (Bool.false_ne_true ∘ Eq.symm)
          · rw [hhas]
            rfl
      | none =>
        have hhas : (mk items (some clauses)).has "tenant_id" = false := by
          refine decide_eq_false fun hmem => ?_
          obtain ⟨condition, hcondition⟩ := (Dict.mem_keys_iff _ _).mp hmem
          exact Option.some_ne_none _ (hcondition.symm.trans hget)
        rw [hget] at h
        dsimp only at h
        rw [asChromaClause_list] at h
        cases h
        refine ⟨fun _ => ?_, fun hno => ?_⟩
        · rw [hhas]
          exact adds_tenantClause (plain_conj clauses) active
        · exact absurd (Or.inr ⟨by rw [htenant]; exact Option.some_ne_none _, hhas⟩) hno

/-- The clause for a filter with a list that no step before the tenant's has added to. -/
theorem queryWhere_list {r : Option Where} (hearly : ¬c.early) (hall : w.all ≠ none)
    (hne : w.isEmpty = false) (h : queryWhere c (some w) = .ok r) :
    (c.cuts w → (∀ m, optHolds m r = true ↔ c.Keeps w m) ∧ optTaken r = w.left.taken) ∧
      (¬c.cuts w → r = some w) := by
  obtain ⟨v, hv, rfl⟩ := queryWhere_ok h
  rw [domainFilter_of_not_early hearly] at hv
  obtain ⟨fields, hcarried⟩ := carried_finish (carried_tenant hearly hall hne hv) hne hall
  refine ⟨fun hcut => ⟨fun m => ?_, (hcarried.after hcut).taken⟩,
    fun hcut => (hcarried.before hcut).1⟩
  have hadded := added_iff c m (w.has "tenant_id")
    ((seen (c.cutsTenant w) w).named "cerid_state") ((seen (c.cutsFolders w) w).named "chunk_level")
  have hnone := hearly
  rw [Scoping.early, not_or, not_not] at hnone
  rw [decide_eq_true hnone.1, decide_eq_false hnone.2, Bool.true_or, Bool.not_false, Bool.true_or,
    Bool.and_self, Bool.true_and] at hadded
  rw [Scoping.Keeps, and_iff_right hearly, ← hadded, ← Bool.and_eq_true, (hcarried.after hcut).holds]
  simp only [Bool.and_assoc]
  rfl

/-- The first steps leave the fields beside a list out. -/
theorem queryWhere_early (hearly : c.early) (hall : w.all ≠ none) (hne : w.isEmpty = false) :
    queryWhere c (some w) = queryWhere c (some w.left) := by
  have hneleft := (proper_left hall w.left rfl).2
  have hfuse : ∀ clause, fuseWhere (some w) clause = fuseWhere (some w.left) clause :=
    fun clause => fuse_left hne rfl hneleft rfl clause
  have hdomain : domainFilter c (some w) = domainFilter c (some w.left) := by
    by_cases htypes : c.recordTypes = []
    · have hverified := hearly.resolve_left (not_not.mpr htypes)
      rw [domainFilter, domainFilter, if_pos hverified, if_pos hverified, withRecordTypes,
        withRecordTypes, if_pos htypes, if_pos htypes, hfuse]
    · have hsame : withRecordTypes (some w) c.recordTypes =
          withRecordTypes (some w.left) c.recordTypes := by
        rw [withRecordTypes, withRecordTypes, if_neg htypes, if_neg htypes]
        exact congrArg some (hfuse _)
      rw [domainFilter, domainFilter, hsame]
  rw [queryWhere, queryWhere, hdomain]

end Finish

end Cerid.Retrieval
