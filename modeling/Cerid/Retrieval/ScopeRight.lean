import Cerid.Retrieval.ScopeKept

/-!
# When the clause of a domain query is right

What is kept of the caller's filter and the conditions that are added have to imply what is left
out.
-/

namespace Cerid.Retrieval

open Where

variable (c : Scoping)

/-- The query is refused, since the filter names another tenant. -/
def Escapes (metadataFilter : Option Where) : Prop :=
  ¬c.early ∧ ∃ w active condition, metadataFilter = some w ∧ c.tenant = some active ∧
    w.fields.get? "tenant_id" = some condition ∧ condition ≠ .value (.str active)

/-- A filter that is not empty fits: its mappings are single ones, with several fields only where
the tenant's step finds them, and what is kept implies what is left out. -/
structure FitsClause (w : Where) : Prop where
  shape : (¬c.early ∧ w.all = none) ∨ (w.left.taken = true ∧ (w.Plain ∨ c.cuts w))
  fields : ∀ m, c.Keeps w m → w.fieldsHold m = true
  pending : c.filterPending = true → ∀ m, c.Keeps w m → m "cerid_state" ≠ some (.str "pending")
  parent : c.pcEnabled = true → ∀ m, c.Keeps w m → m "chunk_level" ≠ some (.str "parent")

/-- The empty mapping has to be replaced before a step adds to it. -/
def FitsEmpty : Prop :=
  c.early ∨ c.tenant ≠ none ∨
    (c.filterPending = false ∧ c.foldersOff = [] ∧ c.pcEnabled = false ∧ c.asOf = none)

def Fits (metadataFilter : Option Where) : Prop :=
  ∀ w, metadataFilter = some w →
    (w.isEmpty = true → FitsEmpty c) ∧ (w.isEmpty = false → FitsClause c w)

/-! ## Filters that are not empty -/

section Exact

variable {c} {w : Where}

theorem seen_of_plain (cut : Prop) [Decidable cut] (h : w.Plain) : seen cut w = w := by
  rw [seen, left_of_plain h, ite_self]

theorem seen_of_cut {cut : Prop} [Decidable cut] (h : cut) : seen cut w = w.left := if_pos h

/-- A field of the caller's that the tenant's step finds is the tenant. -/
theorem tenant_of_ok {r : Option Where} (hearly : ¬c.early) (hne : w.isEmpty = false)
    (h : queryWhere c (some w) = .ok r) {active : String} (hactive : c.tenant = some active)
    {condition : Condition} (hget : w.fields.get? "tenant_id" = some condition) :
    condition = .value (.str active) := by
  obtain ⟨v, hv, -⟩ := queryWhere_ok h
  rw [domainFilter_of_not_early hearly, hactive, withTenantScope,
    if_neg (by rw [hne]; exact Bool.false_ne_true), hget] at hv
  dsimp only at hv
  by_contra hcondition
  rw [if_pos hcondition] at hv
  cases hv

theorem tenant_of_fields {r : Option Where} (hearly : ¬c.early) (hne : w.isEmpty = false)
    (h : queryWhere c (some w) = .ok r) (hhas : w.has "tenant_id" = true) {m : Metadata}
    (hm : w.fieldsHold m = true) {active : String} (hactive : c.tenant = some active) :
    m "tenant_id" = some (.str active) := by
  obtain ⟨condition, hget⟩ := (Dict.mem_keys_iff _ _).mp (of_decide_eq_true hhas)
  have hcondition := tenant_of_ok hearly hne h hactive hget
  have hfield := List.all_eq_true.mp hm _ ((Dict.mem_items_iff _ _ _).mpr hget)
  rw [hcondition] at hfield
  exact of_decide_eq_true hfield

/-- The clause says what is kept, and the store takes it if the shape is right. -/
structure Means (c : Scoping) (r : Option Where) (w : Where) : Prop where
  holds : w.Plain ∨ c.cuts w → ∀ m, optHolds m r = true ↔ c.Keeps w m
  taken : optTaken r = true ↔
    (¬c.early ∧ w.all = none) ∨ (w.left.taken = true ∧ (w.Plain ∨ c.cuts w))

theorem means_of_plain {r : Option Where} (hne : w.isEmpty = false) (hplain : w.Plain)
    (h : queryWhere c (some w) = .ok r) : Means c r w where
  holds := fun _ m => by
    have hproper : Proper (some w) := fun clause hclause => by
      cases hclause
      exact ⟨hplain, hne⟩
    rw [(queryWhere_proper hproper h).1, Scoping.Keeps, seen_of_plain _ hplain,
      seen_of_plain _ hplain, left_of_plain hplain]
    refine and_congr_right fun hholds => ⟨fun hadded => ?_, fun hadded => ?_⟩
    · exact { hadded with tenant := fun _ => hadded.tenant not_false }
    · refine { hadded with tenant := fun _ active hactive => ?_ }
      by_cases hskip : ¬c.early ∧ w.has "tenant_id" = true
      · have hm : w.fieldsHold m = true := by
          have hboth : w.holds m = true := hholds
          rw [holds_eq, Bool.and_eq_true] at hboth
          exact hboth.1
        exact tenant_of_fields hskip.1 hne h hskip.2 hm hactive
      · exact hadded.tenant hskip active hactive
  taken := by
    have hproper : Proper (some w) := fun clause hclause => by
      cases hclause
      exact ⟨hplain, hne⟩
    rw [(queryWhere_proper hproper h).2, left_of_plain hplain, and_iff_left (Or.inl hplain)]
    exact or_congr_left (and_congr_right fun _ => Option.isNone_iff_eq_none)

theorem keeps_left (hearly : c.early) (m : Metadata) : c.Keeps w.left m ↔ c.Keeps w m := by
  rw [Scoping.Keeps, Scoping.Keeps, left_left, seen_of_plain _ (plain_left w),
    seen_of_plain _ (plain_left w), seen_of_cut (show c.cutsTenant w from Or.inl hearly),
    seen_of_cut (show c.cutsFolders w from Or.inl (Or.inl (Or.inl hearly)))]
  refine and_congr_right fun _ => ?_
  rw [eq_false fun h : ¬c.early ∧ w.left.has "tenant_id" = true => h.1 hearly,
    eq_false fun h : ¬c.early ∧ w.has "tenant_id" = true => h.1 hearly]

theorem means_of_ok {r : Option Where} (hne : w.isEmpty = false) (h : queryWhere c (some w) = .ok r) :
    Means c r w := by
  by_cases hplain : w.Plain
  · exact means_of_plain hne hplain h
  · have hall : w.all ≠ none := fun hall => hplain (Or.inl hall)
    by_cases hearly : c.early
    · -- The first steps have what is left of the filter.
      rw [queryWhere_early hearly hall hne] at h
      have hleft := means_of_plain (proper_left hall w.left rfl).2 (plain_left w) h
      refine ⟨fun _ m => (hleft.holds (Or.inl (plain_left w)) m).trans (keeps_left hearly m), ?_⟩
      have hcuts : c.cuts w := Or.inl (Or.inl (Or.inl (Or.inl (Or.inl hearly))))
      rw [hleft.taken, left_left, and_iff_left (Or.inl (plain_left w)), and_iff_left (Or.inr hcuts)]
      exact or_congr_left (iff_of_false (fun h => h.1 hearly) fun h => h.1 hearly)
    · obtain ⟨hcut, hwhole⟩ := queryWhere_list hearly hall hne h
      refine ⟨fun hor => (hcut (hor.resolve_left hplain)).1, ?_⟩
      by_cases hcuts : c.cuts w
      · rw [(hcut hcuts).2, and_iff_left (Or.inr hcuts)]
        exact (or_iff_right fun h => hall h.2).symm
      · rw [hwhole hcuts]
        refine iff_of_false (fun htaken => ?_) fun hshape => ?_
        · obtain ⟨items, all⟩ := w
          cases all with
          | none => exact hall rfl
          | some clauses =>
            have hboth : (Where.mk items (some clauses)).taken = true := htaken
            rw [taken, Bool.and_eq_true, List.isEmpty_iff] at hboth
            exact hplain (Or.inr hboth.1)
        · rcases hshape with hshape | ⟨_, hshape | hshape⟩
          · exact hall hshape.2
          · exact hplain hshape
          · exact hcuts hshape

theorem right_some_iff {r : Option Where} (hne : w.isEmpty = false)
    (h : queryWhere c (some w) = .ok r) : Right c (some w) ↔ FitsClause c w := by
  have hmeans := means_of_ok hne h
  have hright : Right c (some w) ↔ optTaken r = true ∧
      ∀ m, optHolds m r = true ↔ w.holds m = true ∧ c.Admits m := by
    refine ⟨fun hall => hall r h, fun hboth r' h' => ?_⟩
    cases h.symm.trans h'
    exact hboth
  rw [hright]
  constructor
  · intro ⟨htaken, hholds⟩
    have hshape := hmeans.taken.mp htaken
    have hkept := hmeans.holds (hshape.elim (fun h => Or.inl (Or.inl h.2)) fun h => h.2)
    have hmeets : ∀ m, c.Keeps w m → w.holds m = true ∧ c.Admits m :=
      fun m hm => (hholds m).mp ((hkept m).mpr hm)
    refine ⟨hshape, fun m hm => ?_, fun hon m hm => (hmeets m hm).2.pending hon,
      fun hon m hm => (hmeets m hm).2.parent hon⟩
    have hboth := (hmeets m hm).1
    rw [holds_eq, Bool.and_eq_true] at hboth
    exact hboth.1
  · intro hfits
    have hkept := hmeans.holds (hfits.shape.elim (fun h => Or.inl (Or.inl h.2)) fun h => h.2)
    refine ⟨hmeans.taken.mpr hfits.shape, fun m => (hkept m).trans ⟨fun hm => ?_, fun hm => ?_⟩⟩
    · have hfields := hfits.fields m hm
      refine ⟨by rw [holds_eq, hfields, hm.1]; rfl, ?_⟩
      exact
        { recordTypes := hm.2.recordTypes
          verified := hm.2.verified
          tenant := fun active hactive => by
            by_cases hskip : ¬c.early ∧ w.has "tenant_id" = true
            · exact tenant_of_fields hskip.1 hne h hskip.2 hfields hactive
            · exact hm.2.tenant hskip active hactive
          pending := fun hon => hfits.pending hon m hm
          folders := hm.2.folders
          parent := fun hon => hfits.parent hon m hm
          closed := hm.2.closed }
    · have hboth := hm.1
      rw [holds_eq, Bool.and_eq_true] at hboth
      exact ⟨hboth.2,
        { recordTypes := hm.2.recordTypes
          verified := hm.2.verified
          tenant := fun _ => hm.2.tenant
          pending := fun _ => hm.2.pending
          folders := hm.2.folders
          parent := fun _ => hm.2.parent
          closed := hm.2.closed }⟩

theorem right_none : Right c none := by
  intro r h
  obtain ⟨hholds, htaken⟩ := queryWhere_proper proper_none h
  refine ⟨htaken.mpr (Or.inr rfl), fun m => (hholds m).trans (and_congr_right fun _ => ?_)⟩
  constructor
  · intro h
    exact ⟨h.recordTypes, h.verified, h.tenant not_false, h.pending Bool.false_ne_true, h.folders,
      h.parent Bool.false_ne_true, h.closed⟩
  · intro h
    exact ⟨h.recordTypes, h.verified, fun _ => h.tenant, fun _ => h.pending, h.folders,
      fun _ => h.parent, h.closed⟩

/-! ## The empty mapping -/

/-- The empty mapping stays until a step with a condition makes it part of a list, which no store
takes. -/
structure StaysEmpty (on : Prop) (w : Where) (v : Option Where) : Prop where
  after : on → Proper v ∧ optTaken v = false
  before : ¬on → v = some w

theorem empty_fields (h : w.isEmpty = true) : w.fields.items = [] ∧ w.all = none := by
  rw [isEmpty, Bool.and_eq_true, List.isEmpty_iff, Option.isNone_iff_eq_none] at h
  exact h

theorem empty_taken (h : w.isEmpty = true) : w.taken = false := by
  obtain ⟨hitems, hall⟩ := empty_fields h
  obtain ⟨items, all⟩ := w
  cases hall
  rw [taken]
  exact decide_eq_false (by rw [show items.items = [] from hitems]; decide)

theorem empty_holds (h : w.isEmpty = true) (m : Metadata) : w.holds m = true := by
  obtain ⟨hitems, hall⟩ := empty_fields h
  obtain ⟨items, all⟩ := w
  cases hall
  rw [holds, show items.items = [] from hitems]
  rfl

theorem empty_named (h : w.isEmpty = true) (f : String) : w.named f = false := by
  obtain ⟨hitems, hall⟩ := empty_fields h
  rw [named, has, listHas, hall, Dict.keys, hitems]
  rfl

theorem StaysEmpty.step {on : Prop} {v : Option Where} (h : StaysEmpty on w v) (hempty : w.isEmpty = true)
    (p : Prop) [Decidable p] (skip : Where → Bool) (hskip : skip w = false) (field : String)
    (condition : Condition) :
    StaysEmpty (on ∨ p) w
      (if p then some (fuse (fun _ => false) skip v (single field condition)) else v) := by
  by_cases hp : p
  · rw [if_pos hp]
    refine ⟨fun _ => ?_, fun hno => absurd (Or.inr hp) hno⟩
    by_cases hon : on
    · have hadds := @adds_fuse v _ skip false_blank (h.after hon).1 field condition
      exact ⟨hadds.proper, hadds.taken.trans (h.after hon).2⟩
    · rw [h.before hon, fuse, hskip]
      refine ⟨fun clause hclause => ?_, ?_⟩
      · cases hclause
        exact ⟨plain_conj _, rfl⟩
      · have hleft : w.left = w := left_of_plain (Or.inl (empty_fields hempty).2)
        show (w.and (single field condition)).taken = false
        rw [taken_and, hleft, empty_taken hempty, Bool.false_and]
  · rw [if_neg hp]
    exact ⟨fun hor => h.after (hor.resolve_right hp), fun hno => h.before fun hon => hno (Or.inl hon)⟩

/-- The empty mapping is as no filter where it is replaced. -/
theorem queryWhere_empty (hempty : w.isEmpty = true) (hfits : FitsEmpty c) :
    queryWhere c (some w) = queryWhere c none := by
  have hfuse : ∀ clause, fuseWhere (some w) clause = fuseWhere none clause := fun clause => by
    rw [fuseWhere, fuse, if_pos hempty]
    rfl
  by_cases hearly : c.early
  · have hdomain : domainFilter c (some w) = domainFilter c none := by
      by_cases htypes : c.recordTypes = []
      · have hverified := hearly.resolve_left (not_not.mpr htypes)
        rw [domainFilter, domainFilter, if_pos hverified, if_pos hverified, withRecordTypes,
          withRecordTypes, if_pos htypes, if_pos htypes, hfuse]
      · have hsame : withRecordTypes (some w) c.recordTypes = withRecordTypes none c.recordTypes := by
          rw [withRecordTypes, withRecordTypes, if_neg htypes, if_neg htypes]
          exact congrArg some (hfuse _)
        rw [domainFilter, domainFilter, hsame]
    rw [queryWhere, queryWhere, hdomain]
  · rw [queryWhere, queryWhere, domainFilter_of_not_early hearly, domainFilter_of_not_early hearly]
    cases htenant : c.tenant with
    | some active =>
      have hscope : withTenantScope (some active) (some w) = .ok (some (tenantClause active)) :=
        if_pos hempty
      rw [hscope]
      rfl
    | none =>
      obtain ⟨hpending, hfolders, hparent, hclosed⟩ :=
        (hfits.resolve_left hearly).resolve_left (not_not.mpr htenant)
      have hself : asChromaClause (some w) = some w := by
        obtain ⟨hitems, hall⟩ := empty_fields hempty
        obtain ⟨items, all⟩ := w
        cases hall
        rw [asChromaClause_flat, if_pos (by rw [show items.items = [] from hitems]; decide)]
      have hoff : ∀ v, finish c v = some (fuseWhere v currentOnlyWhere) := fun v => by
        rw [finish, excludePending, excludeFolders, hpending, if_pos hfolders, hparent,
          if_pos hclosed]
        rfl
      rw [withTenantScope, withTenantScope, hself]
      show Except.ok (finish c (some w)) = Except.ok (finish c none)
      rw [hoff, hoff, hfuse]

/-- Where it is not, no store takes the clause. -/
theorem not_taken_of_empty (hempty : w.isEmpty = true) (hfits : ¬FitsEmpty c) :
    ∃ r, queryWhere c (some w) = .ok r ∧ optTaken r = false := by
  rw [FitsEmpty, not_or, not_or, not_not] at hfits
  obtain ⟨hearly, htenant, hfits⟩ := hfits
  have hself : asChromaClause (some w) = some w := by
    obtain ⟨hitems, hall⟩ := empty_fields hempty
    obtain ⟨items, all⟩ := w
    cases hall
    rw [asChromaClause_flat, if_pos (by rw [show items.items = [] from hitems]; decide)]
  refine ⟨finish c (some w), ?_, ?_⟩
  · rw [queryWhere, domainFilter_of_not_early hearly, htenant, withTenantScope, hself]
    rfl
  · have hstart : StaysEmpty False w (some w) := ⟨False.elim, fun _ => rfl⟩
    have hpending := hstart.step hempty (c.filterPending = true) (named "cerid_state")
      (empty_named hempty _) "cerid_state" (.ne (.str "pending"))
    have hfolders := hpending.step hempty (¬c.foldersOff = []) (fun _ => false) rfl
      "watched_folder_id" (.notIn (c.foldersOff.map .str))
    rw [ite_not] at hfolders
    have hparent := hfolders.step hempty (c.pcEnabled = true) (named "chunk_level")
      (empty_named hempty _) "chunk_level" (.ne (.str "parent"))
    by_cases hon : ((False ∨ c.filterPending = true) ∨ ¬c.foldersOff = []) ∨ c.pcEnabled = true
    · obtain ⟨hproper, htaken⟩ := hparent.after hon
      have hclosed := (adds_always isEmpty_blank hproper "version_closed" (.ne (.num 1))).ite hproper
        (c.asOf = none)
      exact hclosed.taken.trans htaken
    · have hwhole := hparent.before hon
      have hasOf : c.asOf ≠ none := by
        intro hasOf
        simp only [false_or, not_or, not_not, Bool.not_eq_true] at hon
        exact hfits ⟨hon.1.1, hon.1.2, hon.2, hasOf⟩
      rw [finish, if_neg hasOf]
      exact (congrArg optTaken hwhole).trans (empty_taken hempty)

theorem right_empty_iff (hempty : w.isEmpty = true) : Right c (some w) ↔ FitsEmpty c := by
  constructor
  · intro hright
    by_contra hfits
    obtain ⟨r, hr, htaken⟩ := not_taken_of_empty hempty hfits
    exact Bool.false_ne_true (htaken.symm.trans (hright r hr).1)
  · intro hfits r hr
    rw [queryWhere_empty hempty hfits] at hr
    obtain ⟨htaken, hholds⟩ := right_none r hr
    refine ⟨htaken, fun m => (hholds m).trans ?_⟩
    exact and_congr_left fun _ => iff_of_true rfl (empty_holds hempty m)

/-! ## The exact condition -/

theorem escapes_of_error {e : ScopeError} (hne : w.isEmpty = false)
    (h : queryWhere c (some w) = .error e) : Escapes c (some w) := by
  have hscope : withTenantScope c.tenant (domainFilter c (some w)) = .error e := by
    rw [queryWhere] at h
    cases hscope : withTenantScope c.tenant (domainFilter c (some w)) with
    | error e' =>
      rw [hscope] at h
    | ok v =>
      rw [hscope] at h
      cases h
  cases htenant : c.tenant with
  | none =>
    rw [htenant] at hscope
    cases hscope
  | some active =>
    rw [htenant] at hscope
    by_cases hearly : c.early
    · obtain ⟨clauses, hclauses⟩ := domainFilter_conj hne hearly
      rw [hclauses] at hscope
      cases hscope
    · rw [domainFilter_of_not_early hearly, withTenantScope,
        if_neg (by rw [hne]; exact Bool.false_ne_true)] at hscope
      cases hget : w.fields.get? "tenant_id" with
      | none =>
        rw [hget] at hscope
        dsimp only at hscope
        split at hscope
        · cases hscope
        · cases hscope
      | some condition =>
        rw [hget] at hscope
        dsimp only at hscope
        split at hscope
        · rename_i hcondition
          exact ⟨hearly, w, active, condition, rfl, htenant, hget, hcondition⟩
        · cases hscope

/-- The clause is right exactly if the query is refused or the filter fits. -/
theorem right_iff (filter : Option Where) : Right c filter ↔ Escapes c filter ∨ Fits c filter := by
  cases filter with
  | none => exact iff_of_true right_none (Or.inr nofun)
  | some w =>
    have hfits : Fits c (some w) ↔
        (w.isEmpty = true → FitsEmpty c) ∧ (w.isEmpty = false → FitsClause c w) :=
      ⟨fun h => h w rfl, fun h w' hw' => by cases hw'; exact h⟩
    rw [hfits]
    cases hempty : w.isEmpty with
    | true =>
      have hno : ¬Escapes c (some w) := by
        rintro ⟨_, w', _, condition, hw', _, hget, _⟩
        cases hw'
        have hmem := (Dict.mem_items_iff _ _ _).mpr hget
        rw [(empty_fields hempty).1] at hmem
        exact absurd hmem List.not_mem_nil
      rw [right_empty_iff hempty, or_iff_right hno]
      exact ⟨fun h => ⟨fun _ => h, nofun⟩, fun h => h.1 rfl⟩
    | false =>
      cases hquery : queryWhere c (some w) with
      | ok r =>
        have hno : ¬Escapes c (some w) := by
          rintro ⟨hearly, w', active, condition, hw', hactive, hget, hne⟩
          cases hw'
          exact hne (tenant_of_ok hearly hempty hquery hactive hget)
        rw [right_some_iff hempty hquery, or_iff_right hno]
        exact ⟨fun h => ⟨nofun, fun _ => h⟩, fun h => h.2 rfl⟩
      | error e =>
        exact iff_of_true (fun r hr => nomatch hquery.symm.trans hr)
          (Or.inl (escapes_of_error hempty hquery))

/-- A query of one tenant in multi-user mode. -/
def tenantQuery : Scoping where
  recordTypes := []
  verified := false
  tenant := some "a"
  filterPending := true
  foldersOff := []
  pcEnabled := false
  asOf := none

/-- `{"tenant_id": "a", "$and": [{"kind": "note"}]}`. -/
def tenantBeside : Where :=
  .mk (Dict.empty.set "tenant_id" (.value (.str "a"))) (some [single "kind" (.value (.str "note"))])

def otherRow : Metadata := fun field =>
  if field = "kind" then some (.str "note") else if field = "tenant_id" then some (.str "b") else none

/-- The tenant that the caller names is accepted and then dropped with the mapping it stands in. -/
theorem tenant_dropped : ¬Right tenantQuery (some tenantBeside) := by
  intro h
  obtain ⟨-, hholds⟩ := h _ rfl
  have hadmits := ((hholds otherRow).mp (by decide +kernel)).2
  exact absurd (hadmits.tenant "a" rfl) (by decide)

end Exact

end Cerid.Retrieval
