import Cerid.Retrieval.ArmClauses

/-!
# Rows in the scope of a query

An arm is right where each row that passes its checks passes the ones that it leaves out.
-/

namespace Cerid.Retrieval

open Where

/-- Only the string itself equals a string. -/
theorem same_str (v : MetaValue) (s : String) : MetaValue.same v (.str s) = decide (v = .str s) := by
  cases v with
  | str _ => rfl
  | num _ => rfl
  | bool _ => rfl

theorem str_same (s : String) (v : MetaValue) : MetaValue.same (.str s) v = decide (v = .str s) := by
  cases v with
  | str t => exact decide_eq_decide.mpr eq_comm
  | num _ => rfl
  | bool _ => rfl

theorem any_str_same (actual : Option MetaValue) (s : String) :
    actual.any (MetaValue.same (.str s)) = true ↔ actual = some (.str s) := by
  cases actual with
  | none => exact iff_of_false Bool.false_ne_true nofun
  | some v =>
    rw [Option.any_some, str_same, decide_eq_true_iff, Option.some_inj]

/-! ## What the keyword arm reads -/

section Matched

variable (m : Metadata)

theorem allMatch_eq (clauses : List Where) :
    allMatch m clauses = clauses.all (metadataMatches m) := by
  induction clauses with
  | nil => rfl
  | cons w rest ih => rw [allMatch, ih, List.all_cons]

theorem metadataMatches_conj (clauses : List Where) :
    metadataMatches m (conj clauses) = clauses.all (metadataMatches m) := by
  rw [conj, metadataMatches, allMatch_eq]

theorem all_matched_clauses (w : Where) :
    w.clauses.all (metadataMatches m) = metadataMatches m w := by
  obtain ⟨fields, all⟩ := w
  cases all with
  | none => exact Bool.and_true _
  | some clauses => rw [metadataMatches, allMatch_eq]; rfl

theorem metadataMatches_single (field : String) (condition : Condition) :
    metadataMatches m (single field condition) = Condition.matched (m field) condition := by
  rw [single, metadataMatches]
  exact Bool.and_true _

/-- `not where or _metadata_matches(meta, where)`. -/
def matchesFilter (w : Option Where) : Bool := w.all fun w => w.isEmpty || metadataMatches m w

/-- A condition that is fused in is read along with the filter. -/
theorem matchesFilter_fuse (w : Option Where) (field : String) (condition : Condition) :
    matchesFilter m (some (fuseWhere w (single field condition))) =
      (matchesFilter m w && Condition.matched (m field) condition) := by
  have hsingle : matchesFilter m (some (single field condition)) =
      Condition.matched (m field) condition := by
    show (false || metadataMatches m (single field condition)) = _
    rw [Bool.false_or, metadataMatches_single]
  cases w with
  | none => exact hsingle
  | some w =>
    rw [fuseWhere, fuse]
    by_cases hempty : w.isEmpty = true
    · rw [if_pos hempty, hsingle]
      show _ = ((w.isEmpty || metadataMatches m w) && _)
      rw [hempty, Bool.true_or, Bool.true_and]
    · rw [if_neg hempty]
      rw [Bool.not_eq_true] at hempty
      show (false || metadataMatches m (conj (w.clauses ++ [single field condition]))) =
        ((w.isEmpty || metadataMatches m w) && _)
      rw [Bool.false_or, metadataMatches_conj, List.all_append, all_matched_clauses, List.all_cons,
        List.all_nil, Bool.and_true, metadataMatches_single, hempty, Bool.false_or]

theorem recordTypes_matched {recordTypes : List String} (h : recordTypes ≠ []) :
    Condition.matched (m "record_type") (recordTypesCondition recordTypes) = true ↔
      ∃ t ∈ recordTypes, m "record_type" = some (.str t) := by
  match recordTypes, h with
  | [t], _ =>
    rw [recordTypesCondition, Condition.matched, any_str_same]
    constructor
    · exact fun heq => ⟨t, List.mem_singleton.mpr rfl, heq⟩
    · intro ⟨t', ht', heq⟩
      rw [heq, List.mem_singleton.mp ht']
  | t :: t' :: rest, _ =>
    rw [recordTypesCondition, Condition.matched, Option.any_eq_true]
    · constructor
      · intro ⟨v, hv, hany⟩
        obtain ⟨u, hu, hsame⟩ := List.any_eq_true.mp hany
        obtain ⟨t₀, ht₀, rfl⟩ := List.mem_map.mp hu
        rw [same_str, decide_eq_true_iff] at hsame
        exact ⟨t₀, ht₀, hsame ▸ hv⟩
      · intro ⟨t₀, ht₀, heq⟩
        refine ⟨.str t₀, heq, List.any_eq_true.mpr ⟨.str t₀, List.mem_map_of_mem ht₀, ?_⟩⟩
        rw [same_str]
        exact decide_eq_true rfl
    · intro u hu
      cases hu

theorem domainFilter_matched (c : Scoping) (filter : Option Where) :
    matchesFilter m (domainFilter c filter) = true ↔ matchesFilter m filter = true ∧
      (c.recordTypes ≠ [] → ∃ t ∈ c.recordTypes, m "record_type" = some (.str t)) ∧
      (c.verified = true → m "memory_source_type" ≠ some (.str "verification")) := by
  have htypes : matchesFilter m (withRecordTypes filter c.recordTypes) = true ↔
      matchesFilter m filter = true ∧
        (c.recordTypes ≠ [] → ∃ t ∈ c.recordTypes, m "record_type" = some (.str t)) := by
    rw [withRecordTypes]
    by_cases hnil : c.recordTypes = []
    · rw [if_pos hnil]
      exact ⟨fun h => ⟨h, fun hne => absurd hnil hne⟩, fun h => h.1⟩
    · rw [if_neg hnil]
      show matchesFilter m (some (fuseWhere filter
        (single "record_type" (recordTypesCondition c.recordTypes)))) = true ↔ _
      rw [matchesFilter_fuse, Bool.and_eq_true, recordTypes_matched m hnil]
      exact and_congr_right fun _ => ⟨fun h _ => h, fun h => h hnil⟩
  rw [domainFilter, ← and_assoc, ← htypes]
  by_cases hverified : c.verified = true
  · rw [if_pos hverified]
    show matchesFilter m (some (fuseWhere _
      (single "memory_source_type" (.ne (.str "verification"))))) = true ↔ _
    rw [matchesFilter_fuse, Bool.and_eq_true]
    refine and_congr_right fun _ => ?_
    rw [Condition.matched, Bool.not_eq_true', ← Bool.not_eq_true, any_str_same]
    exact ⟨fun h _ => h, fun h => h hverified⟩
  · rw [if_neg hverified]
    exact ⟨fun h => ⟨h, fun hon => absurd hon hverified⟩, fun h => h.1⟩

end Matched

/-! ## Checks of a row -/

namespace KbQuery

variable (q : KbQuery) (r : KbRow)

def TypeAllowed : Prop := q.domainRecordTypes r.domain ≠ [] →
  ∃ t ∈ q.domainRecordTypes r.domain, r.field "record_type" = some (.str t)

def OfTenant : Prop := q.multiUser = true → r.field "tenant_id" = some (.str q.tenantId)

def NotPending : Prop := q.filterPending = true → r.field "cerid_state" ≠ some (.str "pending")

def FolderOn : Prop := ∀ id ∈ q.foldersOff, r.field "watched_folder_id" ≠ some (.str id)

def NotParent : Prop := q.pcEnabled = true → r.field "chunk_level" ≠ some (.str "parent")

def NotVerified : Prop := q.excludeVerifiedMemories = true → r.domain = "conversations" →
  r.field "memory_source_type" ≠ some (.str "verification")

/-- What the keyword arm reads of a row, and the clause of the search does not. -/
structure KeywordReads : Prop where
  tenant : (r.field "tenant_id").getD (.str q.defaultTenantId) = .str q.tenantId
  closed : q.asOf = none → versionClosed r = false
  pending : q.NotPending r
  filter : matchesFilter r.field q.metadataFilter = true

/-- What the clause of the search reads of a row, and the keyword arm does not. -/
structure ClauseReads : Prop where
  tenant : ¬SkipsTenant (q.scoping r.domain) q.metadataFilter → q.multiUser = true →
    r.field "tenant_id" ≠ none
  parent : ¬SkipsParent (q.scoping r.domain) q.metadataFilter → q.NotParent r
  filter : leftHolds q.metadataFilter r.field

/-- A chunk of a related artifact that the graph can bring in. -/
structure Expanded : Prop where
  artifact : ∃ id, (id, r.domain) ∈ q.related ++ q.neighbours ∧
    r.field "artifact_id" = some (.str id)
  tenant : q.OfTenant r
  pending : q.NotPending r
  folder : q.FolderOn r
  readable : r.domain ∈ q.readable
  visible : q.visible .related r = true

/-- The checks that an arm leaves out hold of the rows that pass those it makes.  What the clause
of the search accepts stands to what is beside the list of the filter, and the keyword arm and
the clause each accept what the other reads.  A chunk that the graph brings in meets the filter,
has an allowed type and is neither a parent nor a verified memory, and no chunk that comes in by
a question is one of these. -/
structure Fine : Prop where
  search : q.returns .vector r = true →
    besideHolds q.metadataFilter r.field ∧ q.NotPending r ∧ q.NotParent r
  clauseHit : r.domain ∈ q.domains → q.vectorAccepts r = true → q.KeywordReads r
  keywordHit : r.domain ∈ q.domains → q.keywordAccepts r = true → q.ClauseReads r
  expanded : q.Expanded r → optHolds r.field q.metadataFilter = true ∧ q.TypeAllowed r ∧
    q.NotParent r ∧ q.NotVerified r
  hype : q.returns .hype r = true →
    besideHolds q.metadataFilter r.field ∧ q.NotPending r ∧ q.NotParent r ∧ q.NotVerified r

variable {q r}

theorem ofTenant_iff : q.OfTenant r ↔
    ∀ active, q.tenant = some active → r.field "tenant_id" = some (.str active) := by
  rw [OfTenant, tenant]
  by_cases hmulti : q.multiUser = true
  · rw [if_pos hmulti]
    exact ⟨fun h active hactive => Option.some.inj hactive ▸ h hmulti, fun h _ => h _ rfl⟩
  · rw [if_neg hmulti]
    exact ⟨fun _ => nofun, fun _ hon => absurd hon hmulti⟩

theorem notVerified_iff : q.NotVerified r ↔ ((q.scoping r.domain).verified = true →
    r.field "memory_source_type" ≠ some (.str "verification")) := by
  rw [NotVerified, scoping, Bool.and_eq_true, decide_eq_true_iff]
  exact and_imp.symm

theorem runs_iff (domain : String) : q.runs domain = true ↔
    ∃ w, queryWhere (q.scoping domain) q.metadataFilter = .ok w ∧ optTaken w = true := by
  rw [runs]
  cases queryWhere (q.scoping domain) q.metadataFilter with
  | error e => exact iff_of_false Bool.false_ne_true fun ⟨w, hw, _⟩ => nomatch hw
  | ok w => exact ⟨fun h => ⟨w, rfl, h⟩, fun ⟨w', hw', h⟩ => by cases hw'; exact h⟩

/-- The clause of the search, check by check. -/
theorem vectorAccepts_iff : q.vectorAccepts r = true ↔
    q.runs r.domain = true ∧ leftHolds q.metadataFilter r.field ∧
      (q.scoping r.domain).Added (SkipsTenant (q.scoping r.domain) q.metadataFilter)
        (SkipsPending (q.scoping r.domain) q.metadataFilter)
        (SkipsParent (q.scoping r.domain) q.metadataFilter) r.field := by
  rw [vectorAccepts, accepts_queryWhere_iff, runs_iff]

theorem chunkMatchesTenant_iff : q.chunkMatchesTenant r = true ↔
    (r.field "tenant_id").getD (.str q.defaultTenantId) = .str q.tenantId := by
  have hitems : r.metadata.items.isEmpty = false :=
    Bool.eq_false_iff.mpr fun h => r.carries (List.isEmpty_iff.mp h)
  rw [chunkMatchesTenant, hitems, Bool.not_false, Bool.true_and, decide_eq_true_iff]

theorem folderOn_iff : q.FolderOn r ↔ q.chunkExcluded r = false := by
  rw [FolderOn, chunkExcluded, ← Bool.not_eq_true, Bool.and_eq_true, Option.any_eq_true]
  constructor
  · intro h hexcluded
    obtain ⟨-, v, hv, hmem⟩ := hexcluded
    obtain ⟨id, hid, rfl⟩ := List.mem_map.mp (of_decide_eq_true hmem)
    exact h id hid hv
  · intro h id hid hv
    have hne : q.foldersOff ≠ [] := fun hnil => List.not_mem_nil (hnil ▸ hid)
    exact h ⟨decide_eq_true hne, .str id, hv, decide_eq_true (List.mem_map_of_mem hid)⟩

/-- The keyword arm, check by check. -/
theorem keywordAccepts_iff : q.keywordAccepts r = true ↔
    q.runs r.domain = true ∧ q.KeywordReads r ∧ q.FolderOn r ∧ q.TypeAllowed r ∧
      q.NotVerified r := by
  have hclosed : (!(q.asOf.isNone && versionClosed r)) = true ↔
      (q.asOf = none → versionClosed r = false) := by
    cases q.asOf with
    | none => simp
    | some asOf => simp
  have hpending : (!(q.filterPending &&
      decide (r.field "cerid_state" = some (.str "pending")))) = true ↔ q.NotPending r := by
    rw [NotPending]
    cases q.filterPending with
    | false => simp
    | true => simp
  have hfilter := domainFilter_matched r.field (q.scoping r.domain) q.metadataFilter
  rw [← notVerified_iff] at hfilter
  rw [keywordAccepts, Bool.and_eq_true, Bool.and_eq_true, Bool.and_eq_true, Bool.and_eq_true,
    Bool.and_eq_true, chunkMatchesTenant_iff, hclosed, hpending, Bool.not_eq_true', ← folderOn_iff]
  constructor
  · intro ⟨⟨⟨⟨⟨hruns, htenant⟩, hversion⟩, hstate⟩, hfolder⟩, hmatched⟩
    obtain ⟨hreads, htypes, hverified⟩ := hfilter.mp hmatched
    exact ⟨hruns, ⟨htenant, hversion, hstate, hreads⟩, hfolder, htypes, hverified⟩
  · intro ⟨hruns, hreads, hfolder, htypes, hverified⟩
    exact ⟨⟨⟨⟨⟨hruns, hreads.tenant⟩, hreads.closed⟩, hreads.pending⟩, hfolder⟩,
      hfilter.mpr ⟨hreads.filter, htypes, hverified⟩⟩

/-- The clause for a question's chunk, check by check. -/
theorem hypeAccepts_added (h : q.hypeAccepts r = true) :
    leftHolds q.metadataFilter r.field ∧
      (q.hypeScoping r.domain).Added (SkipsTenant (q.hypeScoping r.domain) q.metadataFilter)
        (SkipsPending (q.hypeScoping r.domain) q.metadataFilter)
        (SkipsParent (q.hypeScoping r.domain) q.metadataFilter) r.field := by
  rw [hypeAccepts, hypeWhere_eq, accepts_queryWhere_iff] at h
  exact h.2

theorem expansionAccepts_iff (artifacts : List (String × String)) :
    q.expansionAccepts r artifacts = true ↔
      (∃ id, (id, r.domain) ∈ artifacts ∧ r.field "artifact_id" = some (.str id)) ∧
        q.OfTenant r ∧ q.NotPending r ∧ q.FolderOn r := by
  rw [expansionAccepts, List.any_eq_true]
  constructor
  · intro ⟨⟨id, domain⟩, hmem, h⟩
    rw [Bool.and_eq_true, decide_eq_true_iff, accepts_artifactWhere_iff] at h
    obtain ⟨hdomain, hartifact, hpending, htenant, hfolder⟩ := h
    dsimp only at hdomain
    rw [hdomain] at hmem
    exact ⟨⟨id, hmem, hartifact⟩, ofTenant_iff.mpr htenant, hpending, hfolder⟩
  · intro ⟨⟨id, hmem, hartifact⟩, htenant, hpending, hfolder⟩
    refine ⟨(id, r.domain), hmem, ?_⟩
    rw [Bool.and_eq_true, decide_eq_true_iff, accepts_artifactWhere_iff]
    exact ⟨rfl, hartifact, hpending, ofTenant_iff.mp htenant, hfolder⟩

theorem returns_iff (arm : Arm) : q.returns arm r = true ↔
    q.admitted r arm = true ∧ r.domain ∈ q.readable ∧ q.visible arm r = true := by
  rw [returns, Bool.and_eq_true, Bool.and_eq_true, decide_eq_true_iff, and_assoc]

theorem version_of_visible {arm : Arm} (h : q.visible arm r = true) :
    validAt q.parseTime r.field (normalizeAsOf q.parseTime q.asOf) = true := by
  rw [visible, Bool.and_eq_true] at h
  exact h.2

/-- A flag of a closed version is not falsy. -/
theorem open_of_not_closed (h : versionClosed r = false) :
    r.field "version_closed" ≠ some (.num 1) := by
  intro hone
  rw [versionClosed, hone] at h
  exact absurd h (by decide)

/-- The two ways to look at a hit agree exactly if each accepts what the other reads. -/
theorem keyword_iff_vector : (q.keywordAccepts r = true ↔ q.vectorAccepts r = true) ↔
    (q.vectorAccepts r = true → q.KeywordReads r) ∧
      (q.keywordAccepts r = true → q.ClauseReads r) := by
  constructor
  · intro hiff
    refine ⟨fun hvector => (keywordAccepts_iff.mp (hiff.mpr hvector)).2.1, fun hkeyword => ?_⟩
    obtain ⟨-, hleft, hadded⟩ := vectorAccepts_iff.mp (hiff.mp hkeyword)
    refine { tenant := fun hskip hmulti hnone => ?_, parent := hadded.parent, filter := hleft }
    rw [hadded.tenant hskip q.tenantId (if_pos hmulti)] at hnone
    cases hnone
  · intro ⟨hclause, hkeyword⟩
    constructor
    · intro haccepts
      have hreads := hkeyword haccepts
      obtain ⟨hruns, hown, hfolder, htypes, hverified⟩ := keywordAccepts_iff.mp haccepts
      refine vectorAccepts_iff.mpr ⟨hruns, hreads.filter, ?_⟩
      refine
        { recordTypes := htypes
          verified := notVerified_iff.mp hverified
          tenant := fun hskip => ofTenant_iff.mp fun hmulti => ?_
          pending := fun _ => hown.pending
          folders := hfolder
          parent := hreads.parent
          closed := fun hasOf => open_of_not_closed (hown.closed hasOf) }
      obtain ⟨v, hv⟩ := Option.ne_none_iff_exists'.mp (hreads.tenant hskip hmulti)
      have hsame := hown.tenant
      rw [hv, Option.getD_some] at hsame
      rw [hv, hsame]
    · intro haccepts
      obtain ⟨hruns, -, hadded⟩ := vectorAccepts_iff.mp haccepts
      exact keywordAccepts_iff.mpr ⟨hruns, hclause haccepts, hadded.folders, hadded.recordTypes,
        notVerified_iff.mpr hadded.verified⟩

/-- A row of the search is in the scope if it stands to what is beside the list of the filter. -/
theorem inScope_of_vector (haccepts : q.vectorAccepts r = true)
    (hversion : validAt q.parseTime r.field (normalizeAsOf q.parseTime q.asOf) = true)
    (hbeside : besideHolds q.metadataFilter r.field) (hpending : q.NotPending r)
    (hparent : q.NotParent r) : q.InScope r := by
  obtain ⟨hruns, hleft, hadded⟩ := vectorAccepts_iff.mp haccepts
  obtain ⟨w, hw, -⟩ := (runs_iff r.domain).mp hruns
  refine
    { filter := (optHolds_iff r.field).mpr ⟨hbeside, hleft⟩
      recordType := hadded.recordTypes
      tenant := ofTenant_iff.mpr fun active hactive => ?_
      pending := hpending
      folder := hadded.folders
      parent := hparent
      verified := notVerified_iff.mpr hadded.verified
      version := hversion }
  by_cases hskip : SkipsTenant (q.scoping r.domain) q.metadataFilter
  · exact tenant_of_skips hw hskip hbeside hactive
  · exact hadded.tenant hskip active hactive

theorem inScope_of_hype (haccepts : q.hypeAccepts r = true)
    (hversion : validAt q.parseTime r.field (normalizeAsOf q.parseTime q.asOf) = true)
    (hbeside : besideHolds q.metadataFilter r.field) (hpending : q.NotPending r)
    (hparent : q.NotParent r) (hverified : q.NotVerified r) : q.InScope r := by
  obtain ⟨hleft, hadded⟩ := hypeAccepts_added haccepts
  rw [hypeAccepts, hypeWhere_eq, accepts_eq_true_iff] at haccepts
  obtain ⟨w, hw, -⟩ := haccepts
  refine
    { filter := (optHolds_iff r.field).mpr ⟨hbeside, hleft⟩
      recordType := hadded.recordTypes
      tenant := ofTenant_iff.mpr fun active hactive => ?_
      pending := hpending
      folder := hadded.folders
      parent := hparent
      verified := hverified
      version := hversion }
  by_cases hskip : SkipsTenant (q.hypeScoping r.domain) q.metadataFilter
  · exact tenant_of_skips hw hskip hbeside hactive
  · exact hadded.tenant hskip active hactive

/-- What the graph can bring in, arm by arm. -/
theorem expanded_iff : q.Expanded r ↔
    q.returns .related r = true ∨ q.returns .neighbours r = true := by
  rw [returns_iff, returns_iff, admitted, admitted, expansionAccepts_iff, expansionAccepts_iff]
  have hvisible : q.visible .neighbours r = q.visible .related r := rfl
  rw [hvisible]
  constructor
  · intro h
    obtain ⟨id, hmem, hid⟩ := h.artifact
    have hrest := And.intro h.tenant (And.intro h.pending h.folder)
    rcases List.mem_append.mp hmem with hrelated | hneighbour
    · exact Or.inl ⟨⟨⟨id, hrelated, hid⟩, hrest⟩, h.readable, h.visible⟩
    · exact Or.inr ⟨⟨⟨id, hneighbour, hid⟩, hrest⟩, h.readable, h.visible⟩
  · intro h
    rcases h with ⟨⟨⟨id, hmem, hid⟩, hrest⟩, hreadable, hvis⟩ |
      ⟨⟨⟨id, hmem, hid⟩, hrest⟩, hreadable, hvis⟩
    · exact ⟨⟨id, List.mem_append_left _ hmem, hid⟩, hrest.1, hrest.2.1, hrest.2.2, hreadable, hvis⟩
    · exact ⟨⟨id, List.mem_append_right _ hmem, hid⟩, hrest.1, hrest.2.1, hrest.2.2, hreadable, hvis⟩

/-- A row of the library is right exactly if it is fine. -/
theorem row_right_iff : ((∀ arm, q.returns arm r = true → q.InScope r) ∧
      (r.domain ∈ q.domains → (q.keywordAccepts r = true ↔ q.vectorAccepts r = true))) ↔
    q.Fine r := by
  constructor
  · intro ⟨harms, hagree⟩
    refine { search := ?_, clauseHit := ?_, keywordHit := ?_, expanded := ?_, hype := ?_ }
    · intro h
      have hscope := harms .vector h
      exact ⟨((optHolds_iff r.field).mp hscope.filter).1, hscope.pending, hscope.parent⟩
    · exact fun hdomain => (keyword_iff_vector.mp (hagree hdomain)).1
    · exact fun hdomain => (keyword_iff_vector.mp (hagree hdomain)).2
    · intro h
      have hscope := (expanded_iff.mp h).elim (harms .related) (harms .neighbours)
      exact ⟨hscope.filter, hscope.recordType, hscope.parent, hscope.verified⟩
    · intro h
      have hscope := harms .hype h
      exact ⟨((optHolds_iff r.field).mp hscope.filter).1, hscope.pending, hscope.parent,
        hscope.verified⟩
  · intro h
    have hagree : r.domain ∈ q.domains →
        (q.keywordAccepts r = true ↔ q.vectorAccepts r = true) := fun hdomain =>
      keyword_iff_vector.mpr ⟨h.clauseHit hdomain, h.keywordHit hdomain⟩
    have hexpanded : q.Expanded r → q.InScope r := by
      intro hin
      obtain ⟨hfilter, htypes, hparent, hverified⟩ := h.expanded hin
      exact ⟨hfilter, htypes, hin.tenant, hin.pending, hin.folder, hparent, hverified,
        version_of_visible hin.visible⟩
    have hvector : q.returns .vector r = true → q.InScope r := by
      intro hreturns
      obtain ⟨hbeside, hpending, hparent⟩ := h.search hreturns
      obtain ⟨hadmitted, -, hvisible⟩ := (returns_iff .vector).mp hreturns
      rw [admitted, Bool.and_eq_true] at hadmitted
      exact inScope_of_vector hadmitted.2 (version_of_visible hvisible) hbeside hpending hparent
    refine ⟨fun arm hreturns => ?_, hagree⟩
    cases arm with
    | vector => exact hvector hreturns
    | keyword =>
      -- What the keyword arm accepts the search accepts too.
      obtain ⟨hadmitted, hrest⟩ := (returns_iff .keyword).mp hreturns
      rw [admitted, Bool.and_eq_true, decide_eq_true_iff] at hadmitted
      refine hvector ((returns_iff .vector).mpr ⟨?_, hrest⟩)
      rw [admitted, Bool.and_eq_true, decide_eq_true_iff]
      exact ⟨hadmitted.1, (hagree hadmitted.1).mp hadmitted.2⟩
    | related => exact hexpanded (expanded_iff.mpr (Or.inl hreturns))
    | neighbours => exact hexpanded (expanded_iff.mpr (Or.inr hreturns))
    | hype =>
      obtain ⟨hbeside, hpending, hparent, hverified⟩ := h.hype hreturns
      obtain ⟨hadmitted, -, hvisible⟩ := (returns_iff .hype).mp hreturns
      rw [admitted, Bool.and_eq_true] at hadmitted
      exact inScope_of_hype hadmitted.2 (version_of_visible hvisible) hbeside hpending hparent
        hverified

end KbQuery

/-- A question about one file, in single-user mode; the graph relates another artifact. -/
def fileQuery : KbQuery where
  metadataFilter := some (single "filename" (.value (.str "plan.md")))
  domainRecordTypes := fun _ => []
  excludeVerifiedMemories := true
  multiUser := false
  tenantId := "default"
  defaultTenantId := "default"
  filterPending := true
  foldersOff := []
  pcEnabled := false
  asOf := none
  parseTime := fun _ => none
  domains := ["general"]
  readable := ["general"]
  related := [("a2", "general")]
  neighbours := []
  forgottenChunks := []
  forgottenArtifacts := []

/-- A chunk of the other artifact. -/
def otherChunk : KbRow where
  chunkId := "a2-0"
  domain := "general"
  metadata :=
    ((Dict.empty.set "artifact_id" (.str "a2")).set "filename" (.str "notes.md")).set
      "tenant_id" (.str "default")
  carries := by decide

end Cerid.Retrieval
