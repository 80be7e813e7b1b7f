import Cerid.Verification.StreamEnd
import Mathlib.Data.List.ReduceOption

/-!
# What the stream leaves behind

The summary, the events and the stored report of a stream tell of the same verdicts exactly if
the loop ends with every claim streamed and the batch has changed nothing that was.
-/

namespace Cerid.Verification

namespace Stream

variable {x : Extracted} {s : Stream}

/-- The sweep: the claims it has resolved are among those to be tried, and have a verdict; the
others have the one they had. -/
structure SweepInv (x : Extracted) (s : Stream) (w : Sweep) : Prop where
  tried : ∀ i ∈ w.resolved, i ∈ s.retryIndices x
  resolved : ∀ i ∈ w.resolved, w.collected i ≠ none
  others : ∀ i, i ∉ w.resolved → w.collected i = s.collected i

theorem SweepInv.retryClaim {w : Sweep} (h : SweepInv x s w) (retry : Nat × Verdict) :
    SweepInv x s (w.retryClaim (s.retryIndices x) retry) := by
  obtain ⟨j, r⟩ := retry
  rw [Sweep.retryClaim]
  split
  · rename_i htry
    split
    · refine { tried := ?_, resolved := ?_, others := ?_ }
      · intro i hi
        rcases List.mem_append.mp hi with hold | hnew
        · exact h.tried i hold
        · rw [List.mem_singleton.mp hnew]
          exact htry.1
      · intro i hi
        dsimp only at hi ⊢
        by_cases hij : i = j
        · rw [hij, Function.update_self]
          exact Option.some_ne_none r
        · rw [Function.update_of_ne hij]
          exact h.resolved i ((List.mem_append.mp hi).resolve_right
            fun hnew => hij (List.mem_singleton.mp hnew))
      · intro i hi
        dsimp only at hi ⊢
        rw [List.mem_append, List.mem_singleton, not_or] at hi
        rw [Function.update_of_ne hi.2]
        exact h.others i hi.1
    · exact ⟨h.tried, h.resolved, h.others⟩
  · exact h

/-- The events of the sweep show, of each claim it has resolved, its verdict. -/
theorem lastStatus_resolved (collected : Nat → Option Verdict) (i : Nat) (resolved : List Nat) :
    Event.lastStatus i
        (resolved.filterMap fun j => (collected j).map (claimVerifiedEvent x j)) =
      if i ∈ resolved then (collected i).map Verdict.shown else none := by
  induction resolved using List.reverseRecOn with
  | nil => rfl
  | append_singleton resolved j ih =>
    simp only [List.filterMap_append, List.mem_append, List.mem_singleton]
    cases hj : collected j with
    | none =>
      rw [List.filterMap_cons_none (by rw [hj]; rfl), List.filterMap_nil, List.append_nil, ih]
      by_cases hij : i = j
      · rw [hij, hj]
        simp
      · simp [hij]
    | some r =>
      rw [List.filterMap_cons_some (by rw [hj]; rfl), List.filterMap_nil, Event.lastStatus_snoc, ih]
      by_cases hij : i = j
      · rw [hij, hj]
        simp
      · simp [hij, Ne.symm hij]

/-- A claim that the sweep resolves agrees with what it shows, and it leaves the others as they
are. -/
theorem SweepInv.agreesOn {w : Sweep} (h : SweepInv x s w) {u : Stream}
    (hcollected : u.collected = w.collected)
    (hlast : ∀ i, Event.lastStatus i u.events =
      if i ∈ w.resolved then (w.collected i).map Verdict.shown else Event.lastStatus i s.events)
    (i : Nat) : u.AgreesOn i ↔ i ∈ w.resolved ∨ s.AgreesOn i := by
  rw [AgreesOn, AgreesOn, hcollected, hlast i]
  by_cases hi : i ∈ w.resolved
  · rw [if_pos hi]
    obtain ⟨r, hr⟩ := Option.ne_none_iff_exists'.mp (h.resolved i hi)
    exact ⟨fun _ => Or.inl hi, fun _ => ⟨r, hr, by rw [hr]; rfl⟩⟩
  · rw [if_neg hi, h.others i hi, or_iff_right hi]

/-- The events that a stage adds after the summary have no summary among them. -/
def Extends (s s' : Stream) : Prop :=
  ∃ more, s'.events = s.events ++ more ∧ ∀ e ∈ more, e.isSummary = false

/-- The claims that the sweep resolves are among those to be tried, and it shows what it changes:
all else stays. -/
theorem sweep_kept (x : Extracted) (s : Stream) (retries : List (Nat × Verdict)) :
    Extends s (s.sweep x retries) ∧
      ∃ resolved : List Nat, (∀ i ∈ resolved, i ∈ s.retryIndices x) ∧
        ∀ i, (s.sweep x retries).AgreesOn i ↔ i ∈ resolved ∨ s.AgreesOn i := by
  rw [sweep]
  by_cases hnone : s.retryIndices x = [] ∨ s.interrupted = true
  · rw [if_pos hnone]
    refine ⟨⟨[], (List.append_nil _).symm, fun _ h => absurd h List.not_mem_nil⟩, [], ?_, ?_⟩
    · exact fun _ h => absurd h List.not_mem_nil
    · simp
  · rw [if_neg hnone]
    have hinv : SweepInv x s
        (retries.foldl (Sweep.retryClaim (s.retryIndices x)) ⟨s.collected, [], []⟩) :=
      foldl_invariant (p := fun _ => True) _ (SweepInv x s) (fun _ retry hw _ => hw.retryClaim retry)
        ⟨fun _ h => absurd h List.not_mem_nil, fun _ h => absurd h List.not_mem_nil, fun _ _ => rfl⟩
        (fun _ _ => trivial)
    generalize retries.foldl (Sweep.retryClaim (s.retryIndices x)) ⟨s.collected, [], []⟩ = w at hinv
    dsimp only
    have hevents : ∀ e ∈ w.resolved.filterMap fun i => (w.collected i).map (claimVerifiedEvent x i),
        e.isSummary = false := by
      intro e he
      obtain ⟨i, -, hi⟩ := List.mem_filterMap.mp he
      obtain ⟨r, -, rfl⟩ := Option.map_eq_some_iff.mp hi
      rfl
    have hlast : ∀ i, Event.lastStatus i (s.events ++
          w.resolved.filterMap fun j => (w.collected j).map (claimVerifiedEvent x j)) =
        if i ∈ w.resolved then (w.collected i).map Verdict.shown
        else Event.lastStatus i s.events := by
      intro i
      rw [Event.lastStatus_append, lastStatus_resolved]
      by_cases hi : i ∈ w.resolved
      · obtain ⟨r, hr⟩ := Option.ne_none_iff_exists'.mp (hinv.resolved i hi)
        rw [if_pos hi, if_pos hi, hr]
        rfl
      · rw [if_neg hi, if_neg hi]
        exact Option.none_or
    split
    · exact ⟨⟨_, rfl, hevents⟩, w.resolved, hinv.tried, hinv.agreesOn rfl hlast⟩
    · refine ⟨⟨_, List.append_assoc _ _ _, ?_⟩, w.resolved, hinv.tried, hinv.agreesOn rfl ?_⟩
      · intro e he
        rcases List.mem_append.mp he with hold | hnew
        · exact hevents e hold
        · rw [List.mem_singleton.mp hnew]
          rfl
      · intro i
        rw [Event.lastStatus_snoc_other i _ rfl]
        exact hlast i

theorem shown_stampClaimType (x : Extracted) (r : Verdict) :
    (stampClaimType x r).shown = r.shown := by
  rw [stampClaimType]
  split <;> rfl

theorem truthy_stampClaimType (x : Extracted) (r : Verdict) :
    (stampClaimType x r).truthy = true := by
  refine decide_eq_true fun hempty => ?_
  rw [stampClaimType] at hempty
  split at hempty
  · rename_i htype
    rw [hempty] at htype
    cases htype
  · exact absurd (congrArg Verdict.claimType hempty) (Option.some_ne_none _)

/-- A stage that maps the verdict on a claim to one of the same status, and shows nothing of the
claim, leaves open whether it agrees. -/
theorem agreesOn_map {s' : Stream} {i : Nat} (f : Verdict → Verdict)
    (hf : ∀ r, (f r).shown = r.shown) (hcollected : s'.collected i = (s.collected i).map f)
    (hlast : Event.lastStatus i s'.events = Event.lastStatus i s.events) :
    s'.AgreesOn i ↔ s.AgreesOn i := by
  rw [AgreesOn, AgreesOn, hcollected, hlast]
  cases s.collected i with
  | none => simp
  | some r => simp [hf r]

theorem stamp_agreesOn (x : Extracted) (s : Stream) (i : Nat) :
    (s.stamp x).AgreesOn i ↔ s.AgreesOn i :=
  agreesOn_map (stampClaimType x) (shown_stampClaimType x) rfl rfl

/-- The consistency check annotates the verdicts, and else leaves them as they are. -/
theorem annotate_collected (x : Extracted) (s : Stream) (issues : List (Int × String)) (i : Nat) :
    ∃ f : Verdict → Verdict, (∀ r, (f r).unannotated = r.unannotated) ∧
      (s.annotate x issues).collected i = (s.collected i).map f := by
  refine foldl_invariant (p := fun _ => True) _
    (fun collected : Nat → Option Verdict => ∃ f : Verdict → Verdict,
      (∀ r, (f r).unannotated = r.unannotated) ∧ collected i = (s.collected i).map f)
    ?_ ⟨id, fun _ => rfl, Option.map_id'.symm⟩ (fun _ _ => trivial)
  intro collected issue hcollected _
  obtain ⟨f, hf, hmap⟩ := hcollected
  split
  · by_cases hi : i = issue.1.toNat
    · refine ⟨fun r => { f r with consistencyIssue := some issue.2 }, hf, ?_⟩
      rw [hi, Function.update_self, ← hi, hmap, Option.map_map]
      rfl
    · refine ⟨f, hf, ?_⟩
      rw [Function.update_of_ne hi]
      exact hmap
  · exact ⟨f, hf, hmap⟩

theorem annotate_events (x : Extracted) (s : Stream) (issues : List (Int × String)) :
    Extends s (s.annotate x issues) ∧
      ∀ i, Event.lastStatus i (s.annotate x issues).events = Event.lastStatus i s.events := by
  show Extends s (annotate x s issues) ∧
    ∀ i, Event.lastStatus i (if issues = [] then s.events else s.events ++ [_]) = _
  by_cases hnone : issues = []
  · refine ⟨⟨[], ?_, fun _ h => absurd h List.not_mem_nil⟩, fun i => by rw [if_pos hnone]⟩
    rw [List.append_nil]
    exact if_pos hnone
  · refine ⟨⟨[.consistencyCheck issues], if_neg hnone, ?_⟩, fun i => ?_⟩
    · intro e he
      rw [List.mem_singleton.mp he]
      rfl
    · rw [if_neg hnone]
      exact Event.lastStatus_snoc_other i _ rfl

theorem annotate_agreesOn (x : Extracted) (s : Stream) (issues : List (Int × String)) (i : Nat) :
    (s.annotate x issues).AgreesOn i ↔ s.AgreesOn i := by
  obtain ⟨f, hf, hmap⟩ := annotate_collected x s issues i
  refine agreesOn_map f (fun r => ?_) hmap ((annotate_events x s issues).2 i)
  show (f r).unannotated.shown = r.unannotated.shown
  rw [hf r]

/-- Where every claim has a verdict, the report has it in its place. -/
theorem runClaims_eq (h : ∀ i < x.claims.length, s.collected i ≠ none) :
    s.runClaims x = (List.range x.claims.length).map fun i => (s.collected i).getD {} := by
  have hslots : s.slots x =
      ((List.range x.claims.length).map fun i => (s.collected i).getD {}).map some := by
    rw [slots, List.map_map]
    refine List.map_congr_left fun i hi => ?_
    obtain ⟨r, hr⟩ := Option.ne_none_iff_exists'.mp (h i (List.mem_range.mp hi))
    rw [Function.comp_apply, hr]
    rfl
  rw [runClaims, hslots]
  show (((List.range x.claims.length).map fun i => (s.collected i).getD {}).map some).filterMap id =
    _
  rw [List.filterMap_map]
  exact List.filterMap_some

theorem mem_runClaims {r : Verdict} (h : r ∈ s.runClaims x) : ∃ i, s.collected i = some r := by
  rw [runClaims, List.reduceOption_mem_iff] at h
  obtain ⟨i, -, hi⟩ := List.mem_map.mp h
  exact ⟨i, hi⟩

/-- The counts of the report add up to the verdicts that it has. -/
theorem sum_stamped (x : Extracted) (s : Stream) :
    (summarizeClaims (((s.stamp x).runClaims x).map some)).1.sum =
      ((s.stamp x).runClaims x).length := by
  refine sum_summarizeClaims fun r hr => ?_
  obtain ⟨i, hi⟩ := mem_runClaims hr
  obtain ⟨r', -, hr'⟩ := Option.map_eq_some_iff.mp hi
  rw [← hr']
  exact truthy_stampClaimType x r'

theorem Extends.trans {s' s'' : Stream} (h : Extends s s') (h' : Extends s' s'') :
    Extends s s'' := by
  obtain ⟨more, hmore, hnone⟩ := h
  obtain ⟨more', hmore', hnone'⟩ := h'
  refine ⟨more ++ more', by rw [hmore', hmore, List.append_assoc], fun e he => ?_⟩
  exact (List.mem_append.mp he).elim (hnone e) (hnone' e)

/-- After its summary a stream has that one alone. -/
theorem summary_of_extends (h : Ledger x s) {s' : Stream} (hext : Extends (s.summarize x) s') :
    s'.events.countP Event.isSummary = 1 ∧
      ∀ q, Event.summary q ∈ s'.events ↔ Event.summary q = s.summaryEvent x := by
  obtain ⟨more, hmore, hnone⟩ := hext
  have hevents : s'.events = s.events ++ [s.summaryEvent x] ++ more := hmore
  have hbefore : s.events.countP Event.isSummary = 0 :=
    List.countP_eq_zero.mpr fun e he => by rw [h.unsummed e he]; exact Bool.false_ne_true
  have hafter : more.countP Event.isSummary = 0 :=
    List.countP_eq_zero.mpr fun e he => by rw [hnone e he]; exact Bool.false_ne_true
  refine ⟨?_, fun q => ?_⟩
  · rw [hevents, List.countP_append, List.countP_append, hbefore, hafter]
    rfl
  · rw [hevents, List.mem_append, List.mem_append, List.mem_singleton]
    constructor
    · intro hq
      rcases hq with (hold | heq) | hnew
      · exact absurd (h.unsummed _ hold) (Bool.false_ne_true ∘ Eq.symm)
      · exact heq
      · exact absurd (hnone _ hnew) (Bool.false_ne_true ∘ Eq.symm)
    · exact fun heq => Or.inl (Or.inr heq)

theorem mem_sent_iff {i : Nat} : i ∈ s.sent ↔ ∃ e ∈ s.events, e.index? = some i :=
  List.mem_filterMap

theorem checked_kept (x : Extracted) (s : Stream) (check : Bool) (issues : List (Int × String)) :
    Extends s (s.checked x check issues) ∧
      (∀ i, (s.checked x check issues).AgreesOn i ↔ s.AgreesOn i) ∧
      ∀ i, ∃ f : Verdict → Verdict, (∀ r, (f r).unannotated = r.unannotated) ∧
        (s.checked x check issues).collected i = ((s.stamp x).collected i).map f := by
  rw [checked]
  split
  · refine ⟨(annotate_events x (s.stamp x) issues).1, fun i => ?_, ?_⟩
    · rw [annotate_agreesOn, stamp_agreesOn]
    · exact annotate_collected x (s.stamp x) issues
  · refine ⟨⟨[], (List.append_nil _).symm, fun _ h => absurd h List.not_mem_nil⟩, ?_, fun i => ?_⟩
    · exact stamp_agreesOn x s
    · exact ⟨id, fun _ => rfl, Option.map_id'.symm⟩

theorem summarize_agreesOn (x : Extracted) (s : Stream) (i : Nat) :
    (s.summarize x).AgreesOn i ↔ s.AgreesOn i := by
  rw [AgreesOn, AgreesOn]
  show (∃ r, s.collected i = some r ∧
    Event.lastStatus i (s.events ++ [s.summaryEvent x]) = some r.shown) ↔ _
  rw [Event.lastStatus_snoc_other i s.events rfl]

/-- After the loop no claim that agrees is changed, and none that strays is tried again. -/
theorem sweep_agreesOn (x : Extracted) (s : Stream) (retries : List (Nat × Verdict)) :
    (∀ i, s.AgreesOn i → ((s.summarize x).sweep x retries).AgreesOn i) ∧
      (s.Strays → ∃ i ∈ s.sent, ¬ ((s.summarize x).sweep x retries).AgreesOn i) := by
  obtain ⟨-, resolved, htried, hagrees⟩ := sweep_kept x (s.summarize x) retries
  refine ⟨fun i hi => ?_, fun hstrays => ?_⟩
  · rw [hagrees i, summarize_agreesOn]
    exact Or.inr hi
  · obtain ⟨i, hi, r, hr, hretry, hnot⟩ := hstrays
    refine ⟨i, hi, fun hon => ?_⟩
    rw [hagrees i, summarize_agreesOn] at hon
    have hmem := htried i (hon.resolve_right hnot)
    rw [retryIndices, List.mem_filter] at hmem
    have hany := hmem.2
    rw [show (s.summarize x).collected i = some r from hr, Option.any_some, hretry] at hany
    exact Bool.false_ne_true hany

end Stream

/-- The stream has claims.  Where the batch answers a claim that was streamed, it gives it the
status it has.  The loop ends with every claim streamed, or by the deadline with no verdict on
those that were not.  And the report may be persisted, and one of its writes goes through. -/
structure Schedule.Fine (x : Extracted) (r : Schedule) : Prop where
  claims : x.claims ≠ []
  agreeing : Along (Stream.step x) (Stream.Agreeing x) (Stream.start x) r.acts
  endsWell : (r.acts.foldl (Stream.step x) (Stream.start x)).EndsWell x r.failure
  written : r.persistReport = true ∧ (r.finalWrite = true ∨ r.provisionalWrite = true)

/-- Of the report, where every claim has a verdict and agrees. -/
theorem report_right {x : Extracted} {s w : Stream} (f : Nat → Verdict → Verdict)
    (hf : ∀ i r, (f i r).unannotated = r.unannotated)
    (hw : ∀ i, w.collected i = (s.collected i).map (f i))
    (hagrees : ∀ i < x.claims.length, w.AgreesOn i) (claims : List Verdict)
    (hclaims : claims = w.runClaims x ∨ claims = s.runClaims x) :
    claims.length = x.claims.length ∧
      ∀ i < x.claims.length, ∃ entry verdict, claims[i]? = some entry ∧
        w.collected i = some verdict ∧ entry.unannotated = verdict.unannotated ∧
        Event.lastStatus i w.events = some entry.shown := by
  have hwsome : ∀ i < x.claims.length, w.collected i ≠ none := by
    intro i hi hnone
    obtain ⟨r, hr, -⟩ := hagrees i hi
    rw [hnone] at hr
    cases hr
  have hssome : ∀ i < x.claims.length, s.collected i ≠ none := by
    intro i hi hnone
    refine hwsome i hi ?_
    rw [hw i, hnone]
    rfl
  rw [Stream.runClaims_eq hwsome, Stream.runClaims_eq hssome] at hclaims
  have hlength : claims.length = x.claims.length := by
    rcases hclaims with h | h <;> rw [h, List.length_map, List.length_range]
  refine ⟨hlength, fun i hi => ?_⟩
  obtain ⟨verdict, hverdict, hlast⟩ := hagrees i hi
  obtain ⟨r, hr⟩ := Option.ne_none_iff_exists'.mp (hssome i hi)
  have hfr : f i r = verdict := by
    rw [hw i, hr] at hverdict
    exact Option.some.inj hverdict
  have hentry : claims[i]? = some verdict ∨ claims[i]? = some r := by
    rcases hclaims with h | h
    · rw [h, List.getElem?_map, List.getElem?_range hi, Option.map_some, hverdict]
      exact Or.inl rfl
    · rw [h, List.getElem?_map, List.getElem?_range hi, Option.map_some, hr]
      exact Or.inr rfl
  have hsame : r.unannotated = verdict.unannotated := hfr ▸ (hf i r).symm
  rcases hentry with h | h
  · exact ⟨verdict, verdict, h, hverdict, rfl, hlast⟩
  · refine ⟨r, verdict, h, hverdict, hsame, ?_⟩
    rw [hlast]
    show some verdict.unannotated.shown = some r.unannotated.shown
    rw [hsame]

/-- From the end of the loop on: every claim was streamed, and agrees after the sweep, and a
report is written. -/
theorem conclude_right_iff {x : Extracted} {s : Stream} (h : Stream.Ledger x s) (r : Schedule) :
    (s.conclude x r).Right x ↔ (∀ i < x.claims.length, i ∈ s.sent) ∧
      (∀ i < x.claims.length, ((s.summarize x).sweep x r.retries).AgreesOn i) ∧
      r.persistReport = true ∧ (r.finalWrite = true ∨ r.provisionalWrite = true) := by
  rw [Stream.conclude]
  have hext := (Stream.sweep_kept x (s.summarize x) r.retries).1
  generalize (s.summarize x).sweep x r.retries = u at *
  generalize (!s.interrupted && (r.conversationHistory || decide (2 ≤ x.claims.length))) = check
  obtain ⟨hext', hchecked, hmap⟩ := Stream.checked_kept x u check r.issues
  generalize u.checked x check r.issues = w at *
  choose f hf hw using hmap
  obtain ⟨hone, hsummary⟩ := Stream.summary_of_extends h (hext.trans hext')
  have hsum : (∀ q, Event.summary q ∈ w.events → q.sum = x.claims.length) ↔
      ∀ i < x.claims.length, i ∈ s.sent := by
    rw [← length_eq_iff_of_nodup h.nodup h.lt, ← h.counted]
    constructor
    · exact fun hall => hall _ ((hsummary _).mpr rfl)
    · intro hcount q hq
      cases (hsummary q).mp hq
      exact hcount
  constructor
  · intro hright
    obtain ⟨report, hstored, -, -, hentries⟩ := hright.report
    refine ⟨hsum.mp hright.counted, fun i hi => ?_, ?_⟩
    · obtain ⟨entry, verdict, -, hverdict, hsame, hlast⟩ := hentries i hi
      refine (hchecked i).mp ⟨verdict, hverdict, hlast.trans ?_⟩
      show some entry.unannotated.shown = some verdict.unannotated.shown
      rw [hsame]
    · dsimp only at hstored
      split_ifs at hstored with hpersist hfinal hprovisional
      · exact ⟨hpersist, Or.inl hfinal⟩
      · exact ⟨hpersist, Or.inr hprovisional⟩
  · intro hfine
    obtain ⟨hsent, hagrees, hpersist, hwritten⟩ := hfine
    have hw' : ∀ i < x.claims.length, w.AgreesOn i := fun i hi => (hchecked i).mpr (hagrees i hi)
    have hreport := report_right f hf hw hw'
    have hstamped := (hreport ((u.stamp x).runClaims x) (Or.inr rfl)).1
    have hcounts := (Stream.sum_stamped x u).trans hstamped
    refine { summary := hone, emitted := ?_, counted := hsum.mpr hsent, report := ?_ }
    · intro i hi
      obtain ⟨e, he, hindex⟩ := Stream.mem_sent_iff.mp (hsent i hi)
      refine ⟨e, ?_, hindex⟩
      obtain ⟨more, hmore, -⟩ := hext.trans hext'
      rw [hmore]
      exact List.mem_append_left _ (List.mem_append_left _ he)
    · dsimp only
      rw [if_neg (not_not_intro hpersist)]
      by_cases hfinal : r.finalWrite = true
      · rw [if_pos hfinal]
        obtain ⟨hlength, hentries⟩ := hreport (w.runClaims x) (Or.inl rfl)
        exact ⟨_, rfl, hlength, hcounts, hentries⟩
      · rw [if_neg hfinal, if_pos (hwritten.resolve_left hfinal)]
        obtain ⟨hlength, hentries⟩ := hreport ((u.stamp x).runClaims x) (Or.inr rfl)
        exact ⟨_, rfl, hlength, hcounts, hentries⟩

/-- Two claims on current events, that the batch answers as well. -/
def twoPrices : Extracted where
  claims := ["Gold trades at 2000 dollars.", "Silver trades at 30 dollars."]
  claimType := fun _ => "recency"
  isCurrentEventClaim := fun _ => true
  responseIsStale := false
  cachedVerdict := fun _ => none
  kbMatch := fun _ => none
  kbQuality := fun _ => none
  online := true

/-- The first claim is uncertain to its task, and streamed; then the batch answers both. -/
def lateBatch : Schedule where
  acts :=
    [.look 0,
     .finish 0 (.returned { claim := some "Gold trades at 2000 dollars.",
                            status := some "uncertain", similarity := some (1 / 2),
                            verificationMethod := some "web_search" }),
     .take, .batch [] [⟨0, .verified, 9 / 10⟩, ⟨1, .verified, 9 / 10⟩], .look 1, .take]
  failure := false
  retries := []
  issues := []
  conversationHistory := false
  persistReport := true
  provisionalWrite := true
  finalWrite := true

end Cerid.Verification
