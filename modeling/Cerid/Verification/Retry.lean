import Cerid.Lib.Run
import Cerid.Verification.Verdict

/-!
# Retries of single claims

A retry verifies one claim of a stored report again.  It reads the report, replaces the verdict
of its claim and writes the report.  After its consistency check it writes the same report once
more.
-/

namespace Cerid.Verification

structure ReportSummary where
  total : Nat
  verified : Nat
  agreed : Nat
  unverified : Nat
  uncertain : Nat
  skipped : Nat
deriving DecidableEq

structure Report where
  claims : List Verdict
  summary : ReportSummary
deriving DecidableEq

/-- The fresh verdict, with the feedback on the one it replaces. -/
def mergedClaim (prior newVerdict : Verdict) : Verdict :=
  if prior.userFeedback.isSome ∧ newVerdict.userFeedback = none then
    { newVerdict with userFeedback := prior.userFeedback }
  else newVerdict

def mergeRetryIntoExisting (existing : Option Report) (index : Int) (newVerdict : Option Verdict) :
    Option (List Verdict × Counts × ℚ) :=
  newVerdict.bind fun newVerdict => existing.bind fun existing =>
    if 0 ≤ index ∧ index < existing.claims.length then
      let prior := existing.claims.getD index.toNat {}
      let merged := existing.claims.set index.toNat (mergedClaim prior newVerdict)
      let (counts, overall) := summarizeClaims (merged.map some)
      some (merged, counts, overall)
    else none

def durableReport (claims : List Verdict) (counts : Counts) : Report where
  claims := claims
  summary :=
    { total := counts.total
      verified := counts.verified
      agreed := counts.agreed
      unverified := counts.unverified
      uncertain := counts.uncertain
      skipped := counts.skipped }

/-- The stored report, and the reports that a retry has written once and will write again.
`latest` is for the record: it has, for each claim, the verdict that was merged last. -/
structure Retries where
  stored : Option Report
  pending : List Report
  latest : List Verdict

inductive RetryStep
  /-- A retry of the claim at an index merges its verdict and writes the report. -/
  | merge (index : Int) (verdict : Option Verdict)
  /-- The `k`-th of the retries that are under way writes its report again. -/
  | rewrite (k : Nat)

namespace Retries

def start (report : Report) : Retries := { stored := some report, pending := [], latest := report.claims }

def merge (s : Retries) (index : Int) (verdict : Option Verdict) : Retries :=
  match mergeRetryIntoExisting s.stored index verdict with
  | none => s
  | some (claims, counts, _) =>
    { stored := some (durableReport claims counts)
      pending := s.pending ++ [durableReport claims counts]
      latest := s.latest.set index.toNat (verdict.getD {}) }

def rewrite (s : Retries) (k : Nat) : Retries :=
  match s.pending[k]? with
  | none => s
  | some report => { s with stored := some report, pending := s.pending.eraseIdx k }

def step (s : Retries) : RetryStep → Retries
  | .merge index verdict => s.merge index verdict
  | .rewrite k => s.rewrite k

end Retries

/-- The verdict without the feedback on it. -/
def Verdict.bare (r : Verdict) : Verdict := { r with userFeedback := none }

/-- The feedback on the claim at an index. -/
def feedbackAt (claims : List Verdict) (i : Nat) : Option String :=
  (claims[i]?).bind Verdict.userFeedback

/-- The feedback of the original report is there. -/
def KeepsFeedback (original claims : List Verdict) : Prop :=
  ∀ i f, feedbackAt original i = some f → feedbackAt claims i = some f

/-- The stored report has as many claims as the original one, on each the verdict that was
merged last, and the feedback of the original one. -/
def Retries.Right (original : Report) (s : Retries) : Prop :=
  ∃ report, s.stored = some report ∧ report.claims.length = original.claims.length ∧
    report.claims.map Verdict.bare = s.latest.map Verdict.bare ∧
    KeepsFeedback original.claims report.claims

/-- A verdict brings no feedback of its own to a claim that has other feedback, and a report is
written the second time while the verdicts that were written the first time are stored. -/
def Retries.Fits (original : Report) (s : Retries) : RetryStep → Prop
  | .merge index verdict => ∀ v f, verdict = some v → 0 ≤ index →
      feedbackAt original.claims index.toNat = some f → v.userFeedback = none ∨ v.userFeedback = some f
  | .rewrite k => ∀ report, s.pending[k]? = some report →
      ∃ current, s.stored = some current ∧
        report.claims.map Verdict.bare = current.claims.map Verdict.bare

theorem bare_mergedClaim (prior v : Verdict) : (mergedClaim prior v).bare = v.bare := by
  rw [mergedClaim]
  split
  · rfl
  · rfl

theorem userFeedback_mergedClaim (prior v : Verdict) :
    (mergedClaim prior v).userFeedback = v.userFeedback.or prior.userFeedback := by
  rw [mergedClaim]
  cases hv : v.userFeedback with
  | none =>
    cases hp : prior.userFeedback with
    | none => simp [hv]
    | some f => simp
  | some g => simp [hv]

theorem feedbackAt_lt {claims : List Verdict} {i : Nat} {f : String}
    (h : feedbackAt claims i = some f) : i < claims.length := by
  by_contra hge
  rw [feedbackAt, List.getElem?_eq_none (Nat.le_of_not_lt hge)] at h
  cases h

/-- The feedback after one verdict has been replaced. -/
theorem feedbackAt_set (claims : List Verdict) {i : Nat} (v : Verdict) (hi : i < claims.length)
    (j : Nat) :
    feedbackAt (claims.set i (mergedClaim (claims.getD i {}) v)) j =
      if i = j then v.userFeedback.or (feedbackAt claims j) else feedbackAt claims j := by
  rw [feedbackAt, List.getElem?_set]
  by_cases hij : i = j
  · subst hij
    rw [if_pos rfl, if_pos hi, if_pos rfl, Option.bind_some, userFeedback_mergedClaim, feedbackAt,
      List.getD_eq_getElem?_getD, List.getElem?_eq_getElem hi]
    rfl
  · rw [if_neg hij, if_neg hij, feedbackAt]

namespace Retries

variable {original : Report} {s : Retries}

/-- A merge leaves all as it is, or puts its verdict into the stored report. -/
theorem merge_cases {report : Report} (hstored : s.stored = some report) (index : Int)
    (verdict : Option Verdict) :
    s.merge index verdict = s ∧
      (∀ v, verdict = some v → ¬ (0 ≤ index ∧ index.toNat < report.claims.length)) ∨
    ∃ v next, verdict = some v ∧ 0 ≤ index ∧ index.toNat < report.claims.length ∧
      next.claims = report.claims.set index.toNat
        (mergedClaim (report.claims.getD index.toNat {}) v) ∧
      s.merge index verdict =
        { stored := some next, pending := s.pending ++ [next],
          latest := s.latest.set index.toNat v } := by
  rw [merge, mergeRetryIntoExisting, hstored]
  cases verdict with
  | none => exact Or.inl ⟨rfl, fun v hv => nomatch hv⟩
  | some v =>
    rw [Option.bind_some, Option.bind_some]
    by_cases hin : 0 ≤ index ∧ index < report.claims.length
    · rw [if_pos hin]
      exact Or.inr ⟨v, _, rfl, hin.1, by omega, rfl, rfl⟩
    · rw [if_neg hin]
      exact Or.inl ⟨rfl, fun v' _ h => hin ⟨h.1, by omega⟩⟩

/-- The report is right, and so is the feedback in the reports that are to be written again. -/
structure Inv (original : Report) (s : Retries) : Prop where
  right : s.Right original
  latest : s.latest.length = original.claims.length
  pending : ∀ report ∈ s.pending, report.claims.length = original.claims.length ∧
    KeepsFeedback original.claims report.claims

theorem inv_start (original : Report) : Inv original (start original) where
  right := ⟨original, rfl, rfl, rfl, fun _ _ h => h⟩
  latest := rfl
  pending := fun _ h => absurd h List.not_mem_nil

/-- A merge keeps the feedback exactly if its verdict brings no other. -/
theorem keepsFeedback_set_iff {claims : List Verdict}
    (hkeeps : KeepsFeedback original.claims claims) {i : Nat} (hi : i < claims.length) (v : Verdict) :
    KeepsFeedback original.claims (claims.set i (mergedClaim (claims.getD i {}) v)) ↔
      ∀ f, feedbackAt original.claims i = some f →
        v.userFeedback = none ∨ v.userFeedback = some f := by
  constructor
  · intro h f hf
    have hset := h i f hf
    rw [feedbackAt_set claims v hi, if_pos rfl] at hset
    cases hv : v.userFeedback with
    | none => exact Or.inl rfl
    | some g =>
      rw [hv, Option.some_or] at hset
      exact Or.inr hset
  · intro h j f hf
    rw [feedbackAt_set claims v hi]
    split
    · rename_i hij
      subst hij
      rcases h f hf with hv | hv <;> rw [hv]
      · rw [Option.none_or]
        exact hkeeps i f hf
      · rw [Option.some_or]
    · exact hkeeps j f hf

theorem Inv.right_merge_iff (h : Inv original s) (index : Int) (verdict : Option Verdict) :
    (s.merge index verdict).Right original ↔ s.Fits original (.merge index verdict) := by
  obtain ⟨report, hstored, hlength, hbare, hkeeps⟩ := h.right
  rcases merge_cases hstored index verdict with ⟨hsame, hout⟩ | ⟨v, next, hv, hpos, hlt, hclaims, heq⟩
  · rw [hsame]
    refine ⟨fun _ v f hv hpos hf => ?_, fun _ => h.right⟩
    exact absurd ⟨hpos, hlength ▸ feedbackAt_lt hf⟩ (hout v hv)
  · have hfits : s.Fits original (.merge index verdict) ↔
        KeepsFeedback original.claims next.claims := by
      rw [hclaims, keepsFeedback_set_iff hkeeps hlt v]
      constructor
      · exact fun hfits f hf => hfits v f hv hpos hf
      · intro hall v' f hv' _ hf
        cases hv.symm.trans hv'
        exact hall f hf
    rw [heq, hfits]
    constructor
    · rintro ⟨current, hcurrent, -, -, hkeeps'⟩
      cases hcurrent
      exact hkeeps'
    · intro hkeeps'
      refine ⟨next, rfl, ?_, ?_, hkeeps'⟩
      · rw [hclaims, List.length_set, hlength]
      · rw [hclaims, List.map_set, List.map_set, hbare, bare_mergedClaim]

theorem Inv.right_rewrite_iff (h : Inv original s) (k : Nat) :
    (s.rewrite k).Right original ↔ s.Fits original (.rewrite k) := by
  obtain ⟨current, hstored, hlength, hbare, hkeeps⟩ := h.right
  rw [rewrite]
  cases hk : s.pending[k]? with
  | none =>
    refine ⟨fun _ report hr => ?_, fun _ => h.right⟩
    rw [hk] at hr
    cases hr
  | some report =>
    constructor
    · rintro ⟨report', hr', -, hbare', -⟩ report'' hr''
      cases hr'
      cases hk.symm.trans hr''
      exact ⟨current, hstored, hbare'.trans hbare.symm⟩
    · intro hfits
      obtain ⟨current', hcurrent', hsame⟩ := hfits report hk
      cases hstored.symm.trans hcurrent'
      obtain ⟨hlength', hkeeps'⟩ := h.pending report (List.mem_of_getElem? hk)
      exact ⟨report, rfl, hlength', hsame.trans hbare, hkeeps'⟩

theorem Inv.right_step_iff (h : Inv original s) (i : RetryStep) :
    (s.step i).Right original ↔ s.Fits original i := by
  cases i with
  | merge index verdict => exact h.right_merge_iff index verdict
  | rewrite k => exact h.right_rewrite_iff k

theorem Inv.step (h : Inv original s) {i : RetryStep} (hfits : s.Fits original i) :
    Inv original (s.step i) := by
  have hright := (h.right_step_iff i).mpr hfits
  refine { right := hright, latest := ?_, pending := ?_ }
  · cases i with
    | merge index verdict =>
      obtain ⟨report, hstored, -⟩ := h.right
      rcases merge_cases hstored index verdict with ⟨hsame, -⟩ | ⟨v, next, -, -, -, -, heq⟩
      · rw [Retries.step, hsame]
        exact h.latest
      · rw [Retries.step, heq]
        exact (List.length_set).trans h.latest
    | rewrite k =>
      rw [Retries.step, rewrite]
      split
      · exact h.latest
      · exact h.latest
  · cases i with
    | merge index verdict =>
      obtain ⟨report, hstored, -⟩ := h.right
      rcases merge_cases hstored index verdict with ⟨hsame, -⟩ | ⟨v, next, -, -, -, -, heq⟩
      · rw [Retries.step, hsame]
        exact h.pending
      · rw [Retries.step, heq] at hright ⊢
        obtain ⟨stored, hnext, hlength, -, hkeeps⟩ := hright
        cases hnext
        intro p hp
        rcases List.mem_append.mp hp with hold | hnew
        · exact h.pending p hold
        · rw [List.mem_singleton.mp hnew]
          exact ⟨hlength, hkeeps⟩
    | rewrite k =>
      rw [Retries.step, rewrite]
      split
      · exact h.pending
      · exact fun p hp => h.pending p (List.mem_of_mem_eraseIdx hp)

end Retries

/-- The report is right after every step of a run exactly if every step fits: a retry writes the
second time over the verdicts that it wrote the first time. -/
theorem retries_right_iff (original : Report) (steps : List RetryStep) :
    Along Retries.step (fun s i => (s.step i).Right original) (Retries.start original) steps ↔
      Along Retries.step (Retries.Fits original) (Retries.start original) steps :=
  along_iff (Retries.Inv original) (fun _ i h => h.right_step_iff i) (fun _ _ h => h.step)
    (Retries.inv_start original)

/-- A report of two claims whose verification failed. -/
def twoErrors : Report :=
  let claims : List Verdict :=
    [{ claim := some "a", status := some "error" }, { claim := some "b", status := some "error" }]
  durableReport claims (summarizeClaims (claims.map some)).1

/-- Two retries overlap, and the one that merged first writes last. -/
theorem retry_reverts :
    ¬ (([.merge 0 (some { claim := some "a", status := some "verified" }),
        .merge 1 (some { claim := some "b", status := some "verified" }),
        .rewrite 1, .rewrite 0].foldl Retries.step (Retries.start twoErrors)).Right twoErrors) := by
  rintro ⟨report, hstored, -, hbare, -⟩
  cases hstored
  exact absurd hbare (by decide)

end Cerid.Verification
