import Cerid.Verification.Verdict

/-!
# The two summaries

`check_hallucinations` counts the verdicts of a report in a loop of its own, under a fixed set
of statuses.  Every other report is summarised by `_summarize_claims`.
-/

namespace Cerid.Verification

structure StatusCounts where
  verified : Nat
  agreed : Nat
  unverified : Nat
  uncertain : Nat
  error : Nat
deriving DecidableEq

namespace StatusCounts

def zero : StatusCounts := ⟨0, 0, 0, 0, 0⟩

/-- `if status in status_counts: status_counts[status] += 1`. -/
def bump (c : StatusCounts) (status : String) : StatusCounts :=
  if status = "verified" then { c with verified := c.verified + 1 }
  else if status = "agreed" then { c with agreed := c.agreed + 1 }
  else if status = "unverified" then { c with unverified := c.unverified + 1 }
  else if status = "uncertain" then { c with uncertain := c.uncertain + 1 }
  else if status = "error" then { c with error := c.error + 1 }
  else c

def sum (c : StatusCounts) : Nat :=
  c.verified + c.agreed + c.unverified + c.uncertain + c.error

end StatusCounts

/-- What the loop over the verdicts adds up. -/
structure Assessment where
  statusCounts : StatusCounts
  assessedConfidence : ℚ
  assessedCount : Nat

def Assessment.zero : Assessment := ⟨StatusCounts.zero, 0, 0⟩

def Assessment.add (a : Assessment) (r : Verdict) : Assessment :=
  let status := r.status.getD "error"
  let counts :=
    if r.isAgreementOnly then { a.statusCounts with agreed := a.statusCounts.agreed + 1 }
    else a.statusCounts.bump status
  if status = "verified" ∨ status = "unverified" then
    { statusCounts := counts
      assessedConfidence := a.assessedConfidence + r.similarity.getD 0
      assessedCount := a.assessedCount + 1 }
  else { a with statusCounts := counts }

structure CheckSummary where
  total : Nat
  assessed : Nat
  overallConfidence : ℚ
  statusCounts : StatusCounts
deriving DecidableEq

def checkSummary (results : List Verdict) : CheckSummary :=
  let a := results.foldl Assessment.add Assessment.zero
  { total := results.length
    assessed := a.assessedCount
    overallConfidence :=
      if a.assessedCount = 0 then 0 else roundTo 3 (a.assessedConfidence / a.assessedCount)
    statusCounts := a.statusCounts }

/-- The verdicts on the claims, in their order: of the batch, where it has one. -/
def limitedVerify (batchResults : Nat → Option Verdict) (verifyClaim : Nat → String → Verdict)
    (claims : List String) : List Verdict :=
  claims.mapIdx fun i claim => (batchResults i).getD (verifyClaim i claim)

structure CheckReport where
  claims : List Verdict
  summary : CheckSummary

/-- The report that is stored; there is none where the check is skipped. -/
def checkHallucinations (minLength : Nat) (extractClaims : String → List String)
    (batchResults : Nat → Option Verdict) (verifyClaim : Nat → String → Verdict)
    (responseText : String) : Option CheckReport :=
  if responseText.length < minLength then none
  else
    let claims := extractClaims responseText
    if claims = [] then none
    else
      let results := limitedVerify batchResults verifyClaim claims
      some { claims := results, summary := checkSummary results }

/-- The summary is the one of `_summarize_claims`, a bucket that one of them lacks being empty
in the other; each verdict is in one bucket, and the score is the mean over the assessed. -/
structure CheckSummary.Agrees (s : CheckSummary) (results : List Verdict) : Prop where
  verified : s.statusCounts.verified = (summarizeClaims (results.map some)).1.verified
  agreed : s.statusCounts.agreed = (summarizeClaims (results.map some)).1.agreed
  unverified : s.statusCounts.unverified = (summarizeClaims (results.map some)).1.unverified
  uncertain : s.statusCounts.uncertain = (summarizeClaims (results.map some)).1.uncertain
  skipped : 0 = (summarizeClaims (results.map some)).1.skipped
  error : s.statusCounts.error = 0
  total : s.total = (summarizeClaims (results.map some)).1.total
  assessed : s.assessed = (summarizeClaims (results.map some)).1.assessed
  overall : s.overallConfidence = (summarizeClaims (results.map some)).2
  once : ∀ r ∈ results, (checkSummary [r]).statusCounts.sum = 1
  sum : s.statusCounts.sum = s.total
  mean : s.overallConfidence = meanScore ((results.filter Verdict.isAssessed).map
    fun r => r.similarity.getD 0)


/-- The counters of `check_hallucinations`. -/
inductive Bucket
  | verified
  | agreed
  | unverified
  | uncertain
  | error
deriving DecidableEq

def StatusCounts.get (c : StatusCounts) : Bucket → Nat
  | .verified => c.verified
  | .agreed => c.agreed
  | .unverified => c.unverified
  | .uncertain => c.uncertain
  | .error => c.error

/-- The counter of a status. -/
def bucketOf (status : String) : Option Bucket :=
  if status = "verified" then some .verified
  else if status = "agreed" then some .agreed
  else if status = "unverified" then some .unverified
  else if status = "uncertain" then some .uncertain
  else if status = "error" then some .error
  else none

theorem StatusCounts.get_bump (c : StatusCounts) (status : String) (b : Bucket) :
    (c.bump status).get b = c.get b + if bucketOf status = some b then 1 else 0 := by
  rw [bump, bucketOf]
  split_ifs <;> cases b <;> first | rfl | contradiction

/-- The counter that a verdict is counted in. -/
def Verdict.bucket (r : Verdict) : Option Bucket :=
  if r.isAgreementOnly then some .agreed else bucketOf (r.status.getD "error")

namespace Assessment

theorem get_add (a : Assessment) (r : Verdict) (b : Bucket) :
    (a.add r).statusCounts.get b = a.statusCounts.get b + if r.bucket = some b then 1 else 0 := by
  have hcounts : (a.add r).statusCounts =
      if r.isAgreementOnly then { a.statusCounts with agreed := a.statusCounts.agreed + 1 }
      else a.statusCounts.bump (r.status.getD "error") := by
    rw [add]
    split
    · rfl
    · rfl
  rw [hcounts, Verdict.bucket]
  split
  · cases b <;> rfl
  · exact StatusCounts.get_bump _ _ b

end Assessment
/-- Each counter counts the verdicts of its bucket. -/
theorem get_checkSummary (results : List Verdict) (b : Bucket) :
    (checkSummary results).statusCounts.get b =
      results.countP (fun r => decide (r.bucket = some b)) := by
  have hcount := foldl_eq_countP (fun a : Assessment => a.statusCounts.get b)
    (fun r : Verdict => decide (r.bucket = some b))
    (fun a r => by simpa only [decide_eq_true_eq] using a.get_add r b) Assessment.zero results
  have hzero : Assessment.zero.statusCounts.get b = 0 := by cases b <;> rfl
  rw [hzero, Nat.zero_add] at hcount
  exact hcount

theorem StatusCounts.sum_eq (c : StatusCounts) : c.sum =
    c.get .verified + c.get .agreed + c.get .unverified + c.get .uncertain + c.get .error := rfl

theorem sum_checkSummary_single (r : Verdict) :
    (checkSummary [r]).statusCounts.sum = if r.bucket = none then 0 else 1 := by
  simp only [StatusCounts.sum_eq, get_checkSummary, List.countP_singleton, decide_eq_true_eq]
  cases r.bucket with
  | none => rfl
  | some b => cases b <;> rfl

/-- The counters together count the verdicts that have a bucket. -/
theorem sum_checkSummary (results : List Verdict) :
    (checkSummary results).statusCounts.sum = results.countP (fun r => r.bucket.isSome) := by
  rw [StatusCounts.sum_eq]
  simp only [get_checkSummary]
  induction results with
  | nil => rfl
  | cons r rest ih =>
    simp only [List.countP_cons, decide_eq_true_eq]
    rw [← ih]
    cases r.bucket with
    | none => rfl
    | some b => cases b <;> simp <;> omega

theorem Verdict.isAssessed_iff (r : Verdict) : r.isAssessed = true ↔
    r.status.getD "error" = "verified" ∨ r.status.getD "error" = "unverified" := by
  rw [isAssessed, Bool.or_eq_true, decide_eq_true_iff, decide_eq_true_iff]
  cases r.status with
  | none => simp
  | some status => simp

/-- What the loop has summed up, and over how many. -/
theorem assessed_foldl (results : List Verdict) (a : Assessment) :
    (results.foldl Assessment.add a).assessedConfidence = a.assessedConfidence +
      ((results.filter Verdict.isAssessed).map fun r => r.similarity.getD 0).sum ∧
    (results.foldl Assessment.add a).assessedCount = a.assessedCount +
      (results.filter Verdict.isAssessed).length := by
  induction results generalizing a with
  | nil => simp
  | cons r rest ih =>
    obtain ⟨hsum, hcount⟩ := ih (a.add r)
    rw [List.foldl_cons, hsum, hcount, Assessment.add]
    by_cases h : r.isAssessed = true
    · rw [if_pos (r.isAssessed_iff.mp h), List.filter_cons_of_pos h, List.map_cons, List.sum_cons,
        List.length_cons]
      exact ⟨add_assoc _ _ _, Nat.add_right_comm _ 1 _⟩
    · rw [if_neg (fun h' => h (r.isAssessed_iff.mpr h')), List.filter_cons_of_neg h]
      exact ⟨rfl, rfl⟩

theorem assessed_checkSummary (results : List Verdict) :
    (checkSummary results).assessed = (results.filter Verdict.isAssessed).length := by
  have h := (assessed_foldl results Assessment.zero).2
  rw [Assessment.zero, Nat.zero_add] at h
  exact h

theorem overall_checkSummary (results : List Verdict) :
    (checkSummary results).overallConfidence =
      meanScore ((results.filter Verdict.isAssessed).map fun r => r.similarity.getD 0) := by
  obtain ⟨hsum, hcount⟩ := assessed_foldl results Assessment.zero
  rw [show Assessment.zero.assessedConfidence = 0 from rfl, zero_add] at hsum
  rw [show Assessment.zero.assessedCount = 0 from rfl, Nat.zero_add] at hcount
  rw [checkSummary, meanScore]
  simp only [hsum, hcount, List.length_eq_zero_iff, List.map_eq_nil_iff, List.length_map]

/-- The status is one that both functions count the same. -/
def Verdict.Settled (r : Verdict) : Prop :=
  r.status = some "verified" ∨ r.status = some "unverified" ∨ r.status = some "uncertain"

instance (r : Verdict) : Decidable r.Settled := inferInstanceAs (Decidable (_ ∨ _ ∨ _))

theorem present_map_some (p : Verdict → Bool) (results : List Verdict) :
    present p (results.map some) = results.countP (fun r => r.truthy && p r) := by
  rw [present, List.countP_map]
  rfl

/-- An assessed verdict is there. -/
theorem assessedScores_map_some (results : List Verdict) :
    assessedScores (results.map some) =
      (results.filter Verdict.isAssessed).map fun r => r.similarity.getD 0 := by
  have hreduce : (results.map some).reduceOption = results := by
    show (results.map some).filterMap id = results
    rw [List.filterMap_map]
    exact List.filterMap_some
  rw [assessedScores, hreduce]
  congr 1
  refine List.filter_congr fun r _ => ?_
  cases h : r.isAssessed with
  | false => exact Bool.and_false _
  | true =>
    rw [Bool.and_true]
    refine Verdict.truthy_of_status fun hnone => ?_
    rw [Verdict.isAssessed, hnone] at h
    exact Bool.false_ne_true h

def Bucket.status : Bucket → String
  | .verified => "verified"
  | .agreed => "agreed"
  | .unverified => "unverified"
  | .uncertain => "uncertain"
  | .error => "error"

theorem bucketOf_eq_some {status : String} {b : Bucket} (h : bucketOf status = some b) :
    status = b.status := by
  rw [bucketOf] at h
  split_ifs at h with h₁ h₂ h₃ h₄ h₅ <;> cases Option.some.inj h <;> assumption

namespace Verdict

variable {r : Verdict}

/-- A settled verdict is in the bucket that `_summarize_claims` has for it. -/
theorem bucket_eq_iff_of_settled (h : r.Settled) :
    (r.bucket = some .verified ↔ (r.truthy && r.countsAsVerified) = true) ∧
    (r.bucket = some .agreed ↔ (r.truthy && r.isAgreementOnly) = true) ∧
    (r.bucket = some .unverified ↔ (r.truthy && decide (r.status = some "unverified")) = true) ∧
    (r.bucket = some .uncertain ↔ (r.truthy && r.isUncertain) = true) ∧
    r.bucket ≠ none ∧ r.bucket ≠ some .error ∧ r.status ≠ some "skipped" := by
  have htruthy : r.truthy = true := by
    refine truthy_of_status fun hnone => ?_
    rw [Settled, hnone] at h
    simp at h
  simp only [htruthy, Bool.true_and]
  rw [bucket, countsAsVerified, isAgreementOnly, isUncertain]
  rcases h with h | h | h <;> rw [h]
  · cases r.isSourceBacked <;> decide
  · cases r.isSourceBacked <;> decide
  · cases r.isSourceBacked <;> decide

/-- A verdict that is counted, but neither as an error nor as something that is uncertain to
`_summarize_claims` alone, is settled. -/
theorem settled_of_bucket (hsome : r.bucket ≠ none) (herror : r.bucket ≠ some .error)
    (huncertain : (r.truthy && r.isUncertain) = true → r.bucket = some .uncertain) :
    r.Settled := by
  by_contra hnot
  rw [Settled, not_or, not_or] at hnot
  obtain ⟨hverified, hunverified, huncertain'⟩ := hnot
  have hbucket : r.bucket = bucketOf (r.status.getD "error") := by
    rw [bucket, isAgreementOnly, decide_eq_false hverified, Bool.false_and,
      if_neg Bool.false_ne_true]
  cases hs : r.status with
  | none =>
    rw [hbucket, hs] at herror
    exact herror rfl
  | some status =>
    rw [hs] at hverified hunverified huncertain' hbucket
    cases hb : bucketOf status with
    | none => exact hsome (hbucket.trans hb)
    | some b =>
      have hstatus := bucketOf_eq_some hb
      cases b with
      | verified => exact hverified (congrArg some hstatus)
      | unverified => exact hunverified (congrArg some hstatus)
      | uncertain => exact huncertain' (congrArg some hstatus)
      | error => exact herror (hbucket.trans hb)
      | agreed =>
        have htruthy : r.truthy = true := truthy_of_status (by rw [hs]; exact Option.some_ne_none _)
        have hun : r.isUncertain = true := by
          rw [isUncertain, hs, show status = "agreed" from hstatus]
          decide
        have h := huncertain (by rw [htruthy, hun]; rfl)
        rw [hbucket, Option.getD_some, hb] at h
        cases h

end Verdict

theorem CheckSummary.Agrees.settled {results : List Verdict}
    (h : (checkSummary results).Agrees results) : ∀ r ∈ results, r.Settled := by
  have hnone : ∀ r ∈ results, r.bucket ≠ none := by
    intro r hr hbucket
    have hone := h.once r hr
    rw [sum_checkSummary_single, if_pos hbucket] at hone
    exact absurd hone (by decide)
  have herror : ∀ r ∈ results, r.bucket ≠ some .error := by
    have hzero := (get_checkSummary results .error).symm.trans h.error
    intro r hr hbucket
    exact List.countP_eq_zero.mp hzero r hr (decide_eq_true hbucket)
  -- What is counted as uncertain here is counted so there, so that the converse holds too.
  have huncertain : results.countP (fun r => decide (r.bucket = some .uncertain)) =
      results.countP (fun r => r.truthy && r.isUncertain) :=
    (get_checkSummary results .uncertain).symm.trans
      (h.uncertain.trans (present_map_some Verdict.isUncertain results))
  have himp : ∀ r ∈ results, decide (r.bucket = some .uncertain) = true →
      (r.truthy && r.isUncertain) = true := by
    intro r _ hbucket
    have hb := of_decide_eq_true hbucket
    rw [Verdict.bucket] at hb
    split at hb
    · cases hb
    · have hstatus := bucketOf_eq_some hb
      cases hs : r.status with
      | none => rw [hs] at hstatus; exact absurd hstatus (by decide)
      | some status =>
        rw [hs, Option.getD_some] at hstatus
        rw [Verdict.truthy_of_status (by rw [hs]; exact Option.some_ne_none _), Verdict.isUncertain,
          hs, hstatus]
        decide
  intro r hr
  exact Verdict.settled_of_bucket (hnone r hr) (herror r hr) fun hun =>
    of_decide_eq_true (imp_of_countP_eq himp huncertain r hr hun)

theorem CheckSummary.agrees_of_settled {results : List Verdict} (h : ∀ r ∈ results, r.Settled) :
    (checkSummary results).Agrees results := by
  have hbuckets := fun r hr => Verdict.bucket_eq_iff_of_settled (h r hr)
  have hget : ∀ (b : Bucket) (p : Verdict → Bool),
      (∀ r ∈ results, (r.bucket = some b ↔ (r.truthy && p r) = true)) →
      (checkSummary results).statusCounts.get b = present p (results.map some) := by
    intro b p hp
    rw [get_checkSummary, present_map_some]
    exact List.countP_congr fun r hr => by rw [decide_eq_true_iff]; exact hp r hr
  refine
    { verified := hget .verified _ fun r hr => (hbuckets r hr).1
      agreed := hget .agreed _ fun r hr => (hbuckets r hr).2.1
      unverified := hget .unverified _ fun r hr => (hbuckets r hr).2.2.1
      uncertain := hget .uncertain _ fun r hr => (hbuckets r hr).2.2.2.1
      skipped := ?_, error := ?_
      total := (List.length_map some).symm
      assessed := ?_, overall := ?_, once := ?_, sum := ?_
      mean := overall_checkSummary results }
  · refine ((present_map_some _ results).trans (List.countP_eq_zero.mpr fun r hr hskipped => ?_)).symm
    exact (hbuckets r hr).2.2.2.2.2.2 (of_decide_eq_true (Bool.and_eq_true_iff.mp hskipped).2)
  · refine (get_checkSummary results .error).trans (List.countP_eq_zero.mpr fun r hr herror => ?_)
    exact (hbuckets r hr).2.2.2.2.2.1 (of_decide_eq_true herror)
  · show (checkSummary results).assessed = (assessedScores (results.map some)).length
    rw [assessed_checkSummary, assessedScores_map_some, List.length_map]
  · rw [overall_checkSummary, summarizeClaims, assessedScores_map_some]
  · intro r hr
    rw [sum_checkSummary_single, if_neg (hbuckets r hr).2.2.2.2.1]
  · rw [sum_checkSummary]
    refine List.countP_eq_length.mpr fun r hr => ?_
    exact Option.isSome_iff_ne_none.mpr (hbuckets r hr).2.2.2.2.1

end Cerid.Verification
