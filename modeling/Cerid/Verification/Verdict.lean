import Cerid.Lib.Rounding
import Cerid.Lib.Tally

/-!
# Verdicts

What the verification of one claim came to, and the summary of the verdicts of a report.
-/

namespace Cerid.Verification

/-- The keys of a verdict that the functions here read; `none` for one that is not there. -/
structure Verdict where
  claim : Option String := none
  status : Option String := none
  similarity : Option ℚ := none
  verificationMethod : Option String := none
  sourceArtifactId : Option String := none
  sourceUrls : Option (List String) := none
  claimType : Option String := none
  userFeedback : Option String := none
  consistencyIssue : Option String := none
deriving DecidableEq

namespace Verdict

/-- `if r`, for the mapping. -/
def truthy (r : Verdict) : Bool := decide (r ≠ {})

def kbMethods : List String := ["kb", "kb_nli", "kb_batch", "kb_only_timeout"]

/-- The verdict rests on the knowledge base, on an artifact of it, or on a URL. -/
def isSourceBacked (r : Verdict) : Bool :=
  r.verificationMethod.any (fun m => m ∈ kbMethods) || r.sourceArtifactId.any (fun a => a ≠ "") ||
    (r.sourceUrls.getD []).any (fun u => u ≠ "")

def countsAsVerified (r : Verdict) : Bool := decide (r.status = some "verified") && r.isSourceBacked

def isAgreementOnly (r : Verdict) : Bool := decide (r.status = some "verified") && !r.isSourceBacked

/-- `status in ("verified", "unverified")`. -/
def isAssessed (r : Verdict) : Bool :=
  decide (r.status = some "verified") || decide (r.status = some "unverified")

/-- Neither verified nor unverified nor skipped. -/
def isUncertain (r : Verdict) : Bool :=
  decide (r.status ≠ some "verified" ∧ r.status ≠ some "unverified" ∧ r.status ≠ some "skipped")

theorem truthy_of_status {r : Verdict} (h : r.status ≠ none) : r.truthy = true :=
  decide_eq_true fun he => h (he ▸ rfl)

end Verdict

structure Counts where
  verified : Nat
  agreed : Nat
  unverified : Nat
  uncertain : Nat
  skipped : Nat
  total : Nat
  assessed : Nat
deriving DecidableEq

/-- The mean, to three digits; of nothing, zero. -/
def meanScore (scores : List ℚ) : ℚ :=
  if scores = [] then 0 else roundTo 3 (scores.sum / scores.length)

/-- The similarities of the assessed verdicts. -/
def assessedScores (claims : List (Option Verdict)) : List ℚ :=
  (claims.reduceOption.filter (fun r => r.truthy && r.isAssessed)).map (fun r => r.similarity.getD 0)

/-- How many of the verdicts that are there meet a condition. -/
def present (p : Verdict → Bool) (claims : List (Option Verdict)) : Nat :=
  claims.countP (fun r => r.any (fun r => r.truthy && p r))

def summarizeClaims (claims : List (Option Verdict)) : Counts × ℚ :=
  ({ verified := present Verdict.countsAsVerified claims
     agreed := present Verdict.isAgreementOnly claims
     unverified := present (fun r => decide (r.status = some "unverified")) claims
     uncertain := present Verdict.isUncertain claims
     skipped := present (fun r => decide (r.status = some "skipped")) claims
     total := claims.length
     assessed := (assessedScores claims).length },
   meanScore (assessedScores claims))

end Cerid.Verification
