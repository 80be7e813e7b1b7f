import Cerid.Verification.Verdict
import Cerid.Lib.Dict
import Mathlib.Algebra.BigOperators.Group.List.Basic

/-!
# The verification stream

The claims of a response are verified by one task each, and those on current events by a batch
task as well.  A loop takes the tasks as they complete and streams their verdicts until all are
taken, the deadline passes or an exception leaves it.  After the summary the timeouts and errors
are tried once more, and the report is stored.
-/

namespace Cerid.Verification

/-- The best of the evidence on a claim, by its relevance. -/
structure KbMatch where
  relevance : ℚ
  artifactId : String

/-- The claims of a response, and what is known of them before their tasks start: by their
index, the verdict in the cache, a passage that entails the claim, the quality of the passages
that mention it. -/
structure Extracted where
  claims : List String
  claimType : String → String
  isCurrentEventClaim : String → Bool
  responseIsStale : Bool
  cachedVerdict : Nat → Option Verdict
  kbMatch : Nat → Option KbMatch
  kbQuality : Nat → Option ℚ
  /-- `":online" in model`, for the model of the batch. -/
  online : Bool

namespace Extracted

variable (x : Extracted)

def claim (i : Nat) : String := x.claims.getD i ""

/-- The claim goes through the batched web check. -/
def timeSensitive (i : Nat) : Bool :=
  x.claimType (x.claim i) = "recency" || x.isCurrentEventClaim (x.claim i) ||
    x.responseIsStale && x.claimType (x.claim i) = "factual"

/-- The verdicts of the batch that the cache has. -/
def batchResults (i : Nat) : Option Verdict :=
  if x.timeSensitive i then (x.cachedVerdict i).filter Verdict.isAssessed else none

def currentEventClaims : List Nat :=
  (List.range x.claims.length).filter fun i => x.timeSensitive i && (x.batchResults i).isNone

def highConfidenceKbClaim (i : Nat) : Option Verdict :=
  if x.responseIsStale || x.claimType (x.claim i) ≠ "factual" then none
  else (x.kbMatch i).map fun m =>
    { claim := some (x.claim i)
      status := some "verified"
      similarity := some (roundTo 3 m.relevance)
      sourceArtifactId := some m.artifactId
      verificationMethod := some "kb_batch" }

def prefilled (i : Nat) : Option Verdict := (x.batchResults i).or (x.highConfidenceKbClaim i)

def timeoutVerdict (i : Nat) : Verdict where
  claim := some (x.claim i)
  status := some "uncertain"
  similarity := some 0
  verificationMethod := some "timeout"

/-- The verdict on a claim that the deadline left without one. -/
def fallbackResult (i : Nat) : Verdict :=
  match (x.kbQuality i).filter (fun q => decide (35 / 100 ≤ q)) with
  | some quality =>
    { claim := some (x.claim i)
      status := some "uncertain"
      similarity := some quality
      verificationMethod := some "kb_only_timeout"
      sourceUrls := some [] }
  | none =>
    { claim := some (x.claim i)
      status := some "uncertain"
      similarity := some 0
      verificationMethod := some "timeout" }

end Extracted

/-- The status that `_parse_verification_verdict` reads off an answer. -/
inductive ParsedStatus
  | verified
  | unverified
  | uncertain
deriving DecidableEq

def ParsedStatus.text : ParsedStatus → String
  | .verified => "verified"
  | .unverified => "unverified"
  | .uncertain => "uncertain"

/-- An item of the answer to the batch. -/
structure Answer where
  claimIndex : Int
  status : ParsedStatus
  confidence : ℚ

namespace Extracted

variable (x : Extracted)

def batchVerdict (sourceUrls : List String) (i : Nat) (item : Answer) : Verdict where
  claim := some (x.claim i)
  status := some item.status.text
  similarity := some item.confidence
  verificationMethod := some (if x.online then "web_search" else "cross_model")
  sourceUrls := some (sourceUrls.take 3)

/-- `verify_claims_batch_external`, once the model has answered. -/
def verifyClaimsBatchExternal (sourceUrls : List String) (parsed : List Answer) :
    Dict Nat Verdict :=
  parsed.foldl (fun results item =>
    if 0 ≤ item.claimIndex ∧ item.claimIndex < (x.currentEventClaims.length : Int) then
      let originalIdx := x.currentEventClaims.getD item.claimIndex.toNat 0
      results.set originalIdx (x.batchVerdict sourceUrls originalIdx item)
    else results) Dict.empty

end Extracted

/-- `result.get("status", "error")`. -/
def Verdict.shown (r : Verdict) : String := r.status.getD "error"

structure ClaimVerified where
  index : Nat
  claim : String
  claimType : String
  status : String
  confidence : ℚ
  sourceArtifactId : String
  verificationMethod : String
  sourceUrls : List String

structure StreamSummary where
  overallConfidence : ℚ
  verified : Nat
  agreed : Nat
  unverified : Nat
  uncertain : Nat
  skipped : Nat
  total : Nat
  assessed : Nat
  interrupted : Bool

inductive Event
  /-- The summary of a response without claims. -/
  | noClaims
  | claimVerified (e : ClaimVerified)
  | error
  | summary (s : StreamSummary)
  | summaryUpdate (counts : Counts) (overallConfidence : ℚ)
  | consistencyCheck (issues : List (Int × String))

namespace Event

/-- The type of the event is `summary`. -/
def isSummary : Event → Bool
  | noClaims => true
  | summary _ => true
  | _ => false

/-- The claim whose verdict the event shows. -/
def index? : Event → Option Nat
  | claimVerified e => some e.index
  | _ => none

def statusOn (i : Nat) : Event → Option String
  | claimVerified e => if e.index = i then some e.status else none
  | _ => none

/-- The status that the last event on a claim shows. -/
def lastStatus (i : Nat) (events : List Event) : Option String :=
  (events.filterMap (statusOn i)).getLast?

end Event

def claimVerifiedEvent (x : Extracted) (i : Nat) (r : Verdict) : Event :=
  .claimVerified
    { index := i
      claim := x.claim i
      claimType := x.claimType (x.claim i)
      status := r.shown
      confidence := r.similarity.getD 0
      sourceArtifactId := r.sourceArtifactId.getD ""
      verificationMethod := r.verificationMethod.getD "kb"
      sourceUrls := r.sourceUrls.getD [] }

/-- Where the task of a claim stands. -/
inductive TaskState
  | waiting
  | verifying
  | done
deriving DecidableEq

/-- How `verify_claim` ends. -/
inductive TaskOutcome
  | returned (r : Verdict)
  | timedOut
  | raised

def TaskOutcome.result (x : Extracted) (i : Nat) : TaskOutcome → Option Verdict
  | .returned r => some r
  | .timedOut => some (x.timeoutVerdict i)
  | .raised => none

structure Counters where
  verified : Nat
  agreed : Nat
  unverified : Nat
  uncertain : Nat
  skipped : Nat
  assessed : Nat

namespace Counters

def zero : Counters := ⟨0, 0, 0, 0, 0, 0⟩

def sum (c : Counters) : Nat := c.verified + c.agreed + c.unverified + c.uncertain + c.skipped

/-- What the loop counts of a verdict. -/
def add (c : Counters) (r : Verdict) : Counters :=
  if r.shown = "verified" then
    if r.isAgreementOnly then { c with agreed := c.agreed + 1, assessed := c.assessed + 1 }
    else { c with verified := c.verified + 1, assessed := c.assessed + 1 }
  else if r.shown = "unverified" then
    { c with unverified := c.unverified + 1, assessed := c.assessed + 1 }
  else if r.shown = "skipped" then { c with skipped := c.skipped + 1 }
  else { c with uncertain := c.uncertain + 1 }

/-- What `_settle_timeouts` counts of a verdict. -/
def addSettled (c : Counters) (r : Verdict) : Counters :=
  if r.countsAsVerified then { c with verified := c.verified + 1 }
  else if r.isAgreementOnly then { c with agreed := c.agreed + 1 }
  else { c with uncertain := c.uncertain + 1 }

theorem sum_add (c : Counters) (r : Verdict) : (c.add r).sum = c.sum + 1 := by
  unfold add sum
  split_ifs <;> dsimp only <;> omega

theorem sum_addSettled (c : Counters) (r : Verdict) : (c.addSettled r).sum = c.sum + 1 := by
  unfold addSettled sum
  split_ifs <;> dsimp only <;> omega

end Counters

/-- The state of a stream.  `completed` has the tasks that are done and not yet taken by the
loop, each with its result; none, where it raised. -/
structure Stream where
  collected : Nat → Option Verdict
  task : Nat → TaskState
  completed : List (Nat × Option Verdict)
  taken : Nat
  batchRunning : Bool
  counts : Counters
  interrupted : Bool
  events : List Event

inductive Act
  /-- The task of a claim looks whether the claim has a verdict. -/
  | look (i : Nat)
  /-- The verification of a claim ends. -/
  | finish (i : Nat) (outcome : TaskOutcome)
  /-- The batch task ends; where it fails, without an item. -/
  | batch (sourceUrls : List String) (parsed : List Answer)
  /-- The loop takes the next task that is done. -/
  | take

namespace Stream

variable (x : Extracted) (s : Stream)

def start : Stream where
  collected := x.prefilled
  task := fun _ => .waiting
  completed := []
  taken := 0
  batchRunning := decide (2 ≤ x.currentEventClaims.length)
  counts := .zero
  interrupted := false
  events := []

def complete (i : Nat) (result : Option Verdict) : Stream :=
  { s with task := Function.update s.task i .done, completed := s.completed ++ [(i, result)] }

/-- `_verify_indexed`, up to the call of `verify_claim`. -/
def look (i : Nat) : Stream :=
  if i < x.claims.length ∧ s.task i = .waiting then
    match s.collected i with
    | some r => s.complete i (some r)
    | none => { s with task := Function.update s.task i .verifying }
  else s

def finish (i : Nat) (outcome : TaskOutcome) : Stream :=
  if s.task i = .verifying then s.complete i (outcome.result x i) else s

/-- `_run_batch`. -/
def batch (sourceUrls : List String) (parsed : List Answer) : Stream :=
  if s.batchRunning then
    let verdicts := x.verifyClaimsBatchExternal sourceUrls parsed
    { s with collected := fun i => (verdicts.get? i).or (s.collected i), batchRunning := false }
  else s

/-- A turn of the loop. -/
def take : Stream :=
  match s.completed with
  | [] => s
  | (_, none) :: rest => { s with completed := rest, taken := s.taken + 1 }
  | (i, some r) :: rest =>
    { s with
      completed := rest
      taken := s.taken + 1
      counts := s.counts.add r
      collected := Function.update s.collected i (some r)
      events := s.events ++ [claimVerifiedEvent x i r] }

def step : Act → Stream
  | .look i => s.look x i
  | .finish i outcome => s.finish x i outcome
  | .batch sourceUrls parsed => s.batch x sourceUrls parsed
  | .take => s.take x

/-- The deadline settles one claim. -/
def settleTimeout (j : Nat) : Stream :=
  if s.collected j = none then
    { s with
      collected := Function.update s.collected j (some (x.fallbackResult j))
      counts := s.counts.addSettled (x.fallbackResult j)
      events := s.events ++ [claimVerifiedEvent x j (x.fallbackResult j)] }
  else s

def settleTimeouts : Stream := (List.range x.claims.length).foldl (settleTimeout x) s

/-- The end of the loop: an exception leaves it, it has taken all tasks, or the deadline is
over. -/
def leave (failure : Bool) : Stream :=
  if failure then { s with interrupted := true, events := s.events ++ [.error] }
  else if s.taken = x.claims.length then s
  else { s.settleTimeouts x with interrupted := true }

/-- `collected_results`. -/
def slots : List (Option Verdict) := (List.range x.claims.length).map s.collected

def summaryEvent : Event :=
  .summary
    { overallConfidence := meanScore (assessedScores (s.slots x))
      verified := s.counts.verified
      agreed := s.counts.agreed
      unverified := s.counts.unverified
      uncertain := s.counts.uncertain
      skipped := s.counts.skipped
      total := x.claims.length
      assessed := s.counts.assessed
      interrupted := s.interrupted }

def summarize : Stream := { s with events := s.events ++ [s.summaryEvent x] }

end Stream

/-- The claim is tried once more. -/
def Verdict.needsRetry (r : Verdict) : Bool :=
  r.truthy && (r.verificationMethod = some "timeout" || r.verificationMethod = some "none") ||
    r.truthy && r.status = some "error"

/-- The sweep: the verdicts, the retries that have ended, and those of them that resolved their
claim. -/
structure Sweep where
  collected : Nat → Option Verdict
  ended : List Nat
  resolved : List Nat

/-- The retry of a claim ends with a result. -/
def Sweep.retryClaim (retryIndices : List Nat) (w : Sweep) (retry : Nat × Verdict) : Sweep :=
  if retry.1 ∈ retryIndices ∧ retry.1 ∉ w.ended then
    if retry.2.isAssessed then
      { collected := Function.update w.collected retry.1 (some retry.2)
        ended := w.ended ++ [retry.1]
        resolved := w.resolved ++ [retry.1] }
    else { w with ended := w.ended ++ [retry.1] }
  else w

/-- The stored report. -/
structure StreamReport where
  claims : List Verdict
  summary : Counts

namespace Stream

variable (x : Extracted) (s : Stream)

def retryIndices : List Nat :=
  (List.range x.claims.length).filter fun i => (s.collected i).any Verdict.needsRetry

/-- The second round: the retries that end in time, in the order in which they end. -/
def sweep (retries : List (Nat × Verdict)) : Stream :=
  if s.retryIndices x = [] ∨ s.interrupted then s
  else
    let w := retries.foldl (Sweep.retryClaim (s.retryIndices x)) ⟨s.collected, [], []⟩
    let resolvedEvents := w.resolved.filterMap fun i => (w.collected i).map (claimVerifiedEvent x i)
    let swept := { s with collected := w.collected, events := s.events ++ resolvedEvents }
    if w.resolved = [] then swept
    else
      let (counts, overall) := summarizeClaims (swept.slots x)
      { swept with events := swept.events ++ [.summaryUpdate counts overall] }

/-- The type of the claim, where the verdict has none. -/
def stampClaimType (r : Verdict) : Verdict :=
  if r.claimType.any (fun t => t ≠ "") then r
  else { r with claimType := some (x.claimType (r.claim.getD "")) }

def stamp : Stream := { s with collected := fun i => (s.collected i).map (stampClaimType x) }

/-- `[r for r in collected_results if r is not None]`. -/
def runClaims : List Verdict := (s.slots x).reduceOption

def annotate (issues : List (Int × String)) : Stream :=
  { s with
    collected := issues.foldl (fun collected issue =>
      if 0 ≤ issue.1 ∧ issue.1 < (x.claims.length : Int) then
        Function.update collected issue.1.toNat
          ((collected issue.1.toNat).map fun r => { r with consistencyIssue := some issue.2 })
      else collected) s.collected
    events := if issues = [] then s.events else s.events ++ [.consistencyCheck issues] }

/-- The verdicts with their types, and annotated where the claims are checked for consistency. -/
def checked (check : Bool) (issues : List (Int × String)) : Stream :=
  if check then (s.stamp x).annotate x issues else s.stamp x

end Stream

/-- One way in which a stream can go: the acts of the tasks and of the loop in their order,
whether an exception leaves the loop, the retries that end in time, what the consistency check
finds, and which of the two writes of the report go through. -/
structure Schedule where
  acts : List Act
  failure : Bool
  retries : List (Nat × Verdict)
  issues : List (Int × String)
  conversationHistory : Bool
  persistReport : Bool
  provisionalWrite : Bool
  finalWrite : Bool

/-- The events of a stream, its verdicts and the report it has stored. -/
structure Streamed where
  events : List Event
  collected : Nat → Option Verdict
  stored : Option StreamReport

/-- `verify_response_streaming`, from the end of the loop on. -/
def Stream.conclude (x : Extracted) (s : Stream) (r : Schedule) : Streamed :=
  let swept := (s.summarize x).sweep x r.retries
  let stamped := swept.stamp x
  let check := !s.interrupted && (r.conversationHistory || decide (2 ≤ x.claims.length))
  let checked := swept.checked x check r.issues
  let summary := (summarizeClaims ((stamped.runClaims x).map some)).1
  { events := checked.events
    collected := checked.collected
    stored :=
      if ¬ r.persistReport then none
      else if r.finalWrite then some { claims := checked.runClaims x, summary := summary }
      else if r.provisionalWrite then some { claims := stamped.runClaims x, summary := summary }
      else none }

/-- `verify_response_streaming`, once the claims are extracted. -/
def verifyResponseStreaming (x : Extracted) (r : Schedule) : Streamed :=
  if x.claims = [] then { events := [.noClaims], collected := fun _ => none, stored := none }
  else ((r.acts.foldl (Stream.step x) (Stream.start x)).leave x r.failure).conclude x r

/-- The verdict without what the consistency check says of it. -/
def Verdict.unannotated (r : Verdict) : Verdict := { r with consistencyIssue := none }

def Counts.sum (c : Counts) : Nat := c.verified + c.agreed + c.unverified + c.uncertain + c.skipped

def StreamSummary.sum (s : StreamSummary) : Nat :=
  s.verified + s.agreed + s.unverified + s.uncertain + s.skipped

/-- One summary, an event on every claim, and a stored report that has the verdict of each claim
in its place, with the status that the last event on the claim shows; the counts of the summary
and of the report each add up to the number of the claims. -/
structure Streamed.Right (x : Extracted) (out : Streamed) : Prop where
  summary : out.events.countP Event.isSummary = 1
  emitted : ∀ i < x.claims.length, ∃ e ∈ out.events, e.index? = some i
  counted : ∀ s, Event.summary s ∈ out.events → s.sum = x.claims.length
  report : ∃ report, out.stored = some report ∧ report.claims.length = x.claims.length ∧
    report.summary.sum = x.claims.length ∧
    ∀ i < x.claims.length, ∃ entry verdict, report.claims[i]? = some entry ∧
      out.collected i = some verdict ∧ entry.unannotated = verdict.unannotated ∧
      Event.lastStatus i out.events = some entry.shown

end Cerid.Verification
