import Cerid.Lib.Run
import Mathlib.Logic.Function.Basic

/-!
# The circuit breaker

The breaker stores closed or open; half-open is open for at least the recovery timeout.
A call looks at the state once, when it begins, and does its bookkeeping when it ends,
under one set of methods for coroutines and another for plain functions.  Between the
two other calls begin and end, and time passes.

The bookkeeping of one call is one step.  A recovery period is the time between one
opening of the breaker and the next counted failure or closing.
-/

namespace Cerid.Guard.Breaker

inductive CircuitState where
  | closed
  | open
  | halfOpen
deriving DecidableEq, Repr

/-- An exception: its class and the classes that one inherits from, and its text. -/
structure Exc where
  classes : List String
  text : List Char
deriving DecidableEq, Repr

/-- Which characters match `\w` and `\d`. -/
structure CharTable where
  word : Char → Bool
  digit : Char → Bool

structure AsyncCircuitBreaker where
  name : String
  failureThreshold : Nat
  recoveryTimeout : Nat
  excludedExceptions : List String

structure CircuitOpenError where
  name : String
  retryAfter : Nat
deriving DecidableEq, Repr

/-! ## Errors of the client's own -/

/-- `\b` between two characters. -/
def boundary (u : CharTable) (before after : Option Char) : Bool :=
  before.any u.word != after.any u.word

/-- A match of `\b4\d{2}\b` at the beginning of the text. -/
def matches4xx (u : CharTable) (before : Option Char) : List Char → Bool
  | a :: b :: c :: rest => boundary u before (some a) && a = '4' && u.digit b && u.digit c &&
      boundary u (some c) rest.head?
  | _ => false

/-- `re.search`, after the character `before`. -/
def search4xx (u : CharTable) (before : Option Char) : List Char → Bool
  | [] => false
  | c :: rest => matches4xx u before (c :: rest) || search4xx u (some c) rest

/-- `_is_client_error`. -/
def isClientError (u : CharTable) (exc : Exc) : Bool := search4xx u none exc.text

/-- `isinstance(exc, self.excluded_exceptions)`. -/
def AsyncCircuitBreaker.excludes (b : AsyncCircuitBreaker) (exc : Exc) : Bool :=
  exc.classes.any (· ∈ b.excludedExceptions)

/-! ## Bookkeeping -/

/-- `call` or `call_sync`. -/
inductive Entry where
  | async
  | sync
deriving DecidableEq, Repr

/-- A call that was let through; `probe` says that the breaker was half-open. -/
structure Flight where
  entry : Entry
  probe : Bool
deriving DecidableEq, Repr

/-- The breaker's fields and the clock; the calls in flight; and how many calls were let
through while half-open in the current recovery period. -/
structure Desk where
  now : Nat
  state : CircuitState
  failureCount : Nat
  lastFailureTime : Nat
  flights : Nat → Option Flight
  probes : Nat

def Desk.start : Desk where
  now := 0
  state := .closed
  failureCount := 0
  lastFailureTime := 0
  flights := fun _ => none
  probes := 0

variable (u : CharTable) (b : AsyncCircuitBreaker)

/-- The property `state`. -/
def effective (w : Desk) : CircuitState :=
  if w.state = .open ∧ b.recoveryTimeout ≤ w.now - w.lastFailureTime then .halfOpen else w.state

/-- What both entries do first. -/
def tryEnter (w : Desk) : Except CircuitOpenError CircuitState :=
  if effective b w = .open then
    .error { name := b.name, retryAfter := b.recoveryTimeout - (w.now - w.lastFailureTime) }
  else .ok (effective b w)

/-- `_on_success`. -/
def onSuccess (w : Desk) : Desk :=
  if effective b w = .halfOpen ∨ effective b w = .closed then
    { w with failureCount := 0, state := .closed, probes := 0 }
  else w

/-- `_on_success_sync`. -/
def onSuccessSync (w : Desk) : Desk :=
  if w.state = .halfOpen ∨ w.state = .closed then
    { w with failureCount := 0, state := .closed, probes := 0 }
  else w

/-- `_on_failure` and `_on_failure_sync`, which have the same body. -/
def onFailure (w : Desk) : Desk :=
  let w := { w with
    failureCount := w.failureCount + 1, lastFailureTime := w.now, probes := 0 }
  if w.state = .halfOpen then { w with state := .open }
  else if b.failureThreshold ≤ w.failureCount then { w with state := .open }
  else w

/-- How a call ends; a `BaseException` that is no `Exception`, such as a cancellation,
leaves no trace. -/
inductive Outcome where
  | success
  | error (exc : Exc)
  | cancelled
deriving DecidableEq, Repr

/-- `record_failure`, and what `call` does with an exception. -/
def recordFailure (exc : Exc) (w : Desk) : Desk :=
  if b.excludes exc ∨ isClientError u exc then w else onFailure b w

/-- What `call_sync` does with an exception. -/
def recordFailureSync (exc : Exc) (w : Desk) : Desk :=
  if b.excludes exc then w else onFailure b w

def settle (entry : Entry) (outcome : Outcome) (w : Desk) : Desk :=
  match entry, outcome with
  | .async, .success => onSuccess b w
  | .async, .error exc => recordFailure u b exc w
  | .sync, .success => onSuccessSync w
  | .sync, .error exc => recordFailureSync b exc w
  | _, .cancelled => w

inductive Action where
  | tick (d : Nat)
  | call (id : Nat) (entry : Entry)
  | finish (id : Nat) (outcome : Outcome)
  | recordSuccess
  | recordFailure (exc : Exc)
  | reset

def step (w : Desk) : Action → Desk
  | .tick d => { w with now := w.now + d }
  | .call id entry =>
    match w.flights id, tryEnter b w with
    | none, .ok state => { w with
        flights := Function.update w.flights id (some { entry, probe := state = .halfOpen })
        probes := if state = .halfOpen then w.probes + 1 else w.probes }
    | _, _ => w
  | .finish id outcome =>
    match w.flights id with
    | some f => settle u b f.entry outcome { w with flights := Function.update w.flights id none }
    | none => w
  | .recordSuccess => onSuccess b w
  | .recordFailure exc => recordFailure u b exc w
  | .reset => { w with state := .closed, failureCount := 0, probes := 0 }

/-! ## What the breaker promises -/

/-- The fields that decide when the breaker opens. -/
def Desk.tally (w : Desk) : CircuitState × Nat × Nat := (w.state, w.failureCount, w.lastFailureTime)

/-- What the end of a call does: a probe that succeeds closes the breaker and resets the
count, one that fails opens it anew, and an error of the client's own, of whatever call,
leaves the breaker as it was. -/
def EndsWell (f : Flight) (outcome : Outcome) (w w' : Desk) : Prop :=
  match outcome with
  | .success => f.probe = true → w'.tally = (.closed, 0, w.lastFailureTime)
  | .error exc =>
    if b.excludes exc ∨ isClientError u exc then w'.tally = w.tally
    else f.probe = true → w'.tally = (.open, w.failureCount + 1, w.now)
  | .cancelled => True

/-- A recovery period lets one call through, and calls end well whichever entry they came
by. -/
def Keeps (w : Desk) (a : Action) : Prop :=
  match a with
  | .call _ _ => (step u b w a).probes ≤ 1
  | .finish id outcome => ∀ f, w.flights id = some f → EndsWell u b f outcome w (step u b w a)
  | .recordFailure exc => b.excludes exc ∨ isClientError u exc → (step u b w a).tally = w.tally
  | _ => True

/-- In a recovery period only one call arrives while the breaker is half-open.  When a
probe succeeds the breaker is not open, and for a plain function it is closed already;
when a probe fails, its failure reaches the threshold, as it does unless the breaker was
closed since.  No plain function raises an error of the client's own that is not excluded. -/
def Sound (w : Desk) (a : Action) : Prop :=
  match a with
  | .call id _ => w.flights id = none → effective b w = .halfOpen → w.probes = 0
  | .finish id .success => ∀ f, w.flights id = some f → f.probe = true →
      match f.entry with
      | .async => effective b w ≠ .open
      | .sync => w.state = .closed
  | .finish id (.error exc) => ∀ f, w.flights id = some f → ¬ b.excludes exc →
      if isClientError u exc then f.entry = .async
      else f.probe = true → b.failureThreshold ≤ w.failureCount + 1
  | _ => True

/-- Half-open is never stored, the open breaker has counted its threshold, and at most one
probe was let through. -/
structure Inv (w : Desk) : Prop where
  stored : w.state ≠ .halfOpen
  reached : w.state = .open → b.failureThreshold ≤ w.failureCount
  single : w.probes ≤ 1

/-! ## Each method -/

variable {u : CharTable} {b : AsyncCircuitBreaker} {w : Desk}

theorem effective_of_ne_open (h : w.state ≠ .open) : effective b w = w.state := by
  rw [effective, if_neg (fun hc => h hc.1)]

theorem onSuccess_tally (h : effective b w ≠ .open) :
    (onSuccess b w).tally = (.closed, 0, w.lastFailureTime) := by
  have hcase : effective b w = .halfOpen ∨ effective b w = .closed := by
    cases he : effective b w with
    | closed => exact Or.inr rfl
    | «open» => exact absurd he h
    | halfOpen => exact Or.inl rfl
  rw [onSuccess, if_pos hcase]
  rfl

theorem onSuccess_open (h : effective b w = .open) : onSuccess b w = w := by
  rw [onSuccess, if_neg (by rw [h]; decide)]

theorem onFailure_tally (h : w.state ≠ .halfOpen) :
    (onFailure b w).tally =
      (if b.failureThreshold ≤ w.failureCount + 1 then .open else w.state,
        w.failureCount + 1, w.now) := by
  simp only [onFailure, if_neg h]
  split <;> rfl

theorem state_of_effective_open (h : effective b w = .open) : w.state = .open := by
  by_contra hne
  rw [effective_of_ne_open hne] at h
  exact hne h

theorem Inv.onSuccess (h : Inv b w) : Inv b (onSuccess b w) := by
  unfold Breaker.onSuccess
  split
  · exact ⟨nofun, nofun, Nat.zero_le 1⟩
  · exact h

theorem Inv.onSuccessSync (h : Inv b w) : Inv b (onSuccessSync w) := by
  unfold Breaker.onSuccessSync
  split
  · exact ⟨nofun, nofun, Nat.zero_le 1⟩
  · exact h

theorem Inv.onFailure (h : Inv b w) : Inv b (onFailure b w) := by
  simp only [Breaker.onFailure, if_neg h.stored]
  split
  · rename_i hreached
    exact ⟨nofun, fun _ => hreached, Nat.zero_le 1⟩
  · refine ⟨h.stored, fun hopen => ?_, Nat.zero_le 1⟩
    have hreached := h.reached hopen
    show b.failureThreshold ≤ w.failureCount + 1
    omega

theorem Inv.settle (h : Inv b w) (entry : Entry) (outcome : Outcome) :
    Inv b (settle u b entry outcome w) := by
  cases outcome with
  | success =>
    cases entry with
    | async => exact h.onSuccess
    | sync => exact h.onSuccessSync
  | cancelled => cases entry <;> exact h
  | error exc =>
    cases entry with
    | async =>
      show Inv b (recordFailure u b exc w)
      unfold recordFailure
      split
      · exact h
      · exact h.onFailure
    | sync =>
      show Inv b (recordFailureSync b exc w)
      unfold recordFailureSync
      split
      · exact h
      · exact h.onFailure

theorem inv_start (b : AsyncCircuitBreaker) : Inv b Desk.start :=
  ⟨nofun, nofun, Nat.zero_le 1⟩

/-! ## Each step -/

theorem call_none {id : Nat} {entry : Entry} {state : CircuitState} (hid : w.flights id = none)
    (hok : tryEnter b w = .ok state) :
    (step u b w (.call id entry)).probes =
      if state = .halfOpen then w.probes + 1 else w.probes := by
  simp only [step, hid, hok]

theorem tryEnter_eq_ok (h : effective b w ≠ .open) : tryEnter b w = .ok (effective b w) := by
  rw [tryEnter, if_neg h]

theorem tryEnter_eq_error (h : effective b w = .open) : ∃ e, tryEnter b w = .error e := by
  rw [tryEnter, if_pos h]
  exact ⟨_, rfl⟩

/-- A call that is refused, or whose number is taken, leaves everything as it was; one
that is let through adds to the probes exactly when the breaker is half-open. -/
theorem call_cases (id : Nat) (entry : Entry) :
    step u b w (.call id entry) = w ∨
      w.flights id = none ∧ ∃ state, tryEnter b w = .ok state ∧ effective b w = state ∧
        step u b w (.call id entry) = { w with
          flights := Function.update w.flights id (some { entry, probe := state = .halfOpen })
          probes := if state = .halfOpen then w.probes + 1 else w.probes } := by
  cases hid : w.flights id with
  | some f => exact Or.inl (by simp only [step, hid])
  | none =>
    by_cases he : effective b w = .open
    · obtain ⟨e, herror⟩ := tryEnter_eq_error he
      exact Or.inl (by simp only [step, hid, herror])
    · have hok := tryEnter_eq_ok he
      exact Or.inr ⟨rfl, effective b w, hok, rfl, by simp only [step, hid, hok]⟩

theorem Inv.step (h : Inv b w) (a : Action) (ok : Sound u b w a) : Inv b (step u b w a) := by
  cases a with
  | tick d => exact ⟨h.stored, h.reached, h.single⟩
  | call id entry =>
    rcases call_cases (u := u) (b := b) id entry with hsame | ⟨hid, state, -, hstate, hstep⟩
    · rw [hsame]
      exact h
    · rw [hstep]
      refine ⟨h.stored, h.reached, ?_⟩
      show (if state = .halfOpen then w.probes + 1 else w.probes) ≤ 1
      by_cases hhalf : state = .halfOpen
      · have hnone := ok hid (hstate.trans hhalf)
        rw [if_pos hhalf]
        omega
      · rw [if_neg hhalf]
        exact h.single
  | finish id outcome =>
    cases hid : w.flights id with
    | none => simpa only [Breaker.step, hid] using h
    | some f =>
      simp only [Breaker.step, hid]
      have hdrop : Inv b { w with flights := Function.update w.flights id none } :=
        ⟨h.stored, h.reached, h.single⟩
      exact hdrop.settle f.entry outcome
  | recordSuccess => exact h.onSuccess
  | recordFailure exc => exact h.settle .async (.error exc)
  | reset => exact ⟨nofun, nofun, Nat.zero_le 1⟩

theorem call_keeps_iff (h : Inv b w) (id : Nat) (entry : Entry) :
    Keeps u b w (.call id entry) ↔ Sound u b w (.call id entry) := by
  have hsingle := h.single
  constructor
  · intro hkeeps hid hhalf
    have hok : tryEnter b w = .ok .halfOpen := by
      rw [tryEnter_eq_ok (by rw [hhalf]; decide), hhalf]
    have hkeeps : (step u b w (.call id entry)).probes ≤ 1 := hkeeps
    rw [call_none hid hok, if_pos rfl] at hkeeps
    omega
  · intro hsound
    exact (h.step (.call id entry) hsound).single

/-- A probe that succeeds: what is left to show is that its method closes the breaker. -/
theorem success_endsWell_iff (h : Inv b w) (f : Flight) :
    EndsWell u b f .success w (settle u b f.entry .success w) ↔
      (f.probe = true → match f.entry with
        | .async => effective b w ≠ .open
        | .sync => w.state = .closed) := by
  refine forall_congr' fun _ => ?_
  cases f.entry with
  | async =>
    show (onSuccess b w).tally = _ ↔ _
    constructor
    · intro htally hopen
      rw [onSuccess_open hopen] at htally
      have hstate : w.state = .closed := congrArg Prod.fst htally
      rw [state_of_effective_open hopen] at hstate
      cases hstate
    · exact onSuccess_tally
  | sync =>
    show (onSuccessSync w).tally = _ ↔ w.state = .closed
    constructor
    · intro htally
      cases hs : w.state with
      | closed => rfl
      | halfOpen => exact absurd hs h.stored
      | «open» =>
        have hsame : onSuccessSync w = w := by
          rw [onSuccessSync, if_neg (by rw [hs]; decide)]
        rw [hsame] at htally
        have hstate : w.state = .closed := congrArg Prod.fst htally
        rw [hs] at hstate
        cases hstate
    · intro hclosed
      rw [onSuccessSync, if_pos (Or.inr hclosed)]
      rfl

theorem failed_iff (h : Inv b w) :
    (onFailure b w).tally = (.open, w.failureCount + 1, w.now) ↔
      b.failureThreshold ≤ w.failureCount + 1 := by
  rw [onFailure_tally h.stored]
  by_cases hreached : b.failureThreshold ≤ w.failureCount + 1
  · simp [hreached]
  · rw [if_neg hreached]
    constructor
    · intro htally
      have hopen : w.state = .open := congrArg Prod.fst htally
      have := h.reached hopen
      omega
    · exact fun hr => absurd hr hreached

/-- An error that is counted changes the count. -/
theorem counted_ne (h : Inv b w) : (onFailure b w).tally ≠ w.tally := by
  rw [onFailure_tally h.stored]
  intro hsame
  have hcount : w.failureCount + 1 = w.failureCount := congrArg (fun t => t.2.1) hsame
  omega

theorem error_endsWell_iff (h : Inv b w) (f : Flight) (exc : Exc) :
    EndsWell u b f (.error exc) w (settle u b f.entry (.error exc) w) ↔
      (¬ b.excludes exc → if isClientError u exc then f.entry = .async
        else f.probe = true → b.failureThreshold ≤ w.failureCount + 1) := by
  by_cases hx : b.excludes exc = true
  · -- an excluded error leaves both entries at once
    have hsame : settle u b f.entry (.error exc) w = w := by
      cases f.entry with
      | async => exact if_pos (Or.inl hx)
      | sync => exact if_pos hx
    rw [hsame]
    simp [EndsWell, hx]
  · by_cases hc : isClientError u exc = true
    · rw [EndsWell, if_pos (Or.inr hc)]
      simp only [hx, hc, not_false_eq_true, true_implies, if_true, Bool.false_eq_true]
      cases f.entry with
      | async =>
        have hsame : settle u b .async (.error exc) w = w := if_pos (Or.inr hc)
        simp [hsame]
      | sync =>
        have hcounted : settle u b .sync (.error exc) w = onFailure b w := if_neg hx
        simp [hcounted, counted_ne h]
    · have hnot : ¬ (b.excludes exc ∨ isClientError u exc) := by simp [hx, hc]
      have hcounted : settle u b f.entry (.error exc) w = onFailure b w := by
        cases f.entry with
        | async => exact if_neg hnot
        | sync => exact if_neg hx
      rw [EndsWell, if_neg hnot, hcounted]
      simp only [hx, hc, not_false_eq_true, true_implies, if_false, Bool.false_eq_true]
      exact forall_congr' fun _ => failed_iff h

theorem keeps_iff (h : Inv b w) (a : Action) : Keeps u b w a ↔ Sound u b w a := by
  cases a with
  | tick _ | recordSuccess | reset => exact Iff.rfl
  | call id entry => exact call_keeps_iff h id entry
  | recordFailure exc =>
    refine iff_of_true (fun hown => ?_) trivial
    show (recordFailure u b exc w).tally = w.tally
    rw [recordFailure, if_pos hown]
  | finish id outcome =>
    have hdrop : Inv b { w with flights := Function.update w.flights id none } :=
      ⟨h.stored, h.reached, h.single⟩
    have hstep : ∀ f, w.flights id = some f → step u b w (.finish id outcome) =
        settle u b f.entry outcome { w with flights := Function.update w.flights id none } := by
      intro f hf
      simp only [step, hf]
    have hkeeps : Keeps u b w (.finish id outcome) ↔ ∀ f, w.flights id = some f →
        EndsWell u b f outcome w (settle u b f.entry outcome
          { w with flights := Function.update w.flights id none }) := by
      refine forall_congr' fun f => forall_congr' fun hf => ?_
      rw [hstep f hf]
    rw [hkeeps]
    cases outcome with
    | cancelled => exact iff_of_true (fun _ _ => trivial) trivial
    | success =>
      exact forall_congr' fun f => forall_congr' fun _ => success_endsWell_iff hdrop f
    | error exc =>
      exact forall_congr' fun f => forall_congr' fun _ => error_endsWell_iff hdrop f exc

/-- A run keeps its promises at every step exactly when every step is sound. -/
theorem breaker_kept_iff (u : CharTable) (b : AsyncCircuitBreaker) (run : List Action) :
    Along (step u b) (Keeps u b) Desk.start run ↔ Along (step u b) (Sound u b) Desk.start run :=
  along_iff (Inv b) (fun _ a h => keeps_iff h a) (fun _ a h ok => h.step a ok) (inv_start b)

/-- Two calls that arrive after the recovery timeout are both let through; a plain
function that succeeds then does not close the breaker; and an error with a 404 in its
text is counted when a plain function raises it. -/
theorem not_breaker_kept :
    let u : CharTable := { word := fun c => c.isAlphanum || c = '_', digit := Char.isDigit }
    let b : AsyncCircuitBreaker := {
      name := "test", failureThreshold := 1, recoveryTimeout := 60, excludedExceptions := [] }
    let down : Exc := { classes := ["RuntimeError"], text := "server down".toList }
    let notFound : Exc := { classes := ["RuntimeError"], text := "404 not found".toList }
    let opened : List Action := [.call 0 .async, .finish 0 (.error down), .tick 60]
    (¬ Along (step u b) (Keeps u b) Desk.start (opened ++ [.call 1 .async, .call 2 .async])) ∧
    (¬ Along (step u b) (Keeps u b) Desk.start (opened ++ [.call 1 .sync, .finish 1 .success])) ∧
    ¬ Along (step u b) (Keeps u b) Desk.start [.call 0 .sync, .finish 0 (.error notFound)] := by
  intro u b down notFound opened
  refine ⟨?_, ?_, ?_⟩
  · rintro ⟨-, -, -, -, hsingle, -⟩
    have hsingle : ((opened ++ [Action.call 1 .async, Action.call 2 .async]).foldl (step u b)
      Desk.start).probes ≤ 1 := hsingle
    exact absurd hsingle (by decide)
  · rintro ⟨-, -, -, -, hends, -⟩
    exact absurd (hends { entry := .sync, probe := true } (by decide) rfl) (by decide)
  · rintro ⟨-, hends, -⟩
    have hsame := hends { entry := .sync, probe := false } (by decide)
    rw [EndsWell, if_pos (by decide)] at hsame
    exact absurd hsame (by decide)

end Cerid.Guard.Breaker
