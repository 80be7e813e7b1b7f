import Cerid.Lib.Run
import Cerid.Lib.Streak
import Cerid.Inbox.Filing
import Cerid.Inbox.Learn

/-!
# The memory of senders

Noting a correction reads the row of the sender and writes it back in two transactions, so
the calls of several passes interleave.  What the memory should hold is what the corrections
that were noted say, each decision once.
-/

namespace Cerid.Inbox

/-- A correction as `note_correction` is given it. -/
structure Correction where
  source : Provider
  sender : String
  category : Category
  action : Action
  key : Key
  deriving DecidableEq, Repr

def Correction.outcome (c : Correction) : Action × Category := (c.action, c.category)

/-- A call of `note_correction` that has read the row of the sender. -/
structure Noting where
  correction : Correction
  existing : Option Sender

/-- The ledger, the calls in flight of the passes that run, and the corrections noted. -/
structure Learning where
  ledger : Ledger
  calls : Nat → Option Noting
  noted : List Correction

/-- A ledger that remembers no sender. -/
def Learning.start (l : Ledger) : Learning where
  ledger := { l with senders := .empty }
  calls := fun _ => none
  noted := []

inductive LearnStep where
  /-- A pass reads a thread, and the row of its sender. -/
  | observe (pass : Nat) (t : TriagedThread)
  /-- The pass writes the row back. -/
  | note (pass : Nat)
  /-- Whatever else is done to the ledger leaves the senders alone. -/
  | elsewhere (l : Ledger)

/-- The ledger with other rows of senders. -/
def Ledger.withSenders (l : Ledger) (senders : Dict (Provider × String) Sender) : Ledger :=
  { l with senders := senders }

/-- What a call writes for the sender, after the row that it read. -/
def Noting.written (n : Noting) (senders : Dict (Provider × String) Sender) :
    Dict (Provider × String) Sender :=
  let c := n.correction
  if n.existing.any (fun e => e.lastDecision = some c.key) then senders
  else senders.set (c.source, c.sender) (Ledger.Sender.noted n.existing c.category c.action c.key)

section Env

variable (E : Env)

/-- The correction that `reconcile_threads` notes for a thread. -/
def corrected (l : Ledger) (t : TriagedThread) : Option Correction :=
  let sender := strip (E.fold.fold t.sender)
  if t.observation = {} ∨ t.threadId = "" ∨ sender = "" then none
  else
    (observedCorrection E l t.source t.threadId t.observation).map (fun found =>
      { source := t.source
        sender := sender
        category := found.1.2
        action := found.1.1
        key := found.2 })

def Learning.step (s : Learning) : LearnStep → Learning
  | .observe pass t =>
    match corrected E s.ledger t with
    | none => s
    | some c =>
      { s with
        calls := Function.update s.calls pass
          (some { correction := c, existing := s.ledger.senders.get? (c.source, c.sender) }) }
  | .note pass =>
    match s.calls pass with
    | none => s
    | some n =>
      { ledger := s.ledger.withSenders (n.written s.ledger.senders)
        calls := Function.update s.calls pass none
        noted := s.noted ++ [n.correction] }
  | .elsewhere l => { s with ledger := l.withSenders s.ledger.senders }

/-- Reading a thread and noting its correction at once is one round of `reconcile_threads`. -/
theorem reconcileThread_eq (s : Learning) (pass : Nat) (hidle : s.calls pass = none)
    (t : TriagedThread) :
    (Learning.step E (Learning.step E s (.observe pass t)) (.note pass)).ledger =
      reconcileThread E s.ledger t := by
  have hobserve : Learning.step E s (.observe pass t) =
      match corrected E s.ledger t with
      | none => s
      | some c =>
        { s with
          calls := Function.update s.calls pass
            (some { correction := c, existing := s.ledger.senders.get? (c.source, c.sender) }) } :=
    rfl
  have hnothing : (Learning.step E s (.note pass)).ledger = s.ledger := by
    dsimp only [Learning.step]
    rw [hidle]
  rw [hobserve]
  unfold corrected reconcileThread
  dsimp only
  by_cases hskip : t.observation = {} ∨ t.threadId = "" ∨ strip (E.fold.fold t.sender) = ""
  · rw [if_pos hskip, if_pos hskip]
    exact hnothing
  · rw [if_neg hskip, if_neg hskip]
    cases observedCorrection E s.ledger t.source t.threadId t.observation with
    | none => exact hnothing
    | some found =>
      obtain ⟨⟨action, category⟩, key⟩ := found
      dsimp only [Learning.step, Option.map_some]
      rw [Function.update_self]
      dsimp only
      unfold Noting.written Ledger.withSenders Ledger.noteCorrection
      dsimp only
      split <;> rfl

end Env

/-- The corrections of one sender. -/
def ofSender (log : List Correction) (source : Provider) (sender : String) : List Correction :=
  log.filter (fun c => c.source = source && c.sender = sender)

/-- What corrections say of a sender: the outcome of the last one, how many in a row agree on
it, and whether these are enough to pin the sender. -/
def remembered (cs : List Correction) : Option ((Action × Category) × Nat × Bool) :=
  cs.getLast?.map (fun c =>
    (c.outcome, streak (cs.map Correction.outcome),
      decide (pinHits ≤ streak (cs.map Correction.outcome))))

/-- The memory of every sender is what the corrections noted for it say, each decision
once. -/
def Learning.Counts (s : Learning) : Prop :=
  ∀ source sender,
    (s.ledger.senders.get? (source, sender)).map (fun m => ((m.action, m.category), m.hits, m.pinned)) =
      remembered (once Correction.key (ofSender s.noted source sender))

/-- A call writes a row that nobody wrote since it read it, and its decision is the last that
was noted for the sender, or none that was. -/
def Learning.Apart (s : Learning) : LearnStep → Prop
  | .note pass => ∀ n ∈ s.calls pass,
      n.existing = s.ledger.senders.get? (n.correction.source, n.correction.sender) ∧
      (n.existing.any (fun e => e.lastDecision = some n.correction.key) = true ∨
        n.correction.key ∉
          (ofSender s.noted n.correction.source n.correction.sender).map Correction.key)
  | _ => True

instance (s : Learning) (i : LearnStep) : Decidable (s.Apart i) :=
  match i with
  | .observe _ _ => isTrue trivial
  | .note pass => inferInstanceAs (Decidable (∀ n ∈ s.calls pass, _))
  | .elsewhere _ => isTrue trivial

/-! ## What the memory holds along a run -/

theorem ofSender_append_one (log : List Correction) (c : Correction) (source : Provider)
    (sender : String) :
    ofSender (log ++ [c]) source sender =
      if c.source = source ∧ c.sender = sender then ofSender log source sender ++ [c]
      else ofSender log source sender := by
  unfold ofSender
  rw [List.filter_append]
  split
  · next h =>
    rw [List.filter_cons_of_pos (by simp [h.1, h.2]), List.filter_nil]
  · next h =>
    rw [List.filter_cons_of_neg (by simpa using h), List.filter_nil, List.append_nil]

/-- The row of a sender whose last `hits` corrections agree with `c`. -/
def Correction.row (c : Correction) (hits : Nat) : Sender where
  category := c.category
  action := c.action
  hits := hits
  pinned := decide (pinHits ≤ hits)
  lastDecision := some c.key

/-- The row that corrections make, the last decision included. -/
def recalled (cs : List Correction) : Option Sender :=
  cs.getLast?.map (fun c => c.row (streak (cs.map Correction.outcome)))

theorem recalled_remembered (cs : List Correction) :
    (recalled cs).map (fun m => ((m.action, m.category), m.hits, m.pinned)) = remembered cs := by
  unfold recalled remembered
  rw [Option.map_map]
  rfl

/-- Counting one more correction is what `note_correction` computes from the row. -/
theorem recalled_append_one (cs : List Correction) (c : Correction) :
    recalled (cs ++ [c]) = some (Ledger.Sender.noted (recalled cs) c.category c.action c.key) := by
  have hlast : (cs.map Correction.outcome).getLast? = cs.getLast?.map Correction.outcome :=
    List.getLast?_map
  unfold recalled
  rw [List.getLast?_concat, Option.map_some, List.map_append, List.map_cons, List.map_nil,
    streak_append_one, hlast]
  have hnoted : ∀ existing : Option Sender,
      Ledger.Sender.noted existing c.category c.action c.key =
        c.row (if existing.any (fun e => e.action = c.action && e.category = c.category) then
          (existing.map Sender.hits).getD 0 + 1 else 1) := fun _ => rfl
  rw [hnoted]
  congr 2
  cases cs.getLast? with
  | none => rfl
  | some e =>
    have hsame : (some e.outcome = some c.outcome) ↔
        (decide (e.action = c.action) && decide (e.category = c.category)) = true := by
      unfold Correction.outcome
      simp
    show (if some e.outcome = some c.outcome then streak (cs.map Correction.outcome) + 1 else 1) =
      if (decide (e.action = c.action) && decide (e.category = c.category)) = true then
        streak (cs.map Correction.outcome) + 1
      else 1
    by_cases h : (decide (e.action = c.action) && decide (e.category = c.category)) = true
    · rw [if_pos (hsame.mpr h), if_pos h]
    · rw [if_neg (fun hp => h (hsame.mp hp)), if_neg h]

/-- The rows of the senders are what the corrections noted make of them. -/
def Learning.Recalls (s : Learning) : Prop :=
  ∀ source sender,
    s.ledger.senders.get? (source, sender) =
      recalled (once Correction.key (ofSender s.noted source sender))

theorem Learning.Recalls.counts {s : Learning} (h : s.Recalls) : s.Counts := by
  intro source sender
  rw [h source sender]
  exact recalled_remembered _

/-- A row that `Recalls` a decision recalls one that was noted. -/
theorem recalled_last_mem {log : List Correction} {k : Key}
    (h : (recalled (once Correction.key log)).any (fun e => e.lastDecision = some k) = true) :
    k ∈ log.map Correction.key := by
  unfold recalled at h
  cases hlast : (once Correction.key log).getLast? with
  | none =>
    rw [hlast] at h
    exact absurd h Bool.false_ne_true
  | some c =>
    rw [hlast] at h
    have hk : c.key = k := by simpa [Correction.row] using h
    rw [← mem_keys_once, ← hk]
    exact List.mem_map_of_mem (List.mem_of_getLast? hlast)

theorem Learning.start_recalls (l : Ledger) : (Learning.start l).Recalls := by
  intro source sender
  exact Dict.get?_empty _

/-- What one call leaves, if nobody wrote the row since it read it. -/
theorem Learning.note_recalls {s : Learning} {n : Noting} (hs : s.Recalls)
    (hread : n.existing = s.ledger.senders.get? (n.correction.source, n.correction.sender))
    (hkey : n.existing.any (fun e => e.lastDecision = some n.correction.key) = true ∨
      n.correction.key ∉
        (ofSender s.noted n.correction.source n.correction.sender).map Correction.key)
    (calls : Nat → Option Noting) :
    Learning.Recalls
      { ledger := s.ledger.withSenders (n.written s.ledger.senders)
        calls := calls
        noted := s.noted ++ [n.correction] } := by
  obtain ⟨c, existing⟩ := n
  dsimp only at hread hkey ⊢
  have hrow := hs c.source c.sender
  rw [← hread] at hrow
  intro source sender
  show Dict.get? (Noting.written ⟨c, existing⟩ s.ledger.senders) (source, sender) = _
  rw [ofSender_append_one]
  unfold Noting.written
  dsimp only
  by_cases hany : existing.any (fun e => e.lastDecision = some c.key) = true
  · -- the decision counted already
    rw [if_pos hany, hs source sender]
    by_cases hc : c.source = source ∧ c.sender = sender
    · obtain ⟨rfl, rfl⟩ := hc
      rw [hrow] at hany
      have hin := recalled_last_mem hany
      rw [if_pos ⟨rfl, rfl⟩, once_append_one, countOne, if_pos ((mem_keys_once _ _ _).mpr hin)]
    · rw [if_neg hc]
  · rw [if_neg hany, Dict.get?_set]
    by_cases hc : c.source = source ∧ c.sender = sender
    · obtain ⟨rfl, rfl⟩ := hc
      have hnew := hkey.resolve_left hany
      rw [if_pos rfl, if_pos ⟨rfl, rfl⟩, once_append_one, countOne,
        if_neg (fun hin => hnew ((mem_keys_once _ _ _).mp hin)), recalled_append_one, hrow]
    · have hne : (source, sender) ≠ (c.source, c.sender) := by
        intro heq
        rw [Prod.mk.injEq] at heq
        exact hc ⟨heq.1.symm, heq.2.symm⟩
      rw [if_neg hne, if_neg hc, hs source sender]

theorem Learning.step_recalls (E : Env) {s : Learning} {i : LearnStep} (hs : s.Recalls)
    (hok : s.Apart i) : (Learning.step E s i).Recalls := by
  cases i with
  | observe pass t =>
    show Learning.Recalls (match corrected E s.ledger t with
      | none => s
      | some c => { s with
          calls := Function.update s.calls pass (some
            { correction := c, existing := s.ledger.senders.get? (c.source, c.sender) }) })
    cases corrected E s.ledger t with
    | none => exact hs
    | some c => exact hs
  | note pass =>
    show Learning.Recalls (match s.calls pass with
      | none => s
      | some n =>
        { ledger := s.ledger.withSenders (n.written s.ledger.senders)
          calls := Function.update s.calls pass none
          noted := s.noted ++ [n.correction] })
    have happ : ∀ n ∈ s.calls pass, _ := hok
    cases hn : s.calls pass with
    | none => exact hs
    | some n => exact note_recalls hs (happ n hn).1 (happ n hn).2 _
  | elsewhere l => exact hs

/-- The memory counts right along every run in which calls for a sender stay apart and a
decision comes back only while it is the last one noted. -/
theorem memory_counts (E : Env) (l : Ledger) (steps : List LearnStep)
    (h : Along (Learning.step E) Learning.Apart (Learning.start l) steps) :
    (steps.foldl (Learning.step E) (Learning.start l)).Counts := by
  have hrecalls := Along.invariant Learning.Recalls (fun _ _ hs hok => Learning.step_recalls E hs hok)
    (Learning.start_recalls l) h
  exact hrecalls.counts

/-! ## Two threads of one sender -/

/-- A newsletter that its operator moved to the promotions. -/
def promoted (threadId : String) : TriagedThread where
  source := .gmail
  threadId := threadId
  category := .newsletter
  action := .keep
  rows :=
    [{ messageId := "m", account := "a@b.c", labels := some "INBOX,Cerid/Promo",
       sender := "news@b.c" }]

/-- Both threads are proposed. -/
def twoThreads : Ledger :=
  proposeTriage (.opened .gmail "a@b.c" filingAccount) [promoted "t1", promoted "t2"]

/-- A pass over some threads. -/
def learnPass (threads : List TriagedThread) : List LearnStep :=
  threads.flatMap (fun t => [.observe 0 t, .note 0])

theorem memory_counts_twoThreads :
    Learning.Counts ((learnPass [promoted "t1", promoted "t2", promoted "t2"]).foldl
      (Learning.step answered) (Learning.start twoThreads)) :=
  memory_counts answered twoThreads _ (by decide +kernel)

/-- Three passes that read the two threads in turn count three corrections of two threads, and
pin the sender. -/
theorem alternating_threads_pin :
    ¬ ∀ (E : Env) (l : Ledger) (steps : List LearnStep),
      (steps.foldl (Learning.step E) (Learning.start l)).Counts := by
  intro h
  have hcounts := h answered twoThreads
    (learnPass [promoted "t1", promoted "t2", promoted "t1"]) .gmail "news@b.c"
  exact absurd hcounts (by decide +kernel)

end Cerid.Inbox
