import Cerid.Lib.Run
import Cerid.Verification.Stream

/-!
# The loop of the stream

Each claim is streamed once at most, and counted as often as it is streamed.  What the loop has
streamed of a claim stays what is collected for it, unless the batch answers the claim later
with another status; that is not undone.
-/

namespace Cerid.Verification

namespace Event

@[simp] theorem index?_claimVerifiedEvent (x : Extracted) (i : Nat) (r : Verdict) :
    (claimVerifiedEvent x i r).index? = some i := rfl

theorem statusOn_claimVerifiedEvent (x : Extracted) (i j : Nat) (r : Verdict) :
    (claimVerifiedEvent x j r).statusOn i = if j = i then some r.shown else none := rfl

theorem lastStatus_append (i : Nat) (a b : List Event) :
    lastStatus i (a ++ b) = (lastStatus i b).or (lastStatus i a) := by
  rw [lastStatus, List.filterMap_append, List.getLast?_append]
  rfl

/-- An event on no claim changes no last status. -/
theorem lastStatus_snoc_other (i : Nat) (a : List Event) {e : Event} (h : e.index? = none) :
    lastStatus i (a ++ [e]) = lastStatus i a := by
  have hnone : e.statusOn i = none := by
    cases e with
    | claimVerified e => cases h
    | _ => rfl
  rw [lastStatus_append, show lastStatus i [e] = none from by
    rw [lastStatus, List.filterMap_cons_none hnone]
    rfl]
  exact Option.none_or

theorem lastStatus_snoc (x : Extracted) (i j : Nat) (r : Verdict) (a : List Event) :
    lastStatus i (a ++ [claimVerifiedEvent x j r]) =
      if j = i then some r.shown else lastStatus i a := by
  rw [lastStatus_append]
  by_cases h : j = i
  · rw [if_pos h, lastStatus, List.filterMap_cons_some
      (show (claimVerifiedEvent x j r).statusOn i = some r.shown from by
        rw [statusOn_claimVerifiedEvent, if_pos h])]
    rfl
  · rw [if_neg h, lastStatus, List.filterMap_cons_none
      (show (claimVerifiedEvent x j r).statusOn i = none from by
        rw [statusOn_claimVerifiedEvent, if_neg h])]
    exact Option.none_or

end Event

namespace Stream

variable {x : Extracted} {s : Stream}

/-- The claims that were streamed, in their order. -/
def sent (s : Stream) : List Nat := s.events.filterMap Event.index?

/-- Each claim is in one place: its task is under way, is done and waits for the loop, or its
verdict is streamed, counted and collected. -/
structure Inv (x : Extracted) (s : Stream) : Prop where
  task_lt : ∀ i, s.task i ≠ .waiting → i < x.claims.length
  sent_nodup : s.sent.Nodup
  sent_done : ∀ i ∈ s.sent, s.task i = .done
  sent_slot : ∀ i ∈ s.sent, s.collected i ≠ none
  queue_nodup : (s.completed.map Prod.fst).Nodup
  queue_done : ∀ i ∈ s.completed.map Prod.fst, s.task i = .done
  queue_fresh : ∀ i ∈ s.completed.map Prod.fst, i ∉ s.sent
  counted : s.counts.sum = s.sent.length
  unsummed : ∀ e ∈ s.events, e.isSummary = false

namespace Inv

theorem start (x : Extracted) : Inv x (Stream.start x) where
  task_lt := fun _ h => absurd rfl h
  sent_nodup := List.nodup_nil
  sent_done := fun _ h => absurd h List.not_mem_nil
  sent_slot := fun _ h => absurd h List.not_mem_nil
  queue_nodup := List.nodup_nil
  queue_done := fun _ h => absurd h List.not_mem_nil
  queue_fresh := fun _ h => absurd h List.not_mem_nil
  counted := rfl
  unsummed := fun _ h => absurd h List.not_mem_nil

theorem sent_lt (h : Inv x s) {i : Nat} (hi : i ∈ s.sent) : i < x.claims.length :=
  h.task_lt i (by rw [h.sent_done i hi]; exact TaskState.noConfusion)

/-- A task that is not done completes. -/
theorem complete (h : Inv x s) {i : Nat} (hi : i < x.claims.length) (htask : s.task i ≠ .done)
    (result : Option Verdict) : Inv x (s.complete i result) := by
  have hsent : i ∉ s.sent := fun hmem => htask (h.sent_done i hmem)
  have hqueue : i ∉ s.completed.map Prod.fst := fun hmem => htask (h.queue_done i hmem)
  have hkeys : (s.complete i result).completed.map Prod.fst = s.completed.map Prod.fst ++ [i] := by
    rw [Stream.complete, List.map_append, List.map_singleton]
  have hother : ∀ j, j ≠ i → (s.complete i result).task j = s.task j := fun j hj =>
    Function.update_of_ne hj _ _
  have hself : (s.complete i result).task i = .done := Function.update_self _ _ _
  refine
    { task_lt := ?_, sent_nodup := h.sent_nodup, sent_done := ?_, sent_slot := h.sent_slot
      queue_nodup := ?_, queue_done := ?_, queue_fresh := ?_, counted := h.counted
      unsummed := h.unsummed }
  · intro j hj
    by_cases hji : j = i
    · rw [hji]
      exact hi
    · rw [hother j hji] at hj
      exact h.task_lt j hj
  · intro j hj
    rw [hother j fun hji => hsent (hji ▸ hj)]
    exact h.sent_done j hj
  · rw [hkeys]
    exact List.nodup_append.mpr ⟨h.queue_nodup, List.nodup_singleton i, fun a ha b hb hab =>
      hqueue (List.mem_singleton.mp hb ▸ hab ▸ ha)⟩
  · intro j hj
    rw [hkeys, List.mem_append, List.mem_singleton] at hj
    by_cases hji : j = i
    · rw [hji]
      exact hself
    · rw [hother j hji]
      exact h.queue_done j (hj.resolve_right hji)
  · intro j hj
    rw [hkeys, List.mem_append, List.mem_singleton] at hj
    rcases hj with hold | hnew
    · exact h.queue_fresh j hold
    · rw [hnew]
      exact hsent

theorem look (h : Inv x s) (i : Nat) : Inv x (s.look x i) := by
  rw [Stream.look]
  split
  · rename_i hwait
    cases s.collected i with
    | some r => exact h.complete hwait.1 (by rw [hwait.2]; exact TaskState.noConfusion) (some r)
    | none =>
      have hother : ∀ j, s.task j = .done →
          Function.update s.task i .verifying j = .done := by
        intro j hj
        rw [Function.update_of_ne]
        · exact hj
        · intro hji
          rw [hji, hwait.2] at hj
          cases hj
      refine { h with task_lt := ?_, sent_done := ?_, queue_done := ?_ }
      · intro j hj
        by_cases hji : j = i
        · rw [hji]
          exact hwait.1
        · dsimp only at hj
          rw [Function.update_of_ne hji] at hj
          exact h.task_lt j hj
      · exact fun j hj => hother j (h.sent_done j hj)
      · exact fun j hj => hother j (h.queue_done j hj)
  · exact h

theorem finish (h : Inv x s) (i : Nat) (outcome : TaskOutcome) : Inv x (s.finish x i outcome) := by
  rw [Stream.finish]
  split
  · rename_i htask
    exact h.complete (h.task_lt i (by rw [htask]; exact TaskState.noConfusion))
      (by rw [htask]; exact TaskState.noConfusion) _
  · exact h

theorem batch (h : Inv x s) (sourceUrls : List String) (parsed : List Answer) :
    Inv x (s.batch x sourceUrls parsed) := by
  rw [Stream.batch]
  split
  · refine { h with sent_slot := ?_ }
    intro i hi hnone
    rw [Option.or_eq_none_iff] at hnone
    exact h.sent_slot i hi hnone.2
  · exact h

theorem take (h : Inv x s) : Inv x (s.take x) := by
  rw [Stream.take]
  have hqueue := h.queue_nodup
  have hdone := h.queue_done
  have hfresh := h.queue_fresh
  split
  · exact h
  · rename_i i rest hcompleted
    rw [hcompleted, List.map_cons] at hqueue hdone hfresh
    exact
      { h with
        queue_nodup := (List.nodup_cons.mp hqueue).2
        queue_done := fun j hj => hdone j (List.mem_cons_of_mem i hj)
        queue_fresh := fun j hj => hfresh j (List.mem_cons_of_mem i hj) }
  · rename_i i r rest hcompleted
    rw [hcompleted, List.map_cons] at hqueue hdone hfresh
    obtain ⟨hi, hrest⟩ := List.nodup_cons.mp hqueue
    have hnew := hfresh i List.mem_cons_self
    have hsent : (s.events ++ [claimVerifiedEvent x i r]).filterMap Event.index? =
        s.sent ++ [i] := by
      rw [List.filterMap_append]
      rfl
    refine
      { task_lt := h.task_lt, sent_nodup := ?_, sent_done := ?_, sent_slot := ?_
        queue_nodup := hrest
        queue_done := fun j hj => hdone j (List.mem_cons_of_mem i hj)
        queue_fresh := ?_, counted := ?_, unsummed := ?_ }
    · rw [sent, hsent]
      exact List.nodup_append.mpr ⟨h.sent_nodup, List.nodup_singleton i, fun a ha b hb hab =>
        hnew (List.mem_singleton.mp hb ▸ hab ▸ ha)⟩
    · intro j hj
      rw [sent, hsent, List.mem_append, List.mem_singleton] at hj
      rcases hj with hold | hlast
      · exact h.sent_done j hold
      · rw [hlast]
        exact hdone i List.mem_cons_self
    · intro j hj
      rw [sent, hsent, List.mem_append, List.mem_singleton] at hj
      dsimp only
      by_cases hji : j = i
      · rw [hji, Function.update_self]
        exact Option.some_ne_none r
      · rw [Function.update_of_ne hji]
        exact h.sent_slot j (hj.resolve_right hji)
    · intro j hj
      rw [sent, hsent, List.mem_append, List.mem_singleton, not_or]
      exact ⟨hfresh j (List.mem_cons_of_mem i hj), fun hji => hi (hji ▸ hj)⟩
    · rw [sent, hsent, List.length_append, Counters.sum_add, h.counted]
      rfl
    · intro e he
      rcases List.mem_append.mp he with hold | hlast
      · exact h.unsummed e hold
      · rw [List.mem_singleton.mp hlast]
        rfl

theorem step (h : Inv x s) (act : Act) : Inv x (s.step x act) := by
  cases act with
  | look i => exact h.look i
  | finish i outcome => exact h.finish i outcome
  | batch sourceUrls parsed => exact h.batch sourceUrls parsed
  | take => exact h.take

theorem run (h : Inv x s) (acts : List Act) : Inv x (acts.foldl (Stream.step x) s) := by
  induction acts generalizing s with
  | nil => exact h
  | cons act rest ih => exact ih (h.step act)

end Inv

/-- What is collected for a claim has the status that was streamed. -/
def AgreesOn (s : Stream) (i : Nat) : Prop :=
  ∃ r, s.collected i = some r ∧ Event.lastStatus i s.events = some r.shown

/-- The batch, where it answers a claim that was streamed, gives it the status it has. -/
def Agreeing (x : Extracted) (s : Stream) : Act → Prop
  | .batch sourceUrls parsed => s.batchRunning = true → ∀ i ∈ s.sent, ∀ r r',
      (x.verifyClaimsBatchExternal sourceUrls parsed).get? i = some r →
        s.collected i = some r' → r.shown = r'.shown
  | _ => True

/-- A claim was streamed with a status that it has no longer, and that is not undone: the batch
is over and the claim is not tried once more. -/
def Astray (s : Stream) : Prop :=
  s.batchRunning = false ∧ ∃ i ∈ s.sent, ∃ r, s.collected i = some r ∧ r.needsRetry = false ∧
    Event.lastStatus i s.events ≠ some r.shown

/-- No verdict of the batch is a timeout or an error. -/
theorem needsRetry_batch {sourceUrls : List String} {parsed : List Answer} {i : Nat} {r : Verdict}
    (h : (x.verifyClaimsBatchExternal sourceUrls parsed).get? i = some r) :
    r.needsRetry = false := by
  have hall : ∀ j r, (x.verifyClaimsBatchExternal sourceUrls parsed).get? j = some r →
      r.needsRetry = false := by
    refine foldl_invariant (p := fun _ => True) _
      (fun results : Dict Nat Verdict => ∀ j r, results.get? j = some r → r.needsRetry = false)
      (fun results item hresults _ => ?_) (fun j r hr => by cases hr)
      (fun _ _ => trivial)
    split
    · intro j r hr
      rw [Dict.get?_set] at hr
      split at hr
      · cases hr
        unfold Verdict.needsRetry Extracted.batchVerdict
        cases item.status <;> cases x.online <;> simp [ParsedStatus.text]
      · exact hresults j r hr
    · exact hresults
  exact hall i r h

/-- What a turn of the loop does to the claims that were streamed before: nothing. -/
theorem take_kept (h : Inv x s) {i : Nat} (hi : i ∈ s.sent) :
    i ∈ (s.take x).sent ∧ (s.take x).collected i = s.collected i ∧
      Event.lastStatus i (s.take x).events = Event.lastStatus i s.events := by
  rw [Stream.take]
  split
  · exact ⟨hi, rfl, rfl⟩
  · exact ⟨hi, rfl, rfl⟩
  · rename_i j r rest hcompleted
    have hne : j ≠ i := by
      intro hji
      refine h.queue_fresh j ?_ (hji ▸ hi)
      rw [hcompleted, List.map_cons]
      exact List.mem_cons_self
    refine ⟨?_, Function.update_of_ne hne.symm _ _, ?_⟩
    · rw [sent, List.filterMap_append]
      exact List.mem_append_left _ hi
    · rw [Event.lastStatus_snoc, if_neg hne]

/-- Apart from the loop and the batch, the tasks leave the verdicts and the events alone. -/
theorem look_kept (x : Extracted) (s : Stream) (i : Nat) : (s.look x i).collected = s.collected ∧
    (s.look x i).events = s.events ∧ (s.look x i).batchRunning = s.batchRunning := by
  rw [Stream.look]
  split
  · split
    · exact ⟨rfl, rfl, rfl⟩
    · exact ⟨rfl, rfl, rfl⟩
  · exact ⟨rfl, rfl, rfl⟩

theorem finish_kept (x : Extracted) (s : Stream) (i : Nat) (outcome : TaskOutcome) :
    (s.finish x i outcome).collected = s.collected ∧
      (s.finish x i outcome).events = s.events ∧
      (s.finish x i outcome).batchRunning = s.batchRunning := by
  rw [Stream.finish]
  split
  · exact ⟨rfl, rfl, rfl⟩
  · exact ⟨rfl, rfl, rfl⟩

theorem take_batchRunning : (s.take x).batchRunning = s.batchRunning := by
  rw [Stream.take]
  split <;> rfl

/-- What is astray stays astray. -/
theorem Astray.step (hastray : s.Astray) (h : Inv x s) (act : Act) : (s.step x act).Astray := by
  obtain ⟨hover, i, hi, r, hr, hretry, hstatus⟩ := hastray
  cases act with
  | look j =>
    obtain ⟨hcollected, hevents, hrunning⟩ := look_kept x s j
    rw [Stream.step, Astray, sent, hcollected, hevents, hrunning]
    exact ⟨hover, i, hi, r, hr, hretry, hstatus⟩
  | finish j outcome =>
    obtain ⟨hcollected, hevents, hrunning⟩ := finish_kept x s j outcome
    rw [Stream.step, Astray, sent, hcollected, hevents, hrunning]
    exact ⟨hover, i, hi, r, hr, hretry, hstatus⟩
  | batch sourceUrls parsed =>
    rw [Stream.step, Stream.batch, hover, if_neg Bool.false_ne_true]
    exact ⟨hover, i, hi, r, hr, hretry, hstatus⟩
  | take =>
    obtain ⟨hmem, hcollected, hlast⟩ := take_kept h hi
    refine ⟨take_batchRunning.trans hover, i, hmem, r, hcollected.trans hr, hretry, ?_⟩
    rw [Stream.step, hlast]
    exact hstatus

theorem Astray.run (hastray : s.Astray) (h : Inv x s) (acts : List Act) :
    (acts.foldl (Stream.step x) s).Astray := by
  induction acts generalizing s with
  | nil => exact hastray
  | cons act rest ih => exact ih (hastray.step h act) (h.step act)

theorem agrees_step (h : Inv x s) (hagrees : ∀ i ∈ s.sent, s.AgreesOn i) {act : Act}
    (hact : s.Agreeing x act) : ∀ i ∈ (s.step x act).sent, (s.step x act).AgreesOn i := by
  intro i hi
  cases act with
  | look j =>
    obtain ⟨hcollected, hevents, -⟩ := look_kept x s j
    rw [Stream.step, AgreesOn, hcollected, hevents]
    rw [Stream.step, sent, hevents] at hi
    exact hagrees i hi
  | finish j outcome =>
    obtain ⟨hcollected, hevents, -⟩ := finish_kept x s j outcome
    rw [Stream.step, AgreesOn, hcollected, hevents]
    rw [Stream.step, sent, hevents] at hi
    exact hagrees i hi
  | batch sourceUrls parsed =>
    rw [Stream.step, Stream.batch] at hi ⊢
    split at hi
    · rename_i hrunning
      rw [if_pos hrunning]
      obtain ⟨r, hr, hlast⟩ := hagrees i hi
      cases hget : (x.verifyClaimsBatchExternal sourceUrls parsed).get? i with
      | none => exact ⟨r, by dsimp only; rw [hget, Option.none_or, hr], hlast⟩
      | some r' =>
        refine ⟨r', by dsimp only; rw [hget, Option.some_or], ?_⟩
        rw [hact hrunning i hi r' r hget hr]
        exact hlast
    · rename_i hrunning
      rw [if_neg hrunning]
      exact hagrees i hi
  | take =>
    by_cases hold : i ∈ s.sent
    · obtain ⟨-, hcollected, hlast⟩ := take_kept h hold
      obtain ⟨r, hr, hstatus⟩ := hagrees i hold
      exact ⟨r, hcollected.trans hr, hlast.trans hstatus⟩
    · rw [Stream.step, Stream.take] at hi ⊢
      split at hi
      · exact absurd hi hold
      · exact absurd hi hold
      · rename_i j r rest hcompleted
        rw [sent, List.filterMap_append, List.mem_append] at hi
        have hij : i = j := List.mem_singleton.mp (hi.resolve_left hold)
        refine ⟨r, ?_, ?_⟩
        · rw [hij]
          exact Function.update_self _ _ _
        · rw [Event.lastStatus_snoc, if_pos hij.symm]

/-- An answer of the batch that gives a streamed claim another status leads it astray. -/
theorem astray_of_not_agreeing (hagrees : ∀ i ∈ s.sent, s.AgreesOn i) {act : Act}
    (hact : ¬ s.Agreeing x act) : (s.step x act).Astray := by
  cases act with
  | batch sourceUrls parsed =>
    simp only [Agreeing, not_forall, exists_prop] at hact
    obtain ⟨hrunning, i, hi, r, r', hr, hr', hne⟩ := hact
    rw [Stream.step, Stream.batch, if_pos hrunning]
    refine ⟨rfl, i, hi, r, ?_, needsRetry_batch hr, ?_⟩
    · dsimp only
      rw [hr, Option.some_or]
    · obtain ⟨r'', hr'', hlast⟩ := hagrees i hi
      cases hr'.symm.trans hr''
      dsimp only
      rw [hlast]
      exact fun heq => hne (Option.some.inj heq).symm
  | look i => exact absurd trivial hact
  | finish i outcome => exact absurd trivial hact
  | take => exact absurd trivial hact

/-- Along a run the streamed claims agree, or one is astray from some step on. -/
theorem agreeing_or_astray (h : Inv x s) (hagrees : ∀ i ∈ s.sent, s.AgreesOn i)
    (acts : List Act) :
    (Along (step x) (Agreeing x) s acts ∧
      ∀ i ∈ (acts.foldl (step x) s).sent, (acts.foldl (step x) s).AgreesOn i) ∨
    (¬ Along (step x) (Agreeing x) s acts ∧ (acts.foldl (step x) s).Astray) := by
  induction acts generalizing s with
  | nil => exact Or.inl ⟨trivial, hagrees⟩
  | cons act rest ih =>
    by_cases hact : s.Agreeing x act
    · rcases ih (h.step act) (agrees_step h hagrees hact) with ⟨halong, hend⟩ | ⟨hnot, hend⟩
      · exact Or.inl ⟨⟨hact, halong⟩, hend⟩
      · exact Or.inr ⟨fun halong => hnot halong.2, hend⟩
    · refine Or.inr ⟨fun halong => hact halong.1, ?_⟩
      exact (astray_of_not_agreeing hagrees hact).run (h.step act) rest

end Stream

end Cerid.Verification
