import Cerid.Inbox.AppleEffects
import Cerid.Inbox.GmailEffects

/-!
# The rows that a pass tries

However an apply ends, it changes the row of its decision and no other.  So a row that a pass
tries still stands in the ledger as the pass found it.
-/

namespace Cerid.Inbox

section Env

variable {E : Env}

/-- Of the ledger, only the row of the decision and the queue may have changed. -/
structure LeavesOthers (id : Nat) (w w' : World) : Prop where
  accounts : w'.ledger.accounts = w.ledger.accounts
  length : w'.ledger.decisions.length = w.ledger.decisions.length
  others : ∀ n, n ≠ id → w'.ledger.getDecision n = w.ledger.getDecision n

theorem LeavesOthers.refl (id : Nat) (w : World) : LeavesOthers id w w :=
  ⟨rfl, rfl, fun _ _ => rfl⟩

theorem LeavesOthers.trans (id : Nat) (a b c : World) (h : LeavesOthers id a b)
    (h' : LeavesOthers id b c) : LeavesOthers id a c where
  accounts := h'.accounts.trans h.accounts
  length := h'.length.trans h.length
  others := fun n hn => (h'.others n hn).trans (h.others n hn)

theorem LeavesOthers.of_ledger {id : Nat} {w w' : World} (h : w'.ledger = w.ledger) :
    LeavesOthers id w w' := by
  refine ⟨?_, ?_, fun _ _ => ?_⟩ <;> rw [h]

theorem length_changed (rows : List Row) (id : Nat) (f : Row → Row) :
    (Ledger.changed rows id f).length = rows.length := List.length_map _

theorem leavesOthers_record (id : Nat) (verdict : Verdict) (receipt : Receipt) (w : World) :
    LeavesOthers id w { w with ledger := w.ledger.record id verdict receipt } where
  accounts := rfl
  length := length_changed _ _ _
  others := by
    intro n hn
    dsimp only
    rw [Ledger.getDecision_record]
    cases w.ledger.getDecision n with
    | none => rfl
    | some row => rw [Option.map_some, if_neg hn]

theorem leavesOthers_setMailboxBefore (id : Nat) (mailbox : String) (w : World) :
    LeavesOthers id w { w with ledger := w.ledger.setMailboxBefore id mailbox } where
  accounts := rfl
  length := length_changed _ _ _
  others := by
    intro n hn
    dsimp only
    rw [Ledger.getDecision_setMailboxBefore]
    cases w.ledger.getDecision n with
    | none => rfl
    | some row => rw [Option.map_some, if_neg hn]

/-! ## Performing -/

section Perform

variable {id : Nat}

theorem useTool_within {call : Call} {effect : World → World} {performed : List Performed}
    (h : ∀ w, (effect w).ledger = w.ledger) :
    Exec.Within (LeavesOthers id) (useTool E call effect performed) := by
  intro w
  unfold useTool
  dsimp only
  split
  · exact LeavesOthers.of_ledger (h _)
  · exact LeavesOthers.of_ledger rfl

theorem read_within {α : Type} (f : World → α) :
    Exec.Within (LeavesOthers id) (Exec.read f : Apply α) := fun w => LeavesOthers.refl id w

theorem ensureGmailLabels_within (account : String) (wanted known : List String)
    (performed : List Performed) :
    Exec.Within (LeavesOthers id) (ensureGmailLabels E account wanted known performed) := by
  induction wanted generalizing known performed with
  | nil => exact Exec.Within.pure (LeavesOthers.refl id) _
  | cons name rest ih =>
    rw [ensureGmailLabels]
    split
    · exact ih known performed
    · exact Exec.Within.bind (LeavesOthers.trans id) (useTool_within (fun _ => rfl))
        (fun p => ih _ p)

theorem performGmail_within (calls : List Call) (known : Option (List String))
    (performed : List Performed) :
    Exec.Within (LeavesOthers id) (performGmail E calls known performed) := by
  induction calls generalizing known performed with
  | nil => exact Exec.Within.pure (LeavesOthers.refl id) _
  | cons call rest ih =>
    have hfail : ∀ e : ApplyError, Exec.Within (LeavesOthers id)
        (Exec.fail e : Apply (List Performed)) := Exec.Within.fail (LeavesOthers.refl id)
    cases call with
    | batchModify account ids add remove =>
      rw [performGmail]
      refine Exec.Within.bind (LeavesOthers.trans id) ?_ (fun found => ?_)
      · cases known with
        | some known => exact Exec.Within.pure (LeavesOthers.refl id) _
        | none =>
          rw [gmailLabelIds]
          refine Exec.Within.bind (LeavesOthers.trans id) (useTool_within (fun _ => rfl)) ?_
          intro p
          exact Exec.Within.bind (LeavesOthers.trans id) (read_within _)
            (fun _ => Exec.Within.pure (LeavesOthers.refl id) _)
      · refine Exec.Within.bind (LeavesOthers.trans id) ?_ (fun p => ih _ _)
        unfold batchModify
        refine Exec.Within.bind (LeavesOthers.trans id)
          (ensureGmailLabels_within account add found.1 found.2) (fun p => ?_)
        dsimp only
        split
        · exact Exec.Within.fail (LeavesOthers.refl id) _
        · exact Exec.Within.bind (LeavesOthers.trans id) (useTool_within (fun _ => rfl))
            (fun _ => Exec.Within.pure (LeavesOthers.refl id) _)
    | draftGmail account subject body threadId =>
      rw [performGmail]
      refine Exec.Within.bind (LeavesOthers.trans id) ?_ (fun p => ih _ _)
      unfold draftGmail
      refine Exec.Within.bind (LeavesOthers.trans id) (read_within _) (fun confirmed => ?_)
      refine Exec.Within.bind (LeavesOthers.trans id) (useTool_within (fun _ => rfl))
        (fun p => ?_)
      split
      · exact Exec.Within.pure (LeavesOthers.refl id) _
      · exact hfail _
    | _ => exact hfail _

theorem outlookFolder_within (path : String) (performed : List Performed) :
    Exec.Within (LeavesOthers id) (outlookFolder E path performed) := by
  unfold outlookFolder
  refine Exec.Within.bind (LeavesOthers.trans id) (useTool_within (fun _ => rfl)) (fun p => ?_)
  refine Exec.Within.bind (LeavesOthers.trans id) (read_within _) (fun folders => ?_)
  split
  · exact Exec.Within.pure (LeavesOthers.refl id) _
  · exact useTool_within (fun _ => rfl)

theorem resolveOutlookDestination_within (destination : String) (performed : List Performed) :
    Exec.Within (LeavesOthers id) (resolveOutlookDestination E destination performed) := by
  unfold resolveOutlookDestination
  split
  · exact Exec.Within.fail (LeavesOthers.refl id) _
  · split
    · exact Exec.Within.pure (LeavesOthers.refl id) _
    · split
      · exact Exec.Within.fail (LeavesOthers.refl id) _
      · refine Exec.Within.bind (LeavesOthers.trans id) (outlookFolder_within _ _) (fun p => ?_)
        exact Exec.Within.bind (LeavesOthers.trans id) (outlookFolder_within _ _)
          (fun _ => Exec.Within.pure (LeavesOthers.refl id) _)

theorem editMessage_within (call : Call) (message : String) (f : OutlookState → OutlookState)
    (performed : List Performed) :
    Exec.Within (LeavesOthers id) (editMessage E call message f performed) := by
  unfold editMessage
  refine Exec.Within.bind (LeavesOthers.trans id) (read_within _) (fun found => ?_)
  split
  · exact useTool_within (fun _ => rfl)
  · exact Exec.Within.fail (LeavesOthers.refl id) _

theorem moveMessage_within (message destination : String) (performed : List Performed) :
    Exec.Within (LeavesOthers id) (moveMessage E message destination performed) := by
  unfold moveMessage
  refine Exec.Within.bind (LeavesOthers.trans id)
    (resolveOutlookDestination_within destination performed) (fun found => ?_)
  refine Exec.Within.bind (LeavesOthers.trans id) (read_within _) (fun known => ?_)
  refine Exec.Within.bind (LeavesOthers.trans id) (read_within _) (fun echoed => ?_)
  split
  · exact Exec.Within.bind (LeavesOthers.trans id) (useTool_within (fun _ => rfl))
      (fun _ => Exec.Within.pure (LeavesOthers.refl id) _)
  · exact Exec.Within.fail (LeavesOthers.refl id) _

theorem performOutlook_within (calls : List Call) (performed : List Performed) :
    Exec.Within (LeavesOthers id) (performOutlook E calls performed) := by
  induction calls generalizing performed with
  | nil => exact Exec.Within.pure (LeavesOthers.refl id) _
  | cons call rest ih =>
    refine Exec.Within.bind (LeavesOthers.trans id) ?_ (fun p => ih p)
    cases call with
    | patchCategories message categories => exact editMessage_within _ _ _ _
    | patchRead message isRead => exact editMessage_within _ _ _ _
    | moveMessage message destination => exact moveMessage_within _ _ _
    | replyDraft message comment => exact useTool_within (fun _ => rfl)
    | _ => exact Exec.Within.fail (LeavesOthers.refl id) _

theorem Flushes.leavesOthers {w w' : World} (h : Flushes w w') : LeavesOthers id w w' := by
  obtain ⟨⟨new, hnew⟩, hdecisions⟩ := h
  refine ⟨hnew.accounts, by rw [hdecisions], fun n _ => ?_⟩
  unfold Ledger.getDecision
  rw [hdecisions]

theorem queue_within (commands : List Command) :
    Exec.Within (LeavesOthers id) (queue E id commands) := fun _ => ⟨rfl, rfl, fun _ _ => rfl⟩

theorem performCommands_within (commands cs : List Command) (performed : List Performed) :
    Exec.Within (LeavesOthers id) (performCommands E id commands cs performed) := by
  induction cs generalizing performed with
  | nil => exact Exec.Within.pure (LeavesOthers.refl id) _
  | cons c rest ih =>
    refine Exec.Within.bind (LeavesOthers.trans id)
      (fun w => (tell_flushes id c w).leavesOthers) (fun answer => ?_)
    cases answer with
    | done => exact ih _
    | notRunning =>
      exact Exec.Within.bind (LeavesOthers.trans id) (queue_within commands)
        (fun _ => Exec.Within.pure (LeavesOthers.refl id) _)
    | denied => exact Exec.Within.fail (LeavesOthers.refl id) _
    | failed reason => exact Exec.Within.fail (LeavesOthers.refl id) _

theorem recordMailbox_within (d : Decision) (commands : List Command) :
    Exec.Within (LeavesOthers d.decisionId) (recordMailbox E d commands) := by
  unfold recordMailbox
  cases commands with
  | nil => exact Exec.Within.pure (LeavesOthers.refl _) _
  | cons first rest =>
    dsimp only
    split
    · exact Exec.Within.pure (LeavesOthers.refl _) _
    · refine Exec.Within.bind (LeavesOthers.trans _)
        (fun w => ⟨rfl, rfl, fun _ _ => rfl⟩) (fun found => ?_)
      obtain ⟨answer, mailbox⟩ := found
      cases answer with
      | done =>
        dsimp only
        split
        · exact Exec.Within.bind (LeavesOthers.trans _)
            (fun w => leavesOthers_setMailboxBefore d.decisionId mailbox w)
            (fun _ => Exec.Within.pure (LeavesOthers.refl _) _)
        · exact Exec.Within.pure (LeavesOthers.refl _) _
      | notRunning => exact Exec.Within.pure (LeavesOthers.refl _) _
      | denied => exact Exec.Within.fail (LeavesOthers.refl _) _
      | failed reason => exact Exec.Within.fail (LeavesOthers.refl _) _

theorem performApple_within (d : Decision) (plan : ApplyPlan) :
    Exec.Within (LeavesOthers d.decisionId) (performApple E d plan) := by
  unfold performApple
  refine Exec.Within.bind (LeavesOthers.trans _)
    (fun w => (flushed_flushes E w).leavesOthers) (fun _ => ?_)
  refine Exec.Within.bind (LeavesOthers.trans _) (recordMailbox_within d _) (fun recorded => ?_)
  split
  · exact performCommands_within _ _ _
  · exact Exec.Within.bind (LeavesOthers.trans _) (queue_within _)
      (fun _ => Exec.Within.pure (LeavesOthers.refl _) _)

theorem perform_within (d : Decision) (plan : ApplyPlan) :
    Exec.Within (LeavesOthers d.decisionId) (perform E d plan) := by
  unfold perform
  cases d.provider with
  | gmail =>
    exact Exec.Within.bind (LeavesOthers.trans _) (performGmail_within _ _ _)
      (fun _ => Exec.Within.pure (LeavesOthers.refl _) _)
  | outlook =>
    exact Exec.Within.bind (LeavesOthers.trans _) (performOutlook_within _ _)
      (fun _ => Exec.Within.pure (LeavesOthers.refl _) _)
  | appleMail => exact performApple_within d plan

end Perform

/-! ## One row and a whole pass -/

theorem applyDecision_leavesOthers (d : Decision) (w : World) :
    LeavesOthers d.decisionId w (applyDecision E d false true w).2 := by
  rcases applyDecision_cases E d w with ⟨_, h⟩ | ⟨_, h⟩ | ⟨_, h⟩ | ⟨-, -, h⟩ | ⟨-, -, h⟩
  · rw [h]
    exact LeavesOthers.refl _ w
  · rw [h]
    exact LeavesOthers.refl _ w
  · rw [h]
    exact leavesOthers_record d.decisionId _ _ w
  · rw [h]
    exact LeavesOthers.refl _ w
  · rw [h]
    have hperform := perform_within (E := E) d (planApply E.fold d) w
    unfold performAndRecord
    split
    · next calls w₁ heq =>
      rw [heq] at hperform
      exact LeavesOthers.trans _ _ _ _ hperform (leavesOthers_record _ _ _ w₁)
    · next calls w₁ heq =>
      rw [heq] at hperform
      exact hperform
    · next e w₁ heq =>
      rw [heq] at hperform
      exact LeavesOthers.trans _ _ _ _ hperform (leavesOthers_record _ _ _ w₁)

theorem applyProposed_leavesOthers (row : Row) (w : World) :
    LeavesOthers row.id w (applyProposed E row false true w).2 := by
  have h := applyDecision_leavesOthers (E := E) (decisionFromRow E row (rowAccount w row)) w
  unfold applyProposed
  split
  · next w₁ heq =>
    rw [heq] at h
    rw [if_neg Bool.false_ne_true]
    exact LeavesOthers.trans _ _ _ _ h (leavesOthers_record row.id _ _ w₁)
  · exact h

/-- The row stands in the ledger, and is open. -/
def StandsOpen (row : Row) (w : World) : Prop :=
  w.ledger.getDecision row.id = some row ∧ row.status = .proposed

theorem idAttempts_standsOpen (ids : List Nat) (w : World) :
    ∀ a ∈ idAttempts E ids w, StandsOpen a.2 a.1 := by
  induction ids generalizing w with
  | nil => exact fun a ha => absurd ha List.not_mem_nil
  | cons id rest ih =>
    intro a ha
    rw [idAttempts] at ha
    cases hget : w.ledger.getDecision id with
    | none =>
      rw [hget] at ha
      exact ih w a ha
    | some row =>
      rw [hget] at ha
      dsimp only at ha
      by_cases hopen : row.status = .proposed
      · rw [if_pos hopen] at ha
        rcases List.mem_cons.mp ha with rfl | ha
        · have hid : row.id = id := w.ledger.numbered id row hget
          exact ⟨hid ▸ hget, hopen⟩
        · exact ih _ a ha
      · rw [if_neg hopen] at ha
        exact ih w a ha

theorem autoAttempts_standsOpen {rows : List Row} (cap : Nat) {w : World}
    (honce : (rows.map Row.id).Nodup) (hrows : ∀ row ∈ rows, StandsOpen row w) :
    ∀ a ∈ autoAttempts E rows cap w, StandsOpen a.2 a.1 := by
  induction rows generalizing cap w with
  | nil => exact fun a ha => absurd ha List.not_mem_nil
  | cons row rest ih =>
    rw [List.map_cons, List.nodup_cons] at honce
    intro a ha
    rw [autoAttempts] at ha
    split at ha
    · exact absurd ha List.not_mem_nil
    · split at ha
      · rcases List.mem_cons.mp ha with rfl | ha
        · exact hrows row List.mem_cons_self
        · -- the rows that are left are others than the one that was tried
          refine ih (cap - 1) honce.2 (fun r hr => ?_) a ha
          have hne : r.id ≠ row.id := fun heq => honce.1 (heq ▸ List.mem_map_of_mem hr)
          obtain ⟨hget, hopen⟩ := hrows r (List.mem_cons_of_mem row hr)
          exact ⟨((applyProposed_leavesOthers row w).others r.id hne).trans hget, hopen⟩
      · exact ih cap honce.2 (fun r hr => hrows r (List.mem_cons_of_mem row hr)) a ha

theorem Numbered.nodup {rows : List Row} (h : Numbered rows) : (rows.map Row.id).Nodup := by
  rw [List.nodup_iff_pairwise_ne, List.pairwise_iff_getElem]
  intro i j hi hj hij heq
  rw [List.getElem_map, List.getElem_map] at heq
  rw [List.length_map] at hi hj
  have hi' := h i rows[i] (List.getElem?_eq_getElem hi)
  have hj' := h j rows[j] (List.getElem?_eq_getElem hj)
  omega

theorem listProposed_standsOpen (w : World) (limit : Nat) :
    ∀ row ∈ w.ledger.listProposed limit, StandsOpen row w := by
  intro row hrow
  have hmem := List.mem_filter.mp (List.take_subset _ _ hrow)
  obtain ⟨n, hn⟩ := List.mem_iff_getElem?.mp hmem.1
  have hid : row.id = n := w.ledger.numbered n row hn
  exact ⟨hid ▸ hn, of_decide_eq_true hmem.2⟩

/-- A row that a pass tries. -/
theorem attempts_standsOpen (p : Pass) (w₀ : World) :
    ∀ a ∈ p.attempts E w₀, StandsOpen a.2 a.1 := by
  cases p with
  | ids chosen => exact idAttempts_standsOpen _ w₀
  | auto =>
    refine autoAttempts_standsOpen applyCap ?_ (listProposed_standsOpen w₀ 10000)
    have hsub : (w₀.ledger.listProposed 10000).Sublist w₀.ledger.decisions :=
      (List.take_sublist _ _).trans List.filter_sublist
    exact w₀.ledger.numbered.nodup.sublist (hsub.map Row.id)

end Env

end Cerid.Inbox
