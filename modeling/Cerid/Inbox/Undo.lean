import Cerid.Inbox.UndoEffects

/-!
# Undoing an applied decision

An undo brings the messages of a thread back just where the receipt of the decision says what
they were.
-/

namespace Cerid.Inbox

/-- Every message of the thread is as it was. -/
def ThreadRestored (row : Row) (w w' : World) : Prop :=
  match row.source with
  | .gmail => ∀ id ∈ row.messageIds, ∀ labels, w.gmail.messages.get? id = some labels →
      ∃ labels', w'.gmail.messages.get? id = some labels' ∧ ∀ x, x ∈ labels' ↔ x ∈ labels
  | .outlook => ∀ (n : Nat) (m : OutlookMessage), w.outlook.messages[n]? = some m →
      m.id ∈ row.messageIds →
      ∃ m', w'.outlook.messages[n]? = some m' ∧ m'.state.folder = m.state.folder ∧
        m'.state.isRead = m.state.isRead ∧
        ∀ x, x ∈ m'.state.categories ↔ x ∈ m.state.categories
  | .appleMail => ∀ id ∈ row.messageIds, ∀ m, w.apple.get? id = some m →
      w'.apple.get? id = some m

section Env

variable {E : Env}

/-- The messages are what an undo takes them to have been: with the labels of the decision
new to them, in the mailbox that the row names, unread where they were marked read. -/
def Returns (E : Env) (t : TriagedThread) (row : Row) (w w' : World) : Prop :=
  match row.source, row.action with
  | .gmail, .keep | .gmail, .archive => ∀ id ∈ row.messageIds, ∀ labels,
      w.gmail.messages.get? id = some labels →
      row.category.labelName ∉ labels ∧ "INBOX" ∈ labels
  | .gmail, .markRead => ∀ id ∈ row.messageIds, ∀ labels,
      w.gmail.messages.get? id = some labels → "UNREAD" ∈ labels
  | .outlook, .keep | .outlook, .archive =>
      ∀ (n : Nat) (m : OutlookMessage), w.outlook.messages[n]? = some m → m.id ∈ row.messageIds →
        (moves row.action ((rowAccount w row).any Account.folderSort) = true →
          m.state.folder = returnFolder E row) ∧
        ∀ x, x ∈ m.state.categories ↔ x ∈ kept (storedLabels t)
  | .outlook, .markRead =>
      ∀ (n : Nat) (m : OutlookMessage), w.outlook.messages[n]? = some m → m.id ∈ row.messageIds →
        m.state.isRead = false ∧ (kept (storedLabels t) ≠ storedLabels t →
          ∀ x, x ∈ m.state.categories ↔ x ∈ kept (storedLabels t))
  | .appleMail, _ => ∀ id ∈ row.messageIds, ∀ m, w.apple.get? id = some m →
      m.mailbox = returnMailbox E row w ∧ (heldThrough E row w w' id m).flag = m.flag ∧
        (heldThrough E row w w' id m).isRead = m.isRead
  | _, _ => True

theorem outlookMove_moves {row : Row} (account : Option Account)
    (hmark : row.action = .keep ∨ row.action = .archive) :
    outlookMove E.fold (decisionFromRow E row account) = none ↔
      ¬ moves row.action (account.any Account.folderSort) = true := by
  unfold outlookMove decisionFromRow moves
  rcases hmark with ha | ha
  · rw [ha]
    cases account.any Account.folderSort <;> simp
  · rw [ha]
    simp

/-- A message of Outlook is back just where it was what the receipt says. -/
theorem outlookBack_iff {row : Row} {account : Option Account} {labels : List String}
    (haction : row.action ≠ .undo) (s : OutlookState) :
    ((outlookBack E row account labels s).folder = s.folder ∧
        (outlookBack E row account labels s).isRead = s.isRead ∧
        ∀ x, x ∈ (outlookBack E row account labels s).categories ↔ x ∈ s.categories) ↔
      match row.action with
      | .keep | .archive =>
        (moves row.action (account.any Account.folderSort) = true →
          s.folder = returnFolder E row) ∧ ∀ x, x ∈ s.categories ↔ x ∈ kept labels
      | .markRead => s.isRead = false ∧
          (kept labels ≠ labels → ∀ x, x ∈ s.categories ↔ x ∈ kept labels)
      | .draft | .undo => True := by
  have hmarked : row.action = .keep ∨ row.action = .archive →
      (((outlookBack E row account labels s).folder = s.folder) ↔
        (moves row.action (account.any Account.folderSort) = true →
          s.folder = returnFolder E row)) := by
    intro hmark
    have hmove := outlookMove_moves (E := E) account hmark
    have hfolder : (outlookBack E row account labels s).folder =
        if outlookMove E.fold (decisionFromRow E row account) = none then s.folder
        else returnFolder E row := rfl
    rw [hfolder]
    by_cases hm : moves row.action (account.any Account.folderSort) = true
    · rw [if_neg (fun h => hmove.mp h hm)]
      exact ⟨fun h _ => h.symm, fun h => (h hm).symm⟩
    · rw [if_pos (hmove.mpr hm)]
      exact iff_of_true rfl (fun h => absurd h hm)
  have hstay : row.action = .markRead ∨ row.action = .draft →
      (outlookBack E row account labels s).folder = s.folder := by
    intro hmark
    have hnone : outlookMove E.fold (decisionFromRow E row account) = none := by
      unfold outlookMove decisionFromRow
      rcases hmark with ha | ha <;> rw [ha]
    exact if_pos hnone
  cases ha : row.action with
  | keep =>
    have hfolder := hmarked (Or.inl ha)
    rw [ha] at hfolder
    rw [hfolder]
    unfold outlookBack
    rw [ha]
    dsimp only
    rw [if_neg (by decide)]
    constructor
    · rintro ⟨hf, -, hc⟩
      exact ⟨hf, fun x => (hc x).symm⟩
    · rintro ⟨hf, hc⟩
      exact ⟨hf, rfl, fun x => (hc x).symm⟩
  | archive =>
    have hfolder := hmarked (Or.inr ha)
    rw [ha] at hfolder
    rw [hfolder]
    unfold outlookBack
    rw [ha]
    dsimp only
    rw [if_neg (by decide)]
    constructor
    · rintro ⟨hf, -, hc⟩
      exact ⟨hf, fun x => (hc x).symm⟩
    · rintro ⟨hf, hc⟩
      exact ⟨hf, rfl, fun x => (hc x).symm⟩
  | markRead =>
    rw [eq_true (hstay (Or.inl ha)), true_and]
    unfold outlookBack
    rw [ha]
    dsimp only
    rw [if_pos rfl]
    constructor
    · rintro ⟨hr, hc⟩
      refine ⟨hr.symm, fun hne x => ?_⟩
      rw [← hc x, if_neg hne]
    · rintro ⟨hr, hc⟩
      refine ⟨hr.symm, fun x => ?_⟩
      split
      · exact Iff.rfl
      · next hne => exact (hc hne x).symm
  | draft =>
    rw [eq_true (hstay (Or.inr ha)), true_and]
    unfold outlookBack
    rw [ha]
    dsimp only
    rw [if_neg (by decide)]
    exact iff_of_true ⟨rfl, fun _ => Iff.rfl⟩ trivial
  | undo => exact absurd ha haction

/-- An undo that goes through right after the decision returns the thread to what it was just
where the receipt of the decision says what that is. -/
theorem threadRestored_iff (E : Env) (p : Pass) (w₀ : World) (t : TriagedThread) :
    ∀ a ∈ p.attempts E w₀, ProposedFrom t a.2 → ∀ calls w',
      applyProposed E a.2 false true a.1 = (.applied calls, w') → ∀ calls' w'',
        undoDecision E a.2.id false true w' = (.applied calls', w'') →
        (ThreadRestored a.2 a.1 w'' ↔ Returns E t a.2 a.1 w') := by
  rintro ⟨w, row⟩ ha hrow calls w' happlied calls' w'' hundo
  have hstands := attempts_standsOpen p w₀ _ ha
  have haction := hrow.not_undo
  have hstored := hrow.stored
  dsimp only at hrow happlied hundo hstands haction hstored ⊢
  unfold ThreadRestored Returns
  cases hsource : row.source with
  | gmail =>
    have hnil : storedLabels t = [] := by
      unfold storedLabels
      rw [← hrow.source, hsource]
    rw [hnil] at hstored
    have hfiled := gmail_filed happlied hsource haction hstored
    obtain ⟨add, remove, hback, hmessages⟩ := gmail_undone hstands hsource haction hfiled hundo
    have hiff : (∀ id ∈ row.messageIds, ∀ labels, w.gmail.messages.get? id = some labels →
          ∃ labels', w''.gmail.messages.get? id = some labels' ∧
            ∀ x, x ∈ labels' ↔ x ∈ labels) ↔
        ∀ id ∈ row.messageIds, ∀ labels, w.gmail.messages.get? id = some labels →
          (row.action = .keep ∨ row.action = .archive →
            row.category.labelName ∉ labels ∧ "INBOX" ∈ labels) ∧
          (row.action = .markRead → "UNREAD" ∈ labels) := by
      refine forall₂_congr (fun id hid => forall₂_congr (fun labels hlabels => ?_))
      rw [hmessages id hid, hlabels, Option.map_some, ← relabel_back hback]
      simp
    dsimp only
    rw [hiff]
    cases ha : row.action with
    | keep => simp
    | archive => simp
    | markRead => simp
    | draft => simp
    | undo => exact absurd ha haction
  | outlook =>
    have hiff : (∀ (n : Nat) (m : OutlookMessage), w.outlook.messages[n]? = some m →
          m.id ∈ row.messageIds → ∃ m', w''.outlook.messages[n]? = some m' ∧
            m'.state.folder = m.state.folder ∧ m'.state.isRead = m.state.isRead ∧
            ∀ x, x ∈ m'.state.categories ↔ x ∈ m.state.categories) ↔
        ∀ (n : Nat) (m : OutlookMessage), w.outlook.messages[n]? = some m →
          m.id ∈ row.messageIds →
          match row.action with
          | .keep | .archive =>
            (moves row.action ((rowAccount w row).any Account.folderSort) = true →
              m.state.folder = returnFolder E row) ∧
              ∀ x, x ∈ m.state.categories ↔ x ∈ kept (storedLabels t)
          | .markRead => m.state.isRead = false ∧ (kept (storedLabels t) ≠ storedLabels t →
              ∀ x, x ∈ m.state.categories ↔ x ∈ kept (storedLabels t))
          | .draft | .undo => True := by
      refine forall₂_congr (fun n m => forall₂_congr (fun hm hid => ?_))
      obtain ⟨m', hm', hstate⟩ :=
        outlook_undone hstands hsource haction hstored happlied hundo n m hm hid
      rw [← outlookBack_iff haction, ← hstate]
      constructor
      · rintro ⟨m₂, hm₂, h⟩
        rw [Option.some.inj (hm'.symm.trans hm₂)]
        exact h
      · intro h
        exact ⟨m', hm', h⟩
    dsimp only
    rw [hiff]
    cases ha : row.action with
    | keep => exact Iff.rfl
    | archive => exact Iff.rfl
    | markRead => exact Iff.rfl
    | draft => simp
    | undo => exact absurd ha haction
  | appleMail =>
    dsimp only
    refine forall₂_congr (fun id hid => forall₂_congr (fun m hm => ?_))
    rw [apple_undone hstands hsource happlied hundo id m hm hid, Option.some.injEq]
    generalize heldThrough E row w w' id m = held
    obtain ⟨mailbox, flag, isRead⟩ := m
    rw [AppleMessage.mk.injEq]
    constructor
    · rintro ⟨h₁, h₂, h₃⟩
      exact ⟨h₁.symm, h₂, h₃⟩
    · rintro ⟨h₁, h₂, h₃⟩
      exact ⟨h₁.symm, h₂, h₃⟩

end Env

/-! ## A newsletter that had been read -/

/-- The newsletter as its operator had left it: read, and in the inbox. -/
def readNewsletter : World :=
  { newsletterWorld .markRead with
    gmail := { messages := Dict.empty.set "m1" ["INBOX"], labels := [] } }

theorem undone_attempt (w₀ : World) (action : Action) (before after : List String)
    (hlength : (Pass.auto.attempts answered w₀).length = 1)
    (hrow : ∀ a ∈ Pass.auto.attempts answered w₀,
      a.2 = { proposal (newsletter action) "a@b.c" with id := 0 } ∧
        a.1.gmail.messages.get? "m1" = some before ∧
        (applyProposed answered a.2 false true a.1).1.isApplied = true ∧
        (undoDecision answered a.2.id false true
          (applyProposed answered a.2 false true a.1).2).1.isApplied = true ∧
        (undoDecision answered a.2.id false true
          (applyProposed answered a.2 false true a.1).2).2.gmail.messages.get? "m1" =
            some after) :
    ∃ a ∈ Pass.auto.attempts answered w₀,
      a.2 = { proposal (newsletter action) "a@b.c" with id := 0 } ∧
        a.1.gmail.messages.get? "m1" = some before ∧ ∃ calls w',
          applyProposed answered a.2 false true a.1 = (.applied calls, w') ∧ ∃ calls' w'',
            undoDecision answered a.2.id false true w' = (.applied calls', w'') ∧
              w''.gmail.messages.get? "m1" = some after := by
  obtain ⟨a, ha⟩ := List.length_eq_one_iff.mp hlength
  have hmem : a ∈ Pass.auto.attempts answered w₀ := by
    rw [ha]
    exact List.mem_singleton_self a
  obtain ⟨hproposal, hlabels, happlied, hundone, hafter⟩ := hrow a hmem
  obtain ⟨calls, w', hpair, hw'⟩ := Outcome.exists_applied happlied
  rw [← hw'] at hundone hafter
  obtain ⟨calls', w'', hpair', hw''⟩ := Outcome.exists_applied hundone
  rw [← hw''] at hafter
  exact ⟨a, hmem, hproposal, hlabels, calls, w', hpair, calls', w'', hpair', hafter⟩

/-- A newsletter that was kept is brought back to its two labels. -/
theorem threadRestored_newsletter :
    ∃ a ∈ Pass.auto.attempts answered (newsletterWorld .keep), ∃ calls w',
      applyProposed answered a.2 false true a.1 = (.applied calls, w') ∧ ∃ calls' w'',
        undoDecision answered a.2.id false true w' = (.applied calls', w'') ∧
          ThreadRestored a.2 a.1 w'' := by
  obtain ⟨a, ha, hproposal, hlabels, calls, w', happlied, calls', w'', hundone, -⟩ :=
    undone_attempt (newsletterWorld .keep) .keep ["INBOX", "UNREAD"] ["INBOX", "UNREAD"]
      (by decide +kernel) (by decide +kernel)
  have hfrom : ProposedFrom (newsletter .keep) a.2 := by
    rw [hproposal]
    exact proposedFrom_proposal _ _ _
  refine ⟨a, ha, calls, w', happlied, calls', w'', hundone,
    (threadRestored_iff answered .auto (newsletterWorld .keep) (newsletter .keep) a ha hfrom calls
      w' happlied calls' w'' hundone).mpr ?_⟩
  unfold Returns
  rw [hproposal]
  intro id hid labels hget
  have hids : id = "m1" := by
    have hmem : id ∈ (newsletter .keep).messageIds := hid
    have hone : (newsletter .keep).messageIds = ["m1"] := by decide +kernel
    rw [hone, List.mem_singleton] at hmem
    exact hmem
  rw [hids, hlabels, Option.some.injEq] at hget
  subst hget
  decide

/-- A message that was read is unread after a mark_read and its undo. -/
theorem undone_read_is_unread :
    ¬ ∀ (E : Env) (p : Pass) (w₀ : World) (t : TriagedThread), ∀ a ∈ p.attempts E w₀,
      ProposedFrom t a.2 → ∀ calls w',
        applyProposed E a.2 false true a.1 = (.applied calls, w') → ∀ calls' w'',
          undoDecision E a.2.id false true w' = (.applied calls', w'') →
          ThreadRestored a.2 a.1 w'' := by
  intro h
  obtain ⟨a, ha, hproposal, hlabels, calls, w', happlied, calls', w'', hundone, hafter⟩ :=
    undone_attempt readNewsletter .markRead ["INBOX"] ["INBOX", "UNREAD"] (by decide +kernel)
      (by decide +kernel)
  have hfrom : ProposedFrom (newsletter .markRead) a.2 := by
    rw [hproposal]
    exact proposedFrom_proposal _ _ _
  have hrestored := h answered .auto readNewsletter (newsletter .markRead) a ha hfrom calls w'
    happlied calls' w'' hundone
  unfold ThreadRestored at hrestored
  have hids : a.2.source = .gmail ∧ "m1" ∈ a.2.messageIds := by
    rw [hproposal]
    decide +kernel
  rw [hids.1] at hrestored
  obtain ⟨labels', hget, hsame⟩ := hrestored "m1" hids.2 _ hlabels
  rw [hafter, Option.some.injEq] at hget
  subst hget
  exact absurd ((hsame "UNREAD").mp (by decide)) (by decide)

end Cerid.Inbox
