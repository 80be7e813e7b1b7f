import Cerid.Inbox.Applied

/-!
# The state that a decision names

An archived message is out of the inbox, a message that was marked read is read, and a
message that was kept or archived carries the label of the decision and no other of the
program's.  A plan is a change of what the proposal stored, so it reaches that state only
where the stored labels are the ones on the messages.
-/

namespace Cerid.Inbox

/-- A message as the operator sees it. -/
structure View where
  inInbox : Bool
  isRead : Bool
  /-- Its labels or categories. -/
  marks : List String

/-- The state that a decision names.  `labels` says whether the provider has labels or
categories. -/
structure Filed (labels : Bool) (action : Action) (label : String) (before after : View) :
    Prop where
  left : action = .archive → after.inInbox = false
  read : action = .markRead → after.isRead = true
  marked : labels = true → (action = .keep ∨ action = .archive) →
    ∀ x, isCerid x = true → (x ∈ after.marks ↔ x = label)
  others : ∀ x, isCerid x = false → (x ∈ after.marks ↔ x ∈ before.marks)

def gmailView (labels : List String) : View where
  inInbox := "INBOX" ∈ labels
  isRead := "UNREAD" ∉ labels
  marks := labels.filter (· ∉ systemLabels)

def outlookView (s : OutlookState) : View where
  inInbox := s.folder = "inbox"
  isRead := s.isRead
  marks := s.categories

def appleView (F : Text.CaseFold) (m : AppleMessage) : View where
  inInbox := F.fold m.mailbox = "inbox"
  isRead := m.isRead
  marks := []

/-- Every message of the thread is in the state that the decision names. -/
def ThreadFiled (E : Env) (row : Row) (w w' : World) : Prop :=
  match row.source with
  | .gmail => ∀ id ∈ row.messageIds, ∀ labels, w.gmail.messages.get? id = some labels →
      ∃ labels', w'.gmail.messages.get? id = some labels' ∧
        Filed true row.action row.category.labelName (gmailView labels) (gmailView labels')
  | .outlook => ∀ (n : Nat) (m : OutlookMessage), w.outlook.messages[n]? = some m →
      m.id ∈ row.messageIds →
      ∃ m', w'.outlook.messages[n]? = some m' ∧
        Filed true row.action row.category.labelName (outlookView m.state) (outlookView m'.state)
  | .appleMail => ∀ id ∈ row.messageIds, ∀ m, w.apple.get? id = some m →
      ∃ m', w'.apple.get? id = some m' ∧
        Filed false row.action row.category.labelName (appleView E.fold m) (appleView E.fold m')

/-- The row was proposed for the thread.  What an apply that was put off found of the mailbox
may stand in it since. -/
structure ProposedFrom (t : TriagedThread) (row : Row) : Prop where
  source : row.source = t.source
  messageIds : row.messageIds = t.messageIds
  category : row.category = t.category
  action : row.action = clamp t.action
  stored : row.receipt.currentLabels = some (storedLabels t)

theorem proposedFrom_proposal (t : TriagedThread) (account : String) (id : Nat) :
    ProposedFrom t { proposal t account with id := id } := ⟨rfl, rfl, rfl, rfl, rfl⟩

theorem ProposedFrom.not_undo {t : TriagedThread} {row : Row} (h : ProposedFrom t row) :
    row.action ≠ .undo := by
  rw [h.action]
  unfold clamp
  cases t.action <;> decide

/-- No label of the program is on the message but this one. -/
def OnlyMark (label : String) (labels : List String) : Prop :=
  ∀ x ∈ labels, isCerid x = true → x = label

/-- The messages are as the plan needs them: a Gmail plan takes no label away, and an Outlook
plan gives every message the categories that the thread showed. -/
def MeetsDecision (t : TriagedThread) (w : World) : Prop :=
  match t.source, clamp t.action with
  | .gmail, .archive => ∀ id ∈ t.messageIds, ∀ labels, w.gmail.messages.get? id = some labels →
      "INBOX" ∉ labels ∧ OnlyMark t.category.labelName labels
  | .gmail, .keep => ∀ id ∈ t.messageIds, ∀ labels, w.gmail.messages.get? id = some labels →
      OnlyMark t.category.labelName labels
  | .gmail, .markRead => ∀ id ∈ t.messageIds, ∀ labels,
      w.gmail.messages.get? id = some labels → "UNREAD" ∉ labels
  | .outlook, .keep | .outlook, .archive =>
      ∀ (n : Nat) (m : OutlookMessage), w.outlook.messages[n]? = some m → m.id ∈ t.messageIds →
        if kept (storedLabels t) ++ [t.category.labelName] = storedLabels t then
          ∀ x, isCerid x = true → (x ∈ m.state.categories ↔ x = t.category.labelName)
        else ∀ x, isCerid x = false → (x ∈ m.state.categories ↔ x ∈ storedLabels t)
  | _, _ => True

section Env

variable {E : Env}

theorem planApply_noop {F : Text.CaseFold} {d : Decision} (h : (planApply F d).noop = true) :
    d.provider = .gmail ∧ d.action ≠ .draft ∧
      gmailDelta d.action d.category d.folderSort (gmailBelieved d) d.undoneAction = none := by
  unfold planApply at h
  split at h
  · exact nomatch h
  · cases hp : d.provider with
    | gmail =>
      simp only [hp] at h
      unfold planGmail at h
      by_cases haction : d.action = .draft
      · rw [if_pos haction] at h
        split_ifs at h
      · rw [if_neg haction] at h
        dsimp only at h
        refine ⟨rfl, haction, ?_⟩
        cases hdelta : gmailDelta d.action d.category d.folderSort (gmailBelieved d)
            d.undoneAction with
        | none => rfl
        | some delta =>
          rw [hdelta] at h
          exact nomatch h
    | outlook =>
      simp only [hp] at h
      unfold planOutlook at h
      split_ifs at h
    | appleMail =>
      simp only [hp] at h
      unfold planApple at h
      split_ifs at h

/-- A row that was applied: its decision was, or there was nothing to do. -/
theorem applyProposed_applied {row : Row} {calls : List Performed} {w w' : World}
    (h : applyProposed E row false true w = (.applied calls, w')) :
    let d := decisionFromRow E row (rowAccount w row)
    applyDecision E d false true w = (.applied calls, w') ∨
      (d.provider = .gmail ∧ d.action ≠ .draft ∧
        gmailDelta d.action d.category d.folderSort (gmailBelieved d) d.undoneAction = none ∧
        calls = [] ∧
        w' = { w with ledger := w.ledger.record row.id .applied (noopReceipt row) }) := by
  intro d
  unfold applyProposed at h
  split at h
  · next w₁ hnoop =>
    obtain ⟨rfl, -, hplan⟩ := applyDecision_noop E hnoop
    rw [if_neg Bool.false_ne_true, Prod.mk.injEq, Outcome.applied.injEq] at h
    obtain ⟨hp, haction, hdelta⟩ := planApply_noop hplan
    exact Or.inr ⟨hp, haction, hdelta, h.1.symm, h.2.symm⟩
  · exact Or.inl h

/-! ## Gmail -/

theorem sorted_singleton (x : String) : sorted [x] = [x] := by
  unfold sorted
  rw [List.dedup_eq_self.mpr (List.nodup_singleton x)]
  rfl

/-- With no label stored, a plan adds the label of the decision and takes nothing away. -/
theorem gmailDelta_nil (action : Action) (category : Category) (folderSort : Bool)
    (h : action ≠ .undo) :
    gmailDelta action category folderSort [] none =
      if action = .keep ∨ action = .archive then some ([category.labelName], []) else none := by
  unfold gmailDelta gmailWanted
  cases action with
  | keep => simp [sorted]
  | archive => simp [sorted]
  | markRead => simp
  | draft => simp
  | undo => exact absurd rfl h

/-- The labels of a message of an applied proposal. -/
def gmailAfter (row : Row) (labels : List String) : List String :=
  if row.action = .keep ∨ row.action = .archive then relabel [row.category.labelName] [] labels
  else labels

theorem mem_gmailAfter (row : Row) (labels : List String) (x : String) :
    x ∈ gmailAfter row labels ↔
      x ∈ labels ∨ ((row.action = .keep ∨ row.action = .archive) ∧ x = row.category.labelName) := by
  unfold gmailAfter
  split
  · next h =>
    rw [mem_relabel (fun _ _ => List.not_mem_nil), List.mem_singleton]
    simp [h]
  · next h => simp [h]

theorem gmailAfter_other {row : Row} (h : ¬ (row.action = .keep ∨ row.action = .archive))
    (id : String) (found : Option (List String)) :
    found.map (fun labels => if id ∈ row.messageIds then gmailAfter row labels else labels) =
      found := by
  cases found with
  | none => rfl
  | some labels =>
    rw [Option.map_some]
    unfold gmailAfter
    rw [if_neg h, ite_self]

/-- An applied proposal of Gmail. -/
structure GmailFiled (row : Row) (calls : List Performed) (w w' : World) : Prop where
  messages : ∀ id, w'.gmail.messages.get? id = (w.gmail.messages.get? id).map (fun labels =>
    if id ∈ row.messageIds then gmailAfter row labels else labels)
  removes : Removes [] calls
  recorded : ∃ receipt : Receipt, w'.ledger = w.ledger.record row.id .applied receipt ∧
    receipt.calls = some calls ∧ receipt.messageIds = [] ∧
    receipt.currentLabels =
      if row.action = .keep ∨ row.action = .archive then some [row.category.labelName] else none

theorem gmail_filed {row : Row} {calls : List Performed} {w w' : World}
    (h : applyProposed E row false true w = (.applied calls, w')) (hsource : row.source = .gmail)
    (haction : row.action ≠ .undo) (hstored : row.receipt.currentLabels = some []) :
    GmailFiled row calls w w' := by
  have hbelieved : gmailBelieved (decisionFromRow E row (rowAccount w row)) = [] := by
    unfold gmailBelieved decisionFromRow
    rw [hstored]
    rfl
  have hdelta := gmailDelta_nil row.action row.category
    (decisionFromRow E row (rowAccount w row)).folderSort haction
  rcases applyProposed_applied h with h | ⟨-, hdraft, hnone, rfl, rfl⟩
  · by_cases hdraft : row.action = .draft
    · obtain ⟨w₁, hkeeps, hremoves, rfl⟩ := applied_gmail_draft h hsource hdraft
      have hno : ¬ (row.action = .keep ∨ row.action = .archive) := by
        rw [hdraft]
        decide
      refine ⟨fun id => ?_, hremoves, keptReceipt (decisionFromRow E row (rowAccount w row))
        { calls := some calls }, ?_, rfl, rfl, ?_⟩
      · rw [gmailAfter_other hno]
        unfold recordDecision
        dsimp only
        rw [hkeeps.1]
      · unfold recordDecision
        dsimp only
        rw [hkeeps.2.2.2]
        rfl
      · rw [if_neg hno]
        rfl
    · obtain ⟨add, remove, w₁, hsome, hlabelled, rfl⟩ := applied_gmail h hsource hdraft
      rw [hbelieved] at hsome ⊢
      have hboth := hdelta.symm.trans hsome
      by_cases hmark : row.action = .keep ∨ row.action = .archive
      · rw [if_pos hmark, Option.some.injEq, Prod.mk.injEq] at hboth
        obtain ⟨rfl, rfl⟩ := hboth
        refine ⟨fun id => ?_, hlabelled.removes,
          keptReceipt (decisionFromRow E row (rowAccount w row))
            { calls := some calls, currentLabels := some [row.category.labelName] },
          ?_, rfl, rfl, ?_⟩
        · unfold recordDecision
          dsimp only
          have hafter : gmailAfter row = relabel [row.category.labelName] [] :=
            funext (fun labels => if_pos hmark)
          rw [hlabelled.messages, GmailBox.get?_modify, hafter]
          rfl
        · unfold recordDecision
          dsimp only
          rw [hlabelled.ledger, List.filter_nil, List.nil_append, sorted_singleton]
          rfl
        · rw [if_pos hmark]
          rfl
      · rw [if_neg hmark] at hboth
        exact nomatch hboth
  · have hno : ¬ (row.action = .keep ∨ row.action = .archive) := by
      intro hmark
      rw [hbelieved] at hnone
      have hboth := hdelta.symm.trans hnone
      rw [if_pos hmark] at hboth
      exact nomatch hboth
    refine ⟨fun id => (gmailAfter_other hno id _).symm, fun p hp => absurd hp List.not_mem_nil,
      noopReceipt row, rfl, rfl, rfl, ?_⟩
    rw [if_neg hno]
    rfl

/-- The views of a Gmail message before and after. -/
theorem gmail_filed_iff {row : Row} (labels : List String) :
    Filed true row.action row.category.labelName (gmailView labels)
        (gmailView (gmailAfter row labels)) ↔
      (row.action = .archive → "INBOX" ∉ labels) ∧
      (row.action = .markRead → "UNREAD" ∉ labels) ∧
      (row.action = .keep ∨ row.action = .archive → OnlyMark row.category.labelName labels) := by
  have hinbox : "INBOX" ≠ row.category.labelName := by
    cases row.category <;> decide
  have hunread : "UNREAD" ≠ row.category.labelName := by
    cases row.category <;> decide
  have hsystem : ∀ x, isCerid x = true → x ∉ systemLabels := by
    intro x hx hmem
    have hcases : x = "INBOX" ∨ x = "UNREAD" := by simpa [systemLabels] using hmem
    rcases hcases with rfl | rfl <;> exact absurd hx (by decide)
  have hview : ∀ (ls : List String) (x : String),
      x ∈ (gmailView ls).marks ↔ x ∈ ls ∧ x ∉ systemLabels := by
    intro ls x
    unfold gmailView
    rw [List.mem_filter, decide_eq_true_eq]
  constructor
  · intro h
    refine ⟨fun harchive hmem => ?_, fun hread hmem => ?_, fun hmark x hx hcerid => ?_⟩
    · have hleft := h.left harchive
      unfold gmailView at hleft
      rw [decide_eq_false_iff_not] at hleft
      exact hleft ((mem_gmailAfter row labels _).mpr (Or.inl hmem))
    · have hisRead := h.read hread
      unfold gmailView at hisRead
      rw [decide_eq_true_eq] at hisRead
      exact hisRead ((mem_gmailAfter row labels _).mpr (Or.inl hmem))
    · exact (h.marked rfl hmark x hcerid).mp
        ((hview _ x).mpr ⟨(mem_gmailAfter row labels x).mpr (Or.inl hx), hsystem x hcerid⟩)
  · rintro ⟨harchive, hread, hmark⟩
    refine ⟨fun ha => ?_, fun ha => ?_, fun _ ha x hx => ?_, fun x hx => ?_⟩
    · unfold gmailView
      rw [decide_eq_false_iff_not, mem_gmailAfter]
      rintro (hmem | ⟨-, heq⟩)
      · exact harchive ha hmem
      · exact hinbox heq
    · unfold gmailView
      rw [decide_eq_true_eq, mem_gmailAfter]
      rintro (hmem | ⟨-, heq⟩)
      · exact hread ha hmem
      · exact hunread heq
    · rw [hview, mem_gmailAfter]
      constructor
      · rintro ⟨hmem | ⟨-, heq⟩, -⟩
        · exact hmark ha x hmem hx
        · exact heq
      · rintro rfl
        exact ⟨Or.inr ⟨ha, rfl⟩, hsystem _ hx⟩
    · rw [hview, hview, mem_gmailAfter]
      have hne : x ≠ row.category.labelName := by
        rintro rfl
        rw [isCerid_labelName] at hx
        exact Bool.noConfusion hx
      simp [hne]

/-! ## Outlook -/

/-- The decision of a proposal believes the categories that were stored. -/
theorem outlookBelieved_decisionFromRow {row : Row} (account : Option Account)
    {labels : List String} (h : row.receipt.currentLabels = some labels) :
    outlookBelieved (decisionFromRow E row account) = labels := by
  unfold outlookBelieved decisionFromRow
  rw [h]
  rfl

theorem mem_kept {current : List String} {x : String} :
    x ∈ kept current ↔ x ∈ current ∧ isCerid x = false := by
  unfold kept
  rw [List.mem_filter, Bool.not_eq_true']

/-- The categories of a message of an applied proposal. -/
theorem outlookEffect_categories {row : Row} (account : Option Account) {labels : List String}
    (h : row.receipt.currentLabels = some labels) (haction : row.action ≠ .undo)
    (s : OutlookState) :
    (outlookEffect E (decisionFromRow E row account) s).categories =
      if (row.action = .keep ∨ row.action = .archive) ∧
          kept labels ++ [row.category.labelName] ≠ labels then
        kept labels ++ [row.category.labelName]
      else s.categories := by
  have hbelieved := outlookBelieved_decisionFromRow (E := E) account h
  unfold outlookEffect outlookPatch
  dsimp only
  rw [hbelieved]
  unfold decisionFromRow outlookCategories
  cases ha : row.action with
  | keep => by_cases hsame : kept labels ++ [row.category.labelName] = labels <;> simp [hsame]
  | archive => by_cases hsame : kept labels ++ [row.category.labelName] = labels <;> simp [hsame]
  | markRead => simp
  | draft => simp
  | undo => exact absurd ha haction

theorem fold_archive (F : Text.CaseFold) : F.fold "archive" = "archive" := by
  rw [F.fold_of_all (by decide)]
  decide

theorem destinationFolder_archive (E : Env) : destinationFolder E "archive" = "archive" := by
  unfold destinationFolder
  rw [fold_archive]
  exact if_pos (by decide)

theorem outlookEffect_archived {d : Decision} (h : d.action = .archive) (s : OutlookState) :
    (outlookEffect E d s).folder = "archive" := by
  have hmove : outlookMove E.fold d = some "archive" := by
    unfold outlookMove
    rw [h]
  unfold outlookEffect
  rw [hmove]
  exact destinationFolder_archive E

theorem outlookEffect_markedRead {d : Decision} (h : d.action = .markRead) (s : OutlookState) :
    (outlookEffect E d s).isRead = true := by
  have hread : outlookRead d = some true := by
    unfold outlookRead
    rw [h]
  unfold outlookEffect
  rw [hread]
  rfl

/-- The views of an Outlook message before and after. -/
theorem outlook_filed_iff {row : Row} (account : Option Account) {labels : List String}
    (h : row.receipt.currentLabels = some labels) (haction : row.action ≠ .undo)
    (s : OutlookState) :
    Filed true row.action row.category.labelName (outlookView s)
        (outlookView (outlookEffect E (decisionFromRow E row account) s)) ↔
      (row.action = .keep ∨ row.action = .archive →
        if kept labels ++ [row.category.labelName] = labels then
          ∀ x, isCerid x = true → (x ∈ s.categories ↔ x = row.category.labelName)
        else ∀ x, isCerid x = false → (x ∈ s.categories ↔ x ∈ labels)) := by
  have hcategories := outlookEffect_categories (E := E) account h haction s
  have hleft : row.action = .archive →
      (outlookView (outlookEffect E (decisionFromRow E row account) s)).inInbox = false := by
    intro ha
    unfold outlookView
    dsimp only
    rw [outlookEffect_archived ha]
    decide
  have hread : row.action = .markRead →
      (outlookView (outlookEffect E (decisionFromRow E row account) s)).isRead = true :=
    fun ha => outlookEffect_markedRead (E := E) ha s
  have hmarks : ∀ s', (outlookView s').marks = s'.categories := fun _ => rfl
  by_cases hmark : row.action = .keep ∨ row.action = .archive
  · by_cases hsame : kept labels ++ [row.category.labelName] = labels
    · rw [if_neg (fun hand => hand.2 hsame)] at hcategories
      rw [if_pos hsame]
      constructor
      · intro hf _ x hx
        rw [← hf.marked rfl hmark x hx, hmarks, hcategories]
      · intro hc
        refine ⟨hleft, hread, fun _ _ x hx => ?_, fun x _ => ?_⟩
        · rw [hmarks, hcategories]
          exact hc hmark x hx
        · rw [hmarks, hmarks, hcategories]
    · rw [if_pos ⟨hmark, hsame⟩] at hcategories
      rw [if_neg hsame]
      have hafter : ∀ x, x ∈ (outlookView (outlookEffect E (decisionFromRow E row account) s)).marks
          ↔ (x ∈ labels ∧ isCerid x = false) ∨ x = row.category.labelName := by
        intro x
        rw [hmarks, hcategories, List.mem_append, mem_kept, List.mem_singleton]
      have hother : ∀ x, isCerid x = false → x ≠ row.category.labelName := by
        rintro x hx rfl
        rw [isCerid_labelName] at hx
        exact Bool.noConfusion hx
      constructor
      · intro hf _ x hx
        have hothers := hf.others x hx
        rw [hafter, hmarks] at hothers
        simp [hx, hother x hx] at hothers
        exact hothers.symm
      · intro hc
        refine ⟨hleft, hread, fun _ _ x hx => ?_, fun x hx => ?_⟩
        · rw [hafter]
          simp [hx]
        · rw [hafter, hmarks, hc hmark x hx]
          simp [hx, hother x hx]
  · rw [if_neg (fun hand => hmark hand.1)] at hcategories
    constructor
    · intro _ hm
      exact absurd hm hmark
    · intro _
      refine ⟨hleft, hread, fun _ hm => absurd hm hmark, fun x _ => ?_⟩
      rw [hmarks, hmarks, hcategories]

/-! ## Apple Mail -/

theorem fold_archiveMailbox (F : Text.CaseFold) : F.fold "Archive" = "archive" := by
  rw [F.fold_of_all (by decide)]
  decide

/-- A message of an applied Apple decision: the queue first, then its own commands. -/
theorem apple_filed {row : Row} {calls : List Performed} {w w' : World}
    (h : applyProposed E row false true w = (.applied calls, w'))
    (hsource : row.source = .appleMail) (id : String) (m : AppleMessage)
    (hm : w.apple.get? id = some m) :
    w'.apple.get? id =
      some (if id ∈ row.messageIds then
        appleEffect (decisionFromRow E row (rowAccount w row)) (replayOn (queuedCommands E w) id m)
      else replayOn (queuedCommands E w) id m) := by
  rcases applyProposed_applied h with h | ⟨hgmail, -⟩
  · obtain ⟨w₁, hcarries, -, -, rfl⟩ := applied_apple h hsource
    have hmap : (((planCommands (decisionFromRow E row (rowAccount w row))).map
        (fun c => ((decisionFromRow E row (rowAccount w row)).decisionId, c))).map Prod.snd) =
          planCommands (decisionFromRow E row (rowAccount w row)) := by
      rw [List.map_map]
      exact List.map_id' _
    unfold recordDecision
    dsimp only
    rw [hcarries.apple, hmap, get?_replay, flushed_apple, get?_replay, hm, Option.map_some,
      Option.map_some]
    unfold planCommands
    rw [replayOn_planCommands]
    rfl
  · exact nomatch hsource.symm.trans hgmail

/-! ## The state that a decision names -/

/-- An applied proposal leaves its thread in the state that it names just where the labels
and categories that the proposal stored are the ones on the messages. -/
theorem threadFiled_iff (E : Env) (p : Pass) (w₀ : World) (t : TriagedThread) :
    ∀ a ∈ p.attempts E w₀, ProposedFrom t a.2 → ∀ calls w',
      applyProposed E a.2 false true a.1 = (.applied calls, w') →
      (ThreadFiled E a.2 a.1 w' ↔ MeetsDecision t a.1) := by
  rintro ⟨w, row⟩ - hrow calls w' happlied
  have hundo := hrow.not_undo
  dsimp only at hrow happlied hundo ⊢
  unfold ThreadFiled MeetsDecision
  rw [← hrow.source, ← hrow.action, ← hrow.messageIds, ← hrow.category]
  have hstored := hrow.stored
  cases hsource : row.source with
  | gmail =>
    have hnil : storedLabels t = [] := by
      unfold storedLabels
      rw [← hrow.source, hsource]
    rw [hnil] at hstored
    have hfiled := gmail_filed happlied hsource hundo hstored
    have hiff : (∀ id ∈ row.messageIds, ∀ labels, w.gmail.messages.get? id = some labels →
          ∃ labels', w'.gmail.messages.get? id = some labels' ∧
            Filed true row.action row.category.labelName (gmailView labels)
              (gmailView labels')) ↔
        ∀ id ∈ row.messageIds, ∀ labels, w.gmail.messages.get? id = some labels →
          (row.action = .archive → "INBOX" ∉ labels) ∧
          (row.action = .markRead → "UNREAD" ∉ labels) ∧
          (row.action = .keep ∨ row.action = .archive →
            OnlyMark row.category.labelName labels) := by
      refine forall₂_congr (fun id hid => forall₂_congr (fun labels hlabels => ?_))
      rw [hfiled.messages, hlabels, Option.map_some, if_pos hid, ← gmail_filed_iff]
      simp
    dsimp only
    rw [hiff]
    cases ha : row.action with
    | keep => simp
    | archive => simp
    | markRead => simp
    | draft => simp
    | undo => exact absurd ha hundo
  | outlook =>
    have hiff : (∀ (n : Nat) (m : OutlookMessage), w.outlook.messages[n]? = some m →
          m.id ∈ row.messageIds → ∃ m', w'.outlook.messages[n]? = some m' ∧
            Filed true row.action row.category.labelName (outlookView m.state)
              (outlookView m'.state)) ↔
        ∀ (n : Nat) (m : OutlookMessage), w.outlook.messages[n]? = some m →
          m.id ∈ row.messageIds → (row.action = .keep ∨ row.action = .archive →
            if kept (storedLabels t) ++ [row.category.labelName] = storedLabels t then
              ∀ x, isCerid x = true → (x ∈ m.state.categories ↔ x = row.category.labelName)
            else ∀ x, isCerid x = false →
              (x ∈ m.state.categories ↔ x ∈ storedLabels t)) := by
      refine forall₂_congr (fun n m => forall₂_congr (fun hm hid => ?_))
      rcases applyProposed_applied happlied with h | ⟨hgmail, -⟩
      · obtain ⟨w₁, hthreaded, rfl⟩ := applied_outlook h hsource
        obtain ⟨m', hm', htouched⟩ := hthreaded.messages n m hm
        rw [← outlook_filed_iff (E := E) (rowAccount w row) hstored hundo,
          ← htouched.hit hid]
        constructor
        · rintro ⟨m'', hm'', hf⟩
          rw [Option.some.inj (hm'.symm.trans hm'')]
          exact hf
        · intro hf
          exact ⟨m', hm', hf⟩
      · cases hsource.symm.trans hgmail
    dsimp only
    rw [hiff]
    cases ha : row.action with
    | keep => simp
    | archive => simp
    | markRead => simp
    | draft => simp
    | undo => exact absurd ha hundo
  | appleMail =>
    dsimp only
    refine iff_of_true (fun id hid m hm => ?_) trivial
    refine ⟨_, apple_filed happlied hsource id m hm, ?_⟩
    rw [if_pos hid]
    refine ⟨fun ha => ?_, fun ha => ?_, fun hf => absurd hf Bool.false_ne_true, fun x _ => Iff.rfl⟩
    · have haction : (decisionFromRow E row (rowAccount w row)).action = .archive := ha
      unfold appleView appleEffect
      rw [haction]
      dsimp only
      rw [fold_archiveMailbox]
      decide
    · have haction : (decisionFromRow E row (rowAccount w row)).action = .markRead := ha
      unfold appleView appleEffect
      rw [haction]

end Env

/-! ## An unread newsletter in Gmail -/

/-- An account that files newsletters by itself. -/
def filingAccount : Account where
  included := true
  removed := false
  folderSort := false
  autoApply := [.newsletter]

def newsletter (action : Action) : TriagedThread where
  source := .gmail
  threadId := "t1"
  category := .newsletter
  action := action
  rows := [{ messageId := "m1", account := "a@b.c", labels := some "INBOX,UNREAD" }]

/-- The newsletter is proposed, and lies in the inbox. -/
def newsletterWorld (action : Action) : World :=
  .fresh (proposeThread (.opened .gmail "a@b.c" filingAccount) (newsletter action))
    { messages := Dict.empty.set "m1" ["INBOX", "UNREAD"], labels := [] } .empty .empty

def answered : Env := .plain (fun _ => .done)

theorem newsletter_attempt (action : Action) (h : action = .keep ∨ action = .archive) :
    ∃ a ∈ Pass.auto.attempts answered (newsletterWorld action),
      ProposedFrom (newsletter action) a.2 ∧ a.2.source = .gmail ∧ a.2.messageIds = ["m1"] ∧
        a.2.action = action ∧ a.1.gmail.messages.get? "m1" = some ["INBOX", "UNREAD"] ∧
        ∃ calls w', applyProposed answered a.2 false true a.1 = (.applied calls, w') ∧
          w'.gmail.messages.get? "m1" = some ["INBOX", "UNREAD", "Cerid/Newsletter"] := by
  have hlength : (Pass.auto.attempts answered (newsletterWorld action)).length = 1 := by
    rcases h with rfl | rfl <;> decide +kernel
  obtain ⟨a, ha⟩ := List.length_eq_one_iff.mp hlength
  have hmem : a ∈ Pass.auto.attempts answered (newsletterWorld action) := by
    rw [ha]
    exact List.mem_singleton_self a
  have hrow : ∀ a ∈ Pass.auto.attempts answered (newsletterWorld action),
      a.2 = { proposal (newsletter action) "a@b.c" with id := 0 } ∧
        a.1.gmail.messages.get? "m1" = some ["INBOX", "UNREAD"] ∧
        (applyProposed answered a.2 false true a.1).1.isApplied = true ∧
        (applyProposed answered a.2 false true a.1).2.gmail.messages.get? "m1" =
          some ["INBOX", "UNREAD", "Cerid/Newsletter"] := by
    rcases h with rfl | rfl <;> decide +kernel
  obtain ⟨hrow, hlabels, happlied, hafter⟩ := hrow a hmem
  obtain ⟨calls, w', hpair, hw'⟩ := Outcome.exists_applied happlied
  rw [← hw'] at hafter
  refine ⟨a, hmem, ?_, ?_, ?_, ?_, hlabels, calls, w', hpair, hafter⟩
  · rw [hrow]
    exact proposedFrom_proposal _ _ _
  · rw [hrow]
    rfl
  · rw [hrow]
    rcases h with rfl | rfl <;> decide +kernel
  · rw [hrow]
    rcases h with rfl | rfl <;> rfl

/-- A kept newsletter carries the label. -/
theorem threadFiled_newsletter :
    ∃ a ∈ Pass.auto.attempts answered (newsletterWorld .keep), ∃ calls w',
      applyProposed answered a.2 false true a.1 = (.applied calls, w') ∧
        ThreadFiled answered a.2 a.1 w' := by
  obtain ⟨a, ha, hrow, -, -, -, hlabels, calls, w', happlied, -⟩ :=
    newsletter_attempt .keep (Or.inl rfl)
  refine ⟨a, ha, calls, w', happlied,
    (threadFiled_iff answered .auto (newsletterWorld .keep) (newsletter .keep) a ha hrow calls w'
      happlied).mpr ?_⟩
  intro id hid labels hget x hx hcerid
  have hids : (newsletter .keep).messageIds = ["m1"] := by decide +kernel
  rw [hids, List.mem_singleton] at hid
  subst hid
  rw [hlabels] at hget
  rw [← Option.some.inj hget] at hx
  have hsystem : x = "INBOX" ∨ x = "UNREAD" := by simpa using hx
  rcases hsystem with rfl | rfl <;> exact absurd hcerid (by decide)

/-- An archived newsletter is labelled, recorded as applied, and still in the inbox. -/
theorem archived_stays_in_inbox :
    ¬ ∀ (E : Env) (p : Pass) (w₀ : World) (t : TriagedThread), ∀ a ∈ p.attempts E w₀,
      ProposedFrom t a.2 → ∀ calls w',
        applyProposed E a.2 false true a.1 = (.applied calls, w') →
        ThreadFiled E a.2 a.1 w' := by
  intro h
  obtain ⟨a, ha, hrow, hsource, hids, haction, hlabels, calls, w', happlied, hafter⟩ :=
    newsletter_attempt .archive (Or.inr rfl)
  have hfiled := h answered .auto (newsletterWorld .archive) (newsletter .archive) a ha hrow calls
    w' happlied
  unfold ThreadFiled at hfiled
  rw [hsource, hids, haction] at hfiled
  obtain ⟨labels', hlabels', hf⟩ := hfiled "m1" (List.mem_singleton.mpr rfl) _ hlabels
  rw [hafter] at hlabels'
  have hleft := hf.left rfl
  rw [← Option.some.inj hlabels'] at hleft
  exact absurd hleft (by decide)

end Cerid.Inbox
