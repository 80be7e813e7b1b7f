import Cerid.Lib.Exec
import Cerid.Inbox.Ledger

/-!
# Performing a plan

A decision is planned, checked and, on a live apply, performed call by call.  What a call did
before a later one failed stays done.
-/

namespace Cerid.Inbox

/-- The ledger, the mailboxes, and what was asked of the services so far. -/
structure World where
  ledger : Ledger
  gmail : GmailBox
  outlook : OutlookBox
  apple : AppleBox
  asked : Nat
  queuings : Nat
  /-- The commands that Mail carried out, each with the decision it was for. -/
  performed : List (Nat × Command)

/-- A ledger and mailboxes before anything is asked. -/
def World.fresh (ledger : Ledger) (gmail : GmailBox) (outlook : OutlookBox) (apple : AppleBox) :
    World where
  ledger := ledger
  gmail := gmail
  outlook := outlook
  apple := apple
  asked := 0
  queuings := 0
  performed := []

/-- `_ApplyError`. -/
structure ApplyError where
  reason : String
  calls : List Performed

abbrev Apply := Exec World ApplyError

/-- How the performing of a plan ended. -/
inductive Effort where
  | applied (calls : List Performed)
  | queued (calls : List Performed)

def Answer.reason : Answer → String
  | done => ""
  | notRunning => "mail_not_running"
  | denied => "automation_denied"
  | failed reason => reason

section Env

variable (E : Env)

/-- One call of a tool of Gmail or Outlook.  `effect` is what it does when it is answered. -/
def useTool (call : Call) (effect : World → World) (performed : List Performed) :
    Apply (List Performed) := fun w =>
  let w' := { w with asked := w.asked + 1 }
  match E.answers w.asked with
  | .done => (.ok (performed ++ [{ call := call }]), effect w')
  | answer => (.error { reason := answer.reason, calls := performed }, w')

/-! ## Gmail -/

def systemLabels : List String := ["INBOX", "UNREAD"]

/-- `_ensure_gmail_labels`. -/
def ensureGmailLabels (account : String) :
    List String → List String → List Performed → Apply (List String × List Performed)
  | [], known, performed => pure (known, performed)
  | name :: rest, known, performed =>
    if name ∈ systemLabels ∨ name ∈ known then ensureGmailLabels account rest known performed
    else do
      let performed ← useTool E (.createLabel account name)
        (fun w => { w with gmail := w.gmail.create name }) performed
      ensureGmailLabels account rest (known ++ [name]) performed

/-- `_label_id` of every name: the first that has no id. -/
def unknownLabel (known wanted : List String) : Option String :=
  wanted.find? (fun name => name ∉ systemLabels ∧ name ∉ known)

/-- `_gmail_label_ids`, once for a plan. -/
def gmailLabelIds (account : String) :
    Option (List String) → List Performed → Apply (List String × List Performed)
  | some known, performed => pure (known, performed)
  | none, performed => do
    let performed ← useTool E (.listLabels account) id performed
    let labels ← Exec.read (fun w : World => w.gmail.labels)
    pure (labels, performed)

/-- One edit of labels, by the names of the labels. -/
def batchModify (account : String) (ids add remove known : List String)
    (performed : List Performed) : Apply (List String × List Performed) := do
  let (known, performed) ← ensureGmailLabels E account add known performed
  match unknownLabel known (add ++ remove) with
  | some name => Exec.fail { reason := "label was not created: " ++ name, calls := performed }
  | none =>
    let performed ← useTool E (.batchModify account ids add remove)
      (fun w => { w with gmail := w.gmail.modify ids add remove }) performed
    pure (known, performed)

/-- The reply to a draft has to name the thread. -/
def draftGmail (account subject body threadId : String) (performed : List Performed) :
    Apply (List Performed) := do
  let confirmed ← Exec.read (fun w : World => E.confirms w.asked)
  let performed' ← useTool E (.draftGmail account subject body threadId) id performed
  if confirmed then pure performed'
  else Exec.fail { reason := "draft thread was not confirmed", calls := performed }

def performGmail : List Call → Option (List String) → List Performed → Apply (List Performed)
  | [], _, performed => pure performed
  | .batchModify account ids add remove :: rest, known, performed => do
    let (known, performed) ← gmailLabelIds E account known performed
    let (known, performed) ← batchModify E account ids add remove known performed
    performGmail rest (some known) performed
  | .draftGmail account subject body threadId :: rest, known, performed => do
    let performed ← draftGmail E account subject body threadId performed
    performGmail rest known performed
  | _ :: _, _, performed =>
    Exec.fail { reason := "tool is not on the provider allowlist", calls := performed }

/-! ## Outlook -/

/-- `_outlook_folder`: the folder at a path, created where it is missing. -/
def outlookFolder (path : String) (performed : List Performed) : Apply (List Performed) := do
  let performed ← useTool E (.listFolders path) id performed
  let folders ← Exec.read (fun w : World => w.outlook.folders)
  if path ∈ folders then pure performed
  else
    useTool E (.createFolder path)
      (fun w => { w with outlook := w.outlook.create path }) performed

/-- `_resolve_outlook_destination`. -/
def resolveOutlookDestination (destination : String) (performed : List Performed) :
    Apply (String × List Performed) :=
  if E.fold.fold destination ∈ ["deleteditems", "junkemail"] then
    Exec.fail { reason := "junk and trash are not destinations", calls := performed }
  else if E.fold.fold destination ∈ outlookWellKnown then
    pure (E.fold.fold destination, performed)
  else if '/' ∉ destination.toList then
    Exec.fail { reason := "outlook folder is not a Cerid mailbox", calls := performed }
  else do
    let parent := String.ofList (destination.toList.takeWhile (· ≠ '/'))
    let performed ← outlookFolder E parent performed
    let performed ← outlookFolder E destination performed
    pure (E.folderId destination, performed)

/-- A change of one message.  Graph has no message under another id. -/
def editMessage (call : Call) (id : String) (f : OutlookState → OutlookState)
    (performed : List Performed) : Apply (List Performed) := do
  let found ← Exec.read (fun w : World => decide (id ∈ w.outlook.ids))
  if found then
    useTool E call (fun w => { w with outlook := w.outlook.edit id id f (.inl rfl) }) performed
  else Exec.fail { reason := "ErrorItemNotFound", calls := performed }

/-- The message under the id that Graph gives it in the folder it is moved to. -/
def moveEffect (id folder : String) (w : World) : World :=
  { w with
    outlook := w.outlook.edit id (E.newId w.outlook.used id) (fun s => { s with folder })
      (E.newId_fresh w.outlook.used id) }

def moveMessage (id destination : String) (performed : List Performed) :
    Apply (List Performed) := do
  let (folder, performed) ← resolveOutlookDestination E destination performed
  let found ← Exec.read (fun w : World => decide (id ∈ w.outlook.ids))
  let echoed ← Exec.read (fun w : World =>
    if E.echoes w.asked then E.newId w.outlook.used id else "")
  if found then do
    let _ ← useTool E (.moveMessage id folder) (moveEffect E id folder) performed
    pure (performed ++ [{ call := .moveMessage id folder, echoed }])
  else Exec.fail { reason := "ErrorItemNotFound", calls := performed }

def outlookCall (call : Call) (performed : List Performed) : Apply (List Performed) :=
  match call with
  | .patchCategories id categories =>
    editMessage E call id (fun s => { s with categories }) performed
  | .patchRead id isRead => editMessage E call id (fun s => { s with isRead }) performed
  | .moveMessage id destination => moveMessage E id destination performed
  | .replyDraft _ _ => useTool E call id performed
  | _ => Exec.fail { reason := "tool is not on the provider allowlist", calls := performed }

def performOutlook : List Call → List Performed → Apply (List Performed)
  | [], performed => pure performed
  | call :: rest, performed => do
    let performed ← outlookCall E call performed
    performOutlook rest performed

/-- Message ids after the moves.  Empty when nothing moved, or when a move did not echo an
id. -/
def outlookIdsAfter (performed : List Performed) : List String :=
  let moves := performed.filter (fun p => p.call.isMove)
  if moves.any (fun p => p.echoed = "") then [] else moves.map Performed.echoed

/-! ## Apple Mail -/

/-- What the helper answers.  It finds no message under another id. -/
def reply (w : World) (id : String) : Answer :=
  match E.answers w.asked with
  | .done => if (w.apple.get? id).isSome then .done else .failed "message not found"
  | answer => answer

/-- One command of a decision. -/
def tell (decisionId : Nat) (c : Command) : Apply Answer := fun w =>
  let w' := { w with asked := w.asked + 1 }
  match reply E w c.id with
  | .done => (.ok .done,
      { w' with apple := c.run w.apple, performed := (decisionId, c) :: w.performed })
  | answer => (.ok answer, w')

/-- The mailbox of a message. -/
def find (id : String) : Apply (Answer × String) := fun w =>
  (.ok (reply E w id, ((w.apple.get? id).map AppleMessage.mailbox).getD ""),
    { w with asked := w.asked + 1 })

/-- The commands of one queued row.  `false` when Mail is not running. -/
def flushCommands (decisionId : Nat) : List Command → Apply Bool
  | [] => pure true
  | c :: rest => do
    match ← tell E decisionId c with
    | .done => flushCommands decisionId rest
    | .notRunning => pure false
    | .denied => Exec.fail { reason := "automation_denied", calls := [] }
    | .failed reason => Exec.fail { reason, calls := [] }

def flushRows : List OutboxRow → Apply Unit
  | [] => pure ()
  | row :: rest => do
    if ← flushCommands E row.decisionId row.commands then do
      Exec.modify (fun w : World => { w with ledger := w.ledger.deleteOutbox row })
      flushRows rest
    else pure ()

/-- `_flush_outbox`. -/
def flushOutbox : Apply Unit := do
  let rows ← Exec.read (fun w : World => w.ledger.outbox)
  flushRows E rows

/-- `_queue`. -/
def queue (decisionId : Nat) (commands : List Command) : Apply Unit :=
  Exec.modify (fun w : World =>
    { w with
      ledger := w.ledger.enqueueOutbox { decisionId, commands } (E.place w.queuings)
      queuings := w.queuings + 1 })

/-- The commands of a decision, in order.  All of them are queued when Mail is not running. -/
def performCommands (decisionId : Nat) (commands : List Command) :
    List Command → List Performed → Apply Effort
  | [], performed => pure (.applied performed)
  | c :: rest, performed => do
    match ← tell E decisionId c with
    | .done => performCommands decisionId commands rest (performed ++ [{ call := .apple c }])
    | .notRunning => do
      queue E decisionId commands
      pure (.queued performed)
    | .denied => Exec.fail { reason := "automation_denied", calls := performed }
    | .failed reason => Exec.fail { reason, calls := performed }

/-- Every apply records where the message was, so a later undo can put it back.  `false`
when Mail is not running. -/
def recordMailbox (d : Decision) (commands : List Command) : Apply Bool :=
  match commands with
  | [] => pure true
  | first :: _ =>
    if d.mailboxBefore ≠ "" then pure true
    else do
      let (answer, mailbox) ← find E first.id
      match answer with
      | .done =>
        if mailbox ≠ "" then
          Exec.modify (fun w : World =>
            { w with ledger := w.ledger.setMailboxBefore d.decisionId mailbox })
        pure true
      | .notRunning => pure false
      | .denied => Exec.fail { reason := "automation_denied", calls := [] }
      | .failed reason => Exec.fail { reason, calls := [] }

def Call.command? : Call → Option Command
  | apple c => some c
  | _ => none

/-- `_perform_apple`. -/
def performApple (d : Decision) (plan : ApplyPlan) : Apply Effort := do
  flushOutbox E
  let commands := plan.calls.filterMap Call.command?
  if ← recordMailbox E d commands then performCommands E d.decisionId commands commands []
  else do
    queue E d.decisionId commands
    pure (.queued [{ call := .apple (.find ((commands.map Command.id).headD "")) }])

/-! ## One decision -/

inductive Outcome where
  | disabled
  | skipped (reason : String)
  | failed (reason : String)
  | noop
  | dryRun (calls : List Call)
  | queued (calls : List Performed)
  | applied (calls : List Performed)

def Outcome.isApplied : Outcome → Bool
  | applied _ => true
  | _ => false

/-- The pair of an apply that performed its plan. -/
theorem Outcome.exists_applied {p : Outcome × World} (h : p.1.isApplied = true) :
    ∃ calls w', p = (.applied calls, w') ∧ w' = p.2 := by
  obtain ⟨o, w'⟩ := p
  cases o with
  | applied calls => exact ⟨calls, w', rfl, rfl⟩
  | _ => exact nomatch h

/-- `_pending_account`. -/
def pendingAccount (d : Decision) : Bool :=
  let configured := E.fold.fold (strip d.configuredAddress)
  let account := E.fold.fold (strip d.account)
  configured ≠ "" && account ≠ "" && configured ≠ account

/-- `_banned_mailbox`. -/
def bannedMailbox (mailbox : String) : Bool :=
  E.fold.fold (strip mailbox) ∈
    ["junk", "junk email", "spam", "trash", "deleted messages", "deleted items"]

/-- `_refused_tool`. -/
def refusedTool (provider : Provider) (plan : ApplyPlan) : Option String :=
  if plan.calls.any (fun c => c.tool ∈ forbiddenTools || c.tool ∉ providerTools provider) then
    some "tool is not on the provider allowlist"
  else if plan.calls.any (fun
      | .moveMessage _ destination => E.fold.fold destination ∈ ["deleteditems", "junkemail"]
      | .apple (.move _ mailbox) => bannedMailbox E mailbox
      | _ => false) then
    some "junk and trash are not destinations"
  else none

/-- The hooks that a planned decision can fail: the account, and the folder policy. -/
def runHooks (d : Decision) (plan : ApplyPlan) : Option String :=
  if !d.accountKnown || (d.action ≠ .undo && !d.accountIncluded) then
    some "account is not connected and included"
  else if strip d.account = "" then some "account is missing"
  else if plan.move && !moves d.action d.folderSort then
    some "move requested while folder sorting is off"
  else none

/-- What `_record` keeps of the decision in the receipt. -/
def keptReceipt (d : Decision) (receipt : Receipt) : Receipt :=
  { receipt with
    draftBody := strip d.draftBody
    subject := strip d.subject
    classificationReason := strip d.classificationReason }

def recordDecision (d : Decision) (verdict : Verdict) (receipt : Receipt) (w : World) : World :=
  { w with ledger := w.ledger.record d.decisionId verdict (keptReceipt d receipt) }

def perform (d : Decision) (plan : ApplyPlan) : Apply Effort :=
  match d.provider with
  | .gmail => do return .applied (← performGmail E plan.calls none [])
  | .outlook => do return .applied (← performOutlook E plan.calls [])
  | .appleMail => performApple E d plan

/-- The receipt of a performed plan. -/
def appliedReceipt (d : Decision) (plan : ApplyPlan) (calls : List Performed) : Receipt :=
  { calls := some calls
    currentLabels := plan.labelsAfter
    messageIds := if d.provider = .outlook then outlookIdsAfter calls else [] }

/-- A checked plan, performed and recorded. -/
def performAndRecord (d : Decision) (plan : ApplyPlan) (w : World) : Outcome × World :=
  match perform E d plan w with
  | (.ok (.applied calls), w') =>
    (.applied calls, recordDecision d .applied (appliedReceipt d plan calls) w')
  | (.ok (.queued calls), w') => (.queued calls, w')
  | (.error e, w') => (.failed e.reason, recordDecision d .failed { calls := some e.calls } w')

/-- `apply_decision`: plan one decision and, only when asked, perform it. -/
def applyDecision (d : Decision) (dryRun enabled : Bool) (w : World) : Outcome × World :=
  if !dryRun && !enabled then (.disabled, w)
  else if pendingAccount E d then (.skipped "pending_account", w)
  else
    let plan := planApply E.fold d
    if plan.error ≠ "" then
      (.failed plan.error, if dryRun then w else recordDecision d .failed {} w)
    else
      match refusedTool E d.provider plan with
      | some reason => (.failed reason, w)
      | none =>
        match runHooks d plan with
        | some reason => (.failed reason, w)
        | none =>
          if plan.noop then (.noop, w)
          else if dryRun then (.dryRun plan.calls, w)
          else performAndRecord E d plan w

/-- How a live apply ends: at a check, with nothing to do, or with its plan performed. -/
theorem applyDecision_cases (d : Decision) (w : World) :
    (∃ reason, applyDecision E d false true w = (.skipped reason, w)) ∨
    (∃ reason, applyDecision E d false true w = (.failed reason, w)) ∨
    (∃ reason, applyDecision E d false true w = (.failed reason, recordDecision d .failed {} w)) ∨
    ((planApply E.fold d).error = "" ∧ (planApply E.fold d).noop = true ∧
      applyDecision E d false true w = (.noop, w)) ∨
    ((planApply E.fold d).error = "" ∧ (planApply E.fold d).noop = false ∧
      applyDecision E d false true w = performAndRecord E d (planApply E.fold d) w) := by
  unfold applyDecision
  rw [if_neg (by decide)]
  by_cases hpending : pendingAccount E d = true
  · rw [if_pos hpending]
    exact Or.inl ⟨_, rfl⟩
  rw [if_neg hpending]
  dsimp only
  by_cases herror : (planApply E.fold d).error ≠ ""
  · rw [if_pos herror]
    exact Or.inr (Or.inr (Or.inl ⟨_, rfl⟩))
  rw [if_neg herror]
  cases refusedTool E d.provider (planApply E.fold d) with
  | some reason => exact Or.inr (Or.inl ⟨reason, rfl⟩)
  | none =>
    cases runHooks d (planApply E.fold d) with
    | some reason => exact Or.inr (Or.inl ⟨reason, rfl⟩)
    | none =>
      cases hnoop : (planApply E.fold d).noop with
      | true => exact Or.inr (Or.inr (Or.inr (Or.inl ⟨not_not.mp herror, rfl, rfl⟩)))
      | false => exact Or.inr (Or.inr (Or.inr (Or.inr ⟨not_not.mp herror, rfl, rfl⟩)))

/-- An apply that performed its plan. -/
theorem applyDecision_applied {d : Decision} {w w' : World} {calls : List Performed}
    (h : applyDecision E d false true w = (.applied calls, w')) :
    ∃ w₁, perform E d (planApply E.fold d) w = (.ok (.applied calls), w₁) ∧
      w' = recordDecision d .applied (appliedReceipt d (planApply E.fold d) calls) w₁ ∧
      (planApply E.fold d).error = "" ∧ (planApply E.fold d).noop = false := by
  rcases applyDecision_cases E d w with ⟨_, h'⟩ | ⟨_, h'⟩ | ⟨_, h'⟩ | ⟨-, -, h'⟩ |
    ⟨herror, hnoop, h'⟩
  · exact nomatch congrArg Prod.fst (h'.symm.trans h)
  · exact nomatch congrArg Prod.fst (h'.symm.trans h)
  · exact nomatch congrArg Prod.fst (h'.symm.trans h)
  · exact nomatch congrArg Prod.fst (h'.symm.trans h)
  · have hperform := h'.symm.trans h
    unfold performAndRecord at hperform
    split at hperform
    · next calls' w₁ heq =>
      rw [Prod.mk.injEq, Outcome.applied.injEq] at hperform
      obtain ⟨rfl, rfl⟩ := hperform
      exact ⟨w₁, heq, rfl, herror, hnoop⟩
    · exact nomatch congrArg Prod.fst hperform
    · exact nomatch congrArg Prod.fst hperform

/-- A decision with nothing to do: no check failed, and nothing was touched. -/
theorem applyDecision_noop {d : Decision} {w w' : World}
    (h : applyDecision E d false true w = (.noop, w')) :
    w' = w ∧ (planApply E.fold d).error = "" ∧ (planApply E.fold d).noop = true := by
  rcases applyDecision_cases E d w with ⟨_, h'⟩ | ⟨_, h'⟩ | ⟨_, h'⟩ | ⟨herror, hnoop, h'⟩ |
    ⟨-, -, h'⟩
  · exact nomatch congrArg Prod.fst (h'.symm.trans h)
  · exact nomatch congrArg Prod.fst (h'.symm.trans h)
  · exact nomatch congrArg Prod.fst (h'.symm.trans h)
  · exact ⟨(congrArg Prod.snd (h'.symm.trans h)).symm, herror, hnoop⟩
  · have hperform := h'.symm.trans h
    unfold performAndRecord at hperform
    split at hperform
    · exact nomatch congrArg Prod.fst hperform
    · exact nomatch congrArg Prod.fst hperform
    · exact nomatch congrArg Prod.fst hperform

end Env

end Cerid.Inbox
