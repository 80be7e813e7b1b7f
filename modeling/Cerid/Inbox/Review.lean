import Cerid.Inbox.Executor

/-!
# The review queue

A triaged thread is proposed as a row of the ledger; a row is loaded as a decision, applied,
and undone.  A pass applies several rows, one after the other.
-/

namespace Cerid.Inbox

/-! ## What a pass reads -/

/-- The metadata of one message.  A key that is not there is `none`. -/
structure MessageRow where
  messageId : String
  account : String := ""
  mailbox : Option String := none
  labels : Option String := none
  categories : Option String := none
  flag : Option String := none
  folder : Option String := none
  sender : String := ""
  deriving DecidableEq, Repr

structure Observation where
  mailbox : Option String := none
  labels : Option String := none
  categories : Option String := none
  flag : Option String := none
  folder : Option String := none
  deriving DecidableEq, Repr

/-- What a later message shows replaces what an earlier one showed. -/
def Observation.add (o : Observation) (row : MessageRow) : Observation where
  mailbox := (row.mailbox.map strip).or o.mailbox
  labels := (row.labels.map strip).or o.labels
  categories := (row.categories.map strip).or o.categories
  flag := (row.flag.map strip).or o.flag
  folder := (row.folder.map strip).or o.folder

structure TriagedThread where
  source : Provider
  threadId : String
  category : Category
  action : Action
  needsReview : Bool := false
  writable : Bool := true
  draftBody : String := ""
  subject : String := ""
  classificationReason : String := ""
  rows : List MessageRow

namespace TriagedThread

/-- The first of some texts that is not blank. -/
def firstText (texts : List String) : String := ((texts.map strip).find? (· ≠ "")).getD ""

def messageIds (t : TriagedThread) : List String :=
  t.rows.foldl (fun ids row =>
    let id := strip row.messageId
    if id ≠ "" ∧ id ∉ ids then ids ++ [id] else ids) []

def account (t : TriagedThread) : String := firstText (t.rows.map MessageRow.account)

/-- `meta.get("mailbox") or meta.get("folder") or ""`. -/
def shownMailbox (row : MessageRow) : String :=
  if row.mailbox.getD "" ≠ "" then row.mailbox.getD "" else row.folder.getD ""

def mailbox (t : TriagedThread) : String := firstText (t.rows.map shownMailbox)

def observation (t : TriagedThread) : Observation := t.rows.foldl Observation.add {}

def sender (t : TriagedThread) : String :=
  ((t.rows.map MessageRow.sender).reverse.find? (· ≠ "")).getD ""

end TriagedThread

/-! ## Proposals -/

/-- `_clamp`. -/
def clamp (action : Action) : Action := if action ∈ modelActions then action else .keep

/-- The categories a proposal stores, as the thread showed them. -/
def storedLabels (t : TriagedThread) : List String :=
  match t.source with
  | .outlook => names (t.observation.categories.getD "")
  | .gmail | .appleMail => []

/-- The row of a proposal. -/
def proposal (t : TriagedThread) (account : String) : Row where
  id := 0
  account := account
  source := t.source
  threadId := t.threadId
  messageIds := t.messageIds
  category := t.category
  action := clamp t.action
  needsReview := t.needsReview
  status := .proposed
  receipt :=
    { currentLabels := some (storedLabels t)
      draftBody := strip t.draftBody
      subject := strip t.subject
      classificationReason := strip t.classificationReason }
  mailboxBefore := t.mailbox

/-- `_sole_account`. -/
def soleAccount (l : Ledger) (source : Provider) : String :=
  match l.accounts.items.filter (fun p => p.1.1 = source && p.2.included && !p.2.removed) with
  | [p] => p.1.2
  | _ => ""

/-- `propose_triage` of one thread. -/
def proposeThread (l : Ledger) (t : TriagedThread) : Ledger :=
  let account := if t.account ≠ "" then t.account else soleAccount l t.source
  match l.accounts.get? (t.source, account) with
  | some a =>
    if t.writable ∧ t.messageIds ≠ [] ∧ account ≠ "" ∧ a.included ∧ ¬ a.removed then
      l.propose (proposal t account)
    else l
  | none => l

def proposeTriage (l : Ledger) (threads : List TriagedThread) : Ledger :=
  threads.foldl proposeThread l

/-! ## Decisions from rows -/

section Env

variable (E : Env)

def decisionFromRow (row : Row) (account : Option Account) : Decision where
  decisionId := row.id
  provider := row.source
  account := row.account
  threadId := row.threadId
  messageIds := row.messageIds
  category := row.category
  action := row.action
  folderSort := account.any Account.folderSort
  mailboxBefore := row.mailboxBefore
  currentLabels := row.receipt.currentLabels
  draftBody := strip row.receipt.draftBody
  subject := strip row.receipt.subject
  classificationReason := strip row.receipt.classificationReason
  accountKnown := account.isSome
  accountIncluded := account.any (fun a => a.included && !a.removed)
  configuredAddress := if row.source = .gmail then strip E.configured else ""

/-- Whether one recorded call took the message out of the inbox. -/
def Call.leftInbox (c : Call) : Bool :=
  match c with
  | .batchModify _ _ _ remove => "INBOX" ∈ remove
  | .moveMessage _ destination =>
    destination ≠ "" && E.fold.fold destination ∉ outlookWellKnown
  | .apple (.move _ mailbox) => isCerid mailbox
  | _ => false

/-- A keep that filed into Cerid/<Category>, including after sorting is turned off. -/
def sortedKeep (row : Row) (account : Option Account) : Bool :=
  row.action = .keep &&
    match row.receipt.calls with
    | some calls => calls.any (fun p => p.call.leftInbox E)
    | none => account.any Account.folderSort

/-- `_moved`. -/
def moved (row : Row) (account : Option Account) : Bool :=
  row.action = .archive || sortedKeep E row account

/-- `_labels_for_undo`. -/
def labelsForUndo (row : Row) (account : Option Account) : List String :=
  match row.receipt.currentLabels with
  | some labels => labels
  | none =>
    (if row.source = .gmail && !moved E row account then ["INBOX"] else []) ++
    (if row.action = .keep ∨ row.action = .archive then [row.category.labelName] else [])

/-- Where an undo moves the messages back to. -/
def undoMailbox (row : Row) (account : Option Account) : String :=
  let before := strip row.mailboxBefore
  if row.source = .outlook then
    if moved E row account then (if before ≠ "" then before else "inbox") else ""
  else if before = "" then "INBOX" else row.mailboxBefore

def undoFromRow (row : Row) (account : Option Account) : Decision :=
  { decisionFromRow E row account with
    action := .undo
    undoneAction := some row.action
    currentLabels := some (labelsForUndo E row account)
    messageIds := if row.receipt.messageIds ≠ [] then row.receipt.messageIds else row.messageIds
    mailboxBefore := undoMailbox E row account }

/-! ## Applying and undoing -/

def rowAccount (w : World) (row : Row) : Option Account :=
  w.ledger.accounts.get? (row.source, row.account)

/-- The receipt of a decision that had nothing to do. -/
def noopReceipt (row : Row) : Receipt :=
  { calls := some [], classificationReason := strip row.receipt.classificationReason }

/-- `_apply_proposed`. -/
def applyProposed (row : Row) (dryRun enabled : Bool) (w : World) : Outcome × World :=
  match applyDecision E (decisionFromRow E row (rowAccount w row)) dryRun enabled w with
  | (.noop, w') =>
    if dryRun then (.noop, w')
    else (.applied [], { w' with ledger := w'.ledger.record row.id .applied (noopReceipt row) })
  | result => result

/-- `apply_ids`, on the ids that the cap leaves. -/
def applyIdsFrom (dryRun enabled : Bool) : List Nat → World → List Outcome × World
  | [], w => ([], w)
  | id :: rest, w =>
    match w.ledger.getDecision id with
    | some row =>
      if row.status = .proposed then
        let tried := applyProposed E row dryRun enabled w
        let others := applyIdsFrom dryRun enabled rest tried.2
        (tried.1 :: others.1, others.2)
      else
        let others := applyIdsFrom dryRun enabled rest w
        (.skipped "not proposed" :: others.1, others.2)
    | none =>
      let others := applyIdsFrom dryRun enabled rest w
      (.skipped "not proposed" :: others.1, others.2)

/-- `APPLY_CAP`. -/
def applyCap : Nat := 50

/-- `apply_ids`. -/
def applyIds (ids : List Nat) (dryRun enabled : Bool) (w : World) : List Outcome × World :=
  applyIdsFrom E dryRun enabled (ids.take applyCap) w

/-- `_eligible`. -/
def eligible (row : Row) (account : Option Account) : Bool :=
  !row.needsReview && row.action ∈ [Action.keep, .archive, .markRead] &&
    account.any (fun a => a.included && !a.removed && row.category ∈ a.autoApply)

/-- The rows of an automatic pass, as many as the cap leaves. -/
def autoApplyFrom : List Row → Nat → World → List Outcome × World
  | [], _, w => ([], w)
  | row :: rest, cap, w =>
    if cap = 0 then ([], w)
    else if eligible row (rowAccount w row) then
      let tried := applyProposed E row false true w
      let others := autoApplyFrom rest (cap - 1) tried.2
      (tried.1 :: others.1, others.2)
    else autoApplyFrom rest cap w

/-- `auto_apply_pass`, with the outcome of every row that was tried. -/
def autoApplyPass (enabled : Bool) (w : World) : List Outcome × World :=
  if enabled then autoApplyFrom E (w.ledger.listProposed 10000) applyCap w else ([], w)

/-- The row that an undo proposes. -/
def undoRow (row : Row) (undo : Decision) : Row :=
  { row with
    action := .undo
    status := .proposed
    receipt := {}
    mailboxBefore := undo.mailboxBefore }

/-- `undo_decision`: undo one applied row.  A dry-run, or the flag off, does not add a queue
row. -/
def undoDecision (id : Nat) (dryRun enabled : Bool) (w : World) : Outcome × World :=
  match w.ledger.getDecision id with
  | none => (.skipped "not applied", w)
  | some row =>
    if row.status ≠ .recorded .applied then (.skipped "not applied", w)
    else
      let undo := undoFromRow E row (rowAccount w row)
      if dryRun || !enabled then applyDecision E undo dryRun enabled w
      else
        let undoId := w.ledger.decisions.length
        let proposed := { w with ledger := w.ledger.propose (undoRow row undo) }
        match applyDecision E { undo with decisionId := undoId } false true proposed with
        | (.applied calls, w') =>
          (.applied calls, { w' with ledger := w'.ledger.record id .undone {} })
        | result => result

/-! ## What a pass tries -/

/-- The rows that `apply_ids` tries, each with the world that it is tried in. -/
def idAttempts : List Nat → World → List (World × Row)
  | [], _ => []
  | id :: rest, w =>
    match w.ledger.getDecision id with
    | some row =>
      if row.status = .proposed then
        (w, row) :: idAttempts rest (applyProposed E row false true w).2
      else idAttempts rest w
    | none => idAttempts rest w

/-- The rows that `auto_apply_pass` tries. -/
def autoAttempts : List Row → Nat → World → List (World × Row)
  | [], _, _ => []
  | row :: rest, cap, w =>
    if cap = 0 then []
    else if eligible row (rowAccount w row) then
      (w, row) :: autoAttempts rest (cap - 1) (applyProposed E row false true w).2
    else autoAttempts rest cap w

/-- A pass on a set of ids, or an automatic one. -/
inductive Pass where
  | ids (chosen : List Nat)
  | auto
  deriving DecidableEq, Repr

def Pass.run : Pass → World → World
  | ids chosen, w => (applyIds E chosen false true w).2
  | auto, w => (autoApplyPass E true w).2

def Pass.attempts : Pass → World → List (World × Row)
  | ids chosen, w => idAttempts E (chosen.take applyCap) w
  | auto, w => autoAttempts E (w.ledger.listProposed 10000) applyCap w

end Env

end Cerid.Inbox
