import Cerid.Inbox.Executor
import Mathlib.Data.List.Infix

/-!
# What an apply asks of the services

A decision as it comes, with strings that nobody has checked, whatever the services reply, and with
whatever is queued for Mail.  Beside the executor this keeps every call that was made, and leaves
receipts and mailboxes out.
-/

namespace Cerid.Inbox

/-! ## Unchecked decisions -/

def Provider.parse : String → Option Provider
  | "gmail" => some .gmail
  | "outlook" => some .outlook
  | "apple_mail" => some .appleMail
  | _ => none

def Action.parse : String → Option Action
  | "keep" => some .keep
  | "archive" => some .archive
  | "mark_read" => some .markRead
  | "draft" => some .draft
  | "undo" => some .undo
  | _ => none

def Category.parse : String → Option Category
  | "urgent" => some .urgent
  | "actionable" => some .actionable
  | "personal" => some .personal
  | "newsletter" => some .newsletter
  | "promo" => some .promo
  | "spam" => some .spam
  | _ => none

/-- `UTILITIES`. -/
def utilities : List String := ["none", "correspondence", "financial"]

/-- A decision after `_prepare`. -/
structure RawDecision where
  decisionId : String
  provider : String
  action : String
  category : String
  undoneAction : String
  utility : String
  payloadKind : String
  modelText : String
  messageIds : List String
  providerMessageId : String
  account : String
  configuredAddress : String
  accountKnown : Bool
  accountIncluded : Bool
  inInbox : Option Bool
  folderSort : Bool
  mailboxBefore : String
  mailbox : String
  currentLabels : Option (List String)
  draftBody : String
  threadId : String
  subject : String

/-- `_message_ids`. -/
def rawMessageIds (d : RawDecision) : List String :=
  let ids := (d.messageIds.map strip).filter (· ≠ "")
  if ids ≠ [] then ids
  else if strip d.providerMessageId ≠ "" then [strip d.providerMessageId] else []

/-- The decision that a planner of the provider reads. -/
def RawDecision.read (d : RawDecision) (provider : Provider) (action : Action)
    (category : Category) : Decision where
  decisionId := 0
  provider := provider
  account := d.account
  threadId := d.threadId
  messageIds := rawMessageIds d
  category := category
  action := action
  folderSort := d.folderSort
  mailboxBefore :=
    if provider = .appleMail ∧ d.mailboxBefore = "" then d.mailbox else d.mailboxBefore
  currentLabels := d.currentLabels
  undoneAction := Action.parse d.undoneAction
  draftBody := d.draftBody
  subject := d.subject
  accountKnown := d.accountKnown
  accountIncluded := d.accountIncluded
  configuredAddress := d.configuredAddress

/-- `plan_apply`, with the decision that it planned. -/
def planRaw (F : Text.CaseFold) (d : RawDecision) : Except String (Decision × ApplyPlan) :=
  match Provider.parse d.provider with
  | none => .error "provider is not a mail source"
  | some provider =>
    match Action.parse d.action with
    | none => .error "action is not in the enum"
    | some action =>
      match Category.parse d.category with
      | none => .error "category is not in the enum"
      | some category =>
        let read := d.read provider action category
        let plan := planApply F read
        if plan.error ≠ "" then .error plan.error else .ok (read, plan)

/-- `name in text`. -/
def within (name text : String) : Bool := decide (name.toList <:+: text.toList)

/-- `allowlist_hook` of a tool. -/
def allowlistHook (d : RawDecision) (provider : Provider) (tool : String) : Bool :=
  !forbiddenTools.any (fun name => within name (tool ++ "\n" ++ d.modelText)) &&
    decide (tool ∈ providerTools provider)

/-- `rag_route_hook` fails nothing. -/
def ragRouteHook (d : RawDecision) : Bool :=
  let payload := if d.payloadKind = "" then "none" else d.payloadKind
  match d.utility with
  | "none" => payload = "none"
  | "financial" => payload = "card"
  | "correspondence" => payload ≠ "raw"
  | _ => false

/-- The hooks pass. -/
def hooksPass (d : RawDecision) (read : Decision) (plan : ApplyPlan) : Bool :=
  plan.calls.all (fun c => allowlistHook d read.provider c.tool) &&
    decide (d.utility ∈ utilities) &&
    (match plan.calls with
      | [] => !forbiddenTools.any fun name => within name ("\n" ++ d.modelText)
      | c :: _ => allowlistHook d read.provider c.tool) &&
    (runHooks read plan).isNone && ragRouteHook d && decide (d.decisionId ≠ "")

/-- The plan that a live apply comes to perform. -/
def performs (E : Env) (d : RawDecision) (dryRun enabled : Bool) : Option (Decision × ApplyPlan) :=
  match planRaw E.fold d with
  | .error _ => none
  | .ok (read, plan) =>
    if dryRun || !enabled || pendingAccount E read || d.inInbox == some false ||
        (refusedTool E read.provider plan).isSome || !hooksPass d read plan || plan.noop then none
    else some (read, plan)

/-! ## Calls -/

/-- What a service is asked.  A call of Gmail or Outlook that moves a message names a folder. -/
inductive Ask
  | tool (provider : Provider) (name : String) (destination : Option String)
  | apple (argv : List String)
deriving DecidableEq

def Command.argv : Command → List String
  | .flag id color => ["flag", id, color.name]
  | .read id => ["read", id]
  | .move id mailbox => ["move", id, mailbox]
  | .draft id subject body => ["draft", id, subject, body]
  | .find id => ["find", id]

/-- A row of the outbox, whoever wrote it. -/
structure Queued where
  decisionId : String
  provider : String
  commands : List (List String)
deriving DecidableEq

/-- The calls so far, and the outbox. -/
structure Desk where
  calls : List Ask
  outbox : List Queued
deriving DecidableEq

/-- What is read from the reply to the `n`-th call.  `place` is where a row that is queued then
stands among the others. -/
structure Replies where
  answer : Nat → Answer
  labels : Nat → List String
  created : Nat → Option String
  confirms : Nat → Bool
  listed : Nat → Bool
  made : Nat → Bool
  mailbox : Nat → String
  place : Nat → Nat

abbrev Asking := Exec Desk String

section Replies

variable (R : Replies)

/-- `_tool`, with the number of the call. -/
def callTool (provider : Provider) (name : String) (destination : Option String) : Asking Nat :=
  fun s =>
    if name ∈ forbiddenTools ∨ name ∉ providerTools provider then
      (.error "tool is not on the provider allowlist", s)
    else
      let n := s.calls.length
      let s' := { s with calls := s.calls ++ [.tool provider name destination] }
      match R.answer n with
      | .done => (.ok n, s')
      | answer => (.error answer.reason, s')

/-! ## Gmail -/

def ensureLabels : List String → List String → Asking (List String)
  | [], known => pure known
  | name :: rest, known =>
    if name ∈ systemLabels ∨ name ∈ known then ensureLabels rest known
    else do
      let n ← callTool R .gmail "manage_gmail_label" none
      match R.created n with
      | none => Exec.fail "label create did not return an id"
      | some label => ensureLabels rest (known ++ [label])

def askGmail : List Call → Option (List String) → Asking Unit
  | [], _ => pure ()
  | .batchModify _ _ add remove :: rest, known => do
    let known ← match known with
      | some known => pure known
      | none => do
        let n ← callTool R .gmail "list_gmail_labels" none
        pure (R.labels n)
    let known ← ensureLabels R add known
    match unknownLabel known (add ++ remove) with
    | some name => Exec.fail ("label was not created: " ++ name)
    | none => do
      let _ ← callTool R .gmail "batch_modify_gmail_message_labels" none
      askGmail rest (some known)
  | .draftGmail _ _ _ threadId :: rest, known => do
    let n ← callTool R .gmail "draft_gmail_message" none
    if threadId = "" ∨ !R.confirms n then Exec.fail "draft thread was not confirmed"
    else askGmail rest known
  | call :: rest, known => do
    let _ ← callTool R .gmail call.tool none
    askGmail rest known

/-! ## Outlook -/

variable (E : Env)

/-- `_outlook_folder`, for a folder at the top or below one. -/
def askFolder (top : Bool) : Asking Unit := do
  let n ← callTool R .outlook (if top then "list-mail-folders" else "list-mail-child-folders") none
  if R.listed n then pure ()
  else do
    let n ← callTool R .outlook
      (if top then "create-mail-folder" else "create-mail-child-folder") none
    if R.made n then pure () else Exec.fail "outlook folder was not created"

/-- `_resolve_outlook_destination`. -/
def resolveDestination (destination : String) : Asking String :=
  if E.fold.fold destination ∈ ["deleteditems", "junkemail"] then
    Exec.fail "junk and trash are not destinations"
  else if E.fold.fold destination ∈ outlookWellKnown then pure (E.fold.fold destination)
  else if '/' ∉ destination.toList then Exec.fail "outlook folder is not a Cerid mailbox"
  else do
    askFolder R true
    askFolder R false
    pure (E.folderId destination)

def askOutlook : List Call → Asking Unit
  | [] => pure ()
  | .moveMessage _ destination :: rest => do
    let folder ← resolveDestination R E destination
    let _ ← callTool R .outlook "move-mail-message" (some folder)
    askOutlook rest
  | call :: rest => do
    let _ ← callTool R .outlook call.tool none
    askOutlook rest

/-! ## Apple Mail -/

/-- `transport.apple`, with the number of the call. -/
def callApple (argv : List String) : Asking (Nat × Answer) := fun s =>
  (.ok (s.calls.length, R.answer s.calls.length), { s with calls := s.calls ++ [.apple argv] })

/-- The commands of a row.  `false` when Mail is not running. -/
def flushArgvs : List (List String) → Asking Bool
  | [] => pure true
  | argv :: rest => do
    let (_, answer) ← callApple R argv
    match answer with
    | .done => flushArgvs rest
    | .notRunning => pure false
    | .denied => Exec.fail "automation_denied"
    | .failed reason => Exec.fail reason

/-- `_flush_outbox`. -/
def flushQueued : List Queued → Asking Unit
  | [] => pure ()
  | row :: rest =>
    if row.provider ≠ "apple_mail" then flushQueued rest
    else do
      if ← flushArgvs R row.commands then do
        Exec.modify fun s : Desk =>
          { s with outbox := s.outbox.filter fun r => r.decisionId ≠ row.decisionId }
        flushQueued rest
      else pure ()

/-- `_queue`. -/
def queueArgvs (decisionId : String) (commands : List (List String)) : Asking Unit :=
  Exec.modify fun s : Desk =>
    let others := s.outbox.filter fun r => r.decisionId ≠ decisionId
    { s with
      outbox := others.take (R.place s.calls.length) ++
        { decisionId, provider := "apple_mail", commands } ::
          others.drop (R.place s.calls.length) }

def askCommands (decisionId : String) (commands : List (List String)) :
    List (List String) → Asking Unit
  | [] => pure ()
  | argv :: rest => do
    let (_, answer) ← callApple R argv
    match answer with
    | .done => askCommands decisionId commands rest
    | .notRunning => queueArgvs R decisionId commands
    | .denied => Exec.fail "automation_denied"
    | .failed reason => Exec.fail reason

/-- `_perform_apple`. -/
def askApple (decisionId mailbox : String) (commands : List Command) : Asking Unit := do
  let rows ← Exec.read Desk.outbox
  flushQueued R rows
  let argvs := commands.map Command.argv
  match commands with
  | [] => pure ()
  | first :: _ =>
    if mailbox ≠ "" then askCommands R decisionId argvs argvs
    else do
      let (_, answer) ← callApple R (Command.find first.id).argv
      match answer with
      | .done => askCommands R decisionId argvs argvs
      | .notRunning => queueArgvs R decisionId argvs
      | .denied => Exec.fail "automation_denied"
      | .failed reason => Exec.fail reason

/-! ## One decision -/

def askPlan (decisionId : String) (read : Decision) (plan : ApplyPlan) : Asking Unit :=
  match read.provider with
  | .gmail => askGmail R plan.calls none
  | .outlook => askOutlook R E plan.calls
  | .appleMail => askApple R decisionId read.mailboxBefore (plan.calls.filterMap Call.command?)

/-- The desk after `apply_decision`. -/
def askDecision (d : RawDecision) (dryRun enabled : Bool) (s : Desk) : Desk :=
  match performs E d dryRun enabled with
  | none => s
  | some (read, plan) => (askPlan R E d.decisionId read plan s).2

end Replies

/-! ## What is wanted -/

/-- What Mail and Graph take for a junk, spam or trash folder or for one below it, by the string
that a move names.  The mailboxes that the program files into are none of them. -/
structure Junk (E : Env) where
  mailbox : String → Bool
  folder : String → Bool
  archive : mailbox "Archive" = false
  sorted : ∀ c : Category, mailbox c.labelName = false
  wellKnown : ∀ name ∈ outlookWellKnown, folder name = false
  sortedFolder : ∀ c : Category, folder (E.folderId c.labelName) = false

variable {E : Env}

/-- Where a command of the helper moves a message to. -/
def moveTarget : List String → Option String
  | "move" :: _ :: mailbox :: rest => (mailbox :: rest).getLast?
  | _ => none

/-- The call is on the allowlist, and no move to a junk folder. -/
def Ask.Fine (J : Junk E) : Ask → Prop
  | .tool provider name destination => name ∉ forbiddenTools ∧ name ∈ providerTools provider ∧
      ∀ folder, destination = some folder → J.folder folder = false
  | .apple argv => ∃ name, argv.head? = some name ∧ name ∉ forbiddenTools ∧
      name ∈ providerTools .appleMail ∧
      ∀ mailbox, moveTarget argv = some mailbox → J.mailbox mailbox = false

/-- Whatever the services reply, every call of the apply is fine. -/
def Harmless (J : Junk E) (d : RawDecision) (dryRun enabled : Bool) (outbox : List Queued) : Prop :=
  ∀ R, ∀ a ∈ (askDecision R E d dryRun enabled { calls := [], outbox }).calls, a.Fine J

end Cerid.Inbox
