import Mathlib.Data.List.Dedup
import Mathlib.Data.List.Sort
import Cerid.Inbox.Actions

/-!
# Apply plans

One decision is mapped onto calls of its provider.  For Gmail and Outlook the plan is what
must change of the labels that the decision believes are on the messages.
-/

namespace Cerid.Inbox

/-- A command of the Mail helper. -/
inductive Command where
  | flag (id : String) (color : Color)
  | read (id : String)
  | move (id mailbox : String)
  | draft (id subject body : String)
  | find (id : String)
  deriving DecidableEq, Repr

/-- A call of a provider.  The ones that look up or create a label or a folder are made while
a plan is performed. -/
inductive Call where
  | batchModify (account : String) (ids add remove : List String)
  | draftGmail (account subject body threadId : String)
  | patchCategories (id : String) (categories : List String)
  | patchRead (id : String) (isRead : Bool)
  | moveMessage (id destination : String)
  | replyDraft (id comment : String)
  | apple (command : Command)
  | listLabels (account : String)
  | createLabel (account name : String)
  | listFolders (path : String)
  | createFolder (path : String)
  deriving DecidableEq, Repr

def Command.tool : Command → String
  | flag .. => "flag"
  | read .. => "read"
  | move .. => "move"
  | draft .. => "draft"
  | find .. => "find"

def Call.tool : Call → String
  | batchModify .. => "batch_modify_gmail_message_labels"
  | draftGmail .. => "draft_gmail_message"
  | patchCategories .. | patchRead .. => "update-mail-message"
  | moveMessage .. => "move-mail-message"
  | replyDraft .. => "create-reply-draft"
  | apple command => command.tool
  | listLabels .. => "list_gmail_labels"
  | createLabel .. => "manage_gmail_label"
  | listFolders path => if '/' ∈ path.toList then "list-mail-child-folders" else "list-mail-folders"
  | createFolder path =>
    if '/' ∈ path.toList then "create-mail-child-folder" else "create-mail-folder"

structure ApplyPlan where
  calls : List Call := []
  move : Bool := false
  noop : Bool := false
  error : String := ""
  /-- Labels or categories on the message once the calls have run, where the plan tracks
  them. -/
  labelsAfter : Option (List String) := none

/-- A decision as the planner and the executor read it. -/
structure Decision where
  decisionId : Nat
  provider : Provider
  account : String
  threadId : String
  messageIds : List String
  category : Category
  action : Action
  folderSort : Bool
  mailboxBefore : String
  currentLabels : Option (List String)
  undoneAction : Option Action := none
  draftBody : String := ""
  subject : String := ""
  classificationReason : String := ""
  accountKnown : Bool
  accountIncluded : Bool
  configuredAddress : String := ""

/-- The subject of a draft. -/
def titled (subject : String) : String := if subject = "" then "(no subject)" else subject

/-- `sorted` of a set. -/
def sorted (xs : List String) : List String := xs.dedup.insertionSort (· ≤ ·)

theorem mem_sorted {xs : List String} {x : String} : x ∈ sorted xs ↔ x ∈ xs := by
  unfold sorted
  rw [List.mem_insertionSort, List.mem_dedup]

/-! ## Gmail -/

/-- The labels that an action adds and takes away, whatever is on the message. -/
def gmailWanted (action : Action) (category : Category) (folderSort : Bool)
    (cerid : List String) (undoneAction : Option Action) : List String × List String :=
  let label := category.labelName
  match action with
  | .archive => ([label], "INBOX" :: cerid.filter (· ≠ label))
  | .keep => ([label], cerid.filter (· ≠ label) ++ (if folderSort then ["INBOX"] else []))
  | .markRead => ([], ["UNREAD"])
  | .undo =>
    ("INBOX" :: (if undoneAction = some .markRead then ["UNREAD"] else []),
      if cerid = [] then [label] else cerid)
  | .draft => ([], [])

/-- Label names to add and remove.  `none` when the mailbox already matches. -/
def gmailDelta (action : Action) (category : Category) (folderSort : Bool)
    (currentLabels : List String) (undoneAction : Option Action) :
    Option (List String × List String) :=
  let wanted := gmailWanted action category folderSort (currentLabels.filter isCerid) undoneAction
  let add := wanted.1.filter (· ∉ currentLabels)
  let remove := wanted.2.filter (· ∈ currentLabels)
  if add = [] ∧ remove = [] then none else some (sorted add, sorted remove)

/-- Labels we believe are on the message.  Absent means still in the inbox. -/
def gmailBelieved (d : Decision) : List String := d.currentLabels.getD ["INBOX", "UNREAD"]

def planGmail (d : Decision) : ApplyPlan :=
  if d.action = .draft then
    if strip d.draftBody = "" then { error := "draft body is missing" }
    else if strip d.threadId = "" then { error := "thread id is required" }
    else
      { calls := [.draftGmail d.account (titled d.subject) (strip d.draftBody) (strip d.threadId)] }
  else
    let current := gmailBelieved d
    match gmailDelta d.action d.category d.folderSort current d.undoneAction with
    | none => { noop := true }
    | some (add, remove) =>
      { calls := [.batchModify d.account d.messageIds add remove]
        move := decide ("INBOX" ∈ add ∨ "INBOX" ∈ remove)
        labelsAfter := some (sorted (current.filter (· ∉ remove) ++ add)) }

/-! ## Outlook -/

/-- Categories we believe are on the message.  Absent means none. -/
def outlookBelieved (d : Decision) : List String := d.currentLabels.getD []

/-- The operator's own categories. -/
def kept (current : List String) : List String := current.filter (fun name => !isCerid name)

def outlookCategories (action : Action) (category : Category) (current : List String) :
    List String :=
  match action with
  | .keep | .archive => kept current ++ [category.labelName]
  | .undo => kept current
  | .markRead | .draft => current

section Fold

variable (F : Text.CaseFold)

/-- Where the message was before it moved.  Empty means it never left its folder. -/
def folderBefore (d : Decision) : String :=
  let before := strip d.mailboxBefore
  if F.fold before ∈ outlookWellKnown then F.fold before else before

/-- The calls for one message. -/
def outlookCalls (d : Decision) (id : String) : List Call :=
  let current := outlookBelieved d
  let categories := outlookCategories d.action d.category current
  (if categories ≠ current then [.patchCategories id categories] else []) ++
  (match d.action with
    | .markRead => [.patchRead id true]
    | .undo =>
      (if d.undoneAction = some .markRead then [.patchRead id false] else []) ++
      (if folderBefore F d ≠ "" then [.moveMessage id (folderBefore F d)] else [])
    | _ => []) ++
  (match d.action with
    | .keep => if d.folderSort then [.moveMessage id d.category.labelName] else []
    | .archive => [.moveMessage id "archive"]
    | _ => [])

def Call.isMove : Call → Bool
  | moveMessage .. => true
  | apple (.move ..) => true
  | _ => false

def planOutlook (d : Decision) : ApplyPlan :=
  if d.action = .draft then
    if strip d.draftBody = "" then { error := "draft body is missing" }
    else { calls := [.replyDraft (d.messageIds.headD "") (strip d.draftBody)] }
  else
    let calls := d.messageIds.flatMap (outlookCalls F d)
    { calls := calls
      move := calls.any Call.isMove
      labelsAfter := some (outlookCategories d.action d.category (outlookBelieved d)) }

/-! ## Apple Mail -/

def bannedMailboxes : List String :=
  ["junk", "junk email", "junk e-mail", "spam", "trash", "deleted messages", "deleted items"]

/-- Provider Junk, Spam, and Trash.  Cerid/Spam is a sort folder, not Junk. -/
def banned (mailbox : String) : Bool :=
  let text := strip mailbox
  if "cerid/".toList.isPrefixOf (F.fold text).toList then false
  else (text.toList.splitOn '/').any (fun part => F.fold (String.ofList part) ∈ bannedMailboxes)

/-- The mailbox an undo moves back to. -/
def mailboxBack (d : Decision) : String := if d.mailboxBefore = "" then "INBOX" else d.mailboxBefore

/-- The commands for one message. -/
def appleCommands (d : Decision) (id : String) : List Command :=
  match d.action with
  | .keep =>
    .flag id d.category.flagColor ::
      (if d.folderSort then [.move id d.category.labelName] else [])
  | .archive => [.move id "Archive"]
  | .markRead => [.read id]
  | .draft => [.draft id (titled d.subject) d.draftBody]
  | .undo => [.move id (mailboxBack d)]

def planApple (d : Decision) : ApplyPlan :=
  if d.action = .undo ∧ banned F (mailboxBack d) then
    { error := "junk and trash are not destinations" }
  else if d.action = .draft ∧ strip d.draftBody = "" then { error := "draft body is missing" }
  else if d.action = .keep ∧ d.folderSort ∧ banned F d.category.labelName then
    { error := "junk and trash are not destinations" }
  else
    let calls := d.messageIds.flatMap (fun id => (appleCommands d id).map Call.apple)
    { calls := calls, move := calls.any Call.isMove }

/-- Map one decision onto the provider allowlist. -/
def planApply (d : Decision) : ApplyPlan :=
  if d.messageIds = [] then { error := "message id is required" }
  else
    match d.provider with
    | .gmail => planGmail d
    | .outlook => planOutlook F d
    | .appleMail => planApple F d

theorem planGmail_tool (d : Decision) {c : Call} (h : c ∈ (planGmail d).calls) :
    c.tool = "draft_gmail_message" ∨ c.tool = "batch_modify_gmail_message_labels" := by
  unfold planGmail at h
  split at h
  · split_ifs at h
    · exact absurd h List.not_mem_nil
    · exact absurd h List.not_mem_nil
    · rw [List.mem_singleton.mp h]
      exact Or.inl rfl
  · dsimp only at h
    split at h
    · exact absurd h List.not_mem_nil
    · rw [List.mem_singleton.mp h]
      exact Or.inr rfl

theorem outlookCalls_tool (d : Decision) (id : String) {c : Call} (h : c ∈ outlookCalls F d id) :
    c.tool = "update-mail-message" ∨ c.tool = "move-mail-message" := by
  unfold outlookCalls at h
  cases ha : d.action <;>
    (simp only [ha, List.mem_append, List.mem_ite_nil_right, List.mem_singleton,
      List.not_mem_nil, or_false] at h
     grind [Call.tool])

theorem planOutlook_tool (d : Decision) {c : Call} (h : c ∈ (planOutlook F d).calls) :
    c.tool = "create-reply-draft" ∨ c.tool = "update-mail-message" ∨
      c.tool = "move-mail-message" := by
  unfold planOutlook at h
  split at h
  · split_ifs at h
    · exact absurd h List.not_mem_nil
    · rw [List.mem_singleton.mp h]
      exact Or.inl rfl
  · obtain ⟨id, -, hc⟩ := List.mem_flatMap.mp h
    exact Or.inr (outlookCalls_tool F d id hc)

theorem planApple_tool (d : Decision) {c : Call} (h : c ∈ (planApple F d).calls) :
    ∃ command : Command, c = .apple command := by
  unfold planApple at h
  split_ifs at h
  · exact absurd h List.not_mem_nil
  · exact absurd h List.not_mem_nil
  · exact absurd h List.not_mem_nil
  · obtain ⟨id, -, hc⟩ := List.mem_flatMap.mp h
    obtain ⟨command, -, rfl⟩ := List.mem_map.mp hc
    exact ⟨command, rfl⟩

/-- Every call of a plan is on the allowlist of its provider. -/
theorem planApply_allowed (d : Decision) {c : Call} (h : c ∈ (planApply F d).calls) :
    c.tool ∈ providerTools d.provider := by
  unfold planApply at h
  split at h
  · exact absurd h List.not_mem_nil
  · cases hp : d.provider with
    | gmail =>
      simp only [hp] at h
      rcases planGmail_tool d h with htool | htool <;> rw [htool] <;> decide
    | outlook =>
      simp only [hp] at h
      rcases planOutlook_tool F d h with htool | htool | htool <;> rw [htool] <;> decide
    | appleMail =>
      simp only [hp] at h
      obtain ⟨command, rfl⟩ := planApple_tool F d h
      cases command <;> simp only [Call.tool, Command.tool] <;> decide

end Fold

end Cerid.Inbox
