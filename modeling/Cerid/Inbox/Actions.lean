import Cerid.Lib.Text

/-!
# The closed vocabulary of inbox decisions

Categories, actions and providers, with the label, the flag and the tools that go with
each.  The planner, the executor and the reader of corrections share these tables.
-/

namespace Cerid.Inbox

inductive Provider where
  | gmail | outlook | appleMail
  deriving DecidableEq, Repr

inductive Category where
  | urgent | actionable | personal | newsletter | promo | spam
  deriving DecidableEq, Repr

inductive Action where
  | keep | archive | markRead | draft | undo
  deriving DecidableEq, Repr

/-- The flag colours of Mail. -/
inductive Color where
  | red | orange | yellow | green | blue | purple | gray
  deriving DecidableEq, Repr

def Color.name : Color → String
  | red => "red"
  | orange => "orange"
  | yellow => "yellow"
  | green => "green"
  | blue => "blue"
  | purple => "purple"
  | gray => "gray"

namespace Category

/-- `CATEGORIES`. -/
def all : List Category := [urgent, actionable, personal, newsletter, promo, spam]

/-- `LABEL_NAME`. -/
def labelName : Category → String
  | urgent => "Cerid/Urgent"
  | actionable => "Cerid/Action"
  | personal => "Cerid/Personal"
  | newsletter => "Cerid/Newsletter"
  | promo => "Cerid/Promo"
  | spam => "Cerid/Spam"

/-- `FLAG_COLOR`. -/
def flagColor : Category → Color
  | urgent => .red
  | actionable => .orange
  | personal => .blue
  | newsletter => .green
  | promo => .purple
  | spam => .gray

theorem mem_all (c : Category) : c ∈ all := by cases c <;> decide

end Category

/-- Whether this action relocates the message. -/
def moves (action : Action) (folderSort : Bool) : Bool :=
  match action with
  | .undo | .archive => true
  | .keep => folderSort
  | .markRead | .draft => false

/-- `MODEL_ACTIONS`. -/
def modelActions : List Action := [.keep, .archive, .markRead, .draft]

/-- `OUTLOOK_WELL_KNOWN`. -/
def outlookWellKnown : List String := ["inbox", "archive", "drafts", "sentitems"]

/-- `PROVIDER_TOOLS`. -/
def providerTools : Provider → List String
  | .gmail => ["list_gmail_labels", "manage_gmail_label", "modify_gmail_message_labels",
      "batch_modify_gmail_message_labels", "draft_gmail_message"]
  | .outlook => ["move-mail-message", "create-reply-draft", "create-draft-email",
      "update-mail-message", "list-mail-folders", "list-mail-child-folders",
      "create-mail-folder", "create-mail-child-folder"]
  | .appleMail => ["flag", "read", "move", "draft", "find"]

/-- `FORBIDDEN_TOOLS`. -/
def forbiddenTools : List String := ["send_gmail_message", "send-mail", "delete-mail-message"]

/-! ## Names in a text -/

/-- A label or category that is the program's own. -/
def isCerid (name : String) : Bool := "Cerid/".toList.isPrefixOf name.toList

/-- The names of a comma-separated text. -/
def names (text : String) : List String := (Text.names text.toList).map String.ofList

/-- `",".join`. -/
def comma (xs : List String) : String := String.ofList ([','].intercalate (xs.map String.toList))

/-- `str.strip`. -/
def strip (text : String) : String := String.ofList (Text.strip text.toList)

theorem isCerid_labelName (c : Category) : isCerid c.labelName = true := by
  cases c <;> decide

section Fold

variable (F : Text.CaseFold)

/-- `_LABEL_CATEGORY.get(name.casefold())`. -/
def labelCategory (name : String) : Option Category :=
  Category.all.find? (fun c => F.fold c.labelName = F.fold name)

/-- `_FLAG_CATEGORY.get(flag.casefold())`. -/
def flagCategory (flag : String) : Option Category :=
  Category.all.find? (fun c => F.fold c.flagColor.name = F.fold flag)

end Fold

end Cerid.Inbox
