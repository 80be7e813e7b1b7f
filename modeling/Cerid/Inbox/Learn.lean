import Cerid.Inbox.Review

/-!
# Corrections of the operator

A triage pass compares what it reads of a thread with the decision last applied to it, or
with the proposal that is open.  What differs is counted in the memory of the sender.
-/

namespace Cerid.Inbox

section Fold

variable (F : Text.CaseFold)

/-- `_cerid_categories`. -/
def ceridCategories (names : List String) : List Category :=
  names.foldl (fun found name =>
    match labelCategory F name with
    | some category => if category ∈ found then found else found ++ [category]
    | none => found) []

/-- The category of a flag that is set. -/
def flagMarks (flag : String) : List Category :=
  if strip flag = "" then [] else (flagCategory F (strip flag)).toList

/-- `_visible_marks`: the categories that the mailbox shows.  `none` when the mark of the
provider is not in the observation. -/
def visibleMarks (provider : Provider) (o : Observation) : Option (List Category) :=
  match provider with
  | .gmail => o.labels.map (fun text => ceridCategories F (names text))
  | .outlook => o.categories.map (fun text => ceridCategories F (names text))
  | .appleMail => o.flag.map (flagMarks F)

/-- `_in_inbox`. -/
def inInbox (provider : Provider) (o : Observation) : Option Bool :=
  match provider with
  | .gmail => o.labels.map (fun text => (names text).any (fun name => F.fold name = "inbox"))
  | .outlook => o.folder.map (fun folder => F.fold folder = "inbox")
  | .appleMail => o.mailbox.map (fun mailbox => F.fold mailbox ≠ "archive")

/-- `_removed_inbox`. -/
def removedInbox (calls : List Performed) : Bool :=
  calls.any (fun p =>
    match p.call with
    | .batchModify _ _ _ remove => "INBOX" ∈ remove
    | _ => false)

/-- `_outlook_left_inbox`. -/
def outlookLeftInbox (calls : List Performed) : Bool :=
  calls.any (fun p =>
    match p.call with
    | .moveMessage _ destination => destination ≠ "" && F.fold destination ∉ ["inbox", ""]
    | _ => false)

/-- `_apple_move_differs`. -/
def appleMoveDiffers (calls : List Performed) (mailbox : String) : Bool :=
  calls.any (fun p =>
    match p.call with
    | .apple (.move _ target) => F.fold target ≠ F.fold mailbox
    | _ => false)

/-- `_reversed`: the observation does not show what the decision left. -/
def reversed (provider : Provider) (action : Action) (category : Category)
    (calls : List Performed) (o : Observation) : Bool :=
  match provider with
  | .gmail =>
    match o.labels with
    | none => false
    | some text =>
      let folded := (names text).map F.fold
      F.fold category.labelName ∉ folded ||
        ("inbox" ∈ folded && (action = .archive || removedInbox calls))
  | .outlook =>
    o.categories.any (fun text => F.fold category.labelName ∉ (names text).map F.fold) ||
      (o.folder.any (fun folder => F.fold folder = "inbox") &&
        (action = .archive || outlookLeftInbox F calls))
  | .appleMail =>
    (action ∈ [Action.keep, .archive] && o.flag.any (fun flag =>
      F.fold (strip flag) = "" || F.fold (strip flag) ≠ F.fold category.flagColor.name)) ||
      o.mailbox.any (fun mailbox =>
        appleMoveDiffers F calls mailbox || (action = .archive && F.fold mailbox ≠ "archive"))

/-- `_visible_outcome`: the action and the category that the observation shows. -/
def visibleOutcome (provider : Provider) (action : Action) (category : Category)
    (o : Observation) : Option (Action × Category) :=
  let located := inInbox F provider o
  let shown : Option Category :=
    match visibleMarks F provider o with
    | none => some category
    | some [found] => some found
    | some [] => if located = some true then some .actionable else none
    | some _ => none
  let act : Option Action :=
    match located with
    | some true => some .keep
    | some false => some .archive
    | none => if action = .keep ∨ action = .archive then some action else none
  match shown, act with
  | some found, some act => some (act, found)
  | _, _ => none

/-- `operator_outcome`: the correction of an applied decision that the mailbox shows. -/
def operatorOutcome (provider : Provider) (action : Action) (category : Category)
    (calls : List Performed) (o : Observation) : Option (Action × Category) :=
  if reversed F provider action category calls o then
    match visibleOutcome F provider action category o with
    | none => none
    | some outcome =>
      if outcome.1 ∉ modelActions then none
      else if outcome = (action, category) then none
      else some outcome
  else none

/-- `proposed_outcome`: the operator's own move against a proposal that nothing applied. -/
def proposedOutcome (provider : Provider) (action : Action) (category : Category)
    (o : Observation) : Option (Action × Category) :=
  match visibleMarks F provider o, inInbox F provider o with
  | some (_ :: _ :: _), _ => none
  | _, none => none
  | some [found], some located =>
    let outcome := (if located then Action.keep else .archive, found)
    if outcome = (action, category) then none else some outcome
  | _, some false =>
    if (Action.archive, category) = (action, category) then none else some (.archive, category)
  | _, some true => none

end Fold

section Env

variable (E : Env)

/-- `_observed_correction`, with the key that stops it from counting twice. -/
def observedCorrection (l : Ledger) (source : Provider) (threadId : String) (o : Observation) :
    Option ((Action × Category) × Key) :=
  match l.latestApplied source threadId with
  | some row =>
    (operatorOutcome E.fold source row.action row.category (row.receipt.calls.getD []) o).map
      (fun outcome => (outcome, .decision row.id))
  | none =>
    match l.openProposal source threadId with
    | some row =>
      (proposedOutcome E.fold source row.action row.category o).map
        (fun outcome => (outcome, .proposed source threadId))
    | none => none

/-- `reconcile_threads` of one thread. -/
def reconcileThread (l : Ledger) (t : TriagedThread) : Ledger :=
  let sender := strip (E.fold.fold t.sender)
  if t.observation = {} ∨ t.threadId = "" ∨ sender = "" then l
  else
    match observedCorrection E l t.source t.threadId t.observation with
    | none => l
    | some ((action, category), key) => l.noteCorrection t.source sender category action key

/-- `reconcile_threads`. -/
def reconcileThreads (l : Ledger) (threads : List TriagedThread) : Ledger :=
  threads.foldl (reconcileThread E) l

/-- A triage pass as the ledger sees it: learn, then propose. -/
def triagePass (l : Ledger) (threads : List TriagedThread) : Ledger :=
  proposeTriage (reconcileThreads E l threads) threads

end Env

end Cerid.Inbox
