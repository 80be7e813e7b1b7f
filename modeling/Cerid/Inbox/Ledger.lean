import Cerid.Inbox.Mailbox

/-!
# The inbox ledger

Accounts, decisions, sender memory and the Apple outbox.  A decision is known by its place
among the rows; a row that is still open is the last of its thread.
-/

namespace Cerid.Inbox

structure Account where
  included : Bool
  removed : Bool
  folderSort : Bool
  autoApply : List Category

/-- How a decision that is no longer open ended. -/
inductive Verdict where
  | applied | failed | skipped | undone
  deriving DecidableEq, Repr

inductive Status where
  | proposed
  | superseded
  | recorded (verdict : Verdict)
  deriving DecidableEq, Repr

/-- A call that was made, and the message id of the reply where it named one. -/
structure Performed where
  call : Call
  echoed : String := ""
  deriving DecidableEq, Repr

/-- The receipt of a decision. -/
structure Receipt where
  calls : Option (List Performed) := none
  currentLabels : Option (List String) := none
  messageIds : List String := []
  draftBody : String := ""
  subject : String := ""
  classificationReason : String := ""
  deriving DecidableEq, Repr

structure Row where
  id : Nat
  account : String
  source : Provider
  threadId : String
  messageIds : List String
  category : Category
  action : Action
  needsReview : Bool
  status : Status
  receipt : Receipt
  mailboxBefore : String
  deriving DecidableEq, Repr

def Row.sameThread (r r' : Row) : Bool := r.source = r'.source && r.threadId = r'.threadId

/-- A row is numbered by its place. -/
def Numbered (rows : List Row) : Prop := ∀ (n : Nat) (row : Row), rows[n]? = some row → row.id = n

/-- A row that is open is the last one of its thread. -/
def LastOpen (rows : List Row) : Prop :=
  rows.Pairwise (fun r r' : Row => r.status = .proposed → r.sameThread r' = false)

/-- A queued Apple action. -/
structure OutboxRow where
  decisionId : Nat
  commands : List Command
  deriving DecidableEq, Repr

/-- What a correction is counted under: the applied decision, or the thread of an open
proposal. -/
inductive Key where
  | decision (id : Nat)
  | proposed (source : Provider) (threadId : String)
  deriving DecidableEq, Repr

structure Sender where
  category : Category
  action : Action
  hits : Nat
  pinned : Bool
  lastDecision : Option Key
  deriving DecidableEq, Repr

/-- `PIN_HITS`. -/
def pinHits : Nat := 3

structure Ledger where
  accounts : Dict (Provider × String) Account
  decisions : List Row
  numbered : Numbered decisions
  lastOpen : LastOpen decisions
  outbox : List OutboxRow
  /-- Queueing replaces what was queued for the decision. -/
  outboxOnce : (outbox.map OutboxRow.decisionId).Nodup
  senders : Dict (Provider × String) Sender

namespace Ledger

/-- A ledger with one account. -/
def opened (source : Provider) (address : String) (account : Account) : Ledger where
  accounts := Dict.empty.set (source, address) account
  decisions := []
  numbered := fun _ _ h => nomatch h
  lastOpen := List.Pairwise.nil
  outbox := []
  outboxOnce := List.nodup_nil
  senders := .empty

/-! ## Decisions -/

/-- `get_decision`. -/
def getDecision (l : Ledger) (id : Nat) : Option Row := l.decisions[id]?

/-- The rows with one of them changed. -/
def changed (rows : List Row) (id : Nat) (f : Row → Row) : List Row :=
  rows.map (fun row => if row.id = id then f row else row)

theorem changed_numbered {rows : List Row} {id : Nat} {f : Row → Row}
    (hid : ∀ row, (f row).id = row.id) (h : Numbered rows) : Numbered (changed rows id f) := by
  intro n row hrow
  unfold changed at hrow
  rw [List.getElem?_map] at hrow
  obtain ⟨row', hrow', rfl⟩ := Option.map_eq_some_iff.mp hrow
  split
  · rw [hid]
    exact h n row' hrow'
  · exact h n row' hrow'

theorem changed_lastOpen {rows : List Row} {id : Nat} {f : Row → Row}
    (hopen : ∀ row, (f row).status = .proposed → row.status = .proposed)
    (hthread : ∀ row, (f row).source = row.source ∧ (f row).threadId = row.threadId)
    (h : LastOpen rows) : LastOpen (changed rows id f) := by
  unfold LastOpen changed
  rw [List.pairwise_map]
  refine List.Pairwise.imp ?_ h
  intro r r' hrr' hproposed
  have hsame : ∀ a : Row, ∀ g : Row, (if a.id = id then f a else a).sameThread g =
      a.sameThread g := by
    intro a g
    unfold Row.sameThread
    split
    · rw [(hthread a).1, (hthread a).2]
    · rfl
  have hsame' : ∀ a : Row, ∀ g : Row, g.sameThread (if a.id = id then f a else a) =
      g.sameThread a := by
    intro a g
    unfold Row.sameThread
    split
    · rw [(hthread a).1, (hthread a).2]
    · rfl
  rw [hsame, hsame']
  apply hrr'
  split at hproposed
  · exact hopen r hproposed
  · exact hproposed

/-- `record`: the outcome of an apply.  A missing row is left absent. -/
def record (l : Ledger) (id : Nat) (verdict : Verdict) (receipt : Receipt) : Ledger :=
  { l with
    decisions := changed l.decisions id
      (fun row => { row with status := .recorded verdict, receipt := receipt })
    numbered := changed_numbered (fun _ => rfl) l.numbered
    lastOpen := changed_lastOpen (fun _ h => nomatch h) (fun _ => ⟨rfl, rfl⟩) l.lastOpen }

def setMailboxBefore (l : Ledger) (id : Nat) (mailbox : String) : Ledger :=
  { l with
    decisions := changed l.decisions id (fun row => { row with mailboxBefore := mailbox })
    numbered := changed_numbered (fun _ => rfl) l.numbered
    lastOpen := changed_lastOpen (fun _ h => h) (fun _ => ⟨rfl, rfl⟩) l.lastOpen }

/-- The rows with the open ones of a thread superseded. -/
def supersede (rows : List Row) (row : Row) : List Row :=
  rows.map (fun r =>
    if r.sameThread row && r.status = .proposed then { r with status := .superseded } else r)

theorem supersede_numbered {rows : List Row} (new : Row) (h : Numbered rows) :
    Numbered (supersede rows new ++ [{ new with id := rows.length }]) := by
  intro n row hrow
  have hlength : (supersede rows new).length = rows.length := List.length_map _
  rcases Nat.lt_trichotomy n rows.length with hn | hn | hn
  · rw [List.getElem?_append_left (hlength ▸ hn)] at hrow
    unfold supersede at hrow
    rw [List.getElem?_map] at hrow
    obtain ⟨row', hrow', rfl⟩ := Option.map_eq_some_iff.mp hrow
    split <;> exact h n row' hrow'
  · rw [List.getElem?_append_right (by omega), hlength, hn, Nat.sub_self,
      List.getElem?_cons_zero, Option.some.injEq] at hrow
    subst hrow
    exact hn.symm
  · rw [List.getElem?_append_right (by omega), hlength] at hrow
    have hpos : n - rows.length = (n - rows.length - 1) + 1 := by omega
    rw [hpos] at hrow
    simp at hrow

theorem supersede_lastOpen {rows : List Row} (new : Row) (h : LastOpen rows) :
    LastOpen (supersede rows new ++ [{ new with id := rows.length }]) := by
  unfold LastOpen
  rw [List.pairwise_append]
  refine ⟨?_, List.pairwise_singleton _ _, ?_⟩
  · unfold supersede
    rw [List.pairwise_map]
    refine List.Pairwise.imp ?_ h
    intro r r' hrr' hproposed
    have hr : r.status = .proposed := by
      split at hproposed
      · exact nomatch hproposed
      · exact hproposed
    have hfalse := hrr' hr
    unfold Row.sameThread at hfalse ⊢
    split <;> split <;> exact hfalse
  · intro r hr r' hr' hproposed
    rw [List.mem_singleton] at hr'
    subst hr'
    obtain ⟨r₀, -, rfl⟩ := List.mem_map.mp hr
    by_cases hc : (r₀.sameThread new && r₀.status = .proposed) = true
    · rw [if_pos hc] at hproposed
      exact nomatch hproposed
    · rw [if_neg hc] at hproposed ⊢
      rw [Bool.and_eq_true, decide_eq_true_eq, not_and] at hc
      have hfalse : r₀.sameThread new = false := by
        by_contra hne
        exact hc (Bool.eq_true_of_not_eq_false hne) hproposed
      exact hfalse

/-- `propose`: insert a proposal.  An open proposal for the same thread is superseded. -/
def propose (l : Ledger) (row : Row) : Ledger :=
  { l with
    decisions := supersede l.decisions row ++ [{ row with id := l.decisions.length }]
    numbered := supersede_numbered row l.numbered
    lastOpen := supersede_lastOpen row l.lastOpen }

/-- `open_proposal`. -/
def openProposal (l : Ledger) (source : Provider) (threadId : String) : Option Row :=
  l.decisions.find? (fun row =>
    row.source = source && row.threadId = threadId && row.status = .proposed)

/-- `latest_applied`. -/
def latestApplied (l : Ledger) (source : Provider) (threadId : String) : Option Row :=
  (l.decisions.reverse).find? (fun row =>
    row.source = source && row.threadId = threadId && row.status = .recorded .applied)

/-- `list_decisions(status="proposed", newest_first=False)`. -/
def listProposed (l : Ledger) (limit : Nat) : List Row :=
  (l.decisions.filter (fun row => row.status = .proposed)).take limit

theorem getDecision_changed {l : Ledger} {id : Nat} (f : Row → Row) (n : Nat) :
    (changed l.decisions id f)[n]? =
      (l.getDecision n).map (fun row => if n = id then f row else row) := by
  unfold changed getDecision
  rw [List.getElem?_map]
  cases h : l.decisions[n]? with
  | none => rfl
  | some row => rw [Option.map_some, Option.map_some, l.numbered n row h]

theorem getDecision_record (l : Ledger) (id : Nat) (verdict : Verdict) (receipt : Receipt)
    (n : Nat) : (l.record id verdict receipt).getDecision n =
      (l.getDecision n).map (fun row =>
        if n = id then { row with status := .recorded verdict, receipt := receipt } else row) :=
  getDecision_changed _ n

theorem getDecision_setMailboxBefore (l : Ledger) (id : Nat) (mailbox : String) (n : Nat) :
    (l.setMailboxBefore id mailbox).getDecision n =
      (l.getDecision n).map (fun row =>
        if n = id then { row with mailboxBefore := mailbox } else row) :=
  getDecision_changed _ n

/-! ## The outbox and the senders -/

/-- The queue with a row put in, in place of the row of the same decision. -/
def requeue (rows : List OutboxRow) (row : OutboxRow) (place : Nat) : List OutboxRow :=
  let others := rows.filter (fun r => r.decisionId ≠ row.decisionId)
  others.take place ++ row :: others.drop place

theorem requeue_perm (rows : List OutboxRow) (row : OutboxRow) (place : Nat) :
    (requeue rows row place).Perm
      (row :: rows.filter (fun r => r.decisionId ≠ row.decisionId)) := by
  unfold requeue
  dsimp only
  generalize rows.filter (fun r => r.decisionId ≠ row.decisionId) = others
  have h : (others.take place ++ row :: others.drop place).Perm
      (row :: (others.take place ++ others.drop place)) := List.perm_middle
  rwa [List.take_append_drop] at h

theorem requeue_once {rows : List OutboxRow} (row : OutboxRow) (place : Nat)
    (h : (rows.map OutboxRow.decisionId).Nodup) :
    ((requeue rows row place).map OutboxRow.decisionId).Nodup := by
  rw [((requeue_perm rows row place).map OutboxRow.decisionId).nodup_iff, List.map_cons,
    List.nodup_cons]
  refine ⟨fun hmem => ?_, h.sublist (List.filter_sublist.map _)⟩
  obtain ⟨r, hr, heq⟩ := List.mem_map.mp hmem
  exact (of_decide_eq_true (List.mem_filter.mp hr).2) heq

/-- `enqueue_outbox`: a second queue for the same decision replaces it. -/
def enqueueOutbox (l : Ledger) (row : OutboxRow) (place : Nat) : Ledger :=
  { l with
    outbox := requeue l.outbox row place
    outboxOnce := requeue_once row place l.outboxOnce }

/-- `delete_outbox`. -/
def deleteOutbox (l : Ledger) (row : OutboxRow) : Ledger :=
  { l with
    outbox := l.outbox.filter (fun r => r.decisionId ≠ row.decisionId)
    outboxOnce := l.outboxOnce.sublist (List.filter_sublist.map _) }

/-- What `note_correction` makes of the memory of a sender. -/
def Sender.noted (existing : Option Sender) (category : Category) (action : Action) (key : Key) :
    Sender :=
  let same := existing.any (fun e => e.action = action && e.category = category)
  let hits := if same then (existing.map Sender.hits).getD 0 + 1 else 1
  { category, action, hits, pinned := decide (pinHits ≤ hits), lastDecision := some key }

/-- `note_correction`: count one operator reversal.  The same decision id does not count
twice. -/
def noteCorrection (l : Ledger) (source : Provider) (sender : String) (category : Category)
    (action : Action) (key : Key) : Ledger :=
  let existing := l.senders.get? (source, sender)
  if existing.any (fun e => e.lastDecision = some key) then l
  else { l with
    senders := l.senders.set (source, sender) (Sender.noted existing category action key) }

end Ledger

end Cerid.Inbox
