import Cerid.Inbox.Attempts
import Cerid.Inbox.Filing

/-!
# What an undo leaves

An undo is planned from the receipt of the decision.  Its plan takes the messages on from
where the decision left them.
-/

namespace Cerid.Inbox

section Env

variable {E : Env}

/-- The undo of an applied row. -/
theorem undoDecision_applied {id : Nat} {calls : List Performed} {w w' : World}
    (h : undoDecision E id false true w = (.applied calls, w')) :
    ∃ row, w.ledger.getDecision id = some row ∧ row.status = .recorded .applied ∧
      ∃ w₁, applyDecision E
          { undoFromRow E row (rowAccount w row) with decisionId := w.ledger.decisions.length }
          false true
          { w with
            ledger := w.ledger.propose (undoRow row (undoFromRow E row (rowAccount w row))) } =
          (.applied calls, w₁) ∧
        w' = { w₁ with ledger := w₁.ledger.record id .undone {} } := by
  unfold undoDecision at h
  cases hget : w.ledger.getDecision id with
  | none =>
    rw [hget] at h
    exact nomatch congrArg Prod.fst h
  | some row =>
    rw [hget] at h
    dsimp only at h
    by_cases hstatus : row.status = .recorded .applied
    · rw [if_neg (not_not.mpr hstatus), if_neg (by decide)] at h
      refine ⟨row, rfl, hstatus, ?_⟩
      split at h
      · next calls' w₁ heq =>
        rw [Prod.mk.injEq, Outcome.applied.injEq] at h
        obtain ⟨rfl, rfl⟩ := h
        exact ⟨w₁, heq, rfl⟩
      · next hne =>
        exact absurd h (hne calls w')
    · rw [if_pos hstatus] at h
      exact nomatch congrArg Prod.fst h

/-! ## Gmail -/

theorem labelName_ne_inbox (c : Category) : "INBOX" ≠ c.labelName := by cases c <;> decide

/-- The labels that an undo of a proposal of Gmail believes on the messages. -/
theorem labelsForUndo_gmail {row : Row} {account : Option Account} (hsource : row.source = .gmail)
    (hstored : row.receipt.currentLabels =
      if row.action = .keep ∨ row.action = .archive then some [row.category.labelName] else none) :
    labelsForUndo E row account =
      if row.action = .keep ∨ row.action = .archive then [row.category.labelName]
      else ["INBOX"] := by
  unfold labelsForUndo
  rw [hstored]
  by_cases hmark : row.action = .keep ∨ row.action = .archive
  · simp only [if_pos hmark]
  · rw [if_neg hmark, if_neg hmark]
    have hmoved : moved E row account = false := by
      unfold moved sortedKeep
      rw [not_or] at hmark
      simp [hmark.1, hmark.2]
    dsimp only
    rw [hmoved, hsource, if_neg hmark]
    rfl

/-- What an undo of a proposal of Gmail adds and takes away. -/
def gmailBack (action : Action) (category : Category) : Option (List String × List String) :=
  match action with
  | .keep | .archive => some (["INBOX"], [category.labelName])
  | .markRead => some (["UNREAD"], [])
  | .draft | .undo => none

theorem gmailDelta_undo {action : Action} (category : Category) (folderSort : Bool)
    (h : action ≠ .undo) :
    gmailDelta .undo category folderSort
        (if action = .keep ∨ action = .archive then [category.labelName] else ["INBOX"])
        (some action) = gmailBack action category := by
  cases action with
  | undo => exact absurd rfl h
  | keep => cases category <;> cases folderSort <;> decide +kernel
  | archive => cases category <;> cases folderSort <;> decide +kernel
  | markRead => cases category <;> cases folderSort <;> decide +kernel
  | draft => cases category <;> cases folderSort <;> decide +kernel

/-- The row that an applied proposal of Gmail leaves, and its undo. -/
theorem gmail_undone {row : Row} {calls calls' : List Performed} {w w' w'' : World}
    (hstands : StandsOpen row w) (hsource : row.source = .gmail) (haction : row.action ≠ .undo)
    (hfiled : GmailFiled row calls w w')
    (hundo : undoDecision E row.id false true w' = (.applied calls', w'')) :
    ∃ add remove, gmailBack row.action row.category = some (add, remove) ∧
      ∀ id ∈ row.messageIds, w''.gmail.messages.get? id =
        (w.gmail.messages.get? id).map (fun labels => relabel add remove (gmailAfter row labels)) := by
  obtain ⟨receipt, hledger, hcalls, hids, hlabels⟩ := hfiled.recorded
  obtain ⟨row', hget, -, w₁, happly, rfl⟩ := undoDecision_applied hundo
  have hrow' : row' = { row with status := .recorded .applied, receipt := receipt } := by
    rw [hledger, Ledger.getDecision_record, hstands.1, Option.map_some, if_pos rfl] at hget
    exact (Option.some.inj hget).symm
  have hsource' : row'.source = .gmail := by rw [hrow', hsource]
  have haction' : row'.action = row.action := by rw [hrow']
  have hcategory' : row'.category = row.category := by rw [hrow']
  have hlabels' : labelsForUndo E row' (rowAccount w' row') =
      if row'.action = .keep ∨ row'.action = .archive then [row'.category.labelName]
      else ["INBOX"] := by
    refine labelsForUndo_gmail hsource' ?_
    rw [haction', hcategory', hrow']
    exact hlabels
  have hmessageIds : (undoFromRow E row' (rowAccount w' row')).messageIds = row.messageIds := by
    show (if row'.receipt.messageIds ≠ [] then row'.receipt.messageIds else row'.messageIds) = _
    rw [hrow', if_neg (not_not.mpr hids)]
  obtain ⟨add, remove, w₂, hdelta, hlabelled, rfl⟩ :=
    applied_gmail happly hsource' (show Action.undo ≠ .draft by decide)
  have hback : gmailBack row.action row.category = some (add, remove) := by
    rw [← hdelta, ← gmailDelta_undo row.category
      (decisionFromRow E row' (rowAccount w' row')).folderSort haction, ← haction', ← hcategory',
      ← hlabels']
    rfl
  refine ⟨add, remove, hback, fun id hid => ?_⟩
  unfold recordDecision
  dsimp only
  rw [hlabelled.messages, GmailBox.get?_modify]
  dsimp only
  rw [hmessageIds, hfiled.messages, Option.map_map]
  cases w.gmail.messages.get? id with
  | none => rfl
  | some labels =>
    rw [Option.map_some, Option.map_some, Function.comp_apply, if_pos hid, if_pos hid]

theorem relabel_back {row : Row} {add remove labels : List String}
    (hback : gmailBack row.action row.category = some (add, remove)) :
    (∀ x, x ∈ relabel add remove (gmailAfter row labels) ↔ x ∈ labels) ↔
      (row.action = .keep ∨ row.action = .archive →
        row.category.labelName ∉ labels ∧ "INBOX" ∈ labels) ∧
      (row.action = .markRead → "UNREAD" ∈ labels) := by
  have hne := labelName_ne_inbox row.category
  by_cases hmark : row.action = .keep ∨ row.action = .archive
  · have hpair : add = ["INBOX"] ∧ remove = [row.category.labelName] := by
      unfold gmailBack at hback
      rcases hmark with ha | ha <;>
        (rw [ha] at hback
         simpa [eq_comm] using hback)
    obtain ⟨rfl, rfl⟩ := hpair
    have hread : row.action ≠ .markRead := by
      rcases hmark with ha | ha <;> rw [ha] <;> decide
    have hmem : ∀ x, x ∈ relabel ["INBOX"] [row.category.labelName] (gmailAfter row labels) ↔
        (x ∈ labels ∧ x ≠ row.category.labelName) ∨ x = "INBOX" := by
      intro x
      rw [mem_relabel (by simpa using hne), mem_gmailAfter, List.mem_singleton, List.mem_singleton]
      constructor
      · rintro (⟨hx | ⟨-, hx⟩, hx'⟩ | hx)
        · exact Or.inl ⟨hx, hx'⟩
        · exact absurd hx hx'
        · exact Or.inr hx
      · rintro (⟨hx, hx'⟩ | hx)
        · exact Or.inl ⟨Or.inl hx, hx'⟩
        · exact Or.inr hx
    constructor
    · intro h
      refine ⟨fun _ => ⟨fun hlabel => ?_, ?_⟩, fun ha => absurd ha hread⟩
      · rcases (hmem _).mp ((h _).mpr hlabel) with hx | hx
        · exact hx.2 rfl
        · exact hne hx.symm
      · exact (h "INBOX").mp ((hmem "INBOX").mpr (Or.inr rfl))
    · rintro ⟨h, -⟩ x
      obtain ⟨hlabel, hinbox⟩ := h hmark
      rw [hmem]
      constructor
      · rintro (hx | rfl)
        · exact hx.1
        · exact hinbox
      · intro hx
        refine Or.inl ⟨hx, ?_⟩
        rintro rfl
        exact hlabel hx
  · have hpair : row.action = .markRead ∧ add = ["UNREAD"] ∧ remove = [] := by
      rw [not_or] at hmark
      unfold gmailBack at hback
      cases ha : row.action with
      | keep => exact absurd ha hmark.1
      | archive => exact absurd ha hmark.2
      | markRead =>
        rw [ha] at hback
        exact ⟨rfl, by simpa [eq_comm] using hback⟩
      | draft =>
        rw [ha] at hback
        exact nomatch hback
      | undo =>
        rw [ha] at hback
        exact nomatch hback
    obtain ⟨hread, rfl, rfl⟩ := hpair
    have hmem : ∀ x, x ∈ relabel ["UNREAD"] [] (gmailAfter row labels) ↔
        x ∈ labels ∨ x = "UNREAD" := by
      intro x
      rw [mem_relabel (fun _ _ => List.not_mem_nil), mem_gmailAfter, List.mem_singleton]
      simp [hmark]
    constructor
    · intro h
      exact ⟨fun hm => absurd hm hmark, fun _ => (h "UNREAD").mp ((hmem "UNREAD").mpr (Or.inr rfl))⟩
    · rintro ⟨-, h⟩ x
      rw [hmem]
      constructor
      · rintro (hx | rfl)
        · exact hx
        · exact h hread
      · exact Or.inl

/-! ## Outlook -/

/-- Only a move among the recorded calls can take a message out of its folder. -/
def OnlyMovesLeave (E : Env) (calls : List Performed) : Prop :=
  ∀ p ∈ calls, p.call.isMove = true ∨ p.call.leftInbox E = false

theorem OnlyMovesLeave.append {calls : List Performed} (h : OnlyMovesLeave E calls)
    {p : Performed} (hp : p.call.isMove = true ∨ p.call.leftInbox E = false) :
    OnlyMovesLeave E (calls ++ [p]) := by
  intro q hq
  rcases List.mem_append.mp hq with hq | hq
  · exact h q hq
  · rw [List.mem_singleton] at hq
    exact hq ▸ hp

theorem outlookFolder_leave {path : String} {performed p : List Performed} {w w' : World}
    (h : outlookFolder E path performed w = (.ok p, w')) (hleave : OnlyMovesLeave E performed) :
    OnlyMovesLeave E p := by
  unfold outlookFolder at h
  obtain ⟨p₁, w₁, hlist, h⟩ := Exec.bind_ok.mp h
  obtain ⟨-, rfl, rfl⟩ := useTool_ok.mp hlist
  obtain ⟨folders, w₂, hread, h⟩ := Exec.bind_ok.mp h
  have hlisted := hleave.append (p := { call := .listFolders path }) (Or.inr rfl)
  split at h
  · obtain ⟨rfl, rfl⟩ := Exec.pure_ok.mp h
    exact hlisted
  · obtain ⟨-, rfl, rfl⟩ := useTool_ok.mp h
    exact hlisted.append (Or.inr rfl)

theorem resolve_leave {destination : String} {performed : List Performed}
    {r : String × List Performed} {w w' : World}
    (h : resolveOutlookDestination E destination performed w = (.ok r, w'))
    (hleave : OnlyMovesLeave E performed) : OnlyMovesLeave E r.2 := by
  unfold resolveOutlookDestination at h
  split at h
  · exact (Exec.fail_ok.mp h).elim
  · split at h
    · obtain ⟨rfl, rfl⟩ := Exec.pure_ok.mp h
      exact hleave
    · split at h
      · exact (Exec.fail_ok.mp h).elim
      · obtain ⟨p₁, w₁, hparent, h⟩ := Exec.bind_ok.mp h
        obtain ⟨p₂, w₂, hchild, h⟩ := Exec.bind_ok.mp h
        obtain ⟨rfl, rfl⟩ := Exec.pure_ok.mp h
        exact outlookFolder_leave hchild (outlookFolder_leave hparent hleave)

theorem outlookCall_leave {call : Call} {performed p : List Performed} {w w' : World}
    (h : outlookCall E call performed w = (.ok p, w')) (hleave : OnlyMovesLeave E performed) :
    OnlyMovesLeave E p := by
  have hedit : ∀ {message : String} {f : OutlookState → OutlookState},
      editMessage E call message f performed w = (.ok p, w') →
      call.isMove = true ∨ call.leftInbox E = false → OnlyMovesLeave E p := by
    intro message f hcall hleft
    unfold editMessage at hcall
    obtain ⟨found, w₁, hread, hcall⟩ := Exec.bind_ok.mp hcall
    split at hcall
    · obtain ⟨-, rfl, rfl⟩ := useTool_ok.mp hcall
      exact hleave.append hleft
    · exact (Exec.fail_ok.mp hcall).elim
  cases call with
  | patchCategories message categories => exact hedit h (Or.inr rfl)
  | patchRead message isRead => exact hedit h (Or.inr rfl)
  | moveMessage message destination =>
    unfold outlookCall moveMessage at h
    obtain ⟨r, w₁, hresolve, h⟩ := Exec.bind_ok.mp h
    obtain ⟨found, w₂, -, h⟩ := Exec.bind_ok.mp h
    obtain ⟨echoed, w₃, -, h⟩ := Exec.bind_ok.mp h
    split at h
    · obtain ⟨p₁, w₄, -, h⟩ := Exec.bind_ok.mp h
      obtain ⟨rfl, rfl⟩ := Exec.pure_ok.mp h
      exact (resolve_leave hresolve hleave).append (Or.inl rfl)
    · exact (Exec.fail_ok.mp h).elim
  | replyDraft message comment =>
    obtain ⟨-, rfl, rfl⟩ := useTool_ok.mp h
    exact hleave.append (Or.inr rfl)
  | _ => exact (Exec.fail_ok.mp h).elim

theorem performOutlook_leave {calls : List Call} {performed p : List Performed} {w w' : World}
    (h : performOutlook E calls performed w = (.ok p, w')) (hleave : OnlyMovesLeave E performed) :
    OnlyMovesLeave E p := by
  induction calls generalizing performed w with
  | nil =>
    obtain ⟨rfl, rfl⟩ := Exec.pure_ok.mp h
    exact hleave
  | cons call rest ih =>
    obtain ⟨p₁, w₁, hcall, hrest⟩ := Exec.bind_ok.mp h
    exact ih hrest (outlookCall_leave hcall hleave)

theorem applied_leave {d : Decision} {calls : List Performed} {w w' : World}
    (h : applyDecision E d false true w = (.applied calls, w')) (hp : d.provider = .outlook) :
    OnlyMovesLeave E calls := by
  obtain ⟨w₁, hperform, -, -, -⟩ := applyDecision_applied E h
  unfold perform at hperform
  rw [hp] at hperform
  obtain ⟨calls', w₂, houtlook, hpure⟩ := Exec.bind_ok.mp hperform
  obtain ⟨heq, rfl⟩ := Exec.pure_ok.mp hpure
  injection heq with heq
  subst heq
  exact performOutlook_leave houtlook (fun _ hp => absurd hp List.not_mem_nil)

/-- The row that an applied decision of Outlook leaves. -/
def outlookRow (E : Env) (row : Row) (account : Option Account) (calls : List Performed) : Row :=
  { row with
    status := .recorded .applied
    receipt := keptReceipt (decisionFromRow E row account)
      { calls := some calls
        currentLabels := outlookAfter (decisionFromRow E row account)
        messageIds := outlookIdsAfter calls } }

theorem fold_labelName_other (F : Text.CaseFold) (c : Category) :
    F.fold c.labelName ∉ outlookWellKnown := by
  rw [F.fold_of_all (by cases c <;> decide)]
  cases c <;> decide

theorem fold_wellKnown (F : Text.CaseFold) {name : String} (h : name ∈ outlookWellKnown) :
    F.fold name = name := by
  unfold outlookWellKnown at h
  simp only [List.mem_cons, List.not_mem_nil, or_false] at h
  rcases h with rfl | rfl | rfl | rfl <;> (rw [F.fold_of_all (by decide)]; decide)

theorem leftInbox_labelFolder (c : Category) (id : String) :
    Call.leftInbox E (.moveMessage id (destinationFolder E c.labelName)) = true := by
  unfold destinationFolder
  rw [if_neg (fold_labelName_other E.fold c)]
  unfold Call.leftInbox
  simp [E.folderId_ne, E.folderId_other]

/-- The receipt of an applied decision says whether it moved the messages. -/
theorem moved_outlookRow {row : Row} {account : Option Account} (account' : Option Account) {calls : List Performed}
    {w w' : World} (haction : row.action ≠ .undo) (hids : row.messageIds ≠ [])
    (hleave : OnlyMovesLeave E calls)
    (hthreaded : Threaded E (decisionFromRow E row account) row.messageIds (moveCalls calls) w w') :
    moved E (outlookRow E row account calls) account' = true ↔
      outlookMove E.fold (decisionFromRow E row account) ≠ none := by
  have hmoved : moved E (outlookRow E row account calls) account' =
      (row.action = .archive || (row.action = .keep && calls.any (fun p => p.call.leftInbox E))) :=
    rfl
  have hrecorded := hthreaded.recorded
  have hmoves : outlookMove E.fold (decisionFromRow E row account) ≠ none ↔
      row.action = .archive ∨ (row.action = .keep ∧
        (decisionFromRow E row account).folderSort = true) := by
    have hrow : (decisionFromRow E row account).action = row.action := rfl
    unfold outlookMove
    rw [hrow]
    cases ha : row.action with
    | undo => exact absurd ha haction
    | archive => simp
    | keep => simp
    | markRead => simp
    | draft => simp
  rw [hmoved]
  cases ha : row.action with
  | archive => simp [hmoves, ha]
  | markRead => simp [hmoves, ha]
  | draft => simp [hmoves, ha]
  | undo => exact absurd ha haction
  | keep =>
    have hmove : outlookMove E.fold (decisionFromRow E row account) =
        if (decisionFromRow E row account).folderSort then some row.category.labelName
        else none := by
      have hrow : (decisionFromRow E row account).action = .keep := ha
      unfold outlookMove
      rw [hrow]
      rfl
    by_cases hsort : (decisionFromRow E row account).folderSort = true
    · rw [if_pos hsort] at hmove
      rw [hmove, Option.map_some, Option.getD_some] at hrecorded
      refine iff_of_true ?_ (by rw [hmove]; exact Option.some_ne_none _)
      obtain ⟨id, hid⟩ := List.exists_mem_of_ne_nil _ hids
      have hcall : Call.moveMessage id (destinationFolder E row.category.labelName) ∈
          (moveCalls calls).map Performed.call := by
        rw [hrecorded]
        exact List.mem_map.mpr ⟨id, hid, rfl⟩
      obtain ⟨q, hq, hcall⟩ := List.mem_map.mp hcall
      have hleft : q.call.leftInbox E = true := by
        rw [hcall]
        exact leftInbox_labelFolder _ id
      have hany : calls.any (fun q => q.call.leftInbox E) = true :=
        List.any_eq_true.mpr ⟨q, (List.mem_filter.mp hq).1, hleft⟩
      rw [hany]
      decide
    · rw [if_neg hsort] at hmove
      rw [hmove] at hrecorded
      have hnil : moveCalls calls = [] := List.map_eq_nil_iff.mp hrecorded
      have hany : calls.any (fun q => q.call.leftInbox E) = false := by
        rw [List.any_eq_false]
        intro q hq
        rcases hleave q hq with hmove' | hleft
        · have hmem : q ∈ moveCalls calls := List.mem_filter.mpr ⟨hq, hmove'⟩
          rw [hnil] at hmem
          exact absurd hmem List.not_mem_nil
        · rw [hleft]
          exact Bool.false_ne_true
      rw [hany, hmove]
      decide

/-- The folder that an undo moves the messages of a row back to. -/
def returnFolder (E : Env) (row : Row) : String :=
  destinationFolder E (if strip row.mailboxBefore = "" then "inbox" else strip row.mailboxBefore)

theorem strip_strip (text : String) : strip (strip text) = strip text := by
  unfold strip
  rw [String.toList_ofList, Text.strip_strip]

theorem destinationFolder_fold (name : String) (h : E.fold.fold name ∈ outlookWellKnown) :
    destinationFolder E (E.fold.fold name) = destinationFolder E name := by
  unfold destinationFolder
  rw [fold_wellKnown E.fold h, if_pos h, if_pos h]

/-- The decision that undoes the row. -/
def undoOf (E : Env) (row : Row) (account : Option Account) (id : Nat) : Decision :=
  { undoFromRow E row account with decisionId := id }

theorem outlookMove_undo {row : Row} (account : Option Account) (id : Nat)
    (hsource : row.source = .outlook) :
    (outlookMove E.fold (undoOf E row account id)).map (destinationFolder E) =
      if moved E row account then some (returnFolder E row) else none := by
  have hmailbox : (undoOf E row account id).mailboxBefore =
      if moved E row account then
        (if strip row.mailboxBefore ≠ "" then strip row.mailboxBefore else "inbox") else "" := by
    show undoMailbox E row account = _
    unfold undoMailbox
    rw [if_pos hsource]
  have hmove : outlookMove E.fold (undoOf E row account id) =
      if folderBefore E.fold (undoOf E row account id) ≠ "" then
        some (folderBefore E.fold (undoOf E row account id)) else none := rfl
  rw [hmove]
  cases hmoved : moved E row account with
  | false =>
    rw [hmoved, if_neg Bool.false_ne_true] at hmailbox
    have hfolder : folderBefore E.fold (undoOf E row account id) = "" := by
      have hempty : strip "" = "" := by decide
      unfold folderBefore
      dsimp only
      rw [hmailbox, hempty]
      split
      · rw [E.fold.fold_of_all (by decide)]
        decide
      · rfl
    rw [hfolder, if_neg (by decide), if_neg Bool.false_ne_true]
    rfl
  | true =>
    rw [hmoved, if_pos rfl] at hmailbox
    generalize hb : (if strip row.mailboxBefore ≠ "" then strip row.mailboxBefore
      else "inbox") = before at hmailbox
    have hreturn : returnFolder E row = destinationFolder E before := by
      unfold returnFolder
      rw [← hb]
      split <;> simp_all
    have hstrip : strip before = before := by
      rw [← hb]
      split
      · exact strip_strip _
      · decide
    have hne : before ≠ "" := by
      rw [← hb]
      split
      · next h => exact h
      · decide
    have hfolder : folderBefore E.fold (undoOf E row account id) =
        if E.fold.fold before ∈ outlookWellKnown then E.fold.fold before else before := by
      unfold folderBefore
      dsimp only
      rw [hmailbox, hstrip]
    rw [hfolder, if_pos rfl, hreturn]
    by_cases hknown : E.fold.fold before ∈ outlookWellKnown
    · have hfold : E.fold.fold before ≠ "" := by
        intro hempty
        rw [hempty] at hknown
        exact absurd hknown (by decide)
      rw [if_pos hknown, if_pos hfold, Option.map_some, destinationFolder_fold before hknown]
    · rw [if_neg hknown, if_pos hne, Option.map_some]

/-- The categories that an undo believes on the messages. -/
theorem labelsForUndo_outlook {row : Row} {account account' : Option Account}
    {calls : List Performed} {labels : List String} (hsource : row.source = .outlook)
    (hstored : row.receipt.currentLabels = some labels) :
    labelsForUndo E (outlookRow E row account calls) account' =
      match row.action with
      | .keep | .archive => kept labels ++ [row.category.labelName]
      | .markRead => labels
      | .draft => []
      | .undo => kept labels := by
  have hbelieved := outlookBelieved_decisionFromRow (E := E) account hstored
  have hlabels : (outlookRow E row account calls).receipt.currentLabels =
      if row.action = .draft then none
      else some (outlookCategories row.action row.category labels) := by
    rw [← hbelieved]
    rfl
  unfold labelsForUndo
  rw [hlabels]
  unfold outlookRow
  dsimp only
  rw [hsource]
  cases row.action <;> rfl

theorem kept_kept (labels : List String) (c : Category) :
    kept (kept labels ++ [c.labelName]) = kept labels := by
  unfold kept
  rw [List.filter_append, List.filter_filter]
  simp [isCerid_labelName]

theorem outlookRead_undo (row : Row) (account : Option Account) (id : Nat) :
    outlookRead (undoOf E row account id) =
      if row.action = .markRead then some false else none := by
  have hundone : (some row.action = some Action.markRead) = (row.action = .markRead) :=
    propext Option.some_inj
  show (if some row.action = some Action.markRead then some false else none) = _
  simp only [hundone]

theorem outlookPatch_undo (row : Row) (account : Option Account) (id : Nat) :
    outlookPatch (undoOf E row account id) =
      if kept (labelsForUndo E row account) = labelsForUndo E row account then none
      else some (kept (labelsForUndo E row account)) := by
  have hpatch : outlookPatch (undoOf E row account id) =
      if kept (labelsForUndo E row account) ≠ labelsForUndo E row account then
        some (kept (labelsForUndo E row account)) else none := rfl
  rw [hpatch, ite_not]

theorem outlookRead_decision {row : Row} {account : Option Account} (haction : row.action ≠ .undo) :
    outlookRead (decisionFromRow E row account) =
      if row.action = .markRead then some true else none := by
  unfold outlookRead decisionFromRow
  cases ha : row.action with
  | undo => exact absurd ha haction
  | _ => rfl

theorem kept_append_ne (labels : List String) (c : Category) :
    kept labels ≠ kept labels ++ [c.labelName] := by
  intro heq
  have hlength := congrArg List.length heq
  rw [List.length_append, List.length_singleton] at hlength
  omega

/-- What an undo of an applied row of Outlook makes of a message of the thread. -/
def outlookBack (E : Env) (row : Row) (account : Option Account) (labels : List String)
    (s : OutlookState) : OutlookState where
  folder :=
    if outlookMove E.fold (decisionFromRow E row account) = none then s.folder
    else returnFolder E row
  isRead := if row.action = .markRead then false else s.isRead
  categories :=
    match row.action with
    | .keep | .archive => kept labels
    | .markRead => if kept labels = labels then s.categories else kept labels
    | .draft | .undo => s.categories

section OutlookUndo

variable {row : Row} {account account' : Option Account} {id : Nat} {calls : List Performed}
  {labels : List String}

theorem outlookUndo_folder (hsource : row.source = .outlook)
    (hmoved : moved E (outlookRow E row account calls) account' = true ↔
      outlookMove E.fold (decisionFromRow E row account) ≠ none) (s : OutlookState) :
    (outlookEffect E (undoOf E (outlookRow E row account calls) account' id)
        (outlookEffect E (decisionFromRow E row account) s)).folder =
      (outlookBack E row account labels s).folder := by
  have hmove := outlookMove_undo (E := E) account' id
    (show (outlookRow E row account calls).source = .outlook from hsource)
  have hreturn : returnFolder E (outlookRow E row account calls) = returnFolder E row := rfl
  have heffect : ∀ d s, (outlookEffect E d s).folder =
      ((outlookMove E.fold d).map (destinationFolder E)).getD s.folder := fun _ _ => rfl
  have hback : (outlookBack E row account labels s).folder =
      if outlookMove E.fold (decisionFromRow E row account) = none then s.folder
      else returnFolder E row := rfl
  rw [heffect, hmove, hreturn, hback]
  by_cases hnone : outlookMove E.fold (decisionFromRow E row account) = none
  · rw [if_neg (fun h => (hmoved.mp h) hnone), if_pos hnone, Option.getD_none, heffect, hnone,
      Option.map_none, Option.getD_none]
  · rw [if_pos (hmoved.mpr hnone), if_neg hnone, Option.getD_some]

theorem outlookUndo_isRead (haction : row.action ≠ .undo) (s : OutlookState) :
    (outlookEffect E (undoOf E (outlookRow E row account calls) account' id)
        (outlookEffect E (decisionFromRow E row account) s)).isRead =
      (outlookBack E row account labels s).isRead := by
  have hread := outlookRead_undo (E := E) (outlookRow E row account calls) account' id
  have haction' : (outlookRow E row account calls).action = row.action := rfl
  have heffect : ∀ d s, (outlookEffect E d s).isRead = (outlookRead d).getD s.isRead :=
    fun _ _ => rfl
  have hback : (outlookBack E row account labels s).isRead =
      if row.action = .markRead then false else s.isRead := rfl
  rw [haction'] at hread
  rw [heffect, hread, heffect, outlookRead_decision haction, hback]
  by_cases hmark : row.action = .markRead
  · rw [if_pos hmark, if_pos hmark, if_pos hmark, Option.getD_some]
  · rw [if_neg hmark, if_neg hmark, if_neg hmark, Option.getD_none, Option.getD_none]

theorem outlookUndo_categories (hsource : row.source = .outlook) (haction : row.action ≠ .undo)
    (hstored : row.receipt.currentLabels = some labels) (s : OutlookState) :
    (outlookEffect E (undoOf E (outlookRow E row account calls) account' id)
        (outlookEffect E (decisionFromRow E row account) s)).categories =
      (outlookBack E row account labels s).categories := by
  have hpatch := outlookPatch_undo (E := E) (outlookRow E row account calls) account' id
  rw [labelsForUndo_outlook hsource hstored] at hpatch
  have hbefore := outlookEffect_categories (E := E) account hstored haction s
  unfold outlookBack
  dsimp only
  rw [outlookEffect, hpatch, hbefore]
  dsimp only
  cases ha : row.action with
  | keep =>
    dsimp only
    rw [kept_kept, if_neg (kept_append_ne labels _)]
    rfl
  | archive =>
    dsimp only
    rw [kept_kept, if_neg (kept_append_ne labels _)]
    rfl
  | markRead =>
    dsimp only
    have hno : ¬ ((Action.markRead = .keep ∨ Action.markRead = .archive) ∧
        kept labels ++ [row.category.labelName] ≠ labels) := fun hand => absurd hand.1 (by decide)
    rw [if_neg hno]
    split <;> rfl
  | draft =>
    dsimp only
    have hno : ¬ ((Action.draft = .keep ∨ Action.draft = .archive) ∧
        kept labels ++ [row.category.labelName] ≠ labels) := fun hand => absurd hand.1 (by decide)
    rw [if_neg hno]
    rfl
  | undo => exact absurd ha haction

theorem outlookUndo_effect (hsource : row.source = .outlook) (haction : row.action ≠ .undo)
    (hstored : row.receipt.currentLabels = some labels)
    (hmoved : moved E (outlookRow E row account calls) account' = true ↔
      outlookMove E.fold (decisionFromRow E row account) ≠ none) (s : OutlookState) :
    outlookEffect E (undoOf E (outlookRow E row account calls) account' id)
        (outlookEffect E (decisionFromRow E row account) s) =
      outlookBack E row account labels s := by
  generalize hafter : outlookEffect E (undoOf E (outlookRow E row account calls) account' id)
    (outlookEffect E (decisionFromRow E row account) s) = after
  generalize hback : outlookBack E row account labels s = back
  have hfolder : after.folder = back.folder := by
    rw [← hafter, ← hback]
    exact outlookUndo_folder hsource hmoved s
  have hisRead : after.isRead = back.isRead := by
    rw [← hafter, ← hback]
    exact outlookUndo_isRead haction s
  have hcategories : after.categories = back.categories := by
    rw [← hafter, ← hback]
    exact outlookUndo_categories hsource haction hstored s
  obtain ⟨folder, isRead, categories⟩ := after
  obtain ⟨folder', isRead', categories'⟩ := back
  dsimp only at hfolder hisRead hcategories
  rw [hfolder, hisRead, hcategories]

/-- An undo that goes through names every message of the thread: by the id that its move gave
it, or, where a move did not name one, by an id that must still be there. -/
theorem undo_names {u : Decision} {moves : List Performed} {w w₁ w₂ w₃ : World}
    (hthreaded : Threaded E (decisionFromRow E row account) row.messageIds (moveCalls calls) w w₁)
    (hundone : Threaded E u u.messageIds moves w₂ w₃) (houtlook : w₂.outlook = w₁.outlook)
    (hids : u.messageIds =
      if outlookIdsAfter calls ≠ [] then outlookIdsAfter calls else row.messageIds)
    (hmove : outlookMove E.fold (decisionFromRow E row account) ≠ none →
      outlookMove E.fold u ≠ none)
    {n : Nat} {m m₁ : OutlookMessage} (hm : w.outlook.messages[n]? = some m)
    (hid : m.id ∈ row.messageIds) (hm₁ : w₁.outlook.messages[n]? = some m₁)
    (htouched : Touched E (decisionFromRow E row account) row.messageIds w.outlook.used
      (moveCalls calls) m m₁) : m₁.id ∈ u.messageIds := by
  have hafter : outlookIdsAfter calls =
      if (moveCalls calls).any (fun p => p.echoed = "") then []
      else (moveCalls calls).map Performed.echoed := rfl
  have hused : m.id ∈ w.outlook.used := w.outlook.all_used m (List.mem_of_getElem? hm)
  by_cases hnone : outlookMove E.fold (decisionFromRow E row account) = none
  · have hrecorded := hthreaded.recorded
    rw [hnone] at hrecorded
    have hnil : moveCalls calls = [] := List.map_eq_nil_iff.mp hrecorded
    have hempty : outlookIdsAfter calls = [] := by
      rw [hafter, hnil]
      rfl
    rw [hids, if_neg (not_not.mpr hempty), htouched.still hnone]
    exact hid
  · by_cases hempty : outlookIdsAfter calls = []
    · rw [if_neg (not_not.mpr hempty)] at hids
      rw [hids]
      have hmem : m.id ∈ w₁.outlook.ids := by
        rw [← houtlook]
        refine hundone.found (hmove hnone) m.id (hids ▸ hid) ?_
        rw [houtlook]
        exact hthreaded.used m.id hused
      obtain ⟨m', hm', hid'⟩ := List.mem_map.mp hmem
      obtain ⟨k, hk⟩ := List.mem_iff_getElem?.mp hm'
      -- the message under the old id is the one that had it before
      have hklt : k < w.outlook.messages.length := by
        rw [← hthreaded.length]
        exact (List.getElem?_eq_some_iff.mp hk).1
      obtain ⟨m₂, hm₂, htouched₂⟩ := hthreaded.messages k w.outlook.messages[k]
        (List.getElem?_eq_getElem hklt)
      have hm₂' : m₂ = m' := Option.some.inj (hm₂.symm.trans hk)
      have hsame : w.outlook.messages[k].id = m.id := by
        rcases htouched₂.fresh with hf | hf
        · rw [← hf, hm₂', hid']
        · rw [hm₂', hid'] at hf
          exact absurd hused hf
      have hkn : k = n := by
        have hget : (w.outlook.messages.map OutlookMessage.id)[k]? =
            (w.outlook.messages.map OutlookMessage.id)[n]? := by
          rw [List.getElem?_map, List.getElem?_map, hm, List.getElem?_eq_getElem hklt,
            Option.map_some, Option.map_some, hsame]
        have hlt : k < (w.outlook.messages.map OutlookMessage.id).length := by
          rw [List.length_map]
          exact hklt
        exact (List.getElem?_inj hlt w.outlook.nodup).mp hget
      subst hkn
      rw [Option.some.inj (hm₁.symm.trans hk), hid']
      exact hid
    · rw [if_pos hempty] at hids
      have hechoed : (moveCalls calls).any (fun p => p.echoed = "") = false := by
        by_contra hany
        rw [Bool.not_eq_false] at hany
        rw [hany, if_pos rfl] at hafter
        exact hempty hafter
      rw [hechoed, if_neg Bool.false_ne_true] at hafter
      rw [hids, hafter]
      refine htouched.named hid hnone (fun p hp heq => ?_)
      rw [List.any_eq_false] at hechoed
      exact hechoed p hp (decide_eq_true heq)

end OutlookUndo

/-- Every message of the thread, after an applied decision of Outlook and its undo. -/
theorem outlook_undone {row : Row} {calls calls' : List Performed} {labels : List String}
    {w w' w'' : World} (hstands : StandsOpen row w) (hsource : row.source = .outlook)
    (haction : row.action ≠ .undo) (hstored : row.receipt.currentLabels = some labels)
    (happlied : applyProposed E row false true w = (.applied calls, w'))
    (hundo : undoDecision E row.id false true w' = (.applied calls', w'')) (n : Nat)
    (m : OutlookMessage) (hm : w.outlook.messages[n]? = some m) (hid : m.id ∈ row.messageIds) :
    ∃ m', w''.outlook.messages[n]? = some m' ∧
      m'.state = outlookBack E row (rowAccount w row) labels m.state := by
  rcases applyProposed_applied happlied with happly | ⟨hgmail, -⟩
  · obtain ⟨w₁, hthreaded, rfl⟩ := applied_outlook happly hsource
    have hleave := applied_leave happly hsource
    obtain ⟨row', hget, -, w₂, happly', rfl⟩ := undoDecision_applied hundo
    have hrow' : row' = outlookRow E row (rowAccount w row) calls := by
      unfold recordDecision at hget
      dsimp only at hget
      rw [hthreaded.ledger] at hget
      have hrecorded := (Ledger.getDecision_record w.ledger row.id .applied
        (outlookRow E row (rowAccount w row) calls).receipt row.id).symm.trans hget
      rw [hstands.1, Option.map_some, if_pos rfl] at hrecorded
      exact (Option.some.inj hrecorded).symm
    subst hrow'
    obtain ⟨w₃, hundone, rfl⟩ := applied_outlook happly' hsource
    generalize rowAccount (recordDecision _ _ _ w₁) _ = account' at hundone
    generalize List.length _ = undoId at hundone
    have hids : row.messageIds ≠ [] := List.ne_nil_of_mem hid
    have hmoved := moved_outlookRow account' haction hids hleave hthreaded
    obtain ⟨m₁, hm₁, htouched⟩ := hthreaded.messages n m hm
    obtain ⟨m₂, hm₂, htouched₂⟩ := hundone.messages n m₁ hm₁
    refine ⟨m₂, hm₂, ?_⟩
    have hreach : m₁.id ∈ (undoOf E (outlookRow E row (rowAccount w row) calls) account'
        undoId).messageIds := by
      refine undo_names hthreaded hundone rfl rfl (fun hne => ?_) hm hid hm₁ htouched
      have hmove := outlookMove_undo (E := E) account' undoId
        (show (outlookRow E row (rowAccount w row) calls).source = .outlook from hsource)
      rw [if_pos (hmoved.mpr hne)] at hmove
      intro hnone
      rw [show outlookMove E.fold (undoOf E (outlookRow E row (rowAccount w row) calls) account'
        undoId) = none from hnone] at hmove
      exact nomatch hmove
    rw [htouched₂.hit hreach, htouched.hit hid]
    exact outlookUndo_effect hsource haction hstored hmoved m.state
  · exact nomatch hsource.symm.trans hgmail

/-! ## Apple Mail -/

/-- Two worlds with the same mail and the same queue. -/
structure SameQueue (v w : World) : Prop where
  apple : v.apple = w.apple
  asked : v.asked = w.asked
  performed : v.performed = w.performed
  outbox : v.ledger.outbox = w.ledger.outbox

theorem tell_same {v w : World} (h : SameQueue v w) (decisionId : Nat) (c : Command) :
    ∃ answer v' w', tell E decisionId c v = (.ok answer, v') ∧
      tell E decisionId c w = (.ok answer, w') ∧ SameQueue v' w' := by
  have hreply : reply E v c.id = reply E w c.id := by
    unfold reply
    rw [h.apple, h.asked]
  rw [tell_eq, tell_eq, hreply]
  refine ⟨_, _, _, rfl, rfl, ?_⟩
  split
  · exact ⟨congrArg c.run h.apple, congrArg (· + 1) h.asked,
      congrArg ((decisionId, c) :: ·) h.performed, h.outbox⟩
  · exact ⟨h.apple, congrArg (· + 1) h.asked, h.performed, h.outbox⟩

theorem flushCommands_same {v w : World} (h : SameQueue v w) (decisionId : Nat)
    (cs : List Command) :
    ∃ r v' w', flushCommands E decisionId cs v = (r, v') ∧
      flushCommands E decisionId cs w = (r, w') ∧ SameQueue v' w' := by
  induction cs generalizing v w with
  | nil => exact ⟨_, _, _, rfl, rfl, h⟩
  | cons c rest ih =>
    obtain ⟨answer, v', w', hv, hw, hsame⟩ := tell_same (E := E) h decisionId c
    rw [flushCommands, Exec.bind_apply, Exec.bind_apply, hv, hw]
    cases answer with
    | done => exact ih hsame
    | notRunning => exact ⟨_, _, _, rfl, rfl, hsame⟩
    | denied => exact ⟨_, _, _, rfl, rfl, hsame⟩
    | failed reason => exact ⟨_, _, _, rfl, rfl, hsame⟩

theorem flushRows_same {v w : World} (h : SameQueue v w) (rows : List OutboxRow) :
    SameQueue (flushRows E rows v).2 (flushRows E rows w).2 := by
  induction rows generalizing v w with
  | nil => exact h
  | cons row rest ih =>
    obtain ⟨r, v', w', hv, hw, hsame⟩ :=
      flushCommands_same (E := E) h row.decisionId row.commands
    rw [flushRows, Exec.bind_apply, Exec.bind_apply, hv, hw]
    cases r with
    | error e => exact hsame
    | ok finished =>
      cases finished with
      | false => exact hsame
      | true =>
        refine ih ⟨hsame.apple, hsame.asked, hsame.performed, ?_⟩
        exact congrArg (List.filter (fun r => r.decisionId ≠ row.decisionId)) hsame.outbox

/-- What a flush carries out depends on the mail and the queue alone. -/
theorem queuedCommands_same {v w : World} (h : SameQueue v w) :
    queuedCommands E v = queuedCommands E w := by
  have hflushed : SameQueue (flushed E v) (flushed E w) := by
    have hrows := flushRows_same (E := E) h w.ledger.outbox
    have hv : flushed E v = (flushRows E v.ledger.outbox v).2 := rfl
    rw [hv, h.outbox]
    exact hrows
  unfold queuedCommands carriedOut
  rw [hflushed.performed, h.performed]

/-- The mailbox that an undo moves the messages of an applied row back to. -/
def returnMailbox (E : Env) (row : Row) (w : World) : String :=
  let d := decisionFromRow E row (rowAccount w row)
  let before := foundMailbox d (planCommands d) (flushed E w)
  if strip before = "" then "INBOX" else before

theorem returnMailbox_ne (row : Row) (w : World) : returnMailbox E row w ≠ "" := by
  unfold returnMailbox
  dsimp only
  split
  · decide
  · next h =>
    intro hempty
    rw [hempty] at h
    exact h (by decide)

/-- A message between an applied decision and the undo's own commands. -/
def heldThrough (E : Env) (row : Row) (w w' : World) (id : String) (m : AppleMessage) :
    AppleMessage :=
  replayOn (queuedCommands E w') id
    (appleEffect (decisionFromRow E row (rowAccount w row)) (replayOn (queuedCommands E w) id m))

/-- The row that an applied decision of Apple Mail leaves. -/
theorem apple_row {row : Row} {calls : List Performed} {w w' : World}
    (hstands : StandsOpen row w) (hsource : row.source = .appleMail)
    (happlied : applyProposed E row false true w = (.applied calls, w')) :
    ∃ row', w'.ledger.getDecision row.id = some row' ∧ row'.source = .appleMail ∧
      row'.messageIds = row.messageIds ∧ row'.receipt.messageIds = [] ∧
      row'.mailboxBefore = foundMailbox (decisionFromRow E row (rowAccount w row))
        (planCommands (decisionFromRow E row (rowAccount w row))) (flushed E w) := by
  rcases applyProposed_applied happlied with happly | ⟨hgmail, -⟩
  · obtain ⟨w₁, -, -, hledger, rfl⟩ := applied_apple happly hsource
    generalize hfound : foundMailbox (decisionFromRow E row (rowAccount w row))
      (planCommands (decisionFromRow E row (rowAccount w row))) (flushed E w) = found at hledger
    have hstill : (flushed E w).ledger.getDecision row.id = some row := by
      unfold Ledger.getDecision
      rw [(flushed_flushes E w).2]
      exact hstands.1
    have hrow : w₁.ledger.getDecision row.id = some { row with mailboxBefore := found } := by
      rw [hledger]
      by_cases hset : row.mailboxBefore = "" ∧ found ≠ ""
      · have hget := Ledger.getDecision_setMailboxBefore (flushed E w).ledger row.id found row.id
        rw [hstill, Option.map_some, if_pos rfl] at hget
        exact (congrArg (fun l : Ledger => l.getDecision row.id) (if_pos hset)).trans hget
      · have hsame : row.mailboxBefore = found := by
          by_cases hbefore : row.mailboxBefore = ""
          · rw [not_and, not_not] at hset
            rw [hbefore, hset hbefore]
          · rw [← hfound]
            exact (if_pos hbefore).symm
        rw [← hsame]
        rw [← hsame] at hset
        exact (congrArg (fun l : Ledger => l.getDecision row.id) (if_neg hset)).trans hstill
    have hrecorded := Ledger.getDecision_record w₁.ledger row.id .applied
      (keptReceipt (decisionFromRow E row (rowAccount w row)) { calls := some calls }) row.id
    rw [hrow, Option.map_some, if_pos rfl] at hrecorded
    exact ⟨_, hrecorded, hsource, rfl, rfl, rfl⟩
  · exact nomatch hsource.symm.trans hgmail

/-- Every message of the thread, after an applied decision of Apple Mail and its undo. -/
theorem apple_undone {row : Row} {calls calls' : List Performed} {w w' w'' : World}
    (hstands : StandsOpen row w) (hsource : row.source = .appleMail)
    (happlied : applyProposed E row false true w = (.applied calls, w'))
    (hundo : undoDecision E row.id false true w' = (.applied calls', w'')) (id : String)
    (m : AppleMessage) (hm : w.apple.get? id = some m) (hid : id ∈ row.messageIds) :
    w''.apple.get? id =
      some { heldThrough E row w w' id m with mailbox := returnMailbox E row w } := by
  have hfiled := apple_filed happlied hsource id m hm
  rw [if_pos hid] at hfiled
  obtain ⟨row', hrow, hsource', hids, hreceipt, hbefore⟩ := apple_row hstands hsource happlied
  obtain ⟨row'', hget, -, w₂, happly, rfl⟩ := undoDecision_applied hundo
  have hrow' : row'' = row' := Option.some.inj (hget.symm.trans hrow)
  subst hrow'
  obtain ⟨w₃, hcarries, -, -, rfl⟩ := applied_apple happly hsource'
  have hqueue : queuedCommands E
      { w' with ledger :=
          w'.ledger.propose (undoRow row'' (undoFromRow E row'' (rowAccount w' row''))) } =
      queuedCommands E w' := queuedCommands_same ⟨rfl, rfl, rfl, rfl⟩
  generalize rowAccount w' row'' = account at hcarries hqueue
  generalize List.length _ = undoId at hcarries
  have hmessageIds : (undoOf E row'' account undoId).messageIds = row.messageIds := by
    show (if row''.receipt.messageIds ≠ [] then row''.receipt.messageIds else row''.messageIds) = _
    rw [hreceipt, if_neg (not_not.mpr rfl), hids]
  have hback : mailboxBack (undoOf E row'' account undoId) = returnMailbox E row w := by
    have hmailbox : (undoOf E row'' account undoId).mailboxBefore = returnMailbox E row w := by
      show undoMailbox E row'' account = _
      unfold undoMailbox returnMailbox
      rw [hsource', hbefore]
      rfl
    unfold mailboxBack
    rw [hmailbox, if_neg (returnMailbox_ne row w)]
  have hmap : ((planCommands (undoOf E row'' account undoId)).map
      (fun c => ((undoOf E row'' account undoId).decisionId, c))).map Prod.snd =
        planCommands (undoOf E row'' account undoId) := by
    rw [List.map_map]
    exact List.map_id' _
  have happle : w₃.apple = replay (planCommands (undoOf E row'' account undoId))
      (replay (queuedCommands E w') w'.apple) := by
    rw [hcarries.apple, flushed_apple, hqueue]
    exact congrArg (fun cs => replay cs _) hmap
  show w₃.apple.get? id = _
  rw [happle, get?_replay, get?_replay, hfiled, Option.map_some, Option.map_some]
  unfold planCommands
  rw [replayOn_planCommands, hmessageIds, if_pos hid]
  have heffect : ∀ m, appleEffect (undoOf E row'' account undoId) m =
      { m with mailbox := mailboxBack (undoOf E row'' account undoId) } := fun _ => rfl
  rw [heffect, hback]
  rfl

end Env

end Cerid.Inbox
