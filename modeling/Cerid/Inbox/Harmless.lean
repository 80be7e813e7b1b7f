import Cerid.Inbox.FineCalls

/-!
# Applies that do no harm

Two destinations are not looked at: a folder below a folder of Outlook that an undo goes back to,
and the mailbox of a command that was queued.  When every call succeeds, they are moved to.
-/

namespace Cerid.Inbox

variable {E : Env} {J : Junk E} {R : Replies} {queue : Prop}

/-! ## What is asked when everything succeeds -/

/-- Every call is answered, and every folder is there. -/
def Replies.fine : Replies where
  answer := fun _ => .done
  labels := fun _ => []
  created := fun _ => none
  confirms := fun _ => false
  listed := fun _ => true
  made := fun _ => true
  mailbox := fun _ => ""
  place := fun _ => 0

theorem callTool_fine {name : String} (hname : name ∉ forbiddenTools)
    (htool : name ∈ providerTools .outlook) (destination : Option String) (s : Desk) :
    callTool .fine .outlook name destination s =
      (.ok s.calls.length, { s with calls := s.calls ++ [.tool .outlook name destination] }) := by
  rw [callTool, if_neg (by rw [not_or, not_not]; exact ⟨hname, htool⟩)]
  rfl

theorem resolveDestination_fine {destination : String}
    (hrefused : E.fold.fold destination ∉ ["deleteditems", "junkemail"])
    (hknown : E.fold.fold destination ∉ outlookWellKnown) (hslash : '/' ∈ destination.toList)
    (s : Desk) :
    ∃ s', resolveDestination .fine E destination s = (.ok (E.folderId destination), s') ∧
      ∀ a ∈ s.calls, a ∈ s'.calls := by
  rw [resolveDestination, if_neg hrefused, if_neg hknown, if_neg (not_not.mpr hslash)]
  have hfolder : ∀ (top : Bool) (t : Desk), ∃ t', askFolder .fine top t = (.ok (), t') ∧
      ∀ a ∈ t.calls, a ∈ t'.calls := by
    intro top t
    cases top with
    | true =>
      refine ⟨{ t with calls := t.calls ++ [.tool .outlook "list-mail-folders" none] }, ?_,
        fun a ha => List.mem_append_left _ ha⟩
      show ((callTool .fine .outlook "list-mail-folders" none) >>= _) t = _
      rw [Exec.bind_apply, callTool_fine (by decide) (by decide)]
      rfl
    | false =>
      refine ⟨{ t with calls := t.calls ++ [.tool .outlook "list-mail-child-folders" none] }, ?_,
        fun a ha => List.mem_append_left _ ha⟩
      show ((callTool .fine .outlook "list-mail-child-folders" none) >>= _) t = _
      rw [Exec.bind_apply, callTool_fine (by decide) (by decide)]
      rfl
  obtain ⟨s₁, hs₁, hsub₁⟩ := hfolder true s
  obtain ⟨s₂, hs₂, hsub₂⟩ := hfolder false s₁
  refine ⟨s₂, ?_, fun a ha => hsub₂ a (hsub₁ a ha)⟩
  rw [Exec.bind_apply, hs₁]
  dsimp only
  rw [Exec.bind_apply, hs₂]
  rfl

/-- A call of an undo: a change of a message, or a move to a folder below another. -/
def UndoCall (E : Env) : Call → Prop
  | .patchCategories .. | .patchRead .. => True
  | .moveMessage _ destination => E.fold.fold destination ∉ ["deleteditems", "junkemail"] ∧
      E.fold.fold destination ∉ outlookWellKnown ∧ '/' ∈ destination.toList
  | _ => False

theorem askOutlook_fine {calls : List Call} (h : ∀ c ∈ calls, UndoCall E c) (s : Desk) :
    ∃ s', askOutlook .fine E calls s = (.ok (), s') ∧ (∀ a ∈ s.calls, a ∈ s'.calls) ∧
      ∀ id destination, Call.moveMessage id destination ∈ calls →
        Ask.tool .outlook "move-mail-message" (some (E.folderId destination)) ∈ s'.calls := by
  induction calls generalizing s with
  | nil => exact ⟨s, rfl, fun _ ha => ha, fun _ _ hmem => absurd hmem List.not_mem_nil⟩
  | cons call rest ih =>
    have hrest := ih fun c hc => h c (List.mem_cons_of_mem call hc)
    have hplain : ∀ (hcall : askOutlook .fine E (call :: rest) =
        callTool .fine .outlook "update-mail-message" none >>= fun _ => askOutlook .fine E rest)
        (hne : ∀ id destination, call ≠ .moveMessage id destination),
        ∃ s', askOutlook .fine E (call :: rest) s = (.ok (), s') ∧ (∀ a ∈ s.calls, a ∈ s'.calls) ∧
          ∀ id destination, Call.moveMessage id destination ∈ call :: rest →
            Ask.tool .outlook "move-mail-message" (some (E.folderId destination)) ∈ s'.calls := by
      intro hcall hne
      obtain ⟨s', hs', hsub, hmoves⟩ := hrest
        { s with calls := s.calls ++ [.tool .outlook "update-mail-message" none] }
      refine ⟨s', ?_, fun a ha => hsub a (List.mem_append_left _ ha), fun id destination hmem => ?_⟩
      · rw [hcall, Exec.bind_apply, callTool_fine (by decide) (by decide)]
        exact hs'
      · rcases List.mem_cons.mp hmem with heq | hmem
        · exact absurd heq.symm (hne id destination)
        · exact hmoves id destination hmem
    have hthis := h call List.mem_cons_self
    cases call with
    | patchCategories => exact hplain rfl nofun
    | patchRead => exact hplain rfl nofun
    | moveMessage id destination =>
      obtain ⟨hrefused, hknown, hslash⟩ := hthis
      obtain ⟨s₁, hs₁, hsub₁⟩ := resolveDestination_fine hrefused hknown hslash s
      obtain ⟨s', hs', hsub, hmoves⟩ := hrest
        { s₁ with calls :=
            s₁.calls ++ [.tool .outlook "move-mail-message" (some (E.folderId destination))] }
      refine ⟨s', ?_, fun a ha => hsub a (List.mem_append_left _ (hsub₁ a ha)),
        fun id' destination' hmem => ?_⟩
      · rw [askOutlook, Exec.bind_apply, hs₁]
        dsimp only
        rw [Exec.bind_apply, callTool_fine (by decide) (by decide)]
        exact hs'
      · rcases List.mem_cons.mp hmem with heq | hmem
        · cases heq
          exact hsub _ (List.mem_append_right _ List.mem_cons_self)
        · exact hmoves id' destination' hmem
    | batchModify => exact hthis.elim
    | draftGmail => exact hthis.elim
    | replyDraft => exact hthis.elim
    | apple => exact hthis.elim
    | listLabels => exact hthis.elim
    | createLabel => exact hthis.elim
    | listFolders => exact hthis.elim
    | createFolder => exact hthis.elim

theorem flushArgvs_fine (argvs : List (List String)) (s : Desk) :
    flushArgvs .fine argvs s = (.ok true, { s with calls := s.calls ++ argvs.map .apple }) := by
  induction argvs generalizing s with
  | nil =>
    rw [List.map_nil, List.append_nil]
    rfl
  | cons argv rest ih =>
    rw [List.map_cons, List.append_cons]
    exact ih { s with calls := s.calls ++ [.apple argv] }

theorem flushQueued_fine (rows : List Queued) (s : Desk) :
    ∃ s', flushQueued .fine rows s = (.ok (), s') ∧ (∀ a ∈ s.calls, a ∈ s'.calls) ∧
      ∀ row ∈ rows, row.provider = "apple_mail" → ∀ argv ∈ row.commands,
        Ask.apple argv ∈ s'.calls := by
  induction rows generalizing s with
  | nil => exact ⟨s, rfl, fun _ ha => ha, fun _ hmem => absurd hmem List.not_mem_nil⟩
  | cons row rest ih =>
    rw [flushQueued]
    by_cases hprovider : row.provider ≠ "apple_mail"
    · rw [if_pos hprovider]
      obtain ⟨s', hs', hsub, hrows⟩ := ih s
      refine ⟨s', hs', hsub, fun row' hmem happle => ?_⟩
      rcases List.mem_cons.mp hmem with rfl | hmem
      · exact absurd happle hprovider
      · exact hrows row' hmem happle
    · rw [if_neg hprovider, Exec.bind_apply, flushArgvs_fine]
      obtain ⟨s', hs', hsub, hrows⟩ := ih
        { calls := s.calls ++ row.commands.map .apple
          outbox := s.outbox.filter fun r => r.decisionId ≠ row.decisionId }
      refine ⟨s', hs', fun a ha => hsub a (List.mem_append_left _ ha), fun row' hmem happle => ?_⟩
      rcases List.mem_cons.mp hmem with rfl | hmem
      · exact fun argv hargv => hsub _ (List.mem_append_right _ (List.mem_map_of_mem hargv))
      · exact hrows row' hmem happle

theorem askCommands_fine (decisionId : String) (all argvs : List (List String)) (s : Desk) :
    askCommands .fine decisionId all argvs s =
      (.ok (), { s with calls := s.calls ++ argvs.map .apple }) := by
  induction argvs generalizing s with
  | nil =>
    rw [List.map_nil, List.append_nil]
    rfl
  | cons argv rest ih =>
    rw [List.map_cons, List.append_cons]
    exact ih { s with calls := s.calls ++ [.apple argv] }

theorem askApple_fine (decisionId mailbox : String) (commands : List Command) (s : Desk) :
    (∀ row ∈ s.outbox, row.provider = "apple_mail" → ∀ argv ∈ row.commands,
      Ask.apple argv ∈ (askApple .fine decisionId mailbox commands s).2.calls) ∧
    ∀ c ∈ commands, Ask.apple c.argv ∈ (askApple .fine decisionId mailbox commands s).2.calls := by
  obtain ⟨s₁, hs₁, hsub, hrows⟩ := flushQueued_fine s.outbox s
  have hflushed : ∀ next : Unit → Asking Unit,
      (flushQueued .fine s.outbox >>= next) s = next () s₁ := by
    intro next
    rw [Exec.bind_apply]
    generalize flushQueued .fine s.outbox s = flushed at hs₁
    subst hs₁
    rfl
  cases commands with
  | nil =>
    have hask : askApple .fine decisionId mailbox [] s = (pure () : Asking Unit) s₁ := hflushed _
    rw [hask]
    exact ⟨hrows, fun _ hmem => absurd hmem List.not_mem_nil⟩
  | cons first rest =>
    have hasked : ∀ t : Desk, (∀ a ∈ s₁.calls, a ∈ t.calls) →
        (∀ row ∈ s.outbox, row.provider = "apple_mail" → ∀ argv ∈ row.commands,
          Ask.apple argv ∈ (askCommands .fine decisionId ((first :: rest).map Command.argv)
            ((first :: rest).map Command.argv) t).2.calls) ∧
        ∀ c ∈ first :: rest, Ask.apple c.argv ∈ (askCommands .fine decisionId
          ((first :: rest).map Command.argv) ((first :: rest).map Command.argv) t).2.calls := by
      intro t ht
      rw [askCommands_fine]
      refine ⟨fun row hrow happle argv hargv => ?_, fun c hc => ?_⟩
      · exact List.mem_append_left _ (ht _ (hrows row hrow happle argv hargv))
      · exact List.mem_append_right _ (List.mem_map_of_mem (List.mem_map_of_mem hc))
    by_cases hmailbox : mailbox ≠ ""
    · have hask : askApple .fine decisionId mailbox (first :: rest) s =
          askCommands .fine decisionId ((first :: rest).map Command.argv)
            ((first :: rest).map Command.argv) s₁ :=
        (hflushed _).trans (congrFun (if_pos hmailbox) s₁)
      rw [hask]
      exact hasked s₁ fun _ ha => ha
    · have hask : askApple .fine decisionId mailbox (first :: rest) s =
          askCommands .fine decisionId ((first :: rest).map Command.argv)
            ((first :: rest).map Command.argv)
            { s₁ with calls := s₁.calls ++ [.apple (Command.find first.id).argv] } :=
        (hflushed _).trans (congrFun (if_neg hmailbox) s₁)
      rw [hask]
      exact hasked _ fun a ha => List.mem_append_left _ ha

/-! ## The exact condition -/

/-- The move of an undo in Outlook, which the checks have let through. -/
theorem undoCalls {read : Decision} {plan : ApplyPlan} (hcheck : Checked E read plan)
    (hp : read.provider = .outlook) (ha : read.action = .undo)
    (hslash : '/' ∈ (folderBefore E.fold read).toList) :
    (∀ c ∈ plan.calls, UndoCall E c) ∧
      ∃ id, Call.moveMessage id (folderBefore E.fold read) ∈ plan.calls := by
  obtain ⟨hids, hplan⟩ := planApply_of_accepted hcheck
  rw [hp] at hplan
  dsimp only at hplan
  have hcalls : plan.calls = read.messageIds.flatMap (outlookCalls E.fold read) := by
    rw [hplan, planOutlook, if_neg (by rw [ha]; decide)]
  have hne : folderBefore E.fold read ≠ "" := fun h => by
    rw [h] at hslash
    exact absurd hslash List.not_mem_nil
  have hmove : ∀ id, Call.moveMessage id (folderBefore E.fold read) ∈ outlookCalls E.fold read id := by
    intro id
    rw [outlookCalls, ha]
    simp [hne]
  obtain ⟨id, hid⟩ := List.exists_mem_of_ne_nil _ hids
  have hmem : Call.moveMessage id (folderBefore E.fold read) ∈ plan.calls := by
    rw [hcalls]
    exact List.mem_flatMap.mpr ⟨id, hid, hmove id⟩
  have hknown : E.fold.fold (folderBefore E.fold read) ∉ outlookWellKnown := by
    have hfolds : E.fold.fold (strip read.mailboxBefore) ∈ outlookWellKnown →
        folderBefore E.fold read ∈ outlookWellKnown := fun h => by
      rw [folderBefore, if_pos h]
      exact h
    have hplain : folderBefore E.fold read ∉ outlookWellKnown := by
      intro h
      revert hslash
      have hall : ∀ name ∈ outlookWellKnown, '/' ∉ name.toList := by decide
      exact hall _ h
    have hsame : folderBefore E.fold read = strip read.mailboxBefore := by
      rw [folderBefore, if_neg fun h => hplain (hfolds h)]
    rw [hsame]
    exact fun h => hplain (hfolds h)
  have hrefused : E.fold.fold (folderBefore E.fold read) ∉ ["deleteditems", "junkemail"] := by
    intro hjunk
    have hnone := hcheck.refused
    rw [refusedTool] at hnone
    split at hnone
    · cases hnone
    · split at hnone
      · cases hnone
      · rename_i hno
        exact hno (List.any_eq_true.mpr ⟨_, hmem, decide_eq_true hjunk⟩)
  refine ⟨fun c hc => ?_, id, hmem⟩
  rw [hcalls] at hc
  obtain ⟨id', -, hc⟩ := List.mem_flatMap.mp hc
  rw [outlookCalls, ha] at hc
  simp only [List.mem_append, List.mem_ite_nil_right, List.mem_singleton, List.not_mem_nil,
    or_false] at hc
  rcases hc with ⟨-, hc⟩ | ⟨-, hc⟩ | ⟨-, hc⟩
  · rw [hc]
    exact trivial
  · rw [hc]
    exact trivial
  · rw [hc]
    exact ⟨hrefused, hknown, hslash⟩

theorem guarded_of_harmless {J : Junk E} {d : RawDecision} {dryRun enabled : Bool}
    {outbox : List Queued} {read : Decision} {plan : ApplyPlan}
    (hperforms : performs E d dryRun enabled = some (read, plan))
    (h : Harmless J d dryRun enabled outbox) : Guarded J read outbox := by
  have hcheck := checked_of_performs hperforms
  obtain ⟨hids, hplan⟩ := planApply_of_accepted hcheck
  have hasked : ∀ a ∈ (askPlan .fine E d.decisionId read plan { calls := [], outbox }).2.calls,
      a.Fine J := by
    have hall := h .fine
    rw [askDecision, hperforms] at hall
    exact hall
  unfold Guarded
  rw [askPlan] at hasked
  cases hp : read.provider with
  | gmail => exact trivial
  | outlook =>
    rw [hp] at hasked
    dsimp only at hasked ⊢
    intro ha hslash
    obtain ⟨hundo, id, hmem⟩ := undoCalls hcheck hp ha hslash
    obtain ⟨s', hs', -, hmoves⟩ := askOutlook_fine hundo { calls := [], outbox }
    rw [hs'] at hasked
    exact (hasked _ (hmoves id _ hmem)).2.2 _ rfl
  | appleMail =>
    rw [hp] at hasked hplan
    dsimp only at hasked hplan ⊢
    obtain ⟨hqueued, hcommands⟩ := askApple_fine d.decisionId read.mailboxBefore
      (plan.calls.filterMap Call.command?) { calls := [], outbox }
    refine ⟨fun row hrow happle argv hargv => hasked _ (hqueued row hrow happle argv hargv),
      fun ha => ?_⟩
    obtain ⟨id, hid⟩ := List.exists_mem_of_ne_nil _ hids
    have hmem : Command.move id (mailboxBack read) ∈ plan.calls.filterMap Call.command? := by
      refine List.mem_filterMap.mpr ⟨.apple (.move id (mailboxBack read)), ?_, rfl⟩
      have herror := hcheck.accepted
      rw [hplan, planApple] at herror ⊢
      split at herror
      · exact absurd herror (by decide)
      · rename_i hbanned
        rw [if_neg hbanned, if_neg (by rw [ha]; simp), if_neg (by rw [ha]; simp)]
        refine List.mem_flatMap.mpr ⟨id, hid, ?_⟩
        rw [appleCommands, ha]
        exact List.mem_singleton_self _
    obtain ⟨_, _, _, _, hmove⟩ := hasked _ (hcommands _ hmem)
    exact hmove _ rfl

/-- An apply is harmless, whatever the services reply, exactly if what the checks do not look at is
no junk folder, and what is queued for Mail is fine itself. -/
theorem harmless_iff (J : Junk E) (d : RawDecision) (dryRun enabled : Bool) (outbox : List Queued) :
    Harmless J d dryRun enabled outbox ↔
      ∀ read plan, performs E d dryRun enabled = some (read, plan) → Guarded J read outbox := by
  constructor
  · exact fun h read plan hperforms => guarded_of_harmless hperforms h
  · intro h R a ha
    rw [askDecision] at ha
    cases hperforms : performs E d dryRun enabled with
    | none =>
      rw [hperforms] at ha
      exact absurd ha List.not_mem_nil
    | some pair =>
      obtain ⟨read, plan⟩ := pair
      rw [hperforms] at ha
      have hguarded := h read plan hperforms
      have hcheck := checked_of_performs hperforms
      have hkeeps := @askPlan_keeps E R (read.provider = .appleMail) J d.decisionId read plan outbox
        hcheck hguarded fun hp => eq_true hp
      have hstart : Desk.Fine J (read.provider = .appleMail) { calls := [], outbox } := by
        refine ⟨fun b hb => absurd hb List.not_mem_nil, fun hp => ?_⟩
        rw [Guarded, hp] at hguarded
        exact hguarded.1
      exact (hkeeps _ hstart).1.calls a ha

/-- A move back into a folder below the junk folder. -/
def junkUndo : RawDecision where
  decisionId := "1"
  provider := "outlook"
  action := "undo"
  category := "promo"
  undoneAction := "archive"
  utility := "none"
  payloadKind := "none"
  modelText := ""
  messageIds := ["m"]
  providerMessageId := ""
  account := "a@b.c"
  configuredAddress := ""
  accountKnown := true
  accountIncluded := true
  inInbox := none
  folderSort := false
  mailboxBefore := "Junk Email/Receipts"
  mailbox := ""
  currentLabels := none
  draftBody := ""
  threadId := ""
  subject := ""

def plainEnv : Env := Env.plain fun _ => .done

/-- The folders that the names say. -/
def namedJunk : Junk plainEnv where
  mailbox := banned .lower
  folder := fun folder => folder ∈ ["deleteditems", "junkemail"] ||
    banned .lower (String.ofList (folder.toList.drop "folder/".toList.length))
  archive := by decide +kernel
  sorted := by
    intro c
    cases c <;> decide +kernel
  wellKnown := by decide +kernel
  sortedFolder := by
    intro c
    cases c <;> decide +kernel

theorem junk_destination : ¬Harmless namedJunk junkUndo false true [] := by
  intro h
  have hfine := h .fine (.tool .outlook "move-mail-message" (some "folder/Junk Email/Receipts"))
    (by decide +kernel)
  exact absurd (hfine.2.2 _ rfl) (by decide +kernel)

end Cerid.Inbox
