import Cerid.Inbox.Asked

/-!
# Calls that do no harm

Every tool is checked where it is called, and the destinations of a plan before it is performed.
What holds of the calls so far is kept by each step of the executor, whatever is replied.
-/

namespace Cerid.Inbox

variable {E : Env}

/-! ## The condition -/

/-- The commands that are queued for Mail are fine. -/
def QueueFine (J : Junk E) (outbox : List Queued) : Prop :=
  ∀ row ∈ outbox, row.provider = "apple_mail" → ∀ argv ∈ row.commands, (Ask.apple argv).Fine J

/-- What the checks leave to be seen: where an undo moves to, and what is queued for Mail. -/
def Guarded (J : Junk E) (read : Decision) (outbox : List Queued) : Prop :=
  match read.provider with
  | .gmail => True
  | .outlook => read.action = .undo → '/' ∈ (folderBefore E.fold read).toList →
      J.folder (E.folderId (folderBefore E.fold read)) = false
  | .appleMail =>
      QueueFine J outbox ∧
      (read.action = .undo → J.mailbox (mailboxBack read) = false)

/-! ## Every call is fine -/

/-- The calls so far are fine, and so is the queue where that is asked for. -/
structure Desk.Fine (J : Junk E) (queue : Prop) (s : Desk) : Prop where
  calls : ∀ a ∈ s.calls, a.Fine J
  queued : queue → QueueFine J s.outbox

variable {J : Junk E} {R : Replies} {queue : Prop}

theorem Desk.Fine.ask {s : Desk} (hs : s.Fine J queue) {a : Ask} (ha : a.Fine J) :
    Desk.Fine J queue { s with calls := s.calls ++ [a] } where
  calls := fun b hb => by
    rcases List.mem_append.mp hb with hb | hb
    · exact hs.calls b hb
    · rw [List.mem_singleton.mp hb]
      exact ha
  queued := hs.queued

theorem callTool_keeps {provider : Provider} {name : String} {destination : Option String}
    (h : ∀ folder, destination = some folder → J.folder folder = false) :
    (callTool R provider name destination).Keeps (Desk.Fine J queue) fun _ => True := by
  intro s hs
  rw [callTool]
  by_cases hname : name ∈ forbiddenTools ∨ name ∉ providerTools provider
  · rw [if_pos hname]
    exact ⟨hs, nofun⟩
  · rw [if_neg hname]
    rw [not_or, not_not] at hname
    have hfine : (Ask.tool provider name destination).Fine J := ⟨hname.1, hname.2, h⟩
    dsimp only
    split
    · exact ⟨hs.ask hfine, fun _ _ => trivial⟩
    · exact ⟨hs.ask hfine, fun _ _ => trivial⟩

/-- A tool that moves nothing. -/
theorem callTool_keeps_none (provider : Provider) (name : String) :
    (callTool R provider name none).Keeps (Desk.Fine J queue) fun _ => True := callTool_keeps nofun

theorem ensureLabels_keeps (names known : List String) :
    (ensureLabels R names known).Keeps (Desk.Fine J queue) fun _ => True := by
  induction names generalizing known with
  | nil => exact Exec.Keeps.pure trivial
  | cons name rest ih =>
    rw [ensureLabels]
    split
    · exact ih known
    · refine (callTool_keeps_none .gmail _).bind fun n _ => ?_
      cases R.created n with
      | none => exact Exec.Keeps.fail _
      | some label => exact ih _

theorem askGmail_keeps (calls : List Call) (known : Option (List String)) :
    (askGmail R calls known).Keeps (Desk.Fine J queue) fun _ => True := by
  induction calls generalizing known with
  | nil => exact Exec.Keeps.pure trivial
  | cons call rest ih =>
    have hplain : (callTool R .gmail call.tool none >>= fun _ => askGmail R rest known).Keeps
        (Desk.Fine J queue) fun _ => True :=
      (callTool_keeps_none .gmail _).bind fun _ _ => ih known
    cases call with
    | batchModify account ids add remove =>
      have hmodify : ∀ labels : List String,
          (askGmail R (.batchModify account ids add remove :: rest) (some labels)).Keeps
            (Desk.Fine J queue) fun _ => True := by
        intro labels
        refine (Exec.Keeps.pure (P := fun _ => True) trivial).bind fun labels _ => ?_
        refine (ensureLabels_keeps add labels).bind fun known _ => ?_
        cases unknownLabel known (add ++ remove) with
        | some name => exact Exec.Keeps.fail _
        | none => exact (callTool_keeps_none .gmail _).bind fun _ _ => ih _
      cases known with
      | some known => exact hmodify known
      | none => exact (callTool_keeps_none .gmail _).bind fun n _ => hmodify (R.labels n)
    | draftGmail account subject body threadId =>
      refine (callTool_keeps_none .gmail _).bind fun n _ => ?_
      split
      · exact Exec.Keeps.fail _
      · exact ih known
    | patchCategories => exact hplain
    | patchRead => exact hplain
    | moveMessage => exact hplain
    | replyDraft => exact hplain
    | apple => exact hplain
    | listLabels => exact hplain
    | createLabel => exact hplain
    | listFolders => exact hplain
    | createFolder => exact hplain

theorem askFolder_keeps (top : Bool) :
    (askFolder R top).Keeps (Desk.Fine J queue) fun _ => True := by
  refine (callTool_keeps_none .outlook _).bind fun n _ => ?_
  split
  · exact Exec.Keeps.pure trivial
  · refine (callTool_keeps_none .outlook _).bind fun m _ => ?_
    split
    · exact Exec.Keeps.pure trivial
    · exact Exec.Keeps.fail _

/-- What a destination is resolved to is no junk folder, if the folder at its path is none. -/
theorem resolveDestination_keeps {destination : String}
    (h : E.fold.fold destination ∉ outlookWellKnown → '/' ∈ destination.toList →
      J.folder (E.folderId destination) = false) :
    (resolveDestination R E destination).Keeps (Desk.Fine J queue) fun folder => J.folder folder = false := by
  rw [resolveDestination]
  split
  · exact Exec.Keeps.fail _
  · split
    · rename_i hknown
      exact Exec.Keeps.pure (J.wellKnown _ hknown)
    · rename_i hknown
      split
      · exact Exec.Keeps.fail _
      · rename_i hslash
        rw [not_not] at hslash
        exact (askFolder_keeps true).bind fun _ _ => (askFolder_keeps false).bind fun _ _ =>
          Exec.Keeps.pure (h hknown hslash)

theorem askOutlook_keeps {calls : List Call}
    (h : ∀ id destination, Call.moveMessage id destination ∈ calls →
      E.fold.fold destination ∉ outlookWellKnown → '/' ∈ destination.toList →
        J.folder (E.folderId destination) = false) :
    (askOutlook R E calls).Keeps (Desk.Fine J queue) fun _ => True := by
  induction calls with
  | nil => exact Exec.Keeps.pure trivial
  | cons call rest ih =>
    have hrest := ih fun id destination hmem => h id destination (List.mem_cons_of_mem call hmem)
    have hplain : (callTool R .outlook call.tool none >>= fun _ => askOutlook R E rest).Keeps
        (Desk.Fine J queue) fun _ => True :=
      (callTool_keeps_none .outlook _).bind fun _ _ => hrest
    cases call with
    | moveMessage id destination =>
      refine (resolveDestination_keeps (h id destination List.mem_cons_self)).bind fun folder hfolder => ?_
      refine (callTool_keeps fun folder' heq => ?_).bind fun _ _ => hrest
      cases heq
      exact hfolder
    | batchModify => exact hplain
    | draftGmail => exact hplain
    | patchCategories => exact hplain
    | patchRead => exact hplain
    | replyDraft => exact hplain
    | apple => exact hplain
    | listLabels => exact hplain
    | createLabel => exact hplain
    | listFolders => exact hplain
    | createFolder => exact hplain

theorem callApple_keeps {argv : List String} (h : (Ask.apple argv).Fine J) :
    (callApple R argv).Keeps (Desk.Fine J queue) fun _ => True := fun _ hs => ⟨hs.ask h, fun _ _ => trivial⟩

theorem flushArgvs_keeps {argvs : List (List String)} (h : ∀ argv ∈ argvs, (Ask.apple argv).Fine J) :
    (flushArgvs R argvs).Keeps (Desk.Fine J queue) fun _ => True := by
  induction argvs with
  | nil => exact Exec.Keeps.pure trivial
  | cons argv rest ih =>
    refine (callApple_keeps (h argv List.mem_cons_self)).bind fun reply _ => ?_
    obtain ⟨n, answer⟩ := reply
    cases answer with
    | done => exact ih fun argv' hmem => h argv' (List.mem_cons_of_mem argv hmem)
    | notRunning => exact Exec.Keeps.pure trivial
    | denied => exact Exec.Keeps.fail _
    | failed reason => exact Exec.Keeps.fail _

theorem flushQueued_keeps {rows : List Queued} (h : QueueFine J rows) :
    (flushQueued R rows).Keeps (Desk.Fine J queue) fun _ => True := by
  induction rows with
  | nil => exact Exec.Keeps.pure trivial
  | cons row rest ih =>
    have hrest := ih fun row' hmem => h row' (List.mem_cons_of_mem row hmem)
    rw [flushQueued]
    split
    · exact hrest
    · rename_i hprovider
      rw [not_not] at hprovider
      refine (flushArgvs_keeps (h row List.mem_cons_self hprovider)).bind fun ran _ => ?_
      cases ran with
      | false => exact Exec.Keeps.pure trivial
      | true =>
        refine (Exec.Keeps.modify fun s hs => ?_).bind fun _ _ => hrest
        exact ⟨hs.calls, fun hqueue row' hmem => hs.queued hqueue row' (List.mem_filter.mp hmem).1⟩

theorem queueArgvs_keeps {decisionId : String} {argvs : List (List String)}
    (h : ∀ argv ∈ argvs, (Ask.apple argv).Fine J) :
    (queueArgvs R decisionId argvs).Keeps (Desk.Fine J queue) fun _ => True := by
  refine Exec.Keeps.modify fun s hs => ⟨hs.calls, fun hqueue row hmem hprovider => ?_⟩
  have hold : row ∈ s.outbox.filter (fun r => r.decisionId ≠ decisionId) →
      ∀ argv ∈ row.commands, (Ask.apple argv).Fine J :=
    fun hrow => hs.queued hqueue row (List.mem_filter.mp hrow).1 hprovider
  rcases List.mem_append.mp hmem with hmem | hmem
  · exact hold (List.mem_of_mem_take hmem)
  · rcases List.mem_cons.mp hmem with rfl | hmem
    · exact h
    · exact hold (List.mem_of_mem_drop hmem)

theorem askCommands_keeps {decisionId : String} {all argvs : List (List String)}
    (hall : ∀ argv ∈ all, (Ask.apple argv).Fine J) (h : ∀ argv ∈ argvs, (Ask.apple argv).Fine J) :
    (askCommands R decisionId all argvs).Keeps (Desk.Fine J queue) fun _ => True := by
  induction argvs with
  | nil => exact Exec.Keeps.pure trivial
  | cons argv rest ih =>
    refine (callApple_keeps (h argv List.mem_cons_self)).bind fun reply _ => ?_
    obtain ⟨n, answer⟩ := reply
    cases answer with
    | done => exact ih fun argv' hmem => h argv' (List.mem_cons_of_mem argv hmem)
    | notRunning => exact queueArgvs_keeps hall
    | denied => exact Exec.Keeps.fail _
    | failed reason => exact Exec.Keeps.fail _

theorem fine_find (J : Junk E) (id : String) : (Ask.apple (Command.find id).argv).Fine J :=
  ⟨"find", rfl, by decide, by decide, nofun⟩

theorem askApple_keeps {decisionId mailbox : String} {commands : List Command}
    (h : ∀ c ∈ commands, (Ask.apple c.argv).Fine J) :
    (askApple R decisionId mailbox commands).Keeps (Desk.Fine J True) fun _ => True := by
  have hargvs : ∀ argv ∈ commands.map Command.argv, (Ask.apple argv).Fine J := by
    intro argv hmem
    obtain ⟨c, hc, rfl⟩ := List.mem_map.mp hmem
    exact h c hc
  refine (Exec.Keeps.read (P := QueueFine J) fun s hs => hs.queued trivial).bind fun rows hrows => ?_
  refine (flushQueued_keeps hrows).bind fun _ _ => ?_
  cases commands with
  | nil => exact Exec.Keeps.pure trivial
  | cons first rest =>
    dsimp only
    split
    · exact askCommands_keeps hargvs hargvs
    · refine (callApple_keeps (fine_find J first.id)).bind fun reply _ => ?_
      obtain ⟨n, answer⟩ := reply
      cases answer with
      | done => exact askCommands_keeps hargvs hargvs
      | notRunning => exact queueArgvs_keeps hargvs
      | denied => exact Exec.Keeps.fail _
      | failed reason => exact Exec.Keeps.fail _

/-! ## What a plan asks for -/

theorem archive_known (F : Text.CaseFold) : F.fold "archive" ∈ outlookWellKnown := by
  rw [F.fold_of_all (by decide)]
  decide

theorem outlook_destination {read : Decision} {id destination : String}
    (h : Call.moveMessage id destination ∈ (planOutlook E.fold read).calls) :
    (read.action = .undo ∧ destination = folderBefore E.fold read) ∨
      destination = read.category.labelName ∨ destination = "archive" := by
  unfold planOutlook at h
  split at h
  · split_ifs at h
    · exact absurd h List.not_mem_nil
    · exact nomatch List.mem_singleton.mp h
  · obtain ⟨m, -, hc⟩ := List.mem_flatMap.mp h
    unfold outlookCalls at hc
    cases ha : read.action <;>
      simp only [ha, List.mem_append, List.mem_ite_nil_right, List.mem_singleton, List.not_mem_nil,
        or_false, false_or, reduceCtorEq, and_false, Call.moveMessage.injEq] at hc
    · exact Or.inr (Or.inl hc.2.2)
    · exact Or.inr (Or.inr hc.2)
    · exact Or.inl ⟨rfl, hc.2.2⟩

theorem apple_command {read : Decision} {c : Command}
    (h : c ∈ (planApple E.fold read).calls.filterMap Call.command?) :
    ∃ id ∈ read.messageIds, c ∈ appleCommands read id := by
  obtain ⟨call, hcall, hc⟩ := List.mem_filterMap.mp h
  unfold planApple at hcall
  split_ifs at hcall
  · exact absurd hcall List.not_mem_nil
  · exact absurd hcall List.not_mem_nil
  · exact absurd hcall List.not_mem_nil
  · obtain ⟨id, hid, hmem⟩ := List.mem_flatMap.mp hcall
    obtain ⟨command, hcommand, rfl⟩ := List.mem_map.mp hmem
    cases hc
    exact ⟨id, hid, hcommand⟩

theorem fine_command {J : Junk E} {read : Decision} {id : String} {c : Command}
    (hundo : read.action = .undo → J.mailbox (mailboxBack read) = false)
    (h : c ∈ appleCommands read id) : (Ask.apple c.argv).Fine J := by
  have hmove : ∀ mailbox, J.mailbox mailbox = false →
      (Ask.apple (Command.move id mailbox).argv).Fine J := by
    intro mailbox hjunk
    refine ⟨"move", rfl, by decide, by decide, fun target htarget => ?_⟩
    cases htarget
    exact hjunk
  unfold appleCommands at h
  cases ha : read.action with
  | keep =>
    rw [ha] at h
    rcases List.mem_cons.mp h with rfl | h
    · exact ⟨"flag", rfl, by decide, by decide, nofun⟩
    · obtain ⟨-, h⟩ := List.mem_ite_nil_right.mp h
      rw [List.mem_singleton.mp h]
      exact hmove _ (J.sorted _)
  | archive =>
    rw [ha] at h
    rw [List.mem_singleton.mp h]
    exact hmove _ J.archive
  | markRead =>
    rw [ha] at h
    rw [List.mem_singleton.mp h]
    exact ⟨"read", rfl, by decide, by decide, nofun⟩
  | draft =>
    rw [ha] at h
    rw [List.mem_singleton.mp h]
    exact ⟨"draft", rfl, by decide, by decide, nofun⟩
  | undo =>
    rw [ha] at h
    rw [List.mem_singleton.mp h]
    exact hmove _ (hundo ha)

/-- What is known of a plan that is performed. -/
structure Checked (E : Env) (read : Decision) (plan : ApplyPlan) : Prop where
  planned : plan = planApply E.fold read
  accepted : plan.error = ""
  refused : refusedTool E read.provider plan = none

theorem checked_of_performs {d : RawDecision} {dryRun enabled : Bool} {read : Decision}
    {plan : ApplyPlan} (h : performs E d dryRun enabled = some (read, plan)) :
    Checked E read plan := by
  have hplanned : planRaw E.fold d = .ok (read, plan) → plan = planApply E.fold read ∧ plan.error = "" := by
    intro hplan
    unfold planRaw at hplan
    split at hplan
    · cases hplan
    · split at hplan
      · cases hplan
      · split at hplan
        · cases hplan
        · dsimp only at hplan
          split at hplan
          · cases hplan
          · rename_i herror
            cases hplan
            exact ⟨rfl, not_not.mp herror⟩
  unfold performs at h
  split at h
  · cases h
  · rename_i read' plan' hplan
    split at h
    · cases h
    · rename_i hchecks
      cases h
      simp only [Bool.or_eq_true, not_or, Bool.not_eq_true, Option.isSome_eq_false_iff,
        Option.isNone_iff_eq_none] at hchecks
      exact ⟨(hplanned hplan).1, (hplanned hplan).2, hchecks.1.1.2⟩

theorem planApply_of_accepted {read : Decision} {plan : ApplyPlan} (h : Checked E read plan) :
    read.messageIds ≠ [] ∧ plan = match read.provider with
      | .gmail => planGmail read
      | .outlook => planOutlook E.fold read
      | .appleMail => planApple E.fold read := by
  have hplan := h.planned
  unfold planApply at hplan
  split at hplan
  · have herror := h.accepted
    rw [hplan] at herror
    exact absurd herror (by decide)
  · rename_i hids
    exact ⟨hids, hplan⟩

/-- An apply of a decision that is guarded is harmless, and leaves a queue that is. -/
theorem askPlan_keeps {J : Junk E} {decisionId : String} {read : Decision} {plan : ApplyPlan}
    {outbox : List Queued} (hcheck : Checked E read plan) (h : Guarded J read outbox)
    (hqueue : read.provider = .appleMail → queue = True) :
    (askPlan R E decisionId read plan).Keeps (Desk.Fine J queue) fun _ => True := by
  obtain ⟨-, hplan⟩ := planApply_of_accepted hcheck
  unfold askPlan
  unfold Guarded at h
  cases hp : read.provider with
  | gmail => exact askGmail_keeps _ _
  | outlook =>
    rw [hp] at h hplan
    dsimp only at h hplan
    refine askOutlook_keeps fun id destination hmem hknown hslash => ?_
    rw [hplan] at hmem
    rcases outlook_destination hmem with ⟨ha, hd⟩ | hd | hd
    · rw [hd] at hslash ⊢
      exact h ha hslash
    · rw [hd]
      exact J.sortedFolder _
    · rw [hd] at hknown
      exact absurd (archive_known E.fold) hknown
  | appleMail =>
    rw [hp] at h hplan
    dsimp only at h hplan
    rw [hqueue hp]
    refine askApple_keeps fun c hc => ?_
    rw [hplan] at hc
    obtain ⟨id, -, hmem⟩ := apple_command hc
    exact fine_command h.2 hmem

end Cerid.Inbox
