import Cerid.Inbox.Review

/-!
# What a performed plan leaves in Apple Mail

An apply first carries out what is queued, and then its own commands.  What commands leave
of a message is their replay on it.
-/

namespace Cerid.Inbox

section Env

variable {E : Env}

/-- Commands carried out one after the other. -/
def replay (cs : List Command) (box : AppleBox) : AppleBox := cs.foldl (fun b c => c.run b) box

/-- What they leave of the message with the id. -/
def replayOn (cs : List Command) (id : String) (m : AppleMessage) : AppleMessage :=
  cs.foldl (fun m c => c.on id m) m

theorem replay_append (a b : List Command) (box : AppleBox) :
    replay (a ++ b) box = replay b (replay a box) := List.foldl_append

theorem replayOn_append (a b : List Command) (id : String) (m : AppleMessage) :
    replayOn (a ++ b) id m = replayOn b id (replayOn a id m) := List.foldl_append

theorem get?_replay (cs : List Command) (box : AppleBox) (id : String) :
    (replay cs box).get? id = (box.get? id).map (replayOn cs id) := by
  induction cs generalizing box with
  | nil => cases h : box.get? id <;> exact h
  | cons c rest ih =>
    have hrun : replay (c :: rest) box = replay rest (c.run box) := rfl
    rw [hrun, ih]
    unfold Command.run
    rw [Dict.get?_mapValues, Option.map_map]
    rfl

/-- The commands of another message leave a message alone. -/
theorem replayOn_other {cs : List Command} {id : String} (h : ∀ c ∈ cs, c.id ≠ id)
    (m : AppleMessage) : replayOn cs id m = m := by
  induction cs with
  | nil => rfl
  | cons c rest ih =>
    have hrest : ∀ c' ∈ rest, c'.id ≠ id := fun c' hc' => h c' (List.mem_cons_of_mem c hc')
    have hon : c.on id m = m := if_neg (h c List.mem_cons_self)
    have hstep : replayOn (c :: rest) id m = replayOn rest id (c.on id m) := rfl
    rw [hstep, hon, ih hrest]

/-- What a plan makes of a message. -/
def appleEffect (d : Decision) (m : AppleMessage) : AppleMessage :=
  match d.action with
  | .keep =>
    { m with
      flag := some d.category.flagColor
      mailbox := if d.folderSort then d.category.labelName else m.mailbox }
  | .archive => { m with mailbox := "Archive" }
  | .markRead => { m with isRead := true }
  | .draft => m
  | .undo => { m with mailbox := mailboxBack d }

theorem appleEffect_idem (d : Decision) (m : AppleMessage) :
    appleEffect d (appleEffect d m) = appleEffect d m := by
  unfold appleEffect
  cases d.action with
  | keep => cases d.folderSort <;> rfl
  | archive => rfl
  | markRead => rfl
  | draft => rfl
  | undo => rfl

theorem appleCommands_id (d : Decision) (id : String) {c : Command}
    (h : c ∈ appleCommands d id) : c.id = id := by
  unfold appleCommands at h
  cases ha : d.action with
  | keep =>
    simp only [ha, List.mem_cons] at h
    rcases h with rfl | h
    · rfl
    · split at h
      · rw [List.mem_singleton.mp h]
        rfl
      · exact absurd h List.not_mem_nil
  | _ =>
    simp only [ha, List.mem_singleton] at h
    rw [h]
    rfl

theorem replayOn_appleCommands (d : Decision) (id : String) (m : AppleMessage) :
    replayOn (appleCommands d id) id m = appleEffect d m := by
  unfold replayOn appleCommands appleEffect
  cases d.action with
  | keep => cases d.folderSort <;> simp [Command.on, Command.id, Command.effect]
  | _ => simp [Command.on, Command.id, Command.effect]

/-- The commands of a plan. -/
def planCommands (d : Decision) : List Command := d.messageIds.flatMap (appleCommands d)

theorem replayOn_planCommands (d : Decision) (ids : List String) (id : String)
    (m : AppleMessage) :
    replayOn (ids.flatMap (appleCommands d)) id m =
      if id ∈ ids then appleEffect d m else m := by
  induction ids generalizing m with
  | nil => rfl
  | cons i rest ih =>
    rw [List.flatMap_cons, replayOn_append]
    by_cases hi : i = id
    · subst hi
      rw [replayOn_appleCommands, ih, if_pos List.mem_cons_self, appleEffect_idem, ite_self]
    · have hother : ∀ c ∈ appleCommands d i, c.id ≠ id := by
        intro c hc heq
        exact hi ((appleCommands_id d i hc).symm.trans heq)
      rw [replayOn_other hother, ih]
      have hmem : id ∈ i :: rest ↔ id ∈ rest := by
        rw [List.mem_cons]
        exact ⟨fun h => h.resolve_left (fun e => hi e.symm), Or.inr⟩
      simp only [hmem]

/-- Some commands were carried out, and nothing else was done to the mailboxes. -/
structure Carries (new : List (Nat × Command)) (w w' : World) : Prop where
  performed : w'.performed = new.reverse ++ w.performed
  apple : w'.apple = replay (new.map Prod.snd) w.apple
  gmail : w'.gmail = w.gmail
  outlook : w'.outlook = w.outlook
  accounts : w'.ledger.accounts = w.ledger.accounts

theorem Carries.trans {a b : List (Nat × Command)} {w w₁ w' : World} (h : Carries a w w₁)
    (h' : Carries b w₁ w') : Carries (a ++ b) w w' where
  performed := by
    rw [h'.performed, h.performed, List.reverse_append, List.append_assoc]
  apple := by rw [h'.apple, h.apple, List.map_append, replay_append]
  gmail := h'.gmail.trans h.gmail
  outlook := h'.outlook.trans h.outlook
  accounts := h'.accounts.trans h.accounts

/-- Commands were carried out, and no decision was changed. -/
def Flushes (w w' : World) : Prop :=
  (∃ new, Carries new w w') ∧ w'.ledger.decisions = w.ledger.decisions

theorem Flushes.refl (w : World) : Flushes w w := ⟨⟨[], ⟨rfl, rfl, rfl, rfl, rfl⟩⟩, rfl⟩

theorem Flushes.trans (a b c : World) (h : Flushes a b) (h' : Flushes b c) : Flushes a c := by
  obtain ⟨⟨new, hnew⟩, hdecisions⟩ := h
  obtain ⟨⟨new', hnew'⟩, hdecisions'⟩ := h'
  exact ⟨⟨new ++ new', hnew.trans hnew'⟩, hdecisions'.trans hdecisions⟩

theorem tell_eq (decisionId : Nat) (c : Command) (w : World) :
    tell E decisionId c w =
      (.ok (reply E w c.id),
        if reply E w c.id = .done then
          { w with
            asked := w.asked + 1
            apple := c.run w.apple
            performed := (decisionId, c) :: w.performed }
        else { w with asked := w.asked + 1 }) := by
  unfold tell
  dsimp only
  cases reply E w c.id <;> rfl

theorem tell_flushes (decisionId : Nat) (c : Command) :
    Exec.Within Flushes (tell E decisionId c) := by
  intro w
  rw [tell_eq]
  dsimp only
  split
  · exact ⟨⟨[(decisionId, c)], ⟨rfl, rfl, rfl, rfl, rfl⟩⟩, rfl⟩
  · exact ⟨⟨[], ⟨rfl, rfl, rfl, rfl, rfl⟩⟩, rfl⟩

theorem flushCommands_flushes (decisionId : Nat) (cs : List Command) :
    Exec.Within Flushes (flushCommands E decisionId cs) := by
  induction cs with
  | nil => exact Exec.Within.pure Flushes.refl true
  | cons c rest ih =>
    refine Exec.Within.bind Flushes.trans (tell_flushes decisionId c) (fun answer => ?_)
    cases answer with
    | done => exact ih
    | notRunning => exact Exec.Within.pure Flushes.refl false
    | denied => exact Exec.Within.fail Flushes.refl _
    | failed reason => exact Exec.Within.fail Flushes.refl _

theorem flushRows_flushes (rows : List OutboxRow) :
    Exec.Within Flushes (flushRows E rows) := by
  induction rows with
  | nil => exact Exec.Within.pure Flushes.refl ()
  | cons row rest ih =>
    refine Exec.Within.bind Flushes.trans (flushCommands_flushes row.decisionId row.commands)
      (fun finished => ?_)
    cases finished with
    | false => exact Exec.Within.pure Flushes.refl ()
    | true =>
      refine Exec.Within.bind Flushes.trans (fun w => ?_) (fun _ => ih)
      exact ⟨⟨[], ⟨rfl, rfl, rfl, rfl, rfl⟩⟩, rfl⟩

/-- The world after the queue was flushed. -/
def flushed (E : Env) (w : World) : World := (flushOutbox E w).2

theorem flushed_flushes (E : Env) (w : World) : Flushes w (flushed E w) :=
  flushRows_flushes w.ledger.outbox w

/-- The commands that stand in one log and not yet in an earlier one. -/
def carriedOut (w w' : World) : List Command :=
  ((w'.performed.take (w'.performed.length - w.performed.length)).reverse).map Prod.snd

theorem Carries.carriedOut {new : List (Nat × Command)} {w w' : World} (h : Carries new w w') :
    carriedOut w w' = new.map Prod.snd := by
  unfold Inbox.carriedOut
  have hlength : w'.performed.length - w.performed.length = new.reverse.length := by
    rw [h.performed, List.length_append]
    omega
  rw [hlength, h.performed, List.take_left', List.reverse_reverse]
  rfl

/-- The commands that the flush of the queue carries out. -/
def queuedCommands (E : Env) (w : World) : List Command := carriedOut w (flushed E w)

theorem flushed_apple (E : Env) (w : World) :
    (flushed E w).apple = replay (queuedCommands E w) w.apple := by
  obtain ⟨⟨new, hnew⟩, -⟩ := flushed_flushes E w
  unfold queuedCommands
  rw [hnew.carriedOut]
  exact hnew.apple

/-- The commands of a decision were all carried out. -/
theorem performCommands_applied {decisionId : Nat} {commands cs : List Command}
    {performed p : List Performed} {w w' : World}
    (h : performCommands E decisionId commands cs performed w = (.ok (.applied p), w')) :
    Carries (cs.map (fun c => (decisionId, c))) w w' ∧ w'.ledger = w.ledger ∧
      p = performed ++ cs.map (fun c => { call := .apple c }) := by
  induction cs generalizing performed w with
  | nil =>
    rw [performCommands, Exec.pure_ok, Effort.applied.injEq] at h
    obtain ⟨rfl, rfl⟩ := h
    exact ⟨⟨rfl, rfl, rfl, rfl, rfl⟩, rfl, (List.append_nil _).symm⟩
  | cons c rest ih =>
    rw [performCommands] at h
    obtain ⟨answer, w₁, htell, h⟩ := Exec.bind_ok.mp h
    rw [tell_eq, Prod.mk.injEq, Except.ok.injEq] at htell
    obtain ⟨hanswer, rfl⟩ := htell
    cases answer with
    | done =>
      rw [if_pos hanswer] at h
      obtain ⟨hcarries, hledger, hp⟩ := ih h
      have hone : Carries [(decisionId, c)] w
          { w with
            asked := w.asked + 1
            apple := c.run w.apple
            performed := (decisionId, c) :: w.performed } := ⟨rfl, rfl, rfl, rfl, rfl⟩
      refine ⟨hone.trans hcarries, hledger, ?_⟩
      rw [hp, List.map_cons, List.append_assoc, List.singleton_append]
    | notRunning =>
      obtain ⟨_, w₂, -, h⟩ := Exec.bind_ok.mp h
      exact nomatch (Exec.pure_ok.mp h).1
    | denied => exact (Exec.fail_ok.mp h).elim
    | failed reason => exact (Exec.fail_ok.mp h).elim

/-- The mailbox that an apply recorded: the one of the row, or the one Mail found. -/
def foundMailbox (d : Decision) (commands : List Command) (w : World) : String :=
  if d.mailboxBefore ≠ "" then d.mailboxBefore
  else
    match commands with
    | [] => ""
    | first :: _ => ((w.apple.get? first.id).map AppleMessage.mailbox).getD ""

theorem recordMailbox_ok {d : Decision} {commands : List Command} {w w' : World}
    (h : recordMailbox E d commands w = (.ok true, w')) :
    Carries [] w w' ∧ w'.ledger =
      if d.mailboxBefore = "" ∧ foundMailbox d commands w ≠ "" then
        w.ledger.setMailboxBefore d.decisionId (foundMailbox d commands w)
      else w.ledger := by
  have hnil : Carries [] w w := ⟨rfl, rfl, rfl, rfl, rfl⟩
  unfold recordMailbox at h
  cases commands with
  | nil =>
    obtain ⟨-, rfl⟩ := Exec.pure_ok.mp h
    refine ⟨hnil, (if_neg ?_).symm⟩
    rintro ⟨hempty, hne⟩
    unfold foundMailbox at hne
    rw [if_neg (not_not.mpr hempty)] at hne
    exact hne rfl
  | cons first rest =>
    dsimp only at h
    by_cases hbefore : d.mailboxBefore = ""
    · rw [if_neg (not_not.mpr hbefore)] at h
      obtain ⟨⟨answer, mailbox⟩, w₁, hfind, h⟩ := Exec.bind_ok.mp h
      unfold find at hfind
      rw [Prod.mk.injEq, Except.ok.injEq, Prod.mk.injEq] at hfind
      obtain ⟨⟨rfl, rfl⟩, rfl⟩ := hfind
      have hfound : foundMailbox d (first :: rest) w =
          ((w.apple.get? first.id).map AppleMessage.mailbox).getD "" := by
        unfold foundMailbox
        rw [if_neg (not_not.mpr hbefore)]
      dsimp only at h
      rw [hfound]
      cases hreply : reply E w first.id with
      | done =>
        rw [hreply] at h
        dsimp only at h
        by_cases hne : ((w.apple.get? first.id).map AppleMessage.mailbox).getD "" ≠ ""
        · rw [if_pos hne] at h
          obtain ⟨_, w₂, hmodify, h⟩ := Exec.bind_ok.mp h
          unfold Exec.modify at hmodify
          rw [Prod.mk.injEq] at hmodify
          obtain ⟨-, rfl⟩ := hmodify
          obtain ⟨-, rfl⟩ := Exec.pure_ok.mp h
          rw [if_pos ⟨hbefore, hne⟩]
          exact ⟨⟨rfl, rfl, rfl, rfl, rfl⟩, rfl⟩
        · rw [if_neg hne] at h
          obtain ⟨-, rfl⟩ := Exec.pure_ok.mp h
          rw [if_neg (fun hand => hne hand.2)]
          exact ⟨⟨rfl, rfl, rfl, rfl, rfl⟩, rfl⟩
      | notRunning =>
        rw [hreply] at h
        exact nomatch (Exec.pure_ok.mp h).1
      | denied =>
        rw [hreply] at h
        exact (Exec.fail_ok.mp h).elim
      | failed reason =>
        rw [hreply] at h
        exact (Exec.fail_ok.mp h).elim
    · rw [if_pos hbefore] at h
      obtain ⟨-, rfl⟩ := Exec.pure_ok.mp h
      rw [if_neg (fun hand => hbefore hand.1)]
      exact ⟨hnil, rfl⟩

/-- An apply of Apple Mail that went through: the queue first, then the commands of the
decision. -/
theorem performApple_applied {d : Decision} {plan : ApplyPlan} {calls : List Performed}
    {w w' : World} (h : performApple E d plan w = (.ok (.applied calls), w')) :
    let commands := plan.calls.filterMap Call.command?
    Carries (commands.map (fun c => (d.decisionId, c))) (flushed E w) w' ∧
      calls = commands.map (fun c => { call := .apple c }) ∧
      w'.ledger =
        if d.mailboxBefore = "" ∧ foundMailbox d commands (flushed E w) ≠ "" then
          (flushed E w).ledger.setMailboxBefore d.decisionId
            (foundMailbox d commands (flushed E w))
        else (flushed E w).ledger := by
  intro commands
  unfold performApple at h
  obtain ⟨_, w₁, hflush, h⟩ := Exec.bind_ok.mp h
  have hw₁ : flushed E w = w₁ := congrArg Prod.snd hflush
  rw [hw₁]
  obtain ⟨recorded, w₂, hrecord, h⟩ := Exec.bind_ok.mp h
  cases recorded with
  | false =>
    obtain ⟨_, w₃, -, h⟩ := Exec.bind_ok.mp h
    exact nomatch (Exec.pure_ok.mp h).1
  | true =>
    obtain ⟨hcarries, hledger⟩ := recordMailbox_ok hrecord
    obtain ⟨hcarries', hledger', hp⟩ := performCommands_applied h
    exact ⟨hcarries.trans hcarries', hp.trans (List.nil_append _), hledger'.trans hledger⟩

end Env

end Cerid.Inbox
