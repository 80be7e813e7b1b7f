import Cerid.Inbox.AppleEffects
import Cerid.Inbox.OutlookEffects

/-!
# What an applied decision leaves

The performed plan of each provider, with the receipt that was recorded.
-/

namespace Cerid.Inbox

section Env

variable {E : Env}

theorem messageIds_ne_nil {F : Text.CaseFold} {d : Decision} (h : (planApply F d).error = "") :
    d.messageIds ≠ [] := by
  intro hnil
  unfold planApply at h
  rw [if_pos hnil] at h
  exact absurd h (by decide)

/-! ## Gmail -/

theorem planApply_gmail {F : Text.CaseFold} {d : Decision} (hp : d.provider = .gmail)
    (hids : d.messageIds ≠ []) : planApply F d = planGmail d := by
  unfold planApply
  rw [if_neg hids, hp]

/-- The edit of an applied Gmail decision. -/
theorem applied_gmail {d : Decision} {calls : List Performed} {w w' : World}
    (h : applyDecision E d false true w = (.applied calls, w')) (hp : d.provider = .gmail)
    (haction : d.action ≠ .draft) :
    ∃ add remove w₁,
      gmailDelta d.action d.category d.folderSort (gmailBelieved d) d.undoneAction =
        some (add, remove) ∧
      Relabelled d.messageIds add remove calls w w₁ ∧
      w' = recordDecision d .applied
        { calls := some calls
          currentLabels := some (sorted ((gmailBelieved d).filter (· ∉ remove) ++ add)) } w₁ := by
  obtain ⟨w₁, hperform, rfl, herror, hnoop⟩ := applyDecision_applied E h
  have hids := messageIds_ne_nil herror
  have hplan : planApply E.fold d = planGmail d := planApply_gmail hp hids
  rw [hplan] at hperform hnoop ⊢
  unfold planGmail at hperform hnoop ⊢
  rw [if_neg haction] at hperform hnoop ⊢
  dsimp only at hperform hnoop ⊢
  cases hdelta : gmailDelta d.action d.category d.folderSort (gmailBelieved d)
      d.undoneAction with
  | none =>
    rw [hdelta] at hnoop
    exact nomatch hnoop
  | some delta =>
    obtain ⟨add, remove⟩ := delta
    rw [hdelta] at hperform
    refine ⟨add, remove, w₁, rfl, ?_, ?_⟩
    · unfold perform at hperform
      rw [hp] at hperform
      obtain ⟨calls', w₂, hgmail, hpure⟩ := Exec.bind_ok.mp hperform
      obtain ⟨heq, rfl⟩ := Exec.pure_ok.mp hpure
      injection heq with heq
      subst heq
      exact performGmail_batch hgmail
    · unfold appliedReceipt
      rw [hp]
      rfl

theorem applied_gmail_draft {d : Decision} {calls : List Performed} {w w' : World}
    (h : applyDecision E d false true w = (.applied calls, w')) (hp : d.provider = .gmail)
    (haction : d.action = .draft) :
    ∃ w₁, KeepsMail w w₁ ∧ Removes [] calls ∧
      w' = recordDecision d .applied { calls := some calls } w₁ := by
  obtain ⟨w₁, hperform, rfl, herror, -⟩ := applyDecision_applied E h
  have hids := messageIds_ne_nil herror
  have hplan : planApply E.fold d = planGmail d := planApply_gmail hp hids
  rw [hplan] at hperform herror ⊢
  unfold planGmail at hperform herror ⊢
  rw [if_pos haction] at hperform herror ⊢
  by_cases hbody : strip d.draftBody = ""
  · rw [if_pos hbody] at herror
    exact absurd herror (by decide)
  · rw [if_neg hbody] at hperform herror ⊢
    by_cases hthread : strip d.threadId = ""
    · rw [if_pos hthread] at herror
      exact absurd herror (by decide)
    · rw [if_neg hthread] at hperform ⊢
      unfold perform at hperform
      rw [hp] at hperform
      obtain ⟨calls', w₂, hgmail, hpure⟩ := Exec.bind_ok.mp hperform
      obtain ⟨heq, rfl⟩ := Exec.pure_ok.mp hpure
      injection heq with heq
      subst heq
      obtain ⟨hkeeps, hremoves⟩ := performGmail_draft hgmail
      refine ⟨w₂, hkeeps, hremoves, ?_⟩
      unfold appliedReceipt
      rw [hp]
      rfl

/-! ## Outlook -/

theorem performOutlook_reply {id comment : String} {performed p : List Performed} {w w' : World}
    (h : performOutlook E [.replyDraft id comment] performed w = (.ok p, w')) :
    moveCalls p = moveCalls performed ∧ w'.outlook = w.outlook ∧ w'.gmail = w.gmail ∧
      w'.apple = w.apple ∧ w'.ledger = w.ledger := by
  obtain ⟨-, rfl, rfl⟩ := useTool_ok.mp (performOutlook_one h)
  exact ⟨moveCalls_append_one performed rfl, rfl, rfl, rfl, rfl⟩

/-- A plan that changes no message. -/
theorem Threaded.draft {d : Decision} {ids : List String} {w w' : World}
    (haction : d.action = .draft) (houtlook : w'.outlook = w.outlook)
    (hgmail : w'.gmail = w.gmail) (happle : w'.apple = w.apple) (hledger : w'.ledger = w.ledger) :
    Threaded E d ids [] w w' := by
  have hmove : outlookMove E.fold d = none := by
    unfold outlookMove
    rw [haction]
  have heffect : ∀ s, outlookEffect E d s = s := by
    intro s
    have hpatch : outlookPatch d = none := by
      unfold outlookPatch outlookCategories
      rw [haction]
      exact if_neg (not_not.mpr rfl)
    have hread : outlookRead d = none := by
      unfold outlookRead
      rw [haction]
    unfold outlookEffect
    rw [hmove, hpatch, hread]
    rfl
  refine ⟨fun n m hm => ⟨m, houtlook ▸ hm, ?_⟩, by rw [houtlook], ?_, fun hne => absurd hmove hne,
    fun x hx => houtlook ▸ hx, hgmail, happle, hledger⟩
  · exact ⟨fun _ => (heffect m.state).symm, fun _ => rfl, fun _ => rfl,
      fun _ hne => absurd hmove hne, Or.inl rfl⟩
  · rw [hmove]
    rfl

/-- The labels that the receipt of an Outlook decision keeps. -/
def outlookAfter (d : Decision) : Option (List String) :=
  if d.action = .draft then none
  else some (outlookCategories d.action d.category (outlookBelieved d))

/-- What an applied Outlook decision made of the messages. -/
theorem applied_outlook {d : Decision} {calls : List Performed} {w w' : World}
    (h : applyDecision E d false true w = (.applied calls, w')) (hp : d.provider = .outlook) :
    ∃ w₁, Threaded E d d.messageIds (moveCalls calls) w w₁ ∧
      w' = recordDecision d .applied
        { calls := some calls
          currentLabels := outlookAfter d
          messageIds := outlookIdsAfter calls } w₁ := by
  obtain ⟨w₁, hperform, rfl, herror, -⟩ := applyDecision_applied E h
  have hids := messageIds_ne_nil herror
  have hplan : planApply E.fold d = planOutlook E.fold d := by
    unfold planApply
    rw [if_neg hids, hp]
  rw [hplan] at hperform herror ⊢
  refine ⟨w₁, ?_, ?_⟩
  · unfold perform at hperform
    rw [hp] at hperform
    obtain ⟨calls', w₂, houtlook, hpure⟩ := Exec.bind_ok.mp hperform
    obtain ⟨heq, rfl⟩ := Exec.pure_ok.mp hpure
    injection heq with heq
    subst heq
    unfold planOutlook at houtlook herror
    by_cases haction : d.action = .draft
    · rw [if_pos haction] at houtlook herror
      by_cases hbody : strip d.draftBody = ""
      · rw [if_pos hbody] at herror
        exact absurd herror (by decide)
      · rw [if_neg hbody] at houtlook
        obtain ⟨hmoves, hsame, hgmail, happle, hledger⟩ := performOutlook_reply houtlook
        rw [hmoves]
        exact Threaded.draft haction hsame hgmail happle hledger
    · rw [if_neg haction] at houtlook
      obtain ⟨moves, hmoves, hthreaded⟩ := performOutlook_ids houtlook
      have hnil : moveCalls calls' = moves := hmoves
      rw [hnil]
      exact hthreaded
  · unfold appliedReceipt planOutlook outlookAfter
    rw [if_pos hp]
    by_cases haction : d.action = .draft
    · rw [if_pos haction, if_pos haction]
      split <;> rfl
    · rw [if_neg haction, if_neg haction]

/-! ## Apple Mail -/

theorem filterMap_command (cs : List Command) :
    (cs.map Call.apple).filterMap Call.command? = cs := by
  rw [List.filterMap_map]
  exact List.filterMap_some

/-- What an applied Apple decision made of the messages, and the mailbox that it recorded. -/
theorem applied_apple {d : Decision} {calls : List Performed} {w w' : World}
    (h : applyDecision E d false true w = (.applied calls, w')) (hp : d.provider = .appleMail) :
    ∃ w₁, Carries ((planCommands d).map (fun c => (d.decisionId, c))) (flushed E w) w₁ ∧
      calls = (planCommands d).map (fun c => { call := .apple c }) ∧
      w₁.ledger =
        (if d.mailboxBefore = "" ∧ foundMailbox d (planCommands d) (flushed E w) ≠ "" then
          (flushed E w).ledger.setMailboxBefore d.decisionId
            (foundMailbox d (planCommands d) (flushed E w))
        else (flushed E w).ledger) ∧
      w' = recordDecision d .applied { calls := some calls } w₁ := by
  obtain ⟨w₁, hperform, rfl, herror, -⟩ := applyDecision_applied E h
  have hids := messageIds_ne_nil herror
  have hplan : planApply E.fold d = planApple E.fold d := by
    unfold planApply
    rw [if_neg hids, hp]
  have hcommands : ((planApple E.fold d).calls).filterMap Call.command? = planCommands d := by
    rw [hplan] at herror
    unfold planApple at herror ⊢
    split at herror
    · exact absurd herror (by decide)
    · split at herror
      · exact absurd herror (by decide)
      · split at herror
        · exact absurd herror (by decide)
        · next h₁ h₂ h₃ =>
          rw [if_neg h₁, if_neg h₂, if_neg h₃]
          dsimp only
          rw [← List.map_flatMap, filterMap_command]
          rfl
  have hlabels : (planApple E.fold d).labelsAfter = none := by
    unfold planApple
    split_ifs <;> rfl
  unfold perform at hperform
  rw [hp, hplan] at hperform
  have happlied := performApple_applied hperform
  dsimp only at happlied
  rw [hcommands] at happlied
  refine ⟨w₁, happlied.1, happlied.2.1, happlied.2.2, ?_⟩
  unfold appliedReceipt
  rw [hplan, hlabels, hp]
  rfl

end Env

end Cerid.Inbox
