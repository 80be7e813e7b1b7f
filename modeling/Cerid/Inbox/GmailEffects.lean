import Cerid.Inbox.Review

/-!
# What a performed plan leaves in Gmail

A plan is one edit of labels, or one draft.  The edit is all that changes of the messages,
and the ledger is left alone.
-/

namespace Cerid.Inbox

section Env

variable {E : Env}

theorem useTool_ok {call : Call} {effect : World → World} {performed p : List Performed}
    {w w' : World} :
    useTool E call effect performed w = (.ok p, w') ↔
      E.answers w.asked = .done ∧ p = performed ++ [{ call := call }] ∧
        w' = effect { w with asked := w.asked + 1 } := by
  unfold useTool
  dsimp only
  cases h : E.answers w.asked with
  | done =>
    simp only [Prod.mk.injEq, Except.ok.injEq, true_and]
    constructor
    · rintro ⟨rfl, rfl⟩
      exact ⟨rfl, rfl⟩
    · rintro ⟨rfl, rfl⟩
      exact ⟨rfl, rfl⟩
  | notRunning => simp
  | denied => simp
  | failed reason => simp

/-- Only the labels that exist in Gmail may have changed, and what was asked. -/
def KeepsMail (w w' : World) : Prop :=
  w'.gmail.messages = w.gmail.messages ∧ w'.outlook = w.outlook ∧ w'.apple = w.apple ∧
    w'.ledger = w.ledger

theorem KeepsMail.refl (w : World) : KeepsMail w w := ⟨rfl, rfl, rfl, rfl⟩

theorem KeepsMail.trans (a b c : World) (h : KeepsMail a b) (h' : KeepsMail b c) :
    KeepsMail a c :=
  ⟨h'.1.trans h.1, h'.2.1.trans h.2.1, h'.2.2.1.trans h.2.2.1, h'.2.2.2.trans h.2.2.2⟩

/-- The recorded calls that are edits of labels take these labels away. -/
def Removes (remove : List String) (calls : List Performed) : Prop :=
  ∀ p ∈ calls, ∀ account ids add remove', p.call = .batchModify account ids add remove' →
    remove' = remove

theorem Removes.append {remove : List String} {calls : List Performed} (h : Removes remove calls)
    {call : Call} (hcall : ∀ account ids add remove', call = .batchModify account ids add remove' →
      remove' = remove) : Removes remove (calls ++ [{ call := call }]) := by
  intro p hp account ids add remove' heq
  rcases List.mem_append.mp hp with hp | hp
  · exact h p hp account ids add remove' heq
  · rw [List.mem_singleton] at hp
    subst hp
    exact hcall account ids add remove' heq

theorem ensureGmailLabels_ok {account : String} {remove : List String} :
    ∀ {wanted known : List String} {performed : List Performed} {w w' : World}
      {r : List String × List Performed},
      ensureGmailLabels E account wanted known performed w = (.ok r, w') →
      Removes remove performed → KeepsMail w w' ∧ Removes remove r.2 := by
  intro wanted
  induction wanted with
  | nil =>
    intro known performed w w' r h hremoves
    rw [ensureGmailLabels, Exec.pure_ok] at h
    obtain ⟨rfl, rfl⟩ := h
    exact ⟨KeepsMail.refl w, hremoves⟩
  | cons name rest ih =>
    intro known performed w w' r h hremoves
    rw [ensureGmailLabels] at h
    split at h
    · exact ih h hremoves
    · obtain ⟨p, w₁, htool, h⟩ := Exec.bind_ok.mp h
      obtain ⟨-, rfl, rfl⟩ := useTool_ok.mp htool
      obtain ⟨hkeeps, hr⟩ := ih h (hremoves.append (fun _ _ _ _ e => nomatch e))
      exact ⟨KeepsMail.trans _ _ _ ⟨rfl, rfl, rfl, rfl⟩ hkeeps, hr⟩

/-- A performed edit of labels. -/
structure Relabelled (ids add remove : List String) (calls : List Performed) (w w' : World) :
    Prop where
  messages : w'.gmail.messages = (w.gmail.modify ids add remove).messages
  outlook : w'.outlook = w.outlook
  apple : w'.apple = w.apple
  ledger : w'.ledger = w.ledger
  removes : Removes remove calls

theorem performGmail_batch {account : String} {ids add remove : List String}
    {calls : List Performed} {w w' : World}
    (h : performGmail E [.batchModify account ids add remove] none [] w = (.ok calls, w')) :
    Relabelled ids add remove calls w w' := by
  unfold performGmail at h
  obtain ⟨⟨known, p₁⟩, w₁, hids, h⟩ := Exec.bind_ok.mp h
  obtain ⟨⟨known', p₂⟩, w₂, hbatch, h⟩ := Exec.bind_ok.mp h
  dsimp only at h
  rw [performGmail, Exec.pure_ok] at h
  obtain ⟨rfl, rfl⟩ := h
  rw [gmailLabelIds] at hids
  obtain ⟨p₀, w₀, htool, hids⟩ := Exec.bind_ok.mp hids
  obtain ⟨labels, w₀', hread, hids⟩ := Exec.bind_ok.mp hids
  rw [Exec.pure_ok] at hids
  obtain ⟨heq, rfl⟩ := hids
  obtain ⟨rfl, rfl⟩ := Prod.mk.injEq .. ▸ heq
  obtain ⟨-, rfl, rfl⟩ := useTool_ok.mp htool
  obtain ⟨-, rfl⟩ := Prod.mk.injEq .. ▸ hread
  unfold batchModify at hbatch
  obtain ⟨⟨known₁, p₃⟩, w₃, hensure, hbatch⟩ := Exec.bind_ok.mp hbatch
  have hnone : Removes remove ([] ++ [({ call := .listLabels account } : Performed)]) :=
    Removes.append (fun p hp => absurd hp List.not_mem_nil) (fun _ _ _ _ e => nomatch e)
  obtain ⟨hkeeps, hremoves⟩ := ensureGmailLabels_ok hensure hnone
  dsimp only at hbatch
  cases hlabel : unknownLabel known₁ (add ++ remove) with
  | some name =>
    rw [hlabel] at hbatch
    exact (Exec.fail_ok.mp hbatch).elim
  | none =>
    rw [hlabel] at hbatch
    obtain ⟨p₄, w₄, htool', hbatch⟩ := Exec.bind_ok.mp hbatch
    rw [Exec.pure_ok] at hbatch
    obtain ⟨heq', rfl⟩ := hbatch
    obtain ⟨-, rfl⟩ := Prod.mk.injEq .. ▸ heq'
    obtain ⟨-, rfl, rfl⟩ := useTool_ok.mp htool'
    have hmessages : w₃.gmail.messages = w.gmail.messages := hkeeps.1
    refine ⟨?_, hkeeps.2.1, hkeeps.2.2.1, hkeeps.2.2.2, hremoves.append ?_⟩
    · unfold GmailBox.modify
      dsimp only
      rw [hmessages]
    · rintro _ _ _ _ e
      injection e with _ _ _ e
      exact e.symm

theorem performGmail_draft {account subject body threadId : String} {calls : List Performed}
    {w w' : World}
    (h : performGmail E [.draftGmail account subject body threadId] none [] w =
      (.ok calls, w')) : KeepsMail w w' ∧ Removes [] calls := by
  unfold performGmail at h
  obtain ⟨p, w₁, hdraft, h⟩ := Exec.bind_ok.mp h
  rw [performGmail, Exec.pure_ok] at h
  obtain ⟨rfl, rfl⟩ := h
  unfold draftGmail at hdraft
  obtain ⟨confirmed, w₂, hread, hdraft⟩ := Exec.bind_ok.mp hdraft
  obtain ⟨-, rfl⟩ := Prod.mk.injEq .. ▸ hread
  obtain ⟨p', w₃, htool, hdraft⟩ := Exec.bind_ok.mp hdraft
  obtain ⟨-, rfl, rfl⟩ := useTool_ok.mp htool
  split at hdraft
  · rw [Exec.pure_ok] at hdraft
    obtain ⟨rfl, rfl⟩ := hdraft
    exact ⟨⟨rfl, rfl, rfl, rfl⟩,
      Removes.append (fun p hp => absurd hp List.not_mem_nil) (fun _ _ _ _ e => nomatch e)⟩
  · exact (Exec.fail_ok.mp hdraft).elim

end Env

end Cerid.Inbox
