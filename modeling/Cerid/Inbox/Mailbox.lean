import Mathlib.Data.List.Nodup
import Cerid.Lib.Dict
import Cerid.Inbox.Plan

/-!
# Mailboxes

The three mailboxes and what a call does to them.  What the program cannot know of a service
(how a call is answered, the id that a move gives a message, the id of a folder) is the
environment's.
-/

namespace Cerid.Inbox

/-! ## Gmail -/

/-- The messages of a Gmail account with the names of their labels, and the labels that
exist. -/
structure GmailBox where
  messages : Dict String (List String)
  labels : List String

/-- The labels of a message after some are added and some are taken away. -/
def relabel (add remove labels : List String) : List String :=
  labels.filter (· ∉ remove) ++ add.filter (· ∉ labels)

theorem mem_relabel {add remove labels : List String} (hdisjoint : ∀ x ∈ add, x ∉ remove)
    (x : String) : x ∈ relabel add remove labels ↔ (x ∈ labels ∧ x ∉ remove) ∨ x ∈ add := by
  unfold relabel
  simp only [List.mem_append, List.mem_filter, decide_eq_true_eq]
  constructor
  · rintro (h | h)
    · exact Or.inl h
    · exact Or.inr h.1
  · rintro (h | h)
    · exact Or.inl h
    · by_cases hx : x ∈ labels
      · exact Or.inl ⟨hx, hdisjoint x h⟩
      · exact Or.inr ⟨h, hx⟩

def GmailBox.empty : GmailBox where
  messages := .empty
  labels := []

def GmailBox.modify (box : GmailBox) (ids add remove : List String) : GmailBox :=
  { box with
    messages := box.messages.mapValues
      (fun id labels => if id ∈ ids then relabel add remove labels else labels) }

def GmailBox.create (box : GmailBox) (name : String) : GmailBox :=
  { box with labels := box.labels ++ [name] }

theorem GmailBox.get?_modify (box : GmailBox) (ids add remove : List String) (id : String) :
    (box.modify ids add remove).messages.get? id =
      (box.messages.get? id).map
        (fun labels => if id ∈ ids then relabel add remove labels else labels) := by
  unfold GmailBox.modify
  rw [Dict.get?_mapValues]

/-! ## Outlook -/

/-- What a call can change of a message, apart from its id. -/
structure OutlookState where
  folder : String
  isRead : Bool
  categories : List String
  deriving DecidableEq, Repr

structure OutlookMessage where
  id : String
  state : OutlookState
  deriving DecidableEq, Repr

/-- The messages of an Outlook account, no two under one id, the ids that were ever given,
and the folders that exist. -/
structure OutlookBox where
  messages : List OutlookMessage
  used : List String
  nodup : (messages.map OutlookMessage.id).Nodup
  all_used : ∀ m ∈ messages, m.id ∈ used
  folders : List String

namespace OutlookBox

def ids (box : OutlookBox) : List String := box.messages.map OutlookMessage.id

/-- The message as an edit of the one with the id leaves it. -/
def edited (id new : String) (f : OutlookState → OutlookState) (m : OutlookMessage) :
    OutlookMessage :=
  if m.id = id then { id := new, state := f m.state } else m

theorem edited_id (id new : String) (f : OutlookState → OutlookState) (m : OutlookMessage) :
    (edited id new f m).id = if m.id = id then new else m.id := by
  unfold edited
  split <;> rfl

theorem nodup_edited {messages : List OutlookMessage} {id new : String}
    (f : OutlookState → OutlookState) (h : (messages.map OutlookMessage.id).Nodup)
    (hnew : new = id ∨ new ∉ messages.map OutlookMessage.id) :
    ((messages.map (edited id new f)).map OutlookMessage.id).Nodup := by
  induction messages with
  | nil => exact List.nodup_nil
  | cons m rest ih =>
    rw [List.map_cons, List.nodup_cons] at h
    have hrest : new = id ∨ new ∉ rest.map OutlookMessage.id := by
      rcases hnew with hnew | hnew
      · exact Or.inl hnew
      · rw [List.map_cons, List.mem_cons, not_or] at hnew
        exact Or.inr hnew.2
    rw [List.map_cons, List.map_cons, List.nodup_cons]
    refine ⟨fun hmem => ?_, ih h.2 hrest⟩
    rw [List.map_map, List.mem_map] at hmem
    obtain ⟨m', hm', heq⟩ := hmem
    rw [Function.comp_apply, edited_id, edited_id] at heq
    have hne : m'.id ≠ m.id := fun e => h.1 (e ▸ List.mem_map_of_mem hm')
    by_cases h' : m'.id = id
    · have hm : m.id ≠ id := fun e => hne (h'.trans e.symm)
      rw [if_pos h', if_neg hm] at heq
      rcases hnew with hnew | hnew
      · exact hm (heq.symm.trans hnew)
      · exact hnew (heq ▸ List.mem_cons_self)
    · rw [if_neg h'] at heq
      by_cases hm : m.id = id
      · rw [if_pos hm] at heq
        rcases hrest with hnew | hnew
        · exact h' (heq.trans hnew)
        · exact hnew (heq ▸ List.mem_map_of_mem hm')
      · rw [if_neg hm] at heq
        exact hne heq

theorem not_mem_ids {box : OutlookBox} {id : String} (h : id ∉ box.used) : id ∉ box.ids := by
  intro hmem
  obtain ⟨m, hm, rfl⟩ := List.mem_map.mp hmem
  exact h (box.all_used m hm)

/-- One message changed, under the id it has or one that was never given. -/
def edit (box : OutlookBox) (id new : String) (f : OutlookState → OutlookState)
    (hnew : new = id ∨ new ∉ box.used) : OutlookBox where
  messages := box.messages.map (edited id new f)
  used := new :: box.used
  nodup := nodup_edited f box.nodup (hnew.imp_right not_mem_ids)
  all_used := by
    intro m hm
    obtain ⟨m', hm', rfl⟩ := List.mem_map.mp hm
    rw [edited_id]
    split
    · exact List.mem_cons_self
    · exact List.mem_cons_of_mem new (box.all_used m' hm')
  folders := box.folders

def empty : OutlookBox where
  messages := []
  used := []
  nodup := List.nodup_nil
  all_used := fun _ h => absurd h List.not_mem_nil
  folders := []

def create (box : OutlookBox) (path : String) : OutlookBox :=
  { box with folders := box.folders ++ [path] }

end OutlookBox

/-! ## Apple Mail -/

structure AppleMessage where
  mailbox : String
  flag : Option Color
  isRead : Bool
  deriving DecidableEq, Repr

abbrev AppleBox := Dict String AppleMessage

/-- What a command leaves of the message it is about. -/
def Command.effect : Command → AppleMessage → AppleMessage
  | flag _ color, m => { m with flag := some color }
  | read _, m => { m with isRead := true }
  | move _ mailbox, m => { m with mailbox := mailbox }
  | draft .., m => m
  | find _, m => m

def Command.id : Command → String
  | flag id _ => id
  | read id => id
  | move id _ => id
  | draft id .. => id
  | find id => id

/-- What a command leaves of the message with the id. -/
def Command.on (c : Command) (id : String) (m : AppleMessage) : AppleMessage :=
  if c.id = id then c.effect m else m

def Command.run (c : Command) (box : AppleBox) : AppleBox := box.mapValues c.on

/-! ## What the program cannot know -/

/-- How a tool or the Mail helper answers a call. -/
inductive Answer where
  | done
  | notRunning
  | denied
  | failed (reason : String)
  deriving DecidableEq, Repr

/-- The services and the rest of the surroundings. -/
structure Env where
  fold : Text.CaseFold
  /-- The answer to the `n`-th call. -/
  answers : Nat → Answer
  /-- The id Graph gives a message that it moves, when these ids were given before. -/
  newId : List String → String → String
  newId_fresh : ∀ used id, newId used id = id ∨ newId used id ∉ used
  /-- Whether the reply to the `n`-th call names the id of the moved message. -/
  echoes : Nat → Bool
  /-- The Graph id of a folder of the operator or the program. -/
  folderId : String → String
  folderId_ne : ∀ path, folderId path ≠ ""
  folderId_other : ∀ path, fold.fold (folderId path) ∉ outlookWellKnown
  /-- Whether the reply to the `n`-th call confirms the thread of a draft. -/
  confirms : Nat → Bool
  /-- Where the `n`-th row that is queued stands among the others: `created`, then a random
  id. -/
  place : Nat → Nat
  /-- `USER_GOOGLE_EMAIL`. -/
  configured : String

theorem folder_other (path : String) :
    Text.CaseFold.lower.fold ("folder/" ++ path) ∉ outlookWellKnown := by
  have hhead : (Text.CaseFold.lower.fold ("folder/" ++ path)).toList.head? = some 'f' := by
    unfold Text.CaseFold.fold
    rw [String.toList_ofList, String.toList_append]
    rfl
  intro hmem
  have hfirst : ∀ name ∈ outlookWellKnown, name.toList.head? ≠ some 'f' := by decide
  exact hfirst _ hmem hhead

/-- Surroundings in which Graph keeps the ids of what it moves. -/
def Env.plain (answers : Nat → Answer) : Env where
  fold := .lower
  answers := answers
  newId := fun _ id => id
  newId_fresh := fun _ _ => Or.inl rfl
  echoes := fun _ => true
  folderId := fun path => "folder/" ++ path
  folderId_ne := by
    intro path h
    have hlist := congrArg String.toList h
    rw [String.toList_append] at hlist
    exact nomatch hlist
  folderId_other := folder_other
  confirms := fun _ => true
  place := fun n => n
  configured := ""

end Cerid.Inbox
