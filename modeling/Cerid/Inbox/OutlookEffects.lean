import Cerid.Inbox.GmailEffects

/-!
# What a performed plan leaves in Outlook

A message is patched first and moved last, since a move gives it another id.  A message is
followed by its place in the box, and its ids by what the moves recorded.
-/

namespace Cerid.Inbox

section Env

variable {E : Env}

/-- One message was edited, and nothing else of the mailboxes or the ledger. -/
structure Edited (id new : String) (f : OutlookState → OutlookState) (w w' : World) : Prop where
  messages : w'.outlook.messages = w.outlook.messages.map (OutlookBox.edited id new f)
  fresh : new = id ∨ new ∉ w.outlook.used
  used : ∀ x ∈ w.outlook.used, x ∈ w'.outlook.used
  gmail : w'.gmail = w.gmail
  apple : w'.apple = w.apple
  ledger : w'.ledger = w.ledger

theorem edited_self (id : String) (m : OutlookMessage) :
    OutlookBox.edited id id (fun s => s) m = m := by
  unfold OutlookBox.edited
  split
  · next h =>
    subst h
    rfl
  · rfl

theorem edited_edited (id new : String) (f g : OutlookState → OutlookState) (m : OutlookMessage) :
    OutlookBox.edited id new g (OutlookBox.edited id id f m) =
      OutlookBox.edited id new (fun s => g (f s)) m := by
  unfold OutlookBox.edited
  by_cases h : m.id = id
  · simp only [h, if_true]
  · simp only [h, if_false]

theorem Edited.refl (id : String) (w : World) : Edited id id (fun s => s) w w where
  messages := by
    have hself : OutlookBox.edited id id (fun s => s) = fun m => m := funext (edited_self id)
    rw [hself, List.map_id']
  fresh := Or.inl rfl
  used := fun _ h => h
  gmail := rfl
  apple := rfl
  ledger := rfl

theorem Edited.trans {id new : String} {f g : OutlookState → OutlookState} {w w₁ w' : World}
    (h : Edited id id f w w₁) (h' : Edited id new g w₁ w') :
    Edited id new (fun s => g (f s)) w w' where
  messages := by
    rw [h'.messages, h.messages, List.map_map]
    exact List.map_congr_left (fun m _ => edited_edited id new f g m)
  fresh := h'.fresh.imp_right (fun hnew hmem => hnew (h.used new hmem))
  used := fun x hx => h'.used x (h.used x hx)
  gmail := h'.gmail.trans h.gmail
  apple := h'.apple.trans h.apple
  ledger := h'.ledger.trans h.ledger

/-- The recorded calls that moved a message. -/
def moveCalls (calls : List Performed) : List Performed := calls.filter (fun p => p.call.isMove)

theorem moveCalls_append_one (calls : List Performed) {call : Call} (h : call.isMove = false) :
    moveCalls (calls ++ [{ call := call }]) = moveCalls calls := by
  unfold moveCalls
  rw [List.filter_append]
  simp [h]

theorem editMessage_ok {call : Call} {id : String} {f : OutlookState → OutlookState}
    {performed p : List Performed} {w w' : World}
    (h : editMessage E call id f performed w = (.ok p, w')) (hcall : call.isMove = false) :
    id ∈ w.outlook.ids ∧ moveCalls p = moveCalls performed ∧ Edited id id f w w' := by
  unfold editMessage at h
  obtain ⟨found, w₁, hread, h⟩ := Exec.bind_ok.mp h
  obtain ⟨rfl, rfl⟩ := Exec.read_ok.mp hread
  split at h
  · next hfound =>
    obtain ⟨-, rfl, rfl⟩ := useTool_ok.mp h
    exact ⟨of_decide_eq_true hfound, moveCalls_append_one performed hcall,
      ⟨rfl, Or.inl rfl, fun x hx => List.mem_cons_of_mem id hx, rfl, rfl, rfl⟩⟩
  · exact (Exec.fail_ok.mp h).elim

/-- The Graph id of the folder that a destination names. -/
def destinationFolder (E : Env) (destination : String) : String :=
  if E.fold.fold destination ∈ outlookWellKnown then E.fold.fold destination
  else E.folderId destination

theorem outlookFolder_ok {path : String} (id : String) {performed p : List Performed} {w w' : World}
    (h : outlookFolder E path performed w = (.ok p, w')) :
    moveCalls p = moveCalls performed ∧ Edited id id (fun s => s) w w' ∧
      w'.outlook.used = w.outlook.used := by
  unfold outlookFolder at h
  obtain ⟨p₁, w₁, hlist, h⟩ := Exec.bind_ok.mp h
  obtain ⟨-, rfl, rfl⟩ := useTool_ok.mp hlist
  obtain ⟨folders, w₂, hread, h⟩ := Exec.bind_ok.mp h
  obtain ⟨rfl, rfl⟩ := Exec.read_ok.mp hread
  have hsame := Edited.refl id w
  split at h
  · rw [Exec.pure_ok] at h
    obtain ⟨rfl, rfl⟩ := h
    exact ⟨moveCalls_append_one performed rfl,
      ⟨hsame.messages, hsame.fresh, hsame.used, rfl, rfl, rfl⟩, rfl⟩
  · obtain ⟨-, rfl, rfl⟩ := useTool_ok.mp h
    refine ⟨?_, ⟨hsame.messages, hsame.fresh, hsame.used, rfl, rfl, rfl⟩, rfl⟩
    rw [moveCalls_append_one _ rfl, moveCalls_append_one performed rfl]

theorem resolve_ok {destination : String} (id : String) {performed : List Performed} {w w' : World}
    {r : String × List Performed}
    (h : resolveOutlookDestination E destination performed w = (.ok r, w')) :
    r.1 = destinationFolder E destination ∧ moveCalls r.2 = moveCalls performed ∧
      Edited id id (fun s => s) w w' ∧ w'.outlook.used = w.outlook.used := by
  unfold resolveOutlookDestination at h
  unfold destinationFolder
  split at h
  · exact (Exec.fail_ok.mp h).elim
  · split at h
    · next hknown =>
      rw [Exec.pure_ok] at h
      obtain ⟨rfl, rfl⟩ := h
      exact ⟨(if_pos hknown).symm, rfl, Edited.refl id w, rfl⟩
    · next hknown =>
      split at h
      · exact (Exec.fail_ok.mp h).elim
      · obtain ⟨p₁, w₁, hparent, h⟩ := Exec.bind_ok.mp h
        obtain ⟨p₂, w₂, hchild, h⟩ := Exec.bind_ok.mp h
        rw [Exec.pure_ok] at h
        obtain ⟨rfl, rfl⟩ := h
        obtain ⟨hmoves, hedited, hused⟩ := outlookFolder_ok id hparent
        obtain ⟨hmoves', hedited', hused'⟩ := outlookFolder_ok id hchild
        exact ⟨(if_neg hknown).symm, hmoves'.trans hmoves, hedited.trans hedited',
          hused'.trans hused⟩

/-- A message was moved, and its new id was recorded if the reply named it. -/
def RecordsMove (id folder new : String) (performed p : List Performed) : Prop :=
  ∃ echoed, (echoed = new ∨ echoed = "") ∧
    moveCalls p = moveCalls performed ++ [{ call := .moveMessage id folder, echoed }]

theorem moveMessage_ok {id destination : String} {performed p : List Performed} {w w' : World}
    (h : moveMessage E id destination performed w = (.ok p, w')) :
    ∃ new, RecordsMove id (destinationFolder E destination) new performed p ∧
      Edited id new (fun s => { s with folder := destinationFolder E destination }) w w' ∧
      id ∈ w.outlook.ids := by
  unfold moveMessage at h
  obtain ⟨⟨folder, p₁⟩, w₁, hresolve, h⟩ := Exec.bind_ok.mp h
  obtain ⟨hfolder, hmoves, hedited, hused⟩ := resolve_ok id hresolve
  dsimp only at h hfolder hmoves
  subst hfolder
  obtain ⟨found, w₂, hread, h⟩ := Exec.bind_ok.mp h
  obtain ⟨rfl, rfl⟩ := Exec.read_ok.mp hread
  obtain ⟨echoed, w₃, hecho, h⟩ := Exec.bind_ok.mp h
  obtain ⟨rfl, rfl⟩ := Exec.read_ok.mp hecho
  split at h
  · next hfound =>
    obtain ⟨p₂, w₄, htool, h⟩ := Exec.bind_ok.mp h
    obtain ⟨-, rfl, rfl⟩ := useTool_ok.mp htool
    rw [Exec.pure_ok] at h
    obtain ⟨rfl, rfl⟩ := h
    have hmem : id ∈ w₁.outlook.ids := of_decide_eq_true hfound
    refine ⟨E.newId w₁.outlook.used id,
      ⟨if E.echoes w₁.asked then E.newId w₁.outlook.used id else "", ?_, ?_⟩, ?_, ?_⟩
    · split
      · exact Or.inl rfl
      · exact Or.inr rfl
    · unfold moveCalls at hmoves ⊢
      rw [List.filter_append, hmoves]
      rfl
    · refine hedited.trans ⟨rfl, E.newId_fresh _ id, fun x hx => ?_, rfl, rfl, rfl⟩
      exact List.mem_cons_of_mem _ hx
    · unfold OutlookBox.ids at hmem ⊢
      rw [hedited.messages, List.map_map] at hmem
      obtain ⟨m, hm, heq⟩ := List.mem_map.mp hmem
      rw [Function.comp_apply, edited_self] at heq
      exact heq ▸ List.mem_map_of_mem hm
  · exact (Exec.fail_ok.mp h).elim

theorem performOutlook_append {a b : List Call} {performed p : List Performed} {w w' : World} :
    performOutlook E (a ++ b) performed w = (.ok p, w') ↔
      ∃ p₁ w₁, performOutlook E a performed w = (.ok p₁, w₁) ∧
        performOutlook E b p₁ w₁ = (.ok p, w') := by
  induction a generalizing performed w with
  | nil =>
    simp only [performOutlook, List.nil_append, Exec.pure_ok]
    constructor
    · intro h
      exact ⟨performed, w, ⟨rfl, rfl⟩, h⟩
    · rintro ⟨p₁, w₁, ⟨rfl, rfl⟩, h⟩
      exact h
  | cons call rest ih =>
    simp only [performOutlook, List.cons_append, Exec.bind_ok, ih]
    constructor
    · rintro ⟨p₀, w₀, hcall, p₁, w₁, hrest, hb⟩
      exact ⟨p₁, w₁, ⟨p₀, w₀, hcall, hrest⟩, hb⟩
    · rintro ⟨p₁, w₁, ⟨p₀, w₀, hcall, hrest⟩, hb⟩
      exact ⟨p₀, w₀, hcall, p₁, w₁, hrest, hb⟩

theorem performOutlook_one {call : Call} {performed p : List Performed} {w w' : World}
    (h : performOutlook E [call] performed w = (.ok p, w')) :
    outlookCall E call performed w = (.ok p, w') := by
  rw [performOutlook] at h
  obtain ⟨p₁, w₁, hcall, h⟩ := Exec.bind_ok.mp h
  rw [performOutlook, Exec.pure_ok] at h
  obtain ⟨rfl, rfl⟩ := h
  exact hcall

/-- The read state that an action gives the messages. -/
def outlookRead (d : Decision) : Option Bool :=
  match d.action with
  | .markRead => some true
  | .undo => if d.undoneAction = some .markRead then some false else none
  | _ => none

/-- Where an action moves the messages to. -/
def outlookMove (F : Text.CaseFold) (d : Decision) : Option String :=
  match d.action with
  | .archive => some "archive"
  | .keep => if d.folderSort then some d.category.labelName else none
  | .undo => if folderBefore F d ≠ "" then some (folderBefore F d) else none
  | _ => none

/-- The categories that an action puts on the messages, where they are not the ones it
believes there. -/
def outlookPatch (d : Decision) : Option (List String) :=
  let current := outlookBelieved d
  let categories := outlookCategories d.action d.category current
  if categories ≠ current then some categories else none

/-- The categories first, then the read state, and the move last: it changes the id. -/
theorem outlookCalls_eq (F : Text.CaseFold) (d : Decision) (id : String) :
    outlookCalls F d id =
      ((outlookPatch d).map (Call.patchCategories id)).toList ++
        ((outlookRead d).map (Call.patchRead id)).toList ++
          ((outlookMove F d).map (Call.moveMessage id)).toList := by
  unfold outlookCalls outlookPatch outlookRead outlookMove
  dsimp only
  cases d.action <;> (try dsimp only) <;> split_ifs <;> rfl

/-- What a plan makes of a message. -/
def outlookEffect (E : Env) (d : Decision) (s : OutlookState) : OutlookState where
  folder := ((outlookMove E.fold d).map (destinationFolder E)).getD s.folder
  isRead := (outlookRead d).getD s.isRead
  categories := (outlookPatch d).getD s.categories

theorem outlookEffect_idem (E : Env) (d : Decision) (s : OutlookState) :
    outlookEffect E d (outlookEffect E d s) = outlookEffect E d s := by
  unfold outlookEffect
  dsimp only
  cases outlookMove E.fold d <;> cases outlookRead d <;> cases outlookPatch d <;> rfl

/-- What the calls for one message recorded: its move, if they moved it. -/
def RecordsCalls (E : Env) (d : Decision) (id new : String) (performed p : List Performed) :
    Prop :=
  match outlookMove E.fold d with
  | none => new = id ∧ moveCalls p = moveCalls performed
  | some destination => RecordsMove id (destinationFolder E destination) new performed p

theorem outlookCalls_ok {d : Decision} {id : String} {performed p : List Performed}
    {w w' : World}
    (h : performOutlook E (outlookCalls E.fold d id) performed w = (.ok p, w')) :
    ∃ new, Edited id new (outlookEffect E d) w w' ∧ RecordsCalls E d id new performed p ∧
      (outlookMove E.fold d ≠ none → id ∈ w.outlook.ids) := by
  rw [outlookCalls_eq] at h
  obtain ⟨p₂, w₂, h, hmove⟩ := performOutlook_append.mp h
  obtain ⟨p₁, w₁, hpatch, hread⟩ := performOutlook_append.mp h
  have h₁ : moveCalls p₁ = moveCalls performed ∧
      Edited id id (fun s => { s with categories := (outlookPatch d).getD s.categories }) w w₁ := by
    cases hp : outlookPatch d with
    | none =>
      rw [hp, Option.map_none, Option.toList_none, performOutlook, Exec.pure_ok] at hpatch
      obtain ⟨rfl, rfl⟩ := hpatch
      exact ⟨rfl, Edited.refl id w⟩
    | some categories =>
      rw [hp, Option.map_some, Option.toList_some] at hpatch
      have hcall := editMessage_ok (performOutlook_one hpatch) rfl
      exact ⟨hcall.2.1, hcall.2.2⟩
  have h₂ : moveCalls p₂ = moveCalls p₁ ∧
      Edited id id (fun s => { s with isRead := (outlookRead d).getD s.isRead }) w₁ w₂ := by
    cases hr : outlookRead d with
    | none =>
      rw [hr, Option.map_none, Option.toList_none, performOutlook, Exec.pure_ok] at hread
      obtain ⟨rfl, rfl⟩ := hread
      exact ⟨rfl, Edited.refl id w₁⟩
    | some isRead =>
      rw [hr, Option.map_some, Option.toList_some] at hread
      have hcall := editMessage_ok (performOutlook_one hread) rfl
      exact ⟨hcall.2.1, hcall.2.2⟩
  have hedited := h₁.2.trans h₂.2
  have hmoves := h₂.1.trans h₁.1
  cases hm : outlookMove E.fold d with
  | none =>
    rw [hm, Option.map_none, Option.toList_none, performOutlook, Exec.pure_ok] at hmove
    obtain ⟨rfl, rfl⟩ := hmove
    refine ⟨id, ?_, ?_, fun hne => absurd rfl hne⟩
    · unfold outlookEffect
      rw [hm]
      exact hedited
    · unfold RecordsCalls
      rw [hm]
      exact ⟨rfl, hmoves⟩
  | some destination =>
    rw [hm, Option.map_some, Option.toList_some] at hmove
    obtain ⟨new, hrecords, hlast, hmem⟩ := moveMessage_ok (performOutlook_one hmove)
    refine ⟨new, ?_, ?_, fun _ => ?_⟩
    · have hall := hedited.trans hlast
      unfold outlookEffect
      rw [hm]
      exact hall
    · unfold RecordsCalls
      rw [hm]
      obtain ⟨echoed, hechoed, hcalls⟩ := hrecords
      exact ⟨echoed, hechoed, hcalls.trans (by rw [hmoves])⟩
    · have hids : w₂.outlook.ids = w.outlook.ids := by
        unfold OutlookBox.ids
        rw [hedited.messages, List.map_map]
        apply List.map_congr_left
        intro m _
        rw [Function.comp_apply, OutlookBox.edited_id]
        split
        · next hid => exact hid.symm
        · rfl
      exact hids ▸ hmem

/-- What a plan for some ids makes of a message; `moves` are the moves that it recorded. -/
structure Touched (E : Env) (d : Decision) (ids used : List String) (moves : List Performed)
    (m m' : OutlookMessage) : Prop where
  hit : m.id ∈ ids → m'.state = outlookEffect E d m.state
  miss : m.id ∉ ids → m' = m
  still : outlookMove E.fold d = none → m'.id = m.id
  named : m.id ∈ ids → outlookMove E.fold d ≠ none → (∀ p ∈ moves, p.echoed ≠ "") →
    m'.id ∈ moves.map Performed.echoed
  fresh : m'.id = m.id ∨ m'.id ∉ used

/-- A performed plan of Outlook. -/
structure Threaded (E : Env) (d : Decision) (ids : List String) (moves : List Performed)
    (w w' : World) : Prop where
  messages : ∀ (n : Nat) (m : OutlookMessage), w.outlook.messages[n]? = some m →
    ∃ m', w'.outlook.messages[n]? = some m' ∧ Touched E d ids w.outlook.used moves m m'
  length : w'.outlook.messages.length = w.outlook.messages.length
  recorded : moves.map Performed.call =
    ((outlookMove E.fold d).map (fun destination =>
      ids.map (fun id => Call.moveMessage id (destinationFolder E destination)))).getD []
  found : outlookMove E.fold d ≠ none → ∀ id ∈ ids, id ∈ w.outlook.used → id ∈ w.outlook.ids
  used : ∀ x ∈ w.outlook.used, x ∈ w'.outlook.used
  gmail : w'.gmail = w.gmail
  apple : w'.apple = w.apple
  ledger : w'.ledger = w.ledger

/-- The message that the edit of another one, or its own, is followed by the rest of the
plan. -/
theorem Touched.cons {d : Decision} {id new : String} {rest used used₁ : List String}
    {moves : List Performed} {m m' : OutlookMessage} (move : List Performed)
    (hnew : new = id ∨ new ∉ used) (hused : ∀ x ∈ used, x ∈ used₁)
    (hstill : outlookMove E.fold d = none → new = id)
    (hecho : outlookMove E.fold d ≠ none → (∀ p ∈ move, p.echoed ≠ "") →
      new ∈ move.map Performed.echoed)
    (h : Touched E d rest used₁ moves (OutlookBox.edited id new (outlookEffect E d) m) m') :
    Touched E d (id :: rest) used (move ++ moves) m m' := by
  have hall : ∀ {q : Performed → Prop}, (∀ p ∈ move ++ moves, q p) →
      (∀ p ∈ move, q p) ∧ ∀ p ∈ moves, q p := by
    intro q hq
    exact ⟨fun p hp => hq p (List.mem_append_left moves hp),
      fun p hp => hq p (List.mem_append_right move hp)⟩
  by_cases hid : m.id = id
  · have hm₁ : OutlookBox.edited id new (outlookEffect E d) m =
        { id := new, state := outlookEffect E d m.state } := if_pos hid
    rw [hm₁] at h
    refine ⟨fun _ => ?_, fun hmiss => absurd (hid ▸ List.mem_cons_self) hmiss, fun hnone => ?_,
      fun _ hmove hne => ?_, ?_⟩
    · by_cases hrest : new ∈ rest
      · rw [h.hit hrest]
        exact outlookEffect_idem E d m.state
      · rw [h.miss hrest]
    · rw [h.still hnone, hid]
      exact hstill hnone
    · rw [List.map_append]
      by_cases hrest : new ∈ rest
      · exact List.mem_append_right _ (h.named hrest hmove (hall hne).2)
      · rw [h.miss hrest]
        exact List.mem_append_left _ (hecho hmove (hall hne).1)
    · rcases h.fresh with hf | hf
      · rw [hf, hid]
        exact hnew
      · exact Or.inr (fun hmem => hf (hused _ hmem))
  · have hm₁ : OutlookBox.edited id new (outlookEffect E d) m = m := if_neg hid
    rw [hm₁] at h
    have hmem : m.id ∈ id :: rest ↔ m.id ∈ rest := by
      rw [List.mem_cons]
      exact ⟨fun hor => hor.resolve_left hid, Or.inr⟩
    refine ⟨fun hhit => h.hit (hmem.mp hhit), fun hmiss => h.miss (fun hr => hmiss (hmem.mpr hr)),
      h.still, fun hhit hmove hne => ?_, ?_⟩
    · rw [List.map_append]
      exact List.mem_append_right _ (h.named (hmem.mp hhit) hmove (hall hne).2)
    · exact h.fresh.imp_right (fun hf hused' => hf (hused _ hused'))

theorem performOutlook_ids {d : Decision} {ids : List String} {performed p : List Performed}
    {w w' : World}
    (h : performOutlook E (ids.flatMap (outlookCalls E.fold d)) performed w = (.ok p, w')) :
    ∃ moves, moveCalls p = moveCalls performed ++ moves ∧ Threaded E d ids moves w w' := by
  induction ids generalizing performed w with
  | nil =>
    rw [List.flatMap_nil, performOutlook, Exec.pure_ok] at h
    obtain ⟨rfl, rfl⟩ := h
    refine ⟨[], (List.append_nil _).symm, fun n m hm => ⟨m, hm, ?_⟩, rfl, ?_,
      fun _ _ hid => absurd hid List.not_mem_nil, fun _ hx => hx, rfl, rfl, rfl⟩
    · exact ⟨fun hid => absurd hid List.not_mem_nil, fun _ => rfl, fun _ => rfl,
        fun hid => absurd hid List.not_mem_nil, Or.inl rfl⟩
    · cases outlookMove E.fold d <;> rfl
  | cons id rest ih =>
    rw [List.flatMap_cons] at h
    obtain ⟨p₁, w₁, hcalls, hrest⟩ := performOutlook_append.mp h
    obtain ⟨new, hedited, hrecords, hfound⟩ := outlookCalls_ok hcalls
    obtain ⟨moves, hmoves, hthread⟩ := ih hrest
    have hmessage : ∀ (n : Nat) (m : OutlookMessage), w.outlook.messages[n]? = some m →
        ∃ m', w'.outlook.messages[n]? = some m' ∧ Touched E d rest w₁.outlook.used moves
          (OutlookBox.edited id new (outlookEffect E d) m) m' := by
      intro n m hm
      apply hthread.messages n
      rw [hedited.messages, List.getElem?_map, hm, Option.map_some]
    have hids : outlookMove E.fold d ≠ none → ∀ id' ∈ id :: rest, id' ∈ w.outlook.used →
        id' ∈ w.outlook.ids := by
      intro hmove id' hid' hused
      rcases List.mem_cons.mp hid' with rfl | hid'
      · exact hfound hmove
      · have hmem := hthread.found hmove id' hid' (hedited.used id' hused)
        unfold OutlookBox.ids at hmem ⊢
        rw [hedited.messages, List.map_map] at hmem
        obtain ⟨m, hm, heq⟩ := List.mem_map.mp hmem
        rw [Function.comp_apply, OutlookBox.edited_id] at heq
        split at heq
        · next hmid =>
          rcases hedited.fresh with hnew | hnew
          · exact heq ▸ hnew ▸ hmid ▸ List.mem_map_of_mem hm
          · exact absurd (heq ▸ hused) hnew
        · exact heq ▸ List.mem_map_of_mem hm
    have hlength : w'.outlook.messages.length = w.outlook.messages.length := by
      rw [hthread.length, hedited.messages, List.length_map]
    cases hmove : outlookMove E.fold d with
    | none =>
      unfold RecordsCalls at hrecords
      rw [hmove] at hrecords
      refine ⟨moves, hmoves.trans (by rw [hrecords.2]), fun n m hm => ?_, hlength, ?_, hids,
        fun x hx => hthread.used x (hedited.used x hx), hthread.gmail.trans hedited.gmail,
        hthread.apple.trans hedited.apple, hthread.ledger.trans hedited.ledger⟩
      · obtain ⟨m', hm', htouched⟩ := hmessage n m hm
        refine ⟨m', hm', ?_⟩
        have hcons := htouched.cons [] hedited.fresh hedited.used
          (fun _ => hrecords.1) (fun hne => absurd hmove hne)
        rwa [List.nil_append] at hcons
      · rw [hthread.recorded, hmove]
        rfl
    | some destination =>
      unfold RecordsCalls at hrecords
      rw [hmove] at hrecords
      obtain ⟨echoed, hechoed, hrecorded⟩ := hrecords
      refine ⟨{ call := .moveMessage id (destinationFolder E destination), echoed } :: moves,
        ?_, fun n m hm => ?_, hlength, ?_, hids, fun x hx => hthread.used x (hedited.used x hx),
        hthread.gmail.trans hedited.gmail, hthread.apple.trans hedited.apple,
        hthread.ledger.trans hedited.ledger⟩
      · rw [hmoves, hrecorded, List.append_assoc, List.singleton_append]
      · obtain ⟨m', hm', htouched⟩ := hmessage n m hm
        refine ⟨m', hm', ?_⟩
        refine htouched.cons
          [{ call := .moveMessage id (destinationFolder E destination), echoed }]
          hedited.fresh hedited.used (fun hne => nomatch hmove.symm.trans hne) (fun _ hne => ?_)
        have hthis := hne _ List.mem_cons_self
        rw [hechoed.resolve_right hthis]
        exact List.mem_cons_self
      · rw [List.map_cons, hthread.recorded, hmove]
        rfl

end Env

end Cerid.Inbox
