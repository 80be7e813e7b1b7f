import Cerid.Forget.Engine

/-!
# Confirm tokens

A preview issues a token for the subjects and mode it showed, bound to a caller;
executing takes the token out of Redis with one GETDEL, looks whether the sync dir is
set, and either puts the token back or hands its subjects to the engine.  Between these
steps other calls take theirs, tokens expire, and the sync dir comes and goes.

A random token is one that was never issued.  The engine looks for the sync dir itself
before it changes anything; what it does after that is one step.
-/

namespace Cerid.Forget.Confirm

/-! ## Tokens -/

/-- The JSON value that `issue` and `_put_back` write. -/
structure Value where
  caller : String
  mode : String
  subjects : List Subject
deriving DecidableEq, Repr

structure Confirmed where
  subjects : List Subject
  mode : String
deriving DecidableEq, Repr

def TOKEN_MAX_LEN : Nat := 128

/-- What `consume` raises: a `ConfirmTokenError`, or the `TypeError` of a digest
comparison of strings that are not ASCII. -/
inductive Raised where
  | malformed
  | unknown
  | anotherCaller
  | typeError
deriving DecidableEq, Repr

def Raised.message : Raised → String
  | .malformed => "missing or malformed confirm token"
  | .unknown => "the confirm token is unknown, expired or already used"
  | .anotherCaller => "the confirm token was issued to another caller"
  | .typeError => "comparing strings with non-ASCII characters is not supported"

def isAscii (text : String) : Bool := text.toList.all (fun c => c.toNat < 128)

/-- `hmac.compare_digest`; `none` where it raises. -/
def compareDigest (a b : String) : Option Bool :=
  if isAscii a ∧ isAscii b then some (a = b) else none

def malformed (token : String) : Bool := token = "" ∨ TOKEN_MAX_LEN < token.length

/-- `consume`, given what GETDEL returned. -/
def consume (raw : Option Value) (token caller : String) : Except Raised Confirmed :=
  if malformed token then .error .malformed
  else match raw with
    | none => .error .unknown
    | some value =>
      match compareDigest value.caller caller with
      | none => .error .typeError
      | some false => .error .anotherCaller
      | some true => .ok { subjects := value.subjects, mode := value.mode }

theorem consume_eq_ok {raw : Option Value} {token caller : String} {confirmed : Confirmed}
    (h : consume raw token caller = .ok confirmed) :
    malformed token = false ∧
      raw = some { caller, mode := confirmed.mode, subjects := confirmed.subjects } := by
  unfold consume compareDigest at h
  split at h
  · cases h
  · rename_i hm
    refine ⟨Bool.eq_false_iff.mpr hm, ?_⟩
    cases raw with
    | none => cases h
    | some value =>
      by_cases hc : isAscii value.caller ∧ isAscii caller
      · by_cases he : value.caller = caller
        · subst he
          simp only [hc, and_self, if_true, decide_true, Except.ok.injEq] at h
          rw [← h]
        · simp [hc, he] at h
      · simp [hc] at h

/-! ## Calls in flight -/

/-- An `execute` that has consumed its token; `available` is what `forget_available`
said, once it has been asked. -/
structure Execute where
  token : String
  caller : String
  confirmed : Confirmed
  requestedBy : String
  userId : String
  available : Option Bool
deriving DecidableEq, Repr

/-- What `_put_back` writes. -/
def Execute.value (e : Execute) : Value where
  caller := e.caller
  mode := e.confirmed.mode
  subjects := e.confirmed.subjects

/-- A forget that an `execute` started, with what the stores and the clock gave it. -/
structure Start where
  execute : Execute
  hides : String → Subject → Bool
  erase : String → Subject → Except String Nat
  now : Time

/-- The engine's part of `execute`. -/
def Start.run (m : Engine) (s : Start) : Engine :=
  let e := s.execute
  if e.confirmed.mode = "permanent" then
    (forgetPermanently m s.hides s.erase s.now e.confirmed.subjects e.requestedBy e.userId).1
  else (trash m s.hides s.now e.confirmed.subjects e.requestedBy e.userId).1

/-- Redis, the sync dir, the engine and the calls in flight; and what has happened so
far: the tokens issued, the callers that presented an issued token, and the forgets
started. -/
structure Desk where
  tokens : String → Option Value
  syncDir : Bool
  engine : Engine
  pending : Nat → Option Execute
  issued : List (String × Value)
  presented : List (String × String)
  starts : List Start

def Desk.open (m : Engine) (syncDir : Bool) : Desk where
  tokens := fun _ => none
  syncDir := syncDir
  engine := m
  pending := fun _ => none
  issued := []
  presented := []
  starts := []

inductive Action where
  | issue (token : String) (subjects : List Subject) (mode caller : String)
  /-- `consume`, as call `id` -/
  | present (id : Nat) (token caller requestedBy userId : String)
  /-- `forget_available` -/
  | look (id : Nat)
  | putBack (id : Nat)
  | start (id : Nat) (hides : String → Subject → Bool)
      (erase : String → Subject → Except String Nat) (now : Time)
  | setSyncDir (set : Bool)
  | expire (token : String)

def Desk.wasIssued (w : Desk) (token : String) : Bool := token ∈ w.issued.map Prod.fst

def issue (w : Desk) (token : String) (value : Value) : Desk :=
  if w.wasIssued token ∨ malformed token then w
  else { w with
    tokens := Function.update w.tokens token (some value)
    issued := w.issued ++ [(token, value)] }

def present (w : Desk) (id : Nat) (token caller requestedBy userId : String) : Desk :=
  if (w.pending id).isSome then w
  else
    let presented :=
      if w.wasIssued token then w.presented ++ [(token, caller)] else w.presented
    let tokens := if malformed token then w.tokens else Function.update w.tokens token none
    match consume (w.tokens token) token caller with
    | .error _ => { w with tokens, presented }
    | .ok confirmed => { w with
        tokens, presented
        pending := Function.update w.pending id
          (some { token, caller, confirmed, requestedBy, userId, available := none }) }

def step (w : Desk) : Action → Desk
  | .issue token subjects mode caller => issue w token { caller, mode, subjects }
  | .present id token caller requestedBy userId => present w id token caller requestedBy userId
  | .look id =>
    match w.pending id with
    | some e =>
      if e.available = none then
        { w with pending := Function.update w.pending id (some { e with available := some w.syncDir }) }
      else w
    | none => w
  | .putBack id =>
    match w.pending id with
    | some e =>
      if e.available = some false then
        { w with
          tokens := Function.update w.tokens e.token (some e.value)
          pending := Function.update w.pending id none }
      else w
    | none => w
  | .start id hides erase now =>
    match w.pending id with
    | some e =>
      if e.available = some true then
        let w := { w with pending := Function.update w.pending id none }
        if w.syncDir then
          let s : Start := { execute := e, hides, erase, now }
          { w with engine := s.run w.engine, starts := w.starts ++ [s] }
        else w
      else w
    | none => w
  | .setSyncDir set => { w with syncDir := set }
  | .expire token => { w with tokens := Function.update w.tokens token none }

/-- The `execute` that the step ends with `ForgetUnavailable`; it has changed nothing. -/
def raisesUnavailable (w : Desk) : Action → Option Execute
  | .putBack id => (w.pending id).filter (fun e => e.available = some false)
  | .start id _ _ _ => (w.pending id).filter (fun e => e.available = some true ∧ w.syncDir = false)
  | _ => none

/-! ## What a token is good for -/

/-- Each token started at most one forget, presented by the caller it was issued to and
for the subjects and mode it was issued for; the engine has run these forgets and no
others; and a token that started a forget, or that another caller presented, is gone. -/
structure Safe (m : Engine) (w : Desk) : Prop where
  once : (w.starts.map (fun s => s.execute.token)).Nodup
  asIssued : ∀ s ∈ w.starts, (s.execute.token, s.execute.value) ∈ w.issued
  oneValue : (w.issued.map Prod.fst).Nodup
  engine : w.engine = w.starts.foldl Start.run m
  started : ∀ s ∈ w.starts, w.tokens s.execute.token = none
  refused : ∀ token value caller, (token, value) ∈ w.issued → (token, caller) ∈ w.presented →
    caller ≠ value.caller → w.tokens token = none

/-- The state after the step is safe, and an `execute` that the step ends with
`ForgetUnavailable` has left its token as it found it. -/
def Keeps (m : Engine) (w : Desk) (a : Action) : Prop :=
  Safe m (step w a) ∧
    ∀ e, raisesUnavailable w a = some e → (step w a).tokens e.token = some e.value

/-- An `execute` that found the sync dir still finds it when the engine looks, and no
other caller has presented the token that an `execute` puts back. -/
def Undisturbed (w : Desk) : Action → Prop
  | .start id _ _ _ => ∀ e, w.pending id = some e → e.available = some true → w.syncDir = true
  | .putBack id => ∀ e, w.pending id = some e → e.available = some false →
      ∀ caller, (e.token, caller) ∈ w.presented → caller = e.caller
  | _ => True

/-- Where the tokens are: a token taken out of Redis is in the hands of one call, which
holds what was issued. -/
structure Inv (m : Engine) (w : Desk) : Prop extends Safe m w where
  wellFormed : ∀ p ∈ w.issued, malformed p.1 = false
  stored : ∀ token value, w.tokens token = some value → (token, value) ∈ w.issued
  held : ∀ id e, w.pending id = some e → (e.token, e.value) ∈ w.issued
  taken : ∀ id e, w.pending id = some e → w.tokens e.token = none
  unstarted : ∀ id e, w.pending id = some e → ∀ s ∈ w.starts, s.execute.token ≠ e.token
  apart : ∀ id e id' e', w.pending id = some e → w.pending id' = some e' →
    e.token = e'.token → id = id'
  seen : ∀ p ∈ w.presented, p.1 ∈ w.issued.map Prod.fst

variable {m : Engine} {w : Desk}

theorem update_none {α β : Type} [DecidableEq α] {f : α → Option β} {a b : α} (h : f b = none) :
    Function.update f a none b = none := by
  by_cases hb : b = a
  · rw [hb, Function.update_self]
  · rw [Function.update_of_ne hb, h]

theorem of_update_none {α β : Type} [DecidableEq α] {f : α → Option β} {a b : α} {v : β}
    (h : Function.update f a none b = some v) : b ≠ a ∧ f b = some v := by
  by_cases hb : b = a
  · rw [hb, Function.update_self] at h
    cases h
  · rw [Function.update_of_ne hb] at h
    exact ⟨hb, h⟩

/-! ## What each step does to the invariant -/

theorem inv_open (m : Engine) (syncDir : Bool) : Inv m (Desk.open m syncDir) := by
  constructor <;> simp [Desk.open]
  constructor <;> simp

/-- A token leaves Redis. -/
theorem Inv.expire (h : Inv m w) (token : String) :
    Inv m { w with tokens := Function.update w.tokens token none } where
  once := h.once
  asIssued := h.asIssued
  oneValue := h.oneValue
  engine := h.engine
  started := fun s hs => update_none (h.started s hs)
  refused := fun t v c hv hc hne => update_none (h.refused t v c hv hc hne)
  wellFormed := h.wellFormed
  stored := fun t v ht => h.stored t v (of_update_none ht).2
  held := h.held
  taken := fun id e he => update_none (h.taken id e he)
  unstarted := h.unstarted
  apart := h.apart
  seen := h.seen

/-- A call ends. -/
theorem Inv.drop (h : Inv m w) (id : Nat) :
    Inv m { w with pending := Function.update w.pending id none } where
  once := h.once
  asIssued := h.asIssued
  oneValue := h.oneValue
  engine := h.engine
  started := h.started
  refused := h.refused
  wellFormed := h.wellFormed
  stored := h.stored
  held := fun i e he => h.held i e (of_update_none he).2
  taken := fun i e he => h.taken i e (of_update_none he).2
  unstarted := fun i e he => h.unstarted i e (of_update_none he).2
  apart := fun i e i' e' he he' => h.apart i e i' e' (of_update_none he).2 (of_update_none he').2
  seen := h.seen

/-- A token that is not in Redis is presented. -/
theorem Inv.presents (h : Inv m w) (token caller : String)
    (hgone : w.tokens token = none) :
    Inv m { w with presented :=
      if w.wasIssued token then w.presented ++ [(token, caller)] else w.presented } := by
  by_cases hi : w.wasIssued token = true
  · rw [if_pos hi]
    refine { h with refused := fun t v c hv hc hne => ?_, seen := fun p hp => ?_ }
    · rcases List.mem_append.mp hc with hc | hc
      · exact h.refused t v c hv hc hne
      · rw [List.mem_singleton, Prod.mk.injEq] at hc
        rw [hc.1]
        exact hgone
    · rcases List.mem_append.mp hp with hp | hp
      · exact h.seen p hp
      · rw [List.mem_singleton] at hp
        rw [hp]
        exact of_decide_eq_true hi
  · rw [if_neg hi]
    exact h

/-- A call takes hold of a token that nobody else has. -/
theorem Inv.hold (h : Inv m w) (id : Nat) (e : Execute)
    (hissued : (e.token, e.value) ∈ w.issued) (hgone : w.tokens e.token = none)
    (hstarts : ∀ s ∈ w.starts, s.execute.token ≠ e.token)
    (hfree : ∀ i e', i ≠ id → w.pending i = some e' → e'.token ≠ e.token) :
    Inv m { w with pending := Function.update w.pending id (some e) } := by
  have hcase : ∀ i e', Function.update w.pending id (some e) i = some e' →
      (i = id ∧ e' = e) ∨ (i ≠ id ∧ w.pending i = some e') := by
    intro i e' he'
    by_cases hi : i = id
    · rw [hi, Function.update_self, Option.some.injEq] at he'
      exact Or.inl ⟨hi, he'.symm⟩
    · rw [Function.update_of_ne hi] at he'
      exact Or.inr ⟨hi, he'⟩
  refine { h with held := ?_, taken := ?_, unstarted := ?_, apart := ?_ }
  · intro i e' he'
    rcases hcase i e' he' with ⟨-, rfl⟩ | ⟨-, he'⟩
    · exact hissued
    · exact h.held i e' he'
  · intro i e' he'
    rcases hcase i e' he' with ⟨-, rfl⟩ | ⟨-, he'⟩
    · exact hgone
    · exact h.taken i e' he'
  · intro i e' he'
    rcases hcase i e' he' with ⟨-, rfl⟩ | ⟨-, he'⟩
    · exact hstarts
    · exact h.unstarted i e' he'
  · intro i e₁ i' e₂ he₁ he₂ htoken
    rcases hcase i e₁ he₁ with ⟨rfl, rfl⟩ | ⟨hi, hw₁⟩
    · rcases hcase i' e₂ he₂ with ⟨rfl, -⟩ | ⟨hi', hw₂⟩
      · rfl
      · exact absurd htoken.symm (hfree i' e₂ hi' hw₂)
    · rcases hcase i' e₂ he₂ with ⟨-, rfl⟩ | ⟨-, hw₂⟩
      · exact absurd htoken (hfree i e₁ hi hw₁)
      · exact h.apart i e₁ i' e₂ hw₁ hw₂ htoken

/-- A token that no call holds, that started no forget and that no other caller
presented comes into Redis with its value. -/
theorem Inv.store (h : Inv m w) {token : String} {value : Value}
    (hissued : (token, value) ∈ w.issued)
    (hstarts : ∀ s ∈ w.starts, s.execute.token ≠ token)
    (hfree : ∀ i e, w.pending i = some e → e.token ≠ token)
    (hcallers : ∀ caller, (token, caller) ∈ w.presented → caller = value.caller) :
    Inv m { w with tokens := Function.update w.tokens token (some value) } := by
  refine { h with started := ?_, refused := ?_, stored := ?_, taken := ?_ }
  · intro s hs
    show Function.update w.tokens token (some value) s.execute.token = none
    rw [Function.update_of_ne (hstarts s hs)]
    exact h.started s hs
  · intro t v c hv hc hne
    have ht : t ≠ token := by
      rintro rfl
      have hsame : v = value := by
        have := List.inj_on_of_nodup_map h.oneValue hv hissued rfl
        exact (Prod.mk.inj this).2
      exact hne (hsame ▸ hcallers c hc)
    show Function.update w.tokens token (some value) t = none
    rw [Function.update_of_ne ht]
    exact h.refused t v c hv hc hne
  · intro t v htv
    have htv : Function.update w.tokens token (some value) t = some v := htv
    by_cases ht : t = token
    · rw [ht, Function.update_self, Option.some.injEq] at htv
      rw [ht, ← htv]
      exact hissued
    · rw [Function.update_of_ne ht] at htv
      exact h.stored t v htv
  · intro i e he
    show Function.update w.tokens token (some value) e.token = none
    rw [Function.update_of_ne (hfree i e he)]
    exact h.taken i e he

/-- Nobody holds a token that is in Redis, and no forget was started with it. -/
theorem Inv.free (h : Inv m w) {token : String} {value : Value}
    (ht : w.tokens token = some value) :
    (∀ i e, w.pending i = some e → e.token ≠ token) ∧
      ∀ s ∈ w.starts, s.execute.token ≠ token := by
  constructor
  · rintro i e he rfl
    rw [h.taken i e he] at ht
    cases ht
  · rintro s hs rfl
    rw [h.started s hs] at ht
    cases ht

theorem Inv.issue (h : Inv m w) (token : String) (value : Value) :
    Inv m (issue w token value) := by
  unfold Confirm.issue
  split
  · exact h
  · rename_i hnew
    rw [not_or] at hnew
    have hfresh : token ∉ w.issued.map Prod.fst := by
      simpa [Desk.wasIssued] using hnew.1
    have hne : ∀ p ∈ w.issued, p.1 ≠ token := fun p hp e =>
      hfresh (List.mem_map.mpr ⟨p, hp, e⟩)
    have hissued : Inv m { w with issued := w.issued ++ [(token, value)] } := by
      refine { h with
        asIssued := fun s hs => List.mem_append_left _ (h.asIssued s hs), oneValue := ?_,
        refused := ?_, wellFormed := ?_,
        stored := fun t v ht => List.mem_append_left _ (h.stored t v ht),
        held := fun i e he => List.mem_append_left _ (h.held i e he), seen := ?_ }
      · show ((w.issued ++ [(token, value)]).map Prod.fst).Nodup
        rw [List.map_append, List.nodup_append]
        refine ⟨h.oneValue, by simp, ?_⟩
        intro a ha b hb hab
        rw [List.map_cons, List.map_nil, List.mem_singleton] at hb
        subst hb hab
        exact hfresh ha
      · intro t v c hv hc hcne
        rcases List.mem_append.mp hv with hv | hv
        · exact h.refused t v c hv hc hcne
        · rw [List.mem_singleton, Prod.mk.injEq] at hv
          exact absurd (hv.1 ▸ h.seen (t, c) hc) hfresh
      · intro p hp
        rcases List.mem_append.mp hp with hp | hp
        · exact h.wellFormed p hp
        · rw [List.mem_singleton] at hp
          rw [hp]
          exact Bool.eq_false_iff.mpr hnew.2
      · intro p hp
        show p.1 ∈ (w.issued ++ [(token, value)]).map Prod.fst
        rw [List.map_append]
        exact List.mem_append_left _ (h.seen p hp)
    refine hissued.store (List.mem_append_right _ List.mem_cons_self) ?_ ?_ ?_
    · intro s hs
      exact hne _ (h.asIssued s hs)
    · intro i e he
      exact hne _ (h.held i e he)
    · intro caller hc
      exact absurd (h.seen (token, caller) hc) hfresh

theorem Inv.present (h : Inv m w) (id : Nat) (token caller requestedBy userId : String) :
    Inv m (present w id token caller requestedBy userId) := by
  unfold Confirm.present
  split
  · exact h
  · by_cases hm : malformed token = true
    · -- a malformed token was never issued, and Redis is not asked for it
      have hnot : ¬ w.wasIssued token = true := by
        intro hi
        obtain ⟨p, hp, rfl⟩ := List.mem_map.mp (of_decide_eq_true hi)
        rw [h.wellFormed p hp] at hm
        cases hm
      have hraise : consume (w.tokens token) token caller = .error .malformed := by
        unfold consume
        rw [if_pos hm]
      simp only [hraise, if_neg hnot, if_pos hm]
      exact h
    · have hgone := (h.expire token).presents token caller (Function.update_self ..)
      simp only [if_neg hm]
      cases hc : consume (w.tokens token) token caller with
      | error _ => exact hgone
      | ok confirmed =>
        have hval := (consume_eq_ok hc).2
        refine hgone.hold id _ (h.stored token _ hval) (Function.update_self ..)
          (h.free hval).2 ?_
        intro i e' _ he'
        exact (h.free hval).1 i e' he'

theorem Inv.look (h : Inv m w) (id : Nat) : Inv m (step w (.look id)) := by
  cases he : w.pending id with
  | none => simpa only [Confirm.step, he] using h
  | some e =>
    simp only [Confirm.step, he]
    split
    · have hdrop := (h.drop id).hold id { e with available := some w.syncDir }
        (h.held id e he) (h.taken id e he) (h.unstarted id e he) ?_
      · simpa only [Function.update_idem] using hdrop
      · intro i e' hi he' htoken
        exact hi (h.apart i e' id e (of_update_none he').2 he htoken)
    · exact h

theorem Inv.putBack (h : Inv m w) (id : Nat) (ok : Undisturbed w (.putBack id)) :
    Inv m (step w (.putBack id)) := by
  cases he : w.pending id with
  | none => simpa only [Confirm.step, he] using h
  | some e =>
    simp only [Confirm.step, he]
    split
    · rename_i ha
      refine (h.drop id).store (h.held id e he) (h.unstarted id e he) ?_ (ok e he ha)
      intro i e' he' htoken
      obtain ⟨hi, he'⟩ := of_update_none he'
      exact hi (h.apart i e' id e he' he htoken)
    · exact h

theorem Inv.start (h : Inv m w) (id : Nat) (hides : String → Subject → Bool)
    (erase : String → Subject → Except String Nat) (now : Time) :
    Inv m (step w (.start id hides erase now)) := by
  cases he : w.pending id with
  | none => simpa only [Confirm.step, he] using h
  | some e =>
    simp only [Confirm.step, he]
    split
    · split
      · have hd := h.drop id
        have hcase : ∀ s ∈ w.starts ++ [{ execute := e, hides, erase, now }],
            s ∈ w.starts ∨ s.execute = e := by
          intro s hs
          rcases List.mem_append.mp hs with hs | hs
          · exact Or.inl hs
          · rw [List.mem_singleton] at hs
            exact Or.inr (by rw [hs])
        refine { hd with
          once := ?_, asIssued := ?_, engine := ?_, started := ?_, unstarted := ?_ }
        · show ((w.starts ++ [_]).map _).Nodup
          rw [List.map_append, List.nodup_append]
          refine ⟨h.once, by simp, ?_⟩
          intro a ha b hb hab
          obtain ⟨s, hs, rfl⟩ := List.mem_map.mp ha
          rw [List.map_cons, List.map_nil, List.mem_singleton] at hb
          exact h.unstarted id e he s hs (hab.trans hb)
        · intro s hs
          rcases hcase s hs with hs | hs
          · exact h.asIssued s hs
          · rw [hs]
            exact h.held id e he
        · show Start.run w.engine _ = (w.starts ++ [_]).foldl Start.run m
          rw [List.foldl_append, ← h.engine]
          rfl
        · intro s hs
          rcases hcase s hs with hs | hs
          · exact h.started s hs
          · rw [hs]
            exact h.taken id e he
        · intro i e' he' s hs htoken
          obtain ⟨hi, he'⟩ := of_update_none he'
          rcases hcase s hs with hs | hs
          · exact h.unstarted i e' he' s hs htoken
          · rw [hs] at htoken
            exact hi (h.apart i e' id e he' he htoken.symm)
      · exact h.drop id
    · exact h

theorem Inv.step (h : Inv m w) (a : Action) (ok : Undisturbed w a) : Inv m (step w a) := by
  cases a with
  | issue token subjects mode caller => exact h.issue token _
  | present id token caller requestedBy userId => exact h.present id token caller requestedBy userId
  | look id => exact h.look id
  | putBack id => exact h.putBack id ok
  | start id hides erase now => exact h.start id hides erase now
  | setSyncDir set => exact { h with }
  | expire token => exact h.expire token

/-! ## Runs -/

/-- Where the tokens are as the invariant says, a step keeps its promises exactly when it
is undisturbed. -/
theorem keeps_iff (h : Inv m w) (a : Action) : Keeps m w a ↔ Undisturbed w a := by
  constructor
  · rintro ⟨hsafe, hlast⟩
    cases a with
    | putBack id =>
      intro e he ha caller hc
      have hback : step w (.putBack id) = { w with
          tokens := Function.update w.tokens e.token (some e.value)
          pending := Function.update w.pending id none } := by
        simp only [step, he, ha, if_true]
      rw [hback] at hsafe
      by_contra hne
      have hgone := hsafe.refused e.token e.value caller (h.held id e he) hc hne
      simp only [Function.update_self] at hgone
      cases hgone
    | start id hides erase now =>
      intro e he ha
      by_contra hsync
      have hraise : raisesUnavailable w (.start id hides erase now) = some e := by
        simpa [raisesUnavailable, he, ha] using hsync
      have hstay : (step w (.start id hides erase now)).tokens = w.tokens := by
        simp only [step, he, ha, if_true, hsync, if_false]
      have hback := hlast e hraise
      rw [hstay, h.taken id e he] at hback
      cases hback
    | issue _ _ _ _ | present _ _ _ _ _ | look _ | setSyncDir _ | expire _ => exact trivial
  · intro ok
    refine ⟨(h.step a ok).toSafe, fun e hraise => ?_⟩
    cases a with
    | putBack id =>
      obtain ⟨he, ha⟩ := Option.filter_eq_some_iff.mp hraise
      have ha : e.available = some false := of_decide_eq_true ha
      simp only [step, he, ha, if_true, Function.update_self]
    | start id hides erase now =>
      obtain ⟨he, ha⟩ := Option.filter_eq_some_iff.mp hraise
      have ha : e.available = some true ∧ w.syncDir = false := of_decide_eq_true ha
      exact absurd (ok e he ha.1) (by simp [ha.2])
    | issue _ _ _ _ | present _ _ _ _ _ | look _ | setSyncDir _ | expire _ => cases hraise

/-- A run of calls keeps its promises about tokens at every step exactly when every step
is undisturbed. -/
theorem tokens_kept_iff (m : Engine) (syncDir : Bool) (run : List Action) :
    Along step (Keeps m) (Desk.open m syncDir) run ↔
      Along step Undisturbed (Desk.open m syncDir) run :=
  along_iff (Inv m) (fun _ a h => keeps_iff h a) (fun _ a h ok => h.step a ok) (inv_open m syncDir)

/-- The sync dir goes between the look and the engine's own: the token is gone and
nothing was forgotten.  And a token that another caller presents while its own caller's
call has it in hands comes back. -/
theorem not_tokens_kept :
    let token := "k3JxW9sQ0bTz7LhV2mNfR8aYcE5uGp1D"
    let note : Subject := { kind := .artifact, id := "note" }
    let m := Engine.start "desk"
    (¬ Along step (Keeps m) (Desk.open m true) [.issue token [note] "trash" "mcp",
      .present 0 token "mcp" "mcp" "", .look 0, .setSyncDir false,
      .start 0 (fun _ _ => true) (fun _ _ => .ok 1) 5]) ∧
    ¬ Along step (Keeps m) (Desk.open m false) [.issue token [note] "trash" "mcp",
      .present 0 token "mcp" "mcp" "", .look 0, .present 1 token "sdk" "sdk" "",
      .putBack 0] := by
  intro token note m
  let e : Execute := {
    token, caller := "mcp", confirmed := { subjects := [note], mode := "trash" }
    requestedBy := "mcp", userId := "", available := some true }
  constructor
  · rintro ⟨-, -, -, -, ⟨-, hlast⟩, -⟩
    have hback := hlast e (by decide)
    exact absurd hback (by decide)
  · rintro ⟨-, -, -, -, ⟨hsafe, -⟩, -⟩
    have hgone := hsafe.refused token e.value "sdk" (by decide) (by decide) (by decide)
    exact absurd hgone (by decide)

end Cerid.Forget.Confirm
