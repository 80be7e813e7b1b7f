import Cerid.Lib.Run
import Mathlib.Logic.Function.Basic

/-!
# Idempotent writes

A call with an `Idempotency-Key` sets a sentinel under the key made of its client, path and
idempotency key.  The call that wins runs its work, then stores the result over the
sentinel or deletes it; a call that loses reads the key once more and answers from what it
finds.  Every Redis command is a step, and so are the end of the work and the passing of
time; Redis itself never errors.

A result is the JSON text that the client gets, or none where it has no JSON text.  Times
are milliseconds.
-/

namespace Cerid.Guard.Idempotency

/-- `_RESULT_TTL_S`. -/
def RESULT_TTL : Nat := 24 * 60 * 60 * 1000

/-- `_LOCK_TTL_S`. -/
def LOCK_TTL : Nat := 300 * 1000

/-- Whose call it is: the client, the request path and the `Idempotency-Key`. -/
structure Triple where
  clientId : String
  path : String
  idemKey : String
deriving DecidableEq, Repr

/-- `_cache_key`. -/
def Triple.cacheKey (t : Triple) : String :=
  "cerid:sdk:idem:" ++ t.clientId ++ ":" ++ t.path ++ ":" ++ t.idemKey

/-- What is stored under a key. -/
inductive Held where
  | sentinel
  | result (text : String)
deriving DecidableEq, Repr

/-- A key of Redis: its value, when it expires, and the call that wrote it. -/
structure Cell where
  held : Held
  deadline : Nat
  writer : Nat
deriving DecidableEq, Repr

/-- Where a call of `idempotent` stands. -/
inductive Phase where
  /-- SET NX found the key there -/
  | refused
  /-- `_run(work)`, with the lock or without -/
  | running (locked : Bool)
  /-- the work raised: `_safe_delete` comes next -/
  | releasing
  /-- the work returned: `_store_or_release` comes next -/
  | storing (result : Option String)
  | raised
  | returned (result : Option String) (at_ : Nat)
  /-- 409 -/
  | conflict
  | replayed (text : String)
deriving DecidableEq, Repr

structure Call where
  triple : Triple
  began : Nat
  phase : Phase
deriving DecidableEq, Repr

abbrev Call.key (c : Call) : String := c.triple.cacheKey

/-- The call won the key and has not given it back or stored its result. -/
def Call.owns (c : Call) : Bool :=
  match c.phase with
  | .running locked => locked
  | .releasing | .storing _ => true
  | _ => false

/-- The work is in progress, or it has succeeded within the lifetime of its result. -/
def Call.counts (now : Nat) (c : Call) : Bool :=
  match c.phase with
  | .running _ | .storing _ => true
  | .returned _ at_ => now < at_ + RESULT_TTL
  | _ => false

structure Desk where
  now : Nat
  store : String → Option Cell
  calls : Nat → Option Call

def Desk.start : Desk := { now := 0, store := fun _ => none, calls := fun _ => none }

/-- GET. -/
def Desk.get? (w : Desk) (key : String) : Option Cell :=
  (w.store key).filter (fun cell => w.now < cell.deadline)

def Desk.put (w : Desk) (key : String) (cell : Option Cell) : Desk :=
  { w with store := Function.update w.store key cell }

def Desk.move (w : Desk) (id : Nat) (c : Call) : Desk :=
  { w with calls := Function.update w.calls id (some c) }

inductive Action where
  | tick (d : Nat)
  /-- a call begins with `_safe_setnx` -/
  | setnx (id : Nat) (triple : Triple)
  | get (id : Nat)
  /-- the work ends; `none` is an exception -/
  | finish (id : Nat) (outcome : Option (Option String))
  | release (id : Nat)
  | storeOrRelease (id : Nat)

def setnx (w : Desk) (id : Nat) (triple : Triple) : Desk :=
  match w.calls id with
  | some _ => w
  | none =>
    match w.get? triple.cacheKey with
    | some _ => w.move id { triple, began := w.now, phase := .refused }
    | none =>
      (w.put triple.cacheKey
        (some { held := .sentinel, deadline := w.now + LOCK_TTL, writer := id })).move id
        { triple, began := w.now, phase := .running true }

/-- Where the GET of a refused call leads. -/
def afterGet : Option Held → Phase
  | none => .running false
  | some .sentinel => .conflict
  | some (.result text) => .replayed text

/-- Where the end of the work leads. -/
def afterWork (now : Nat) (locked : Bool) : Option (Option String) → Phase
  | none => if locked then .releasing else .raised
  | some result => if locked then .storing result else .returned result now

/-- What `_store_or_release` leaves under the key. -/
def stored (now : Nat) (id : Nat) : Option String → Option Cell
  | none => none
  | some text => some { held := .result text, deadline := now + RESULT_TTL, writer := id }

def step (w : Desk) : Action → Desk
  | .tick d => { w with now := w.now + d }
  | .setnx id triple => setnx w id triple
  | .get id =>
    match w.calls id with
    | some c =>
      if c.phase = .refused then
        w.move id { c with phase := afterGet ((w.get? c.key).map Cell.held) }
      else w
    | none => w
  | .finish id outcome =>
    match w.calls id with
    | some c =>
      match c.phase with
      | .running locked => w.move id { c with phase := afterWork w.now locked outcome }
      | _ => w
    | none => w
  | .release id =>
    match w.calls id with
    | some c =>
      if c.phase = .releasing then (w.put c.key none).move id { c with phase := .raised } else w
    | none => w
  | .storeOrRelease id =>
    match w.calls id with
    | some c =>
      match c.phase with
      | .storing result =>
        (w.put c.key (stored w.now id result)).move id { c with phase := .returned result w.now }
      | _ => w
    | none => w

/-! ## What a call may count on -/

/-- Of each client, path and key at most one execution is in progress or has succeeded
within the lifetime of its result. -/
def AtMostOnce (w : Desk) : Prop :=
  ∀ id c id' c', w.calls id = some c → w.calls id' = some c' → c.triple = c'.triple →
    c.counts w.now = true → c'.counts w.now = true → id = id'

/-- What the call meets under its key was written by a call with the same triple. -/
def MeetsOwn (w : Desk) (triple : Triple) : Prop :=
  ∀ cell, w.get? triple.cacheKey = some cell → ∃ c, w.calls cell.writer = some c ∧ c.triple = triple

/-- The refused call ends with a 409 while a call with the same triple holds the key, or
with the result, word for word, of one that succeeded within the lifetime. -/
def Answers (w : Desk) (c : Call) (phase : Phase) : Prop :=
  ∃ id' c', w.calls id' = some c' ∧ c'.triple = c.triple ∧
    ((phase = .conflict ∧ c'.owns = true) ∨
      ∃ text at_, phase = .replayed text ∧ c'.phase = .returned (some text) at_ ∧
        w.now < at_ + RESULT_TTL)

/-- The key holds the call's own sentinel. -/
def HoldsOwn (w : Desk) (id : Nat) (c : Call) : Prop :=
  ∃ cell, w.get? c.key = some cell ∧ cell.held = .sentinel ∧ cell.writer = id

/-- What the step promises: at most one execution afterwards; a call that begins meets
nothing of another triple; a refused call gets a 409 or the stored result; and what a
failed call deletes, or a successful one overwrites, is its own sentinel. -/
def Keeps (w : Desk) (a : Action) : Prop :=
  AtMostOnce (step w a) ∧
    match a with
    | .setnx _ triple => MeetsOwn w triple
    | .get id => ∀ c, w.calls id = some c → c.phase = .refused → ∃ phase,
        (step w a).calls id = some { c with phase } ∧ Answers w c phase
    | .release id => ∀ c, w.calls id = some c → c.phase = .releasing →
        HoldsOwn w id c ∧ (step w a).get? c.key = none
    | .storeOrRelease id => ∀ c result, w.calls id = some c → c.phase = .storing result →
        HoldsOwn w id c
    | _ => True

/-- No sentinel lapses while its call is still at work, storing or releasing; a call
meets under its key only what calls with its own triple wrote; what refused a call is
still there when it looks; and every result has a JSON text. -/
def Orderly (w : Desk) : Action → Prop
  | .tick d => ∀ id c, w.calls id = some c → c.owns = true → w.now + d < c.began + LOCK_TTL
  | .setnx _ triple => ∀ cell, w.get? triple.cacheKey = some cell →
      ∀ c, w.calls cell.writer = some c → c.triple = triple
  | .get id => ∀ c, w.calls id = some c → c.phase = .refused →
      ∃ cell, w.get? c.key = some cell ∧ ∀ c', w.calls cell.writer = some c' → c'.triple = c.triple
  | .storeOrRelease id => ∀ c, w.calls id = some c → c.phase ≠ .storing none
  | _ => True

/-! ## The invariant -/

/-- A call that owns its key has its sentinel there; a result that has not outlived its
time is stored; and what is stored was written by such a call. -/
structure Inv (w : Desk) : Prop where
  owns : ∀ id c, w.calls id = some c → c.owns = true → w.now < c.began + LOCK_TTL ∧
    w.store c.key =
      some { held := .sentinel, deadline := c.began + LOCK_TTL, writer := id }
  lasting : ∀ id c result at_, w.calls id = some c → c.phase = .returned result at_ →
    w.now < at_ + RESULT_TTL → w.store c.key = stored at_ id result ∧ result ≠ none
  written : ∀ key cell, w.store key = some cell → w.now < cell.deadline →
    ∃ c, w.calls cell.writer = some c ∧ c.key = key ∧
      match cell.held with
      | .sentinel => c.owns = true
      | .result text => ∃ at_, c.phase = .returned (some text) at_ ∧
          cell.deadline = at_ + RESULT_TTL
  locked : ∀ id c, w.calls id = some c → c.phase ≠ .running false

variable {w : Desk}

theorem get?_eq_some {key : String} {cell : Cell} :
    w.get? key = some cell ↔ w.store key = some cell ∧ w.now < cell.deadline := by
  rw [Desk.get?, Option.filter_eq_some_iff, decide_eq_true_eq]

/-- A call that owns its key or whose execution counts is the writer of what is there. -/
theorem Inv.cell (h : Inv w) {id : Nat} {c : Call} (hc : w.calls id = some c)
    (hon : c.owns = true ∨ c.counts w.now = true) :
    ∃ cell, w.get? c.key = some cell ∧ cell.writer = id := by
  have howner : c.owns = true → ∃ cell, w.get? c.key = some cell ∧ cell.writer = id := by
    intro ho
    obtain ⟨hlt, hstore⟩ := h.owns id c hc ho
    exact ⟨_, get?_eq_some.mpr ⟨hstore, hlt⟩, rfl⟩
  rcases hon with ho | hon
  · exact howner ho
  · unfold Call.counts at hon
    split at hon
    · rename_i locked hphase
      have hlocked : locked = true := by
        cases locked with
        | true => rfl
        | false => exact absurd hphase (h.locked id c hc)
      exact howner (by simp [Call.owns, hphase, hlocked])
    · rename_i hphase
      exact howner (by simp [Call.owns, hphase])
    · rename_i result at_ hphase
      have hlt : w.now < at_ + RESULT_TTL := of_decide_eq_true hon
      obtain ⟨hstore, hne⟩ := h.lasting id c result at_ hc hphase hlt
      cases result with
      | none => exact absurd rfl hne
      | some text => exact ⟨_, get?_eq_some.mpr ⟨hstore, hlt⟩, rfl⟩
    · cases hon

theorem Inv.atMostOnce (h : Inv w) : AtMostOnce w := by
  intro id c id' c' hc hc' ht hn hn'
  obtain ⟨cell, hcell, hid⟩ := h.cell hc (Or.inr hn)
  obtain ⟨cell', hcell', hid'⟩ := h.cell hc' (Or.inr hn')
  have hkey : c.key = c'.key := congrArg Triple.cacheKey ht
  rw [hkey, hcell', Option.some.injEq] at hcell
  rw [← hid, ← hid', hcell]

theorem inv_start : Inv Desk.start where
  owns := fun _ _ hc => by cases hc
  lasting := fun _ _ _ _ hc => by cases hc
  written := fun _ _ hcell => by cases hcell
  locked := fun _ _ hc => by cases hc

/-! ## What each step does to it -/

theorem Inv.tick (h : Inv w) (d : Nat) (ok : Orderly w (.tick d)) : Inv (step w (.tick d)) where
  owns := fun id c hc ho => ⟨ok id c hc ho, (h.owns id c hc ho).2⟩
  lasting := fun id c result at_ hc hphase hlt =>
    h.lasting id c result at_ hc hphase (by have : w.now + d < at_ + RESULT_TTL := hlt; omega)
  written := fun key cell hcell hlt =>
    h.written key cell hcell (by have : w.now + d < cell.deadline := hlt; omega)
  locked := h.locked

theorem move_calls {id : Nat} {c : Call} {id' : Nat} {c' : Call}
    (h : (w.move id c).calls id' = some c') :
    (id' = id ∧ c' = c) ∨ (id' ≠ id ∧ w.calls id' = some c') := by
  have h : Function.update w.calls id (some c) id' = some c' := h
  by_cases hid : id' = id
  · rw [hid, Function.update_self, Option.some.injEq] at h
    exact Or.inl ⟨hid, h.symm⟩
  · rw [Function.update_of_ne hid] at h
    exact Or.inr ⟨hid, h⟩

/-- The phases of a call that never had the key. -/
def Phase.aside : Phase → Bool
  | .refused | .conflict | .replayed _ => true
  | _ => false

theorem not_owns_of_aside {c : Call} (h : c.phase.aside = true) : ¬ c.owns = true := by
  cases hp : c.phase <;> simp [hp, Call.owns, Phase.aside] at h ⊢

theorem not_returned_of_aside {c : Call} (h : c.phase.aside = true) (result : Option String)
    (at_ : Nat) : c.phase ≠ .returned result at_ := by
  intro hp
  rw [hp] at h
  cases h

/-- A call that has nothing moves on and still has nothing. -/
theorem Inv.aside (h : Inv w) (id : Nat) (c' : Call)
    (hold : ∀ c, w.calls id = some c → c.phase.aside = true) (hnew : c'.phase.aside = true) :
    Inv (w.move id c') where
  owns := by
    intro i c hc ho
    rcases move_calls hc with ⟨-, rfl⟩ | ⟨-, hc⟩
    · exact absurd ho (not_owns_of_aside hnew)
    · exact h.owns i c hc ho
  lasting := by
    intro i c result at_ hc hphase hlt
    rcases move_calls hc with ⟨-, rfl⟩ | ⟨-, hc⟩
    · exact absurd hphase (not_returned_of_aside hnew result at_)
    · exact h.lasting i c result at_ hc hphase hlt
  written := by
    intro key cell hcell hlt
    obtain ⟨c, hc, hkey, hheld⟩ := h.written key cell hcell hlt
    have hid : cell.writer ≠ id := by
      intro hid
      rw [hid] at hc
      cases hh : cell.held with
      | sentinel =>
        rw [hh] at hheld
        exact not_owns_of_aside (hold c hc) hheld
      | result text =>
        rw [hh] at hheld
        obtain ⟨at_, hphase, -⟩ := hheld
        exact not_returned_of_aside (hold c hc) _ at_ hphase
    refine ⟨c, ?_, hkey, hheld⟩
    show Function.update w.calls id (some c') cell.writer = some c
    rw [Function.update_of_ne hid, hc]
  locked := by
    intro i c hc hphase
    rcases move_calls hc with ⟨-, rfl⟩ | ⟨-, hc⟩
    · rw [hphase] at hnew
      cases hnew
    · exact h.locked i c hc hphase

/-- Who writes a key that nobody else has: the calls that have something have it under
other keys. -/
theorem Inv.write (h : Inv w) (id : Nat) (c : Call) (cell : Option Cell)
    (hfree : ∀ i c', i ≠ id → w.calls i = some c' → c'.owns = true ∨ c'.counts w.now = true →
      c'.key ≠ c.key)
    (hwriter : ∀ key cell', w.store key = some cell' → w.now < cell'.deadline →
      cell'.writer = id → key = c.key)
    (howns : c.owns = true → w.now < c.began + LOCK_TTL ∧
      cell = some { held := .sentinel, deadline := c.began + LOCK_TTL, writer := id })
    (hlasting : ∀ result at_, c.phase = .returned result at_ →
      cell = stored at_ id result ∧ result ≠ none)
    (hcell : ∀ cell', cell = some cell' → cell'.writer = id ∧
      match cell'.held with
      | .sentinel => c.owns = true
      | .result text => ∃ at_, c.phase = .returned (some text) at_ ∧
          cell'.deadline = at_ + RESULT_TTL)
    (hlocked : c.phase ≠ .running false) :
    Inv ((w.put c.key cell).move id c) where
  owns := by
    intro i c' hc ho
    show w.now < _ ∧ Function.update w.store c.key cell c'.key = _
    rcases move_calls hc with ⟨rfl, rfl⟩ | ⟨hi, hc⟩
    · rw [Function.update_self]
      exact howns ho
    · rw [Function.update_of_ne (hfree i c' hi hc (Or.inl ho))]
      exact h.owns i c' hc ho
  lasting := by
    intro i c' result at_ hc hphase hlt
    have hlt : w.now < at_ + RESULT_TTL := hlt
    show Function.update w.store c.key cell c'.key = _ ∧ _
    rcases move_calls hc with ⟨rfl, rfl⟩ | ⟨hi, hc⟩
    · rw [Function.update_self]
      exact hlasting result at_ hphase
    · have hn : c'.counts w.now = true := by simp [Call.counts, hphase, hlt]
      rw [Function.update_of_ne (hfree i c' hi hc (Or.inr hn))]
      exact h.lasting i c' result at_ hc hphase hlt
  written := by
    intro key cell' hstore hlt
    have hstore : Function.update w.store c.key cell key = some cell' := hstore
    by_cases hkey : key = c.key
    · rw [hkey, Function.update_self] at hstore
      obtain ⟨hw, hheld⟩ := hcell cell' hstore
      refine ⟨c, ?_, hkey.symm, hheld⟩
      show Function.update w.calls id (some c) cell'.writer = some c
      rw [hw, Function.update_self]
    · rw [Function.update_of_ne hkey] at hstore
      obtain ⟨c', hc', hrest⟩ := h.written key cell' hstore hlt
      have hw : cell'.writer ≠ id := fun hw => hkey (hwriter key cell' hstore hlt hw)
      refine ⟨c', ?_, hrest⟩
      show Function.update w.calls id (some c) cell'.writer = some c'
      rw [Function.update_of_ne hw, hc']
  locked := by
    intro i c' hc hphase
    rcases move_calls hc with ⟨-, rfl⟩ | ⟨-, hc⟩
    · exact hlocked hphase
    · exact h.locked i c' hc hphase

/-- The owner of a key is the only call that has something there, and has nothing
elsewhere. -/
theorem Inv.alone (h : Inv w) {id : Nat} {c : Call} (hc : w.calls id = some c)
    (ho : c.owns = true) :
    (∀ i c', i ≠ id → w.calls i = some c' → c'.owns = true ∨ c'.counts w.now = true →
      c'.key ≠ c.key) ∧
    ∀ key cell, w.store key = some cell → w.now < cell.deadline → cell.writer = id →
      key = c.key := by
  constructor
  · intro i c' hi hc' hon hkey
    obtain ⟨cell, hcell, hw⟩ := h.cell hc' hon
    rw [hkey, get?_eq_some, (h.owns id c hc ho).2, Option.some.injEq] at hcell
    rw [← hcell.1] at hw
    exact hi hw.symm
  · intro key cell hcell hlt hw
    obtain ⟨c', hc', hkey, -⟩ := h.written key cell hcell hlt
    rw [hw, hc, Option.some.injEq] at hc'
    rw [← hkey, hc']

theorem Inv.setnx (h : Inv w) (id : Nat) (triple : Triple) : Inv (setnx w id triple) := by
  unfold Idempotency.setnx
  cases hid : w.calls id with
  | some c => exact h
  | none =>
    cases hget : w.get? triple.cacheKey with
    | some cell =>
      exact h.aside id _ (fun c hc => by rw [hid] at hc; cases hc) rfl
    | none =>
      refine h.write id { triple, began := w.now, phase := .running true } _ ?_ ?_ ?_ ?_ ?_ ?_
      · intro i c' _ hc' hon hkey
        obtain ⟨cell, hcell, -⟩ := h.cell hc' hon
        rw [hkey, hget] at hcell
        cases hcell
      · intro key cell hcell hlt hw
        obtain ⟨c', hc', -⟩ := h.written key cell hcell hlt
        rw [hw, hid] at hc'
        cases hc'
      · intro _
        refine ⟨?_, rfl⟩
        show w.now < w.now + LOCK_TTL
        rw [LOCK_TTL]
        omega
      · intro result at_ hphase
        cases hphase
      · rintro cell' ⟨⟩
        exact ⟨rfl, rfl⟩
      · intro hphase
        cases hphase

theorem Inv.get (h : Inv w) (id : Nat) (ok : Orderly w (.get id)) : Inv (step w (.get id)) := by
  cases hc : w.calls id with
  | none => simpa only [step, hc] using h
  | some c =>
    simp only [step, hc]
    split
    · rename_i hphase
      obtain ⟨cell, hcell, -⟩ := ok c hc hphase
      refine h.aside id _ (fun c' hc' => ?_) ?_
      · rw [hc, Option.some.injEq] at hc'
        rw [← hc', hphase]
        rfl
      · show (afterGet ((w.get? c.key).map Cell.held)).aside = true
        rw [hcell, Option.map_some]
        cases cell.held <;> rfl
    · exact h

/-- The owner of a key goes on owning it. -/
theorem Inv.stay (h : Inv w) {id : Nat} {c c' : Call} (hc : w.calls id = some c)
    (ho : c.owns = true) (ht : c'.triple = c.triple) (hb : c'.began = c.began)
    (ho' : c'.owns = true) : Inv (w.move id c') := by
  have hkey : c'.key = c.key := congrArg Triple.cacheKey ht
  obtain ⟨hfree, hwriter⟩ := h.alone hc ho
  obtain ⟨hlt, hstore⟩ := h.owns id c hc ho
  have hput : w.put c'.key (w.store c.key) = w := by
    rw [hkey, Desk.put, Function.update_eq_self]
  rw [← hput]
  refine h.write id c' _ ?_ ?_ ?_ ?_ ?_ ?_
  · rw [hkey]
    exact hfree
  · rw [hkey]
    exact hwriter
  · intro _
    rw [hb, hstore]
    exact ⟨hlt, rfl⟩
  · intro result at_ hphase
    simp [Call.owns, hphase] at ho'
  · intro cell' hcell'
    rw [hstore, Option.some.injEq] at hcell'
    rw [← hcell']
    exact ⟨rfl, ho'⟩
  · intro hphase
    simp [Call.owns, hphase] at ho'

theorem Inv.finish (h : Inv w) (id : Nat) (outcome : Option (Option String)) :
    Inv (step w (.finish id outcome)) := by
  cases hc : w.calls id with
  | none => simpa only [step, hc] using h
  | some c =>
    simp only [step, hc]
    split
    · rename_i locked hphase
      cases locked with
      | false => exact absurd hphase (h.locked id c hc)
      | true =>
        refine h.stay hc (by simp [Call.owns, hphase]) rfl rfl ?_
        cases outcome <;> rfl
    · exact h

theorem Inv.release (h : Inv w) (id : Nat) : Inv (step w (.release id)) := by
  cases hc : w.calls id with
  | none => simpa only [step, hc] using h
  | some c =>
    simp only [step, hc]
    split
    · rename_i hphase
      obtain ⟨hfree, hwriter⟩ := h.alone hc (by simp [Call.owns, hphase])
      exact h.write id { c with phase := .raised } none hfree hwriter
        (fun ho => by cases ho) (fun result at_ hp => by cases hp)
        (fun cell' hcell' => by cases hcell') (fun hp => by cases hp)
    · exact h

theorem Inv.storeOrRelease (h : Inv w) (id : Nat) (ok : Orderly w (.storeOrRelease id)) :
    Inv (step w (.storeOrRelease id)) := by
  cases hc : w.calls id with
  | none => simpa only [step, hc] using h
  | some c =>
    simp only [step, hc]
    split
    · rename_i result hphase
      obtain ⟨hfree, hwriter⟩ := h.alone hc (by simp [Call.owns, hphase])
      cases result with
      | none => exact absurd hphase (ok c hc)
      | some text =>
        refine h.write id { c with phase := .returned (some text) w.now } _ hfree hwriter
          (fun ho => by cases ho) ?_ ?_ (fun hp => by cases hp)
        · rintro result at_ ⟨⟩
          exact ⟨rfl, Option.some_ne_none text⟩
        · rintro cell' ⟨⟩
          exact ⟨rfl, w.now, rfl, rfl⟩
    · exact h

theorem Inv.step (h : Inv w) (a : Action) (ok : Orderly w a) : Inv (step w a) := by
  cases a with
  | tick d => exact h.tick d ok
  | setnx id triple => exact h.setnx id triple
  | get id => exact h.get id ok
  | finish id outcome => exact h.finish id outcome
  | release id => exact h.release id
  | storeOrRelease id => exact h.storeOrRelease id ok

/-! ## Runs -/

theorem Inv.meetsOwn (h : Inv w) {triple : Triple}
    (ok : ∀ cell, w.get? triple.cacheKey = some cell →
      ∀ c, w.calls cell.writer = some c → c.triple = triple) : MeetsOwn w triple := by
  intro cell hcell
  obtain ⟨hstore, hlt⟩ := get?_eq_some.mp hcell
  obtain ⟨c, hc, -⟩ := h.written _ cell hstore hlt
  exact ⟨c, hc, ok cell hcell c hc⟩

theorem Inv.answers (h : Inv w) {c : Call} {cell : Cell} (hcell : w.get? c.key = some cell)
    (ht : ∀ c', w.calls cell.writer = some c' → c'.triple = c.triple) :
    Answers w c (afterGet (some cell.held)) := by
  obtain ⟨hstore, hlt⟩ := get?_eq_some.mp hcell
  obtain ⟨c', hc', -, hheld⟩ := h.written _ cell hstore hlt
  refine ⟨cell.writer, c', hc', ht c' hc', ?_⟩
  cases hh : cell.held with
  | sentinel =>
    rw [hh] at hheld
    exact Or.inl ⟨rfl, hheld⟩
  | result text =>
    rw [hh] at hheld
    obtain ⟨at_, hphase, hdeadline⟩ := hheld
    exact Or.inr ⟨text, at_, rfl, hphase, hdeadline ▸ hlt⟩

theorem Inv.holdsOwn (h : Inv w) {id : Nat} {c : Call} (hc : w.calls id = some c)
    (ho : c.owns = true) : HoldsOwn w id c := by
  obtain ⟨hlt, hstore⟩ := h.owns id c hc ho
  exact ⟨_, get?_eq_some.mpr ⟨hstore, hlt⟩, rfl, rfl⟩

theorem keeps_of_orderly (h : Inv w) (a : Action) (ok : Orderly w a) : Keeps w a := by
  refine ⟨(h.step a ok).atMostOnce, ?_⟩
  cases a with
  | tick _ | finish _ _ => exact trivial
  | setnx id triple => exact h.meetsOwn ok
  | get id =>
    intro c hc hphase
    obtain ⟨cell, hcell, ht⟩ := ok c hc hphase
    refine ⟨afterGet (some cell.held), ?_, h.answers hcell ht⟩
    simp only [step, hc, hphase, if_true, hcell, Option.map_some, Desk.move, Function.update_self]
  | release id =>
    intro c hc hphase
    refine ⟨h.holdsOwn hc (by simp [Call.owns, hphase]), ?_⟩
    simp only [step, hc, hphase, if_true, Desk.move, Desk.put, Desk.get?, Function.update_self,
      Option.filter_none]
  | storeOrRelease id =>
    intro c result hc hphase
    exact h.holdsOwn hc (by simp [Call.owns, hphase])

/-- Along every orderly run of calls each step keeps its promises. -/
theorem idempotent_of_orderly (run : List Action) (h : Along step Orderly Desk.start run) :
    Along step Keeps Desk.start run :=
  h.imp Inv (fun _ a hw ok => keeps_of_orderly hw a ok) (fun _ a hw ok => hw.step a ok) inv_start

/-- A call, a second one while it runs and a third one after it has succeeded. -/
theorem idempotent_of_orderly_threeCalls :
    let t : Triple := { clientId := "trading", path := "/sdk/v1/ingest", idemKey := "k1" }
    let run : List Action := [.setnx 0 t, .setnx 1 t, .get 1, .tick 2000,
      .finish 0 (some (some "\"ok\"")), .storeOrRelease 0, .setnx 2 t, .get 2]
    Along step Keeps Desk.start run ∧
      ((run.foldl step Desk.start).calls 2).map Call.phase = some (.replayed "\"ok\"") := by
  intro t run
  refine ⟨idempotent_of_orderly run ?_, by decide⟩
  simp [run, Along, Orderly, step, setnx, Desk.start, Desk.get?, Desk.put, Desk.move,
    Function.update_apply, Option.filter, afterGet, afterWork, stored, LOCK_TTL, RESULT_TTL,
    Call.key, Call.owns]

/-- Work that outlasts its sentinel runs a second time; two calls that lose to one that
fails run side by side without the lock; and two triples of one key meet. -/
theorem not_idempotent :
    let t : Triple := { clientId := "trading", path := "/sdk/v1/ingest", idemKey := "k1" }
    let other : Triple := {
      clientId := "a:/sdk/v1/ingest:b", path := "/sdk/v1/ingest", idemKey := "c" }
    let alike : Triple := {
      clientId := "a", path := "/sdk/v1/ingest", idemKey := "b:/sdk/v1/ingest:c" }
    (¬ Along step Keeps Desk.start [.setnx 0 t, .tick LOCK_TTL, .setnx 1 t]) ∧
    (¬ Along step Keeps Desk.start [.setnx 0 t, .setnx 1 t, .setnx 2 t, .finish 0 none,
      .release 0, .get 1, .get 2]) ∧
    ¬ Along step Keeps Desk.start [.setnx 0 other, .setnx 1 alike] := by
  intro t other alike
  refine ⟨?_, ?_, ?_⟩
  · rintro ⟨-, -, ⟨honce, -⟩, -⟩
    have hsame := honce 0 { triple := t, began := 0, phase := .running true } 1
      { triple := t, began := LOCK_TTL, phase := .running true } (by decide) (by decide) rfl rfl rfl
    exact absurd hsame (by decide)
  · rintro ⟨-, -, -, -, -, -, ⟨honce, -⟩, -⟩
    have hsame := honce 1 { triple := t, began := 0, phase := .running false } 2
      { triple := t, began := 0, phase := .running false } (by decide) (by decide) rfl rfl rfl
    exact absurd hsame (by decide)
  · rintro ⟨-, ⟨-, hmeets⟩, -⟩
    obtain ⟨c, hc, ht⟩ := hmeets
      { held := .sentinel, deadline := LOCK_TTL, writer := 0 } (by decide)
    have hc : some { triple := other, began := 0, phase := .running true } = some c := hc
    rw [← Option.some.inj hc] at ht
    exact absurd ht (by decide)

end Cerid.Guard.Idempotency
