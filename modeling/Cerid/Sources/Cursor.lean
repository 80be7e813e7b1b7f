import Cerid.Lib.Prog
import Cerid.Lib.Run
import Mathlib.Logic.Function.Basic

/-!
# The sync cursor of a source

The cursor is kept in Neo4j, and in Redis for the hot path.  The three functions are programs
over single commands of the two stores; a run takes the next command of any call, and a
command may fail before or after it took effect.
-/

namespace Cerid.Sources

variable {α : Type} [DecidableEq α]

/-! ## The two stores -/

/-- The commands, for the key and the node of one source. -/
inductive Cmd (α : Type) where
  | redisGet
  | redisSet (cursor : α)
  | redisDelete
  | getSource
  | updateSourceCursor (cursor : α)

/-- A read that raised is `none`, and a write that raised is `false`. -/
abbrev Reply : Cmd α → Type
  | .redisGet => Option (Option α)
  | .getSource => Option (Option α)
  | .redisSet _ => Bool
  | .redisDelete => Bool
  | .updateSourceCursor _ => Bool

inductive Fault where
  | none
  /-- The command raised, and had no effect. -/
  | before
  /-- The command took effect, and raised. -/
  | after
  deriving DecidableEq, Repr

/-- The cursor in Redis, and the one of the node of the source, if there is one. -/
structure Stores (α : Type) where
  redis : Option α
  source : Option α

def Stores.exec (s : Stores α) : Cmd α → Stores α
  | .redisSet cursor => { s with redis := some cursor }
  | .redisDelete => { s with redis := none }
  -- the query matches the node, and sets nothing without it
  | .updateSourceCursor cursor => { s with source := s.source.map (fun _ => cursor) }
  | .redisGet | .getSource => s

def Stores.reply (s : Stores α) (f : Fault) : (c : Cmd α) → Reply c
  | .redisGet => if f = .none then some s.redis else none
  | .getSource => if f = .none then some s.source else none
  | .redisSet _ | .redisDelete | .updateSourceCursor _ => decide (f = .none)

/-! ## The functions -/

/-- A program that returns a cursor, or none. -/
abbrev Program (α : Type) := Prog (Cmd α) Reply (Option α)

section Empty

variable (empty : α)

def warm (cursor : α) : Program α := .cmd (.redisSet cursor) fun _ => .ret (some cursor)

/-- The Neo4j fallback.  Its failure is the failure of the call. -/
def fallback : Program α :=
  .cmd .getSource fun (record : Option (Option α)) =>
    match record with
    | none => .ret none
    | some none => .ret (some empty)
    | some (some cursor) => if cursor = empty then .ret (some empty) else warm cursor

/-- `get_cursor`. -/
def getCursor : Program α :=
  .cmd .redisGet fun (raw : Option (Option α)) =>
    match raw with
    | some (some cursor) => .ret (some cursor)
    | _ => fallback empty

def writeHot (cursor : α) : Program α := .cmd (.redisSet cursor) fun _ => .ret none

/-- `set_cursor`. -/
def setCursor (cursor : α) : Program α :=
  .cmd (.updateSourceCursor cursor) fun (written : Bool) =>
    if written then writeHot cursor else .ret none

def wipe : Program α := .cmd (.updateSourceCursor empty) fun _ => .ret none

/-- `clear_cursor`. -/
def clearCursor : Program α := .cmd .redisDelete fun _ => wipe empty

end Empty

/-! ## Runs -/

inductive Kind (α : Type) where
  | get
  | set (cursor : α)
  | clear

def Kind.program (empty : α) : Kind α → Program α
  | .get => getCursor empty
  | .set cursor => setCursor cursor
  | .clear => clearCursor empty

/-- How often Neo4j was cleared, and what it has held since the last time. -/
structure View (α : Type) where
  clears : Nat
  held : List α

/-- A call in flight, with the view at its last command that reads or that writes Neo4j. -/
structure Call (α : Type) where
  kind : Kind α
  view : View α
  rest : Program α

/-- A cursor that was returned, with the view at which it was read. -/
structure Answer (α : Type) where
  view : View α
  cursor : α

structure State (α : Type) extends Stores α where
  calls : Nat → Option (Call α)
  view : View α
  answers : List (Answer α)

/-- Redis knows nothing of the source. -/
def State.start (source : Option α) : State α where
  redis := none
  source := source
  calls := fun _ => none
  view := { clears := 0, held := source.toList }
  answers := []

inductive Step (α : Type) where
  | call (n : Nat) (kind : Kind α)
  /-- The next command of a call, or its return. -/
  | next (n : Nat) (f : Fault)
  /-- Redis drops the key. -/
  | evict

/-- The view after a command that had its effect. -/
def View.exec (v : View α) (found : Bool) (kind : Kind α) : Cmd α → View α
  | .updateSourceCursor cursor =>
    if found then
      match kind with
      | .clear => { clears := v.clears + 1, held := [cursor] }
      | _ => { v with held := v.held ++ [cursor] }
    else v
  | _ => v

/-- The view that a call keeps. -/
def Call.sees (call : Call α) (now : View α) : Cmd α → View α
  | .redisSet _ | .redisDelete => call.view
  | .redisGet | .getSource | .updateSourceCursor _ => now

section Empty

variable (empty : α)

def State.next (s : State α) (n : Nat) (f : Fault) (call : Call α) : State α :=
  match call.rest with
  | .ret result =>
    { s with
      calls := Function.update s.calls n none
      answers := s.answers ++
        (result.map (fun cursor => { view := call.view, cursor := cursor })).toList }
  | .cmd c k =>
    let stores := if f = .before then s.toStores else s.exec c
    let view := if f = .before then s.view else s.view.exec s.source.isSome call.kind c
    { stores with
      calls := Function.update s.calls n
        (some { call with view := call.sees view c, rest := k (s.reply f c) })
      view := view
      answers := s.answers }

def State.step (s : State α) : Step α → State α
  | .call n kind =>
    { s with
      calls := Function.update s.calls n
        (some { kind := kind, view := s.view, rest := kind.program empty }) }
  | .next n f =>
    match s.calls n with
    | none => s
    | some call => s.next n f call
  | .evict => { s with redis := none }

/-- The cursor in Redis is one that Neo4j has held since it was last cleared, and so is every
cursor that is returned: where that is the empty one alone, it is the empty one. -/
structure State.NeverAhead (s : State α) : Prop where
  redis : ∀ cursor, s.redis = some cursor → cursor ∈ s.view.held
  answers : ∀ a ∈ s.answers, a.view.held = [empty] → a.cursor = empty

/-- No write to Redis comes after a clear that the call did not see, or for a source that is
not there; and Neo4j is cleared while Redis holds no cursor. -/
def State.InOrder (s : State α) : Step α → Prop
  | .next n f => ∀ call ∈ s.calls n, f ≠ .before →
    match call.rest, call.kind with
    | .cmd (.redisSet _) _, _ => s.source.isSome ∧ call.view.clears = s.view.clears
    | .cmd (.updateSourceCursor _) _, .clear => s.redis = none ∨ s.redis = some empty
    | _, _ => True
  | _ => True

end Empty

/-! ## What a call holds -/

/-- A view, and a later one. -/
def View.Before (v now : View α) : Prop :=
  v.clears ≤ now.clears ∧ (v.clears = now.clears → ∀ cursor ∈ v.held, cursor ∈ now.held)

omit [DecidableEq α] in
theorem View.Before.refl (v : View α) : v.Before v := ⟨Nat.le_refl _, fun _ _ h => h⟩

omit [DecidableEq α] in
theorem View.Before.trans {u v w : View α} (huv : u.Before v) (hvw : v.Before w) : u.Before w := by
  refine ⟨Nat.le_trans huv.1 hvw.1, fun heq cursor h => ?_⟩
  have huv' : u.clears = v.clears := Nat.le_antisymm huv.1 (heq ▸ hvw.1)
  exact hvw.2 (huv' ▸ heq) cursor (huv.2 huv' cursor h)

omit [DecidableEq α] in
theorem View.before_exec (v : View α) (found : Bool) (kind : Kind α) (c : Cmd α) :
    v.Before (v.exec found kind c) := by
  cases c with
  | updateSourceCursor cursor =>
    unfold View.exec
    dsimp only
    split
    · cases kind with
      | clear => exact ⟨Nat.le_succ _, fun h => absurd h (Nat.ne_of_lt (Nat.lt_succ_self _))⟩
      | get => exact ⟨Nat.le_refl _, fun _ _ h => List.mem_append_left _ h⟩
      | set _ => exact ⟨Nat.le_refl _, fun _ _ h => List.mem_append_left _ h⟩
    · exact View.Before.refl v
  | redisGet => exact View.Before.refl v
  | redisSet _ => exact View.Before.refl v
  | redisDelete => exact View.Before.refl v
  | getSource => exact View.Before.refl v

/-- Where a call stands in its function, and what is known of the cursor it holds. -/
inductive Stage (empty : α) (found : Bool) (v : View α) : Kind α → Program α → Prop
  | get : Stage empty found v .get (getCursor empty)
  | fallback : Stage empty found v .get (fallback empty)
  | warm {cursor : α} (h : cursor ∈ v.held) : Stage empty found v .get (warm cursor)
  | got {cursor : α} (h : v.held = [empty] → cursor = empty) :
      Stage empty found v .get (.ret (some cursor))
  | set (cursor : α) : Stage empty found v (.set cursor) (setCursor cursor)
  | written {cursor : α} (h : found = true → cursor ∈ v.held) :
      Stage empty found v (.set cursor) (writeHot cursor)
  | clear : Stage empty found v .clear (clearCursor empty)
  | wipe : Stage empty found v .clear (wipe empty)
  | finished (kind : Kind α) : Stage empty found v kind (.ret none)

theorem Stage.start (empty : α) (found : Bool) (v : View α) (kind : Kind α) :
    Stage empty found v kind (kind.program empty) := by
  cases kind with
  | get => exact .get
  | set cursor => exact .set cursor
  | clear => exact .clear

section Empty

variable {empty : α}

/-- What holds along a run. -/
structure State.Sound (empty : α) (s : State α) : Prop extends s.NeverAhead empty where
  source : ∀ cursor, s.source = some cursor → cursor ∈ s.view.held
  staged : ∀ n call, s.calls n = some call →
    Stage empty s.source.isSome call.view call.kind call.rest ∧ call.view.Before s.view

theorem State.start_sound (source : Option α) : (State.start source).Sound empty where
  redis := fun _ h => nomatch h
  answers := fun _ h => nomatch h
  source := fun _ h => Option.mem_toList.mpr h
  staged := fun _ _ h => nomatch h

omit [DecidableEq α] in
theorem Stores.exec_isSome (s : Stores α) (c : Cmd α) :
    (s.exec c).source.isSome = s.source.isSome := by
  cases c with
  | updateSourceCursor cursor => exact Option.isSome_map
  | redisGet => rfl
  | redisSet _ => rfl
  | redisDelete => rfl
  | getSource => rfl

/-- The stores and the view after a command. -/
def State.stores (s : State α) (f : Fault) (c : Cmd α) : Stores α :=
  if f = .before then s.toStores else s.exec c

def State.viewed (s : State α) (f : Fault) (kind : Kind α) (c : Cmd α) : View α :=
  if f = .before then s.view else s.view.exec s.source.isSome kind c

/-- A command keeps the invariant, if it leaves the stores behind the view and its call at
some stage. -/
theorem State.Sound.next {s : State α} (hs : s.Sound empty) {n : Nat} {f : Fault}
    {call : Call α} {c : Cmd α} {k : Reply c → Program α} (hcall : s.calls n = some call)
    (hrest : call.rest = .cmd c k)
    (hredis : ∀ cursor, (s.stores f c).redis = some cursor →
      cursor ∈ (s.viewed f call.kind c).held)
    (hsource : ∀ cursor, (s.stores f c).source = some cursor →
      cursor ∈ (s.viewed f call.kind c).held)
    (hstage : Stage empty s.source.isSome (call.sees (s.viewed f call.kind c) c) call.kind
      (k (s.reply f c))) :
    (s.next n f call).Sound empty := by
  have hnext : s.next n f call =
      { s.stores f c with
        calls := Function.update s.calls n
          (some { call with
            view := call.sees (s.viewed f call.kind c) c, rest := k (s.reply f c) })
        view := s.viewed f call.kind c
        answers := s.answers } := by
    unfold State.next
    rw [hrest]
    rfl
  have hsome : (s.stores f c).source.isSome = s.source.isSome := by
    unfold State.stores
    split
    · rfl
    · exact Stores.exec_isSome _ c
  have hview : s.view.Before (s.viewed f call.kind c) := by
    unfold State.viewed
    split
    · exact View.Before.refl _
    · exact View.before_exec _ _ _ _
  rw [hnext]
  refine { redis := hredis, answers := hs.answers, source := hsource, staged := ?_ }
  intro m other hother
  dsimp only at hother ⊢
  rw [hsome]
  by_cases hm : m = n
  · subst hm
    rw [Function.update_self, Option.some.injEq] at hother
    subst hother
    refine ⟨hstage, ?_⟩
    unfold Call.sees
    cases c with
    | redisSet _ => exact (hs.staged m call hcall).2.trans hview
    | redisDelete => exact (hs.staged m call hcall).2.trans hview
    | redisGet => exact View.Before.refl _
    | getSource => exact View.Before.refl _
    | updateSourceCursor _ => exact View.Before.refl _
  · rw [Function.update_of_ne hm] at hother
    obtain ⟨hstaged, hbefore⟩ := hs.staged m other hother
    exact ⟨hstaged, hbefore.trans hview⟩

omit [DecidableEq α] in
theorem State.viewed_of_read (s : State α) (f : Fault) (kind : Kind α) {c : Cmd α}
    (h : ∀ cursor, c ≠ .updateSourceCursor cursor) : s.viewed f kind c = s.view := by
  unfold State.viewed
  split
  · rfl
  · cases c with
    | updateSourceCursor cursor => exact absurd rfl (h cursor)
    | redisGet => rfl
    | redisSet _ => rfl
    | redisDelete => rfl
    | getSource => rfl

omit [DecidableEq α] in
theorem State.stores_of_before (s : State α) (c : Cmd α) : s.stores .before c = s.toStores := by
  unfold State.stores
  rw [if_pos rfl]

omit [DecidableEq α] in
theorem State.viewed_of_before (s : State α) (kind : Kind α) (c : Cmd α) :
    s.viewed .before kind c = s.view := by
  unfold State.viewed
  rw [if_pos rfl]

section Commands

variable {s : State α} {n : Nat} {f : Fault} {call : Call α}

/-- Reading Redis. -/
theorem State.Sound.next_get (hs : s.Sound empty) (hcall : s.calls n = some call)
    (hkind : call.kind = .get) (hrest : call.rest = getCursor empty) :
    (s.next n f call).Sound empty := by
  have hview : s.viewed f call.kind (.redisGet : Cmd α) = s.view :=
    s.viewed_of_read f _ (fun _ h => nomatch h)
  have hstores : s.stores f (.redisGet : Cmd α) = s.toStores := by
    unfold State.stores
    split <;> rfl
  refine hs.next hcall hrest ?_ ?_ ?_
  · rw [hstores, hview]
    exact hs.redis
  · rw [hstores, hview]
    exact hs.source
  · rw [hview, hkind]
    show Stage empty _ s.view .get
      (match (if f = .none then some s.redis else none : Option (Option α)) with
        | some (some cursor) => .ret (some cursor)
        | _ => Sources.fallback empty)
    by_cases hf : f = .none
    · rw [if_pos hf]
      cases hr : s.redis with
      | none => exact .fallback
      | some cursor =>
        refine .got (fun hheld => ?_)
        have hmem := hs.redis cursor hr
        rw [hheld] at hmem
        exact List.mem_singleton.mp hmem
    · rw [if_neg hf]
      exact .fallback

/-- Reading the node. -/
theorem State.Sound.next_fallback (hs : s.Sound empty) (hcall : s.calls n = some call)
    (hkind : call.kind = .get) (hrest : call.rest = Sources.fallback empty) :
    (s.next n f call).Sound empty := by
  have hview : s.viewed f call.kind (.getSource : Cmd α) = s.view :=
    s.viewed_of_read f _ (fun _ h => nomatch h)
  have hstores : s.stores f (.getSource : Cmd α) = s.toStores := by
    unfold State.stores
    split <;> rfl
  refine hs.next hcall hrest ?_ ?_ ?_
  · rw [hstores, hview]
    exact hs.redis
  · rw [hstores, hview]
    exact hs.source
  · rw [hview, hkind]
    show Stage empty _ s.view .get
      (match (if f = .none then some s.source else none : Option (Option α)) with
        | none => .ret none
        | some none => .ret (some empty)
        | some (some cursor) =>
          if cursor = empty then .ret (some empty) else Sources.warm cursor)
    by_cases hf : f = .none
    · rw [if_pos hf]
      cases hr : s.source with
      | none => exact .got (fun _ => rfl)
      | some cursor =>
        dsimp only
        by_cases hempty : cursor = empty
        · rw [if_pos hempty]
          exact .got (fun _ => rfl)
        · rw [if_neg hempty]
          exact .warm (hs.source cursor hr)
    · rw [if_neg hf]
      exact .finished _

/-- Writing to Redis, when no clear came in between. -/
theorem State.Sound.next_redisSet (hs : s.Sound empty) (hcall : s.calls n = some call)
    {cursor : α} {k : Bool → Program α} (hrest : call.rest = .cmd (.redisSet cursor) k)
    (hheld : s.source.isSome = true → cursor ∈ call.view.held)
    (hok : f ≠ .before → s.source.isSome ∧ call.view.clears = s.view.clears)
    (hstage : ∀ b, Stage empty s.source.isSome call.view call.kind (k b)) :
    (s.next n f call).Sound empty := by
  have hview : s.viewed f call.kind (.redisSet cursor) = s.view :=
    s.viewed_of_read f _ (fun _ h => nomatch h)
  refine hs.next hcall hrest ?_ ?_ (hstage _)
  · rw [hview]
    by_cases hf : f = .before
    · subst hf
      rw [State.stores_of_before]
      exact hs.redis
    · unfold State.stores
      rw [if_neg hf]
      intro x hx
      have hx' : x = cursor := (Option.some.inj hx).symm
      subst hx'
      exact (hs.staged n call hcall).2.2 (hok hf).2 x (hheld (hok hf).1)
  · rw [hview]
    unfold State.stores
    split <;> exact hs.source

/-- Advancing the node. -/
theorem State.Sound.next_set (hs : s.Sound empty) (hcall : s.calls n = some call) {cursor : α}
    (hkind : call.kind = .set cursor) (hrest : call.rest = setCursor cursor) :
    (s.next n f call).Sound empty := by
  by_cases hf : f = .before
  · subst hf
    refine hs.next hcall hrest ?_ ?_ ?_
    · rw [State.stores_of_before, State.viewed_of_before]
      exact hs.redis
    · rw [State.stores_of_before, State.viewed_of_before]
      exact hs.source
    · show Stage empty _ _ _ (.ret none)
      exact .finished _
  · have hview : s.viewed f call.kind (.updateSourceCursor cursor) =
        if s.source.isSome = true then
          { s.view with held := s.view.held ++ [cursor] }
        else s.view := by
      unfold State.viewed
      rw [if_neg hf, hkind]
      rfl
    have hstores : s.stores f (.updateSourceCursor cursor) =
        { redis := s.redis, source := s.source.map (fun _ => cursor) } := by
      unfold State.stores
      rw [if_neg hf]
      rfl
    refine hs.next hcall hrest ?_ ?_ ?_
    · rw [hstores, hview]
      intro x hx
      split
      · exact List.mem_append_left _ (hs.redis x hx)
      · exact hs.redis x hx
    · rw [hstores, hview]
      intro x hx
      obtain ⟨old, hold, rfl⟩ := Option.map_eq_some_iff.mp hx
      rw [if_pos (by rw [hold]; rfl)]
      exact List.mem_append_right _ (List.mem_singleton_self _)
    · show Stage empty _ (s.viewed f call.kind (.updateSourceCursor cursor)) _
        (if decide (f = .none) = true then writeHot cursor else .ret none)
      rw [hview, hkind]
      by_cases hnone : decide (f = .none) = true
      · rw [if_pos hnone]
        refine .written (fun hsome => ?_)
        rw [if_pos hsome]
        exact List.mem_append_right _ (List.mem_singleton_self _)
      · rw [if_neg hnone]
        exact .finished _

/-- Forgetting the key. -/
theorem State.Sound.next_clear (hs : s.Sound empty) (hcall : s.calls n = some call)
    (hkind : call.kind = .clear) (hrest : call.rest = clearCursor empty) :
    (s.next n f call).Sound empty := by
  have hview : s.viewed f call.kind (.redisDelete : Cmd α) = s.view :=
    s.viewed_of_read f _ (fun _ h => nomatch h)
  refine hs.next hcall hrest ?_ ?_ ?_
  · rw [hview]
    unfold State.stores
    split
    · exact hs.redis
    · exact fun _ h => nomatch h
  · rw [hview]
    unfold State.stores
    split <;> exact hs.source
  · rw [hkind]
    exact .wipe

/-- Clearing the node, while Redis holds no cursor. -/
theorem State.Sound.next_wipe (hs : s.Sound empty) (hcall : s.calls n = some call)
    (hkind : call.kind = .clear) (hrest : call.rest = Sources.wipe empty)
    (hok : f ≠ .before → s.redis = none ∨ s.redis = some empty) :
    (s.next n f call).Sound empty := by
  by_cases hf : f = .before
  · subst hf
    refine hs.next hcall hrest ?_ ?_ (.finished _)
    · rw [State.stores_of_before, State.viewed_of_before]
      exact hs.redis
    · rw [State.stores_of_before, State.viewed_of_before]
      exact hs.source
  · have hview : s.viewed f call.kind (.updateSourceCursor empty) =
        if s.source.isSome = true then { clears := s.view.clears + 1, held := [empty] }
        else s.view := by
      unfold State.viewed
      rw [if_neg hf, hkind]
      rfl
    have hstores : s.stores f (.updateSourceCursor empty) =
        { redis := s.redis, source := s.source.map (fun _ => empty) } := by
      unfold State.stores
      rw [if_neg hf]
      rfl
    refine hs.next hcall hrest ?_ ?_ (.finished _)
    · rw [hstores, hview]
      intro x hx
      split
      · have hempty : x = empty := by
          rcases hok hf with hnone | hsome
          · exact absurd (hnone.symm.trans hx) (fun h => nomatch h)
          · exact (Option.some.inj (hsome.symm.trans hx)).symm
        exact List.mem_singleton.mpr hempty
      · exact hs.redis x hx
    · rw [hstores, hview]
      intro x hx
      obtain ⟨old, hold, rfl⟩ := Option.map_eq_some_iff.mp hx
      rw [if_pos (by rw [hold]; rfl)]
      exact List.mem_singleton_self _

/-- Returning. -/
theorem State.Sound.next_ret (hs : s.Sound empty) {result : Option α}
    (hrest : call.rest = .ret result)
    (hresult : ∀ cursor, result = some cursor → call.view.held = [empty] → cursor = empty) :
    (s.next n f call).Sound empty := by
  unfold State.next
  rw [hrest]
  refine { redis := hs.redis, source := hs.source, answers := ?_, staged := ?_ }
  · intro a ha
    rcases List.mem_append.mp ha with ha | ha
    · exact hs.answers a ha
    · cases result with
      | none => exact nomatch ha
      | some cursor =>
        have ha' : a = { view := call.view, cursor := cursor } := List.mem_singleton.mp ha
        subst ha'
        exact hresult cursor rfl
  · intro m other hother
    by_cases hm : m = n
    · subst hm
      exact nomatch (Function.update_self m none s.calls).symm.trans hother
    · exact hs.staged m other ((Function.update_of_ne hm _ _).symm.trans hother)

end Commands

/-- Every step in order keeps the invariant. -/
theorem State.Sound.step {s : State α} (hs : s.Sound empty) {i : Step α}
    (hok : s.InOrder empty i) : (s.step empty i).Sound empty := by
  cases i with
  | call n kind =>
    refine { redis := hs.redis, source := hs.source, answers := hs.answers, staged := ?_ }
    intro m other hother
    by_cases hm : m = n
    · subst hm
      have hother' := (Function.update_self m _ s.calls).symm.trans hother
      rw [Option.some.injEq] at hother'
      subst hother'
      exact ⟨.start empty _ _ kind, View.Before.refl _⟩
    · exact hs.staged m other ((Function.update_of_ne hm _ _).symm.trans hother)
  | evict =>
    exact { redis := fun _ h => (nomatch h), source := hs.source, answers := hs.answers,
            staged := hs.staged }
  | next n f =>
    show State.Sound empty (match s.calls n with
      | none => s
      | some call => s.next n f call)
    cases hcall : s.calls n with
    | none => exact hs
    | some call =>
      have hin := hok call hcall
      dsimp only
      obtain ⟨hstage, hbefore⟩ := hs.staged n call hcall
      obtain ⟨kind, view, rest⟩ := call
      dsimp only at hstage hin
      cases hstage with
      | get => exact hs.next_get hcall rfl rfl
      | fallback => exact hs.next_fallback hcall rfl rfl
      | warm h =>
        refine hs.next_redisSet hcall rfl (fun _ => h) hin (fun _ => .got (fun hheld => ?_))
        dsimp only at hheld
        rw [hheld] at h
        exact List.mem_singleton.mp h
      | got h => exact hs.next_ret rfl (fun cursor hc hheld => Option.some.inj hc ▸ h hheld)
      | set cursor => exact hs.next_set hcall rfl rfl
      | written h => exact hs.next_redisSet hcall rfl h hin (fun _ => .finished _)
      | clear => exact hs.next_clear hcall rfl rfl
      | wipe => exact hs.next_wipe hcall rfl rfl hin
      | finished kind => exact hs.next_ret rfl (fun _ h => nomatch h)

/-- Along every run in order Redis is never ahead of Neo4j, and nothing but the empty cursor is
returned between a clear and the next advance. -/
theorem never_ahead (empty : α) (source : Option α) (steps : List (Step α))
    (h : Along (State.step empty) (State.InOrder empty) (State.start source) steps) :
    (steps.foldl (State.step empty) (State.start source)).NeverAhead empty := by
  have hsound := Along.invariant (State.Sound empty) (fun _ _ hs hok => hs.step hok)
    (State.start_sound source) h
  exact hsound.toNeverAhead

end Empty

/-! ## A cursor that advances, and one that comes back -/

/-- A sync that advances the cursor, and the next one that reads it. -/
def advanced : List (Step Nat) :=
  [.call 0 (.set 5), .next 0 .none, .next 0 .none, .next 0 .none,
    .call 1 .get, .next 1 .none, .next 1 .none]

theorem never_ahead_advanced :
    (advanced.foldl (State.step 0) (State.start (some 0))).NeverAhead 0 :=
  never_ahead 0 (some 0) advanced
    ⟨trivial, fun _ hcall _ => by cases hcall; trivial,
      fun _ hcall _ => by cases hcall; exact ⟨rfl, rfl⟩, fun _ hcall _ => by cases hcall; trivial,
      trivial, fun _ hcall _ => by cases hcall; trivial, fun _ hcall _ => by cases hcall; trivial,
      trivial⟩

/-- A reader finds nothing in Redis, reads the node, and warms Redis after a clear. -/
def warmedAfterClear : List (Step Nat) :=
  [.call 0 .get, .next 0 .none, .next 0 .none,
    .call 1 .clear, .next 1 .none, .next 1 .none, .next 0 .none]

/-- The cursor from before the clear is in Redis, with no failure of either store. -/
theorem cleared_comes_back :
    ¬ ∀ (empty : Nat) (source : Option Nat) (steps : List (Step Nat)),
      (steps.foldl (State.step empty) (State.start source)).NeverAhead empty := by
  intro h
  have hmem := (h 0 (some 5) warmedAfterClear).redis 5 rfl
  have hheld : (warmedAfterClear.foldl (State.step 0) (State.start (some 5))).view.held = [0] :=
    rfl
  rw [hheld, List.mem_singleton] at hmem
  exact absurd hmem (by decide)

end Cerid.Sources
