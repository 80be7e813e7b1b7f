import Cerid.Processor.Recoverable

/-!
# The transitions of a job's state

`_VALID_TRANSITIONS` says how the state of a record may change, and nothing in
the queue consults it.  A run keeps to the table exactly while three kinds of
command stay out: the retry of a job and the requeue by a recovery, which write
over a record that has run, and a prune of a job that has not run, has ended or
is being executed.
-/

namespace Cerid.Processor

def validTransitions : List (JobState × JobState) :=
  [(.pending, .running), (.running, .completed), (.running, .failed), (.running, .held),
    (.pending, .paused), (.paused, .pending)]

/-! ## What a step may do -/

/-- The point of the client whose command takes effect. -/
def Action.effect (s : System) : Action → Option Point
  | .act i _ | .fail i true _ => s.live[i]?
  | .call _ _ _ _ _ _ | .start | .fail _ false _ | .drop _ | .pause _ => none

/-- The job that a loop has marked running and whose outcome it has yet to
record. -/
def Point.executes : Point → Option JobId
  | .markExpire j _ | .markAdd j _ | .run j _ | .finishLoad j _ _ | .finishSave j _ _ _ => some j
  | _ => none

/-- The job that a scan is about to mark failed. -/
def Point.prunes : Point → Option JobId
  | .pruneSave _ j _ _ => some j
  | _ => none

def System.Executing (s : System) (j : JobId) : Prop :=
  ∃ p ∈ s.live, p.executes = some j

instance (s : System) (j : JobId) : Decidable (s.Executing j) :=
  inferInstanceAs (Decidable (∃ p ∈ s.live, _))

/-- Every change of a record's state is in the table, and no prune marks a job
failed that is being executed. -/
def Respects (cfg : Config) (s : System) (a : Action) : Prop :=
  (∀ j, ∀ old ∈ s.redis.stateOf j, ∀ new ∈ (step cfg s a).redis.stateOf j,
    old ≠ new → (old, new) ∈ validTransitions) ∧
  ∀ p ∈ a.effect s, ∀ j ∈ p.prunes, ¬ s.Executing j

/-- The command is no retry and no requeue, and what it prunes ran in a worker
that is gone. -/
def Point.Harmless (s : System) : Point → Prop
  | .retrySave _ _ | .recoverSave _ _ _ => False
  | .pruneSave _ j _ _ =>
    ¬ s.Executing j ∧ ∀ st ∈ s.redis.stateOf j, st = .running ∨ st = .failed
  | _ => True

def Harmless (s : System) (a : Action) : Prop :=
  ∀ p ∈ a.effect s, p.Harmless s

/-! ## What a client's point says of the state, while all is harmless -/

/-- The state in which the client's job stands. -/
def Point.marks (state : Option JobState) : Point → Prop
  | .load _ | .markLoad _ _ | .markSave _ _ _ | .expire _ | .push _ => state = some .pending
  | .markExpire _ _ | .markAdd _ _ | .run _ _ | .finishLoad _ _ _ | .finishSave _ _ _ _ =>
    state = some .running
  | .finishExpire _ _ | .finishRemove _ _ => ∃ st ∈ state, st.terminal = true
  | .retrySave _ _ | .recoverSave _ _ _ => ∃ st ∈ state, st = .running ∨ st.terminal = true
  | .retryExpire _ _ | .retryPush _ _ | .recoverExpire _ _ _ | .recoverPush _ _ _ => False
  | .lrange _ _ _ _ | .smembers _ _ | .hmget _ _ _ _ | .pruneRemove _ _ _ _
  | .pruneSave _ _ _ _ | .save _ => state = none
  | .poll | .pop _ _ | .members | .recoverLoad _ _ | .recoverRemove _ _ | .recovered | .done => True

section

variable (cfg : Config) (ch : Choice) (c : Call) (j : JobId)

theorem marks_absent : c.absent.marks none := by
  unfold Call.absent
  split <;> trivial

theorem marks_nextScan (found : List (JobId × Option Priority)) :
    (nextScan c found).marks none := by
  cases found with
  | nil => exact marks_absent c
  | cons entry rest => rfl

theorem marks_nextRange (found : List (JobId × Option Priority)) (l : List Priority) :
    (nextRange c found l).marks none := by
  cases l <;> rfl

theorem marks_begin : c.begin.marks none := by
  unfold Call.begin
  split <;> rfl

theorem marks_scan (key : Option Priority) (rest : List (JobId × Option Priority))
    (stored : Option JobRecord) : (scan cfg ch c j key rest stored).marks none := by
  unfold scan
  split
  · exact marks_nextScan c rest
  · split
    · split
      · trivial
      · split <;> trivial
    · exact marks_nextScan c rest

theorem marks_afterFinish (retry : Option JobRecord) {state : Option JobState}
    (h : ∃ st ∈ state, st = .running ∨ st.terminal = true) : (afterFinish j retry).marks state := by
  cases retry with
  | none => trivial
  | some record => exact h

end

/-- A prune of a job that is not being executed leaves the other clients' marks. -/
theorem Point.marks.failed {state : Option JobState} {p : Point} {j : JobId} (h : p.marks state)
    (hjob : p.job = some j) (hexec : p.executes ≠ some j)
    (hst : ∀ st ∈ state, st = .running ∨ st = .failed) :
    p.marks (state.map fun _ => .failed) := by
  have hpending : state ≠ some .pending := by
    intro e
    rcases hst .pending e with h | h <;> cases h
  cases p with
  | load _ | markLoad _ _ | markSave _ _ _ | expire _ | push _ => exact absurd h hpending
  | markExpire _ _ | markAdd _ _ | run _ _ | finishLoad _ _ _ | finishSave _ _ _ _ =>
    exact absurd hjob hexec
  | finishExpire _ _ | finishRemove _ _ =>
    obtain ⟨st, rfl, -⟩ := h
    exact ⟨.failed, rfl, rfl⟩
  | retrySave _ _ | recoverSave _ _ _ =>
    obtain ⟨st, rfl, -⟩ := h
    exact ⟨.failed, rfl, Or.inr rfl⟩
  | retryExpire _ _ | retryPush _ _ | recoverExpire _ _ _ | recoverPush _ _ _ => exact h
  | lrange _ _ _ _ | smembers _ _ | hmget _ _ _ _ | pruneRemove _ _ _ _ | pruneSave _ _ _ _
  | save _ =>
    obtain rfl : state = none := h
    rfl
  | poll | pop _ _ | members | recoverLoad _ _ | recoverRemove _ _ | recovered | done => trivial

/-! ## One command -/

open Redis

section

variable (cfg : Config) (ch : Choice) (s : System) (k : JobId) (p : Point)

/-- Only the client that has the job writes its state, or a prune that does not
harm. -/
theorem harmless_state (h : p.Harmless s) :
    (p.act cfg ch s.redis).1.stateOf k = s.redis.stateOf k ∨ p.job = some k ∨
      ¬ s.Executing k ∧ (∀ st ∈ s.redis.stateOf k, st = .running ∨ st = .failed) ∧
        (p.act cfg ch s.redis).1.stateOf k = (s.redis.stateOf k).map fun _ => .failed := by
  cases p with
  | pop p rest => rcases popped_cases s.redis p rest with hp | ⟨j, -, hp⟩ <;> simp [Point.act, hp]
  | pruneSave c j removed rest =>
    by_cases hk : j = k
    · subst hk
      exact Or.inr (Or.inr ⟨h.1, h.2, by simp [Point.act, stateOf_setState]⟩)
    · exact Or.inl (by simp [Point.act, stateOf_setState, hk])
  | markSave j _ _ | finishSave j _ _ _ =>
    by_cases hk : j = k
    · exact Or.inr (Or.inl (congrArg some hk))
    · exact Or.inl (by simp [Point.act, stateOf_hset, hk])
  | retrySave _ _ | recoverSave _ _ _ => exact h.elim
  | save c =>
    by_cases hk : c.id = k
    · exact Or.inr (Or.inl (congrArg some hk))
    · exact Or.inl (by simp [Point.act, stateOf_hset, hk])
  | _ => exact Or.inl rfl

theorem harmless_waits (hk : 0 < (p.act cfg ch s.redis).1.queued k)
    (hp : p.job = some k → p.marks (s.redis.stateOf k)) :
    0 < s.redis.queued k ∨
      p.job = some k ∧ (p.act cfg ch s.redis).1.stateOf k = some .pending := by
  cases p with
  | retryPush j record | recoverPush j rest loaded =>
    by_cases hj : j = k
    · exact (hp (congrArg some hj)).elim
    · exact Or.inl (by simpa [Point.act, queued_lpush, hj] using hk)
  | push c =>
    by_cases hj : c.id = k
    · exact Or.inr ⟨congrArg some hj, hp (congrArg some hj)⟩
    · exact Or.inl (by simpa [Point.act, queued_lpush, hj] using hk)
  | pop p rest =>
    rcases popped_cases s.redis p rest with h | ⟨j, hj, h⟩
    · exact Or.inl (by simpa [Point.act, h] using hk)
    · have := s.redis.queued_rpop p j k hj
      simp only [Point.act, h] at hk
      exact Or.inl (by omega)
  | pruneRemove c j p rest =>
    have := s.redis.queued_lrem p j k
    simp only [Point.act] at hk
    exact Or.inl (by omega)
  | _ => exact Or.inl hk

/-- The client leaves the record as its next point says. -/
theorem harmless_marks (h : p.Harmless s) (hq : (p.act cfg ch s.redis).2.job = some k)
    (hp : p.job = some k → p.marks (s.redis.stateOf k))
    (hwait : 0 < s.redis.queued k → s.redis.stateOf k = some .pending) :
    (p.act cfg ch s.redis).2.marks ((p.act cfg ch s.redis).1.stateOf k) := by
  have hcall : ∀ {c : Call} {q : Point}, c.Owns q → q.job = some k → q.marks none →
      (some c.id = some k → s.redis.stateOf k = none) → q.marks (s.redis.stateOf k) := by
    intro c q howns hjob hmarks hnone
    rw [hnone (congrArg some (howns.job k hjob))]
    exact hmarks
  cases p with
  | poll =>
    simp only [Point.act] at hq
    split at hq
    · cases hq
    · rw [(nextPop_point _).2.1] at hq
      cases hq
  | pop p rest =>
    rcases popped_cases s.redis p rest with hr | ⟨j, hj, hr⟩
    · simp [Point.act, hr] at hq
    · simp only [Point.act, hr] at hq ⊢
      have hpos := s.redis.queued_rpop p j k hj
      rw [if_pos (Option.some.inj hq)] at hpos
      exact hwait (by omega)
  | load j =>
    cases hr : s.redis.job j with
    | none => simp [Point.act, hr, Point.job] at hq
    | some record =>
      simp only [Point.act, hr, Option.elim] at hq ⊢
      exact hp hq
  | markLoad j record =>
    cases hr : s.redis.job j with
    | none =>
      simp only [Point.act, hr, Option.elim, Point.job, Option.some.injEq] at hq
      have hst := hp (congrArg some hq)
      simp [Point.marks, stateOf, ← hq, hr] at hst
    | some loaded =>
      simp only [Point.act, hr, Option.elim] at hq ⊢
      exact hp hq
  | markSave j record loaded =>
    simp only [Point.act, stateOf_hset, if_pos (Option.some.inj hq)]
    rfl
  | run j record =>
    obtain ⟨outcome, retry, hr⟩ := execute_eq cfg ch j record
    simp only [Point.act, hr] at hq ⊢
    exact hp hq
  | finishLoad j outcome retry =>
    cases hr : s.redis.job j with
    | none =>
      simp only [Point.act, hr, Option.elim, afterFinish_point] at hq ⊢
      cases retry with
      | none => cases hq
      | some record => exact marks_afterFinish j _ ⟨.running, hp hq, Or.inl rfl⟩
    | some loaded =>
      simp only [Point.act, hr, Option.elim] at hq ⊢
      exact hp hq
  | finishSave j outcome retry loaded =>
    simp only [Point.act, stateOf_hset, if_pos (Option.some.inj hq)]
    exact ⟨outcome.state, rfl, outcome.state_terminal⟩
  | finishRemove j retry =>
    simp only [Point.act, afterFinish_point, stateOf_srem] at hq ⊢
    cases retry with
    | none => cases hq
    | some record =>
      obtain ⟨st, hst, hterm⟩ := hp hq
      exact marks_afterFinish j _ ⟨st, hst, Or.inr hterm⟩
  | retrySave _ _ | recoverSave _ _ _ => exact h.elim
  | members | recoverRemove j rest =>
    simp only [Point.act, nextRecover_point] at hq
    cases hq
  | recoverLoad j rest =>
    cases hr : s.redis.job j with
    | none => simp [Point.act, hr, Point.job] at hq
    | some loaded =>
      by_cases hl : loaded.state = .running
      · simp only [Point.act, hr, Option.elim, if_pos hl] at hq ⊢
        exact ⟨.running, by simp [stateOf, ← Option.some.inj hq, hr, hl], Or.inl rfl⟩
      · simp [Point.act, hr, hl, Point.job] at hq
  | lrange c p rest found => exact hcall (c.owns_nextRange _ _) hq (marks_nextRange c _ _) hp
  | smembers c found => exact hcall (c.owns_nextScan _) hq (marks_nextScan c _) hp
  | hmget c j key rest => exact hcall (c.owns_scan cfg ch j key rest _) hq (marks_scan ..) hp
  | pruneSave c j removed rest =>
    have hid := (c.owns_nextScan rest).job k hq
    have hst : s.redis.stateOf k = none := hp (congrArg some hid)
    simp only [Point.act, stateOf_setState, hst, Option.map_none, ite_self]
    exact marks_nextScan c rest
  | save c =>
    simp only [Point.act, stateOf_hset, if_pos (Option.some.inj hq)]
    rfl
  | retryPush _ _ | recoverPush _ _ _ | push _ | recovered | done => cases hq
  | markExpire _ _ | markAdd _ _ | finishExpire _ _ | retryExpire _ _ | recoverExpire _ _ _
  | pruneRemove _ _ _ _ | expire _ => exact hp hq

theorem error_marks {state : Option JobState} (hq : p.error.job = some k) (hp : p.marks state) :
    p.error.marks state := by
  cases p with
  | run j record => exact hp
  | finishLoad j outcome retry => exact marks_afterFinish j retry ⟨.running, hp, Or.inl rfl⟩
  | finishSave j outcome retry loaded => exact marks_afterFinish j retry ⟨.running, hp, Or.inl rfl⟩
  | finishExpire j retry | finishRemove j retry =>
    obtain ⟨st, hst, hterm⟩ := hp
    exact marks_afterFinish j retry ⟨st, hst, Or.inr hterm⟩
  | lrange c _ _ _ | smembers c _ | hmget c _ _ _ =>
    obtain rfl : state = none := hp
    exact marks_absent c
  | pruneRemove c _ _ rest | pruneSave c _ _ rest =>
    obtain rfl : state = none := hp
    exact marks_nextScan c rest
  | expire c =>
    simp only [Point.error] at hq ⊢
    split at hq <;> first | exact hp | cases hq
  | _ => cases hq

theorem error_harmless_marks (hq : p.error.job = some k)
    (hp : p.job = some k → p.marks (s.redis.stateOf k)) :
    p.error.marks ((p.act cfg ch s.redis).1.stateOf k) := by
  have hmarks := hp (error_job k hq).1
  have herror := error_marks k p hq hmarks
  cases p with
  | finishSave j outcome retry loaded =>
    have hj : j = k := Option.some.inj (error_job k hq).1
    simp only [Point.act, stateOf_hset, if_pos hj]
    exact marks_afterFinish j retry ⟨outcome.state, rfl, Or.inr outcome.state_terminal⟩
  | pruneSave c j removed rest =>
    have hst : s.redis.stateOf k = none := hmarks
    simp only [Point.act, stateOf_setState, hst, Option.map_none, ite_self]
    exact marks_nextScan c rest
  | markSave _ _ _ | retrySave _ _ | recoverSave _ _ _ | save _ | pop _ _ => cases hq
  | _ => exact herror

end

/-! ## The invariant, job by job -/

/-- A job that waits is pending, and a job in a client's hands stands as the
client's point says. -/
structure Marked (k : JobId) (s : System) : Prop where
  waiting : 0 < s.redis.queued k → s.redis.stateOf k = some .pending
  marks : ∀ p ∈ s.live, p.job = some k → p.marks (s.redis.stateOf k)

variable {cfg : Config} {k : JobId} {s : System} {p q : Point} {rest : List Point}

theorem Point.Harmless.perm {live : List Point} (hperm : s.live.Perm live)
    (h : p.Harmless s) : p.Harmless { s with live } := by
  cases p with
  | pruneSave c j removed rest =>
    refine ⟨fun ⟨x, hx, hexec⟩ => h.1 ⟨x, hperm.mem_iff.mpr hx, hexec⟩, h.2⟩
  | _ => exact h

theorem Marked.perm (h : Marked k s) {live : List Point} (hperm : s.live.Perm live) :
    Marked k { s with live } where
  waiting := h.waiting
  marks p hp := h.marks p (hperm.mem_iff.mpr hp)

theorem Marked.act (h : Marked k s) (hinv : Inv k s) (ch : Choice) (hlive : s.live = p :: rest)
    (hp : p.Harmless s) (cfg : Config) (q : Point)
    (hq : q.job = some k → q.marks ((p.act cfg ch s.redis).1.stateOf k))
    (stranded : List Point) (accepted : List JobId) : Marked k { s with
      redis := (p.act cfg ch s.redis).1, live := q :: rest, stranded, accepted } where
  waiting hpos := by
    have hmem := h.marks p (acting hlive)
    rcases harmless_waits cfg ch s k p hpos hmem with hold | ⟨-, hst⟩
    · have hst := h.waiting hold
      rcases harmless_state cfg ch s k p hp with heq | hjob | ⟨-, hran, -⟩
      · exact heq.trans hst
      · rw [(hinv.held hlive hjob).1] at hold
        exact absurd hold (Nat.lt_irrefl 0)
      · rcases hran .pending hst with h | h <;> cases h
    · exact hst
  marks x hx hjob := by
    rcases List.mem_cons.mp hx with rfl | hx
    · exact hq hjob
    · have hx' : x ∈ s.live := hlive ▸ List.mem_cons_of_mem p hx
      have hmarks := h.marks x hx' hjob
      rcases harmless_state cfg ch s k p hp with heq | hp' | ⟨hexec, hran, heq⟩
      · show x.marks _
        rw [heq]
        exact hmarks
      · exact absurd hjob ((hinv.held hlive hp').2 x hx)
      · show x.marks _
        rw [heq]
        exact hmarks.failed hjob (fun e => hexec ⟨x, hx', e⟩) hran

theorem Marked.leave (h : Marked k s) (hlive : s.live = p :: rest) (stranded : List Point) :
    Marked k { s with live := rest, stranded } where
  waiting := h.waiting
  marks x hx := h.marks x (hlive ▸ List.mem_cons_of_mem p hx)

theorem Marked.join (h : Marked k s) (hq : q.job = some k → q.marks (s.redis.stateOf k))
    (nextId : JobId) : Marked k { s with live := q :: s.live, nextId } where
  waiting := h.waiting
  marks x hx hjob := by
    rcases List.mem_cons.mp hx with rfl | hx
    · exact hq hjob
    · exact h.marks x hx hjob

theorem Marked.joinLoops (h : Marked k s) (n : Nat) :
    Marked k { s with live := List.replicate n .poll ++ s.live } := by
  induction n with
  | zero => exact h
  | succ n ih => exact ih.join (fun hjob => by cases hjob) s.nextId

theorem Marked.step (h : Marked k s) (hinv : Inv k s) (a : Action) (ha : Harmless s a) :
    Marked k (step cfg s a) := by
  cases a with
  | call entry jobType priority payload requiresLlm enqueuedAt =>
    refine h.join (fun hjob => ?_) _
    have hk := (Call.owns_begin _).job k hjob
    rw [(hinv.fresh (Nat.le_of_eq hk)).2.1]
    exact marks_begin _
  | start =>
    simp only [Processor.step]
    split
    · exact h.join (fun hjob => by cases hjob) s.nextId
    · exact h
  | act i ch =>
    simp only [Processor.step]
    split
    · exact h
    · rename_i hi
      exact ((h.perm (live_perm hi)).leave rfl s.stranded).joinLoops cfg.concurrency
    · rename_i p hne hi
      have hperm := live_perm hi
      have hp : p.Harmless s := ha p hi
      refine ((h.perm hperm).act (hinv.perm hperm) ch rfl (hp.perm hperm) cfg _ (fun hq => ?_)
        s.stranded _).perm (live_set_perm hi _).symm
      exact harmless_marks cfg ch s k p hp hq (h.marks p (hperm.mem_iff.mpr List.mem_cons_self))
        h.waiting
  | fail i applied ch =>
    simp only [Processor.step]
    split
    · exact h
    · rename_i p hi
      have hperm := live_perm hi
      have hmarks := h.marks p (hperm.mem_iff.mpr List.mem_cons_self)
      split
      · rename_i happlied
        subst happlied
        have hp : p.Harmless s := ha p hi
        have := ((h.perm hperm).act (hinv.perm hperm) ch rfl (hp.perm hperm) cfg p.error
          (fun hq => error_harmless_marks cfg ch s k p hq hmarks)
          ((p.act cfg ch s.redis).2 :: s.stranded) (p.accepts.toList ++ s.accepted)).perm
          (live_set_perm hi _).symm
        simpa only [System.abandon, System.command, List.set_set] using this
      · refine (((h.perm hperm).leave rfl (p :: s.stranded)).join (fun hq => ?_) s.nextId).perm
          (live_set_perm hi _).symm
        exact error_marks k p hq (hmarks (error_job k hq).1)
  | drop i =>
    simp only [Processor.step]
    split
    · exact h
    · rename_i p hi
      exact (h.perm (live_perm hi)).leave rfl _
  | pause paused => exact ⟨h.waiting, h.marks⟩

/-! ## The table and the harmless commands -/

theorem keeps_of_same {before after : JobId → Option JobState} (h : ∀ j, after j = before j) :
    ∀ j, ∀ old ∈ before j, ∀ new ∈ after j, old ≠ new → (old, new) ∈ validTransitions := by
  intro j old hold new hnew hne
  rw [h j] at hnew
  exact absurd (Option.some.inj (hold.symm.trans hnew)) hne

theorem keeps_write_iff {before after : JobId → Option JobState} {j : JobId} {new : JobState}
    (hat : ∀ st ∈ before j, after j = some new) (hother : ∀ k, j ≠ k → after k = before k) :
    (∀ k, ∀ old ∈ before k, ∀ new ∈ after k, old ≠ new → (old, new) ∈ validTransitions) ↔
      ∀ st ∈ before j, st ≠ new → (st, new) ∈ validTransitions := by
  constructor
  · exact fun h st hst => h j st hst new (hat st hst)
  · intro h k old hold new' hnew hne
    by_cases hk : j = k
    · subst hk
      obtain rfl := Option.some.inj ((hat old hold).symm.trans hnew)
      exact h old hold hne
    · rw [hother k hk] at hnew
      exact absurd (Option.some.inj (hold.symm.trans hnew)) hne

theorem keeps_hset_iff {r : Redis} {j : JobId} {record : JobRecord} :
    (∀ k, ∀ old ∈ r.stateOf k, ∀ new ∈ (r.hset j record).stateOf k,
      old ≠ new → (old, new) ∈ validTransitions) ↔
      ∀ st ∈ r.stateOf j, st ≠ record.state → (st, record.state) ∈ validTransitions := by
  apply keeps_write_iff
  · exact fun _ _ => by rw [stateOf_hset, if_pos rfl]
  · exact fun k hk => by rw [stateOf_hset, if_neg hk]

theorem keeps_setState_iff {r : Redis} {j : JobId} {state : JobState} :
    (∀ k, ∀ old ∈ r.stateOf k, ∀ new ∈ (r.setState j state).stateOf k,
      old ≠ new → (old, new) ∈ validTransitions) ↔
      ∀ st ∈ r.stateOf j, st ≠ state → (st, state) ∈ validTransitions := by
  apply keeps_write_iff
  · exact fun st hst => by rw [stateOf_setState, if_pos rfl, Option.mem_def.mp hst, Option.map_some]
  · exact fun k hk => by rw [stateOf_setState, if_neg hk]

theorem valid_failed_iff {st : JobState} :
    (st ≠ .failed → (st, .failed) ∈ validTransitions) ↔ st = .running ∨ st = .failed := by
  cases st <;> decide

/-- A command of a client at work keeps to the table iff it is harmless. -/
theorem act_respects (cfg : Config) (ch : Choice)
    (hmarks : ∀ k, p.job = some k → p.marks (s.redis.stateOf k)) :
    ((∀ j, ∀ old ∈ s.redis.stateOf j, ∀ new ∈ (p.act cfg ch s.redis).1.stateOf j,
        old ≠ new → (old, new) ∈ validTransitions) ∧ ∀ j ∈ p.prunes, ¬ s.Executing j) ↔
      p.Harmless s := by
  have hprunes : p.prunes = none → ∀ j ∈ p.prunes, ¬ s.Executing j := by
    intro hnone j hj
    rw [hnone] at hj
    exact absurd hj (Option.not_mem_none j)
  cases p with
  | pop p rest =>
    refine ⟨fun _ => trivial, fun _ => ⟨keeps_of_same fun j => ?_, hprunes rfl⟩⟩
    rcases popped_cases s.redis p rest with h | ⟨j, -, h⟩ <;> simp only [Point.act, h, stateOf_rpop]
  | markSave j record loaded =>
    refine ⟨fun _ => trivial, fun _ => ⟨keeps_hset_iff.mpr fun st hst _ => ?_, hprunes rfl⟩⟩
    obtain rfl := Option.some.inj (hst.symm.trans (hmarks j rfl))
    show (JobState.pending, JobState.running) ∈ validTransitions
    decide
  | finishSave j outcome retry loaded =>
    refine ⟨fun _ => trivial, fun _ => ⟨keeps_hset_iff.mpr fun st hst _ => ?_, hprunes rfl⟩⟩
    obtain rfl := Option.some.inj (hst.symm.trans (hmarks j rfl))
    show (JobState.running, outcome.state) ∈ validTransitions
    cases outcome <;> decide
  | save c =>
    refine ⟨fun _ => trivial, fun _ => ⟨keeps_hset_iff.mpr fun st hst => ?_, hprunes rfl⟩⟩
    cases hst.symm.trans (hmarks c.id rfl)
  | retrySave j record | recoverSave j rest loaded =>
    refine ⟨fun h => ?_, False.elim⟩
    obtain ⟨st, hst, hran⟩ := hmarks j rfl
    have hnew : st ≠ .pending → (st, .pending) ∈ validTransitions :=
      keeps_hset_iff.mp h.1 st hst
    show False
    revert hran hnew
    cases st <;> decide
  | pruneSave c j removed rest =>
    have hvalid : (∀ st ∈ s.redis.stateOf j, st ≠ .failed → (st, .failed) ∈ validTransitions) ↔
        ∀ st ∈ s.redis.stateOf j, st = .running ∨ st = .failed :=
      forall_congr' fun st => forall_congr' fun _ => valid_failed_iff
    constructor
    · exact fun h => ⟨h.2 j rfl, hvalid.mp (keeps_setState_iff.mp h.1)⟩
    · intro h
      refine ⟨keeps_setState_iff.mpr (hvalid.mpr h.2), fun k hk => ?_⟩
      exact Option.some.inj hk ▸ h.1
  | _ => exact ⟨fun _ => trivial, fun _ => ⟨keeps_of_same fun _ => rfl, hprunes rfl⟩⟩

/-- Redis changes by the command that takes effect. -/
theorem step_redis (cfg : Config) (s : System) (a : Action) :
    (a.effect s = none ∧ ∀ j, (step cfg s a).redis.stateOf j = s.redis.stateOf j) ∨
      ∃ p ch, a.effect s = some p ∧ (step cfg s a).redis = (p.act cfg ch s.redis).1 := by
  cases a with
  | call entry jobType priority payload requiresLlm enqueuedAt => exact Or.inl ⟨rfl, fun _ => rfl⟩
  | start =>
    refine Or.inl ⟨rfl, fun j => ?_⟩
    simp only [step]
    split <;> rfl
  | act i ch =>
    simp only [Action.effect, step]
    cases hi : s.live[i]? with
    | none => exact Or.inl ⟨rfl, fun _ => rfl⟩
    | some p => cases p <;> exact Or.inr ⟨_, ch, rfl, rfl⟩
  | fail i applied ch =>
    simp only [step]
    cases applied with
    | false =>
      refine Or.inl ⟨rfl, fun j => ?_⟩
      cases hi : s.live[i]? <;> rfl
    | true =>
      simp only [Action.effect]
      cases hi : s.live[i]? with
      | none => exact Or.inl ⟨rfl, fun _ => rfl⟩
      | some p => exact Or.inr ⟨p, ch, rfl, rfl⟩
  | drop i =>
    refine Or.inl ⟨rfl, fun j => ?_⟩
    simp only [step]
    cases hi : s.live[i]? <;> rfl
  | pause paused => exact Or.inl ⟨rfl, fun _ => rfl⟩

theorem effect_mem {a : Action} (h : a.effect s = some p) : p ∈ s.live := by
  cases a with
  | act i ch => exact List.mem_of_getElem? h
  | fail i applied ch =>
    cases applied with
    | true => exact List.mem_of_getElem? h
    | false => cases h
  | _ => cases h

theorem respects_iff (cfg : Config) (h : ∀ k, Marked k s) (a : Action) :
    Respects cfg s a ↔ Harmless s a := by
  unfold Respects Harmless
  rcases step_redis cfg s a with ⟨hnone, hsame⟩ | ⟨p, ch, hp, heq⟩
  · rw [hnone]
    refine ⟨fun _ p hp => absurd hp (Option.not_mem_none p), fun _ =>
      ⟨fun j old hold new hnew hne => ?_, fun p hp => absurd hp (Option.not_mem_none p)⟩⟩
    rw [hsame] at hnew
    exact absurd (Option.some.inj (hold.symm.trans hnew)) hne
  · have hact := act_respects cfg ch fun k hjob => (h k).marks p (effect_mem hp) hjob
    rw [hp, heq]
    constructor
    · intro hrespects p' hp'
      obtain rfl := Option.some.inj hp'
      exact hact.mp ⟨hrespects.1, hrespects.2 p rfl⟩
    · intro hharmless
      obtain ⟨hvalid, hprunes⟩ := hact.mpr (hharmless p rfl)
      refine ⟨hvalid, fun p' hp' => ?_⟩
      obtain rfl := Option.some.inj hp'
      exact hprunes

theorem marked_init : Marked k .init where
  waiting h := absurd h (Nat.lt_irrefl 0)
  marks _ h := absurd h List.not_mem_nil

theorem step_marked (h : ∀ k, Inv k s ∧ Marked k s) (a : Action) (ha : Harmless s a) :
    ∀ k, Inv k (step cfg s a) ∧ Marked k (step cfg s a) :=
  fun k => ⟨(h k).1.step a, (h k).2.step (h k).1 a ha⟩

/-- A run keeps to the table, and prunes no job that is being executed, iff every
command that takes effect in it is harmless. -/
theorem respects_transitions (cfg : Config) (actions : List Action) :
    Along (step cfg) (Respects cfg) .init actions ↔ Along (step cfg) Harmless .init actions := by
  apply along_iff (fun s => ∀ k, Inv k s ∧ Marked k s)
  · exact fun s a h => respects_iff cfg (fun k => (h k).2) a
  · exact fun s a h ha => step_marked h a ha
  · exact fun k => ⟨inv_init, marked_init⟩

/-- The next command of the client that came last, whose job will fail. -/
def failingCommand : Action :=
  .act 0 { now := 0, order := [], instantiates := true, hold := false, succeeds := false }

/-- A job is enqueued and run, and it fails; the loop is about to enqueue it
again. -/
def retried : List Action :=
  .call .enqueueJob "digest_run" .low .empty false 0 :: List.replicate 3 nextCommand ++
    .start :: List.replicate 16 failingCommand

/-- The retry takes the record from failed to pending. -/
theorem not_respects_transitions :
    ¬ ∀ cfg actions, Along (step cfg) (Respects cfg) .init actions := by
  intro h
  obtain ⟨hvalid, -⟩ := (along_append.mp (h sampleConfig (retried ++ [failingCommand]))).2.1
  exact absurd (hvalid 0 .failed (by decide) .pending (by decide) (by decide)) (by decide)

end Cerid.Processor
