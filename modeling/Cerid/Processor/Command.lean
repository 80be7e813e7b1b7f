import Cerid.Processor.Queue
import Mathlib.Data.List.Perm.Lattice

/-!
# What one command does to a job

A client's point says which job it has in hands, which job would be lost if it
ended there, and in what state it left the record.  The lemmas here follow a job
through one command of any client.
-/

namespace Cerid.Processor

/-- The job that is in no list while a client stands at this point. -/
def Point.gap : Point → Option JobId
  | .load j | .markLoad j _ | .markSave j _ _ | .markExpire j _ | .markAdd j _ => some j
  | .retryExpire j _ | .retryPush j _ => some j
  | .pruneSave _ j (_ + 1) _ => some j
  | _ => none

/-- The job that a client leaves behind when it ends at this point.  A recovery
keeps the job in the running set until it has pushed it, but the next recovery
takes only what is marked running and drops the rest. -/
def Point.loss : Point → Option JobId
  | .recoverExpire j _ _ | .recoverPush j _ _ => some j
  | p => p.gap

/-! ## Lists and records -/

namespace Redis

/-- How often the job waits. -/
def queued (r : Redis) (j : JobId) : Nat :=
  (r.queue .high).count j + (r.queue .medium).count j + (r.queue .low).count j

def stateOf (r : Redis) (j : JobId) : Option JobState :=
  (r.job j).map JobRecord.state

variable (r : Redis) (p : Priority) (j k : JobId) (record : JobRecord) (state : JobState)

theorem queued_pos : 0 < r.queued k ↔ ∃ p ∈ priorityOrder, k ∈ r.queue p := by
  simp only [queued, Nat.add_pos_iff_pos_or_pos, List.count_pos_iff, priorityOrder, List.mem_cons,
    List.not_mem_nil, or_false, exists_eq_or_imp, exists_eq_left, or_assoc]

theorem queued_lpush : (r.lpush p j).queued k = r.queued k + if j = k then 1 else 0 := by
  cases p <;> simp [queued, lpush, List.count_cons] <;> omega

theorem queued_rpop (h : (r.queue p).getLast? = some j) :
    (r.rpop p).queued k + (if j = k then 1 else 0) = r.queued k := by
  have hcount : ((r.queue p).dropLast).count k + (if j = k then 1 else 0) = (r.queue p).count k := by
    conv_rhs => rw [← List.dropLast_append_getLast? j h]
    simp [List.count_append, List.count_cons]
  cases p <;> simp [queued, rpop] <;> omega

theorem queued_lrem :
    (r.lrem p j).queued k + (if j = k then (r.queue p).count j else 0) = r.queued k := by
  have hcount : ((r.queue p).filter (· ≠ j)).count k + (if j = k then (r.queue p).count j else 0) =
      (r.queue p).count k := by
    by_cases h : j = k
    · subst h
      simp [List.count_eq_zero]
    · rw [if_neg h, Nat.add_zero, List.count_filter]
      simpa using fun e => h e.symm
  cases p <;> simp [queued, lrem] at hcount ⊢ <;> omega

@[simp] theorem queued_sadd : (r.sadd j).queued k = r.queued k := rfl
@[simp] theorem queued_srem : (r.srem j).queued k = r.queued k := rfl
@[simp] theorem queued_hset : (r.hset j record).queued k = r.queued k := rfl
@[simp] theorem queued_setState : (r.setState j state).queued k = r.queued k := rfl

@[simp] theorem stateOf_lpush : (r.lpush p j).stateOf k = r.stateOf k := rfl
@[simp] theorem stateOf_rpop : (r.rpop p).stateOf k = r.stateOf k := rfl
@[simp] theorem stateOf_lrem : (r.lrem p j).stateOf k = r.stateOf k := rfl
@[simp] theorem stateOf_sadd : (r.sadd j).stateOf k = r.stateOf k := rfl
@[simp] theorem stateOf_srem : (r.srem j).stateOf k = r.stateOf k := rfl

theorem stateOf_hset :
    (r.hset j record).stateOf k = if j = k then some record.state else r.stateOf k := by
  by_cases h : j = k
  · simp [stateOf, hset, h]
  · simp [stateOf, hset, h, Function.update_of_ne (Ne.symm h)]

theorem stateOf_setState :
    (r.setState j state).stateOf k =
      if j = k then (r.stateOf k).map (fun _ => state) else r.stateOf k := by
  by_cases h : j = k
  · subst h
    simp [stateOf, setState, Function.comp_def]
  · simp [stateOf, setState, h, Function.update_of_ne (Ne.symm h)]

@[simp] theorem running_lpush : (r.lpush p j).running = r.running := rfl
@[simp] theorem running_rpop : (r.rpop p).running = r.running := rfl
@[simp] theorem running_lrem : (r.lrem p j).running = r.running := rfl
@[simp] theorem running_hset : (r.hset j record).running = r.running := rfl
@[simp] theorem running_setState : (r.setState j state).running = r.running := rfl

theorem mem_running_sadd : k ∈ (r.sadd j).running ↔ k = j ∨ k ∈ r.running := by
  unfold sadd
  split
  · exact ⟨Or.inr, fun h => h.elim (fun e => e ▸ ‹j ∈ r.running›) id⟩
  · exact List.mem_cons

theorem mem_running_srem : k ∈ (r.srem j).running ↔ k ∈ r.running ∧ k ≠ j := by
  simp [srem]

end Redis

/-! ## What a client's point says of its job -/

/-- The job in the client's hands: no other client has it, and it does not wait. -/
def Point.job : Point → Option JobId
  | .load j | .markLoad j _ | .markSave j _ _ | .markExpire j _ | .markAdd j _ | .run j _
  | .finishLoad j _ _ | .finishSave j _ _ _ | .finishExpire j _ | .finishRemove j _
  | .retrySave j _ | .retryExpire j _ | .retryPush j _
  | .recoverSave j _ _ | .recoverExpire j _ _ | .recoverPush j _ _ => some j
  | .lrange c _ _ _ | .smembers c _ | .hmget c _ _ _ | .pruneRemove c _ _ _
  | .pruneSave c _ _ _ | .save c | .expire c | .push c => some c.id
  | .poll | .pop _ _ | .members | .recoverLoad _ _ | .recoverRemove _ _ | .recovered | .done => none

/-- The state in which the client's job stands. -/
def Point.expects (state : Option JobState) : Point → Prop
  | .markExpire _ _ | .markAdd _ _ => state = some .running ∨ ∃ st ∈ state, st.terminal = true
  | .finishExpire _ _ | .finishRemove _ _ => ∃ st ∈ state, st.terminal = true
  | .retryExpire _ _ | .retryPush _ _ | .recoverExpire _ _ _ | .recoverPush _ _ _
  | .expire _ | .push _ => ∃ st ∈ state, st ≠ .running
  | .lrange _ _ _ _ | .smembers _ _ | .hmget _ _ _ _ | .pruneRemove _ _ _ _
  | .pruneSave _ _ _ _ | .save _ => state ≠ some .running
  | _ => True

theorem Point.expects.failed {state : Option JobState} {p : Point} (h : p.expects state) :
    p.expects (state.map fun _ => .failed) := by
  have hterm : ∀ st ∈ state, ∃ st' ∈ state.map fun _ => JobState.failed, st'.terminal = true :=
    fun st hst => ⟨.failed, by rw [hst]; rfl, rfl⟩
  have hne : ∀ st ∈ state, ∃ st' ∈ state.map fun _ => JobState.failed, st' ≠ .running :=
    fun st hst => ⟨.failed, by rw [hst]; rfl, by decide⟩
  cases p with
  | markExpire _ _ | markAdd _ _ =>
    rcases h with h | ⟨st, hst, -⟩
    · exact Or.inr (hterm _ h)
    · exact Or.inr (hterm st hst)
  | finishExpire _ _ | finishRemove _ _ =>
    obtain ⟨st, hst, -⟩ := h
    exact hterm st hst
  | retryExpire _ _ | retryPush _ _ | recoverExpire _ _ _ | recoverPush _ _ _ | expire _ | push _ =>
    obtain ⟨st, hst, -⟩ := h
    exact hne st hst
  | lrange _ _ _ _ | smembers _ _ | hmget _ _ _ _ | pruneRemove _ _ _ _ | pruneSave _ _ _ _
  | save _ => cases state <;> simp [Point.expects]
  | _ => trivial

/-- The ids that a recovery has yet to take out of the running set. -/
def Point.pending : Point → List JobId
  | .recoverLoad j rest | .recoverSave j rest _ | .recoverExpire j rest _ | .recoverPush j rest _
  | .recoverRemove j rest => j :: rest
  | _ => []

/-- The job that a recovery takes out of the running set next. -/
def Point.removing : Point → Option JobId
  | .recoverRemove j _ => some j
  | _ => none

theorem pending_of_role {p : Point} (h : p.role ≠ .recovery) : p.pending = [] := by
  cases p <;> first | rfl | exact absurd rfl h

theorem removing_of_role {p : Point} (h : p.role ≠ .recovery) : p.removing = none := by
  cases p <;> first | rfl | exact absurd rfl h

section

variable (cfg : Config) (ch : Choice) (r : Redis) (c : Call) (j : JobId)

@[simp] theorem nextPop_point (l : List Priority) :
    (nextPop l).role = .loop ∧ (nextPop l).job = none ∧ (nextPop l).loss = none ∧
      (nextPop l).removing = none ∧ (nextPop l).pending = [] := by
  cases l <;> simp [nextPop, Point.role, Point.job, Point.loss, Point.gap, Point.removing,
    Point.pending]

@[simp] theorem afterFinish_point (retry : Option JobRecord) :
    (afterFinish j retry).role = .loop ∧ (afterFinish j retry).job = retry.map (fun _ => j) ∧
      (afterFinish j retry).loss = none ∧ (afterFinish j retry).removing = none ∧
      (afterFinish j retry).pending = [] ∧ ∀ state, (afterFinish j retry).expects state := by
  cases retry <;> simp [afterFinish, Point.role, Point.job, Point.loss, Point.gap,
    Point.removing, Point.pending, Point.expects]

theorem execute_eq (record : JobRecord) :
    ∃ outcome retry, execute cfg ch j record = .finishLoad j outcome retry := by
  unfold execute
  split_ifs <;> exact ⟨_, _, rfl⟩

@[simp] theorem nextRecover_point (ids : List JobId) :
    (nextRecover ids).role = .recovery ∧ (nextRecover ids).job = none ∧
      (nextRecover ids).loss = none ∧ (nextRecover ids).removing = none ∧
      (nextRecover ids).pending = ids := by
  cases ids <;> simp [nextRecover, Point.role, Point.job, Point.loss, Point.gap, Point.removing,
    Point.pending]

/-- A point of a call that has its own job, if any, in hands and no other. -/
structure Call.Owns (p : Point) : Prop where
  role : p.role = .caller
  job : ∀ k, p.job = some k → c.id = k
  loss : p.loss = none
  removing : p.removing = none
  pending : p.pending = []
  expects : ∀ state, state ≠ some .running → p.expects state

theorem Call.owns_absent : c.Owns c.absent := by
  unfold Call.absent
  split <;> constructor <;>
    simp [Point.role, Point.job, Point.loss, Point.gap, Point.removing, Point.pending,
      Point.expects]

theorem Call.owns_nextScan (found : List (JobId × Option Priority)) :
    c.Owns (nextScan c found) := by
  cases found with
  | nil => exact c.owns_absent
  | cons entry rest =>
    constructor <;>
      simp [nextScan, Point.role, Point.job, Point.loss, Point.gap, Point.removing,
        Point.pending, Point.expects]

theorem Call.owns_nextRange (found : List (JobId × Option Priority)) (l : List Priority) :
    c.Owns (nextRange c found l) := by
  cases l <;> constructor <;>
    simp [nextRange, Point.role, Point.job, Point.loss, Point.gap, Point.removing,
      Point.pending, Point.expects]

theorem Call.owns_begin : c.Owns c.begin := by
  unfold Call.begin
  split
  all_goals first | exact c.owns_nextRange [] priorityOrder | skip
  all_goals constructor <;> simp [Point.role, Point.job, Point.loss, Point.gap, Point.removing,
    Point.pending, Point.expects]

theorem Call.owns_scan (key : Option Priority) (rest : List (JobId × Option Priority))
    (stored : Option JobRecord) : c.Owns (scan cfg ch c j key rest stored) := by
  unfold scan
  split
  · exact c.owns_nextScan rest
  · split
    · split
      · constructor <;> simp [Point.role, Point.job, Point.loss, Point.gap, Point.removing,
          Point.pending, Point.expects]
      · split <;> constructor <;> simp [Point.role, Point.job, Point.loss, Point.gap,
          Point.removing, Point.pending, Point.expects]
    · exact c.owns_nextScan rest

theorem popped_cases (p : Priority) (rest : List Priority) :
    popped r p rest = (r, nextPop rest) ∨
      ∃ j, (r.queue p).getLast? = some j ∧ popped r p rest = (r.rpop p, .load j) := by
  unfold popped
  cases h : (r.queue p).getLast? with
  | none => exact Or.inl rfl
  | some j => exact Or.inr ⟨j, rfl, rfl⟩

theorem Choice.members_perm : (ch.members r).Perm r.running := by
  unfold Choice.members
  split
  · assumption
  · exact List.Perm.refl _

end

/-! ## One command -/

open Redis

variable (cfg : Config) (ch : Choice) (r : Redis) (k : JobId)

theorem act_role (p : Point) : (p.act cfg ch r).2.role = p.role := by
  cases p with
  | poll =>
    simp only [Point.act]
    split
    · rfl
    · exact (nextPop_point _).1
  | pop p rest =>
    rcases popped_cases r p rest with h | ⟨j, -, h⟩ <;> simp only [Point.act, h, nextPop_point] <;>
      rfl
  | load j | markLoad j record => cases h : r.job j <;> simp only [Point.act, h] <;> rfl
  | run j record =>
    obtain ⟨outcome, retry, h⟩ := execute_eq cfg ch j record
    simp only [Point.act, h]
    rfl
  | finishLoad j outcome retry =>
    cases h : r.job j <;> simp only [Point.act, h, Option.elim, afterFinish_point] <;> rfl
  | finishRemove j retry => exact (afterFinish_point j retry).1
  | members => exact (nextRecover_point _).1
  | recoverLoad j rest =>
    simp only [Point.act]
    cases r.job j with
    | none => rfl
    | some loaded => by_cases h : loaded.state = .running <;> simp only [Option.elim, h] <;> rfl
  | recoverRemove j rest => exact (nextRecover_point rest).1
  | lrange c p rest found => exact (c.owns_nextRange _ _).role
  | smembers c found => exact (c.owns_nextScan _).role
  | hmget c j key rest => exact (c.owns_scan cfg ch j key rest _).role
  | pruneSave c j removed rest => exact (c.owns_nextScan rest).role
  | _ => rfl

/-- Only the client that has the job, or a prune, writes its state. -/
theorem act_state (p : Point) : (p.act cfg ch r).1.stateOf k = r.stateOf k ∨
    (p.job = some k ∧ ∃ st, (p.act cfg ch r).1.stateOf k = some st) ∨
    (p.act cfg ch r).1.stateOf k = (r.stateOf k).map fun _ => .failed := by
  cases p with
  | pop p rest => rcases popped_cases r p rest with h | ⟨j, -, h⟩ <;> simp [Point.act, h]
  | pruneSave c j removed rest =>
    by_cases h : j = k <;> simp [Point.act, stateOf_setState, h]
  | markSave j _ _ | finishSave j _ _ _ | retrySave j _ | recoverSave j _ _ =>
    by_cases h : j = k <;> simp [Point.act, stateOf_hset, Point.job, h]
  | save c => by_cases h : c.id = k <;> simp [Point.act, stateOf_hset, Point.job, h]
  | _ => exact Or.inl rfl

theorem act_running (p : Point) (h : p.role = .caller) :
    (p.act cfg ch r).1.running = r.running := by
  cases p with
  | pop _ _ | finishRemove _ _ | markAdd _ _ | recoverRemove _ _ => cases h
  | _ => rfl

theorem act_running_nodup (p : Point) (h : r.running.Nodup) :
    (p.act cfg ch r).1.running.Nodup := by
  cases p with
  | pop p rest => rcases popped_cases r p rest with hp | ⟨j, -, hp⟩ <;> simpa [Point.act, hp] using h
  | markAdd j record =>
    simp only [Point.act, sadd]
    split
    · exact h
    · exact List.nodup_cons.mpr ⟨‹_›, h⟩
  | finishRemove j retry | recoverRemove j rest => exact h.filter _
  | _ => exact h

/-- The job counts once while it waits and once in a client's hands. -/
theorem act_count (p : Point) :
    (p.act cfg ch r).1.queued k + (if (p.act cfg ch r).2.job = some k then 1 else 0) ≤
        r.queued k + (if p.job = some k then 1 else 0) ∨
      p.role = .recovery ∧ (p.act cfg ch r).1.queued k = r.queued k ∧
        r.stateOf k = some .running := by
  have howns : ∀ (c : Call) (q : Point), c.Owns q →
      (if q.job = some k then 1 else 0) ≤ if some c.id = some k then 1 else 0 := by
    intro c q h
    split
    · exact Nat.le_of_eq (if_pos (congrArg some (h.job k ‹_›))).symm
    · exact Nat.zero_le _
  cases p with
  | poll =>
    simp only [Point.act]
    split
    · exact Or.inl (Nat.le_refl _)
    · exact Or.inl (by simp [(nextPop_point _).2.1])
  | pop p rest =>
    rcases popped_cases r p rest with h | ⟨j, hj, h⟩
    · exact Or.inl (by simp [Point.act, h, (nextPop_point _).2.1])
    · have := r.queued_rpop p j k hj
      exact Or.inl (by simp [Point.act, h, Point.job, this])
  | load j => cases h : r.job j <;> exact Or.inl (by simp [Point.act, h, Point.job])
  | markLoad j record => cases h : r.job j <;> exact Or.inl (by simp [Point.act, h, Point.job])
  | run j record =>
    obtain ⟨outcome, retry, h⟩ := execute_eq cfg ch j record
    exact Or.inl (by simp [Point.act, h, Point.job])
  | finishLoad j outcome retry =>
    cases h : r.job j with
    | none => cases retry <;> exact Or.inl (by simp [Point.act, h, Point.job, afterFinish])
    | some loaded => exact Or.inl (by simp [Point.act, h, Point.job])
  | finishRemove j retry =>
    cases retry <;> exact Or.inl (by simp [Point.act, Point.job, afterFinish])
  | retryPush j record => exact Or.inl (by simp [Point.act, queued_lpush, Point.job])
  | members => exact Or.inl (by simp [Point.act, (nextRecover_point _).2.1])
  | recoverLoad j rest =>
    cases h : r.job j with
    | none => exact Or.inl (by simp [Point.act, h, Point.job])
    | some loaded =>
      by_cases hl : loaded.state = .running
      · by_cases hk : j = k
        · subst hk
          exact Or.inr ⟨rfl, rfl, by simp [stateOf, h, hl]⟩
        · exact Or.inl (by simp [Point.act, h, hl, Point.job, hk])
      · exact Or.inl (by simp [Point.act, h, hl, Point.job])
  | recoverPush j rest loaded => exact Or.inl (by simp [Point.act, queued_lpush, Point.job])
  | recoverRemove j rest => exact Or.inl (by simp [Point.act, (nextRecover_point _).2.1])
  | lrange c p rest found => exact Or.inl (Nat.add_le_add_left (howns c _ (c.owns_nextRange _ _)) _)
  | smembers c found => exact Or.inl (Nat.add_le_add_left (howns c _ (c.owns_nextScan _)) _)
  | hmget c j key rest =>
    exact Or.inl (Nat.add_le_add_left (howns c _ (c.owns_scan cfg ch j key rest _)) _)
  | pruneRemove c j p rest =>
    have := r.queued_lrem p j k
    exact Or.inl (Nat.add_le_add_right (by simp only [Point.act]; omega) _)
  | pruneSave c j removed rest =>
    exact Or.inl (Nat.add_le_add_left (howns c _ (c.owns_nextScan rest)) _)
  | push c => exact Or.inl (by simp [Point.act, queued_lpush, Point.job])
  | _ => exact Or.inl (Nat.le_refl _)

theorem act_waits (p : Point) (h : 0 < (p.act cfg ch r).1.queued k) :
    0 < r.queued k ∨ p.job = some k ∧
      (p.expects (r.stateOf k) → ∃ st ∈ (p.act cfg ch r).1.stateOf k, st ≠ .running) := by
  cases p with
  | pop p rest =>
    rcases popped_cases r p rest with hp | ⟨j, hj, hp⟩
    · exact Or.inl (by simpa [Point.act, hp] using h)
    · have := r.queued_rpop p j k hj
      simp only [Point.act, hp] at h
      exact Or.inl (by omega)
  | retryPush j record | recoverPush j rest loaded =>
    by_cases hk : j = k
    · exact Or.inr ⟨congrArg some hk, id⟩
    · exact Or.inl (by simpa [Point.act, queued_lpush, hk] using h)
  | push c =>
    by_cases hk : c.id = k
    · exact Or.inr ⟨congrArg some hk, id⟩
    · exact Or.inl (by simpa [Point.act, queued_lpush, hk] using h)
  | pruneRemove c j p rest =>
    have := r.queued_lrem p j k
    simp only [Point.act] at h
    exact Or.inl (by omega)
  | _ => exact Or.inl h

theorem act_expects (p : Point) (hq : (p.act cfg ch r).2.job = some k)
    (hp : p.job = some k → p.expects (r.stateOf k)) :
    (p.act cfg ch r).2.expects ((p.act cfg ch r).1.stateOf k) := by
  cases p with
  | poll =>
    simp only [Point.act] at hq
    split at hq
    · cases hq
    · rw [(nextPop_point _).2.1] at hq
      cases hq
  | pop p rest =>
    rcases popped_cases r p rest with h | ⟨j, hj, h⟩
    · simp [Point.act, h, (nextPop_point _).2.1] at hq
    · simp [Point.act, h, Point.expects]
  | load j | markLoad j record => cases h : r.job j <;> simp [Point.act, h, Point.expects]
  | markSave j record loaded =>
    exact Or.inl (by simp [Point.act, stateOf_hset, Option.some.inj hq])
  | markAdd j record => trivial
  | run j record =>
    obtain ⟨outcome, retry, h⟩ := execute_eq cfg ch j record
    simp [Point.act, h, Point.expects]
  | finishLoad j outcome retry =>
    cases h : r.job j with
    | none => simp [Point.act, h]
    | some loaded => simp [Point.act, h, Point.expects]
  | finishSave j outcome retry loaded =>
    refine ⟨outcome.state, ?_, outcome.state_terminal⟩
    simp [Point.act, stateOf_hset, Option.some.inj hq]
  | finishRemove j retry => simp [Point.act]
  | retrySave j record =>
    exact ⟨.pending, by simp [Point.act, stateOf_hset, Option.some.inj hq, retryRecord], by decide⟩
  | recoverSave j rest loaded =>
    exact ⟨.pending, by simp [Point.act, stateOf_hset, Option.some.inj hq], by decide⟩
  | save c =>
    exact ⟨.pending, by simp [Point.act, stateOf_hset, Option.some.inj hq, Call.newRecord],
      by decide⟩
  | members =>
    simp [Point.act, (nextRecover_point _).2.1] at hq
  | recoverRemove j rest =>
    simp [Point.act, (nextRecover_point _).2.1] at hq
  | recoverLoad j rest =>
    cases h : r.job j with
    | none => simp [Point.act, h, Point.expects]
    | some loaded =>
      by_cases hl : loaded.state = .running <;> simp [Point.act, h, hl, Point.expects]
  | lrange c p rest found =>
    exact (c.owns_nextRange _ _).expects _ (hp (congrArg some ((c.owns_nextRange _ _).job k hq)))
  | smembers c found =>
    exact (c.owns_nextScan _).expects _ (hp (congrArg some ((c.owns_nextScan _).job k hq)))
  | hmget c j key rest =>
    have howns := c.owns_scan cfg ch j key rest (r.job j)
    exact howns.expects _ (hp (congrArg some (howns.job k hq)))
  | pruneSave c j removed rest =>
    have howns := c.owns_nextScan rest
    refine howns.expects _ ?_
    have := hp (congrArg some (howns.job k hq))
    simp only [Point.act, stateOf_setState]
    split
    · simp
    · exact this
  | recoverPush j rest loaded | retryPush j record => cases hq
  | push c | recovered | done => cases hq
  | _ => exact hp hq

theorem act_pending (p : Point) (hr : r.running.Nodup) (hp : p.pending.Nodup)
    (hk : k ∈ p.pending → k ∈ r.running) :
    (p.act cfg ch r).2.pending.Nodup ∧
      (k ∈ (p.act cfg ch r).2.pending → k ∈ (p.act cfg ch r).1.running) := by
  by_cases hrole : p.role = .recovery
  · cases p with
    | members =>
      have hperm := ch.members_perm r
      simp only [Point.act, nextRecover_point]
      exact ⟨hperm.nodup_iff.mpr hr, hperm.mem_iff.mp⟩
    | recoverLoad j rest =>
      cases h : r.job j with
      | none => simpa only [Point.act, h] using ⟨hp, hk⟩
      | some loaded =>
        by_cases hl : loaded.state = .running <;>
          simpa only [Point.act, h, Option.elim, hl] using ⟨hp, hk⟩
    | recoverRemove j rest =>
      simp only [Point.act, nextRecover_point, mem_running_srem]
      have hnodup := List.nodup_cons.mp hp
      exact ⟨hnodup.2, fun h =>
        ⟨hk (List.mem_cons_of_mem j h), fun e => hnodup.1 (e ▸ h)⟩⟩
    | recoverSave _ _ _ | recoverExpire _ _ _ | recoverPush _ _ _ | recovered => exact ⟨hp, hk⟩
    | _ => cases hrole
  · rw [← act_role cfg ch r] at hrole
    rw [pending_of_role hrole]
    exact ⟨List.nodup_nil, fun h => absurd h List.not_mem_nil⟩

theorem act_call (p : Point) (h : p.role = .caller) (hq : (p.act cfg ch r).2.job = some k) :
    p.job = some k ∧ p.accepts = none := by
  cases p with
  | lrange c p rest found => exact ⟨congrArg some ((c.owns_nextRange _ _).job k hq), rfl⟩
  | smembers c found => exact ⟨congrArg some ((c.owns_nextScan _).job k hq), rfl⟩
  | hmget c j key rest =>
    exact ⟨congrArg some ((c.owns_scan cfg ch j key rest _).job k hq), rfl⟩
  | pruneRemove _ _ _ _ | save _ | expire _ => exact ⟨hq, rfl⟩
  | pruneSave c j removed rest => exact ⟨congrArg some ((c.owns_nextScan _).job k hq), rfl⟩
  | push _ | done => cases hq
  | _ => cases h

theorem act_accepts (p : Point) (h : p.accepts = some k) :
    p.job = some k ∧ p.role = .caller ∧ 0 < (p.act cfg ch r).1.queued k := by
  cases p with
  | push c =>
    have hk : c.id = k := Option.some.inj h
    exact ⟨h, rfl, by simp [Point.act, queued_lpush, hk]⟩
  | _ => cases h

/-! ## Where a job is safe -/

/-- The job waits, is done, or would be lost if the client ended at this point. -/
def Accounted (p : Point) : Prop :=
  p.loss = some k ∨ 0 < r.queued k ∨ ∃ st ∈ r.stateOf k, st.terminal = true

theorem act_queued (p : Point) (h : 0 < r.queued k) :
    Accounted (p.act cfg ch r).1 k (p.act cfg ch r).2 := by
  cases p with
  | pop p rest =>
    rcases popped_cases r p rest with hp | ⟨j, hj, hp⟩
    · exact Or.inr (Or.inl (by simpa [Point.act, hp] using h))
    · by_cases hk : j = k
      · exact Or.inl (by simp [Point.act, hp, Point.loss, Point.gap, hk])
      · have := r.queued_rpop p j k hj
        rw [if_neg hk, Nat.add_zero] at this
        exact Or.inr (Or.inl (by simpa only [Point.act, hp, this] using h))
  | retryPush j record | recoverPush j rest loaded | push c =>
    refine Or.inr (Or.inl ?_)
    simp only [Point.act, queued_lpush]
    exact Nat.add_pos_left h _
  | pruneRemove c j p rest =>
    have hrem := r.queued_lrem p j k
    cases hcount : (r.queue p).count j with
    | zero =>
      simp only [hcount, ite_self, Nat.add_zero] at hrem
      exact Or.inr (Or.inl (by simpa only [Point.act, hrem] using h))
    | succ removed =>
      by_cases hk : j = k
      · subst hk
        exact Or.inl (by simp only [Point.act, hcount, Point.loss, Point.gap])
      · rw [if_neg hk, Nat.add_zero] at hrem
        exact Or.inr (Or.inl (by simpa only [Point.act, hrem] using h))
  | _ => exact Or.inr (Or.inl h)

theorem act_terminal (p : Point) (hcall : p.role = .caller → p.job ≠ some k)
    (h : ∃ st ∈ r.stateOf k, st.terminal = true) :
    Accounted (p.act cfg ch r).1 k (p.act cfg ch r).2 := by
  cases p with
  | pop p rest =>
    rcases popped_cases r p rest with hp | ⟨j, hj, hp⟩ <;>
      exact Or.inr (Or.inr (by simpa [Point.act, hp] using h))
  | markSave j _ _ | retrySave j _ | recoverSave j _ _ =>
    by_cases hk : j = k
    · exact Or.inl (congrArg some hk)
    · exact Or.inr (Or.inr (by simpa [Point.act, stateOf_hset, hk] using h))
  | finishSave j outcome retry loaded =>
    refine Or.inr (Or.inr ?_)
    simp only [Point.act, stateOf_hset]
    split
    · exact ⟨_, rfl, outcome.state_terminal⟩
    · exact h
  | save c =>
    have hk : c.id ≠ k := fun e => hcall rfl (congrArg some e)
    exact Or.inr (Or.inr (by simpa [Point.act, stateOf_hset, hk] using h))
  | pruneSave c j removed rest =>
    refine Or.inr (Or.inr ?_)
    obtain ⟨st, hst, ht⟩ := h
    simp only [Point.act, stateOf_setState]
    split
    · exact ⟨.failed, by rw [hst]; rfl, rfl⟩
    · exact ⟨st, hst, ht⟩
  | _ => exact Or.inr (Or.inr h)

/-- A job that would have been lost has been put somewhere, or still would be. -/
theorem act_loss (p : Point) (h : p.loss = some k) (hrec : ∃ st, r.stateOf k = some st)
    (hexp : p.job = some k → p.expects (r.stateOf k)) :
    Accounted (p.act cfg ch r).1 k (p.act cfg ch r).2 ∨
      p.role = .loop ∧ k ∈ (p.act cfg ch r).1.running ∧
        (p.act cfg ch r).1.stateOf k = some .running := by
  have hjob : ∀ j, some j = some k → ∃ record, r.job j = some record := by
    rintro j ⟨⟩
    obtain ⟨st, hst⟩ := hrec
    obtain ⟨record, hrecord, -⟩ := Option.map_eq_some_iff.mp hst
    exact ⟨record, hrecord⟩
  cases p with
  | load j | markLoad j record =>
    obtain ⟨record, hrecord⟩ := hjob j h
    exact Or.inl (Or.inl (by simpa [Point.act, hrecord, Point.loss, Point.gap] using h))
  | markSave j record loaded => exact Or.inl (Or.inl h)
  | markExpire j record | retryExpire j record | recoverExpire j rest loaded =>
    exact Or.inl (Or.inl h)
  | markAdd j record =>
    rcases hexp h with hrun | hterm
    · exact Or.inr ⟨rfl, (r.mem_running_sadd j k).mpr (Or.inl (Option.some.inj h).symm), hrun⟩
    · exact Or.inl (Or.inr (Or.inr hterm))
  | retryPush j record | recoverPush j rest loaded =>
    have hk : j = k := Option.some.inj h
    exact Or.inl (Or.inr (Or.inl (by simp [Point.act, queued_lpush, hk])))
  | pruneSave c j removed rest =>
    cases removed with
    | zero => cases h
    | succ n =>
      have hk : j = k := Option.some.inj h
      obtain ⟨st, hst⟩ := hrec
      exact Or.inl (Or.inr (Or.inr ⟨.failed, by simp [Point.act, stateOf_setState, hk, hst], rfl⟩))
  | _ => cases h

/-- A job marked running stays so, in the running set, until it is accounted for. -/
theorem act_marked (p : Point) (hrun : k ∈ r.running) (hst : r.stateOf k = some .running)
    (hrem : p.removing ≠ some k) (hcall : p.role = .caller → p.job ≠ some k)
    (hexp : p.job = some k → p.expects (r.stateOf k)) :
    Accounted (p.act cfg ch r).1 k (p.act cfg ch r).2 ∨
      (k ∈ (p.act cfg ch r).1.running ∧ (p.act cfg ch r).1.stateOf k = some .running ∧
        (p.act cfg ch r).2.removing ≠ some k) := by
  have hloop : (p.act cfg ch r).2.role ≠ .recovery → (p.act cfg ch r).2.removing ≠ some k := by
    intro h
    rw [removing_of_role h]
    exact Option.some_ne_none k ∘ Eq.symm
  rw [act_role] at hloop
  cases p with
  | pop p rest =>
    have hr := hloop nofun
    rcases popped_cases r p rest with hp | ⟨j, hj, hp⟩ <;>
      simp only [Point.act, hp] at hr ⊢ <;> exact Or.inr ⟨hrun, hst, hr⟩
  | markSave j _ _ | retrySave j _ | recoverSave j _ _ =>
    by_cases hk : j = k
    · exact Or.inl (Or.inl (congrArg some hk))
    · exact Or.inr ⟨hrun, by simpa [Point.act, stateOf_hset, hk] using hst, by
        simp [Point.act, Point.removing]⟩
  | markAdd j record =>
    exact Or.inr ⟨(r.mem_running_sadd j k).mpr (Or.inr hrun), hst, hloop nofun⟩
  | finishSave j outcome retry loaded =>
    by_cases hk : j = k
    · exact Or.inl (Or.inr (Or.inr ⟨outcome.state, by simp [Point.act, stateOf_hset, hk],
        outcome.state_terminal⟩))
    · exact Or.inr ⟨hrun, by simpa [Point.act, stateOf_hset, hk] using hst, hloop nofun⟩
  | finishRemove j retry =>
    have hk : k ≠ j := by
      rintro rfl
      obtain ⟨st, hst', ht⟩ := hexp rfl
      rw [hst] at hst'
      cases hst'
      cases ht
    exact Or.inr ⟨(r.mem_running_srem j k).mpr ⟨hrun, hk⟩, hst, hloop nofun⟩
  | members => exact Or.inr ⟨hrun, hst, by simp [Point.act]⟩
  | recoverLoad j rest =>
    cases h : r.job j with
    | none =>
      have hk : j ≠ k := by
        rintro rfl
        simp [stateOf, h] at hst
      exact Or.inr ⟨hrun, hst, by simp [Point.act, h, Point.removing, hk]⟩
    | some loaded =>
      by_cases hl : loaded.state = .running
      · exact Or.inr ⟨hrun, hst, by simp [Point.act, h, hl, Point.removing]⟩
      · have hk : j ≠ k := by
          rintro rfl
          simp [stateOf, h, hl] at hst
        exact Or.inr ⟨hrun, hst, by simp [Point.act, h, hl, Point.removing, hk]⟩
  | recoverPush j rest loaded =>
    have hk : j ≠ k := by
      rintro rfl
      obtain ⟨st, hst', ht⟩ := hexp rfl
      exact ht (Option.some.inj (hst'.symm.trans hst))
    exact Or.inr ⟨hrun, hst, by simp [Point.act, Point.removing, hk]⟩
  | recoverRemove j rest =>
    have hk : k ≠ j := fun e => hrem (congrArg some e.symm)
    exact Or.inr ⟨(r.mem_running_srem j k).mpr ⟨hrun, hk⟩, hst, by simp [Point.act]⟩
  | save c =>
    have hk : c.id ≠ k := fun e => hcall rfl (congrArg some e)
    exact Or.inr ⟨hrun, by simpa [Point.act, stateOf_hset, hk] using hst, hloop nofun⟩
  | pruneSave c j removed rest =>
    by_cases hk : j = k
    · exact Or.inl (Or.inr (Or.inr ⟨.failed, by simp [Point.act, stateOf_setState, hk, hst], rfl⟩))
    · exact Or.inr ⟨hrun, by simpa [Point.act, stateOf_setState, hk] using hst,
        hloop nofun⟩
  | recoverExpire _ _ _ | recovered => exact Or.inr ⟨hrun, hst, hrem⟩
  | _ => exact Or.inr ⟨hrun, hst, hloop nofun⟩

/-! ## After an error -/

theorem error_role (p : Point) : p.error.role = p.role := by
  cases p with
  | finishLoad j outcome retry => exact (afterFinish_point j retry).1
  | finishSave j outcome retry loaded => exact (afterFinish_point j retry).1
  | finishExpire j retry | finishRemove j retry => exact (afterFinish_point j retry).1
  | lrange c _ _ _ | smembers c _ | hmget c _ _ _ => exact c.owns_absent.role
  | pruneRemove c _ _ rest | pruneSave c _ _ rest => exact (c.owns_nextScan rest).role
  | expire c =>
    simp only [Point.error]
    split <;> rfl
  | _ => rfl

/-- A client that goes on after an error is at the start of something: it has
nothing left to remove. -/
theorem error_pending (p : Point) : p.error.pending = [] := by
  cases p with
  | finishLoad j outcome retry => simp [Point.error]
  | finishSave j outcome retry loaded => simp [Point.error]
  | finishExpire j retry | finishRemove j retry => simp [Point.error]
  | lrange c _ _ _ | smembers c _ | hmget c _ _ _ => exact c.owns_absent.pending
  | pruneRemove c _ _ rest | pruneSave c _ _ rest => exact (c.owns_nextScan rest).pending
  | expire c =>
    simp only [Point.error]
    split <;> rfl
  | _ => rfl

theorem error_job {p : Point} (h : p.error.job = some k) :
    p.job = some k ∧ p.accepts = none := by
  have hfinish : ∀ j (retry : Option JobRecord), (afterFinish j retry).job = some k →
      some j = some k := by
    intro j retry hj
    cases retry <;> simp_all
  cases p with
  | run j record => exact ⟨h, rfl⟩
  | finishLoad j _ retry | finishSave j _ retry _ | finishExpire j retry | finishRemove j retry =>
    exact ⟨hfinish j retry h, rfl⟩
  | lrange c _ _ _ | smembers c _ | hmget c _ _ _ =>
    exact ⟨congrArg some (c.owns_absent.job k h), rfl⟩
  | pruneRemove c j p rest | pruneSave c _ _ rest =>
    exact ⟨congrArg some ((c.owns_nextScan rest).job k h), rfl⟩
  | expire c =>
    simp only [Point.error] at h
    split at h <;> first | exact ⟨h, rfl⟩ | cases h
  | _ => cases h

theorem error_expects {p : Point} {state : Option JobState} (h : p.error.job = some k)
    (hexp : p.expects state) : p.error.expects state := by
  cases p with
  | run j record => trivial
  | finishLoad j _ retry | finishSave j _ retry _ | finishExpire j retry | finishRemove j retry =>
    simp [Point.error]
  | lrange c _ _ _ | smembers c _ | hmget c _ _ _ => exact c.owns_absent.expects _ hexp
  | pruneRemove c _ _ rest | pruneSave c _ _ rest => exact (c.owns_nextScan rest).expects _ hexp
  | expire c =>
    simp only [Point.error] at h ⊢
    split at h <;> first | exact hexp | cases h
  | _ => cases h

/-- The command may have taken effect all the same. -/
theorem error_act (p : Point) (h : p.error.job = some k) (hexp : p.expects (r.stateOf k)) :
    (p.act cfg ch r).1.queued k ≤ r.queued k ∧
      p.error.expects ((p.act cfg ch r).1.stateOf k) := by
  cases p with
  | run j record => exact ⟨Nat.le_refl _, trivial⟩
  | finishLoad j _ retry | finishSave j _ retry _ | finishExpire j retry | finishRemove j retry =>
    exact ⟨Nat.le_refl _, by simp [Point.error]⟩
  | lrange c _ _ _ | smembers c _ | hmget c _ _ _ =>
    exact ⟨Nat.le_refl _, c.owns_absent.expects _ hexp⟩
  | pruneRemove c j p rest =>
    have := r.queued_lrem p j k
    exact ⟨by simp only [Point.act]; omega, (c.owns_nextScan rest).expects _ hexp⟩
  | pruneSave c j removed rest =>
    refine ⟨Nat.le_refl _, (c.owns_nextScan rest).expects _ ?_⟩
    simp only [Point.act, stateOf_setState]
    split
    · simp
    · exact hexp
  | expire c => exact ⟨Nat.le_refl _, error_expects k h hexp⟩
  | _ => cases h

end Cerid.Processor
