import Cerid.Processor.Transitions
import Mathlib.Data.List.Induction

/-!
# The records that clients carry

A client reads a record, sends several commands and writes the record back.  The
job is in its hands meanwhile, and the one thing that another client may do to
the record is to mark it failed; so what is written back differs from what is
stored in its state alone.  A retry is the one command that changes more.
-/

namespace Cerid.Processor

/-- What a record says whatever its state. -/
def JobRecord.bare (record : JobRecord) : JobRecord := { record with state := .pending }

theorem bare_with (record : JobRecord) (state : JobState) :
    { record with state }.bare = record.bare := rfl

theorem eq_of_bare {a b : JobRecord} (h : a.bare = b.bare) :
    a.jobType = b.jobType ∧ a.payload = b.payload ∧ a.retryCount = b.retryCount := by
  cases a
  cases b
  injection h with h₁ h₂ h₃ h₄ h₅ h₆ h₇
  exact ⟨h₁, h₄, h₆⟩

/-- The records that a client has read and may write back. -/
def Point.carried : Point → List JobRecord
  | .markLoad _ record | .markExpire _ record | .markAdd _ record | .run _ record => [record]
  | .markSave _ record loaded => [record, loaded]
  | .finishLoad _ _ retry | .finishExpire _ retry | .finishRemove _ retry => retry.toList
  | .finishSave _ _ retry loaded => loaded :: retry.toList
  | .retrySave _ record => [record]
  | .recoverSave _ _ loaded | .recoverExpire _ _ loaded | .recoverPush _ _ loaded => [loaded]
  | .expire c | .push c => [c.newRecord]
  | _ => []

/-- The client's job has no record yet. -/
def Point.unsaved : Point → Bool
  | .lrange _ _ _ _ | .smembers _ _ | .hmget _ _ _ _ | .pruneRemove _ _ _ _ | .pruneSave _ _ _ _
  | .save _ => true
  | _ => false

/-- The client's records and the stored one, its job's, differ in their states alone. -/
def Point.fits (stored : Option JobRecord) (p : Point) : Prop :=
  if p.unsaved then stored = none
  else ∃ record ∈ stored, ∀ copy ∈ p.carried, record.bare = copy.bare

section

variable {cfg : Config} {ch : Choice} {c : Call} {k : JobId}

theorem fits_failed {stored : Option JobRecord} {p : Point} (h : p.fits stored) :
    p.fits (stored.map fun record => { record with state := .failed }) := by
  unfold Point.fits at h ⊢
  split
  · rw [if_pos ‹_›] at h
    rw [h]
    rfl
  · rw [if_neg ‹_›] at h
    obtain ⟨record, rfl, hcopies⟩ := h
    exact ⟨_, rfl, hcopies⟩

theorem fits_of_unsaved {p : Point} (h : p.unsaved = true) : p.fits none := by
  rw [Point.fits, if_pos h]

theorem unsaved_absent (h : c.absent.job = some k) : c.absent.unsaved = true := by
  cases he : c.entry with
  | findActiveJobId =>
    rw [Call.absent, he] at h
    cases h
  | _ => simp only [Call.absent, he, Point.unsaved]

theorem unsaved_nextScan (found : List (JobId × Option Priority))
    (h : (nextScan c found).job = some k) : (nextScan c found).unsaved = true := by
  cases found with
  | nil => exact unsaved_absent h
  | cons entry rest => rfl

theorem unsaved_nextRange (found : List (JobId × Option Priority)) (l : List Priority) :
    (nextRange c found l).unsaved = true := by
  cases l <;> rfl

theorem unsaved_begin : c.begin.unsaved = true := by
  unfold Call.begin
  split <;> rfl

/-- A scan goes on, finds its job, or stops at a marker it prunes. -/
theorem scan_cases (j : JobId) (key : Option Priority) (rest : List (JobId × Option Priority))
    (stored : Option JobRecord) :
    scan cfg ch c j key rest stored = nextScan c rest ∨
      (∃ p, scan cfg ch c j key rest stored = .pruneRemove c j p rest) ∨
      scan cfg ch c j key rest stored = .done ∧ ∃ record ∈ stored, c.duplicates record = true ∧
        ∀ p ∈ key, isStalePending cfg ch.now record.enqueuedAt = false := by
  cases stored with
  | none => exact Or.inl rfl
  | some record =>
    simp only [scan]
    by_cases hdup : c.duplicates record = true
    · rw [if_pos hdup]
      cases key with
      | none => exact Or.inr (Or.inr ⟨rfl, record, rfl, hdup, fun p hp => by cases hp⟩)
      | some p =>
        by_cases hstale : isStalePending cfg ch.now record.enqueuedAt = true
        · exact Or.inr (Or.inl ⟨p, if_pos hstale⟩)
        · refine Or.inr (Or.inr ⟨if_neg hstale, record, rfl, hdup, fun _ _ => ?_⟩)
          exact Bool.not_eq_true _ ▸ hstale
    · exact Or.inl (if_neg hdup)

theorem unsaved_scan {j : JobId} {key : Option Priority} {rest : List (JobId × Option Priority)}
    {stored : Option JobRecord} (h : (scan cfg ch c j key rest stored).job = some k) :
    (scan cfg ch c j key rest stored).unsaved = true := by
  rcases scan_cases j key rest stored with he | ⟨p, he⟩ | ⟨he, -⟩
  · rw [he] at h ⊢
    exact unsaved_nextScan rest h
  · rw [he]
    rfl
  · rw [he] at h
    cases h

end

/-! ## One command -/

open Redis

section

variable (cfg : Config) (ch : Choice) (r : Redis) (k : JobId)

theorem job_hset (j : JobId) (record : JobRecord) :
    (r.hset j record).job k = if j = k then some record else r.job k := by
  by_cases h : j = k
  · simp [hset, h]
  · simp [hset, h, Function.update_of_ne (Ne.symm h)]

theorem job_setState (j : JobId) (state : JobState) :
    (r.setState j state).job k =
      if j = k then (r.job k).map (fun record => { record with state }) else r.job k := by
  by_cases h : j = k
  · simp [setState, h]
  · simp [setState, h, Function.update_of_ne (Ne.symm h)]

/-- Only the client that has the job, or a prune, writes its record. -/
theorem act_job (p : Point) : (p.act cfg ch r).1.job k = r.job k ∨ p.job = some k ∨
    (p.act cfg ch r).1.job k = (r.job k).map fun record => { record with state := .failed } := by
  cases p with
  | pop p rest =>
    rcases popped_cases r p rest with h | ⟨j, -, h⟩ <;>
      exact Or.inl (congrArg (fun x => Redis.job x.1 k) h)
  | pruneSave c j removed rest =>
    by_cases h : j = k
    · exact Or.inr (Or.inr (by simp only [Point.act, job_setState, if_pos h]))
    · exact Or.inl (by simp only [Point.act, job_setState, if_neg h])
  | markSave j _ _ | finishSave j _ _ _ | retrySave j _ | recoverSave j _ _ =>
    by_cases h : j = k
    · exact Or.inr (Or.inl (congrArg some h))
    · exact Or.inl (by simp only [Point.act, job_hset, if_neg h])
  | save c =>
    by_cases h : c.id = k
    · exact Or.inr (Or.inl (congrArg some h))
    · exact Or.inl (by simp only [Point.act, job_hset, if_neg h])
  | _ => exact Or.inl rfl

/-- The client's next point carries what the client has read or written. -/
theorem act_fits (p : Point) (hq : (p.act cfg ch r).2.job = some k)
    (hp : p.job = some k → p.fits (r.job k))
    (hwait : 0 < r.queued k → ∃ record, r.job k = some record) :
    (p.act cfg ch r).2.fits ((p.act cfg ch r).1.job k) := by
  have hcall : ∀ {c : Call} {q : Point}, c.Owns q → q.job = some k → q.unsaved = true →
      (some c.id = some k → r.job k = none) → q.fits (r.job k) := by
    intro c q howns hjob hq hnone
    rw [hnone (congrArg some (howns.job k hjob))]
    exact fits_of_unsaved hq
  cases p with
  | poll =>
    simp only [Point.act] at hq
    split at hq
    · cases hq
    · rw [(nextPop_point _).2.1] at hq
      cases hq
  | pop p rest =>
    rcases popped_cases r p rest with hr | ⟨j, hj, hr⟩
    · simp [Point.act, hr] at hq
    · simp only [Point.act, hr] at hq ⊢
      have hpos := r.queued_rpop p j k hj
      rw [if_pos (Option.some.inj hq)] at hpos
      obtain ⟨record, hrecord⟩ := hwait (by omega)
      exact ⟨record, hrecord, fun copy hcopy => absurd hcopy List.not_mem_nil⟩
  | load j =>
    cases hr : r.job j with
    | none => simp [Point.act, hr, Point.job] at hq
    | some record =>
      simp only [Point.act, hr, Option.elim] at hq ⊢
      obtain rfl := Option.some.inj hq
      refine ⟨record, hr, fun copy hcopy => ?_⟩
      rw [List.mem_singleton.mp hcopy]
  | markLoad j record =>
    cases hr : r.job j with
    | none =>
      simp only [Point.act, hr, Option.elim, Point.job] at hq
      obtain ⟨stored, hstored, -⟩ := hp hq
      rw [← Option.some.inj hq, hr] at hstored
      cases hstored
    | some loaded =>
      simp only [Point.act, hr, Option.elim] at hq ⊢
      obtain ⟨stored, hstored, hcopies⟩ := hp hq
      obtain rfl := Option.some.inj hq
      obtain rfl := Option.some.inj (hr.symm.trans hstored)
      refine ⟨loaded, hr, fun copy hcopy => ?_⟩
      rcases List.mem_cons.mp hcopy with rfl | hcopy
      · exact hcopies _ List.mem_cons_self
      · rw [List.mem_singleton.mp hcopy]
  | markSave j record loaded =>
    obtain ⟨stored, -, hcopies⟩ := hp hq
    simp only [Point.act, job_hset, if_pos (Option.some.inj hq)]
    refine ⟨_, rfl, fun copy hcopy => ?_⟩
    obtain rfl := List.mem_singleton.mp hcopy
    exact (hcopies loaded (List.mem_cons_of_mem _ List.mem_cons_self)).symm.trans
      (hcopies copy List.mem_cons_self)
  | markExpire j record | markAdd j record | recoverExpire j rest loaded | expire c => exact hp hq
  | run j record =>
    have hjob : some j = some k := by
      obtain ⟨outcome, retry, hr⟩ := execute_eq cfg ch j record
      simp only [Point.act, hr] at hq
      exact hq
    obtain ⟨stored, hstored, hcopies⟩ := hp hjob
    simp only [Point.act, execute]
    split_ifs
    all_goals refine ⟨stored, hstored, fun copy hcopy => ?_⟩
    all_goals first | exact absurd hcopy List.not_mem_nil | exact hcopies copy hcopy
  | finishLoad j outcome retry =>
    cases hr : r.job j with
    | none =>
      simp only [Point.act, hr, Option.elim] at hq ⊢
      cases retry with
      | none => cases hq
      | some record => exact hp hq
    | some loaded =>
      simp only [Point.act, hr, Option.elim] at hq ⊢
      obtain ⟨stored, hstored, hcopies⟩ := hp hq
      obtain rfl := Option.some.inj hq
      obtain rfl := Option.some.inj (hr.symm.trans hstored)
      refine ⟨loaded, hr, fun copy hcopy => ?_⟩
      rcases List.mem_cons.mp hcopy with rfl | hcopy
      · rfl
      · exact hcopies copy hcopy
  | finishSave j outcome retry loaded =>
    obtain ⟨stored, -, hcopies⟩ := hp hq
    simp only [Point.act, job_hset, if_pos (Option.some.inj hq)]
    refine ⟨_, rfl, fun copy hcopy => ?_⟩
    exact (hcopies loaded List.mem_cons_self).symm.trans
      (hcopies copy (List.mem_cons_of_mem _ hcopy))
  | finishExpire j retry => exact hp hq
  | finishRemove j retry =>
    cases retry with
    | none => cases hq
    | some record => exact hp hq
  | retrySave j record =>
    simp only [Point.act, job_hset, if_pos (Option.some.inj hq)]
    exact ⟨_, rfl, fun copy hcopy => absurd hcopy List.not_mem_nil⟩
  | retryExpire j record => exact hp hq
  | members | recoverRemove j rest =>
    simp only [Point.act, nextRecover_point] at hq
    cases hq
  | recoverLoad j rest =>
    cases hr : r.job j with
    | none => simp [Point.act, hr, Point.job] at hq
    | some loaded =>
      by_cases hl : loaded.state = .running
      · simp only [Point.act, hr, Option.elim, if_pos hl] at hq ⊢
        obtain rfl := Option.some.inj hq
        refine ⟨loaded, hr, fun copy hcopy => ?_⟩
        rw [List.mem_singleton.mp hcopy]
      · simp [Point.act, hr, hl, Point.job] at hq
  | recoverSave j rest loaded =>
    simp only [Point.act, job_hset, if_pos (Option.some.inj hq)]
    refine ⟨_, rfl, fun copy hcopy => ?_⟩
    obtain rfl := List.mem_singleton.mp hcopy
    rfl
  | lrange c p rest found => exact hcall (c.owns_nextRange _ _) hq (unsaved_nextRange _ _) hp
  | smembers c found => exact hcall (c.owns_nextScan _) hq (unsaved_nextScan _ hq) hp
  | hmget c j key rest => exact hcall (c.owns_scan cfg ch j key rest _) hq (unsaved_scan hq) hp
  | pruneRemove c j p rest => exact hp hq
  | pruneSave c j removed rest =>
    have hid := (c.owns_nextScan rest).job k hq
    have hnone : r.job k = none := hp (congrArg some hid)
    simp only [Point.act, job_setState, hnone, Option.map_none, ite_self]
    exact fits_of_unsaved (unsaved_nextScan rest hq)
  | save c =>
    simp only [Point.act, job_hset, if_pos (Option.some.inj hq)]
    refine ⟨_, rfl, fun copy hcopy => ?_⟩
    rw [List.mem_singleton.mp hcopy]
  | retryPush _ _ | recoverPush _ _ _ | push _ | recovered | done => cases hq

/-- What an error leaves in a client's hands fits as before. -/
theorem error_fits {p : Point} {stored : Option JobRecord} (hq : p.error.job = some k)
    (hp : p.fits stored) : p.error.fits stored := by
  have hretry : ∀ {j : JobId} {retry : Option JobRecord}, (afterFinish j retry).job = some k →
      (∃ record ∈ stored, ∀ copy ∈ retry.toList, record.bare = copy.bare) →
      (afterFinish j retry).fits stored := by
    intro j retry hjob h
    cases retry with
    | none => cases hjob
    | some record => exact h
  cases p with
  | run j record => exact hp
  | finishLoad j outcome retry | finishExpire j retry | finishRemove j retry => exact hretry hq hp
  | finishSave j outcome retry loaded =>
    obtain ⟨record, hrecord, hcopies⟩ := hp
    exact hretry hq ⟨record, hrecord, fun copy hcopy => hcopies copy (List.mem_cons_of_mem _ hcopy)⟩
  | lrange c p rest found | smembers c found | hmget c j key rest =>
    obtain rfl : stored = none := hp
    exact fits_of_unsaved (unsaved_absent hq)
  | pruneRemove c j p rest | pruneSave c j removed rest =>
    obtain rfl : stored = none := hp
    exact fits_of_unsaved (unsaved_nextScan rest hq)
  | expire c =>
    simp only [Point.error] at hq ⊢
    split at hq <;> first | exact hp | cases hq
  | _ => cases hq

/-- The command may have taken effect all the same. -/
theorem error_act_fits (p : Point) (hq : p.error.job = some k) (hp : p.fits (r.job k)) :
    p.error.fits ((p.act cfg ch r).1.job k) := by
  have hfits := error_fits k hq hp
  cases p with
  | finishSave j outcome retry loaded =>
    obtain ⟨record, -, hcopies⟩ := hp
    have hk : j = k := Option.some.inj (error_job k hq).1
    cases retry with
    | none => cases hq
    | some copy =>
      simp only [Point.act, job_hset, if_pos hk]
      refine ⟨_, rfl, fun other hother => ?_⟩
      obtain rfl := List.mem_singleton.mp hother
      exact (hcopies loaded List.mem_cons_self).symm.trans
        (hcopies other (List.mem_cons_of_mem _ List.mem_cons_self))
  | pruneSave c j removed rest =>
    have hnone : r.job k = none := hp
    simp only [Point.act, job_setState, hnone, Option.map_none, ite_self]
    exact hnone ▸ hfits
  | pop _ _ | markSave _ _ _ | retrySave _ _ | recoverSave _ _ _ | save _ => cases hq
  | _ => exact hfits

/-- A record stays, and but for a retry's it changes in its state alone. -/
theorem act_record (p : Point) {old : JobRecord} (h : r.job k = some old)
    (hp : p.job = some k → p.fits (r.job k)) :
    ∃ new, (p.act cfg ch r).1.job k = some new ∧ (new.bare = old.bare ∨
      ∃ record, p = .retrySave k record ∧ old.bare = record.bare ∧
        new = retryRecord ch.now record) := by
  rcases act_job cfg ch r k p with heq | hjob | heq
  · exact ⟨old, heq.trans h, Or.inl rfl⟩
  · have hfits := hp hjob
    rw [h] at hfits
    cases p with
    | pop _ _ => cases hjob
    | markSave j record loaded =>
      obtain ⟨stored, hstored, hcopies⟩ := hfits
      obtain rfl := Option.some.inj hstored
      refine ⟨_, by simp only [Point.act, job_hset, if_pos (Option.some.inj hjob)]; rfl, Or.inl ?_⟩
      exact (hcopies loaded (List.mem_cons_of_mem _ List.mem_cons_self)).symm
    | finishSave j outcome retry loaded =>
      obtain ⟨stored, hstored, hcopies⟩ := hfits
      obtain rfl := Option.some.inj hstored
      refine ⟨_, by simp only [Point.act, job_hset, if_pos (Option.some.inj hjob)]; rfl, Or.inl ?_⟩
      exact (hcopies loaded List.mem_cons_self).symm
    | recoverSave j rest loaded =>
      obtain ⟨stored, hstored, hcopies⟩ := hfits
      obtain rfl := Option.some.inj hstored
      refine ⟨_, by simp only [Point.act, job_hset, if_pos (Option.some.inj hjob)]; rfl, Or.inl ?_⟩
      exact (hcopies loaded List.mem_cons_self).symm
    | retrySave j record =>
      obtain ⟨stored, hstored, hcopies⟩ := hfits
      obtain rfl := Option.some.inj hstored
      obtain rfl := Option.some.inj hjob
      refine ⟨_, by simp only [Point.act, job_hset, if_pos], Or.inr ⟨record, rfl, ?_, rfl⟩⟩
      exact hcopies record List.mem_cons_self
    | save c | pruneSave c _ _ _ => cases hfits
    | _ => exact ⟨old, h, Or.inl rfl⟩
  · exact ⟨{ old with state := .failed }, by rw [heq, h]; rfl, Or.inl rfl⟩

end

/-! ## One step -/

/-- The call that a client is making. -/
def Point.call : Point → Option Call
  | .lrange c _ _ _ | .smembers c _ | .hmget c _ _ _ | .pruneRemove c _ _ _ | .pruneSave c _ _ _
  | .save c | .expire c | .push c => some c
  | _ => none

/-- The step leaves the lists, the running set and the records alone, and the clients
after it were there before, have nothing in hands, begin a call or go on after an
error. -/
structure Quiet (s t : System) : Prop where
  queue : t.redis.queue = s.redis.queue
  job : t.redis.job = s.redis.job
  running : t.redis.running = s.redis.running
  nextId : s.nextId ≤ t.nextId
  accepted : t.accepted = s.accepted
  live : ∀ q ∈ t.live, q ∈ s.live ∨ (q.job = none ∧ q.call = none ∧ q.carried = []) ∨
    (∃ c : Call, c.id = s.nextId ∧ s.nextId < t.nextId ∧ q = c.begin) ∨ ∃ p ∈ s.live, q = p.error

/-- A client's command takes effect, and the client stands at `q` then. -/
structure Acts (cfg : Config) (s t : System) (p : Point) (ch : Choice) (q : Point)
    (rest : List Point) : Prop where
  before : s.live.Perm (p :: rest)
  after : t.live.Perm (q :: rest)
  redis : t.redis = (p.act cfg ch s.redis).1
  nextId : t.nextId = s.nextId
  accepted : t.accepted = p.accepts.toList ++ s.accepted

theorem step_cases (cfg : Config) (s : System) (a : Action) :
    Quiet s (step cfg s a) ∧ (∀ p ∈ a.effect s, p = .recovered) ∨
      ∃ p ch q rest, a.effect s = some p ∧ Acts cfg s (step cfg s a) p ch q rest ∧
        ((∃ i, a = .act i ch) ∧ q = (p.act cfg ch s.redis).2 ∨
          (∃ i, a = .fail i true ch) ∧ q = p.error) := by
  have hquiet : ∀ {t : System}, t.redis.queue = s.redis.queue → t.redis.job = s.redis.job →
      t.redis.running = s.redis.running → t.nextId = s.nextId → t.accepted = s.accepted →
      (∀ q ∈ t.live, q ∈ s.live ∨ (q.job = none ∧ q.call = none ∧ q.carried = []) ∨
        ∃ p ∈ s.live, q = p.error) → Quiet s t := by
    intro t hqueue hjob hrunning hnext hacc hlive
    refine ⟨hqueue, hjob, hrunning, Nat.le_of_eq hnext.symm, hacc, fun q hq => ?_⟩
    rcases hlive q hq with h | h | h
    · exact Or.inl h
    · exact Or.inr (Or.inl h)
    · exact Or.inr (Or.inr (Or.inr h))
  cases a with
  | call entry jobType priority payload requiresLlm enqueuedAt =>
    refine Or.inl ⟨⟨rfl, rfl, rfl, Nat.le_succ _, rfl, fun q hq => ?_⟩, fun p hp => by cases hp⟩
    rcases List.mem_cons.mp hq with rfl | hq
    · exact Or.inr (Or.inr (Or.inl ⟨_, rfl, Nat.lt_succ_self _, rfl⟩))
    · exact Or.inl hq
  | start =>
    refine Or.inl ⟨?_, fun p hp => by cases hp⟩
    simp only [step]
    split
    · refine hquiet rfl rfl rfl rfl rfl fun q hq => ?_
      rcases List.mem_cons.mp hq with rfl | hq
      · exact Or.inr (Or.inl ⟨rfl, rfl, rfl⟩)
      · exact Or.inl hq
    · exact hquiet rfl rfl rfl rfl rfl fun q hq => Or.inl hq
  | act i ch =>
    simp only [step, Action.effect]
    split
    · rename_i hi
      exact Or.inl ⟨hquiet rfl rfl rfl rfl rfl fun q hq => Or.inl hq,
        fun p hp => by rw [hi] at hp; cases hp⟩
    · rename_i hi
      refine Or.inl ⟨hquiet rfl rfl rfl rfl rfl fun q hq => ?_, fun p hp => ?_⟩
      · rcases List.mem_append.mp hq with hq | hq
        · rw [List.eq_of_mem_replicate hq]
          exact Or.inr (Or.inl ⟨rfl, rfl, rfl⟩)
        · exact Or.inl (List.mem_of_mem_eraseIdx hq)
      · exact (Option.some.inj (hi.symm.trans hp)).symm
    · rename_i p hne hi
      exact Or.inr ⟨p, ch, _, _, hi, ⟨live_perm hi, live_set_perm hi _, rfl, rfl, rfl⟩,
        Or.inl ⟨⟨i, rfl⟩, rfl⟩⟩
  | fail i applied ch =>
    simp only [step]
    split
    · rename_i hi
      refine Or.inl ⟨hquiet rfl rfl rfl rfl rfl fun q hq => Or.inl hq, fun p hp => ?_⟩
      cases applied with
      | false => cases hp
      | true => rw [Action.effect, hi] at hp; cases hp
    · rename_i p hi
      cases applied with
      | false =>
        refine Or.inl ⟨hquiet rfl rfl rfl rfl rfl fun q hq => ?_, fun p hp => by cases hp⟩
        rcases List.mem_or_eq_of_mem_set hq with hq | rfl
        · exact Or.inl hq
        · exact Or.inr (Or.inr ⟨p, List.mem_of_getElem? hi, rfl⟩)
      | true =>
        refine Or.inr ⟨p, ch, p.error, _, hi, ⟨live_perm hi, ?_, rfl, rfl, rfl⟩,
          Or.inr ⟨⟨i, rfl⟩, rfl⟩⟩
        have hset : ((s.command cfg ch i p).abandon i (p.act cfg ch s.redis).2 p.error).live =
            s.live.set i p.error := by
          simp only [System.abandon, System.command, List.set_set]
        rw [if_pos rfl, hset]
        exact live_set_perm hi _
  | drop i =>
    simp only [step]
    refine Or.inl ⟨?_, fun p hp => by cases hp⟩
    split
    · exact hquiet rfl rfl rfl rfl rfl fun q hq => Or.inl hq
    · exact hquiet rfl rfl rfl rfl rfl fun q hq => Or.inl (List.mem_of_mem_eraseIdx hq)
  | pause paused =>
    exact Or.inl ⟨hquiet rfl rfl rfl rfl rfl fun q hq => Or.inl hq, fun p hp => by cases hp⟩

/-! ## The invariant, job by job -/

structure Carried (k : JobId) (s : System) : Prop where
  fits : ∀ p ∈ s.live, p.job = some k → p.fits (s.redis.job k)
  marked : k ∈ s.redis.running → ∃ record, s.redis.job k = some record

theorem recorded_of_stateOf {r : Redis} {k : JobId} {st : JobState} (h : r.stateOf k = some st) :
    ∃ record, r.job k = some record := by
  obtain ⟨record, hrecord, -⟩ := Option.map_eq_some_iff.mp h
  exact ⟨record, hrecord⟩

section

variable {cfg : Config} {k : JobId} {s t : System}

theorem Inv.recorded_of_queued (hinv : Inv k s) (h : 0 < s.redis.queued k) :
    ∃ record, s.redis.job k = some record := by
  obtain ⟨st, hst, -⟩ := hinv.waiting h
  exact recorded_of_stateOf hst

theorem Carried.quiet (h : Carried k s) (hinv : Inv k s) (hq : Quiet s t) : Carried k t where
  fits q hmem hjob := by
    rw [hq.job]
    rcases hq.live q hmem with hmem | ⟨hnone, -⟩ | ⟨c, hid, -, rfl⟩ | ⟨p, hp, rfl⟩
    · exact h.fits q hmem hjob
    · rw [hnone] at hjob
      cases hjob
    · have hk : s.nextId = k := hid.symm.trans (c.owns_begin.job k hjob)
      have hnone : s.redis.job k = none :=
        Option.map_eq_none_iff.mp (hinv.fresh (Nat.le_of_eq hk)).2.1
      rw [hnone]
      exact fits_of_unsaved unsaved_begin
    · exact error_fits k hjob (h.fits p hp (error_job k hjob).1)
  marked hk := by
    rw [hq.running] at hk
    rw [hq.job]
    exact h.marked hk

variable {p q : Point} {ch : Choice} {rest : List Point}

/-- The client that acts has its job alone. -/
theorem Acts.held (h : Acts cfg s t p ch q rest) (hinv : Inv k s) (hp : p.job = some k) :
    s.redis.queued k = 0 ∧ ∀ x ∈ rest, x.job ≠ some k :=
  (hinv.perm h.before).held rfl hp

theorem Acts.mem (h : Acts cfg s t p ch q rest) : p ∈ s.live :=
  h.before.mem_iff.mpr List.mem_cons_self

theorem Acts.mem_rest (h : Acts cfg s t p ch q rest) {x : Point} (hx : x ∈ rest) : x ∈ s.live :=
  h.before.mem_iff.mpr (List.mem_cons_of_mem p hx)

theorem Carried.acts (h : Carried k s) (hinv : Inv k s) (hacts : Acts cfg s t p ch q rest)
    (hq : q = (p.act cfg ch s.redis).2 ∨ q = p.error) : Carried k t where
  fits x hx hjob := by
    rw [hacts.redis]
    rcases List.mem_cons.mp (hacts.after.mem_iff.mp hx) with rfl | hx
    · rcases hq with rfl | rfl
      · exact act_fits cfg ch s.redis k p hjob (h.fits p hacts.mem) hinv.recorded_of_queued
      · exact error_act_fits cfg ch s.redis k p hjob (h.fits p hacts.mem (error_job k hjob).1)
    · have hfits := h.fits x (hacts.mem_rest hx) hjob
      rcases act_job cfg ch s.redis k p with heq | hp | heq
      · rw [heq]
        exact hfits
      · exact absurd hjob ((hacts.held hinv hp).2 x hx)
      · rw [heq]
        exact fits_failed hfits
  marked hk := by
    rw [hacts.redis] at hk ⊢
    have hkept : ∀ {record}, s.redis.job k = some record →
        ∃ new, (p.act cfg ch s.redis).1.job k = some new := by
      intro record hrecord
      obtain ⟨new, hnew, -⟩ := act_record cfg ch s.redis k p hrecord (h.fits p hacts.mem)
      exact ⟨new, hnew⟩
    by_cases hold : k ∈ s.redis.running
    · obtain ⟨record, hrecord⟩ := h.marked hold
      exact hkept hrecord
    · -- the job has just been added, by the client that has marked it running
      cases p with
      | markAdd j record =>
        obtain rfl := ((s.redis.mem_running_sadd j k).mp hk).resolve_right hold
        obtain ⟨stored, hstored, -⟩ := h.fits _ hacts.mem rfl
        exact hkept hstored
      | pop p rest =>
        rcases popped_cases s.redis p rest with hr | ⟨j, -, hr⟩ <;>
          · simp only [Point.act, hr] at hk
            exact absurd hk hold
      | finishRemove j retry | recoverRemove j rest =>
        exact absurd ((s.redis.mem_running_srem j k).mp hk).1 hold
      | _ => exact absurd hk hold

theorem Carried.step (h : Carried k s) (hinv : Inv k s) (a : Action) :
    Carried k (step cfg s a) := by
  rcases step_cases cfg s a with ⟨hquiet, -⟩ | ⟨p, ch, q, rest, -, hacts, hq⟩
  · exact h.quiet hinv hquiet
  · exact h.acts hinv hacts (hq.imp And.right And.right)

end

theorem carried_init (k : JobId) : Carried k .init where
  fits _ h := absurd h List.not_mem_nil
  marked h := absurd h List.not_mem_nil

theorem carried_run (cfg : Config) (k : JobId) (actions : List Action) :
    Carried k (run cfg actions) := by
  have h : Inv k (run cfg actions) ∧ Carried k (run cfg actions) :=
    foldl_invariant (p := fun _ => True) (step cfg) (fun s => Inv k s ∧ Carried k s)
      (fun _ a h _ => ⟨h.1.step a, h.2.step h.1 a⟩) ⟨inv_init, carried_init k⟩ fun _ _ => trivial
  exact h.2

/-- A job's record stays, and its type and payload are its call's for good. -/
theorem record_stays (cfg : Config) (before after : List Action) {j : JobId} {old : JobRecord}
    (h : (run cfg before).redis.job j = some old) :
    ∃ new, (run cfg (before ++ after)).redis.job j = some new ∧ new.jobType = old.jobType ∧
      new.payload = old.payload := by
  induction after using List.reverseRecOn with
  | nil => exact ⟨old, by rw [List.append_nil]; exact h, rfl, rfl⟩
  | append_singleton after a ih =>
    obtain ⟨mid, hmid, htype, hpayload⟩ := ih
    have hrun : run cfg (before ++ (after ++ [a])) = step cfg (run cfg (before ++ after)) a := by
      rw [← List.append_assoc, run, List.foldl_append]
      rfl
    rw [hrun]
    rcases step_cases cfg (run cfg (before ++ after)) a with
      ⟨hquiet, -⟩ | ⟨p, ch, q, rest, -, hacts, -⟩
    · exact ⟨mid, by rw [hquiet.job]; exact hmid, htype, hpayload⟩
    · have hcarried := carried_run cfg j (before ++ after)
      obtain ⟨new, hnew, hsame⟩ := act_record cfg ch _ j p hmid (hcarried.fits p hacts.mem)
      refine ⟨new, by rw [hacts.redis]; exact hnew, ?_⟩
      rcases hsame with hbare | ⟨record, -, hbare, rfl⟩
      · exact ⟨(eq_of_bare hbare).1.trans htype, (eq_of_bare hbare).2.1.trans hpayload⟩
      · exact ⟨(eq_of_bare hbare).1.symm.trans htype, (eq_of_bare hbare).2.1.symm.trans hpayload⟩

end Cerid.Processor
