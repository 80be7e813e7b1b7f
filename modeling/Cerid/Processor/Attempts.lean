import Cerid.Processor.Listed

/-!
# How often a job is run

A handler that fails is tried again until the job's retry count reaches the limit,
and a recovery puts a job back without counting.  So a job is run as often as its
budget allows and once more for each time that a recovery puts it back.
-/

namespace Cerid.Processor

/-- The job whose handler the client is about to start. -/
def Point.runs : Point → Option JobId
  | .run j _ => some j
  | _ => none

/-- The job that a recovery puts back with this command. -/
def Point.requeues : Point → Option JobId
  | .recoverPush j _ _ => some j
  | _ => none

/-- The job that the client brings to a pending list or to its handler, if it goes on. -/
def Point.readies : Point → Option JobId
  | .load j | .markLoad j _ | .markSave j _ _ | .markExpire j _ | .markAdd j _
  | .retryExpire j _ | .retryPush j _ => some j
  | .lrange c _ _ _ | .smembers c _ | .hmget c _ _ _ | .pruneRemove c _ _ _
  | .pruneSave c _ _ _ | .save c | .expire c | .push c => some c.id
  | _ => none

/-- The record that a failed attempt will enqueue again. -/
def Point.retries : Point → Option JobRecord
  | .finishLoad _ _ retry | .finishSave _ _ retry _ | .finishExpire _ retry
  | .finishRemove _ retry => retry
  | .retrySave _ record => some record
  | _ => none

section

variable {cfg : Config} {ch : Choice} {r : Redis} {k : JobId} {p : Point}

theorem job_of_readies (h : p.readies = some k) : p.job = some k := by
  cases p <;> first | exact h | cases h

/-- A call's point has its own job in hands and no other. -/
theorem readies_of_owns {c : Call} (h : c.Owns p) : p.readies = some k → c.id = k :=
  fun hp => h.job k (job_of_readies hp)

/-- A job comes to wait, or a client to have it ready, from the same, or by a retry or
a recovery. -/
theorem act_readies (h : 0 < (p.act cfg ch r).1.queued k ∨
      (p.act cfg ch r).2.readies = some k) :
    0 < r.queued k ∨ p.readies = some k ∨ (∃ record, p = .retrySave k record) ∨
      p.requeues = some k := by
  have hcall : ∀ {c : Call} {q : Point}, c.Owns q → (0 < r.queued k ∨ q.readies = some k) →
      0 < r.queued k ∨ some c.id = some k := fun howns h =>
    h.imp_right fun hq => congrArg some (readies_of_owns howns hq)
  have hpush : ∀ {j : JobId} {priority : Priority}, 0 < (r.lpush priority j).queued k →
      0 < r.queued k ∨ some j = some k := by
    intro j priority h
    by_cases hj : j = k
    · exact Or.inr (congrArg some hj)
    · rw [Redis.queued_lpush, if_neg hj] at h
      exact Or.inl h
  have hleft : (0 < r.queued k ∨ p.readies = some k) → 0 < r.queued k ∨ p.readies = some k ∨
      (∃ record, p = .retrySave k record) ∨ p.requeues = some k :=
    fun h => h.imp_right Or.inl
  have hfinish : ∀ {j : JobId} {retry : Option JobRecord},
      (afterFinish j retry).readies = some k → False := by
    intro j retry h
    cases retry <;> cases h
  cases p with
  | poll =>
    refine hleft (h.imp_right fun h => ?_)
    simp only [Point.act] at h
    split at h <;> cases h
  | pop priority rest =>
    rcases popped_cases r priority rest with hr | ⟨j, hj, hr⟩
    · rw [Point.act, hr] at h
      refine hleft (h.imp_right fun h => ?_)
      cases rest <;> cases h
    · rw [Point.act, hr] at h
      have hpos := r.queued_rpop priority j k hj
      refine Or.inl ?_
      rcases h with h | h
      · simp only at h
        omega
      · rw [if_pos (Option.some.inj h)] at hpos
        omega
  | load j | markLoad j record =>
    refine hleft (h.imp_right fun h => ?_)
    cases hr : r.job j <;> rw [Point.act, hr] at h <;> first | exact h | cases h
  | markAdd j record => exact hleft (h.imp_right fun h => by cases h)
  | run j record =>
    obtain ⟨outcome, retry, hr⟩ := execute_eq cfg ch j record
    rw [Point.act, hr] at h
    exact hleft (h.imp_right fun h => by cases h)
  | finishLoad j outcome retry =>
    refine hleft (h.imp_right fun h => ?_)
    cases hr : r.job j <;> rw [Point.act, hr] at h
    · exact (hfinish h).elim
    · cases h
  | finishRemove j retry => exact hleft (h.imp_right fun h => (hfinish h).elim)
  | retrySave j record =>
    rcases h with h | h
    · exact Or.inl h
    · obtain rfl := Option.some.inj h
      exact Or.inr (Or.inr (Or.inl ⟨record, rfl⟩))
  | retryPush j record =>
    rcases h with h | h
    · exact hleft (hpush h)
    · cases h
  | members =>
    refine hleft (h.imp_right fun h => ?_)
    rw [Point.act] at h
    cases hm : ch.members r <;> rw [hm] at h <;> cases h
  | recoverLoad j rest =>
    refine hleft (h.imp_right fun h => ?_)
    cases hr : r.job j with
    | none =>
      rw [Point.act, hr] at h
      cases h
    | some loaded =>
      by_cases hl : loaded.state = .running <;> simp only [Point.act, hr, Option.elim, hl] at h <;>
        cases h
  | recoverPush j rest loaded =>
    rcases h with h | h
    · exact (hpush h).imp_right fun h => Or.inr (Or.inr h)
    · cases h
  | recoverRemove j rest =>
    refine hleft (h.imp_right fun h => ?_)
    cases rest <;> cases h
  | lrange c priority rest found => exact hleft (hcall (c.owns_nextRange _ _) h)
  | smembers c found => exact hleft (hcall (c.owns_nextScan _) h)
  | hmget c j key rest => exact hleft (hcall (c.owns_scan cfg ch j key rest _) h)
  | pruneRemove c j priority rest =>
    have hrem := r.queued_lrem priority j k
    refine hleft (h.imp_left fun h => ?_)
    simp only [Point.act] at h
    omega
  | pruneSave c j removed rest => exact hleft (hcall (c.owns_nextScan rest) h)
  | push c =>
    rcases h with h | h
    · exact hleft (hpush h)
    · cases h
  | markSave _ _ _ | markExpire _ _ | retryExpire _ _ | save _ | expire _ => exact hleft h
  | finishSave _ _ _ _ | finishExpire _ _ | recoverSave _ _ _ | recoverExpire _ _ _ | recovered
  | done => exact hleft (h.imp_right fun h => by cases h)

theorem error_readies (h : p.error.readies = some k) : p.readies = some k := by
  have hp := (error_job k (job_of_readies h)).1
  cases p with
  | finishLoad j _ retry | finishSave j _ retry _ | finishExpire j retry | finishRemove j retry =>
    cases retry <;> cases h
  | lrange _ _ _ _ | smembers _ _ | hmget _ _ _ _ | pruneRemove _ _ _ _ | pruneSave _ _ _ _
  | expire _ => exact hp
  | _ => cases h

/-- A client starts a handler with the job ready, and then has it ready no more. -/
theorem act_runs (h : (p.act cfg ch r).2.runs = some k) :
    p.readies = some k ∧ (p.act cfg ch r).1.queued k = r.queued k ∧
      (p.act cfg ch r).1.job k = r.job k ∧ (p.act cfg ch r).2.readies = none := by
  have hrole : p.role = .loop := by
    rw [← act_role cfg ch r]
    revert h
    cases (p.act cfg ch r).2 <;> first | exact fun _ => rfl | exact fun h => by cases h
  cases p with
  | markLoad j record =>
    cases hr : r.job j with
    | none =>
      have hact : Point.act cfg ch r (.markLoad j record) = (r, .run j record) := by
        rw [Point.act, hr]
        rfl
      rw [hact] at h ⊢
      exact ⟨h, rfl, rfl, rfl⟩
    | some loaded =>
      simp only [Point.act, hr] at h
      cases h
  | markAdd j record => exact ⟨h, rfl, rfl, rfl⟩
  | poll =>
    simp only [Point.act] at h
    split at h <;> cases h
  | pop priority rest =>
    rcases popped_cases r priority rest with hr | ⟨j, -, hr⟩ <;> rw [Point.act, hr] at h
    · cases rest <;> cases h
    · cases h
  | load j =>
    cases hr : r.job j <;> rw [Point.act, hr] at h <;> cases h
  | run j record =>
    obtain ⟨outcome, retry, hr⟩ := execute_eq cfg ch j record
    rw [Point.act, hr] at h
    cases h
  | finishLoad j outcome retry =>
    cases hr : r.job j <;> rw [Point.act, hr] at h
    · cases retry <;> cases h
    · cases h
  | finishRemove j retry => cases retry <;> cases h
  | markSave _ _ _ | markExpire _ _ | finishSave _ _ _ _ | finishExpire _ _ | retrySave _ _
  | retryExpire _ _ | retryPush _ _ => cases h
  | _ => cases hrole

/-- A retry is enqueued within the budget. -/
theorem act_retries {record : JobRecord} (h : (p.act cfg ch r).2.retries = some record) :
    p.retries = some record ∨ record.retryCount + 1 < cfg.maxRetries := by
  have hfinish : ∀ {j : JobId} {retry : Option JobRecord},
      (afterFinish j retry).retries = some record → retry = some record := by
    intro j retry h
    cases retry with
    | none => cases h
    | some record => exact h
  have hrole : p.role = .loop := by
    rw [← act_role cfg ch r]
    revert h
    cases (p.act cfg ch r).2 <;> first | exact fun _ => rfl | exact fun h => by cases h
  cases p with
  | run j stored =>
    right
    simp only [Point.act, execute] at h
    split_ifs at h <;> cases h
    assumption
  | finishLoad j outcome retry =>
    left
    cases hr : r.job j <;> rw [Point.act, hr] at h
    · exact hfinish h
    · exact h
  | finishSave j outcome retry loaded => exact Or.inl h
  | finishExpire j retry => exact Or.inl h
  | finishRemove j retry => exact Or.inl (hfinish h)
  | poll =>
    simp only [Point.act] at h
    split at h <;> cases h
  | pop priority rest =>
    rcases popped_cases r priority rest with hr | ⟨j, -, hr⟩ <;> rw [Point.act, hr] at h
    · cases rest <;> cases h
    · cases h
  | load j | markLoad j stored =>
    cases hr : r.job j <;> rw [Point.act, hr] at h <;> cases h
  | markSave _ _ _ | markExpire _ _ | markAdd _ _ | retrySave _ _ | retryExpire _ _
  | retryPush _ _ => cases h
  | _ => cases hrole

theorem retries_of_owns {c : Call} (h : c.Owns p) : p.retries = none := by
  have hrole := h.role
  cases p <;> first | rfl | cases hrole

theorem job_of_retries {record : JobRecord} (h : p.retries = some record) : p.job ≠ none := by
  cases p <;> first | exact Option.some_ne_none _ | cases h

theorem error_retries {record : JobRecord} (h : p.error.retries = some record) :
    p.retries = some record := by
  cases p with
  | finishLoad j _ retry | finishSave j _ retry _ | finishExpire j retry | finishRemove j retry =>
    cases retry with
    | none => cases h
    | some record => exact h
  | lrange c _ _ _ | smembers c _ | hmget c _ _ _ =>
    rw [Point.error, retries_of_owns c.owns_absent] at h
    cases h
  | pruneRemove c _ _ rest | pruneSave c _ _ rest =>
    rw [Point.error, retries_of_owns (c.owns_nextScan rest)] at h
    cases h
  | expire c =>
    simp only [Point.error] at h
    split at h <;> cases h
  | _ => cases h

/-- A record comes into being with the enqueue of its job. -/
theorem act_new_record (h : r.job k = none) (hp : p.job = some k → p.fits (r.job k))
    {record : JobRecord} (hrecord : (p.act cfg ch r).1.job k = some record) :
    record.retryCount = 0 := by
  rcases act_job cfg ch r k p with heq | hjob | heq
  · rw [heq, h] at hrecord
    cases hrecord
  · have hfits := hp hjob
    rw [h] at hfits
    cases p with
    | save c =>
      simp only [Point.act, job_hset, if_pos (Option.some.inj hjob)] at hrecord
      rw [← Option.some.inj hrecord]
      rfl
    | pop _ _ => cases hjob
    | markSave _ _ _ | finishSave _ _ _ _ | retrySave _ _ | recoverSave _ _ _ =>
      obtain ⟨stored, hstored, -⟩ := hfits
      cases hstored
    | pruneSave c j removed rest =>
      simp only [Point.act, job_setState, h, Option.map_none, ite_self] at hrecord
      cases hrecord
    | _ =>
      rw [show (Point.act cfg ch r _).1.job k = r.job k from rfl, h] at hrecord
      cases hrecord
  · rw [heq, h] at hrecord
    cases hrecord

end

/-! ## The budget -/

namespace Indexed

/-- A client goes on to start the job's handler. -/
def begins (cfg : Config) (k : JobId) (s : System) : Action → Nat
  | .act i ch => (s.live[i]?).elim 0 fun c =>
    if c.owed.isEmpty ∧ (c.point.act cfg ch s.store.redis).2.runs = some k then 1 else 0
  | _ => 0

/-- A recovery puts the job back. -/
def requeues (k : JobId) (s : System) (a : Action) : Nat :=
  (effect s a).elim 0 fun c =>
    if c.owed.isEmpty ∧ c.point.requeues = some k then 1 else 0

/-- How often the job has been tried again. -/
def retryCount (s : System) (k : JobId) : Nat := (s.store.redis.job k).elim 0 JobRecord.retryCount

/-- The job may yet be run on what its budget says: it waits, a client has it ready, or
its id is not drawn yet. -/
def Ready (s : System) (k : JobId) : Prop :=
  s.nextId ≤ k ∨ 0 < s.store.redis.queued k ∨ ∃ c ∈ s.live, c.point.readies = some k

instance (s : System) (k : JobId) : Decidable (Ready s k) :=
  inferInstanceAs (Decidable (_ ∨ _ ∨ ∃ c ∈ s.live, _))

def budget (cfg : Config) : Nat := max 1 cfg.maxRetries

/-- How often the job may yet be run, if no recovery puts it back. -/
def remaining (cfg : Config) (k : JobId) (s : System) : Nat :=
  budget cfg - retryCount s k - if Ready s k then 0 else 1

structure Budgeted (cfg : Config) (k : JobId) (s : System) : Prop where
  queue : Inv k s.base
  carried : Carried k s.base
  stored : retryCount s k < budget cfg
  retries : ∀ c ∈ s.live, ∀ record ∈ c.point.retries, record.retryCount + 1 < cfg.maxRetries

section

variable {cfg : Config} {ch : Choice} {k : JobId} {s t : System} {c d : Client}
  {rest : List Client}

theorem retryCount_eq {record : JobRecord} (h : s.store.redis.job k = some record) :
    retryCount s k = record.retryCount := by
  rw [retryCount, h]
  rfl

variable (cfg ch) in
/-- A job's retry count changes when its retry is written, by one. -/
theorem retryCount_act (hcarried : Carried k s.base) (hc : c ∈ s.live)
    (hjob : t.store.redis.job k = (c.point.act cfg ch s.store.redis).1.job k) :
    retryCount t k = retryCount s k ∨ ∃ record, c.point = .retrySave k record ∧
      retryCount s k = record.retryCount ∧ retryCount t k = record.retryCount + 1 := by
  have hfits : c.point.job = some k → c.point.fits (s.store.redis.job k) :=
    hcarried.fits c.point (mem_base hc)
  cases hold : s.store.redis.job k with
  | none =>
    left
    have hzero : retryCount s k = 0 := by
      rw [retryCount, hold]
      rfl
    cases hnew : (c.point.act cfg ch s.store.redis).1.job k with
    | none =>
      rw [hzero, retryCount, hjob, hnew]
      rfl
    | some record =>
      rw [hzero, retryCount_eq (hjob.trans hnew)]
      exact act_new_record hold hfits hnew
  | some old =>
    obtain ⟨new, hnew, hbare | ⟨record, hp, hbare, rfl⟩⟩ :=
      act_record cfg ch s.store.redis k c.point hold hfits
    · left
      rw [retryCount_eq (hjob.trans hnew), retryCount_eq hold]
      exact (eq_of_bare hbare).2.2
    · right
      refine ⟨record, hp, ?_, retryCount_eq (hjob.trans hnew)⟩
      rw [retryCount_eq hold]
      exact (eq_of_bare hbare).2.2

theorem Still.retryCount (h : Still s t) : retryCount t k = Indexed.retryCount s k := by
  rw [Indexed.retryCount, h.job]
  rfl

theorem error_readies_client (h : c.error.point.readies = some k) : c.point.readies = some k := by
  rcases error_cases c with he | ⟨-, he⟩ <;> rw [he] at h
  · exact h
  · exact error_readies h

theorem error_retries_client {record : JobRecord} (h : record ∈ c.error.point.retries) :
    record ∈ c.point.retries := by
  rcases error_cases c with he | ⟨-, he⟩ <;> rw [he] at h
  · exact h
  · exact error_retries h

theorem Client.Blank.not_readies (h : c.Blank) : c.point.readies ≠ some k := by
  intro hk
  have hjob := job_of_readies hk
  rw [h.job] at hjob
  cases hjob

theorem Client.Blank.not_retries (h : c.Blank) {record : JobRecord} :
    record ∉ c.point.retries := fun hr => job_of_retries hr h.job

theorem Budgeted.step (h : Budgeted cfg k s) (a : Action) : Budgeted cfg k (Indexed.step cfg s a) := by
  obtain ⟨hinv, hcarried⟩ := base_keeps cfg ⟨h.queue, h.carried⟩ a
  rcases change cfg s a with ⟨gone, new, rest, hstill, before, after, -, hnew, -⟩ |
    ⟨call, hid, hstill, after, -, -⟩ | ⟨c, rest, hstill, before, after, -, -, -⟩ |
    ⟨c, d, ch, rest, before, after, store, -, -, -, hd⟩
  · refine ⟨hinv, hcarried, hstill.retryCount ▸ h.stored, fun d hd record hr => ?_⟩
    rcases List.mem_append.mp (after.mem_iff.mp hd) with hd | hd
    · exact absurd hr (hnew d hd).not_retries
    · exact h.retries d (before.mem_iff.mpr (List.mem_append_right _ hd)) record hr
  · refine ⟨hinv, hcarried, hstill.retryCount ▸ h.stored, fun d hd record hr => ?_⟩
    rw [after] at hd
    rcases List.mem_cons.mp hd with rfl | hd
    · rw [Client.of, retries_of_owns call.owns_begin] at hr
      cases hr
    · exact h.retries d hd record hr
  · refine ⟨hinv, hcarried, hstill.retryCount ▸ h.stored, fun d hd record hr => ?_⟩
    rcases List.mem_cons.mp (after.mem_iff.mp hd) with rfl | hd
    · exact h.retries c (before.mem_iff.mpr List.mem_cons_self) record (error_retries_client hr)
    · exact h.retries d (before.mem_iff.mpr (List.mem_cons_of_mem c hd)) record hr
  · have hmem : c ∈ s.live := before.mem_iff.mpr List.mem_cons_self
    have hrest : ∀ x ∈ rest, ∀ record ∈ x.point.retries, record.retryCount + 1 < cfg.maxRetries :=
      fun x hx => h.retries x (before.mem_iff.mpr (List.mem_cons_of_mem c hx))
    cases hc : c.owed with
    | cons listing owed =>
      have hact := act_owed cfg ch (s := s) hc
      rw [hact] at store hd
      have hpoint : d.point = c.point := by
        rcases hd with ⟨-, rfl, -⟩ | ⟨-, rfl, -⟩
        · rfl
        · rw [point_error, hc, if_neg (List.cons_ne_nil _ _)]
      refine ⟨hinv, hcarried, ?_, fun x hx record hr => ?_⟩
      · rw [retryCount, store]
        exact h.stored
      · rcases List.mem_cons.mp (after.mem_iff.mp hx) with rfl | hx
        · exact h.retries c hmem record (hpoint ▸ hr)
        · exact hrest x hx record hr
    | nil =>
      have hact := act_point cfg ch (s := s) hc
      rw [hact] at store hd
      refine ⟨hinv, hcarried, ?_, fun x hx record hr => ?_⟩
      · rcases retryCount_act cfg ch h.carried hmem
          (congrArg (fun x : Store => x.redis.job k) store) with heq | ⟨record, hp, -, heq⟩
        · rw [heq]
          exact h.stored
        · have hlt := h.retries c hmem record (by rw [hp]; rfl)
          rw [heq, budget]
          omega
      · rcases List.mem_cons.mp (after.mem_iff.mp hx) with rfl | hx
        · rcases hd with ⟨-, rfl, -⟩ | ⟨-, rfl, -⟩
          · rw [point_next] at hr
            exact (act_retries hr).elim (h.retries c hmem record) id
          · exact h.retries c hmem record (error_retries_client hr)
        · exact hrest x hx record hr

/-! ### What a step spends -/

variable (cfg) in
theorem remaining_le (hcount : retryCount t k = retryCount s k)
    (hready : Ready t k → Ready s k) : remaining cfg k t ≤ remaining cfg k s := by
  rw [remaining, remaining, hcount]
  refine Nat.sub_le_sub_left ?_ _
  by_cases ht : Ready t k
  · rw [if_pos (hready ht)]
    exact Nat.zero_le _
  · rw [if_neg ht]
    split <;> decide

theorem ready_still (hstill : Still s t)
    (hlive : ∀ d ∈ t.live, d.point.readies = some k → Ready s k) (h : Ready t k) : Ready s k := by
  rcases h with hk | hqueued | ⟨d, hd, hready⟩
  · exact Or.inl (Nat.le_trans hstill.nextId hk)
  · rw [hstill.queued] at hqueued
    exact Or.inr (Or.inl hqueued)
  · exact hlive d hd hready

theorem begins_eq_zero {a : Action} (h : ∀ ch, ∀ c ∈ effect s a, c.owed = [] →
    (c.point.act cfg ch s.store.redis).2.runs ≠ some k) : begins cfg k s a = 0 := by
  cases a with
  | act i ch =>
    cases hi : s.live[i]? with
    | none => rw [begins, hi, Option.elim]
    | some c =>
      rw [begins, hi, Option.elim, if_neg]
      rintro ⟨hc, hruns⟩
      exact h ch c hi (List.isEmpty_iff.mp hc) hruns
  | _ => rfl

variable (cfg ch) in
theorem retryCount_retry (hcarried : Carried k s.base) (hc : c ∈ s.live) {record : JobRecord}
    (hp : c.point = .retrySave k record)
    (hjob : t.store.redis.job k = (c.point.act cfg ch s.store.redis).1.job k) :
    retryCount t k = retryCount s k + 1 := by
  have hfits := hcarried.fits c.point (mem_base hc) (by rw [hp]; rfl)
  rw [hp] at hfits hjob
  obtain ⟨stored, hstored, hcopies⟩ := hfits
  have hstored' : s.store.redis.job k = some stored := hstored
  simp only [Point.act, job_hset, if_pos] at hjob
  rw [retryCount_eq hjob, retryCount_eq hstored', (eq_of_bare (hcopies record List.mem_cons_self)).2.2]
  rfl

section Sends

variable (hs : Sends cfg ch s t c d rest)
include hs

theorem Sends.job : t.store.redis.job k = (c.point.act cfg ch s.store.redis).1.job k := by
  rw [hs.redis]

theorem Sends.readies (hnext : t.nextId = s.nextId) (h : Ready t k) :
    Ready s k ∨ (∃ record, c.point = .retrySave k record) ∨ c.point.requeues = some k := by
  have hact : (0 < (c.point.act cfg ch s.store.redis).1.queued k ∨
      (c.point.act cfg ch s.store.redis).2.readies = some k) → Ready s k ∨
      (∃ record, c.point = .retrySave k record) ∨ c.point.requeues = some k := by
    intro h
    rcases act_readies h with hqueued | hready | hother
    · exact Or.inl (Or.inr (Or.inl hqueued))
    · exact Or.inl (Or.inr (Or.inr ⟨c, hs.mem, hready⟩))
    · exact Or.inr hother
  rcases h with hk | hqueued | ⟨x, hx, hready⟩
  · exact Or.inl (Or.inl (hnext ▸ hk))
  · rw [hs.redis] at hqueued
    exact hact (Or.inl hqueued)
  · rcases List.mem_cons.mp (hs.after.mem_iff.mp hx) with rfl | hx
    · rcases hs.point with hp | ⟨rfl, -⟩
      · exact hact (Or.inr (hp ▸ hready))
      · exact Or.inl (Or.inr (Or.inr ⟨c, hs.mem, error_readies_client hready⟩))
    · exact Or.inl (Or.inr (Or.inr
        ⟨x, hs.before.mem_iff.mpr (List.mem_cons_of_mem c hx), hready⟩))

/-- The client that starts the handler has had the job alone. -/
theorem Sends.runs (h : Budgeted cfg k s) (hnext : t.nextId = s.nextId)
    (hd : d = (c.act cfg ch s.store).2)
    (hruns : (c.point.act cfg ch s.store.redis).2.runs = some k) :
    Ready s k ∧ ¬ Ready t k ∧ retryCount t k = retryCount s k := by
  obtain ⟨hready, hqueued, hjob, hnone⟩ := act_runs hruns
  have hpjob := job_of_readies hready
  have hperm : s.base.live.Perm (c.point :: rest.map Client.point) := hs.before.map Client.point
  obtain ⟨hzero, hrest⟩ := (h.queue.perm hperm).held rfl hpjob
  refine ⟨Or.inr (Or.inr ⟨c, hs.mem, hready⟩), ?_, ?_⟩
  · rintro (hk | hpos | ⟨x, hx, hxready⟩)
    · rw [hnext] at hk
      exact (h.queue.fresh hk).2.2.2 c.point (mem_base hs.mem) hpjob
    · rw [hs.redis, hqueued] at hpos
      exact Nat.lt_irrefl 0 (hzero ▸ hpos)
    · rcases List.mem_cons.mp (hs.after.mem_iff.mp hx) with rfl | hx
      · rw [hd, act_point _ _ hs.owed, point_next, hnone] at hxready
        cases hxready
      · exact hrest x.point (List.mem_map_of_mem hx) (job_of_readies hxready)
  · rw [retryCount, hs.job, hjob]
    rfl

end Sends

theorem requeues_eq_one {a : Action} (heffect : effect s a = some c) (hc : c.owed = [])
    (h : c.point.requeues = some k) : requeues k s a = 1 := by
  rw [requeues, heffect, Option.elim, if_pos ⟨List.isEmpty_iff.mpr hc, h⟩]

/-- The command of a client that acts. -/
theorem spends_act (h : Budgeted cfg k s) {a : Action} (hs : Sends cfg ch s t c d rest)
    (hnext : t.nextId = s.nextId) (heffect : effect s a = some c)
    (hd : (∃ i, a = .act i ch) ∧ d = (c.act cfg ch s.store).2 ∨
      (∃ i, a = .fail i true ch) ∧ d = c.error) :
    begins cfg k s a + remaining cfg k t ≤ remaining cfg k s + requeues k s a := by
  have hcount := retryCount_act cfg ch h.carried hs.mem hs.job
  have hstored := h.stored
  by_cases hruns : (∃ i, a = .act i ch) ∧ (c.point.act cfg ch s.store.redis).2.runs = some k
  · obtain ⟨⟨i, rfl⟩, hruns⟩ := hruns
    have hnew : d = (c.act cfg ch s.store).2 := by
      rcases hd with ⟨-, hd⟩ | ⟨⟨j, hj⟩, -⟩
      · exact hd
      · cases hj
    obtain ⟨hs', ht, hsame⟩ := hs.runs h hnext hnew hruns
    have hone : begins cfg k s (.act i ch) = 1 := by
      rw [begins, show s.live[i]? = some c from heffect, Option.elim,
        if_pos ⟨List.isEmpty_iff.mpr hs.owed, hruns⟩]
    rw [hone, remaining, remaining, if_pos hs', if_neg ht, hsame]
    omega
  · have hzero : begins cfg k s a = 0 := by
      rcases hd with ⟨⟨i, rfl⟩, -⟩ | ⟨⟨i, rfl⟩, -⟩
      · rw [begins, show s.live[i]? = some c from heffect, Option.elim, if_neg]
        exact fun hboth => hruns ⟨⟨i, rfl⟩, hboth.2⟩
      · rfl
    have hgrows : retryCount s k ≤ retryCount t k := by
      rcases hcount with heq | ⟨record, -, hs', ht⟩ <;> omega
    rw [hzero, remaining, remaining]
    by_cases ht : Ready t k
    · rw [if_pos ht]
      rcases hs.readies hnext ht with hs' | ⟨record, hp⟩ | hrequeues
      · rw [if_pos hs']
        omega
      · have hretry := retryCount_retry cfg ch h.carried hs.mem hp hs.job
        rw [hretry]
        split <;> omega
      · rw [requeues_eq_one heffect hs.owed hrequeues]
        split <;> omega
    · rw [if_neg ht]
      split <;> omega

theorem spends (h : Budgeted cfg k s) (a : Action) :
    begins cfg k s a + remaining cfg k (Indexed.step cfg s a) ≤
      remaining cfg k s + requeues k s a := by
  have hquiet : ∀ {t : System}, Still s t → begins cfg k s a = 0 →
      (∀ d ∈ t.live, d.point.readies = some k → Ready s k) →
      begins cfg k s a + remaining cfg k t ≤ remaining cfg k s + requeues k s a := by
    intro t hstill hzero hlive
    have hle := remaining_le cfg hstill.retryCount (ready_still hstill hlive)
    rw [hzero]
    omega
  have hold : ∀ {x : Client}, x ∈ s.live → x.point.readies = some k → Ready s k :=
    fun hx hready => Or.inr (Or.inr ⟨_, hx, hready⟩)
  have hnone : effect s a = none → begins cfg k s a = 0 := fun heffect =>
    begins_eq_zero fun _ c hc => by rw [heffect] at hc; cases hc
  rcases change cfg s a with ⟨gone, new, rest, hstill, before, after, -, hnew, heffect⟩ |
    ⟨call, hid, hstill, after, -, heffect⟩ | ⟨c, rest, hstill, before, after, -, -, heffect⟩ |
    ⟨c, d, ch, rest, before, after, store, -, hnext, heffect, hd⟩
  · refine hquiet hstill (begins_eq_zero fun ch c hc _ => ?_) fun d hd hready => ?_
    · rw [(heffect c hc).1]
      nofun
    · rcases List.mem_append.mp (after.mem_iff.mp hd) with hd | hd
      · exact absurd hready (hnew d hd).not_readies
      · exact hold (before.mem_iff.mpr (List.mem_append_right _ hd)) hready
  · refine hquiet hstill (hnone heffect) fun d hd hready => ?_
    rw [after] at hd
    rcases List.mem_cons.mp hd with rfl | hd
    · exact Or.inl (Nat.le_of_eq (hid.symm.trans (readies_of_owns call.owns_begin hready)))
    · exact hold hd hready
  · refine hquiet hstill (hnone heffect) fun d hd hready => ?_
    rcases List.mem_cons.mp (after.mem_iff.mp hd) with rfl | hd
    · exact hold (before.mem_iff.mpr List.mem_cons_self) (error_readies_client hready)
    · exact hold (before.mem_iff.mpr (List.mem_cons_of_mem c hd)) hready
  · cases hc : c.owed with
    | nil =>
      have hs : Sends cfg ch s (Indexed.step cfg s a) c d rest :=
        ⟨before, after, hc, store, hd.imp (fun h => h.2.1) fun h => h.2.1⟩
      exact spends_act h hs hnext heffect
        (hd.imp (fun h => ⟨h.1, h.2.1⟩) fun h => ⟨h.1, h.2.1⟩)
    | cons listing owed =>
      -- an entry of the index starts nothing
      have hact := act_owed cfg ch (s := s) hc
      rw [hact] at store hd
      have hpoint : d.point = c.point := by
        rcases hd with ⟨-, rfl, -⟩ | ⟨-, rfl, -⟩
        · rfl
        · rw [point_error, hc, if_neg (List.cons_ne_nil _ _)]
      have hzero : begins cfg k s a = 0 := by
        refine begins_eq_zero fun _ x hx hxc => ?_
        obtain rfl := Option.some.inj (heffect.symm.trans hx)
        rw [hc] at hxc
        cases hxc
      have hredis : (Indexed.step cfg s a).store.redis = s.store.redis := by rw [store]
      have hle : remaining cfg k (Indexed.step cfg s a) ≤ remaining cfg k s := by
        refine remaining_le _ (by rw [retryCount, hredis]; rfl) ?_
        rintro (hk | hqueued | ⟨x, hx, hready⟩)
        · exact Or.inl (hnext ▸ hk)
        · rw [hredis] at hqueued
          exact Or.inr (Or.inl hqueued)
        · rcases List.mem_cons.mp (after.mem_iff.mp hx) with rfl | hx
          · exact hold (before.mem_iff.mpr List.mem_cons_self) (hpoint ▸ hready)
          · exact hold (before.mem_iff.mpr (List.mem_cons_of_mem c hx)) hready
      rw [hzero]
      omega

end

theorem budgeted_init (cfg : Config) (k : JobId) : Budgeted cfg k .init where
  queue := inv_init
  carried := carried_init k
  stored := Nat.lt_of_lt_of_le Nat.zero_lt_one (Nat.le_max_left 1 cfg.maxRetries)
  retries _ h := absurd h List.not_mem_nil

/-- A job is run as often as its budget allows, and once more for each time that a
recovery puts it back. -/
theorem begins_le (cfg : Config) (k : JobId) (actions : List Action) :
    costAlong (step cfg) (begins cfg k) .init actions ≤
      budget cfg + costAlong (step cfg) (requeues k) .init actions := by
  have hpaid := costAlong_le (step cfg) (begins cfg k) (requeues k)
    (remaining cfg k) (Budgeted cfg k) (fun _ a h => h.step a) (fun _ a h => spends h a)
    (budgeted_init cfg k) actions
  have hinit : remaining cfg k .init ≤ budget cfg :=
    Nat.le_trans (Nat.sub_le _ _) (Nat.sub_le _ _)
  omega

end Indexed

end Cerid.Processor
