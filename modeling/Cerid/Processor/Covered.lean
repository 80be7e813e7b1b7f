import Cerid.Processor.Carried

/-!
# A call that is collapsed

`find_active_job_id` lists the pending jobs and the running ones and then looks at
each record, so by the time a call is collapsed onto a job the job may have been
taken, and a job that runs may have read the state before the call came in.  What
holds is what the scan saw: since the call began, a job of the same type and
identity was in a pending list, its marker not stale, or in the running set.
-/

namespace Cerid.Processor

/-- Where a scan meets a job: in a pending list, or in the running set. -/
def Redis.Shows (r : Redis) (j : JobId) : Option Priority → Prop
  | some p => j ∈ r.queue p
  | none => j ∈ r.running

instance (r : Redis) (j : JobId) (key : Option Priority) : Decidable (r.Shows j key) := by
  cases key <;> exact inferInstanceAs (Decidable (_ ∈ _))

/-- The ids that a scan has listed and not yet looked at. -/
def Point.found : Point → List (JobId × Option Priority)
  | .lrange _ _ _ found | .smembers _ found => found
  | .hmget _ j key rest => (j, key) :: rest
  | .pruneRemove _ _ _ rest | .pruneSave _ _ _ rest => rest
  | _ => []

/-- The point belongs to the call, if to any, and goes on with ids of `found`. -/
structure Call.Scans (c : Call) (found : List (JobId × Option Priority)) (p : Point) : Prop where
  call : ∀ c' ∈ p.call, c' = c
  found : ∀ e ∈ p.found, e ∈ found

section

variable {cfg : Config} {ch : Choice} {r : Redis} {c : Call} {p : Point}
  {found rest : List (JobId × Option Priority)}

theorem Call.scans_done : c.Scans found .done where
  call _ hc := by cases hc
  found _ he := absurd he List.not_mem_nil

theorem Call.scans_save : c.Scans found (.save c) where
  call _ hc := (Option.some.inj hc).symm
  found _ he := absurd he List.not_mem_nil

theorem Call.scans_absent : c.Scans found c.absent := by
  cases he : c.entry with
  | findActiveJobId =>
    rw [Call.absent, he]
    exact scans_done
  | _ =>
    simp only [Call.absent, he]
    exact scans_save

theorem Call.scans_nextScan : c.Scans found (nextScan c found) := by
  cases found with
  | nil => exact scans_absent
  | cons e rest => exact ⟨fun _ hc => (Option.some.inj hc).symm, fun _ he => he⟩

theorem Call.scans_nextRange (l : List Priority) : c.Scans found (nextRange c found l) := by
  cases l <;> exact ⟨fun _ hc => (Option.some.inj hc).symm, fun _ he => he⟩

theorem Call.scans_begin : c.Scans [] c.begin := by
  unfold Call.begin
  split
  · exact scans_save
  · exact scans_save
  all_goals exact scans_nextRange priorityOrder

theorem Call.scans_scan (j : JobId) (key : Option Priority) (stored : Option JobRecord) :
    c.Scans rest (scan cfg ch c j key rest stored) := by
  rcases scan_cases j key rest stored with h | ⟨p, h⟩ | ⟨h, -⟩ <;> rw [h]
  · exact scans_nextScan
  · exact ⟨fun _ hc => (Option.some.inj hc).symm, fun _ he => he⟩
  · exact scans_done

theorem Call.Scans.step (h : c.Scans found p) {c' : Call} (hc : c' ∈ p.call) {q : Point}
    (hq : q.call = some c) (hfound : ∀ e ∈ found, e ∈ q.found ∨ r.Shows e.1 e.2) :
    c' ∈ q.call ∧ ∀ e ∈ p.found, e ∈ q.found ∨ r.Shows e.1 e.2 := by
  obtain rfl := h.call c' hc
  exact ⟨hq, fun e he => hfound e (h.found e he)⟩

/-- A command lists what stands where the scan looks. -/
theorem act_found (cfg : Config) (ch : Choice) (r : Redis) (p : Point) {c : Call}
    (hc : c ∈ (p.act cfg ch r).2.call) :
    c ∈ p.call ∧ ∀ e ∈ (p.act cfg ch r).2.found, e ∈ p.found ∨ r.Shows e.1 e.2 := by
  have hrole : p.role = .caller := by
    rw [← act_role cfg ch r]
    revert hc
    cases (p.act cfg ch r).2 <;> first | exact fun _ => rfl | exact fun hc => by cases hc
  cases p with
  | lrange c p rest found =>
    refine (Call.scans_nextRange rest).step hc rfl fun e he => ?_
    rcases List.mem_append.mp he with he | he
    · exact Or.inl he
    · obtain ⟨j, hj, rfl⟩ := List.mem_map.mp he
      exact Or.inr hj
  | smembers c found =>
    refine Call.scans_nextScan.step hc rfl fun e he => ?_
    rcases List.mem_append.mp he with he | he
    · exact Or.inl he
    · obtain ⟨j, hj, rfl⟩ := List.mem_map.mp he
      exact Or.inr ((ch.members_perm r).mem_iff.mp hj)
  | hmget c j key rest =>
    refine (Call.scans_scan j key (r.job j)).step hc rfl fun e he => ?_
    exact Or.inl (List.mem_cons_of_mem _ he)
  | pruneRemove c j p rest => exact ⟨hc, fun e he => Or.inl he⟩
  | pruneSave c j removed rest => exact Call.scans_nextScan.step hc rfl fun e he => Or.inl he
  | save c | expire c => exact ⟨hc, fun e he => Or.inl he⟩
  | push c | done => cases hc
  | _ => cases hrole

theorem error_found {p : Point} {c : Call} (hc : c ∈ p.error.call) :
    c ∈ p.call ∧ ∀ e ∈ p.error.found, e ∈ p.found := by
  have hback : ∀ {c' : Call} {q : Point}, c'.Scans p.found q → p.call = some c' → c ∈ q.call →
      c ∈ p.call ∧ ∀ e ∈ q.found, e ∈ p.found := by
    intro c' q h hp hq
    obtain rfl := h.call c hq
    exact ⟨hp, h.found⟩
  have hafter : ∀ j retry, (afterFinish j retry).call = none := by
    intro j retry
    cases retry <;> rfl
  cases p with
  | finishLoad j _ retry | finishSave j _ retry _ | finishExpire j retry | finishRemove j retry =>
    rw [Point.error, hafter] at hc
    cases hc
  | lrange c _ _ _ | smembers c _ | hmget c _ _ _ => exact hback Call.scans_absent rfl hc
  | pruneRemove c _ _ rest | pruneSave c _ _ rest => exact hback Call.scans_nextScan rfl hc
  | expire c =>
    simp only [Point.error] at hc ⊢
    split at hc
    all_goals first | exact ⟨hc, fun e he => he⟩ | cases hc
  | _ => cases hc

end

/-! ## Runs -/

/-- At some moment since the call came in, the job stood where the scan says. -/
def Seen (cfg : Config) (actions : List Action) (c : Call) (e : JobId × Option Priority) : Prop :=
  ∃ before after, actions = before ++ after ∧ c.id < (run cfg before).nextId ∧
    (run cfg before).redis.Shows e.1 e.2

theorem Seen.snoc {cfg : Config} {actions : List Action} {c : Call} {e : JobId × Option Priority}
    (h : Seen cfg actions c e) (a : Action) : Seen cfg (actions ++ [a]) c e := by
  obtain ⟨before, after, rfl, hid, hshows⟩ := h
  exact ⟨before, after ++ [a], List.append_assoc before after [a], hid, hshows⟩

theorem run_snoc (cfg : Config) (actions : List Action) (a : Action) :
    run cfg (actions ++ [a]) = step cfg (run cfg actions) a := by
  rw [run, List.foldl_append]
  rfl

theorem found_seen (cfg : Config) (actions : List Action) : ∀ p ∈ (run cfg actions).live,
    ∀ c ∈ p.call, c.id < (run cfg actions).nextId ∧ ∀ e ∈ p.found, Seen cfg actions c e := by
  induction actions using List.reverseRecOn with
  | nil => exact fun p hp => absurd hp List.not_mem_nil
  | append_singleton actions a ih =>
    intro q hq c hc
    have hnow : ∀ {e : JobId × Option Priority}, c.id < (run cfg actions).nextId →
        (run cfg actions).redis.Shows e.1 e.2 → Seen cfg (actions ++ [a]) c e :=
      fun hid hshows => ⟨actions, [a], rfl, hid, hshows⟩
    rw [run_snoc] at hq ⊢
    rcases step_cases cfg (run cfg actions) a with
      ⟨hquiet, -⟩ | ⟨p, ch, q', rest, -, hacts, hq'⟩
    · rcases hquiet.live q hq with hold | ⟨-, hnone, -⟩ | ⟨c', hid, hnext, rfl⟩ | ⟨p, hp, rfl⟩
      · obtain ⟨hid, hseen⟩ := ih q hold c hc
        exact ⟨Nat.lt_of_lt_of_le hid hquiet.nextId, fun e he => (hseen e he).snoc a⟩
      · rw [hnone] at hc
        cases hc
      · obtain rfl := Call.scans_begin.call c hc
        refine ⟨hid ▸ hnext, fun e he => ?_⟩
        exact absurd (Call.scans_begin.found e he) List.not_mem_nil
      · obtain ⟨hc', hfound⟩ := error_found hc
        obtain ⟨hid, hseen⟩ := ih p hp c hc'
        exact ⟨Nat.lt_of_lt_of_le hid hquiet.nextId, fun e he => (hseen e (hfound e he)).snoc a⟩
    · rw [hacts.nextId]
      rcases List.mem_cons.mp (hacts.after.mem_iff.mp hq) with rfl | hrest
      · rcases hq' with ⟨-, rfl⟩ | ⟨-, rfl⟩
        · obtain ⟨hc', hfound⟩ := act_found cfg ch _ p hc
          obtain ⟨hid, hseen⟩ := ih p hacts.mem c hc'
          refine ⟨hid, fun e he => ?_⟩
          rcases hfound e he with he | hshows
          · exact (hseen e he).snoc a
          · exact hnow hid hshows
        · obtain ⟨hc', hfound⟩ := error_found hc
          obtain ⟨hid, hseen⟩ := ih p hacts.mem c hc'
          exact ⟨hid, fun e he => (hseen e (hfound e he)).snoc a⟩
      · obtain ⟨hid, hseen⟩ := ih q (hacts.mem_rest hrest) c hc
        exact ⟨hid, fun e he => (hseen e he).snoc a⟩

/-! ## A call returns -/

/-- The call returns with the `i`-th client's command. -/
def Returns (cfg : Config) (s : System) (i : Nat) (ch : Choice) (c : Call) : Prop :=
  ∃ p, s.live[i]? = some p ∧ p.call = some c ∧ (p.act cfg ch s.redis).2 = .done

theorem duplicates_congr {c : Call} {a b : JobRecord} (htype : a.jobType = b.jobType)
    (hpayload : a.payload = b.payload) : c.duplicates a = c.duplicates b := by
  simp only [Call.duplicates, htype, hpayload]

theorem done_nextScan {c : Call} {found : List (JobId × Option Priority)}
    (h : nextScan c found = .done) : c.entry = .findActiveJobId := by
  cases found with
  | nil =>
    cases he : c.entry with
    | findActiveJobId => rfl
    | _ => simp [nextScan, Call.absent, he] at h
  | cons e rest => cases h

theorem done_nextRange {c : Call} {found : List (JobId × Option Priority)} (l : List Priority) :
    nextRange c found l ≠ .done := by
  cases l <;> nofun

/-- An enqueue returns by its push, or by a scan that has found its job. -/
theorem returns_cases {cfg : Config} {s : System} {i : Nat} {ch : Choice} {c : Call}
    (h : Returns cfg s i ch c) (hentry : c.entry ≠ .findActiveJobId) :
    s.live[i]? = some (.push c) ∨ ∃ j key rest, s.live[i]? = some (.hmget c j key rest) ∧
      ∃ record ∈ s.redis.job j, c.duplicates record = true ∧
        ∀ p ∈ key, isStalePending cfg ch.now record.enqueuedAt = false := by
  obtain ⟨p, hi, hc, hdone⟩ := h
  cases p with
  | push c' =>
    obtain rfl := Option.some.inj hc
    exact Or.inl hi
  | hmget c' j key rest =>
    obtain rfl := Option.some.inj hc
    refine Or.inr ⟨j, key, rest, hi, ?_⟩
    rcases scan_cases j key rest (s.redis.job j) with he | ⟨p, he⟩ | ⟨-, hfound⟩
    · exact absurd (done_nextScan (he.symm.trans hdone)) hentry
    · cases he.symm.trans hdone
    · exact hfound
  | lrange c' p rest found => exact absurd hdone (done_nextRange rest)
  | smembers c' found | pruneSave c' j removed rest =>
    obtain rfl := Option.some.inj hc
    exact absurd (done_nextScan hdone) hentry
  | pruneRemove c' j p rest | save c' | expire c' => cases hdone
  | _ => cases hc

/-- Where a scan meets a job, the job has a record. -/
theorem recorded_of_shows (cfg : Config) (actions : List Action) {j : JobId}
    {key : Option Priority} (h : (run cfg actions).redis.Shows j key) :
    ∃ record, (run cfg actions).redis.job j = some record := by
  cases key with
  | none => exact (carried_run cfg j actions).marked h
  | some p =>
    refine (inv_run cfg actions).recorded_of_queued ((Redis.queued_pos _ _).mpr ⟨p, ?_, h⟩)
    cases p <;> simp [priorityOrder]

/-- An enqueue that returns has just put its own job into a pending list, or since it
came in a job of the same type and identity was in a pending list, its marker not
stale, or in the running set. -/
theorem returns_covered (cfg : Config) (actions : List Action) (i : Nat) (ch : Choice) (c : Call)
    (hreturns : Returns cfg (run cfg actions) i ch c) (hentry : c.entry ≠ .findActiveJobId) :
    c.id ∈ (run cfg (actions ++ [.act i ch])).redis.queue c.priority ∨
      ∃ before after j key, actions = before ++ after ∧ c.id < (run cfg before).nextId ∧
        (run cfg before).redis.Shows j key ∧
        (∃ record ∈ (run cfg before).redis.job j, c.duplicates record = true) ∧
        ∃ record ∈ (run cfg actions).redis.job j,
          ∀ p ∈ key, isStalePending cfg ch.now record.enqueuedAt = false := by
  rcases returns_cases hreturns hentry with hi | ⟨j, key, rest, hi, new, hnew, hdup, hfresh⟩
  · left
    have hstep : step cfg (run cfg actions) (.act i ch) =
        (run cfg actions).command cfg ch i (.push c) := by
      simp only [step, hi]
    rw [run_snoc, hstep]
    simp [System.command, Point.act, Redis.lpush]
  · right
    have hmem := List.mem_of_getElem? hi
    obtain ⟨-, hseen⟩ := found_seen cfg actions _ hmem c rfl
    obtain ⟨before, after, rfl, hid, hshows⟩ := hseen (j, key) List.mem_cons_self
    obtain ⟨old, hold⟩ := recorded_of_shows cfg before hshows
    obtain ⟨new', hnew', htype, hpayload⟩ := record_stays cfg before after hold
    obtain rfl := Option.some.inj (hnew'.symm.trans hnew)
    refine ⟨before, after, j, key, rfl, hid, hshows, ⟨old, hold, ?_⟩, new', hnew, hfresh⟩
    rw [← duplicates_congr htype hpayload]
    exact hdup

/-- A job is enqueued, and a loop takes it and runs it. -/
def taken : List Action :=
  .call .enqueueJob "digest_run" .low .empty false 0 :: List.replicate 3 nextCommand ++
    .start :: List.replicate 11 nextCommand

/-- A call for the same job, which scans while the job runs. -/
def calledAgain : List Action :=
  taken ++ .call (.enqueueJobIfAbsent none) "digest_run" .low .empty false 0 ::
    List.replicate 4 nextCommand

def secondCall : Call where
  entry := .enqueueJobIfAbsent none
  id := 1
  jobType := "digest_run"
  priority := .low
  payload := .empty
  requiresLlm := false
  enqueuedAt := 0

def sampleChoice : Choice :=
  { now := 0, order := [], instantiates := true, hold := false, succeeds := true }

theorem calledAgain_returns : Returns sampleConfig (run sampleConfig calledAgain) 0 sampleChoice
    secondCall :=
  ⟨.hmget secondCall 0 none [], rfl, rfl, rfl⟩

theorem returns_covered_running :
    secondCall.id ∈ (run sampleConfig (calledAgain ++ [.act 0 sampleChoice])).redis.queue .low ∨
      ∃ before after j key, calledAgain = before ++ after ∧
        secondCall.id < (run sampleConfig before).nextId ∧
        (run sampleConfig before).redis.Shows j key ∧
        (∃ record ∈ (run sampleConfig before).redis.job j, secondCall.duplicates record = true) ∧
        ∃ record ∈ (run sampleConfig calledAgain).redis.job j,
          ∀ p ∈ key, isStalePending sampleConfig 0 record.enqueuedAt = false :=
  returns_covered sampleConfig calledAgain 0 sampleChoice secondCall calledAgain_returns nofun

/-- A job of the same type and identity waits, or the call's own has been handed over. -/
def Awaited (s : System) (c : Call) : Prop :=
  (∃ j, 0 < s.redis.queued j ∧ ∃ record ∈ s.redis.job j, c.duplicates record = true) ∨
    c.id ∈ s.accepted

/-- The call is collapsed onto the job that runs, and nothing waits. -/
theorem not_returns_awaited :
    ¬ ∀ cfg actions i ch c, Returns cfg (run cfg actions) i ch c → c.entry ≠ .findActiveJobId →
      Awaited (run cfg (actions ++ [.act i ch])) c := by
  intro h
  rcases h sampleConfig calledAgain 0 sampleChoice secondCall calledAgain_returns nofun with
    ⟨j, hj, -⟩ | haccepted
  · obtain ⟨p, -, hp⟩ := (Redis.queued_pos _ _).mp hj
    have hempty : ∀ p, (run sampleConfig (calledAgain ++ [.act 0 sampleChoice])).redis.queue p =
        [] := by
      intro p
      cases p <;> decide
    rw [hempty p] at hp
    exact absurd hp List.not_mem_nil
  · exact absurd haccepted (by decide)

end Cerid.Processor
