import Cerid.Processor.Attempts
import Cerid.Processor.Finished

/-!
# A job that has exhausted its retries

The last attempt is recorded like every other: the record is marked failed, the job is
taken out of the running set and listed.  Nothing is enqueued after it, so unless the
client dies or meets an error on the way the failure stands.
-/

namespace Cerid.Processor

/-- The handler is started and fails, and there is no retry left. -/
def Exhausts (cfg : Config) (ch : Choice) (record : JobRecord) : Prop :=
  record.jobType ∈ cfg.registry ∧ ch.instantiates = true ∧
    ¬ (record.requiresLlm = true ∧ ch.hold = true) ∧ ch.succeeds = false ∧
    cfg.maxRetries ≤ record.retryCount + 1

theorem execute_exhausts {cfg : Config} {ch : Choice} {record : JobRecord} (j : JobId)
    (h : Exhausts cfg ch record) : execute cfg ch j record = .finishLoad j .failed none := by
  obtain ⟨hregistry, hinstance, hhold, hfails, hbudget⟩ := h
  rw [execute, if_neg, if_neg hhold, if_neg, if_neg (Nat.not_lt_of_le hbudget)]
  · rw [hfails]
    exact Bool.false_ne_true
  · rintro (hn | hn)
    · exact hn hregistry
    · rw [hinstance] at hn
      cases hn

namespace Indexed

/-- The client is about to mark the job failed for good. -/
def Writing (j : JobId) (p : Point) : Prop :=
  p = .finishLoad j .failed none ∨ ∃ loaded, p = .finishSave j .failed none loaded

/-- No client dies or meets an error while it records the end of the job. -/
def Undisturbed (j : JobId) (s : System) : Action → Prop
  | .fail i _ _ | .drop i => ∀ c ∈ s.live[i]?, ¬ Writing j c.point ∧ ¬ c.Recording j
  | .call _ _ _ _ _ _ | .start | .act _ _ | .pause _ => True

/-- The job has failed, nobody will write it again, and the failure is noted. -/
structure Over (j : JobId) (s : System) : Prop where
  failed : s.store.redis.stateOf j = some .failed
  queued : s.store.redis.queued j = 0
  drawn : j < s.nextId
  held : ∀ c ∈ s.live, c.point.job = some j → finishes c.point = some j ∧ c.point.retries = none
  noted : j ∈ s.store.recent.members ∨ j ∈ s.trimmed ∨ ∃ c ∈ s.live, c.Recording j

structure Exhausted (j : JobId) (s : System) : Prop where
  queue : Inv j s.base
  carried : Carried j s.base
  ends : (∃ c ∈ s.live, Writing j c.point ∧ c.owed = []) ∨ Over j s

section

variable {cfg : Config} {ch : Choice} {j : JobId} {s t : System} {c d : Client}
  {rest : List Client} {a : Action}

theorem job_of_writing {p : Point} (h : Writing j p) : p.job = some j := by
  rcases h with rfl | ⟨loaded, rfl⟩ <;> rfl

/-- A client that goes has nothing to do with the job's end. -/
theorem Undisturbed.gone (h : Undisturbed j s a) {gone : List Client}
    (hgone : (∀ c ∈ gone, ∃ i, a = .drop i ∧ s.live[i]? = some c) ∨ ∀ c ∈ gone, c.Blank) :
    ∀ c ∈ gone, ¬ Writing j c.point ∧ ¬ c.Recording j := by
  intro c hc
  rcases hgone with hdrop | hblank
  · obtain ⟨i, rfl, hi⟩ := hdrop c hc
    exact h c hi
  · refine ⟨fun hw => ?_, (hblank c hc).not_recording⟩
    have hjob := job_of_writing hw
    rw [(hblank c hc).job] at hjob
    cases hjob

theorem mem_rest_of_ne {P : Client → Prop} (before : s.live.Perm (c :: rest)) (hc : ¬ P c)
    {x : Client} (hx : x ∈ s.live) (hxP : P x) : x ∈ rest := by
  rcases List.mem_cons.mp (before.mem_iff.mp hx) with rfl | hx
  · exact absurd hxP hc
  · exact hx

/-! ### A client writes the failure -/

/-- The client that is about to mark the job failed does so. -/
theorem writing_act (hinv : Inv j s.base) (hcarried : Carried j s.base)
    (hs : Sends cfg ch s t c d rest) (hnext : t.nextId = s.nextId)
    (hd : d = (c.act cfg ch s.store).2) (hw : Writing j c.point) :
    (Writing j d.point ∧ d.owed = []) ∨ Over j t := by
  have hpjob := job_of_writing hw
  have hperm : s.base.live.Perm (c.point :: rest.map Client.point) := hs.before.map Client.point
  obtain ⟨hzero, hrest⟩ := (hinv.perm hperm).held rfl hpjob
  rw [act_point _ _ hs.owed] at hd
  obtain ⟨point, loaded, time, owed⟩ := c
  obtain rfl : owed = [] := hs.owed
  rcases hw with hp | ⟨stored, hp⟩ <;> obtain rfl : point = _ := hp
  · -- the record is there, since the client holds the job
    obtain ⟨stored, hstored, -⟩ := hcarried.fits _ (mem_base hs.mem) rfl
    have hjob : s.store.redis.job j = some stored := hstored
    left
    subst hd
    refine ⟨Or.inr ⟨stored, ?_⟩, rfl⟩
    rw [point_next, Point.act, hjob]
    rfl
  · right
    have hpoint : d.point = .finishExpire j none := by
      rw [hd, point_next]
      rfl
    refine ⟨?_, ?_, ?_, fun x hx hxjob => ?_, Or.inr (Or.inr ⟨d, ?_, Or.inl ?_⟩)⟩
    · rw [hs.redis]
      exact (Redis.stateOf_hset _ _ _ _).trans (if_pos rfl)
    · rw [hs.redis]
      exact hzero
    · rw [hnext]
      exact Nat.lt_of_not_le fun hk => (hinv.fresh hk).2.2.2 _ (mem_base hs.mem) rfl
    · rcases List.mem_cons.mp (hs.after.mem_iff.mp hx) with rfl | hx
      · rw [hpoint]
        exact ⟨rfl, rfl⟩
      · exact absurd hxjob (hrest x.point (List.mem_map_of_mem hx))
    · exact hs.after.mem_iff.mpr List.mem_cons_self
    · rw [hpoint]
      rfl

/-! ### Nobody writes it again -/

theorem Over.still (h : Over j s) (hstill : Still s t)
    (hheld : ∀ d ∈ t.live, d ∈ s.live ∨ d.point.job ≠ some j)
    (hkept : ∀ c ∈ s.live, c.Recording j → c ∈ t.live) : Over j t where
  failed := by
    rw [hstill.stateOf]
    exact h.failed
  queued := by
    rw [hstill.queued]
    exact h.queued
  drawn := Nat.lt_of_lt_of_le h.drawn hstill.nextId
  held d hd hjob := by
    rcases hheld d hd with hd | hne
    · exact h.held d hd hjob
    · exact absurd hjob hne
  noted := by
    rw [hstill.recent, hstill.trimmed]
    exact h.noted.imp_right fun h => h.imp_right fun ⟨c, hc, hck⟩ => ⟨c, hkept c hc hck, hck⟩

variable (cfg ch) in
/-- A client's command leaves the failure as it is. -/
theorem over_act {p : Point} {r : Redis} (hfailed : r.stateOf j = some .failed)
    (hqueued : r.queued j = 0)
    (hheld : p.job = some j → finishes p = some j ∧ p.retries = none) :
    (p.act cfg ch r).1.stateOf j = some .failed ∧ (p.act cfg ch r).1.queued j = 0 ∧
      ((p.act cfg ch r).2.job = some j →
        finishes (p.act cfg ch r).2 = some j ∧ (p.act cfg ch r).2.retries = none) := by
  by_cases hjob : p.job = some j
  · obtain ⟨hfin, hretry⟩ := hheld hjob
    cases p with
    | finishExpire j' retry => exact ⟨hfailed, hqueued, fun _ => ⟨hfin, hretry⟩⟩
    | finishRemove j' retry =>
      obtain rfl : retry = none := hretry
      exact ⟨hfailed, hqueued, fun h => by cases h⟩
    | _ => cases hfin
  · have hstate : (p.act cfg ch r).1.stateOf j = some .failed := by
      rcases act_state cfg ch r j p with heq | ⟨hp, -⟩ | heq
      · exact heq.trans hfailed
      · exact absurd hp hjob
      · rw [heq, hfailed]
        rfl
    rcases act_count cfg ch r j p with hle | ⟨-, -, hrunning⟩
    · rw [hqueued, if_neg hjob] at hle
      refine ⟨hstate, by omega, fun hq => ?_⟩
      rw [if_pos hq] at hle
      omega
    · rw [hfailed] at hrunning
      cases hrunning

theorem Over.acts (h : Over j s) (before : s.live.Perm (c :: rest))
    (after : t.live.Perm (d :: rest)) (store : t.store = (c.act cfg ch s.store).1)
    (trimmed : ∀ k, k ∈ s.trimmed ∨ k ∈ s.store.recent.members →
      k ∈ t.trimmed ∨ k ∈ t.store.recent.members) (hnext : t.nextId = s.nextId)
    (hd : d = (c.act cfg ch s.store).2 ∨ d = c.error ∧ ¬ c.Recording j) : Over j t := by
  have hmem : c ∈ s.live := before.mem_iff.mpr List.mem_cons_self
  have hlive : ∀ {x}, x ∈ rest → x ∈ s.live :=
    fun hx => before.mem_iff.mpr (List.mem_cons_of_mem c hx)
  have hnoted : (c.Recording j → j ∈ t.store.recent.members ∨ d.Recording j) →
      j ∈ t.store.recent.members ∨ j ∈ t.trimmed ∨ ∃ x ∈ t.live, x.Recording j := by
    intro hrec
    have htrim : j ∈ s.trimmed ∨ j ∈ s.store.recent.members →
        j ∈ t.store.recent.members ∨ j ∈ t.trimmed ∨ ∃ x ∈ t.live, x.Recording j :=
      fun hj => (trimmed j hj).elim (fun h => Or.inr (Or.inl h)) Or.inl
    rcases h.noted with hj | hj | ⟨x, hx, hxj⟩
    · exact htrim (Or.inr hj)
    · exact htrim (Or.inl hj)
    · rcases List.mem_cons.mp (before.mem_iff.mp hx) with rfl | hx
      · exact (hrec hxj).imp_right fun hdj =>
          Or.inr ⟨d, after.mem_iff.mpr List.mem_cons_self, hdj⟩
      · exact Or.inr (Or.inr ⟨x, after.mem_iff.mpr (List.mem_cons_of_mem d hx), hxj⟩)
  -- a client that is not recording the job's end and errs has nothing of it in hands
  have herror : ¬ c.Recording j → c.error.point.job ≠ some j := by
    intro hrec hjob
    have hc : c.point.job = some j := by
      rcases error_cases c with he | ⟨-, he⟩ <;> rw [he] at hjob
      · exact hjob
      · exact (error_job j hjob).1
    exact hrec (Or.inl (h.held c hmem hc).1)
  cases hc : c.owed with
  | nil =>
    have hact := act_point cfg ch (s := s) hc
    obtain ⟨hfailed, hqueued, hheld⟩ :=
      over_act cfg ch (p := c.point) h.failed h.queued (h.held c hmem)
    refine ⟨?_, ?_, hnext ▸ h.drawn, fun x hx hjob => ?_, hnoted fun hrec => ?_⟩
    · rw [store, hact]
      exact hfailed
    · rw [store, hact]
      exact hqueued
    · rcases List.mem_cons.mp (after.mem_iff.mp hx) with rfl | hx
      · rcases hd with rfl | ⟨rfl, hrec⟩
        · rw [hact, point_next] at hjob ⊢
          exact hheld hjob
        · exact absurd hjob (herror hrec)
      · exact h.held x (hlive hx) hjob
    · rcases hd with rfl | ⟨-, hno⟩
      · rw [hact]
        exact Or.inr (recording_next hc hrec)
      · exact absurd hrec hno
  | cons listing owed =>
    have hact := act_owed cfg ch (s := s) hc
    refine ⟨?_, ?_, hnext ▸ h.drawn, fun x hx hjob => ?_, hnoted fun hrec => ?_⟩
    · rw [store, hact]
      exact h.failed
    · rw [store, hact]
      exact h.queued
    · rcases List.mem_cons.mp (after.mem_iff.mp hx) with rfl | hx
      · rcases hd with rfl | ⟨rfl, hrec⟩
        · rw [hact] at hjob ⊢
          exact h.held c hmem hjob
        · exact absurd hjob (herror hrec)
      · exact h.held x (hlive hx) hjob
    · rcases hd with rfl | ⟨-, hno⟩
      · rw [store, hact]
        exact recording_paid hc hrec
      · exact absurd hrec hno

theorem Exhausted.step (h : Exhausted j s) (a : Action) (ha : Undisturbed j s a) :
    Exhausted j (Indexed.step cfg s a) := by
  obtain ⟨hinv, hcarried⟩ := base_keeps cfg ⟨h.queue, h.carried⟩ a
  refine ⟨hinv, hcarried, ?_⟩
  rcases change cfg s a with ⟨gone, new, rest, hstill, before, after, cut, hnew, -⟩ |
    ⟨call, hid, hstill, after, -, -⟩ | ⟨c, rest, hstill, before, after, -, ⟨i, ch, rfl, hi⟩, -⟩ |
    ⟨c, d, ch, rest, before, after, store, trimmed, hnext, heffect, hd⟩
  · have hgone := ha.gone (cut.imp And.right And.right)
    have hkept : ∀ x ∈ s.live, (Writing j x.point ∨ x.Recording j) →
        x ∈ (Indexed.step cfg s a).live := by
      intro x hx hxj
      rcases List.mem_append.mp (before.mem_iff.mp hx) with hx | hx
      · exact (hxj.elim (hgone x hx).1 (hgone x hx).2).elim
      · exact after.mem_iff.mpr (List.mem_append_right _ hx)
    rcases h.ends with ⟨w, hw, hwriting, howed⟩ | hover
    · exact Or.inl ⟨w, hkept w hw (Or.inl hwriting), hwriting, howed⟩
    · refine Or.inr (hover.still hstill (fun d hd => ?_) fun x hx hxj => hkept x hx (Or.inr hxj))
      rcases List.mem_append.mp (after.mem_iff.mp hd) with hd | hd
      · refine Or.inr fun hjob => ?_
        rw [(hnew d hd).job] at hjob
        cases hjob
      · exact Or.inl (before.mem_iff.mpr (List.mem_append_right _ hd))
  · have hkept : ∀ x ∈ s.live, x ∈ (Indexed.step cfg s a).live := by
      intro x hx
      rw [after]
      exact List.mem_cons_of_mem _ hx
    rcases h.ends with ⟨w, hw, hwriting, howed⟩ | hover
    · exact Or.inl ⟨w, hkept w hw, hwriting, howed⟩
    · refine Or.inr (hover.still hstill (fun d hd => ?_) fun x hx _ => hkept x hx)
      rw [after] at hd
      rcases List.mem_cons.mp hd with rfl | hd
      · refine Or.inr fun hjob => ?_
        have hj := call.owns_begin.job j hjob
        exact absurd hover.drawn (by rw [← hj, hid]; exact Nat.lt_irrefl _)
      · exact Or.inl hd
  · obtain ⟨hw, hrec⟩ := ha c hi
    have hkept : ∀ x ∈ s.live, (Writing j x.point ∨ x.Recording j) →
        x ∈ (Indexed.step cfg s (.fail i false ch)).live := fun x hx hxj =>
      after.mem_iff.mpr (List.mem_cons_of_mem _ (mem_rest_of_ne
        (P := fun x => Writing j x.point ∨ x.Recording j) before (not_or.mpr ⟨hw, hrec⟩) hx hxj))
    rcases h.ends with ⟨w, hwl, hwriting, howed⟩ | hover
    · exact Or.inl ⟨w, hkept w hwl (Or.inl hwriting), hwriting, howed⟩
    · refine Or.inr (hover.still hstill (fun d hd => ?_) fun x hx hxj => hkept x hx (Or.inr hxj))
      rcases List.mem_cons.mp (after.mem_iff.mp hd) with rfl | hd
      · refine Or.inr fun hjob => ?_
        have hc : c.point.job = some j := by
          rcases error_cases c with he | ⟨-, he⟩ <;> rw [he] at hjob
          · exact hjob
          · exact (error_job j hjob).1
        exact hrec (Or.inl (hover.held c (before.mem_iff.mpr List.mem_cons_self) hc).1)
      · exact Or.inl (before.mem_iff.mpr (List.mem_cons_of_mem c hd))
  · have hfail : d = c.error → (∃ i, a = .fail i true ch) →
        ¬ Writing j c.point ∧ ¬ c.Recording j := by
      rintro - ⟨i, rfl⟩
      exact ha c heffect
    rcases h.ends with ⟨w, hw, hwriting, howed⟩ | hover
    · rcases List.mem_cons.mp (before.mem_iff.mp hw) with rfl | hw
      · rcases hd with ⟨-, hd, -⟩ | ⟨ha', hd, -⟩
        · have hs : Sends cfg ch s (Indexed.step cfg s a) w d rest :=
            ⟨before, after, howed, store, Or.inl hd⟩
          exact (writing_act h.queue h.carried hs hnext hd hwriting).imp_left
            fun hdw => ⟨d, after.mem_iff.mpr List.mem_cons_self, hdw⟩
        · exact absurd hwriting (hfail hd ha').1
      · exact Or.inl ⟨w, after.mem_iff.mpr (List.mem_cons_of_mem d hw), hwriting, howed⟩
    · exact Or.inr (hover.acts before after store trimmed hnext
        (hd.imp (fun h => h.2.1) fun h => ⟨h.2.1, (hfail h.2.1 h.1).2⟩))

variable (cfg ch) in
/-- The last attempt of a job fails. -/
theorem exhausted_of_run (hinv : Inv j s.base) (hcarried : Carried j s.base) {i : Nat}
    {record : JobRecord} (hi : s.live[i]? = some c) (hc : c.owed = [])
    (hp : c.point = .run j record) (h : Exhausts cfg ch record) :
    Exhausted j (Indexed.step cfg s (.act i ch)) := by
  obtain ⟨hinv', hcarried'⟩ := base_keeps cfg ⟨hinv, hcarried⟩ (.act i ch)
  refine ⟨hinv', hcarried', Or.inl ?_⟩
  obtain ⟨point, loaded, time, owed⟩ := c
  obtain rfl : owed = [] := hc
  obtain rfl : point = .run j record := hp
  have hstep : Indexed.step cfg s (.act i ch) =
      s.command cfg ch i ⟨.run j record, loaded, time, []⟩ := by
    simp only [Indexed.step, hi]
  rw [hstep]
  refine ⟨_, (live_set_perm hi _).mem_iff.mpr List.mem_cons_self, Or.inl ?_, rfl⟩
  exact execute_exhausts j h

end

theorem base_invariants (cfg : Config) (j : JobId) (actions : List Action) :
    Inv j (run cfg actions).base ∧ Carried j (run cfg actions).base :=
  base_run cfg (fun s => Inv j s ∧ Carried j s) ⟨inv_init, carried_init j⟩
    (fun _ a h => ⟨h.1.step a, h.2.step h.1 a⟩) actions

/-- A job whose last attempt has failed is marked failed and listed, unless its client is
still about it, has died or met an error, or a trim has taken the entry. -/
theorem exhausted_run (cfg : Config) (j : JobId) (before after : List Action) (i : Nat)
    (ch : Choice) (c : Client) (record : JobRecord)
    (hi : (run cfg before).live[i]? = some c) (hc : c.owed = []) (hp : c.point = .run j record)
    (hexhausts : Exhausts cfg ch record)
    (hafter : Along (step cfg) (Undisturbed j) (run cfg (before ++ [.act i ch])) after) :
    (∃ c ∈ (run cfg (before ++ .act i ch :: after)).live,
      Writing j c.point ∨ c.Recording j) ∨
      (run cfg (before ++ .act i ch :: after)).store.redis.stateOf j = some .failed ∧
        (j ∈ (run cfg (before ++ .act i ch :: after)).store.recent.members ∨
          j ∈ (run cfg (before ++ .act i ch :: after)).trimmed) := by
  have hstart : Exhausted j (run cfg (before ++ [.act i ch])) := by
    obtain ⟨hinv, hcarried⟩ := base_invariants cfg j before
    have hstep := exhausted_of_run cfg ch hinv hcarried hi hc hp hexhausts
    rw [run, List.foldl_append]
    exact hstep
  have hrun : run cfg (before ++ .act i ch :: after) =
      after.foldl (step cfg) (run cfg (before ++ [.act i ch])) := by
    rw [run, run, List.foldl_append, List.foldl_append]
    rfl
  have hend := hafter.invariant (Exhausted j) (fun _ a hs ha => hs.step a ha) hstart
  rw [hrun]
  rcases hend.ends with ⟨w, hw, hwriting, -⟩ | hover
  · exact Or.inl ⟨w, hw, Or.inl hwriting⟩
  · rcases hover.noted with hj | hj | ⟨x, hx, hxj⟩
    · exact Or.inr ⟨hover.failed, Or.inl hj⟩
    · exact Or.inr ⟨hover.failed, Or.inr hj⟩
    · exact Or.inl ⟨x, hx, Or.inr hxj⟩

/-- A job is run as often as its budget allows and once more for each time that a recovery
puts it back; and once its last attempt has failed, and as long as no client dies or meets
an error while it records that, the job is marked failed and listed, unless a trim has
taken the entry or the client is still about it. -/
theorem attempts_bounded (cfg : Config) (j : JobId) (actions : List Action) :
    costAlong (step cfg) (begins cfg j) .init actions ≤
        max 1 cfg.maxRetries + costAlong (step cfg) (requeues j) .init actions ∧
      ∀ before i ch after c record, actions = before ++ .act i ch :: after →
        (run cfg before).live[i]? = some c → c.owed = [] → c.point = .run j record →
        Exhausts cfg ch record →
        Along (step cfg) (Undisturbed j) (run cfg (before ++ [.act i ch])) after →
        (∃ c ∈ (run cfg actions).live, Writing j c.point ∨ c.Recording j) ∨
          (run cfg actions).store.redis.stateOf j = some .failed ∧
            (j ∈ (run cfg actions).store.recent.members ∨ j ∈ (run cfg actions).trimmed) := by
  refine ⟨begins_le cfg j actions, ?_⟩
  rintro before i ch after c record rfl hi hc hp hexhausts hafter
  exact exhausted_run cfg j before after i ch c record hi hc hp hexhausts hafter

/-- One loop, and a single attempt for each job. -/
def singleAttempt : Config := { sampleConfig with maxRetries := 1 }

def failingChoice : Choice :=
  { now := 0, order := [], instantiates := true, hold := false, succeeds := false }

/-- The record that the loop has read of the job that it runs. -/
def takenRecord : JobRecord where
  jobType := "digest_run"
  state := .pending
  priority := .low
  payload := .empty
  enqueuedAt := 0
  retryCount := 0
  requiresLlm := false

/-- The one attempt fails; it is recorded and listed. -/
theorem attempts_bounded_failed :
    (∃ c ∈ (run singleAttempt (taken ++ List.replicate 8 failingCommand)).live,
      Writing 0 c.point ∨ c.Recording 0) ∨
    (run singleAttempt (taken ++ List.replicate 8 failingCommand)).store.redis.stateOf 0 =
        some .failed ∧
      (0 ∈ (run singleAttempt (taken ++ List.replicate 8 failingCommand)).store.recent.members ∨
        0 ∈ (run singleAttempt (taken ++ List.replicate 8 failingCommand)).trimmed) :=
  (attempts_bounded singleAttempt 0 (taken ++ List.replicate 8 failingCommand)).2 taken 0
    failingChoice (List.replicate 7 failingCommand) (.of (.run 0 takenRecord)) takenRecord rfl rfl
    rfl rfl ⟨by decide, rfl, by decide, rfl, by decide⟩
    ⟨trivial, trivial, trivial, trivial, trivial, trivial, trivial, trivial⟩

/-- The loop dies while the handler runs; the next worker puts the job back, and its loop
starts the handler again. -/
def crash : List Action := .drop 0 :: .start :: List.replicate 16 nextCommand

set_option maxRecDepth 20000 in
/-- With one attempt for each job, two crashes make three. -/
theorem not_attempts_le : ¬ ∀ cfg j actions,
    costAlong (step cfg) (begins cfg j) .init actions ≤ cfg.maxRetries + 1 := by
  intro h
  exact absurd (h singleAttempt 0 (taken ++ crash ++ crash)) (by decide)

end Indexed

end Cerid.Processor
