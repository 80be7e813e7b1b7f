import Cerid.Processor.Recent

/-!
# What the recent index lists

The index holds ids, and the record behind an id may be written again.  While no
retry is written over a job that is listed, and no prune marks a job failed that it
has not taken out of its list itself, one client at most will write or list a job, so
a job that is listed has ended for good.
-/

namespace Cerid.Processor.Indexed

/-! ## What a client may do to a job -/

/-- The job is in the client's hands, or the client has taken it out of its list to
mark it failed. -/
def Holds (k : JobId) (p : Point) : Prop := p.job = some k ∨ p.gap = some k

instance (k : JobId) (p : Point) : Decidable (Holds k p) :=
  inferInstanceAs (Decidable (_ ∨ _))

/-- The job whose record the client has just closed. -/
def finishes : Point → Option JobId
  | .finishExpire j _ | .finishRemove j _ => some j
  | _ => none

/-- The client owes the index an entry of the job. -/
def Client.Owes (k : JobId) (c : Client) : Prop := ∃ listing ∈ c.owed, listing.job = some k

instance (k : JobId) (c : Client) : Decidable (c.Owes k) :=
  inferInstanceAs (Decidable (∃ listing ∈ c.owed, _))

/-- The client may write the job's record or list the job. -/
def Client.Touches (k : JobId) (c : Client) : Prop := Holds k c.point ∨ c.Owes k

instance (k : JobId) (c : Client) : Decidable (c.Touches k) :=
  inferInstanceAs (Decidable (_ ∨ _))

/-- The client would write a retry over the job's record, and nothing else. -/
def Client.Idle (k : JobId) (c : Client) : Prop := ∃ record, c.point = .retrySave k record

/-- What the two commands that write over a record that has ended do not do: a retry is
not written while the job's entry stands, and a job that is marked failed has been
taken out of its list. -/
def orderly (s : System) : Point → Bool
  | .retrySave j _ => j ∉ s.store.recent.members
  | .pruneSave _ _ removed _ => 0 < removed
  | _ => true

def Client.Orderly (s : System) (c : Client) : Prop :=
  c.owed.isEmpty = true → orderly s c.point = true

instance (s : System) (c : Client) : Decidable (c.Orderly s) :=
  inferInstanceAs (Decidable (_ = true → _ = true))

def Orderly (s : System) (a : Action) : Prop := ∀ c ∈ effect s a, c.Orderly s

instance (s : System) (a : Action) : Decidable (Orderly s a) :=
  inferInstanceAs (Decidable (∀ c ∈ effect s a, _))

section

variable {cfg : Config} {ch : Choice} {r : Redis} {k : JobId} {p : Point}

theorem gap_cases (h : p.gap = some k) :
    p.job = some k ∨ ∃ c n rest, p = .pruneSave c k (n + 1) rest := by
  cases p with
  | pruneSave c j removed rest =>
    cases removed with
    | zero => cases h
    | succ n =>
      obtain rfl := Option.some.inj h
      exact Or.inr ⟨c, n, rest, rfl⟩
  | load _ | markLoad _ _ | markSave _ _ _ | markExpire _ _ | markAdd _ _ | retryExpire _ _
  | retryPush _ _ => exact Or.inl h
  | _ => cases h

/-- A prune takes a job in hands by taking it out of its list. -/
theorem act_prune {c : Call} {n : Nat} {rest : List (JobId × Option Priority)}
    (h : (p.act cfg ch r).2 = .pruneSave c k (n + 1) rest) :
    ∃ priority, p = .pruneRemove c k priority rest ∧ (r.queue priority).count k = n + 1 := by
  have hloss : (p.act cfg ch r).2.loss = some k := by
    rw [h]
    rfl
  have howns : ∀ {c' : Call} {q : Point}, c'.Owns q → q.loss = some k → False := by
    intro c' q howns hq
    rw [howns.loss] at hq
    cases hq
  cases p with
  | pruneRemove c' j priority rest' =>
    injection h with h₁ h₂ h₃ h₄
    subst h₁ h₂ h₄
    exact ⟨priority, rfl, h₃⟩
  | poll =>
    simp only [Point.act] at hloss
    split at hloss
    · cases hloss
    · rw [(nextPop_point _).2.2.1] at hloss
      cases hloss
  | pop priority rest' =>
    rcases popped_cases r priority rest' with hr | ⟨j, -, hr⟩
    · simp [Point.act, hr] at hloss
    · simp [Point.act, hr] at h
  | load j | markLoad j record => cases hr : r.job j <;> simp [Point.act, hr] at h
  | run j record =>
    obtain ⟨outcome, retry, hr⟩ := execute_eq cfg ch j record
    simp [Point.act, hr] at h
  | finishLoad j outcome retry =>
    cases hr : r.job j with
    | none => simp [Point.act, hr] at hloss
    | some loaded => simp [Point.act, hr] at h
  | finishRemove j retry => simp [Point.act] at hloss
  | members | recoverRemove j rest' => simp [Point.act] at hloss
  | recoverLoad j rest' =>
    cases hr : r.job j with
    | none => simp [Point.act, hr] at h
    | some loaded => by_cases hl : loaded.state = .running <;> simp [Point.act, hr, hl] at h
  | lrange c' priority rest' found => exact (howns (c'.owns_nextRange _ _) hloss).elim
  | smembers c' found => exact (howns (c'.owns_nextScan _) hloss).elim
  | hmget c' j key rest' => exact (howns (c'.owns_scan cfg ch j key rest' _) hloss).elim
  | pruneSave c' j removed rest' => exact (howns (c'.owns_nextScan rest') hloss).elim
  | _ => cases h

variable (cfg ch r k) in
/-- The job counts once while it waits and once while a client may write it. -/
theorem act_holds (p : Point) :
    (p.act cfg ch r).1.queued k + (if Holds k (p.act cfg ch r).2 then 1 else 0) ≤
        r.queued k + (if Holds k p then 1 else 0) ∨
      p.role = .recovery ∧ (p.act cfg ch r).1.queued k = r.queued k ∧
        r.stateOf k = some .running := by
  have hjob : (if p.job = some k then 1 else 0) ≤ if Holds k p then 1 else 0 := by
    split
    · exact Nat.le_of_eq (if_pos (Or.inl ‹_›)).symm
    · exact Nat.zero_le _
  by_cases hq : (p.act cfg ch r).2.job = some k ∨ ¬ Holds k (p.act cfg ch r).2
  · have hsame : (if Holds k (p.act cfg ch r).2 then 1 else 0) =
        if (p.act cfg ch r).2.job = some k then 1 else 0 := by
      rcases hq with hq | hq
      · have hholds : Holds k (p.act cfg ch r).2 := Or.inl hq
        rw [if_pos hholds, if_pos hq]
      · rw [if_neg hq, if_neg (fun h => hq (Or.inl h))]
    rcases act_count cfg ch r k p with hle | hrecovery
    · left
      omega
    · exact Or.inr hrecovery
  · -- the client has just taken the job out of its list
    obtain ⟨hnone, hholds⟩ := not_or.mp hq
    rw [not_not] at hholds
    rcases gap_cases (hholds.resolve_left hnone) with hjob' | ⟨c, n, rest, he⟩
    · exact absurd hjob' hnone
    · obtain ⟨priority, rfl, hcount⟩ := act_prune he
      have hrem := r.queued_lrem priority k k
      rw [if_pos rfl, hcount] at hrem
      left
      rw [if_pos hholds]
      simp only [Point.act]
      omega

/-- Only the client that may write the job, or a prune that has removed nothing,
writes its record. -/
theorem act_job_of_not_holds (h : ¬ Holds k p) (hp : ∀ c rest, p ≠ .pruneSave c k 0 rest) :
    (p.act cfg ch r).1.job k = r.job k := by
  cases p with
  | pop p rest =>
    rcases popped_cases r p rest with hr | ⟨j, -, hr⟩ <;>
      exact congrArg (fun x => Redis.job x.1 k) hr
  | pruneSave c j removed rest =>
    have hk : j ≠ k := by
      rintro rfl
      cases removed with
      | zero => exact hp c rest rfl
      | succ n => exact h (Or.inr rfl)
    simp only [Point.act, job_setState, if_neg hk]
  | markSave j _ _ | finishSave j _ _ _ | retrySave j _ | recoverSave j _ _ =>
    have hk : j ≠ k := fun e => h (Or.inl (congrArg some e))
    simp only [Point.act, job_hset, if_neg hk]
  | save c =>
    have hk : c.id ≠ k := fun e => h (Or.inl (congrArg some e))
    simp only [Point.act, job_hset, if_neg hk]
  | _ => rfl

theorem job_of_finishes (h : finishes p = some k) : p.job = some k := by
  cases p with
  | finishExpire j retry | finishRemove j retry => exact h
  | _ => cases h

theorem finishes_of_role (h : p.role ≠ .loop) : finishes p = none := by
  cases p <;> first | rfl | exact absurd rfl h

/-- A client comes to the end of a record by writing it. -/
theorem act_finishes (h : finishes (p.act cfg ch r).2 = some k) :
    (∃ outcome retry loaded, p = .finishSave k outcome retry loaded) ∨
      ∃ retry, p = .finishExpire k retry := by
  have hrole : p.role = .loop := by
    by_contra hrole
    rw [finishes_of_role (by rw [act_role]; exact hrole)] at h
    cases h
  cases p with
  | finishSave j outcome retry loaded =>
    obtain rfl := Option.some.inj h
    exact Or.inl ⟨outcome, retry, loaded, rfl⟩
  | finishExpire j retry =>
    obtain rfl := Option.some.inj h
    exact Or.inr ⟨retry, rfl⟩
  | poll =>
    simp only [Point.act] at h
    split at h
    · cases h
    · cases h
  | pop priority rest =>
    rcases popped_cases r priority rest with hr | ⟨j, -, hr⟩
    · rw [Point.act, hr] at h
      cases rest <;> cases h
    · rw [Point.act, hr] at h
      cases h
  | load j | markLoad j record =>
    cases hr : r.job j <;> rw [Point.act, hr] at h <;> cases h
  | run j record =>
    obtain ⟨outcome, retry, hr⟩ := execute_eq cfg ch j record
    rw [Point.act, hr] at h
    cases h
  | finishLoad j outcome retry =>
    cases hr : r.job j <;> rw [Point.act, hr] at h
    · cases retry <;> cases h
    · cases h
  | finishRemove j retry => cases retry <;> cases h
  | markSave _ _ _ | markExpire _ _ | markAdd _ _ | retrySave _ _ | retryExpire _ _
  | retryPush _ _ => cases h
  | _ => cases hrole

theorem gap_of_owns {c : Call} (h : c.Owns p) : p.gap = none := by
  have hloss := h.loss
  have hrole := h.role
  cases p <;> first | exact hloss | cases hrole

theorem finishes_of_owns {c : Call} (h : c.Owns p) : finishes p = none :=
  finishes_of_role (by rw [h.role]; decide)

theorem error_gap (p : Point) : p.error.gap = none := by
  cases p with
  | finishLoad j _ retry | finishSave j _ retry _ | finishExpire j retry | finishRemove j retry =>
    cases retry <;> rfl
  | lrange c _ _ _ | smembers c _ | hmget c _ _ _ => exact gap_of_owns c.owns_absent
  | pruneRemove c _ _ rest | pruneSave c _ _ rest => exact gap_of_owns (c.owns_nextScan rest)
  | expire c =>
    simp only [Point.error]
    split <;> rfl
  | _ => rfl

theorem error_finishes (p : Point) : finishes p.error = none := by
  cases p with
  | finishLoad j _ retry | finishSave j _ retry _ | finishExpire j retry | finishRemove j retry =>
    cases retry <;> rfl
  | lrange c _ _ _ | smembers c _ | hmget c _ _ _ => exact finishes_of_owns c.owns_absent
  | pruneRemove c _ _ rest | pruneSave c _ _ rest => exact finishes_of_owns (c.owns_nextScan rest)
  | expire c =>
    simp only [Point.error]
    split <;> rfl
  | _ => rfl

theorem holds_of_error (h : Holds k p.error) : p.job = some k := by
  rcases h with h | h
  · exact (error_job k h).1
  · rw [error_gap] at h
    cases h

end

/-! ## The invariant, job by job -/

/-- The record has ended at the time. -/
def Ended (s : System) (k : JobId) (time : Nat) : Prop :=
  (∃ st ∈ s.store.redis.stateOf k, st.terminal = true) ∧ s.store.completedAt k = some time

/-- What the client may do agrees with what is stored of the job. -/
structure Client.Sound (s : System) (k : JobId) (c : Client) : Prop where
  shape : ∀ listing ∈ c.owed.tail, listing.job = none
  pruned : ∀ call n rest, c.point = .pruneSave call k (n + 1) rest →
    ∃ st ∈ s.store.redis.stateOf k, st ≠ .running
  finishing : finishes c.point = some k → s.store.completedAt k = some c.time
  owed : ∀ score, .zadd k score ∈ c.owed → Ended s k score ∧ (Holds k c.point → c.Idle k)
  listed : k ∈ s.store.recent.members → c.Touches k → c.Idle k ∧ ¬ c.Owes k

structure Listed (k : JobId) (s : System) : Prop where
  queue : Inv k s.base
  carried : Carried k s.base
  single : s.store.redis.queued k + s.live.countP (fun c => c.Touches k) ≤ 1
  sound : ∀ c ∈ s.live, c.Sound s k
  listed : ∀ score, (k, score) ∈ s.store.recent.items →
    Ended s k score ∧ s.store.redis.queued k = 0

section

variable {cfg : Config} {ch : Choice} {k : JobId} {s t : System} {c d : Client}
  {rest : List Client}

theorem owes_iff : c.Owes k ↔ ∃ score, .zadd k score ∈ c.owed := by
  constructor
  · rintro ⟨listing, hmem, hjob⟩
    cases listing with
    | zadd j score =>
      obtain rfl := Option.some.inj hjob
      exact ⟨score, hmem⟩
    | trimByScore now | trimByRank => cases hjob
  · rintro ⟨score, hmem⟩
    exact ⟨_, hmem, rfl⟩

theorem Client.Blank.not_touches (h : c.Blank) : ¬ c.Touches k := by
  rintro ((hjob | hgap) | ⟨listing, hmem, -⟩)
  · rw [h.job] at hjob
    cases hjob
  · rw [h.gap] at hgap
    cases hgap
  · rw [h.owed] at hmem
    exact absurd hmem List.not_mem_nil

theorem touches_of_error (h : c.error.Touches k) : c.Touches k := by
  obtain ⟨point, loaded, time, owed⟩ := c
  cases owed with
  | nil =>
    rcases h with h | ⟨listing, hmem, -⟩
    · exact Or.inl (Or.inl (holds_of_error h))
    · exact absurd hmem List.not_mem_nil
  | cons listing rest =>
    rcases h with h | ⟨listing, hmem, -⟩
    · exact Or.inl h
    · exact absurd hmem List.not_mem_nil

/-- A client that may write the job is the only one, and the job does not wait. -/
theorem Listed.alone (h : Listed k s) (before : s.live.Perm (c :: rest)) (hc : c.Touches k) :
    s.store.redis.queued k = 0 ∧ ∀ x ∈ rest, ¬ x.Touches k := by
  have hsingle := h.single
  rw [before.countP_eq, List.countP_cons, if_pos (decide_eq_true hc)] at hsingle
  have hzero : rest.countP (fun x => x.Touches k) = 0 := by omega
  refine ⟨by omega, fun x hx htouches => ?_⟩
  exact List.countP_eq_zero.mp hzero x hx (decide_eq_true htouches)

theorem mem_base (hc : c ∈ s.live) : c.point ∈ s.base.live := List.mem_map_of_mem hc

theorem error_cases (c : Client) :
    c.error.point = c.point ∨ c.owed = [] ∧ c.error.point = c.point.error := by
  rw [point_error]
  by_cases h : c.owed = []
  · exact Or.inr ⟨h, if_pos h⟩
  · exact Or.inl (if_neg h)

theorem time_error (c : Client) : c.error.time = c.time := by
  obtain ⟨point, loaded, time, owed⟩ := c
  cases owed <;> rfl

theorem Client.Sound.of_not_touches (h : ¬ c.Touches k)
    (hshape : ∀ listing ∈ c.owed.tail, listing.job = none) : c.Sound s k where
  shape := hshape
  pruned call n rest hc := by
    refine absurd (Or.inl (Or.inr ?_)) h
    rw [hc]
    rfl
  finishing hc := absurd (Or.inl (Or.inl (job_of_finishes hc))) h
  owed score hmem := absurd (Or.inr (owes_iff.mpr ⟨score, hmem⟩)) h
  listed _ htouches := absurd htouches h

theorem Client.Sound.congr (h : c.Sound s k)
    (hstate : t.store.redis.stateOf k = s.store.redis.stateOf k)
    (htime : t.store.completedAt k = s.store.completedAt k)
    (hlisted : k ∈ t.store.recent.members → c.Touches k → c.Idle k ∧ ¬ c.Owes k) :
    c.Sound t k where
  shape := h.shape
  pruned call n rest hc := by
    rw [hstate]
    exact h.pruned call n rest hc
  finishing hc := by
    rw [htime]
    exact h.finishing hc
  owed score hmem := by
    rw [Ended, hstate, htime]
    exact h.owed score hmem
  listed := hlisted

/-- An error takes nothing into a client's hands. -/
theorem Client.Sound.error (h : c.Sound s k) : c.error.Sound s k where
  shape listing hmem := by
    rw [owed_error] at hmem
    exact absurd hmem List.not_mem_nil
  pruned call n rest hc := by
    rcases error_cases c with he | ⟨-, he⟩
    · exact h.pruned call n rest (he.symm.trans hc)
    · have hgap := error_gap c.point
      rw [← he, hc] at hgap
      cases hgap
  finishing hc := by
    rw [time_error]
    rcases error_cases c with he | ⟨-, he⟩
    · exact h.finishing (he ▸ hc)
    · rw [he, error_finishes] at hc
      cases hc
  owed score hmem := by
    rw [owed_error] at hmem
    exact absurd hmem List.not_mem_nil
  listed hk htouches := by
    obtain ⟨⟨record, hidle⟩, -⟩ := h.listed hk (touches_of_error htouches)
    have howes : ¬ c.error.Owes k := by
      rintro ⟨listing, hmem, -⟩
      rw [owed_error] at hmem
      exact absurd hmem List.not_mem_nil
    refine ⟨?_, howes⟩
    rcases error_cases c with he | ⟨-, he⟩
    · exact ⟨record, he.trans hidle⟩
    · -- a client that gives up its retry has nothing in hands any more
      rw [hidle] at he
      have hholds := htouches.resolve_right howes
      rw [he] at hholds
      rcases hholds with hjob | hgap
      · cases hjob
      · cases hgap

/-! ### A step without a command -/

theorem Still.stateOf (h : Still s t) :
    t.store.redis.stateOf k = s.store.redis.stateOf k := by
  rw [Redis.stateOf, h.job]
  rfl

theorem Still.queued (h : Still s t) : t.store.redis.queued k = s.store.redis.queued k := by
  rw [Redis.queued, h.queue]
  rfl

theorem Client.Sound.still (h : c.Sound s k) (hstill : Still s t) : c.Sound t k :=
  h.congr hstill.stateOf (congrFun hstill.completedAt k) (by rw [hstill.recent]; exact h.listed)

theorem Listed.of_still (h : Listed k s) (hinv : Inv k t.base) (hcarried : Carried k t.base)
    (hstill : Still s t)
    (hsingle : s.store.redis.queued k + t.live.countP (fun c => c.Touches k) ≤ 1)
    (hsound : ∀ d ∈ t.live, d.Sound s k) : Listed k t where
  queue := hinv
  carried := hcarried
  single := by
    rw [hstill.queued]
    exact hsingle
  sound d hd := (hsound d hd).still hstill
  listed score hmem := by
    rw [hstill.recent] at hmem
    rw [hstill.queued, Ended, hstill.stateOf, hstill.completedAt]
    exact h.listed score hmem

/-- Nobody may write a job whose id is not drawn yet. -/
theorem Listed.untouched (h : Listed k s) (hk : s.nextId ≤ k) :
    s.store.redis.stateOf k = none ∧ s.store.redis.queued k = 0 ∧ ∀ c ∈ s.live, ¬ c.Touches k := by
  obtain ⟨hqueued, hstate, -, hjobs⟩ := h.queue.fresh hk
  have hnone : s.store.redis.stateOf k = none := hstate
  refine ⟨hnone, hqueued, fun c hc htouches => ?_⟩
  rcases htouches with (hjob | hgap) | howes
  · exact hjobs c.point (mem_base hc) hjob
  · rcases gap_cases hgap with hjob | ⟨call, n, rest, hp⟩
    · exact hjobs c.point (mem_base hc) hjob
    · obtain ⟨st, hst, -⟩ := (h.sound c hc).pruned call n rest hp
      rw [hnone] at hst
      cases hst
  · obtain ⟨score, hmem⟩ := owes_iff.mp howes
    obtain ⟨⟨st, hst, -⟩, -⟩ := ((h.sound c hc).owed score hmem).1
    rw [hnone] at hst
    cases hst

theorem Listed.call (h : Listed k s) (hinv : Inv k t.base) (hcarried : Carried k t.base)
    (hstill : Still s t) {call : Call} (hid : call.id = s.nextId)
    (after : t.live = .of call.begin :: s.live) : Listed k t := by
  have hfresh : (Client.of call.begin).Touches k → s.nextId ≤ k := by
    rintro ((hjob | hgap) | ⟨listing, hmem, -⟩)
    · exact Nat.le_of_eq (hid.symm.trans (call.owns_begin.job k hjob))
    · rw [Client.of, gap_of_owns call.owns_begin] at hgap
      cases hgap
    · exact absurd hmem List.not_mem_nil
  have hsound : ∀ d ∈ t.live, d.Sound s k := by
    rw [after]
    intro d hd
    rcases List.mem_cons.mp hd with rfl | hd
    · refine ⟨fun _ hmem => absurd hmem List.not_mem_nil, fun c n rest hc => ?_, fun hc => ?_,
        fun _ hmem => absurd hmem List.not_mem_nil, fun hk htouches => ?_⟩
      · have hgap := gap_of_owns call.owns_begin
        rw [show call.begin = _ from hc] at hgap
        cases hgap
      · rw [Client.of, finishes_of_owns call.owns_begin] at hc
        cases hc
      · obtain ⟨score, hmem⟩ := SortedSet.mem_members.mp hk
        obtain ⟨⟨⟨st, hst, -⟩, -⟩, -⟩ := h.listed score hmem
        rw [(h.untouched (hfresh htouches)).1] at hst
        cases hst
    · exact h.sound d hd
  refine h.of_still hinv hcarried hstill ?_ hsound
  rw [after, List.countP_cons]
  by_cases htouches : (Client.of call.begin).Touches k
  · obtain ⟨-, hqueued, hnone⟩ := h.untouched (hfresh htouches)
    have hzero : s.live.countP (fun c => c.Touches k) = 0 :=
      List.countP_eq_zero.mpr fun c hc hct => hnone c hc (of_decide_eq_true hct)
    rw [hzero, hqueued, if_pos (decide_eq_true htouches)]
  · rw [if_neg (fun hd => htouches (of_decide_eq_true hd))]
    exact h.single

/-! ### A command on the index -/

variable (cfg ch) in
theorem act_owed {listing : Listing} {owed : List Listing} (hc : c.owed = listing :: owed) :
    c.act cfg ch s.store =
      ({ s.store with recent := listing.apply s.store.recent }, { c with owed }) := by
  rw [Client.act, hc]

theorem mem_apply {recent : SortedSet JobId} {listing : Listing} {e : JobId × Nat}
    (h : e ∈ (listing.apply recent).items) : e ∈ recent.items ∨ listing = .zadd e.1 e.2 := by
  cases listing with
  | zadd j score =>
    rcases SortedSet.mem_add.mp h with rfl | h
    · exact Or.inr rfl
    · exact Or.inl h.1
  | trimByScore now => exact Or.inl (SortedSet.mem_keep.mp h).1
  | trimByRank => exact Or.inl (SortedSet.mem_of_mem_top h)

/-- The client that sends a command on the index, and what it owes then. -/
theorem Client.Sound.paid (h : c.Sound s k) {listing : Listing} {owed : List Listing}
    (hc : c.owed = listing :: owed) {d : Client} (hpoint : d.point = c.point)
    (htime : d.time = c.time) (howed : d.owed = owed ∨ d.owed = []) :
    d.Sound s k ∧ ¬ d.Owes k := by
  have hsub : ∀ l ∈ d.owed, l ∈ c.owed ∧ l.job = none := by
    intro l hl
    have hl' : l ∈ owed := by
      rcases howed with he | he
      · exact he ▸ hl
      · rw [he] at hl
        exact absurd hl List.not_mem_nil
    refine ⟨hc ▸ List.mem_cons_of_mem _ hl', h.shape l ?_⟩
    rw [hc]
    exact hl'
  have howes : ¬ d.Owes k := by
    rintro ⟨l, hl, hjob⟩
    rw [(hsub l hl).2] at hjob
    cases hjob
  refine ⟨⟨fun l hl => (hsub l (List.mem_of_mem_tail hl)).2, ?_, ?_, ?_, ?_⟩, howes⟩
  · rw [hpoint]
    exact h.pruned
  · rw [hpoint, htime]
    exact h.finishing
  · exact fun score hmem => absurd (owes_iff.mpr ⟨score, hmem⟩) howes
  · intro hk htouches
    have hholds := htouches.resolve_right howes
    rw [hpoint] at hholds
    obtain ⟨record, hidle⟩ := (h.listed hk (Or.inl hholds)).1
    exact ⟨⟨record, hpoint.trans hidle⟩, howes⟩

theorem Listed.pay (h : Listed k s) (hinv : Inv k t.base) (hcarried : Carried k t.base)
    (before : s.live.Perm (c :: rest)) (after : t.live.Perm (d :: rest)) {listing : Listing}
    {owed : List Listing} (hc : c.owed = listing :: owed)
    (store : t.store = { s.store with recent := listing.apply s.store.recent })
    (hpoint : d.point = c.point) (htime : d.time = c.time) (howed : d.owed = owed ∨ d.owed = []) :
    Listed k t := by
  have hmem : c ∈ s.live := before.mem_iff.mpr List.mem_cons_self
  have hsound := h.sound c hmem
  obtain ⟨hd, howes⟩ := hsound.paid hc hpoint htime howed
  have htouches : d.Touches k → c.Touches k := by
    rintro (hholds | hd)
    · exact Or.inl (hpoint ▸ hholds)
    · exact absurd hd howes
  -- a job that this command lists is one that the client may write
  have hlists : ∀ {score}, listing = .zadd k score → Ended s k score ∧
      (Holds k c.point → c.Idle k) ∧ c.Touches k := by
    intro score he
    have hzadd : Listing.zadd k score ∈ c.owed := by
      rw [hc, he]
      exact List.mem_cons_self
    exact ⟨(hsound.owed score hzadd).1, (hsound.owed score hzadd).2,
      Or.inr (owes_iff.mpr ⟨score, hzadd⟩)⟩
  have hstate : t.store.redis = s.store.redis := by rw [store]
  have hold : ∀ {e}, e ∈ t.store.recent.items → e ∈ s.store.recent.items ∨ listing = .zadd e.1 e.2 := by
    intro e he
    rw [store] at he
    exact mem_apply he
  refine ⟨hinv, hcarried, ?_, fun x hx => ?_, fun score hscore => ?_⟩
  · have hsingle := h.single
    rw [before.countP_eq, List.countP_cons] at hsingle
    rw [after.countP_eq, List.countP_cons, hstate]
    have hle : (if decide (d.Touches k) = true then 1 else 0) ≤
        if decide (c.Touches k) = true then 1 else 0 := by
      by_cases hdt : d.Touches k
      · rw [if_pos (decide_eq_true hdt), if_pos (decide_eq_true (htouches hdt))]
      · rw [if_neg (fun he => hdt (of_decide_eq_true he))]
        exact Nat.zero_le _
    omega
  · have hx' : x.Sound s k := by
      rcases List.mem_cons.mp (after.mem_iff.mp hx) with rfl | hx
      · exact hd
      · exact h.sound x (before.mem_iff.mpr (List.mem_cons_of_mem c hx))
    refine hx'.congr (by rw [hstate]) (by rw [store]) fun hk hxt => ?_
    obtain ⟨score, hscore⟩ := SortedSet.mem_members.mp hk
    rcases hold hscore with hscore | he
    · exact hx'.listed (SortedSet.mem_members.mpr ⟨score, hscore⟩) hxt
    · -- the job has just been listed: nobody else has it, and the client may hold a retry
      obtain ⟨-, hidle, hct⟩ := hlists he
      rcases List.mem_cons.mp (after.mem_iff.mp hx) with rfl | hx
      · have hholds := hxt.resolve_right howes
        rw [hpoint] at hholds
        obtain ⟨record, hidle⟩ := hidle hholds
        exact ⟨⟨record, hpoint.trans hidle⟩, howes⟩
      · exact absurd hxt ((h.alone before hct).2 x hx)
  · rw [Ended, hstate, show t.store.completedAt = s.store.completedAt by rw [store]]
    rcases hold hscore with hscore | he
    · exact h.listed score hscore
    · obtain ⟨hended, -, hct⟩ := hlists he
      exact ⟨hended, (h.alone before hct).1⟩

/-! ### A command of the queue -/

variable (cfg ch) in
theorem act_point (hc : c.owed = []) :
    c.act cfg ch s.store =
      ({ s.store with
          redis := (c.point.act cfg ch s.store.redis).1
          completedAt := writeCompleted s.store.completedAt (c.completes ch) },
        c.next ch s.store.completedAt (c.point.act cfg ch s.store.redis).2) := by
  rw [Client.act, hc]

variable (ch) in
theorem next_owed (completedAt : JobId → Option Nat) (q : Point) (hc : c.owed = []) :
    (c.next ch completedAt q).owed = [] ∨
      (∃ j retry, c.point = .finishRemove j retry ∧
        (c.next ch completedAt q).owed = listings j c.time) ∨
      ∃ call j removed rest, c.point = .pruneSave call j removed rest ∧
        (c.next ch completedAt q).owed = listings j ch.now := by
  obtain ⟨point, loaded, time, owed⟩ := c
  obtain rfl : owed = [] := hc
  cases point with
  | finishRemove j retry => exact Or.inr (Or.inl ⟨j, retry, rfl, rfl⟩)
  | pruneSave call j removed rest => exact Or.inr (Or.inr ⟨call, j, removed, rest, rfl, rfl⟩)
  | _ => exact Or.inl rfl

theorem job_of_mem_listings {j : JobId} {time score : Nat} (h : .zadd k score ∈ listings j time) :
    j = k ∧ time = score := by
  simpa [listings, eq_comm] using h

theorem next_shape {completedAt : JobId → Option Nat} {q : Point} (hc : c.owed = []) :
    ∀ listing ∈ (c.next ch completedAt q).owed.tail, listing.job = none := by
  intro listing hmem
  have hlistings : ∀ {j time}, listing ∈ (listings j time).tail → listing.job = none := by
    intro j time h
    rcases List.mem_cons.mp h with rfl | h
    · rfl
    · rw [List.mem_singleton.mp h]
      rfl
  rcases next_owed ch completedAt q hc with
    he | ⟨j, retry, -, he⟩ | ⟨call, j, removed, rest, -, he⟩ <;> rw [he] at hmem
  · exact absurd hmem List.not_mem_nil
  · exact hlistings hmem
  · exact hlistings hmem

/-- The client writes the time of a job that it may write, but for a prune that has
removed nothing. -/
theorem completes_of_not_holds (h : ¬ Holds k c.point)
    (hp : ∀ call rest, c.point ≠ .pruneSave call k 0 rest) (completedAt : JobId → Option Nat) :
    writeCompleted completedAt (c.completes ch) k = completedAt k := by
  have hne : ∀ {j : JobId} {time : Option Nat}, j ≠ k →
      writeCompleted completedAt (some (j, time)) k = completedAt k :=
    fun hj => Function.update_of_ne (Ne.symm hj) _ _
  obtain ⟨point, loaded, time, owed⟩ := c
  cases point with
  | markSave j _ _ | finishSave j _ _ _ | retrySave j _ | recoverSave j _ _ =>
    exact hne fun e => h (Or.inl (congrArg some e))
  | save call => exact hne fun e => h (Or.inl (congrArg some e))
  | pruneSave call j removed rest =>
    refine hne ?_
    rintro rfl
    cases removed with
    | zero => exact hp call rest rfl
    | succ n => exact h (Or.inr rfl)
  | _ => rfl

theorem Client.Orderly.prune (h : c.Orderly s) (hc : c.owed = []) (call : Call)
    (rest : List (JobId × Option Priority)) : c.point ≠ .pruneSave call k 0 rest := by
  intro hp
  have horderly := h (List.isEmpty_iff.mpr hc)
  rw [hp] at horderly
  cases horderly

/-- While a job is listed, no client that may write it sends a command. -/
theorem Client.Orderly.not_listed (h : c.Orderly s) (hc : c.owed = []) (hsound : c.Sound s k)
    (hholds : Holds k c.point) : k ∉ s.store.recent.members := by
  intro hk
  obtain ⟨⟨record, hidle⟩, -⟩ := hsound.listed hk (Or.inl hholds)
  have horderly := h (List.isEmpty_iff.mpr hc)
  rw [hidle] at horderly
  exact of_decide_eq_true horderly hk

theorem holds_of_touches (hc : c.owed = []) (h : c.Touches k) : Holds k c.point := by
  refine h.resolve_right ?_
  rintro ⟨listing, hmem, -⟩
  rw [hc] at hmem
  exact absurd hmem List.not_mem_nil

theorem touches_of_holds (h : Holds k c.point) : c.Touches k := Or.inl h

theorem owed_error_nil {listing : Listing} (h : listing ∈ c.error.owed) : False := by
  rw [owed_error] at h
  exact absurd h List.not_mem_nil

/-- The client, after a command of the queue, or after one that has raised. -/
structure Sends (cfg : Config) (ch : Choice) (s t : System) (c d : Client) (rest : List Client) :
    Prop where
  before : s.live.Perm (c :: rest)
  after : t.live.Perm (d :: rest)
  owed : c.owed = []
  store : t.store = (c.act cfg ch s.store).1
  next : d = (c.act cfg ch s.store).2 ∨ d = c.error

section Sends

variable (hs : Sends cfg ch s t c d rest)
include hs

theorem Sends.redis : t.store.redis = (c.point.act cfg ch s.store.redis).1 := by
  rw [hs.store, act_point _ _ hs.owed]

theorem Sends.completedAt :
    t.store.completedAt = writeCompleted s.store.completedAt (c.completes ch) := by
  rw [hs.store, act_point _ _ hs.owed]

theorem Sends.recent : t.store.recent = s.store.recent := by
  rw [hs.store, act_point _ _ hs.owed]

theorem Sends.mem : c ∈ s.live := hs.before.mem_iff.mpr List.mem_cons_self

theorem Sends.next_cases :
    d = c.next ch s.store.completedAt (c.point.act cfg ch s.store.redis).2 ∨ d = c.error := by
  have hnext := hs.next
  rw [act_point _ _ hs.owed] at hnext
  exact hnext

theorem Sends.point : d.point = (c.point.act cfg ch s.store.redis).2 ∨
    d = c.error ∧ d.point = c.point.error := by
  rcases hs.next_cases with rfl | rfl
  · exact Or.inl (point_next _ _ _ _)
  · rw [point_error, if_pos hs.owed]
    exact Or.inr ⟨rfl, rfl⟩

/-- What the client owes is for a job that it may have written. -/
theorem Sends.owes {score : Nat} (h : .zadd k score ∈ d.owed) :
    (∃ retry, c.point = .finishRemove k retry ∧ score = c.time) ∨
      ∃ call removed rest, c.point = .pruneSave call k removed rest ∧ score = ch.now := by
  rcases hs.next_cases with rfl | rfl
  · rcases next_owed ch s.store.completedAt
      (c.point.act cfg ch s.store.redis).2 hs.owed with
      he | ⟨j, retry, hp, he⟩ | ⟨call, j, removed, rest', hp, he⟩ <;> rw [he] at h
    · exact absurd h List.not_mem_nil
    · obtain ⟨rfl, rfl⟩ := job_of_mem_listings h
      exact Or.inl ⟨retry, hp, rfl⟩
    · obtain ⟨rfl, rfl⟩ := job_of_mem_listings h
      exact Or.inr ⟨call, removed, rest', hp, rfl⟩
  · exact (owed_error_nil h).elim

theorem Sends.shape : ∀ listing ∈ d.owed.tail, listing.job = none := by
  rcases hs.next_cases with rfl | rfl
  · exact next_shape hs.owed
  · exact fun listing hmem => (owed_error_nil (List.mem_of_mem_tail hmem)).elim

/-- A prune that the client has begun has taken the job out of its list. -/
theorem Sends.prune {call : Call} {n : Nat} {ids : List (JobId × Option Priority)}
    (h : d.point = .pruneSave call k (n + 1) ids) : 0 < s.store.redis.queued k ∧
      t.store.redis.stateOf k = s.store.redis.stateOf k := by
  rcases hs.point with hp | ⟨-, hp⟩
  · obtain ⟨priority, hpoint, hcount⟩ := act_prune (hp.symm.trans h)
    have hrem := s.store.redis.queued_lrem priority k k
    rw [if_pos rfl, hcount] at hrem
    refine ⟨by omega, ?_⟩
    rw [hs.redis, hpoint]
    rfl
  · have hgap := error_gap c.point
    rw [← hp, h] at hgap
    cases hgap

/-- The job counts once while it waits and once while the client may write or list it. -/
theorem Sends.count (h : Listed k s) (horderly : c.Orderly s) :
    t.store.redis.queued k + (if d.Touches k then 1 else 0) ≤
        s.store.redis.queued k + (if c.Touches k then 1 else 0) ∨
      c.point.role = .recovery ∧ t.store.redis.queued k = s.store.redis.queued k ∧
        s.store.redis.stateOf k = some .running := by
  have hholds := act_holds cfg ch s.store.redis k c.point
  rw [← hs.redis] at hholds
  have hc : (if Holds k c.point then 1 else 0) ≤ if c.Touches k then 1 else 0 := by
    by_cases hp : Holds k c.point
    · rw [if_pos hp, if_pos (touches_of_holds hp)]
    · rw [if_neg hp]
      exact Nat.zero_le _
  by_cases hd : d.Touches k
  · rw [if_pos hd]
    rcases hd with hd | howes
    · rcases hs.point with hp | ⟨rfl, hp⟩
      · rw [← hp, if_pos hd] at hholds
        rcases hholds with hle | hrecovery
        · left
          omega
        · exact Or.inr hrecovery
      · left
        have hjob : c.point.error.job = some k := by
          rcases hp ▸ hd with hjob | hgap
          · exact hjob
          · rw [error_gap] at hgap
            cases hgap
        have hpjob := (error_job k hjob).1
        have hexp := h.queue.expects c.point (mem_base hs.mem) hpjob
        have hle := (error_act cfg ch s.store.redis k c.point hjob hexp).1
        rw [← hs.redis] at hle
        rw [if_pos (touches_of_holds (Or.inl hpjob))]
        omega
    · -- the entry is owed for a job that the client has just closed
      obtain ⟨score, hmem⟩ := owes_iff.mp howes
      left
      have hpoint : Holds k c.point ∧
          (c.point.act cfg ch s.store.redis).1.queued k = s.store.redis.queued k := by
        rcases hs.owes hmem with ⟨retry, hp, -⟩ | ⟨call, removed, ids, hp, -⟩
        · rw [hp]
          exact ⟨Or.inl rfl, rfl⟩
        · cases removed with
          | zero => exact absurd hp (horderly.prune hs.owed call ids)
          | succ n =>
            rw [hp]
            exact ⟨Or.inr rfl, rfl⟩
      rw [hs.redis, hpoint.2, if_pos (touches_of_holds hpoint.1)]
  · rw [if_neg hd]
    rcases hholds with hle | hrecovery
    · left
      omega
    · exact Or.inr hrecovery

/-- A client that may write the job, and so does alone. -/
theorem Sends.sound_of_touches (h : Listed k s) (horderly : c.Orderly s) (hc : c.Touches k) :
    d.Sound t k ∧ k ∉ t.store.recent.members := by
  have hholds := holds_of_touches hs.owed hc
  have hsound := h.sound c hs.mem
  have hk : k ∉ t.store.recent.members := by
    rw [hs.recent]
    exact horderly.not_listed hs.owed hsound hholds
  obtain ⟨hqueued, -⟩ := h.alone hs.before hc
  refine ⟨⟨hs.shape, fun call n ids hp => ?_, fun hfin => ?_, fun score hmem => ?_,
    fun hmem => absurd hmem hk⟩, hk⟩
  · have := (hs.prune hp).1
    omega
  · rcases hs.next_cases with rfl | rfl
    · rw [point_next] at hfin
      rcases act_finishes hfin with ⟨outcome, retry, loaded, hp⟩ | ⟨retry, hp⟩
      · simp [hs.completedAt, Client.completes, Client.next, hp, writeCompleted]
      · have htime := hsound.finishing (by rw [hp]; rfl)
        simp only [hs.completedAt, Client.completes, Client.next, hp, writeCompleted]
        exact htime
    · rw [point_error, if_pos hs.owed, error_finishes] at hfin
      cases hfin
  · rcases hs.owes hmem with ⟨retry, hp, rfl⟩ | ⟨call, removed, ids, hp, rfl⟩
    · -- the record is closed, with this time
      have hexp := h.queue.expects c.point (mem_base hs.mem) (by rw [hp]; rfl)
      rw [hp] at hexp
      obtain ⟨st, hst, hterm⟩ := hexp
      have htime := hsound.finishing (by rw [hp]; rfl)
      refine ⟨⟨⟨st, ?_, hterm⟩, ?_⟩, fun hd => ?_⟩
      · rw [hs.redis, hp]
        exact hst
      · simp only [hs.completedAt, Client.completes, hp, writeCompleted]
        exact htime
      · rcases hs.point with hpoint | ⟨rfl, -⟩
        · rw [hp] at hpoint
          cases retry with
          | none =>
            rw [hpoint] at hd
            rcases hd with hjob | hgap
            · cases hjob
            · cases hgap
          | some record => exact ⟨record, hpoint⟩
        · exact (owed_error_nil hmem).elim
    · cases removed with
      | zero => exact absurd hp (horderly.prune hs.owed call ids)
      | succ n =>
        obtain ⟨st, hst, -⟩ := hsound.pruned call n ids hp
        have hst' : s.store.redis.stateOf k = some st := hst
        refine ⟨⟨⟨.failed, ?_, rfl⟩, ?_⟩, fun hd => ?_⟩
        · rw [hs.redis, hp]
          simp [Point.act, Redis.stateOf_setState, hst']
        · simp [hs.completedAt, Client.completes, hp, writeCompleted]
        · -- the call's own job has no record yet, the pruned one has
          rcases hs.point with hpoint | ⟨rfl, -⟩
          · rw [hp] at hpoint
            have howns := call.owns_nextScan ids
            rw [hpoint] at hd
            rcases hd with hjob | hgap
            · have hid := howns.job k hjob
              have hfits := h.carried.fits c.point (mem_base hs.mem) (by rw [hp]; exact congrArg some hid)
              rw [hp] at hfits
              have hnone : s.store.redis.job k = none := hfits
              rw [Redis.stateOf, hnone] at hst'
              cases hst'
            · rw [show (Point.act cfg ch s.store.redis (.pruneSave call k (n + 1) ids)).2 =
                nextScan call ids from rfl, gap_of_owns howns] at hgap
              cases hgap
          · exact (owed_error_nil hmem).elim

/-- A client that may not write the job. -/
theorem Sends.sound_of_not_touches (h : Listed k s) (horderly : c.Orderly s)
    (hc : ¬ c.Touches k)
    (hstate : t.store.redis.stateOf k = s.store.redis.stateOf k) : d.Sound t k := by
  have hp : ¬ Holds k c.point := fun hp => hc (touches_of_holds hp)
  have howes : ¬ d.Owes k := by
    intro howes
    obtain ⟨score, hmem⟩ := owes_iff.mp howes
    rcases hs.owes hmem with ⟨retry, hp', -⟩ | ⟨call, removed, ids, hp', -⟩
    · exact hp (by rw [hp']; exact Or.inl rfl)
    · cases removed with
      | zero => exact horderly.prune hs.owed call ids hp'
      | succ n => exact hp (by rw [hp']; exact Or.inr rfl)
  refine ⟨hs.shape, fun call n ids hd => ?_, fun hfin => ?_,
    fun score hmem => absurd (owes_iff.mpr ⟨score, hmem⟩) howes, fun hk hd => ?_⟩
  · obtain ⟨hqueued, -⟩ := hs.prune hd
    rw [hstate]
    exact h.queue.waiting hqueued
  · exfalso
    rcases hs.point with hpoint | ⟨-, hpoint⟩ <;> rw [hpoint] at hfin
    · rcases act_finishes hfin with ⟨outcome, retry, loaded, hp'⟩ | ⟨retry, hp'⟩ <;>
        exact hp (by rw [hp']; exact Or.inl rfl)
    · rw [error_finishes] at hfin
      cases hfin
  · exfalso
    rw [hs.recent] at hk
    obtain ⟨score, hmem⟩ := SortedSet.mem_members.mp hk
    obtain ⟨⟨⟨st, hst, hterm⟩, -⟩, hqueued⟩ := h.listed score hmem
    rcases hs.count h horderly with hle | ⟨-, -, hrunning⟩
    · rw [if_pos hd, if_neg hc, hqueued] at hle
      omega
    · rw [hrunning] at hst
      rw [← Option.some.inj hst] at hterm
      cases hterm

/-- No other client may write a job that a recovery takes in hands. -/
theorem Sends.alone_of_recovery (h : Listed k s) (hrole : c.point.role = .recovery)
    (hstate : s.store.redis.stateOf k = some .running) :
    s.store.redis.queued k = 0 ∧ ∀ x ∈ rest, ¬ x.Touches k := by
  have hne : ∀ st ∈ s.store.redis.stateOf k, st = .running :=
    fun st hst => (Option.some.inj (hstate.symm.trans hst)).symm
  refine ⟨Nat.eq_zero_of_not_pos fun hpos => ?_, fun x hx hxt => ?_⟩
  · obtain ⟨st, hst, hst'⟩ := h.queue.waiting hpos
    exact hst' (hne st hst)
  · have hxs : x ∈ s.live := hs.before.mem_iff.mpr (List.mem_cons_of_mem c hx)
    have hjob : x.point.job ≠ some k := by
      intro hjob
      have hperm : s.base.live.Perm (c.point :: rest.map Client.point) :=
        hs.before.map Client.point
      have hapart := (hperm.pairwise_iff Apart.symm).mp h.queue.apart
      have hcaller := ((List.pairwise_cons.mp hapart).1 x.point (List.mem_map_of_mem hx)).1 hrole
      exact expects_of_caller hcaller hjob (h.queue.expects x.point (mem_base hxs) hjob) hstate
    rcases hxt with (hjob' | hgap) | howes
    · exact hjob hjob'
    · obtain ⟨call, n, ids, hp⟩ := (gap_cases hgap).resolve_left hjob
      obtain ⟨st, hst, hst'⟩ := (h.sound x hxs).pruned call n ids hp
      exact hst' (hne st hst)
    · obtain ⟨score, hmem⟩ := owes_iff.mp howes
      obtain ⟨⟨st, hst, hterm⟩, -⟩ := ((h.sound x hxs).owed score hmem).1
      rw [hne st hst] at hterm
      cases hterm

theorem Listed.send (h : Listed k s) (hinv : Inv k t.base) (hcarried : Carried k t.base)
    (horderly : c.Orderly s) : Listed k t := by
  have hcount := hs.count h horderly
  have hsingle := h.single
  rw [hs.before.countP_eq, List.countP_cons] at hsingle
  simp only [decide_eq_true_eq] at hsingle
  have hafter : t.live.countP (fun x => x.Touches k) =
      rest.countP (fun x => x.Touches k) + if d.Touches k then 1 else 0 := by
    rw [hs.after.countP_eq, List.countP_cons]
    simp only [decide_eq_true_eq]
  have hzero : (∀ x ∈ rest, ¬ x.Touches k) → rest.countP (fun x => x.Touches k) = 0 :=
    fun hrest => List.countP_eq_zero.mpr fun x hx hxt => hrest x hx (of_decide_eq_true hxt)
  have hone : (if d.Touches k then 1 else 0) ≤ 1 := by split <;> decide
  have hmem : ∀ {x}, x ∈ rest → x ∈ s.live :=
    fun hx => hs.before.mem_iff.mpr (List.mem_cons_of_mem c hx)
  by_cases hc : c.Touches k
  · obtain ⟨hqueued, hrest⟩ := h.alone hs.before hc
    obtain ⟨hd, hk⟩ := hs.sound_of_touches h horderly hc
    refine ⟨hinv, hcarried, ?_, fun x hx => ?_, fun score hscore => ?_⟩
    · rw [hafter, hzero hrest]
      rw [if_pos hc] at hcount
      rcases hcount with hle | ⟨-, hle, -⟩ <;> omega
    · rcases List.mem_cons.mp (hs.after.mem_iff.mp hx) with rfl | hx
      · exact hd
      · exact .of_not_touches (hrest x hx) (h.sound x (hmem hx)).shape
    · exact absurd (SortedSet.mem_members.mpr ⟨score, hscore⟩) hk
  · have hp : ¬ Holds k c.point := fun hp => hc (touches_of_holds hp)
    have hjob : t.store.redis.job k = s.store.redis.job k := by
      rw [hs.redis]
      exact act_job_of_not_holds hp (horderly.prune hs.owed)
    have hstate : t.store.redis.stateOf k = s.store.redis.stateOf k :=
      congrArg (Option.map JobRecord.state) hjob
    have htime : t.store.completedAt k = s.store.completedAt k := by
      rw [hs.completedAt]
      exact completes_of_not_holds hp (horderly.prune hs.owed) _
    rw [if_neg hc] at hcount hsingle
    refine ⟨hinv, hcarried, ?_, fun x hx => ?_, fun score hscore => ?_⟩
    · rw [hafter]
      rcases hcount with hle | ⟨hrole, hle, hrunning⟩
      · omega
      · obtain ⟨hqueued, hrest⟩ := hs.alone_of_recovery h hrole hrunning
        rw [hle, hqueued, hzero hrest]
        omega
    · rcases List.mem_cons.mp (hs.after.mem_iff.mp hx) with rfl | hx
      · exact hs.sound_of_not_touches h horderly hc hstate
      · have hsound := h.sound x (hmem hx)
        exact hsound.congr hstate htime (by rw [hs.recent]; exact hsound.listed)
    · rw [hs.recent] at hscore
      obtain ⟨hended, hqueued⟩ := h.listed score hscore
      rw [Ended, hstate, htime]
      refine ⟨hended, ?_⟩
      rcases hcount with hle | ⟨-, hle, -⟩ <;> omega

end Sends

/-! ## Runs -/

variable (cfg) in
theorem base_keeps (h : Inv k s.base ∧ Carried k s.base) (a : Action) :
    Inv k (step cfg s a).base ∧ Carried k (step cfg s a).base := by
  rcases base_step cfg s a with heq | heq <;> rw [heq]
  · exact h
  · exact ⟨h.1.step a, h.2.step h.1 a⟩

theorem Listed.step (h : Listed k s) (a : Action) (ha : Orderly s a) :
    Listed k (step cfg s a) := by
  obtain ⟨hinv, hcarried⟩ := base_keeps cfg ⟨h.queue, h.carried⟩ a
  rcases change cfg s a with ⟨gone, new, rest, hstill, before, after, -, hnew, -⟩ |
    ⟨call, hid, hstill, after, -, -⟩ | ⟨c, rest, hstill, before, after, -, -, -⟩ |
    ⟨c, d, ch, rest, before, after, store, -, -, heffect, hd⟩
  · refine h.of_still hinv hcarried hstill ?_ fun d hd => ?_
    · have hsingle := h.single
      have hzero : new.countP (fun x => x.Touches k) = 0 :=
        List.countP_eq_zero.mpr fun x hx hxt => (hnew x hx).not_touches (of_decide_eq_true hxt)
      rw [before.countP_eq, List.countP_append] at hsingle
      rw [after.countP_eq, List.countP_append, hzero]
      omega
    · rcases List.mem_append.mp (after.mem_iff.mp hd) with hd | hd
      · refine .of_not_touches (hnew d hd).not_touches ?_
        rw [(hnew d hd).owed]
        exact fun _ hmem => absurd hmem List.not_mem_nil
      · exact h.sound d (before.mem_iff.mpr (List.mem_append_right _ hd))
  · exact h.call hinv hcarried hstill hid after
  · refine h.of_still hinv hcarried hstill ?_ fun d hd => ?_
    · have hsingle := h.single
      rw [before.countP_eq, List.countP_cons] at hsingle
      rw [after.countP_eq, List.countP_cons]
      by_cases hct : c.error.Touches k
      · rw [if_pos (decide_eq_true hct)]
        rw [if_pos (decide_eq_true (touches_of_error hct))] at hsingle
        exact hsingle
      · rw [if_neg (fun he => hct (of_decide_eq_true he))]
        omega
    · rcases List.mem_cons.mp (after.mem_iff.mp hd) with rfl | hd
      · exact (h.sound c (before.mem_iff.mpr List.mem_cons_self)).error
      · exact h.sound d (before.mem_iff.mpr (List.mem_cons_of_mem c hd))
  · cases hc : c.owed with
    | nil =>
      have hs : Sends cfg ch s (Indexed.step cfg s a) c d rest :=
        ⟨before, after, hc, store, hd.imp (fun h => h.2.1) fun h => h.2.1⟩
      exact Listed.send hs h hinv hcarried (ha c heffect)
    | cons listing owed =>
      rw [act_owed _ _ hc] at store hd
      have hpoint : d.point = c.point ∧ d.time = c.time ∧ (d.owed = owed ∨ d.owed = []) := by
        rcases hd with ⟨-, rfl, -⟩ | ⟨-, rfl, -⟩
        · exact ⟨rfl, rfl, Or.inl rfl⟩
        · refine ⟨?_, time_error c, Or.inr (owed_error c)⟩
          rw [point_error, hc, if_neg (List.cons_ne_nil _ _)]
      exact h.pay hinv hcarried before after hc store hpoint.1 hpoint.2.1 hpoint.2.2

end

theorem listed_init (k : JobId) : Listed k .init where
  queue := inv_init
  carried := carried_init k
  single := Nat.zero_le 1
  sound _ h := absurd h List.not_mem_nil
  listed _ h := absurd h List.not_mem_nil

theorem listed_run (cfg : Config) (k : JobId) {actions : List Action}
    (h : Along (step cfg) Orderly .init actions) : Listed k (run cfg actions) :=
  h.invariant (Listed k) (fun _ a hs ha => hs.step a ha) (listed_init k)

end Cerid.Processor.Indexed
