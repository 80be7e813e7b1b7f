import Cerid.Lib.Run
import Cerid.Processor.Command

/-!
# No job is lost between two commands, save in the gaps

An accepted job is in a pending list or in the running set, or its record is
terminal, unless a client stands in one of three gaps: it has popped the job and
not yet marked it running, it has marked the job pending and not yet pushed it,
or it has pruned the job from its list and not yet marked it failed.  A client
that dies or meets an error in a gap leaves the job there.
-/

namespace Cerid.Processor

/-- A client is in a gap with the job, or ended in one. -/
def System.InGap (s : System) (j : JobId) : Prop :=
  (∃ p ∈ s.live, p.gap = some j) ∨ ∃ p ∈ s.stranded, p.loss = some j

instance (s : System) (j : JobId) : Decidable (s.InGap j) :=
  inferInstanceAs (Decidable ((∃ p ∈ s.live, _) ∨ ∃ p ∈ s.stranded, _))

/-! ## The invariant, job by job -/

/-- Clients that may be at work together: a recovery ends before the loops begin. -/
def Apart (p q : Point) : Prop :=
  (p.role = .recovery → q.role = .caller) ∧ (q.role = .recovery → p.role = .caller)

theorem Apart.symm {p q : Point} (h : Apart p q) : Apart q p := ⟨h.2, h.1⟩

/-- The job waits or is done, some client would lose it or has lost it, or it is
marked running and no recovery is about to take it out of the running set. -/
def Safe (s : System) (k : JobId) : Prop :=
  (∃ p ∈ s.live ++ s.stranded, p.loss = some k) ∨ 0 < s.redis.queued k ∨
    (∃ st ∈ s.redis.stateOf k, st.terminal = true) ∨
    k ∈ s.redis.running ∧ s.redis.stateOf k = some .running ∧
      ∀ p ∈ s.live, p.removing ≠ some k

theorem safe_of_accounted {s : System} {k : JobId} {p : Point} (hp : p ∈ s.live ++ s.stranded)
    (h : Accounted s.redis k p) : Safe s k := by
  rcases h with hloss | hqueued | hterm
  · exact Or.inl ⟨p, hp, hloss⟩
  · exact Or.inr (Or.inl hqueued)
  · exact Or.inr (Or.inr (Or.inl hterm))

structure Inv (k : JobId) (s : System) : Prop where
  nodup : s.redis.running.Nodup
  single : s.redis.queued k + s.live.countP (fun p => p.job = some k) ≤ 1
  waiting : 0 < s.redis.queued k → ∃ st ∈ s.redis.stateOf k, st ≠ .running
  recorded : k ∈ s.accepted → ∃ st, s.redis.stateOf k = some st
  fresh : s.nextId ≤ k → s.redis.queued k = 0 ∧ s.redis.stateOf k = none ∧ k ∉ s.accepted ∧
    ∀ p ∈ s.live, p.job ≠ some k
  calling : ∀ p ∈ s.live, p.role = .caller → p.job = some k → k ∉ s.accepted
  expects : ∀ p ∈ s.live, p.job = some k → p.expects (s.redis.stateOf k)
  pending : ∀ p ∈ s.live, p.pending.Nodup ∧ (k ∈ p.pending → k ∈ s.redis.running)
  apart : s.live.Pairwise Apart
  safe : k ∈ s.accepted → Safe s k

variable {cfg : Config} {k : JobId} {s : System} {p q : Point} {rest : List Point}

theorem Inv.perm (h : Inv k s) {live : List Point} (hp : s.live.Perm live) :
    Inv k { s with live } where
  nodup := h.nodup
  single := by
    rw [← hp.countP_eq]
    exact h.single
  waiting := h.waiting
  recorded := h.recorded
  fresh hk :=
    have ⟨hqueued, hstate, hacc, hlive⟩ := h.fresh hk
    ⟨hqueued, hstate, hacc, fun p hmem => hlive p (hp.mem_iff.mpr hmem)⟩
  calling p hmem := h.calling p (hp.mem_iff.mpr hmem)
  expects p hmem := h.expects p (hp.mem_iff.mpr hmem)
  pending p hmem := h.pending p (hp.mem_iff.mpr hmem)
  apart := (hp.pairwise_iff Apart.symm).mp h.apart
  safe hk := by
    rcases h.safe hk with ⟨p, hmem, hloss⟩ | hqueued | hterm | ⟨hrun, hst, hrem⟩
    · exact Or.inl ⟨p, ((hp.append_right s.stranded).mem_iff).mp hmem, hloss⟩
    · exact Or.inr (Or.inl hqueued)
    · exact Or.inr (Or.inr (Or.inl hterm))
    · exact Or.inr (Or.inr (Or.inr ⟨hrun, hst, fun p hmem => hrem p (hp.mem_iff.mpr hmem)⟩))

/-! ## A command -/

theorem Inv.held (h : Inv k s) (hlive : s.live = p :: rest) (hp : p.job = some k) :
    s.redis.queued k = 0 ∧ ∀ x ∈ rest, x.job ≠ some k := by
  have hsingle := h.single
  rw [hlive, List.countP_cons, if_pos (decide_eq_true hp)] at hsingle
  have hzero : rest.countP (fun x => x.job = some k) = 0 := by omega
  refine ⟨by omega, fun x hx hjob => ?_⟩
  have := List.countP_eq_zero.mp hzero x hx
  exact this (decide_eq_true hjob)

theorem expects_of_caller {state : Option JobState} (hrole : p.role = .caller)
    (hjob : p.job = some k) (h : p.expects state) : state ≠ some .running := by
  cases p with
  | lrange _ _ _ _ | smembers _ _ | hmget _ _ _ _ | pruneRemove _ _ _ _ | pruneSave _ _ _ _
  | save _ => exact h
  | expire _ | push _ =>
    obtain ⟨st, hst, hne⟩ := h
    rintro rfl
    exact hne (Option.some.inj hst).symm
  | done => cases hjob
  | _ => cases hrole

theorem acting (hlive : s.live = p :: rest) : p ∈ s.live := by
  rw [hlive]
  exact List.mem_cons_self

theorem mem_accepts {j : JobId} :
    j ∈ p.accepts.toList ++ s.accepted ↔ p.accepts = some j ∨ j ∈ s.accepted := by
  rw [List.mem_append, Option.mem_toList]

section

variable (h : Inv k s) (ch : Choice) (hlive : s.live = p :: rest)
include h hlive

theorem Inv.act_waiting (hpos : 0 < (p.act cfg ch s.redis).1.queued k) :
    ∃ st ∈ (p.act cfg ch s.redis).1.stateOf k, st ≠ .running := by
  rcases act_waits cfg ch s.redis k p hpos with hold | ⟨hjob, hst⟩
  · obtain ⟨st, hst, hne⟩ := h.waiting hold
    rcases act_state cfg ch s.redis k p with heq | ⟨hjob, -⟩ | heq
    · exact ⟨st, heq.trans hst, hne⟩
    · exact absurd (h.held hlive hjob).1 (Nat.pos_iff_ne_zero.mp hold)
    · exact ⟨.failed, by rw [heq, hst]; rfl, by decide⟩
  · exact hst (h.expects p (acting hlive) hjob)

theorem Inv.act_single : (p.act cfg ch s.redis).1.queued k +
    ((p.act cfg ch s.redis).2 :: rest).countP (fun x => x.job = some k) ≤ 1 := by
  have hsingle := h.single
  rw [hlive, List.countP_cons] at hsingle
  rw [List.countP_cons]
  simp only [decide_eq_true_eq] at hsingle ⊢
  rcases act_count cfg ch s.redis k p with hle | ⟨hrole, hqueued, hst⟩
  · omega
  · -- a recovery takes the job in hand: it does not wait, and only calls are at work
    have hzero : s.redis.queued k = 0 := by
      refine Nat.eq_zero_of_not_pos fun hpos => ?_
      obtain ⟨st, hst', hne⟩ := h.waiting hpos
      exact hne (Option.some.inj (hst'.symm.trans hst))
    have hnone : rest.countP (fun x => x.job = some k) = 0 := by
      refine List.countP_eq_zero.mpr fun x hx hjob => ?_
      have hcaller := ((List.pairwise_cons.mp (hlive ▸ h.apart)).1 x hx).1 hrole
      have hx' : x ∈ s.live := hlive ▸ List.mem_cons_of_mem p hx
      exact expects_of_caller hcaller (of_decide_eq_true hjob)
        (h.expects x hx' (of_decide_eq_true hjob)) hst
    rw [hqueued, hzero, hnone]
    split <;> decide

theorem Inv.act_recorded (hk : k ∈ p.accepts.toList ++ s.accepted) :
    ∃ st, (p.act cfg ch s.redis).1.stateOf k = some st := by
  rcases mem_accepts.mp hk with hk | hk
  · obtain ⟨st, hst, -⟩ := h.act_waiting ch hlive (act_accepts cfg ch s.redis k p hk).2.2
    exact ⟨st, hst⟩
  · obtain ⟨st, hst⟩ := h.recorded hk
    rcases act_state cfg ch s.redis k p with heq | ⟨-, hst'⟩ | heq
    · exact ⟨st, heq.trans hst⟩
    · exact hst'
    · exact ⟨.failed, by rw [heq, hst]; rfl⟩

theorem Inv.act_fresh (hk : s.nextId ≤ k) :
    (p.act cfg ch s.redis).1.queued k = 0 ∧ (p.act cfg ch s.redis).1.stateOf k = none ∧
      k ∉ p.accepts.toList ++ s.accepted ∧
      ∀ x ∈ (p.act cfg ch s.redis).2 :: rest, x.job ≠ some k := by
  obtain ⟨hqueued, hst, hk', hjobs⟩ := h.fresh hk
  have hjob := hjobs p (acting hlive)
  have hcount := (act_count cfg ch s.redis k p).resolve_right
    (fun hr => by rw [hst] at hr; exact absurd hr.2.2 (Option.some_ne_none _).symm)
  rw [hqueued, if_neg hjob] at hcount
  refine ⟨by omega, ?_, fun hmem => ?_, fun x hx hxjob => ?_⟩
  · rcases act_state cfg ch s.redis k p with heq | ⟨hjob', -⟩ | heq
    · exact heq.trans hst
    · exact absurd hjob' hjob
    · rw [heq, hst]
      rfl
  · exact (mem_accepts.mp hmem).elim (fun h' => hjob (act_accepts cfg ch s.redis k p h').1) hk'
  · rcases List.mem_cons.mp hx with rfl | hx
    · rw [if_pos hxjob] at hcount
      omega
    · exact hjobs x (hlive ▸ List.mem_cons_of_mem p hx) hxjob

theorem Inv.act_calling : ∀ x ∈ (p.act cfg ch s.redis).2 :: rest, x.role = .caller →
    x.job = some k → k ∉ p.accepts.toList ++ s.accepted := by
  intro x hx hrole hjob hk
  rcases List.mem_cons.mp hx with rfl | hx
  · rw [act_role] at hrole
    obtain ⟨hjob', hnone⟩ := act_call cfg ch s.redis k p hrole hjob
    rcases mem_accepts.mp hk with hk | hk
    · rw [hnone] at hk
      cases hk
    · exact h.calling p (acting hlive) hrole hjob' hk
  · rcases mem_accepts.mp hk with hk | hk
    · exact (h.held hlive (act_accepts cfg ch s.redis k p hk).1).2 x hx hjob
    · exact h.calling x (hlive ▸ List.mem_cons_of_mem p hx) hrole hjob hk

theorem Inv.act_expects : ∀ x ∈ (p.act cfg ch s.redis).2 :: rest, x.job = some k →
    x.expects ((p.act cfg ch s.redis).1.stateOf k) := by
  intro x hx hjob
  rcases List.mem_cons.mp hx with rfl | hx
  · exact Processor.act_expects cfg ch s.redis k p hjob (h.expects p (acting hlive))
  · have hold := h.expects x (hlive ▸ List.mem_cons_of_mem p hx) hjob
    rcases act_state cfg ch s.redis k p with heq | ⟨hp, -⟩ | heq
    · rw [heq]
      exact hold
    · exact absurd hjob ((h.held hlive hp).2 x hx)
    · rw [heq]
      exact hold.failed

theorem Inv.act_pending : ∀ x ∈ (p.act cfg ch s.redis).2 :: rest,
    x.pending.Nodup ∧ (k ∈ x.pending → k ∈ (p.act cfg ch s.redis).1.running) := by
  intro x hx
  rcases List.mem_cons.mp hx with rfl | hx
  · have hpending := h.pending p (acting hlive)
    exact Processor.act_pending cfg ch s.redis k p h.nodup hpending.1 hpending.2
  · by_cases hrole : x.role = .recovery
    · have hcaller := ((List.pairwise_cons.mp (hlive ▸ h.apart)).1 x hx).2 hrole
      rw [act_running cfg ch s.redis p hcaller]
      exact h.pending x (hlive ▸ List.mem_cons_of_mem p hx)
    · rw [pending_of_role hrole]
      exact ⟨List.nodup_nil, fun hk => absurd hk List.not_mem_nil⟩

theorem Inv.not_removing (hrole : p.role = .loop) :
    ∀ x ∈ (p.act cfg ch s.redis).2 :: rest, x.removing ≠ some k := by
  intro x hx
  have hx' : x.role ≠ .recovery := by
    rcases List.mem_cons.mp hx with rfl | hx
    · rw [act_role, hrole]
      decide
    · intro hx'
      have hcaller := ((List.pairwise_cons.mp (hlive ▸ h.apart)).1 x hx).2 hx'
      rw [hrole] at hcaller
      cases hcaller
  rw [removing_of_role hx']
  exact (Option.some_ne_none k).symm

theorem Inv.act (cfg : Config) : Inv k { s with
      redis := (p.act cfg ch s.redis).1
      live := (p.act cfg ch s.redis).2 :: rest
      accepted := p.accepts.toList ++ s.accepted } where
  nodup := act_running_nodup cfg ch s.redis p h.nodup
  single := h.act_single ch hlive
  waiting := h.act_waiting ch hlive
  recorded := h.act_recorded ch hlive
  fresh := h.act_fresh ch hlive
  calling := h.act_calling ch hlive
  expects := h.act_expects ch hlive
  pending := h.act_pending ch hlive
  apart := by
    have hapart := List.pairwise_cons.mp (hlive ▸ h.apart)
    refine List.pairwise_cons.mpr ⟨fun x hx => ?_, hapart.2⟩
    rw [Apart, act_role]
    exact hapart.1 x hx
  safe hk := by
    have hmem := acting hlive
    have hexp := h.expects p hmem
    have hq : (p.act cfg ch s.redis).2 ∈ (p.act cfg ch s.redis).2 :: rest ++ s.stranded :=
      List.mem_cons_self
    rcases mem_accepts.mp hk with hk | hk
    · exact Or.inr (Or.inl (act_accepts cfg ch s.redis k p hk).2.2)
    have hcall : p.role = .caller → p.job ≠ some k :=
      fun hrole hjob => h.calling p hmem hrole hjob hk
    rcases h.safe hk with ⟨x, hx, hloss⟩ | hqueued | hterm | ⟨hrun, hst, hrem⟩
    · rw [hlive] at hx
      rcases List.mem_cons.mp hx with hx | hx
      · rw [hx] at hloss
        rcases act_loss cfg ch s.redis k p hloss (h.recorded hk) hexp with
          hsafe | ⟨hrole, hrun, hst⟩
        · exact safe_of_accounted hq hsafe
        · exact Or.inr (Or.inr (Or.inr ⟨hrun, hst, h.not_removing ch hlive hrole⟩))
      · exact Or.inl ⟨x, List.mem_cons_of_mem _ hx, hloss⟩
    · exact safe_of_accounted hq (act_queued cfg ch s.redis k p hqueued)
    · exact safe_of_accounted hq (act_terminal cfg ch s.redis k p hcall hterm)
    · rcases act_marked cfg ch s.redis k p hrun hst (hrem p hmem) hcall hexp with
        hsafe | ⟨hrun', hst', hrem'⟩
      · exact safe_of_accounted hq hsafe
      · refine Or.inr (Or.inr (Or.inr ⟨hrun', hst', fun y hy => ?_⟩))
        rcases List.mem_cons.mp hy with rfl | hy
        · exact hrem'
        · exact hrem y (hlive ▸ List.mem_cons_of_mem p hy)

end

/-! ## Clients that end, go on after an error, or begin -/

theorem Inv.drop (h : Inv k s) (hlive : s.live = p :: rest) :
    Inv k { s with live := rest, stranded := p :: s.stranded } where
  nodup := h.nodup
  single := by
    have hsingle := h.single
    rw [hlive, List.countP_cons] at hsingle
    exact Nat.le_trans (Nat.add_le_add_left (Nat.le_add_right _ _) _) hsingle
  waiting := h.waiting
  recorded := h.recorded
  fresh hk :=
    have ⟨hqueued, hstate, hacc, hjobs⟩ := h.fresh hk
    ⟨hqueued, hstate, hacc, fun x hx => hjobs x (hlive ▸ List.mem_cons_of_mem p hx)⟩
  calling x hx := h.calling x (hlive ▸ List.mem_cons_of_mem p hx)
  expects x hx := h.expects x (hlive ▸ List.mem_cons_of_mem p hx)
  pending x hx := h.pending x (hlive ▸ List.mem_cons_of_mem p hx)
  apart := (List.pairwise_cons.mp (hlive ▸ h.apart)).2
  safe hk := by
    rcases h.safe hk with ⟨x, hx, hloss⟩ | hqueued | hterm | ⟨hrun, hst, hrem⟩
    · rw [hlive] at hx
      exact Or.inl ⟨x, (List.perm_middle.mem_iff).mpr hx, hloss⟩
    · exact Or.inr (Or.inl hqueued)
    · exact Or.inr (Or.inr (Or.inl hterm))
    · exact Or.inr (Or.inr (Or.inr
        ⟨hrun, hst, fun x hx => hrem x (hlive ▸ List.mem_cons_of_mem p hx)⟩))

theorem Inv.join (h : Inv k s) (hjob : q.job = some k → s.redis.queued k = 0 ∧
      (∀ x ∈ s.live, x.job ≠ some k) ∧ q.expects (s.redis.stateOf k) ∧ k < s.nextId ∧
      (q.role = .caller → k ∉ s.accepted))
    (hpending : q.pending = []) (hremoving : q.removing = none)
    (hapart : ∀ x ∈ s.live, Apart q x) : Inv k { s with live := q :: s.live } where
  nodup := h.nodup
  single := by
    rw [List.countP_cons]
    have hsingle := h.single
    simp only [decide_eq_true_eq]
    split
    · obtain ⟨hqueued, hnone, -⟩ := hjob ‹_›
      have hzero : s.live.countP (fun x => x.job = some k) = 0 :=
        List.countP_eq_zero.mpr fun x hx hx' => hnone x hx (of_decide_eq_true hx')
      omega
    · exact hsingle
  waiting := h.waiting
  recorded := h.recorded
  fresh hk := by
    obtain ⟨hqueued, hstate, hacc, hjobs⟩ := h.fresh hk
    refine ⟨hqueued, hstate, hacc, fun x hx hx' => ?_⟩
    rcases List.mem_cons.mp hx with rfl | hx
    · exact absurd (hjob hx').2.2.2.1 (Nat.not_lt_of_le hk)
    · exact hjobs x hx hx'
  calling x hx hrole hx' := by
    rcases List.mem_cons.mp hx with rfl | hx
    · exact (hjob hx').2.2.2.2 hrole
    · exact h.calling x hx hrole hx'
  expects x hx hx' := by
    rcases List.mem_cons.mp hx with rfl | hx
    · exact (hjob hx').2.2.1
    · exact h.expects x hx hx'
  pending x hx := by
    rcases List.mem_cons.mp hx with rfl | hx
    · rw [hpending]
      exact ⟨List.nodup_nil, fun hk => absurd hk List.not_mem_nil⟩
    · exact h.pending x hx
  apart := List.pairwise_cons.mpr ⟨hapart, h.apart⟩
  safe hk := by
    rcases h.safe hk with ⟨x, hx, hloss⟩ | hqueued | hterm | ⟨hrun, hst, hrem⟩
    · exact Or.inl ⟨x, List.mem_cons_of_mem q hx, hloss⟩
    · exact Or.inr (Or.inl hqueued)
    · exact Or.inr (Or.inr (Or.inl hterm))
    · refine Or.inr (Or.inr (Or.inr ⟨hrun, hst, fun x hx => ?_⟩))
      rcases List.mem_cons.mp hx with rfl | hx
      · rw [hremoving]
        exact (Option.some_ne_none k).symm
      · exact hrem x hx

theorem Inv.joinLoops (h : Inv k s) (n : Nat) (hrole : ∀ x ∈ s.live, x.role ≠ .recovery) :
    Inv k { s with live := List.replicate n .poll ++ s.live } := by
  induction n with
  | zero => exact h
  | succ n ih =>
    refine ih.join (fun hjob => by cases hjob) rfl rfl (fun x hx => ?_)
    refine ⟨fun hpoll => (by cases hpoll), fun hx' => ?_⟩
    rcases List.mem_append.mp hx with hx | hx
    · rw [List.eq_of_mem_replicate hx] at hx'
      cases hx'
    · exact absurd hx' (hrole x hx)

theorem Inv.abandon (h : Inv k s) (hlive : s.live = p :: rest) (hrole : q.role = p.role)
    (hjob : q.job = some k → s.redis.queued k = 0 ∧ (∀ x ∈ rest, x.job ≠ some k) ∧
      q.expects (s.redis.stateOf k) ∧ k < s.nextId ∧ (q.role = .caller → k ∉ s.accepted))
    (hpending : q.pending = []) (hremoving : q.removing = none) :
    Inv k { s with live := q :: rest, stranded := p :: s.stranded } := by
  refine (h.drop hlive).join hjob hpending hremoving (fun x hx => ?_)
  rw [Apart, hrole]
  exact (List.pairwise_cons.mp (hlive ▸ h.apart)).1 x hx

theorem removing_of_pending {p : Point} (h : p.pending = []) : p.removing = none := by
  cases p <;> first | rfl | cases h

/-- What a client's job is like before it meets an error with the job in hands. -/
theorem Inv.before_error (h : Inv k s) (hlive : s.live = p :: rest) (hjob : p.error.job = some k) :
    s.redis.queued k = 0 ∧ (∀ x ∈ rest, x.job ≠ some k) ∧ p.expects (s.redis.stateOf k) ∧
      k < s.nextId ∧ (p.error.role = .caller → k ∉ s.accepted) := by
  have hmem := acting hlive
  have hp := (error_job k hjob).1
  obtain ⟨hqueued, hrest⟩ := h.held hlive hp
  refine ⟨hqueued, hrest, h.expects p hmem hp, ?_, ?_⟩
  · exact Nat.lt_of_not_le fun hk => (h.fresh hk).2.2.2 p hmem hp
  · rw [error_role]
    exact fun hrole => h.calling p hmem hrole hp

theorem Inv.fail (h : Inv k s) (hlive : s.live = p :: rest) :
    Inv k { s with live := p.error :: rest, stranded := p :: s.stranded } := by
  refine h.abandon hlive (error_role p) (fun hjob => ?_) (error_pending p)
    (removing_of_pending (error_pending p))
  obtain ⟨hqueued, hrest, hexp, hk⟩ := h.before_error hlive hjob
  exact ⟨hqueued, hrest, error_expects k hjob hexp, hk⟩

theorem Inv.failApplied (h : Inv k s) (ch : Choice) (hlive : s.live = p :: rest) (cfg : Config) :
    Inv k { s with
      redis := (p.act cfg ch s.redis).1
      live := p.error :: rest
      stranded := (p.act cfg ch s.redis).2 :: s.stranded
      accepted := p.accepts.toList ++ s.accepted } := by
  refine (h.act ch hlive cfg).abandon rfl
    ((error_role p).trans (act_role cfg ch s.redis p).symm) (fun hjob => ?_) (error_pending p) (removing_of_pending (error_pending p))
  obtain ⟨hqueued, hrest, hexp, hk, hcall⟩ := h.before_error hlive hjob
  obtain ⟨hle, hexp'⟩ := error_act cfg ch s.redis k p hjob hexp
  rw [(error_job k hjob).2]
  exact ⟨Nat.eq_zero_of_le_zero (hqueued ▸ hle), hrest, hexp', hk, hcall⟩

theorem Inv.leave (h : Inv k s) (hlive : s.live = p :: rest) (hloss : p.loss = none) :
    Inv k { s with live := rest } :=
  let hdrop := h.drop hlive
  { hdrop with
    safe := by
      intro hk
      rcases hdrop.safe hk with ⟨x, hx, hxloss⟩ | hsafe
      · rcases List.mem_cons.mp (List.perm_middle.mem_iff.mp hx) with rfl | hx
        · rw [hloss] at hxloss
          cases hxloss
        · exact Or.inl ⟨x, hx, hxloss⟩
      · exact Or.inr hsafe }

theorem Inv.call (h : Inv k s) {c : Call} (hid : c.id = s.nextId) :
    Inv k { s with live := c.begin :: s.live, nextId := s.nextId + 1 } := by
  have hnext : Inv k { s with nextId := s.nextId + 1 } :=
    { h with fresh := fun hk => h.fresh (Nat.le_of_succ_le hk) }
  have howns := c.owns_begin
  refine hnext.join (fun hjob => ?_) howns.pending howns.removing (fun x _ => ?_)
  · have hk : s.nextId = k := hid.symm.trans (howns.job k hjob)
    obtain ⟨hqueued, hstate, hacc, hjobs⟩ := h.fresh (Nat.le_of_eq hk)
    refine ⟨hqueued, hjobs, howns.expects _ ?_, Nat.lt_succ_of_le (Nat.le_of_eq hk.symm),
      fun _ => hacc⟩
    rw [hstate]
    exact (Option.some_ne_none _).symm
  · rw [Apart, howns.role]
    exact ⟨fun h' => (by cases h'), fun _ => rfl⟩

/-! ## Runs -/

section

variable {i : Nat} (hi : s.live[i]? = some p)
include hi

theorem live_perm : s.live.Perm (p :: s.live.eraseIdx i) := by
  obtain ⟨hlt, rfl⟩ := List.getElem?_eq_some_iff.mp hi
  exact (List.getElem_cons_eraseIdx_perm hlt).symm

theorem live_set_perm (q : Point) : (s.live.set i q).Perm (q :: s.live.eraseIdx i) :=
  List.set_perm_cons_eraseIdx (List.getElem?_eq_some_iff.mp hi).1 q

end

theorem Inv.step (h : Inv k s) (a : Action) : Inv k (step cfg s a) := by
  have hlive : ∀ {i p}, s.live[i]? = some p → Inv k { s with live := p :: s.live.eraseIdx i } :=
    fun hi => h.perm (live_perm hi)
  cases a with
  | call entry jobType priority payload requiresLlm enqueuedAt => exact h.call rfl
  | start =>
    simp only [Processor.step]
    split
    · rename_i hcallers
      exact h.join (fun hjob => by cases hjob) rfl rfl
        (fun x hx => ⟨fun _ => hcallers x hx, fun hx' => by rw [hcallers x hx] at hx'; cases hx'⟩)
    · exact h
  | act i ch =>
    simp only [Processor.step]
    split
    · exact h
    · rename_i hi
      have hloops := ((hlive hi).leave rfl rfl).joinLoops cfg.concurrency
      refine hloops fun x hx hrole => ?_
      have hx' := ((List.pairwise_cons.mp (hlive hi).apart).1 x hx).2 hrole
      cases hx'
    · rename_i p hne hi
      exact ((hlive hi).act ch rfl cfg).perm (live_set_perm hi _).symm
  | fail i applied ch =>
    simp only [Processor.step]
    split
    · exact h
    · rename_i p hi
      split
      · have := ((hlive hi).failApplied ch rfl cfg).perm (live_set_perm hi _).symm
        simpa only [System.abandon, System.command, List.set_set] using this
      · exact ((hlive hi).fail rfl).perm (live_set_perm hi _).symm
  | drop i =>
    simp only [Processor.step]
    split
    · exact h
    · rename_i p hi
      exact (hlive hi).drop rfl
  | pause paused => exact { h with safe := h.safe }

theorem inv_init : Inv k .init where
  nodup := List.nodup_nil
  single := Nat.zero_le 1
  waiting h := absurd h (Nat.lt_irrefl 0)
  recorded h := absurd h List.not_mem_nil
  fresh _ := ⟨rfl, rfl, List.not_mem_nil, fun _ h => absurd h List.not_mem_nil⟩
  calling _ h := absurd h List.not_mem_nil
  expects _ h := absurd h List.not_mem_nil
  pending _ h := absurd h List.not_mem_nil
  apart := List.Pairwise.nil
  safe h := absurd h List.not_mem_nil

theorem inv_run (cfg : Config) (actions : List Action) : Inv k (run cfg actions) :=
  foldl_invariant (p := fun _ => True) (step cfg) (Inv k) (fun _ a h _ => h.step a) inv_init
    fun _ _ => trivial

theorem gap_or_pending {p : Point} (h : p.loss = some k) : p.gap = some k ∨ k ∈ p.pending := by
  cases p with
  | recoverExpire j rest loaded | recoverPush j rest loaded =>
    exact Or.inr (List.mem_cons.mpr (Or.inl (Option.some.inj h).symm))
  | _ => exact Or.inl h

/-- In every run, at every moment, an accepted job that is in no gap is
recoverable. -/
theorem accepted_recoverable (cfg : Config) (actions : List Action) (j : JobId)
    (haccepted : j ∈ (run cfg actions).accepted) (hgap : ¬ (run cfg actions).InGap j) :
    (run cfg actions).redis.Recoverable j := by
  have hinv : Inv j (run cfg actions) := inv_run cfg actions
  rcases hinv.safe haccepted with ⟨p, hp, hloss⟩ | hqueued | hterm | ⟨hrun, -, -⟩
  · rcases List.mem_append.mp hp with hp | hp
    · rcases gap_or_pending hloss with hp' | hpending
      · exact absurd (Or.inl ⟨p, hp, hp'⟩) hgap
      · exact Or.inr (Or.inl ((hinv.pending p hp).2 hpending))
    · exact absurd (Or.inr ⟨p, hp, hloss⟩) hgap
  · exact Or.inl ((Redis.queued_pos _ _).mp hqueued)
  · obtain ⟨st, hst, hterm⟩ := hterm
    obtain ⟨record, hrecord, rfl⟩ := Option.map_eq_some_iff.mp hst
    exact Or.inr (Or.inr ⟨record, hrecord, hterm⟩)
  · exact Or.inr (Or.inl hrun)

/-- One loop, and the limits of `ProcessorWorker` and the settings. -/
def sampleConfig : Config :=
  { concurrency := 1, maxRetries := 3, registry := ["digest_run"], pendingStaleTtl := 21600 }

/-- The next command of the client that came last. -/
def nextCommand : Action :=
  .act 0 { now := 0, order := [], instantiates := true, hold := false, succeeds := true }

/-- A job is enqueued, the worker starts, and a loop sends `commands` commands of
its own before it dies. -/
def dies (commands : Nat) : List Action :=
  .call .enqueueJob "digest_run" .low .empty false 0 :: List.replicate 3 nextCommand ++
    .start :: List.replicate (2 + commands) nextCommand ++ [.drop 0]

/-- The loop dies while the job runs; the next worker pushes it again. -/
theorem accepted_recoverable_requeued :
    let s := run sampleConfig (dies 9 ++ .start :: List.replicate 6 nextCommand)
    0 ∈ s.accepted ∧ ¬ s.InGap 0 ∧ s.redis.queue .low = [0] ∧ s.redis.Recoverable 0 := by
  have hacc : 0 ∈ (run sampleConfig (dies 9 ++ .start :: List.replicate 6 nextCommand)).accepted := by
    decide
  have hgap : ¬ (run sampleConfig (dies 9 ++ .start :: List.replicate 6 nextCommand)).InGap 0 := by
    decide
  exact ⟨hacc, hgap, by decide, accepted_recoverable _ _ _ hacc hgap⟩

/-- The loop dies with the job it has popped, and no later worker finds it. -/
theorem not_accepted_recoverable :
    ¬ ∀ cfg actions, ∀ j ∈ (run cfg actions).accepted, (run cfg actions).redis.Recoverable j := by
  intro h
  exact absurd (h sampleConfig (dies 4 ++ .start :: List.replicate 6 nextCommand) 0 (by decide))
    (by decide)

end Cerid.Processor
