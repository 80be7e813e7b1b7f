import Cerid.Processor.Covered
import Cerid.Processor.Listed

/-!
# The jobs that have finished

The list of the recent jobs holds each once, the one that ended last first, and it is
trimmed after each entry.  A job that has ended is listed, unless a trim has taken its
entry or the client that closed its record never came to list it.  What a listed job's
record says now is another matter: a failed attempt is listed before it is enqueued
again, under the same id.
-/

namespace Cerid.Processor.Indexed

/-- The client has closed the job's record and has yet to list the job. -/
def Client.Recording (k : JobId) (c : Client) : Prop := finishes c.point = some k ∨ c.Owes k

/-- The client has listed a job and has yet to trim the index. -/
def Client.untrimmed (c : Client) : Bool :=
  match c.owed with
  | .trimByScore _ :: _ | .trimByRank :: _ => true
  | .zadd _ _ :: _ | [] => false

/-- What the recent list says. -/
structure Accurate (s : System) : Prop where
  ended : ∀ e ∈ s.store.recent.items,
    (∃ record ∈ s.store.redis.job e.1, record.state.terminal = true) ∧
      s.store.completedAt e.1 = some e.2 ∧ s.store.redis.queued e.1 = 0
  once : s.store.recent.members.Nodup
  newest : s.store.recent.items.Pairwise fun a b => b.2 ≤ a.2
  bounded : s.store.recent.items.length ≤
    recentIndexMax + (s.live ++ s.cut).countP Client.untrimmed
  noted : ∀ j, ∀ record ∈ s.store.redis.job j, record.state.terminal = true →
    j ∈ s.store.recent.members ∨ j ∈ s.trimmed ∨ ∃ c ∈ s.live ++ s.cut, c.Recording j

/-! ## Jobs that have ended -/

section

variable {cfg : Config} {ch : Choice} {k : JobId} {s t : System} {c d : Client}
  {rest : List Client}

/-- A record that has ended had ended before, or the client has just closed it. -/
theorem terminal_next (hc : c.owed = []) {st : JobState}
    (h : (c.point.act cfg ch s.store.redis).1.stateOf k = some st) (hst : st.terminal = true) :
    (∃ st ∈ s.store.redis.stateOf k, st.terminal = true) ∨
      (c.next ch s.store.completedAt (c.point.act cfg ch s.store.redis).2).Recording k := by
  obtain ⟨point, loaded, time, owed⟩ := c
  obtain rfl : owed = [] := hc
  have hwrite : ∀ {j : JobId} {record : JobRecord}, record.state.terminal = false →
      (s.store.redis.hset j record).stateOf k = some st →
      ∃ st ∈ s.store.redis.stateOf k, st.terminal = true := by
    intro j record hopen h
    rw [Redis.stateOf_hset] at h
    split at h
    · rw [← Option.some.inj h, hopen] at hst
      cases hst
    · exact ⟨st, h, hst⟩
  cases point with
  | pop p ids =>
    rcases popped_cases s.store.redis p ids with hr | ⟨j, -, hr⟩ <;> simp only [Point.act, hr] at h <;>
      exact Or.inl ⟨st, h, hst⟩
  | markSave j _ _ | retrySave j _ | recoverSave j _ _ | save _ => exact Or.inl (hwrite rfl h)
  | finishSave j outcome retry loaded' =>
    simp only [Point.act, Redis.stateOf_hset] at h
    split at h
    · exact Or.inr (Or.inl (congrArg some ‹j = k›))
    · exact Or.inl ⟨st, h, hst⟩
  | pruneSave call j removed ids =>
    simp only [Point.act, Redis.stateOf_setState] at h
    split at h
    · exact Or.inr (Or.inr ⟨.zadd j ch.now, List.mem_cons_self, congrArg some ‹j = k›⟩)
    · exact Or.inl ⟨st, h, hst⟩
  | _ => exact Or.inl ⟨st, h, hst⟩

/-- The client goes on towards the entry. -/
theorem recording_next (hc : c.owed = []) (h : c.Recording k) :
    (c.next ch s.store.completedAt (c.point.act cfg ch s.store.redis).2).Recording k := by
  obtain ⟨point, loaded, time, owed⟩ := c
  obtain rfl : owed = [] := hc
  rcases h with hfin | ⟨listing, hmem, -⟩
  · cases point with
    | finishExpire j retry => exact Or.inl hfin
    | finishRemove j retry => exact Or.inr ⟨.zadd j time, List.mem_cons_self, hfin⟩
    | _ => cases hfin
  · exact absurd hmem List.not_mem_nil

theorem recording_paid {listing : Listing} {owed : List Listing} (hc : c.owed = listing :: owed)
    (h : c.Recording k) {recent : SortedSet JobId} :
    k ∈ (listing.apply recent).members ∨ Client.Recording k { c with owed } := by
  rcases h with hfin | ⟨l, hmem, hjob⟩
  · exact Or.inr (Or.inl hfin)
  · rw [hc] at hmem
    rcases List.mem_cons.mp hmem with rfl | hmem
    · cases l with
      | zadd j score =>
        obtain rfl := Option.some.inj hjob
        exact Or.inl (SortedSet.mem_members_add.mpr (Or.inl rfl))
      | trimByScore now | trimByRank => cases hjob
    · exact Or.inr (Or.inr ⟨l, hmem, hjob⟩)

/-- A job that has ended is listed, was trimmed, or has yet to be listed. -/
def Noted (k : JobId) (s : System) : Prop :=
  (∃ st ∈ s.store.redis.stateOf k, st.terminal = true) →
    k ∈ s.store.recent.members ∨ k ∈ s.trimmed ∨ ∃ c ∈ s.live ++ s.cut, c.Recording k

theorem Client.Blank.not_recording (h : c.Blank) : ¬ c.Recording k := by
  rintro (hfin | ⟨listing, hmem, -⟩)
  · have hjob := job_of_finishes hfin
    rw [h.job] at hjob
    cases hjob
  · rw [h.owed] at hmem
    exact absurd hmem List.not_mem_nil

theorem Noted.still (h : Noted k s) (hstill : Still s t)
    (hrec : ∀ c ∈ s.live ++ s.cut, c.Recording k → c ∈ t.live ++ t.cut) : Noted k t := by
  intro hended
  rw [hstill.stateOf] at hended
  rw [hstill.recent, hstill.trimmed]
  exact (h hended).imp_right fun h => h.imp_right fun ⟨c, hc, hck⟩ => ⟨c, hrec c hc hck, hck⟩

theorem Noted.acts (h : Noted k s) (before : s.live.Perm (c :: rest))
    (after : t.live.Perm (d :: rest)) (store : t.store = (c.act cfg ch s.store).1)
    (trimmed : ∀ j, j ∈ s.trimmed ∨ j ∈ s.store.recent.members →
      j ∈ t.trimmed ∨ j ∈ t.store.recent.members)
    (hd : d = (c.act cfg ch s.store).2 ∧ t.cut = s.cut ∨
      t.cut = (c.act cfg ch s.store).2 :: s.cut) : Noted k t := by
  intro hended
  have hnext : (c.act cfg ch s.store).2.Recording k → ∃ x ∈ t.live ++ t.cut, x.Recording k := by
    intro hrec
    refine ⟨_, ?_, hrec⟩
    rcases hd with ⟨rfl, -⟩ | he
    · exact List.mem_append_left _ (after.mem_iff.mpr List.mem_cons_self)
    · rw [he]
      exact List.mem_append_right _ List.mem_cons_self
  have hkept : ∀ {x : Client}, x ∈ rest ∨ x ∈ s.cut → x ∈ t.live ++ t.cut := by
    rintro x (hx | hx)
    · exact List.mem_append_left _ (after.mem_iff.mpr (List.mem_cons_of_mem _ hx))
    · refine List.mem_append_right _ ?_
      rcases hd with ⟨-, he⟩ | he <;> rw [he]
      · exact hx
      · exact List.mem_cons_of_mem _ hx
  -- what was noted before the command is noted after it
  have hnoted : (∃ st ∈ s.store.redis.stateOf k, st.terminal = true) →
      (c.Recording k → k ∈ t.store.recent.members ∨ (c.act cfg ch s.store).2.Recording k) →
      k ∈ t.store.recent.members ∨ k ∈ t.trimmed ∨ ∃ x ∈ t.live ++ t.cut, x.Recording k := by
    intro hold hc
    have htrim : k ∈ s.trimmed ∨ k ∈ s.store.recent.members →
        k ∈ t.store.recent.members ∨ k ∈ t.trimmed ∨ ∃ x ∈ t.live ++ t.cut, x.Recording k :=
      fun hk => (trimmed k hk).elim (fun h => Or.inr (Or.inl h)) Or.inl
    rcases h hold with hk | hk | ⟨x, hx, hxk⟩
    · exact htrim (Or.inr hk)
    · exact htrim (Or.inl hk)
    · rcases List.mem_append.mp hx with hx | hx
      · rcases List.mem_cons.mp (before.mem_iff.mp hx) with rfl | hx
        · exact (hc hxk).imp_right fun hrec => Or.inr (hnext hrec)
        · exact Or.inr (Or.inr ⟨x, hkept (Or.inl hx), hxk⟩)
      · exact Or.inr (Or.inr ⟨x, hkept (Or.inr hx), hxk⟩)
  cases hc : c.owed with
  | nil =>
    have hact := act_point cfg ch (s := s) hc
    obtain ⟨st, hst, hterm⟩ := hended
    rw [store, hact] at hst
    rcases terminal_next hc hst hterm with hold | hrec
    · refine hnoted hold fun hck => Or.inr ?_
      rw [hact]
      exact recording_next hc hck
    · exact Or.inr (Or.inr (hnext (by rw [hact]; exact hrec)))
  | cons listing owed =>
    have hact := act_owed cfg ch (s := s) hc
    rw [store, hact] at hended
    refine hnoted hended fun hck => ?_
    rw [store, hact]
    exact recording_paid hc hck

theorem Noted.step (h : Noted k s) (a : Action) : Noted k (Indexed.step cfg s a) := by
  rcases change cfg s a with ⟨gone, new, rest, hstill, before, after, cut, -, -⟩ |
    ⟨call, -, hstill, after, cut, -⟩ | ⟨c, rest, hstill, before, after, cut, -, -⟩ |
    ⟨c, d, ch, rest, before, after, store, trimmed, -, -, hd⟩
  · refine h.still hstill fun c hc hck => ?_
    rcases List.mem_append.mp hc with hc | hc
    · rcases List.mem_append.mp (before.mem_iff.mp hc) with hgone | hrest
      · rcases cut with ⟨he, -⟩ | ⟨-, hblank⟩
        · rw [he]
          exact List.mem_append_right _ (List.mem_append_left _ hgone)
        · exact absurd hck (hblank c hgone).not_recording
      · exact List.mem_append_left _ (after.mem_iff.mpr (List.mem_append_right _ hrest))
    · refine List.mem_append_right _ ?_
      rcases cut with ⟨he, -⟩ | ⟨he, -⟩ <;> rw [he]
      · exact List.mem_append_right _ hc
      · exact hc
  · refine h.still hstill fun c hc hck => ?_
    rw [after, cut]
    rcases List.mem_append.mp hc with hc | hc
    · exact List.mem_append_left _ (List.mem_cons_of_mem _ hc)
    · exact List.mem_append_right _ hc
  · refine h.still hstill fun x hx hxk => ?_
    rw [cut]
    rcases List.mem_append.mp hx with hx | hx
    · rcases List.mem_cons.mp (before.mem_iff.mp hx) with rfl | hx
      · exact List.mem_append_right _ List.mem_cons_self
      · exact List.mem_append_left _ (after.mem_iff.mpr (List.mem_cons_of_mem _ hx))
    · exact List.mem_append_right _ (List.mem_cons_of_mem _ hx)
  · exact h.acts before after store trimmed (hd.imp And.right fun h => h.2.2)

end

/-! ## The cap -/

/-- The index exceeds its cap by the entries that have not been followed by a trim. -/
structure Bounded (s : System) : Prop where
  paying : ∀ c ∈ s.live, ∃ j time, c.owed <:+ listings j time
  length : s.store.recent.items.length ≤
    recentIndexMax + (s.live ++ s.cut).countP Client.untrimmed

section

variable {cfg : Config} {ch : Choice} {s t : System} {c d : Client} {rest : List Client}

theorem untrimmed_of_owed (h : c.owed = []) : c.untrimmed = false := by
  rw [Client.untrimmed, h]

theorem Bounded.still (h : Bounded s) (hstill : Still s t)
    (hpaying : ∀ d ∈ t.live, d ∈ s.live ∨ d.owed = [])
    (hcount : (s.live ++ s.cut).countP Client.untrimmed ≤
      (t.live ++ t.cut).countP Client.untrimmed) : Bounded t where
  paying d hd := by
    rcases hpaying d hd with hd | he
    · exact h.paying d hd
    · exact ⟨0, 0, he ▸ List.nil_suffix⟩
  length := by
    rw [hstill.recent]
    exact Nat.le_trans h.length (Nat.add_le_add_left hcount _)

theorem suffix_listings {j : JobId} {time : Nat} {owed : List Listing}
    (h : owed <:+ listings j time) : owed = [] ∨ owed = listings j time ∨
      owed = [.trimByScore time, .trimByRank] ∨ owed = [.trimByRank] := by
  simp only [listings, List.suffix_cons_iff, List.suffix_nil] at h
  rcases h with h | h | h | h
  · exact Or.inr (Or.inl h)
  · exact Or.inr (Or.inr (Or.inl h))
  · exact Or.inr (Or.inr (Or.inr h))
  · exact Or.inl h

theorem Bounded.acts (h : Bounded s) (before : s.live.Perm (c :: rest))
    (after : t.live.Perm (d :: rest)) (store : t.store = (c.act cfg ch s.store).1)
    (hd : d = (c.act cfg ch s.store).2 ∧ t.cut = s.cut ∨
      d = c.error ∧ t.cut = (c.act cfg ch s.store).2 :: s.cut) : Bounded t := by
  have hmem : c ∈ s.live := before.mem_iff.mpr List.mem_cons_self
  have hrest : ∀ x ∈ rest, ∃ j time, x.owed <:+ listings j time :=
    fun x hx => h.paying x (before.mem_iff.mpr (List.mem_cons_of_mem c hx))
  -- the client and what an error has cut off count as the client after the command
  have hcount : (t.live ++ t.cut).countP Client.untrimmed + (if c.untrimmed then 1 else 0) =
      (s.live ++ s.cut).countP Client.untrimmed +
        if (c.act cfg ch s.store).2.untrimmed then 1 else 0 := by
    rw [List.countP_append, List.countP_append, after.countP_eq, before.countP_eq,
      List.countP_cons, List.countP_cons]
    rcases hd with ⟨rfl, he⟩ | ⟨rfl, he⟩ <;> rw [he]
    · omega
    · rw [List.countP_cons, untrimmed_of_owed (owed_error c), if_neg Bool.false_ne_true]
      omega
  have hpaid : (∃ j time, (c.act cfg ch s.store).2.owed <:+ listings j time) →
      ∀ x ∈ t.live, ∃ j time, x.owed <:+ listings j time := by
    intro hnext x hx
    rcases List.mem_cons.mp (after.mem_iff.mp hx) with rfl | hx
    · rcases hd with ⟨rfl, -⟩ | ⟨rfl, -⟩
      · exact hnext
      · exact ⟨0, 0, owed_error c ▸ List.nil_suffix⟩
    · exact hrest x hx
  have hlength := h.length
  cases hc : c.owed with
  | nil =>
    have hact := act_point cfg ch (s := s) hc
    have hnext : ∃ j time, (c.act cfg ch s.store).2.owed <:+ listings j time := by
      rw [hact]
      rcases next_owed ch s.store.completedAt
        (c.point.act cfg ch s.store.redis).2 hc with
        he | ⟨j, retry, -, he⟩ | ⟨call, j, removed, ids, -, he⟩ <;> simp only [he]
      · exact ⟨0, 0, List.nil_suffix⟩
      · exact ⟨j, c.time, List.suffix_refl _⟩
      · exact ⟨j, ch.now, List.suffix_refl _⟩
    refine ⟨hpaid hnext, ?_⟩
    rw [untrimmed_of_owed hc, if_neg Bool.false_ne_true] at hcount
    rw [store, hact]
    show s.store.recent.items.length ≤ _
    omega
  | cons listing owed =>
    have hact := act_owed cfg ch (s := s) hc
    obtain ⟨j, time, hsuffix⟩ := h.paying c hmem
    have hnext : (c.act cfg ch s.store).2.owed = owed := by rw [hact]
    have howed : owed <:+ c.owed := hc ▸ List.suffix_cons listing owed
    refine ⟨hpaid ⟨j, time, hnext ▸ howed.trans hsuffix⟩, ?_⟩
    rw [store, hact]
    rw [hc] at hsuffix
    rcases suffix_listings hsuffix with he | he | he | he
    · cases he
    · -- an entry, which a trim will follow
      obtain ⟨rfl, rfl⟩ := List.cons.inj he
      have hadd := s.store.recent.length_add_le j time
      have hbefore : c.untrimmed = false := by rw [Client.untrimmed, hc]
      have hafter : (c.act cfg ch s.store).2.untrimmed = true := by rw [Client.untrimmed, hnext]
      rw [hbefore, hafter, if_neg Bool.false_ne_true, if_pos rfl] at hcount
      show (s.store.recent.add j time).items.length ≤ _
      omega
    · obtain ⟨rfl, rfl⟩ := List.cons.inj he
      have hkeep := s.store.recent.length_keep_le fun e => time < e.2 + jobRecordTtl
      have hbefore : c.untrimmed = true := by rw [Client.untrimmed, hc]
      have hafter : (c.act cfg ch s.store).2.untrimmed = true := by rw [Client.untrimmed, hnext]
      rw [hbefore, hafter, if_pos rfl] at hcount
      show (s.store.recent.keep _).items.length ≤ _
      omega
    · obtain ⟨rfl, rfl⟩ := List.cons.inj he
      exact Nat.le_trans (s.store.recent.length_top_le recentIndexMax) (Nat.le_add_right _ _)

theorem Bounded.step (h : Bounded s) (a : Action) : Bounded (Indexed.step cfg s a) := by
  rcases change cfg s a with ⟨gone, new, rest, hstill, before, after, cut, hnew, -⟩ |
    ⟨call, -, hstill, after, cut, -⟩ | ⟨c, rest, hstill, before, after, cut, -, -⟩ |
    ⟨c, d, ch, rest, before, after, store, -, -, -, hd⟩
  · refine h.still hstill (fun d hd => ?_) ?_
    · rcases List.mem_append.mp (after.mem_iff.mp hd) with hd | hd
      · exact Or.inr (hnew d hd).owed
      · exact Or.inl (before.mem_iff.mpr (List.mem_append_right _ hd))
    · rw [List.countP_append, List.countP_append, after.countP_eq, before.countP_eq,
        List.countP_append, List.countP_append]
      rcases cut with ⟨he, -⟩ | ⟨he, hblank⟩ <;> rw [he]
      · rw [List.countP_append]
        omega
      · have hzero : gone.countP Client.untrimmed = 0 := by
          refine List.countP_eq_zero.mpr fun c hc hct => ?_
          rw [untrimmed_of_owed (hblank c hc).owed] at hct
          cases hct
        omega
  · refine h.still hstill (fun d hd => ?_) ?_
    · rw [after] at hd
      rcases List.mem_cons.mp hd with rfl | hd
      · exact Or.inr rfl
      · exact Or.inl hd
    · rw [after, cut, List.cons_append, List.countP_cons]
      exact Nat.le_add_right _ _
  · refine h.still hstill (fun d hd => ?_) ?_
    · rcases List.mem_cons.mp (after.mem_iff.mp hd) with rfl | hd
      · exact Or.inr (owed_error c)
      · exact Or.inl (before.mem_iff.mpr (List.mem_cons_of_mem c hd))
    · rw [List.countP_append, List.countP_append, after.countP_eq, before.countP_eq, cut,
        List.countP_cons, List.countP_cons, List.countP_cons]
      omega
  · exact h.acts before after store (hd.imp And.right And.right)

end

/-! ## Runs -/

theorem noted_run (cfg : Config) (k : JobId) (actions : List Action) :
    Noted k (run cfg actions) :=
  foldl_invariant (p := fun _ => True) (step cfg) (Noted k) (fun _ a h _ => h.step a)
    (fun ⟨_, hst, _⟩ => by cases hst) fun _ _ => trivial

theorem bounded_run (cfg : Config) (actions : List Action) : Bounded (run cfg actions) :=
  foldl_invariant (p := fun _ => True) (step cfg) Bounded (fun _ a h _ => h.step a)
    ⟨fun _ h => absurd h List.not_mem_nil, Nat.zero_le _⟩ fun _ _ => trivial

/-- While no retry is written over a job that is listed, and no prune marks a job failed
that it has not taken out of its list, the recent list is right at every moment. -/
theorem recent_accurate (cfg : Config) (actions : List Action)
    (h : Along (step cfg) Orderly .init actions) : Accurate (run cfg actions) where
  ended e he := by
    obtain ⟨⟨⟨st, hst, hterm⟩, htime⟩, hqueued⟩ := (listed_run cfg e.1 h).listed e.2 he
    obtain ⟨record, hrecord, rfl⟩ := Option.map_eq_some_iff.mp hst
    exact ⟨⟨record, hrecord, hterm⟩, htime, hqueued⟩
  once := (run cfg actions).store.recent.nodup
  newest := (run cfg actions).store.recent.ordered
  bounded := (bounded_run cfg actions).length
  noted j record hrecord hterm :=
    noted_run cfg j actions ⟨record.state, congrArg (Option.map JobRecord.state) hrecord, hterm⟩

/-- A job is enqueued and runs to its end, and the loop looks for the next. -/
def completed : List Action :=
  taken ++ List.replicate 8 nextCommand

theorem recent_accurate_completed :
    (run sampleConfig completed).store.recent.items = [(0, 0)] ∧
      Accurate (run sampleConfig completed) :=
  ⟨by decide, recent_accurate sampleConfig completed (by decide)⟩

/-- The attempt fails and is listed, and the job is enqueued again. -/
def attempted : List Action :=
  taken ++ List.replicate 9 failingCommand

/-- A job that is listed waits for its second attempt. -/
theorem not_recent_ended : ¬ ∀ cfg actions, ∀ e ∈ (run cfg actions).store.recent.items,
    ∃ record ∈ (run cfg actions).store.redis.job e.1, record.state.terminal = true := by
  intro h
  exact absurd (h sampleConfig attempted (0, 0) (by decide)) (by decide)

end Cerid.Processor.Indexed
