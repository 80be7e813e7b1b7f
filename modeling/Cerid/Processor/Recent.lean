import Cerid.Lib.SortedSet
import Cerid.Processor.Carried

/-!
# The recent index

A job that ends is listed in `cerid:proc:recent` under its id, with the time of its
end as its score.  The commands that list it come after those that write its record
and take it out of the running set, one by one like the others: a client of the queue
owes them for a while, and a client that dies or meets an error never sends them.
Beneath them the queue runs as without the index.
-/

namespace Cerid.Processor.Indexed

def jobRecordTtl : Nat := 14 * 24 * 3600

def recentIndexMax : Nat := 1000

/-- A command on the index; the trims are those of `_trim_recent_index`. -/
inductive Listing where
  | zadd (j : JobId) (score : Nat)
  | trimByScore (now : Nat)
  | trimByRank

/-- The job that the command lists. -/
def Listing.job : Listing → Option JobId
  | .zadd j _ => some j
  | .trimByScore _ | .trimByRank => none

/-- `ZREMRANGEBYSCORE` takes the bound itself too, and `ZREMRANGEBYRANK` counts from
the lowest score. -/
def Listing.apply (recent : SortedSet JobId) : Listing → SortedSet JobId
  | .zadd j score => recent.add j score
  | .trimByScore now => recent.keep fun e => now < e.2 + jobRecordTtl
  | .trimByRank => recent.top recentIndexMax

/-- What a client does once the record is written and the job is out of the running set. -/
def listings (j : JobId) (time : Nat) : List Listing :=
  [.zadd j time, .trimByScore time, .trimByRank]

/-- Redis with the index and with the field `completed_at` of the records. -/
structure Store where
  redis : Redis
  completedAt : JobId → Option Nat
  recent : SortedSet JobId

/-- A client, with the `completed_at` of the record that it has read, the time that
`mark_completed`, `mark_failed` or `mark_held` has drawn, and the commands that it owes
the index. -/
structure Client where
  point : Point
  loaded : Option Nat
  time : Nat
  owed : List Listing

def Client.of (point : Point) : Client := { point, loaded := none, time := 0, owed := [] }

/-! ## One command -/

/-- The `completed_at` that a command writes. -/
def Client.completes (ch : Choice) (c : Client) : Option (JobId × Option Nat) :=
  match c.point with
  | .markSave j _ _ | .recoverSave j _ _ => some (j, c.loaded)
  | .finishSave j _ _ _ => some (j, some c.time)
  | .retrySave j _ => some (j, none)
  | .save call => some (call.id, none)
  | .pruneSave _ j _ _ => some (j, some ch.now)
  | _ => none

def writeCompleted (completedAt : JobId → Option Nat) :
    Option (JobId × Option Nat) → JobId → Option Nat
  | none => completedAt
  | some (j, time) => Function.update completedAt j time

/-- What a client reads or draws besides the record. -/
def Client.next (ch : Choice) (completedAt : JobId → Option Nat) (c : Client) (point : Point) :
    Client :=
  match c.point with
  | .markLoad j _ | .recoverLoad j _ => { c with point, loaded := completedAt j }
  | .finishLoad _ _ _ => { c with point, time := ch.now }
  | .finishRemove j _ => { c with point, owed := listings j c.time }
  | .pruneSave _ j _ _ => { c with point, owed := listings j ch.now }
  | _ => { c with point }

/-- The client's command, and the client after the reply. -/
def Client.act (cfg : Config) (ch : Choice) (s : Store) (c : Client) : Store × Client :=
  match c.owed with
  | listing :: owed => ({ s with recent := listing.apply s.recent }, { c with owed })
  | [] =>
    ({ s with
        redis := (c.point.act cfg ch s.redis).1
        completedAt := writeCompleted s.completedAt (c.completes ch) },
      c.next ch s.completedAt (c.point.act cfg ch s.redis).2)

/-- Where the client goes on when its command raises.  An entry is best effort, and so
are the trims. -/
def Client.error (c : Client) : Client :=
  match c.owed with
  | _ :: _ => { c with owed := [] }
  | [] => { c with point := c.point.error }

/-! ## Runs -/

/-- The queue with its index; `cut` are the clients that died or met an error, as they
were then, and `trimmed` the jobs that a trim has taken out of the index. -/
structure System where
  store : Store
  live : List Client
  stranded : List Point
  accepted : List JobId
  nextId : JobId
  cut : List Client
  trimmed : List JobId

def System.init : System where
  store := { redis := .empty, completedAt := fun _ => none, recent := .empty }
  live := []
  stranded := []
  accepted := []
  nextId := 0
  cut := []
  trimmed := []

/-- The queue beneath. -/
def System.base (s : System) : Processor.System where
  redis := s.store.redis
  live := s.live.map Client.point
  stranded := s.stranded
  accepted := s.accepted
  nextId := s.nextId

def Client.accepts (c : Client) : Option JobId :=
  if c.owed.isEmpty then c.point.accepts else none

/-- The `i`-th client's command takes effect. -/
def System.command (s : System) (cfg : Config) (ch : Choice) (i : Nat) (c : Client) : System :=
  let done := c.act cfg ch s.store
  { s with
    store := done.1
    live := s.live.set i done.2
    accepted := c.accepts.toList ++ s.accepted
    trimmed := s.store.recent.members.filter (· ∉ done.1.recent.members) ++ s.trimmed }

/-- The `i`-th client, `c`, goes on as after an error that came when it stood at `d`. -/
def System.abandon (s : System) (i : Nat) (c d : Client) : System :=
  { s with
    live := s.live.set i c.error
    stranded := if c.owed.isEmpty then d.point :: s.stranded else s.stranded
    cut := d :: s.cut }

def step (cfg : Config) (s : System) : Action → System
  | .call entry jobType priority payload requiresLlm enqueuedAt =>
    let c : Call := {
      entry, id := s.nextId, jobType, priority, payload, requiresLlm, enqueuedAt }
    { s with live := .of c.begin :: s.live, nextId := s.nextId + 1 }
  | .start =>
    if ∀ c ∈ s.live, c.point.role = .caller then { s with live := .of .members :: s.live } else s
  | .act i ch =>
    match s.live[i]? with
    | none => s
    | some { point := .recovered, owed := [], .. } =>
      { s with live := List.replicate cfg.concurrency (.of .poll) ++ s.live.eraseIdx i }
    | some c => s.command cfg ch i c
  | .fail i applied ch =>
    match s.live[i]? with
    | none => s
    | some c =>
      if applied then (s.command cfg ch i c).abandon i c (c.act cfg ch s.store).2
      else s.abandon i c c
  | .drop i =>
    match s.live[i]? with
    | none => s
    | some c =>
      { s with
        live := s.live.eraseIdx i
        stranded := c.point :: s.stranded
        cut := c :: s.cut }
  | .pause paused => { s with store.redis.paused := paused }

/-- The state after a run from the empty queue. -/
def run (cfg : Config) (actions : List Action) : System :=
  actions.foldl (step cfg) .init

/-! ## The queue beneath -/

section

variable (cfg : Config) (s : System)

theorem point_next (ch : Choice) (completedAt : JobId → Option Nat) (c : Client) (point : Point) :
    (c.next ch completedAt point).point = point := by
  unfold Client.next
  split <;> rfl

theorem base_live (i : Nat) : s.base.live[i]? = (s.live[i]?).map Client.point :=
  List.getElem?_map

theorem live_set_point {i : Nat} {c : Client} (hi : s.live[i]? = some c) :
    (s.live.map Client.point).set i c.point = s.live.map Client.point := by
  obtain ⟨hlt, rfl⟩ := List.getElem?_eq_some_iff.mp hi
  rw [← List.map_set, List.set_getElem_self]

theorem base_command (i : Nat) (ch : Choice) (c : Client) (h : c.owed = []) :
    (s.command cfg ch i c).base = s.base.command cfg ch i c.point := by
  obtain ⟨point, loaded, time, owed⟩ := c
  obtain rfl : owed = [] := h
  simp [System.command, System.base, Client.act, Client.accepts, Processor.System.command,
    List.map_set, point_next]

/-- A command on the index leaves the client where it stands. -/
theorem base_command_owed {i : Nat} (ch : Choice) {c : Client} (hi : s.live[i]? = some c)
    (h : c.owed ≠ []) : (s.command cfg ch i c).base = s.base := by
  obtain ⟨point, loaded, time, owed⟩ := c
  obtain ⟨listing, rest, rfl⟩ := List.exists_cons_of_ne_nil h
  have hset := live_set_point s hi
  simp [System.command, System.base, Client.act, Client.accepts, List.map_set] at hset ⊢
  exact hset

theorem point_error (c : Client) :
    c.error.point = if c.owed = [] then c.point.error else c.point := by
  obtain ⟨point, loaded, time, owed⟩ := c
  cases owed <;> rfl

theorem owed_error (c : Client) : c.error.owed = [] := by
  obtain ⟨point, loaded, time, owed⟩ := c
  cases owed <;> rfl

theorem base_abandon (i : Nat) (c d : Client) (h : c.owed = []) :
    (s.abandon i c d).base = s.base.abandon i d.point c.point.error := by
  simp [System.abandon, System.base, Processor.System.abandon, List.map_set, point_error, h]

theorem base_abandon_owed (i : Nat) {c : Client} (d : Client)
    (hset : s.base.live.set i c.point = s.base.live) (h : c.owed ≠ []) :
    (s.abandon i c d).base = s.base := by
  have hempty : c.owed.isEmpty = false := List.isEmpty_eq_false_iff.mpr h
  simp only [System.abandon, System.base, List.map_set, point_error, hempty, if_neg h] at hset ⊢
  simp [hset]

/-- A step is one of the queue beneath, or the queue beneath stands still. -/
theorem base_step (a : Action) :
    (step cfg s a).base = s.base ∨ (step cfg s a).base = Processor.step cfg s.base a := by
  cases a with
  | call entry jobType priority payload requiresLlm enqueuedAt => exact Or.inr rfl
  | start =>
    right
    have hiff : (∀ p ∈ s.base.live, p.role = .caller) ↔ ∀ c ∈ s.live, c.point.role = .caller :=
      List.forall_mem_map
    simp only [step, Processor.step, hiff]
    split <;> rfl
  | act i ch =>
    simp only [step, Processor.step, base_live]
    cases hi : s.live[i]? with
    | none => exact Or.inl rfl
    | some c =>
      obtain ⟨point, loaded, time, owed⟩ := c
      cases owed with
      | cons listing rest =>
        refine Or.inl ?_
        cases point <;> exact base_command_owed cfg s ch hi (List.cons_ne_nil _ _)
      | nil =>
        right
        cases point with
        | recovered => simp [System.base, List.eraseIdx_map, Client.of]
        | _ => exact base_command cfg s i ch _ rfl
  | fail i applied ch =>
    simp only [step, Processor.step, base_live]
    cases hi : s.live[i]? with
    | none => exact Or.inl rfl
    | some c =>
      have hset := live_set_point s hi
      by_cases h : c.owed = []
      · right
        cases applied with
        | true =>
          simp only [Option.map_some, if_pos, base_abandon _ _ _ _ h, base_command _ _ _ _ _ h]
          obtain ⟨point, loaded, time, owed⟩ := c
          obtain rfl : owed = [] := h
          simp only [Client.act, point_next]
          rfl
        | false => exact base_abandon s i c c h
      · left
        cases applied with
        | true =>
          have hbase := base_command_owed cfg s ch hi h
          show ((s.command cfg ch i c).abandon i c _).base = s.base
          rw [base_abandon_owed _ i _ (by rw [hbase]; exact hset) h, hbase]
        | false => exact base_abandon_owed s i c hset h
  | drop i =>
    simp only [step, Processor.step, base_live]
    cases hi : s.live[i]? with
    | none => exact Or.inl rfl
    | some c => exact Or.inr (by simp [System.base, List.eraseIdx_map])
  | pause paused => exact Or.inr rfl

end

/-- What holds of the queue in every run holds of it beneath its index. -/
theorem base_run (cfg : Config) (inv : Processor.System → Prop) (hinit : inv .init)
    (hstep : ∀ s a, inv s → inv (Processor.step cfg s a)) (actions : List Action) :
    inv (run cfg actions).base := by
  refine foldl_invariant (p := fun _ => True) (s := .init) (step cfg) (fun s => inv s.base)
    (fun s a h _ => ?_) hinit fun _ _ => trivial
  rcases base_step cfg s a with heq | heq <;> rw [heq]
  · exact h
  · exact hstep _ a h

/-! ## What a step does to the clients -/

/-- The client has no job in hands and owes nothing. -/
structure Client.Blank (c : Client) : Prop where
  job : c.point.job = none
  gap : c.point.gap = none
  owed : c.owed = []

/-- The lists, the records and the index are left alone. -/
structure Still (s t : System) : Prop where
  queue : t.store.redis.queue = s.store.redis.queue
  job : t.store.redis.job = s.store.redis.job
  running : t.store.redis.running = s.store.redis.running
  completedAt : t.store.completedAt = s.store.completedAt
  recent : t.store.recent = s.store.recent
  trimmed : t.trimmed = s.trimmed
  nextId : s.nextId ≤ t.nextId

/-- The client whose command takes effect. -/
def effect (s : System) : Action → Option Client
  | .act i _ | .fail i true _ => s.live[i]?
  | .call _ _ _ _ _ _ | .start | .fail _ false _ | .drop _ | .pause _ => none

inductive Change (cfg : Config) (s t : System) (a : Action) : Prop where
  /-- clients come with nothing in hands, or go -/
  | still (gone new rest : List Client) (h : Still s t) (before : s.live.Perm (gone ++ rest))
      (after : t.live.Perm (new ++ rest))
      (cut : t.cut = gone ++ s.cut ∧ (∀ c ∈ gone, ∃ i, a = .drop i ∧ s.live[i]? = some c) ∨
        t.cut = s.cut ∧ ∀ c ∈ gone, c.Blank)
      (hnew : ∀ c ∈ new, c.Blank) (heffect : ∀ c ∈ effect s a, c.point = .recovered ∧ c.owed = [])
  | call (c : Call) (hid : c.id = s.nextId) (h : Still s t)
      (after : t.live = .of c.begin :: s.live) (cut : t.cut = s.cut) (heffect : effect s a = none)
  /-- a command that has no effect raises -/
  | error (c : Client) (rest : List Client) (h : Still s t) (before : s.live.Perm (c :: rest))
      (after : t.live.Perm (c.error :: rest)) (cut : t.cut = c :: s.cut)
      (hfail : ∃ i ch, a = .fail i false ch ∧ s.live[i]? = some c) (heffect : effect s a = none)
  | act (c d : Client) (ch : Choice) (rest : List Client) (before : s.live.Perm (c :: rest))
      (after : t.live.Perm (d :: rest)) (store : t.store = (c.act cfg ch s.store).1)
      (trimmed : ∀ j, j ∈ s.trimmed ∨ j ∈ s.store.recent.members →
        j ∈ t.trimmed ∨ j ∈ t.store.recent.members)
      (nextId : t.nextId = s.nextId) (heffect : effect s a = some c)
      (hd : (∃ i, a = .act i ch) ∧ d = (c.act cfg ch s.store).2 ∧ t.cut = s.cut ∨
        (∃ i, a = .fail i true ch) ∧ d = c.error ∧ t.cut = (c.act cfg ch s.store).2 :: s.cut)

section

variable {cfg : Config} {s : System} {i : Nat} {c : Client}

theorem live_perm (hi : s.live[i]? = some c) : s.live.Perm (c :: s.live.eraseIdx i) := by
  obtain ⟨hlt, rfl⟩ := List.getElem?_eq_some_iff.mp hi
  exact (List.getElem_cons_eraseIdx_perm hlt).symm

theorem live_set_perm (hi : s.live[i]? = some c) (d : Client) :
    (s.live.set i d).Perm (d :: s.live.eraseIdx i) :=
  List.set_perm_cons_eraseIdx (List.getElem?_eq_some_iff.mp hi).1 d

variable (i) in
theorem command_trimmed (ch : Choice) (j : JobId)
    (h : j ∈ s.trimmed ∨ j ∈ s.store.recent.members) :
    j ∈ (s.command cfg ch i c).trimmed ∨ j ∈ (s.command cfg ch i c).store.recent.members := by
  rcases h with h | h
  · exact Or.inl (List.mem_append_right _ h)
  · by_cases hnew : j ∈ (c.act cfg ch s.store).1.recent.members
    · exact Or.inr hnew
    · exact Or.inl (List.mem_append_left _ (List.mem_filter.mpr ⟨h, decide_eq_true hnew⟩))

theorem blank_of {point : Point} (hjob : point.job = none) (hgap : point.gap = none) :
    (Client.of point).Blank := ⟨hjob, hgap, rfl⟩

end

theorem change (cfg : Config) (s : System) (a : Action) : Change cfg s (step cfg s a) a := by
  have hsame : ∀ (heffect : ∀ c ∈ effect s a, c.point = .recovered ∧ c.owed = []),
      Change cfg s s a := by
    intro heffect
    exact .still [] [] s.live ⟨rfl, rfl, rfl, rfl, rfl, rfl, Nat.le_refl _⟩ (.refl _) (.refl _)
      (Or.inl ⟨rfl, fun c hc => absurd hc List.not_mem_nil⟩)
      (fun c hc => absurd hc List.not_mem_nil) heffect
  cases a with
  | call entry jobType priority payload requiresLlm enqueuedAt =>
    exact .call _ rfl ⟨rfl, rfl, rfl, rfl, rfl, rfl, Nat.le_succ _⟩ rfl rfl rfl
  | start =>
    simp only [step]
    split
    · refine .still [] [.of .members] s.live ⟨rfl, rfl, rfl, rfl, rfl, rfl, Nat.le_refl _⟩
        (.refl _) (.refl _) (Or.inl ⟨rfl, fun c hc => absurd hc List.not_mem_nil⟩)
        (fun c hc => ?_) (fun c hc => by cases hc)
      rw [List.mem_singleton.mp hc]
      exact blank_of rfl rfl
    · exact hsame fun c hc => by cases hc
  | act i ch =>
    simp only [step]
    split
    · rename_i hi
      refine hsame fun c hc => ?_
      rw [effect, hi] at hc
      cases hc
    · rename_i loaded time hi
      refine .still [_] (List.replicate cfg.concurrency (.of .poll)) (s.live.eraseIdx i)
        ⟨rfl, rfl, rfl, rfl, rfl, rfl, Nat.le_refl _⟩ (live_perm hi) (.refl _) (Or.inr ⟨rfl, fun c hc => ?_⟩)
        (fun c hc => ?_) (fun c hc => ?_)
      · rw [List.mem_singleton.mp hc]
        exact ⟨rfl, rfl, rfl⟩
      · rw [List.eq_of_mem_replicate hc]
        exact blank_of rfl rfl
      · rw [effect, hi] at hc
        rw [← Option.some.inj hc]
        exact ⟨rfl, rfl⟩
    · rename_i c hne hi
      exact .act c _ ch _ (live_perm hi) (live_set_perm hi _) rfl (command_trimmed i ch)
        rfl hi (Or.inl ⟨⟨i, rfl⟩, rfl, rfl⟩)
  | fail i applied ch =>
    simp only [step]
    split
    · rename_i hi
      refine hsame fun c hc => ?_
      cases applied with
      | false => cases hc
      | true =>
        rw [effect, hi] at hc
        cases hc
    · rename_i c hi
      cases applied with
      | false =>
        exact .error c _ ⟨rfl, rfl, rfl, rfl, rfl, rfl, Nat.le_refl _⟩
          (live_perm hi) (live_set_perm hi _) rfl ⟨i, ch, rfl, hi⟩ rfl
      | true =>
        refine .act c c.error ch _ (live_perm hi) ?_ rfl (command_trimmed i ch)
          rfl hi (Or.inr ⟨⟨i, rfl⟩, rfl, rfl⟩)
        have hset : ((s.command cfg ch i c).abandon i c (c.act cfg ch s.store).2).live =
            s.live.set i c.error := by
          simp only [System.abandon, System.command, List.set_set]
        rw [if_pos rfl, hset]
        exact live_set_perm hi _
  | drop i =>
    simp only [step]
    split
    · exact hsame fun c hc => by cases hc
    · rename_i c hi
      exact .still [c] [] (s.live.eraseIdx i)
        ⟨rfl, rfl, rfl, rfl, rfl, rfl, Nat.le_refl _⟩ (live_perm hi) (.refl _)
        (Or.inl ⟨rfl, fun d hd => ⟨i, rfl, List.mem_singleton.mp hd ▸ hi⟩⟩)
        (fun d hd => absurd hd List.not_mem_nil) (fun d hd => by cases hd)
  | pause paused =>
    exact .still [] [] s.live ⟨rfl, rfl, rfl, rfl, rfl, rfl, Nat.le_refl _⟩ (.refl _) (.refl _)
      (Or.inl ⟨rfl, fun c hc => absurd hc List.not_mem_nil⟩)
      (fun c hc => absurd hc List.not_mem_nil) (fun c hc => by cases hc)

end Cerid.Processor.Indexed
