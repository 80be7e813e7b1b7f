import Cerid.Lib.Run
import Cerid.Retrieval.Freshness

/-!
# When lookups are fresh

What an invalidation is on its way to when it ends is gone, or predates the watermark.
This holds along a run if no answer is stored behind the back of an invalidation, and the
sets and the watermark still say what they said.
-/

namespace Cerid.Retrieval.SemanticCache

/-! ## What holds along a run -/

/-- A payload is under the token of its own request, and no invalidation of these that ended
outdates it behind the back of the watermark. -/
structure World.Kept (w : World) (ended : List Ended) (payload : Payload) : Prop where
  token : payload.domainScope = scopeToken payload.answer.request
  requested : payload.answer.request ∈ w.requests
  spared : ∀ e ∈ ended, e.Spares w.cache.watermark payload

theorem World.Kept.mono {w w' : World} {ended : List Ended} {payload : Payload}
    (h : w.Kept ended payload) (hreq : ∀ q ∈ w.requests, q ∈ w'.requests)
    (hmark : w'.cache.watermark = w.cache.watermark) : w'.Kept ended payload :=
  ⟨h.token, hreq _ h.requested, hmark ▸ h.spared⟩

/-- Where a lookup can be, with what it holds there. -/
inductive LookupAt (q : Request) : Option Read → Program → Prop
  | counting : LookupAt q none (cacheLookup q)
  | asking : LookupAt q none (.cmd .query fun (ids : List Id) => examine (scopeToken q) ids)
  | examining (cmds : List Cmd) (ids : List Id) (hcmds : ∀ cmd ∈ cmds, cmd.Removes) :
    LookupAt q none (.each cmds (examine (scopeToken q) ids))
  | judging (r : Read) (id : Id) (ids : List Id) (htoken : r.payload.domainScope = scopeToken q) :
    LookupAt q (some r) (judge r id (examine (scopeToken q) ids))
  | served (r : Read) (hfresh : r.Fresh) (hscope : r.payload.answer.request.scope = q.scope) :
    LookupAt q none (.ret (some r))

/-- An invalidation that is under way is on its way to every entry that it outdates. -/
def World.Chases (w : World) (v : Invalidation) (prog : Program) : Prop :=
  ∀ cmd k, prog = .cmd cmd k → ∀ id payload, w.cache.entries.get? id = some payload →
    v.Outdates payload.answer → Catches id prog

inductive World.Sound (w : World) : Proc → Prop
  | query (q : Request) (started : Nat) (hq : q ∈ w.requests) :
    w.Sound { task := .query q started, prog := .ret none }
  | store (answer : Answer) (prog : Program) (hq : answer.request ∈ w.requests)
    (hprog : prog.Only (Stores answer)) : w.Sound { task := .store answer, prog := prog }
  | lookup (q : Request) (held : Option Read) (prog : Program) (hq : q ∈ w.requests)
    (hat : LookupAt q held prog) (hheld : ∀ r, held = some r → w.Kept r.ended r.payload) :
    w.Sound { task := .lookup q held, prog := prog }
  | invalidate (v : Invalidation) (prog : Program) (hprog : prog.Only Quiet)
    (hchase : w.Chases v prog) : w.Sound { task := .invalidate v, prog := prog }

structure World.Inv (w : World) : Prop where
  scopes : ∀ q ∈ w.requests, ∀ q' ∈ w.requests, scopeToken q' = scopeToken q → q'.scope = q.scope
  kept : ∀ id payload, w.cache.entries.get? id = some payload → w.Kept w.ended payload
  sound : ∀ pid p, w.procs.get? pid = some p → w.Sound p

theorem inv_start : World.start.Inv where
  scopes _ h := absurd h List.not_mem_nil
  kept id payload h := by
    have h : (none : Option Payload) = some payload := h
    cases h
  sound pid p h := by
    have h : (none : Option Proc) = some p := h
    cases h

/-- A program that waits stays sound while the others do what they do to it. -/
theorem World.Sound.mono {w w' : World} {p : Proc} (h : w.Sound p)
    (hreq : ∀ q ∈ w.requests, q ∈ w'.requests)
    (hchase : ∀ v prog, p = { task := .invalidate v, prog := prog } → w.Chases v prog →
      w'.Chases v prog)
    (hkept : ∀ q r prog, p = { task := .lookup q (some r), prog := prog } →
      w.Kept r.ended r.payload → w'.Kept r.ended r.payload) : w'.Sound p := by
  cases h with
  | query q started hq => exact .query q started (hreq q hq)
  | store answer prog hq hprog => exact .store answer prog (hreq _ hq) hprog
  | lookup q held prog hq hat hheld =>
    refine .lookup q held prog (hreq q hq) hat (fun r hr => ?_)
    subst hr
    exact hkept q r prog rfl (hheld r rfl)
  | invalidate v prog hprog hc => exact .invalidate v prog hprog (hchase v prog rfl hc)

/-! ### Steps that give no command -/

theorem World.Inv.spawn {w : World} (hi : w.Inv) {p : Proc} (hp : w.Sound p) (pid tick : Nat) :
    World.Inv { w with procs := w.procs.set pid p, tick := tick } where
  scopes := hi.scopes
  kept id payload hlive := (hi.kept id payload hlive).mono (fun _ h => h) rfl
  sound pid' p' hp' := by
    have hp' : (w.procs.set pid p).get? pid' = some p' := hp'
    rw [Dict.get?_set] at hp'
    have hold : w.Sound p' := by
      split at hp'
      · rwa [← Option.some.inj hp']
      · exact hi.sound pid' p' hp'
    exact hold.mono (fun _ h => h) (fun _ _ _ h => h) (fun _ _ _ _ h => h.mono (fun _ h => h) rfl)

theorem World.Inv.request {w : World} (hi : w.Inv) {q : Request}
    (hq : ∀ q' ∈ w.requests, scopeToken q' = scopeToken q → q'.scope = q.scope) :
    World.Inv { w with requests := q :: w.requests } where
  scopes := by
    intro q₁ h₁ q₂ h₂ htoken
    rcases List.mem_cons.mp h₁ with e₁ | h₁ <;> rcases List.mem_cons.mp h₂ with e₂ | h₂
    · rw [e₁, e₂]
    · rw [e₁] at htoken ⊢
      exact hq q₂ h₂ htoken
    · rw [e₂] at htoken ⊢
      exact (hq q₁ h₁ htoken.symm).symm
    · exact hi.scopes q₁ h₁ q₂ h₂ htoken
  kept id payload hlive := (hi.kept id payload hlive).mono (fun _ h => List.mem_cons_of_mem q h) rfl
  sound pid p hp := (hi.sound pid p hp).mono (fun _ h => List.mem_cons_of_mem q h)
    (fun _ _ _ h => h) (fun _ _ _ _ h => h.mono (fun _ h => List.mem_cons_of_mem q h) rfl)

theorem World.Inv.shrink {w : World} (hi : w.Inv) {c : Cache}
    (hentries : ∀ id payload, c.entries.get? id = some payload →
      w.cache.entries.get? id = some payload) (hmark : c.watermark = w.cache.watermark) :
    World.Inv { w with cache := c } where
  scopes := hi.scopes
  kept id payload hlive := (hi.kept id payload (hentries id payload hlive)).mono (fun _ h => h) hmark
  sound pid p hp := (hi.sound pid p hp).mono (fun _ h => h)
    (fun _ _ _ h cmd k hk id payload hlive => h cmd k hk id payload (hentries id payload hlive))
    (fun _ _ _ _ h => h.mono (fun _ h => h) hmark)

/-! ### The next command of a program -/

/-- The world after a command, before its program goes on. -/
def World.commanded (w : World) (cmd : Cmd) : World := { w with cache := effect cmd w.cache }

theorem World.Kept.commanded {w : World} {ended : List Ended} {payload : Payload} {cmd : Cmd}
    (h : w.Kept ended payload)
    (hmark : ∀ t, cmd = .setWatermark t → ∀ e ∈ ended, e.byWatermark = true →
      e.invalidation.Outdates payload.answer → payload.storedAt < t) :
    (w.commanded cmd).Kept ended payload where
  token := h.token
  requested := h.requested
  spared := by
    intro e he hout
    obtain ⟨hby, t, ht, hlt⟩ := h.spared e he hout
    refine ⟨hby, ?_⟩
    by_cases hw : cmd.isWatermark = true
    · cases cmd with
      | setWatermark t' => exact ⟨t', rfl, hmark t' rfl e he hby hout⟩
      | _ => cases hw
    · exact ⟨t, (watermark_effect (Bool.not_eq_true _ ▸ hw) w.cache).trans ht, hlt⟩

theorem LookupAt.quiet {q : Request} {held : Option Read} {prog : Program}
    (h : LookupAt q held prog) {cmd : Cmd} {k : Reply cmd → Program} (hprog : prog = .cmd cmd k) :
    cmd.isSetex = false ∧ cmd.isWatermark = false := by
  cases h with
  | counting =>
    cases hprog
    exact ⟨rfl, rfl⟩
  | asking =>
    cases hprog
    exact ⟨rfl, rfl⟩
  | examining cmds ids hcmds =>
    cases cmds with
    | cons c cs =>
      have hr := hcmds c List.mem_cons_self
      cases hprog
      exact ⟨hr.isSetex, hr.isWatermark⟩
    | nil =>
      cases ids with
      | nil => cases hprog
      | cons id rest =>
        cases hprog
        exact ⟨rfl, rfl⟩
  | judging r id ids htoken =>
    cases hprog
    exact ⟨rfl, rfl⟩
  | served r hfresh hscope => cases hprog

theorem Task.after_removes {cmd : Cmd} (h : cmd.Removes) (q : Request) (r : Reply cmd) :
    (Task.lookup q none).after cmd r = .lookup q none := by
  cases h <;> rfl

/-- What a full flush outdates and the watermark does not tell is not served. -/
theorem World.Kept.fresh {w : World} {r : Read} (h : w.Kept r.ended r.payload)
    (hstale : ¬ checkStaleHit r.payload w.cache.watermark = true) : r.Fresh := by
  intro e he hout
  obtain ⟨_, t, ht, hlt⟩ := h.spared e he hout
  apply hstale
  rw [checkStaleHit, ht]
  exact decide_eq_true hlt

theorem LookupAt.examine (q : Request) (ids : List Id) :
    LookupAt q none (examine (scopeToken q) ids) :=
  .examining [] ids removes_nil

theorem World.Sound.lookup_none {w : World} {q : Request} {prog : Program} (hq : q ∈ w.requests)
    (hat : LookupAt q none prog) : w.Sound { task := .lookup q none, prog := prog } :=
  .lookup q none prog hq hat (fun r h => by cases h)

theorem World.Inv.sound_get {w : World} (hi : w.Inv) {q : Request} (hq : q ∈ w.requests)
    (env : Env) (id : Id) (rest : List Id) {k : Option Read → Program}
    (hk : examine (scopeToken q) (id :: rest) = .cmd (.get id) k) :
    w.Sound
      { task := (Task.lookup q none).after (.get id) (reply env w.cache w.ended (.get id))
        prog := k (reply env w.cache w.ended (.get id)) } := by
  cases hk
  have hreply : reply env w.cache w.ended (.get id) =
      (w.cache.entries.get? id).map (Read.mk · w.ended) := rfl
  rw [hreply]
  cases hget : w.cache.entries.get? id with
  | none =>
    have hremoves := removes_cons (.backendDelete [id]) (removes_cons (.zrem [id]) removes_nil)
    exact .lookup_none hq (.examining _ rest hremoves)
  | some payload =>
    have hafter : (Task.lookup q none).after (.get id) (some ⟨payload, w.ended⟩) =
        .lookup q ((some ⟨payload, w.ended⟩ : Option Read).filter
          fun r => r.payload.domainScope = scopeToken q) := rfl
    rw [Option.map_some, hafter, Option.filter_some]
    by_cases htoken : payload.domainScope = scopeToken q
    · rw [if_pos (decide_eq_true htoken)]
      show w.Sound
        { task := .lookup q (some ⟨payload, w.ended⟩)
          prog := if payload.domainScope = scopeToken q then
              judge ⟨payload, w.ended⟩ id (examine (scopeToken q) rest)
            else examine (scopeToken q) rest }
      rw [if_pos htoken]
      refine .lookup q _ _ hq (.judging _ id rest htoken) (fun r hr => ?_)
      rw [← Option.some.inj hr]
      exact hi.kept id payload hget
    · rw [if_neg (fun h => htoken (of_decide_eq_true h))]
      show w.Sound
        { task := .lookup q none
          prog := if payload.domainScope = scopeToken q then
              judge ⟨payload, w.ended⟩ id (examine (scopeToken q) rest)
            else examine (scopeToken q) rest }
      rw [if_neg htoken]
      exact .lookup_none hq (.examine q rest)

theorem World.Inv.sound_lookup {w : World} (hi : w.Inv) {q : Request} {held : Option Read}
    {prog : Program} (hat : LookupAt q held prog) (hq : q ∈ w.requests)
    (hheld : ∀ r, held = some r → w.Kept r.ended r.payload) {cmd : Cmd}
    {k : Reply cmd → Program} (hprog : prog = .cmd cmd k) (env : Env) :
    w.Sound
      { task := (Task.lookup q held).after cmd (reply env w.cache w.ended cmd)
        prog := k (reply env w.cache w.ended cmd) } := by
  cases hat with
  | counting =>
    cases hprog
    refine .lookup_none hq ?_
    show LookupAt q none (if w.cache.backend.length = 0 then .ret none
      else .cmd .query fun (ids : List Id) => examine (scopeToken q) ids)
    split
    · exact .examine q []
    · exact .asking
  | asking =>
    cases hprog
    exact .lookup_none hq (.examine q _)
  | examining cmds ids hcmds =>
    cases cmds with
    | cons c cs =>
      have hcs : ∀ cmd ∈ cs, cmd.Removes := fun cmd h => hcmds cmd (List.mem_cons_of_mem c h)
      have hr := hcmds c List.mem_cons_self
      cases hprog
      rw [Task.after_removes hr]
      exact .lookup_none hq (.examining cs ids hcs)
    | nil =>
      cases ids with
      | nil => cases hprog
      | cons id rest =>
        cases hprog
        exact hi.sound_get hq env id rest rfl
  | judging r id ids htoken =>
    cases hprog
    refine .lookup_none hq ?_
    have hkept := hheld r rfl
    show LookupAt q none (if checkStaleHit r.payload w.cache.watermark then
        .each [.backendDelete [id], .del [.entry id], .zrem [id]] (examine (scopeToken q) ids)
      else .ret (some r))
    split
    · exact .examining _ ids (removes_cons (.backendDelete _)
        (removes_cons (.del _) (removes_cons (.zrem _) removes_nil)))
    · exact .served r (hkept.fresh ‹_›)
        (hi.scopes q hq _ hkept.requested (hkept.token.symm.trans htoken))
  | served r hfresh hscope => cases hprog

/-- Only a store stores, and it stores its own answer. -/
theorem World.Sound.stored {w : World} {task : Task} {id : Id} {payload : Payload}
    {k : Unit → Program} (h : w.Sound { task := task, prog := .cmd (.setex id payload) k }) :
    payload.domainScope = scopeToken payload.answer.request ∧
      payload.answer.request ∈ w.requests := by
  generalize hp : (Prog.cmd (.setex id payload) k : Program) = prog at h
  cases h with
  | query q started hq => cases hp
  | store answer _ hq hprog =>
    subst hp
    obtain ⟨ha, hd⟩ := hprog.1.1 id payload rfl
    rw [ha]
    exact ⟨hd, hq⟩
  | lookup q held _ hq hat hheld => cases (hat.quiet hp.symm).1
  | invalidate v _ hprog hchase =>
    subst hp
    cases hprog.1.1

theorem World.Inv.kept_commanded {w : World} (hi : w.Inv) {task : Task} {cmd : Cmd}
    {k : Reply cmd → Program} (hs : w.Sound { task := task, prog := .cmd cmd k })
    (hall : w.CmdAllowed task cmd) {id : Id} {payload : Payload}
    (hlive : (w.commanded cmd).cache.entries.get? id = some payload) :
    (w.commanded cmd).Kept w.ended payload := by
  rcases entries_effect hlive with rfl | hold
  · obtain ⟨htoken, hq⟩ := hs.stored
    exact ⟨htoken, hq, hall.2⟩
  · refine (hi.kept id payload hold).commanded (fun t ht => ?_)
    subst ht
    exact (hall.1 id payload hold).2

/-- What a command that is allowed does to the programs that wait, its own among them. -/
theorem World.Inv.commanded {w : World} (hi : w.Inv) {pid : Nat} {task : Task} {cmd : Cmd}
    {k : Reply cmd → Program} (hproc : w.procs.get? pid = some { task := task, prog := .cmd cmd k })
    (hall : w.CmdAllowed task cmd) : (w.commanded cmd).Inv where
  scopes := hi.scopes
  kept id payload hlive := hi.kept_commanded (hi.sound pid _ hproc) hall hlive
  sound pid' p hp := by
    refine (hi.sound pid' p hp).mono (fun _ h => h) ?_ ?_
    · intro v prog hpv hchase cmd' k' hprog id payload hlive hout
      subst hpv
      subst hprog
      rcases entries_effect hlive with rfl | hold
      · exact hall.1 pid' v cmd' k' hp hout
      · exact hchase cmd' k' rfl id payload hold hout
    · intro q r prog hpq hkept
      subst hpq
      refine hkept.commanded (fun t ht => ?_)
      subst ht
      exact hall.2 r ⟨pid', q, prog, hp⟩

/-- An entry that an invalidation outdates is there after its command only if the command
wrote the watermark, or the invalidation is still on its way. -/
theorem World.Chases.next {w : World} {v : Invalidation} {cmd : Cmd} {k : Reply cmd → Program}
    (h : w.Chases v (.cmd cmd k)) (hquiet : cmd.isSetex = false)
    (hall : w.CmdAllowed (.invalidate v) cmd) {id : Id} {payload : Payload}
    (hlive : (w.commanded cmd).cache.entries.get? id = some payload)
    (hout : v.Outdates payload.answer) (env : Env) :
    w.cache.entries.get? id = some payload ∧
      (cmd.isWatermark = true ∨ Catches id (k (reply env w.cache w.ended cmd))) := by
  rcases entries_effect hlive with rfl | hold
  · cases hquiet
  refine ⟨hold, ?_⟩
  by_cases hhit : Hits id cmd
  · exact Or.inl (hits_effect hhit hlive)
  · right
    refine (h cmd k rfl id payload hold hout).next hhit (honours_reply hold (fun d hd => ?_))
    subst hd
    exact hall v rfl id payload hold hout

theorem World.Inv.sound_next {w : World} (hi : w.Inv) {task : Task} {cmd : Cmd}
    {k : Reply cmd → Program} (hs : w.Sound { task := task, prog := .cmd cmd k })
    (hall : w.CmdAllowed task cmd) (env : Env) :
    (w.commanded cmd).Sound
      { task := task.after cmd (reply env w.cache w.ended cmd)
        prog := k (reply env w.cache w.ended cmd) } := by
  generalize hp : (Prog.cmd cmd k : Program) = prog at hs
  cases hs with
  | query q started hq => cases hp
  | store answer _ hq hprog =>
    subst hp
    exact .store answer _ hq (hprog.2 _)
  | lookup q held _ hq hat hheld =>
    refine (hi.sound_lookup hat hq hheld hp.symm env).mono (fun _ h => h) ?_ ?_
    · intro v prog' hpv
      cases cmd <;> cases hpv
    · intro q' r prog' _ hkept
      refine hkept.commanded (fun t ht => ?_)
      have hw := (hat.quiet hp.symm).2
      rw [ht] at hw
      cases hw
  | invalidate v _ hprog hchase =>
    subst hp
    refine .invalidate v _ (hprog.2 _) (fun cmd' k' hnext id payload hlive hout => ?_)
    rcases (hchase.next hprog.1.1 hall hlive hout env).2 with hw | hc
    · obtain ⟨a, ha⟩ := hprog.1.2 hw (reply env w.cache w.ended cmd)
      rw [ha] at hnext
      cases hnext
    · exact hc

theorem World.Inv.conclude {w : World} (hi : w.Inv) {es : List Ended}
    (hes : ∀ id payload, w.cache.entries.get? id = some payload →
      ∀ e ∈ es, e.Spares w.cache.watermark payload) :
    World.Inv { w with ended := w.ended ++ es } where
  scopes := hi.scopes
  kept id payload hlive := by
    have h := hi.kept id payload hlive
    refine ⟨h.token, h.requested, fun e he => ?_⟩
    rcases List.mem_append.mp he with he | he
    · exact h.spared e he
    · exact hes id payload hlive e he
  sound pid p hp := (hi.sound pid p hp).mono (fun _ h => h) (fun _ _ _ h => h)
    (fun _ _ _ _ h => h.mono (fun _ h => h) rfl)

/-- An invalidation that ends has removed what it outdates, or tells by the watermark. -/
theorem World.Inv.spares_endings {w : World} {task : Task} {cmd : Cmd} {k : Reply cmd → Program}
    (hs : w.Sound { task := task, prog := .cmd cmd k }) (hall : w.CmdAllowed task cmd) (env : Env)
    {id : Id} {payload : Payload}
    (hlive : (w.commanded cmd).cache.entries.get? id = some payload) :
    ∀ e ∈ task.endings cmd (k (reply env w.cache w.ended cmd)),
      e.Spares (w.commanded cmd).cache.watermark payload := by
  generalize hp : (Prog.cmd cmd k : Program) = prog at hs
  cases hs with
  | query q started hq => cases hp
  | store answer _ hq hprog => exact fun e he => absurd he List.not_mem_nil
  | lookup q held _ hq hat hheld => exact fun e he => absurd he List.not_mem_nil
  | invalidate v _ hprog hchase =>
    subst hp
    intro e he hout
    cases hnext : k (reply env w.cache w.ended cmd) with
    | cmd c k' =>
      rw [hnext] at he
      cases he
    | ret a =>
      rw [hnext] at he
      obtain rfl := List.mem_singleton.mp he
      obtain ⟨hold, hw | hc⟩ := hchase.next hprog.1.1 hall hlive hout env
      · cases cmd with
        | setWatermark t => exact ⟨rfl, t, rfl, (hall.1 id payload hold).1 v rfl hout⟩
        | _ => cases hw
      · rw [hnext] at hc
        cases hc

theorem World.Inv.runNext {w : World} (hi : w.Inv) (pid : Nat) (env : Env)
    (hok : ∀ task cmd k, w.procs.get? pid = some { task := task, prog := .cmd cmd k } →
      w.CmdAllowed task cmd) : (w.runNext pid env).Inv := by
  unfold World.runNext
  split
  · rename_i task cmd k hproc
    have hall := hok task cmd k hproc
    have hs := hi.sound pid _ hproc
    have hc := (hi.commanded hproc hall).spawn (hi.sound_next hs hall env) pid w.tick
    exact hc.conclude (fun id payload hlive => spares_endings hs hall env hlive)
  · exact hi

theorem World.Inv.expireWatermark {w : World} (hi : w.Inv)
    (hlive : ∀ id payload, w.cache.entries.get? id = some payload →
      ∀ e ∈ w.ended, ¬ e.invalidation.Outdates payload.answer)
    (hheld : ∀ r, w.Held r → r.Fresh) :
    World.Inv { w with cache := { w.cache with watermark := none } } where
  scopes := hi.scopes
  kept id payload h := ⟨(hi.kept id payload h).token, (hi.kept id payload h).requested,
    fun e he hout => absurd hout (hlive id payload h e he)⟩
  sound pid p hp := by
    refine (hi.sound pid p hp).mono (fun _ h => h) (fun _ _ _ h => h) ?_
    intro q r prog hpq hkept
    subst hpq
    exact ⟨hkept.token, hkept.requested, fun e he hout => absurd hout (hheld r ⟨pid, q, prog, hp⟩ e he)⟩

theorem entries_expire {c : Cache} {key : Key} {id : Id} {payload : Payload}
    (h : (c.expire key).entries.get? id = some payload) : c.entries.get? id = some payload := by
  cases key with
  | ageIndex => exact h
  | entry id' =>
    have h : (c.delKey (.entry id')).entries.get? id = some payload := h
    rw [entries_delKey] at h
    split at h
    · cases h
    · exact h
  | domainIndex d => exact h

theorem watermark_expire (c : Cache) (key : Key) : (c.expire key).watermark = c.watermark := by
  cases key <;> rfl

variable (sha256 : String → String)

theorem World.Inv.step {w : World} (hi : w.Inv) (op : Op) (hok : w.Allowed op) :
    (w.step sha256 op).Inv := by
  cases op with
  | query pid q =>
    rw [World.step]
    split
    · exact hi
    · exact (hi.request hok).spawn (.query q w.tick List.mem_cons_self) pid (w.tick + 1)
  | store pid query result domainsSearched now maxEntries =>
    rw [World.step]
    split
    · rename_i q started prog hproc
      have hq : q ∈ w.requests := by
        cases hi.sound pid _ hproc with
        | query _ _ hq => exact hq
      exact hi.spawn (.store _ _ hq (stores_cacheStore _ _ now maxEntries)) pid w.tick
    · exact hi
  | lookup pid q =>
    rw [World.step]
    split
    · exact hi
    · exact (hi.request hok).spawn (.lookup_none List.mem_cons_self .counting) pid w.tick
  | invalidate pid domain rounds =>
    rw [World.step]
    split
    · exact hi
    · refine hi.spawn (.invalidate _ _ (quiet_invalidateCache domain rounds) ?_) pid (w.tick + 1)
      exact fun _ _ _ id _ _ _ => catches_invalidateCache id domain rounds
  | run pid env => exact hi.runNext pid env hok
  | expire key => exact hi.shrink (fun _ _ h => entries_expire h) (watermark_expire w.cache key)
  | expireWatermark => exact hi.expireWatermark hok.1 hok.2

theorem World.Inv.honest {w : World} (hi : w.Inv) : w.Honest := by
  intro pid q held r hproc
  cases hi.sound pid _ hproc with
  | lookup _ _ _ hq hat hheld =>
    generalize hp : (Prog.ret (some r) : Program) = prog at hat
    cases hat with
    | counting => cases hp
    | asking => cases hp
    | examining cmds ids hcmds =>
      cases cmds with
      | cons c cs => cases hp
      | nil =>
        cases ids with
        | nil => cases hp
        | cons id rest => cases hp
    | judging r' id ids htoken => cases hp
    | served r' hfresh hscope =>
      cases hp
      exact ⟨hfresh, hscope⟩

/-- After a run whose steps do no harm, every answer that a lookup has returned is fresh and
of the scope of the lookup. -/
theorem lookups_fresh (run : List Op) (h : Along (World.step sha256) World.Allowed World.start run) :
    (run.foldl (World.step sha256) World.start).Honest :=
  (h.invariant World.Inv (fun _ op hi hok => hi.step sha256 op hok) inv_start).honest

section Samples

def sampleOptions (topK : Nat) : Options where
  topK := topK
  useReranking := true
  conversationMessages := []
  strictDomains := false
  memoryStrict := none
  model := none

/-- A request of the default scope. -/
def sampleRequest (topK : Nat) : Request where
  domains := none
  allowedDomains := none
  memoryEnabled := true
  tenantId := none
  options := sampleOptions topK

def sampleResult : Result where
  budgetExceeded := false
  retrievalDegraded := false
  sources := ["note"]

/-- The digest of the samples. -/
def sampleSha256 (input : String) : String :=
  if input = "__all__|q" then "5be2a545d5bf81b2290ce4fa20f23d6fd482d5a7ad13781218de26ce165fbfba"
  else input

def sampleEnv (time : Nat) : Env where
  time := time
  similar := ["5be2a545d5bf81b2"]
  scanned := []

/-- An answer from the domain `notes` is stored, and a similar query looks it up. -/
def storedAndRead (topK now : Nat) : List Op :=
  [.store 1 "q" sampleResult ["notes"] now 100] ++ List.replicate 6 (.run 1 (sampleEnv now)) ++
    [.lookup 3 (sampleRequest topK)] ++ List.replicate 4 (.run 3 (sampleEnv now))

/-- The first invalidation of `notes`, from its beginning to its end. -/
def flushed : List Op :=
  [.invalidate 2 (some "notes") 0] ++ List.replicate 5 (.run 2 (sampleEnv 5))

/-- The condition on the next command of a program. -/
theorem allowed_run {w : World} {pid : Nat} {env : Env}
    (h : match w.procs.get? pid with
      | some { task, prog := .cmd cmd _ } => w.CmdAllowed task cmd
      | _ => True) : w.Allowed (.run pid env) := by
  intro task cmd k hproc
  rw [hproc] at h
  exact h

/-- An answer that is computed after the invalidation, and looked up. -/
def inOrder : List Op := flushed ++ [.query 1 (sampleRequest 10)] ++ storedAndRead 10 6

theorem along_flushed : Along (World.step sampleSha256) World.Allowed World.start flushed := by
  refine ⟨trivial, allowed_run ?_, allowed_run ?_, allowed_run ?_, allowed_run ?_,
    allowed_run ⟨fun id payload hlive => ?_, ?_⟩, trivial⟩
  iterate 4 exact trivial
  · have hlive : (none : Option Payload) = some payload := hlive
    cases hlive
  · intro r hheld
    obtain ⟨pid, q, prog, hproc⟩ := hheld
    rcases List.mem_cons.mp ((Dict.mem_items_iff _ pid _).mpr hproc) with h | h
    · cases h
    · cases h

theorem along_inOrder : Along (World.step sampleSha256) World.Allowed World.start inOrder := by
  rw [inOrder, List.append_assoc, along_append]
  refine ⟨along_flushed, fun _ h => absurd h List.not_mem_nil, trivial,
    allowed_run ⟨fun pid v cmd k hproc => ?_, fun e he hout => ?_⟩, allowed_run ?_,
    allowed_run ?_, allowed_run ?_, allowed_run ?_, allowed_run ?_, fun q hq _ => ?_,
    allowed_run ?_, allowed_run ?_, allowed_run ?_, allowed_run ?_, trivial⟩
  · rcases List.mem_cons.mp ((Dict.mem_items_iff _ pid _).mpr hproc) with h | h
    · cases h
    · rcases List.mem_cons.mp h with h | h
      · cases h
      · cases h
  · obtain rfl := List.mem_singleton.mp he
    have hlt : 1 < 0 := hout.2
    omega
  iterate 5 exact trivial
  · rw [List.mem_singleton.mp hq]
  iterate 4 exact trivial

theorem lookups_fresh_inOrder : ∃ r,
    (inOrder.foldl (World.step sampleSha256) World.start).procs.get? 3 =
      some { task := .lookup (sampleRequest 10) none, prog := .ret (some r) } ∧
    r.ended.length = 1 ∧ r.Fresh ∧ r.payload.answer.request.scope = (sampleRequest 10).scope :=
  ⟨_, rfl, rfl, lookups_fresh sampleSha256 inOrder along_inOrder 3 _ none _ rfl⟩

/-- An answer whose computation an invalidation overtook is served, and so is one that was
asked for with another number of results. -/
theorem not_honest :
    ¬ (∀ (run : List Op) pid q held r,
      (run.foldl (World.step sampleSha256) World.start).procs.get? pid =
        some { task := .lookup q held, prog := .ret (some r) } → r.Fresh) ∧
    ¬ (∀ (run : List Op) pid q held r,
      (run.foldl (World.step sampleSha256) World.start).procs.get? pid =
        some { task := .lookup q held, prog := .ret (some r) } →
        r.payload.answer.request.scope = q.scope) := by
  constructor
  · intro h
    have hfresh := h ([.query 1 (sampleRequest 10)] ++ flushed ++ storedAndRead 10 5)
      3 (sampleRequest 10) none _ rfl
    exact hfresh _ List.mem_cons_self ⟨fun d hd => Option.some.inj hd ▸ List.mem_cons_self, by decide⟩
  · intro h
    have hscope := h ([.query 1 (sampleRequest 3)] ++ storedAndRead 10 5)
      3 (sampleRequest 10) none _ rfl
    have htop : 3 = 10 := congrArg (fun s => s.options.topK) hscope
    exact absurd htop (by decide)

end Samples

end Cerid.Retrieval.SemanticCache
