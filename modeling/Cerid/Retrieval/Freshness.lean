import Cerid.Retrieval.SemanticCache

/-!
# What the programs of the cache may do

An invalidation is on its way to every entry: a full flush to the watermark, one of a domain
to the deletion of what the domain's set lists.  A store stores its own answer under its own
token, and nothing else stores.  What a lookup promises is stated here, with the condition
under which runs keep it.
-/

namespace Cerid.Retrieval.SemanticCache

/-! ## What a lookup promises -/

/-- The computation of the answer started before the invalidation of one of its domains. -/
def Invalidation.Outdates (v : Invalidation) (a : Answer) : Prop :=
  v.Touches a ∧ a.started < v.began

instance (v : Invalidation) (a : Answer) : Decidable (v.Outdates a) :=
  inferInstanceAs (Decidable (_ ∧ _))

/-- No invalidation that had ended when the payload was read outdates its answer. -/
def Read.Fresh (r : Read) : Prop := ∀ e ∈ r.ended, ¬ e.invalidation.Outdates r.payload.answer

instance (r : Read) : Decidable r.Fresh :=
  inferInstanceAs (Decidable (∀ e ∈ r.ended, ¬ e.invalidation.Outdates r.payload.answer))

/-- Every lookup that has returned an answer returned a fresh one, of its own scope. -/
def World.Honest (w : World) : Prop :=
  ∀ pid q held r, w.procs.get? pid = some { task := .lookup q held, prog := .ret (some r) } →
    r.Fresh ∧ r.payload.answer.request.scope = q.scope

/-! ## On the way to an entry -/

def Hits (id : Id) : Cmd → Prop
  | .del keys => .entry id ∈ keys
  | .setWatermark _ => True
  | _ => False

/-- A reply as it is while the entry is there and the set of its domain lists it. -/
def Honours (id : Id) : (cmd : Cmd) → Reply cmd → Prop
  | .smembers _, (members : List Id) => id ∈ members
  | .mget ids, (payloads : List (Option Payload)) =>
    id ∈ ids → id ∈ (withDomains ids payloads).map Prod.fst
  | _, _ => True

/-- The program is still going to delete the entry, or to write the watermark. -/
def Catches (id : Id) (p : Program) : Prop := p.Reaches (Hits id) (Honours id)

/-- The watermark tells that the payload is outdated, if the invalidation did outdate it. -/
def Ended.Spares (e : Ended) (watermark : Option Nat) (payload : Payload) : Prop :=
  e.invalidation.Outdates payload.answer →
    e.byWatermark = true ∧ ∃ t, watermark = some t ∧ payload.storedAt < t

/-! ## The condition -/

/-- The payload is being judged by a lookup. -/
def World.Held (w : World) (r : Read) : Prop :=
  ∃ pid q prog, w.procs.get? pid = some { task := .lookup q (some r), prog := prog }

/-- A command that does no harm.  An answer may be stored if every invalidation that
outdates it is still going to remove it, or has left a watermark past it; the set that an
invalidation reads lists what it outdates; and a watermark is past what full flushes that
have ended, and this one, outdate. -/
def World.CmdAllowed (w : World) (task : Task) : Cmd → Prop
  | .setex id payload =>
    (∀ pid v cmd k, w.procs.get? pid = some { task := .invalidate v, prog := .cmd cmd k } →
      v.Outdates payload.answer → Catches id (.cmd cmd k)) ∧
    ∀ e ∈ w.ended, e.Spares w.cache.watermark payload
  | .smembers d =>
    ∀ v, task = .invalidate v → ∀ id payload, w.cache.entries.get? id = some payload →
      v.Outdates payload.answer → id ∈ w.cache.members d
  | .setWatermark t =>
    (∀ id payload, w.cache.entries.get? id = some payload →
      (∀ v, task = .invalidate v → v.Outdates payload.answer → payload.storedAt < t) ∧
      ∀ e ∈ w.ended, e.byWatermark = true → e.invalidation.Outdates payload.answer →
        payload.storedAt < t) ∧
    ∀ r, w.Held r → ∀ e ∈ r.ended, e.byWatermark = true →
      e.invalidation.Outdates r.payload.answer → r.payload.storedAt < t
  | _ => True

/-- A step that does no harm: requests of one token are of one scope, and the watermark does
not expire before the payloads that it tells are outdated. -/
def World.Allowed (w : World) : Op → Prop
  | .query _ q => ∀ q' ∈ w.requests, scopeToken q' = scopeToken q → q'.scope = q.scope
  | .lookup _ q => ∀ q' ∈ w.requests, scopeToken q' = scopeToken q → q'.scope = q.scope
  | .run pid _ => ∀ task cmd k, w.procs.get? pid = some { task := task, prog := .cmd cmd k } →
      w.CmdAllowed task cmd
  | .expireWatermark =>
    (∀ id payload, w.cache.entries.get? id = some payload →
      ∀ e ∈ w.ended, ¬ e.invalidation.Outdates payload.answer) ∧
    ∀ r, w.Held r → r.Fresh
  | _ => True

/-! ## The programs -/

def Cmd.isSetex : Cmd → Bool
  | .setex _ _ => true
  | _ => false

/-- An invalidation stores nothing, and ends with its watermark if it writes one. -/
def Quiet (cmd : Cmd) (k : Reply cmd → Program) : Prop :=
  cmd.isSetex = false ∧ (cmd.isWatermark = true → ∀ r, ∃ a, k r = .ret a)

/-- A store stores its own answer under its own token. -/
def Stores (answer : Answer) (cmd : Cmd) (_ : Reply cmd → Program) : Prop :=
  (∀ id payload, cmd = .setex id payload →
    payload.answer = answer ∧ payload.domainScope = scopeToken answer.request) ∧
    cmd.isWatermark = false

theorem quiet_of {cmd : Cmd} {k : Reply cmd → Program} (hs : cmd.isSetex = false)
    (hw : cmd.isWatermark = false) : Quiet cmd k := by
  refine ⟨hs, fun h => ?_⟩
  rw [hw] at h
  cases h

theorem stores_of {answer : Answer} {cmd : Cmd} {k : Reply cmd → Program}
    (hs : cmd.isSetex = false) (hw : cmd.isWatermark = false) : Stores answer cmd k := by
  refine ⟨fun id payload h => ?_, hw⟩
  rw [h] at hs
  cases hs

/-- A command that only removes. -/
inductive Cmd.Removes : Cmd → Prop
  | del (keys : List Key) : Removes (.del keys)
  | zrem (ids : List Id) : Removes (.zrem ids)
  | srem (d : String) (id : Id) : Removes (.srem d id)
  | backendDelete (ids : List Id) : Removes (.backendDelete ids)

theorem Cmd.Removes.isSetex {cmd : Cmd} (h : cmd.Removes) : cmd.isSetex = false := by
  cases h <;> rfl

theorem Cmd.Removes.isWatermark {cmd : Cmd} (h : cmd.Removes) : cmd.isWatermark = false := by
  cases h <;> rfl

theorem removes_srems (ids : List (Id × List String)) (domains : Id × List String → List String) :
    ∀ cmd ∈ ids.flatMap (fun p => (domains p).map (fun d => Cmd.srem d p.1)), cmd.Removes := by
  intro cmd h
  obtain ⟨p, _, hp⟩ := List.mem_flatMap.mp h
  obtain ⟨d, _, rfl⟩ := List.mem_map.mp hp
  exact .srem d p.1

theorem removes_cons {cmd : Cmd} {cmds : List Cmd} (h : cmd.Removes)
    (hcmds : ∀ cmd ∈ cmds, cmd.Removes) : ∀ c ∈ cmd :: cmds, c.Removes :=
  List.forall_mem_cons.mpr ⟨h, hcmds⟩

theorem removes_nil : ∀ cmd ∈ ([] : List Cmd), cmd.Removes := List.forall_mem_nil _

theorem quiet_each {cmds : List Cmd} {p : Program} (hcmds : ∀ cmd ∈ cmds, cmd.Removes)
    (hp : p.Only Quiet) : (Prog.each cmds p).Only Quiet :=
  Prog.only_each (fun cmd hmem _ => quiet_of (hcmds cmd hmem).isSetex (hcmds cmd hmem).isWatermark)
    hp

theorem stores_each {answer : Answer} {cmds : List Cmd} {p : Program}
    (hcmds : ∀ cmd ∈ cmds, cmd.Removes) (hp : p.Only (Stores answer)) :
    (Prog.each cmds p).Only (Stores answer) :=
  Prog.only_each (fun cmd hmem _ => stores_of (hcmds cmd hmem).isSetex (hcmds cmd hmem).isWatermark)
    hp

/-! ### An invalidation -/

theorem quiet_scanAndDelete {next : Program} (h : next.Only Quiet) (rounds : Nat) :
    (scanAndDelete next rounds).Only Quiet := by
  induction rounds with
  | zero =>
    exact ⟨quiet_of rfl rfl, fun _ => Prog.only_ite (fun _ => h)
      (fun _ => ⟨quiet_of rfl rfl, fun _ => h⟩)⟩
  | succ rounds ih =>
    exact ⟨quiet_of rfl rfl, fun _ => Prog.only_ite (fun _ => ih)
      (fun _ => ⟨quiet_of rfl rfl, fun _ => ih⟩)⟩

theorem quiet_fullFlush {next : Program} (h : next.Only Quiet) (rounds : Nat) :
    (fullFlush rounds next).Only Quiet := by
  apply quiet_scanAndDelete
  exact ⟨quiet_of rfl rfl, fun _ => Prog.only_ite (fun _ => h)
    (fun _ => ⟨quiet_of rfl rfl, fun _ => h⟩)⟩

theorem quiet_watermark : writeInvalidationWatermark.Only Quiet :=
  ⟨quiet_of rfl rfl, fun _ => ⟨⟨rfl, fun _ _ => ⟨none, rfl⟩⟩, fun _ => trivial⟩⟩

theorem quiet_evictLive (d : String) (live : List (Id × List String)) :
    (evictLive d live).Only Quiet := by
  apply quiet_each (removes_srems live _)
  refine quiet_each ?_ (quiet_each (removes_cons (.del _) removes_nil) trivial)
  split
  · exact removes_nil
  · exact removes_cons (.del _) (removes_cons (.zrem _) (removes_cons (.backendDelete _) removes_nil))

theorem quiet_evictDomain (d : String) : (evictDomain d).Only Quiet :=
  ⟨quiet_of rfl rfl, fun _ => Prog.only_ite (fun _ => trivial)
    (fun _ => ⟨quiet_of rfl rfl, fun _ => quiet_evictLive d _⟩)⟩

theorem quiet_invalidateCache (domain : Option String) (rounds : Nat) :
    (invalidateCache domain rounds).Only Quiet := by
  cases domain with
  | none =>
    have h : (Prog.cmd .markLegacySwept fun _ => writeInvalidationWatermark : Program).Only Quiet :=
      ⟨quiet_of rfl rfl, fun _ => quiet_watermark⟩
    exact quiet_fullFlush h rounds
  | some d =>
    exact ⟨quiet_of rfl rfl, fun _ => Prog.only_ite (fun _ => quiet_fullFlush quiet_watermark rounds)
      (fun _ => quiet_evictDomain d)⟩

theorem catches_scanAndDelete {id : Id} {next : Program} (h : Catches id next) (rounds : Nat) :
    Catches id (scanAndDelete next rounds) := by
  induction rounds with
  | zero =>
    exact Or.inr (fun _ _ => Prog.reaches_ite (fun _ => h) (fun _ => Or.inr (fun _ _ => h)))
  | succ rounds ih =>
    exact Or.inr (fun _ _ => Prog.reaches_ite (fun _ => ih) (fun _ => Or.inr (fun _ _ => ih)))

theorem catches_fullFlush {id : Id} {next : Program} (h : Catches id next) (rounds : Nat) :
    Catches id (fullFlush rounds next) := by
  apply catches_scanAndDelete
  exact Or.inr (fun _ _ => Prog.reaches_ite (fun _ => h) (fun _ => Or.inr (fun _ _ => h)))

theorem catches_watermark (id : Id) : Catches id writeInvalidationWatermark :=
  Or.inr (fun _ _ => Or.inl trivial)

theorem catches_evictLive {id : Id} {live : List (Id × List String)}
    (h : id ∈ live.map Prod.fst) (d : String) : Catches id (evictLive d live) := by
  apply Prog.reaches_each
  have hne : live ≠ [] := by
    intro hnil
    rw [hnil] at h
    cases h
  rw [if_neg hne]
  refine Or.inl ?_
  obtain ⟨p, hp, rfl⟩ := List.mem_map.mp h
  exact List.mem_map_of_mem hp

theorem catches_evictDomain (id : Id) (d : String) : Catches id (evictDomain d) := by
  refine Or.inr (fun (members : List Id) (hmem : id ∈ members) => Prog.reaches_ite ?_ ?_)
  · intro hnil
    exact absurd hnil (List.ne_nil_of_mem hmem)
  · intro _
    exact Or.inr (fun _ hok => catches_evictLive (hok hmem) d)

/-- An invalidation starts on its way to every entry. -/
theorem catches_invalidateCache (id : Id) (domain : Option String) (rounds : Nat) :
    Catches id (invalidateCache domain rounds) := by
  cases domain with
  | none =>
    have h : Catches id (.cmd .markLegacySwept fun _ => writeInvalidationWatermark) :=
      Or.inr (fun _ _ => catches_watermark id)
    exact catches_fullFlush h rounds
  | some d =>
    exact Or.inr (fun _ _ => Prog.reaches_ite
      (fun _ => catches_fullFlush (catches_watermark id) rounds) (fun _ => catches_evictDomain id d))

/-! ### A store -/

theorem stores_evictOldest {answer : Answer} {next : Program} (h : next.Only (Stores answer))
    (bound : Nat) : (evictOldestIfOverBound bound next).Only (Stores answer) := by
  refine ⟨stores_of rfl rfl, fun _ => Prog.only_ite (fun _ => h) (fun _ => ?_)⟩
  refine ⟨stores_of rfl rfl, fun _ => Prog.only_ite (fun _ => h) (fun _ => ?_)⟩
  refine ⟨stores_of rfl rfl, fun _ => stores_each (removes_srems _ _) (stores_each ?_ h)⟩
  exact removes_cons (.del _) (removes_cons (.zrem _) (removes_cons (.backendDelete _) removes_nil))

theorem stores_indexDomains (answer : Answer) (id : Id) (domainsSearched : List String) :
    (indexDomains id domainsSearched).Only (Stores answer) := by
  refine Prog.only_each (fun cmd hcmd _ => ?_) trivial
  obtain ⟨d, _, hd⟩ := List.mem_flatMap.mp hcmd
  rcases List.mem_pair.mp hd with rfl | rfl
  · exact stores_of rfl rfl
  · exact stores_of rfl rfl

theorem stores_cacheStore (id : Id) (answer : Answer) (now maxEntries : Nat) :
    (cacheStore id answer now maxEntries).Only (Stores answer) := by
  refine Prog.only_ite (fun _ => trivial) (fun _ => ⟨⟨fun id' payload h => ?_, rfl⟩, fun _ => ?_⟩)
  · injection h with _ hpayload
    rw [← hpayload]
    exact ⟨rfl, rfl⟩
  · exact ⟨stores_of rfl rfl, fun _ => ⟨stores_of rfl rfl, fun _ =>
      stores_evictOldest (stores_indexDomains answer id _) maxEntries⟩⟩

/-! ## One command -/

theorem entries_delKey (c : Cache) (key : Key) (id : Id) :
    (c.delKey key).entries.get? id = if key = .entry id then none else c.entries.get? id := by
  cases key with
  | entry id' =>
    show (c.entries.erase id').get? id = _
    rw [Dict.get?_erase]
    by_cases h : id = id'
    · rw [if_pos h, if_pos (by rw [h])]
    · rw [if_neg h, if_neg (fun he => h (Key.entry.inj he).symm)]
  | domainIndex d => exact (if_neg Key.noConfusion).symm
  | ageIndex => exact (if_neg Key.noConfusion).symm

theorem entries_foldl_delKey (keys : List Key) (c : Cache) (id : Id) :
    (keys.foldl Cache.delKey c).entries.get? id =
      if .entry id ∈ keys then none else c.entries.get? id := by
  induction keys generalizing c with
  | nil => rfl
  | cons key rest ih =>
    rw [List.foldl_cons, ih, entries_delKey]
    by_cases hrest : Key.entry id ∈ rest
    · rw [if_pos hrest, if_pos (List.mem_cons_of_mem key hrest)]
    · by_cases hkey : key = .entry id
      · rw [if_neg hrest, if_pos hkey, if_pos (by rw [hkey]; exact List.mem_cons_self)]
      · rw [if_neg hrest, if_neg hkey, if_neg (fun h => (List.mem_cons.mp h).elim
          (fun he => hkey he.symm) hrest)]

theorem watermark_foldl_delKey (keys : List Key) (c : Cache) :
    (keys.foldl Cache.delKey c).watermark = c.watermark := by
  induction keys generalizing c with
  | nil => rfl
  | cons key rest ih =>
    rw [List.foldl_cons, ih]
    cases key <;> rfl

/-- An entry that is there after a command was stored by it, or was there. -/
theorem entries_effect {cmd : Cmd} {c : Cache} {id : Id} {payload : Payload}
    (h : (effect cmd c).entries.get? id = some payload) :
    cmd = .setex id payload ∨ c.entries.get? id = some payload := by
  cases cmd with
  | setex id' payload' =>
    have h : (c.entries.set id' payload').get? id = some payload := h
    rw [Dict.get?_set] at h
    split at h
    · left
      rw [‹id = id'›, Option.some.inj h]
    · exact Or.inr h
  | del keys =>
    have h : (keys.foldl Cache.delKey c).entries.get? id = some payload := h
    rw [entries_foldl_delKey] at h
    split at h
    · cases h
    · exact Or.inr h
  | _ => exact Or.inr h

theorem watermark_effect {cmd : Cmd} (h : cmd.isWatermark = false) (c : Cache) :
    (effect cmd c).watermark = c.watermark := by
  cases cmd with
  | setWatermark t => cases h
  | del keys => exact watermark_foldl_delKey keys c
  | _ => rfl

/-- What a deletion hits is gone. -/
theorem hits_effect {cmd : Cmd} {c : Cache} {id : Id} {payload : Payload} (h : Hits id cmd)
    (hlive : (effect cmd c).entries.get? id = some payload) : cmd.isWatermark = true := by
  cases cmd with
  | del keys =>
    have hlive : (keys.foldl Cache.delKey c).entries.get? id = some payload := hlive
    rw [entries_foldl_delKey, if_pos (show Key.entry id ∈ keys from h)] at hlive
    cases hlive
  | setWatermark t => rfl
  | _ => cases h

theorem mem_withDomains {ids : List Id} {c : Cache} {id : Id} {payload : Payload}
    (hlive : c.entries.get? id = some payload) (hmem : id ∈ ids) :
    id ∈ (withDomains ids (ids.map c.entries.get?)).map Prod.fst := by
  have hpair : (id, some payload) ∈ ids.zip (ids.map c.entries.get?) := by
    have hzip := List.zip_map' (f := fun i : Id => i) (g := c.entries.get?) (l := ids)
    rw [List.map_id'] at hzip
    rw [hzip, ← hlive]
    exact List.mem_map_of_mem hmem
  exact List.mem_map.mpr ⟨_, List.mem_filterMap.mpr ⟨_, hpair, rfl⟩, rfl⟩

theorem honours_reply {cmd : Cmd} {env : Env} {c : Cache} {ended : List Ended} {id : Id}
    {payload : Payload} (hlive : c.entries.get? id = some payload)
    (hmem : ∀ d, cmd = .smembers d → id ∈ c.members d) :
    Honours id cmd (reply env c ended cmd) := by
  cases cmd with
  | smembers d => exact hmem d rfl
  | mget ids => exact mem_withDomains hlive
  | _ => trivial

end Cerid.Retrieval.SemanticCache
