import Cerid.Lib.Dict
import Cerid.Lib.Prog
import Mathlib.Data.List.Sort
import Mathlib.Data.String.Basic

/-!
# The semantic cache

Answers are kept in Redis, each under its own key, with a set of entry ids for each domain
and one sorted set of their ages; the embeddings are in a collection of their own.  A store,
a lookup and an invalidation are programs over single commands of the two, and a run takes
the next command of any of them.

The collection is registered and no command fails.  Which entries are similar to a query,
what a `SCAN` returns, and what the clock shows are inputs.
-/

namespace Cerid.Retrieval.SemanticCache

abbrev Id := String

/-! ## Requests -/

/-- What else a query asks for; no token names it. -/
structure Options where
  topK : Nat
  useReranking : Bool
  conversationMessages : List String
  strictDomains : Bool
  memoryStrict : Option Bool
  model : Option String
deriving DecidableEq, Repr

/-- A request; outside multi-user mode it has no tenant. -/
structure Request where
  domains : Option (List String)
  allowedDomains : Option (List String)
  memoryEnabled : Bool
  tenantId : Option String
  options : Options
deriving DecidableEq, Repr

def sorted (names : List String) : List String := names.insertionSort (· ≤ ·)

def domainPart (names : List String) : String :=
  if names = [] then "__all__" else ",".intercalate (sorted names)

def scopeToken (q : Request) : String :=
  let base := domainPart (q.domains.getD [])
  let base := match q.allowedDomains with
    | none => base
    | some allowed => base ++ "|allow=" ++ domainPart allowed
  let base := match q.tenantId with
    | none => base
    | some tenantId => base ++ "|tenant=" ++ tenantId
  if q.memoryEnabled then base else base ++ "|mem=0"

/-- Whom a request is for and what it asks for, without the order of its lists. -/
structure Scope where
  domains : List String
  allowedDomains : Option (List String)
  memoryEnabled : Bool
  tenantId : Option String
  options : Options
deriving DecidableEq, Repr

def Request.scope (q : Request) : Scope where
  domains := sorted (q.domains.getD [])
  allowedDomains := q.allowedDomains.map sorted
  memoryEnabled := q.memoryEnabled
  tenantId := q.tenantId
  options := q.options

/-! ## Answers -/

structure Result where
  budgetExceeded : Bool
  retrievalDegraded : Bool
  sources : List String

/-- An answer, with its request and the event at which its computation started. -/
structure Answer where
  request : Request
  started : Nat
  result : Result
  domainsSearched : List String

/-- What is stored under the key of an entry. -/
structure Payload where
  domainScope : String
  answer : Answer
  storedAt : Nat

/-- A call of `invalidate_cache`, with the event at which it began. -/
structure Invalidation where
  domain : Option String
  began : Nat

/-- The invalidation is of a domain the answer drew on. -/
def Invalidation.Touches (v : Invalidation) (a : Answer) : Prop :=
  ∀ d, v.domain = some d → d ∈ a.domainsSearched

instance (v : Invalidation) (a : Answer) : Decidable (v.Touches a) :=
  match hd : v.domain with
  | none => isTrue (fun _ h => by rw [hd] at h; cases h)
  | some d =>
    if h : d ∈ a.domainsSearched then
      isTrue (fun d' hd' => by rw [hd] at hd'; exact Option.some.inj hd' ▸ h)
    else isFalse (fun hall => h (hall d hd))

/-- An invalidation that is over; `byWatermark` when it was a full flush. -/
structure Ended where
  invalidation : Invalidation
  byWatermark : Bool

/-- A payload that was read, with the invalidations that had ended by then. -/
structure Read where
  payload : Payload
  ended : List Ended

/-! ## Redis and the collection -/

/-- A key that begins with `semcache:`. -/
inductive Key where
  | entry (id : Id)
  | domainIndex (domain : String)
  | ageIndex
deriving DecidableEq, Repr

/-- The keys of the cache, the two of `semcache_meta:`, and the ids of the collection. -/
structure Cache where
  entries : Dict Id Payload
  domainIndex : Dict String (List Id)
  ageIndex : Dict Id Nat
  watermark : Option Nat
  legacySwept : Bool
  backend : List Id

inductive Cmd where
  | setex (id : Id) (payload : Payload)
  | get (id : Id)
  | mget (ids : List Id)
  | del (keys : List Key)
  | sadd (domain : String) (id : Id)
  | expire (domain : String)
  | srem (domain : String) (id : Id)
  | smembers (domain : String)
  | zadd (id : Id) (score : Nat)
  | zcard
  | zrange (n : Nat)
  | zrem (ids : List Id)
  | scan
  | claimLegacySweep
  | markLegacySwept
  | time
  | setWatermark (stamp : Nat)
  | getWatermark
  | count
  | upsert (id : Id)
  | query
  | backendIds
  | backendDelete (ids : List Id)

abbrev Reply : Cmd → Type
  | .get _ => Option Read
  | .mget _ => List (Option Payload)
  | .smembers _ => List Id
  | .zcard => Nat
  | .zrange _ => List Id
  | .scan => List Key
  | .claimLegacySweep => Bool
  | .time => Nat
  | .getWatermark => Option Nat
  | .count => Nat
  | .query => List Id
  | .backendIds => List Id
  | _ => Unit

abbrev Program := Prog Cmd Reply (Option Read)

/-- The inputs of a command: the clock, the entries that are similar enough in their order,
and what a `SCAN` comes to. -/
structure Env where
  time : Nat
  similar : List Id
  scanned : List Key

def Cache.delKey (c : Cache) : Key → Cache
  | .entry id => { c with entries := c.entries.erase id }
  | .domainIndex d => { c with domainIndex := c.domainIndex.erase d }
  | .ageIndex => { c with ageIndex := .empty }

def Cache.members (c : Cache) (domain : String) : List Id := (c.domainIndex.get? domain).getD []

def Cache.has (c : Cache) : Key → Bool
  | .entry id => (c.entries.get? id).isSome
  | .domainIndex d => c.members d ≠ []
  | .ageIndex => c.ageIndex.items ≠ []

def effect : Cmd → Cache → Cache
  | .setex id payload, c => { c with entries := c.entries.set id payload }
  | .del keys, c => keys.foldl Cache.delKey c
  | .sadd d id, c => { c with domainIndex := c.domainIndex.set d ((c.members d).insert id) }
  | .srem d id, c => { c with domainIndex := c.domainIndex.set d ((c.members d).erase id) }
  | .zadd id score, c => { c with ageIndex := c.ageIndex.set id score }
  | .zrem ids, c => { c with ageIndex := ids.foldl Dict.erase c.ageIndex }
  | .claimLegacySweep, c => { c with legacySwept := true }
  | .markLegacySwept, c => { c with legacySwept := true }
  | .setWatermark t, c => { c with watermark := some t }
  | .upsert id, c => { c with backend := c.backend.insert id }
  | .backendDelete ids, c => { c with backend := c.backend.filter (· ∉ ids) }
  | _, c => c

/-- The ids of the sorted set, the lowest scores first. -/
def Cache.oldest (c : Cache) : List Id :=
  (c.ageIndex.items.insertionSort (fun a b => a.2 < b.2 ∨ a.2 = b.2 ∧ a.1 ≤ b.1)).map Prod.fst

def reply (env : Env) (c : Cache) (ended : List Ended) : (cmd : Cmd) → Reply cmd
  | .get id => (c.entries.get? id).map (fun payload => { payload := payload, ended := ended })
  | .mget ids => ids.map c.entries.get?
  | .smembers d => c.members d
  | .zcard => c.ageIndex.items.length
  | .zrange n => c.oldest.take n
  | .scan => env.scanned.filter c.has
  | .claimLegacySweep => !c.legacySwept
  | .time => env.time
  | .getWatermark => c.watermark
  | .count => c.backend.length
  | .query => (env.similar.filter (· ∈ c.backend)).take 3
  | .backendIds => c.backend
  | .setex _ _ | .del _ | .sadd _ _ | .expire _ | .srem _ _ | .zadd _ _ | .zrem _
  | .markLegacySwept | .setWatermark _ | .upsert _ | .backendDelete _ => ()

/-! ## The functions -/

/-- The entry ids of `ids` whose payloads were there, with the domains of each. -/
def withDomains (ids : List Id) (payloads : List (Option Payload)) : List (Id × List String) :=
  (ids.zip payloads).filterMap (fun p =>
    p.2.map (fun payload => (p.1, payload.answer.domainsSearched)))

/-- `_evict_oldest_if_over_bound`, and what follows it. -/
def evictOldestIfOverBound (bound : Nat) (next : Program) : Program :=
  .cmd .zcard fun (n : Nat) =>
    if n ≤ bound then next
    else .cmd (.zrange (n - bound)) fun (ids : List Id) =>
      if ids = [] then next
      else .cmd (.mget ids) fun (payloads : List (Option Payload)) =>
        .each ((withDomains ids payloads).flatMap (fun p => p.2.map (fun d => Cmd.srem d p.1)))
          (.each [.del (ids.map .entry), .zrem ids, .backendDelete ids] next)

def indexDomains (id : Id) (domainsSearched : List String) : Program :=
  .each (domainsSearched.flatMap (fun d => [Cmd.sadd d id, .expire d])) (.ret none)

/-- `cache_store` under an entry id, at a reading of the clock. -/
def cacheStore (id : Id) (answer : Answer) (now maxEntries : Nat) : Program :=
  if answer.result.budgetExceeded || answer.result.retrievalDegraded ||
      answer.result.sources.isEmpty then .ret none
  else
    let payload : Payload :=
      { domainScope := scopeToken answer.request, answer := answer, storedAt := now }
    .each [.setex id payload, .upsert id, .zadd id now]
      (evictOldestIfOverBound maxEntries (indexDomains id answer.domainsSearched))

/-- `_check_stale_hit`. -/
def checkStaleHit (payload : Payload) (watermark : Option Nat) : Bool :=
  watermark.any (fun t => payload.storedAt < t)

/-- What becomes of a payload of the right scope: it is served, unless it predates the last
full invalidation. -/
def judge (r : Read) (id : Id) (next : Program) : Program :=
  .cmd .getWatermark fun (watermark : Option Nat) =>
    if checkStaleHit r.payload watermark then
      .each [.backendDelete [id], .del [.entry id], .zrem [id]] next
    else .ret (some r)

/-- The loop of `cache_lookup` over the candidates. -/
def examine (scope : String) : List Id → Program
  | [] => .ret none
  | id :: rest =>
    .cmd (.get id) fun (found : Option Read) =>
      match found with
      | none => .each [.backendDelete [id], .zrem [id]] (examine scope rest)
      | some r => if r.payload.domainScope = scope then judge r id (examine scope rest)
          else examine scope rest

def cacheLookup (q : Request) : Program :=
  .cmd .count fun (n : Nat) =>
    if n = 0 then .ret none
    else .cmd .query fun (ids : List Id) => examine (scopeToken q) ids

/-- The loop over `SCAN`, of one round more than `rounds`. -/
def scanAndDelete (next : Program) : Nat → Program
  | 0 => .cmd .scan fun (keys : List Key) =>
      if keys = [] then next else .cmd (.del keys) fun _ => next
  | rounds + 1 => .cmd .scan fun (keys : List Key) =>
      if keys = [] then scanAndDelete next rounds
      else .cmd (.del keys) fun _ => scanAndDelete next rounds

def fullFlush (rounds : Nat) (next : Program) : Program :=
  scanAndDelete (.cmd .backendIds fun (ids : List Id) =>
    if ids = [] then next else .cmd (.backendDelete ids) fun _ => next) rounds

def writeInvalidationWatermark : Program :=
  .cmd .time fun (t : Nat) => .cmd (.setWatermark t) fun _ => .ret none

/-- What `_evict_domain` deletes, once it has read the payloads of its members. -/
def evictLive (domain : String) (live : List (Id × List String)) : Program :=
  .each (live.flatMap (fun p => (p.2.filter (· ≠ domain)).map (fun d => Cmd.srem d p.1)))
    (.each (if live = [] then [] else
        [.del (live.map (fun p => .entry p.1)), .zrem (live.map Prod.fst),
          .backendDelete (live.map Prod.fst)])
      (.each [.del [.domainIndex domain]] (.ret none)))

def evictDomain (domain : String) : Program :=
  .cmd (.smembers domain) fun (members : List Id) =>
    if members = [] then .ret none
    else .cmd (.mget members) fun (payloads : List (Option Payload)) =>
      evictLive domain (withDomains members payloads)

def invalidateCache (domain : Option String) (rounds : Nat) : Program :=
  match domain with
  | none => fullFlush rounds (.cmd .markLegacySwept fun _ => writeInvalidationWatermark)
  | some d => .cmd .claimLegacySweep fun (claimed : Bool) =>
      if claimed then fullFlush rounds writeInvalidationWatermark else evictDomain d

/-! ## Runs -/

/-- What a program is for.  A lookup holds the payload that it is judging. -/
inductive Task where
  | query (request : Request) (started : Nat)
  | store (answer : Answer)
  | lookup (request : Request) (held : Option Read)
  | invalidate (invalidation : Invalidation)

structure Proc where
  task : Task
  prog : Program

/-- The two stores, the programs by number, the invalidations that have ended, the requests
so far, and the number of the next event. -/
structure World where
  cache : Cache
  procs : Dict Nat Proc
  ended : List Ended
  requests : List Request
  tick : Nat

def World.start : World where
  cache :=
    { entries := .empty
      domainIndex := .empty
      ageIndex := .empty
      watermark := none
      legacySwept := false
      backend := [] }
  procs := .empty
  ended := []
  requests := []
  tick := 0

inductive Op where
  | query (pid : Nat) (request : Request)
  | store (pid : Nat) (query : String) (result : Result) (domainsSearched : List String)
      (now maxEntries : Nat)
  | lookup (pid : Nat) (request : Request)
  | invalidate (pid : Nat) (domain : Option String) (rounds : Nat)
  | run (pid : Nat) (env : Env)
  | expire (key : Key)
  | expireWatermark

/-- A task after the reply to a command. -/
def Task.after : Task → (cmd : Cmd) → Reply cmd → Task
  | .lookup q _, .get _, found =>
    .lookup q (found.filter (fun r => r.payload.domainScope = scopeToken q))
  | .lookup q _, _, _ => .lookup q none
  | task, _, _ => task

def Cmd.isWatermark : Cmd → Bool
  | .setWatermark _ => true
  | _ => false

/-- The invalidation that ends when a task goes on with a program. -/
def Task.endings (task : Task) (cmd : Cmd) (next : Program) : List Ended :=
  match task, next with
  | .invalidate v, .ret _ => [{ invalidation := v, byWatermark := cmd.isWatermark }]
  | _, _ => []

/-- The next command of a program. -/
def World.runNext (w : World) (pid : Nat) (env : Env) : World :=
  match w.procs.get? pid with
  | some { task, prog := .cmd cmd k } =>
    let next := k (reply env w.cache w.ended cmd)
    { w with
      cache := effect cmd w.cache
      procs := w.procs.set pid
        { task := task.after cmd (reply env w.cache w.ended cmd), prog := next }
      ended := w.ended ++ task.endings cmd next }
  | _ => w

/-- The time of an entry or of a domain's set is over. -/
def Cache.expire (c : Cache) : Key → Cache
  | .ageIndex => c
  | key => c.delKey key

variable (sha256 : String → String)

/-- The id of an entry, by the hexadecimal digest. -/
def entryId (scope query : String) : Id := .ofList ((sha256 (scope ++ "|" ++ query)).toList.take 16)

/-- An operation; a number that is taken starts nothing. -/
def World.step (w : World) : Op → World
  | .query pid request =>
    if (w.procs.get? pid).isSome then w
    else { w with
      procs := w.procs.set pid { task := .query request w.tick, prog := .ret none }
      requests := request :: w.requests
      tick := w.tick + 1 }
  | .store pid query result domainsSearched now maxEntries =>
    match w.procs.get? pid with
    | some { task := .query request started, .. } =>
      let answer : Answer := { request, started, result, domainsSearched }
      { w with
        procs := w.procs.set pid
          { task := .store answer
            prog := cacheStore (entryId sha256 (scopeToken request) query) answer now maxEntries } }
    | _ => w
  | .lookup pid request =>
    if (w.procs.get? pid).isSome then w
    else { w with
      procs := w.procs.set pid { task := .lookup request none, prog := cacheLookup request }
      requests := request :: w.requests }
  | .invalidate pid domain rounds =>
    if (w.procs.get? pid).isSome then w
    else { w with
      procs := w.procs.set pid
        { task := .invalidate { domain := domain, began := w.tick }
          prog := invalidateCache domain rounds }
      tick := w.tick + 1 }
  | .run pid env => w.runNext pid env
  | .expire key => { w with cache := w.cache.expire key }
  | .expireWatermark => { w with cache := { w.cache with watermark := none } }

end Cerid.Retrieval.SemanticCache
