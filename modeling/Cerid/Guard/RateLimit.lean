import Cerid.Lib.Dict
import Cerid.Lib.SlidingWindow
import Mathlib.Algebra.Order.Floor.Ring
import Mathlib.Data.List.Induction
import Mathlib.Data.Rat.Floor

/-!
# The rate limiter

Each client, address and path prefix has a bucket with the times of its requests.  A request
drops what has left the window and is let through if fewer than the maximum are left.  A sweep
drops what is older than the longest window, and buckets in which nothing is left.

There is no await under a bucket's lock, so a request is one step up to the call of the route.
Sweeps are steps of their own as well, at any time and whatever locks are held.  Times are
rationals.
-/

namespace Cerid.Guard.RateLimit

open SlidingWindow (fresh Keeps Bounded)

/-- So many requests in so many seconds. -/
structure Rule where
  maxReq : Nat
  window : Nat
deriving DecidableEq, Repr

def sweepInterval : ℚ := 60

/-- `_MAX_WINDOW`. -/
def maxWindow : Nat := 3600

/-- `CLIENT_RATE_LIMITS`: the rules of each client by prefix.  No window is longer than what a
sweep keeps, and a key's text tells its client and its prefix. -/
structure ClientRateLimits where
  clients : Dict String (Dict String Rule)
  window_le : ∀ client ∈ clients.values, ∀ rule ∈ client.values, rule.window ≤ maxWindow
  client_colon : ∀ client ∈ clients.keys, ':' ∉ client.toList
  prefix_colon : ∀ client ∈ clients.values, ∀ path ∈ client.keys, ':' ∉ path.toList

structure Request where
  path : String
  method : String
  /-- The header `x-client-id`. -/
  clientId : Option String
  /-- What `get_client_ip` makes of the request. -/
  clientIp : String

structure RateHeaders where
  limit : Nat
  remaining : Nat
  reset : ℤ
deriving DecidableEq, Repr

inductive Response where
  | next
  | rated (headers : RateHeaders)
  | tooMany (detail : String) (retryAfter : ℤ) (headers : RateHeaders)
  | indexError
deriving DecidableEq, Repr

structure RateLimitMiddleware where
  hits : Dict String (List ℚ)
  lastSweep : ℚ

def RateLimitMiddleware.init : RateLimitMiddleware where
  hits := .empty
  lastSweep := 0

/-! ## A request -/

def startsWith (path start : String) : Bool := start.toList.isPrefixOf path.toList

def getLimitedPrefixes : List String := ["/admin/", "/observability/"]

/-- Reads other than of polled surfaces, and the internal paths. -/
def exempt (request : Request) : Bool :=
  (request.method == "GET" && !getLimitedPrefixes.any (startsWith request.path)) ||
    ["/mcp/", "/health"].any (startsWith request.path)

def bucketKey (keyId clientIp path : String) : String :=
  "client:" ++ keyId ++ ":ip:" ++ clientIp ++ ":" ++ path

/-- The client whose budget is used, with its rules. -/
def ClientRateLimits.budget (limits : ClientRateLimits) (request : Request) :
    String × Dict String Rule :=
  let clientId := request.clientId.getD "gui"
  match limits.clients.get? clientId with
  | some clientLimits => (clientId, clientLimits)
  | none => ("_default", (limits.clients.get? "_default").getD .empty)

/-- The bucket of a request, if one of the rules is for its path. -/
def ClientRateLimits.bucket (limits : ClientRateLimits) (request : Request) :
    Option (String × Rule) :=
  let (keyId, clientLimits) := limits.budget request
  (clientLimits.items.find? fun p => startsWith request.path p.1).map fun p =>
    (bucketKey keyId request.clientIp p.1, p.2)

/-- `_sweep_idle_buckets`, with what the locks say. -/
def sweepIdleBuckets (locked : String → Bool) (now : ℚ) (hits : Dict String (List ℚ)) :
    Dict String (List ℚ) :=
  let stale := (hits.items.filter fun p => fresh now maxWindow p.2 = [] && !locked p.1).map Prod.fst
  let kept := hits.mapValues fun _ times =>
    if fresh now maxWindow times = [] then times else fresh now maxWindow times
  stale.foldl Dict.erase kept

def detail (rule : Rule) : String :=
  s!"Rate limit exceeded. Max {rule.maxReq} requests per {rule.window}s."

/-- A request with a bucket, at `now`. -/
def grant (s : RateLimitMiddleware) (key : String) (rule : Rule) (now : ℚ) :
    RateLimitMiddleware × Response :=
  let times := fresh now rule.window ((s.hits.get? key).getD [])
  let reset := fun oldest : ℚ => ⌈rule.window - (now - oldest)⌉
  if rule.maxReq ≤ times.length then
    ({ s with hits := s.hits.set key times },
      match times with
      | [] => .indexError
      | oldest :: _ =>
        let reset := max 1 (reset oldest)
        .tooMany (detail rule) reset ⟨rule.maxReq, 0, reset⟩)
  else
    ({ s with hits := s.hits.set key (times ++ [now]) },
      .rated ⟨rule.maxReq, rule.maxReq - times.length - 1, reset (times.headD now)⟩)

/-- The sweep that a request makes if the last one is long ago. -/
def sweepIfDue (locked : String → Bool) (nowSweep : ℚ) (s : RateLimitMiddleware) :
    RateLimitMiddleware :=
  if sweepInterval < nowSweep - s.lastSweep then
    { hits := sweepIdleBuckets locked nowSweep s.hits, lastSweep := nowSweep }
  else s

def dispatch (limits : ClientRateLimits) (locked : String → Bool) (s : RateLimitMiddleware)
    (request : Request) (nowSweep now : ℚ) : RateLimitMiddleware × Response :=
  if exempt request then (s, .next)
  else
    let s := sweepIfDue locked nowSweep s
    match limits.bucket request with
    | none => (s, .next)
    | some (key, rule) => grant s key rule now

/-! ## Runs -/

inductive Action where
  | dispatch (request : Request) (nowSweep now : ℚ) (locked : String → Bool)
  | sweep (now : ℚ) (locked : String → Bool)

/-- What an action reads of the clock. -/
def Action.readings : Action → List ℚ
  | .dispatch _ nowSweep now _ => [nowSweep, now]
  | .sweep now _ => [now]

/-- The limiter, and the buckets and times of the requests that it has let through. -/
structure System where
  limiter : RateLimitMiddleware
  accepted : List (String × ℚ)

def System.init : System where
  limiter := .init
  accepted := []

/-- The times of the requests of a bucket. -/
def System.history (s : System) (key : String) : List ℚ :=
  (s.accepted.filter fun p => p.1 = key).map Prod.snd

def Response.counted : Response → Bool
  | .rated _ => true
  | .next | .tooMany _ _ _ | .indexError => false

def Response.refused : Response → Bool
  | .tooMany _ _ _ | .indexError => true
  | .next | .rated _ => false

def step (limits : ClientRateLimits) (s : System) : Action → System
  | .dispatch request nowSweep now locked =>
    let (limiter, response) := dispatch limits locked s.limiter request nowSweep now
    { limiter
      accepted := s.accepted ++ if response.counted then
        ((limits.bucket request).map fun p => (p.1, now)).toList else [] }
  | .sweep now locked =>
    { s with limiter := { s.limiter with hits := sweepIdleBuckets locked now s.limiter.hits } }

def run (limits : ClientRateLimits) (actions : List Action) : System :=
  actions.foldl (step limits) .init

/-! ## Keys -/

/-- The first of a character that a text has. -/
theorem before_first {a : Char} {x y u v : List Char} (hx : a ∉ x) (hy : a ∉ y)
    (h : x ++ a :: u = y ++ a :: v) : x = y ∧ u = v := by
  rcases List.append_eq_append_iff.mp h with ⟨c, rfl, hc⟩ | ⟨c, rfl, hc⟩
  · cases c with
    | nil => exact ⟨(List.append_nil x).symm, (List.cons.inj hc).2⟩
    | cons b c =>
      obtain ⟨rfl, -⟩ := List.cons.inj hc
      exact absurd (List.mem_append_right x List.mem_cons_self) hy
  · cases c with
    | nil => exact ⟨List.append_nil y, (List.cons.inj hc).2.symm⟩
    | cons b c =>
      obtain ⟨rfl, -⟩ := List.cons.inj hc
      exact absurd (List.mem_append_right y List.mem_cons_self) hx

/-- The last of a character that a text has. -/
theorem after_last {a : Char} {x y u v : List Char} (hu : a ∉ u) (hv : a ∉ v)
    (h : x ++ a :: u = y ++ a :: v) : x = y ∧ u = v := by
  have hrev : u.reverse ++ a :: x.reverse = v.reverse ++ a :: y.reverse := by
    simpa using congrArg List.reverse h
  obtain ⟨huv, hxy⟩ := before_first (mt List.mem_reverse.mp hu) (mt List.mem_reverse.mp hv) hrev
  exact ⟨List.reverse_injective hxy, List.reverse_injective huv⟩

theorem bucketKey_inj {k k' ip ip' p p' : String} (hk : ':' ∉ k.toList) (hk' : ':' ∉ k'.toList)
    (hp : ':' ∉ p.toList) (hp' : ':' ∉ p'.toList) (h : bucketKey k ip p = bucketKey k' ip' p') :
    k = k' ∧ ip = ip' ∧ p = p' := by
  have hchars := congrArg String.toList h
  simp only [bucketKey, String.toList_append] at hchars
  have hrest : k.toList ++ ':' :: ("ip:".toList ++ (ip.toList ++ ':' :: p.toList)) =
      k'.toList ++ ':' :: ("ip:".toList ++ (ip'.toList ++ ':' :: p'.toList)) := by
    simpa using hchars
  obtain ⟨hkeys, hrest⟩ := before_first hk hk' hrest
  obtain ⟨hips, hpaths⟩ := after_last hp hp' (List.append_cancel_left hrest)
  exact ⟨String.toList_injective hkeys, String.toList_injective hips,
    String.toList_injective hpaths⟩

/-- The rules are those of the client in the key. -/
theorem budget_cases (limits : ClientRateLimits) (request : Request) :
    limits.clients.get? (limits.budget request).1 = some (limits.budget request).2 ∨
      (limits.budget request).2 = .empty := by
  cases hget : limits.clients.get? (request.clientId.getD "gui") with
  | some client =>
    simp only [ClientRateLimits.budget, hget]
    exact Or.inl trivial
  | none =>
    cases hdefault : limits.clients.get? "_default" with
    | some client =>
      simp only [ClientRateLimits.budget, hget, hdefault]
      exact Or.inl rfl
    | none =>
      simp only [ClientRateLimits.budget, hget, hdefault]
      exact Or.inr rfl

/-- A bucket is a client's, an address's and a prefix's, and the rule is the prefix's. -/
theorem bucket_cases {limits : ClientRateLimits} {request : Request} {key : String} {rule : Rule}
    (h : limits.bucket request = some (key, rule)) :
    ∃ keyId client path, limits.clients.get? keyId = some client ∧ client.get? path = some rule ∧
      key = bucketKey keyId request.clientIp path := by
  obtain ⟨⟨path, rule'⟩, hfind, he⟩ := Option.map_eq_some_iff.mp h
  obtain ⟨rfl, rfl⟩ := Prod.mk.inj he
  have hget : (limits.budget request).2.get? path = some rule' :=
    (Dict.mem_items_iff _ path rule').mp (List.mem_of_find?_eq_some hfind)
  rcases budget_cases limits request with hclient | hempty
  · exact ⟨_, _, path, hclient, hget, rfl⟩
  · rw [hempty] at hget
    cases hget

/-- The text of a key tells its rule. -/
theorem bucket_rule {limits : ClientRateLimits} {request request' : Request} {key : String}
    {rule rule' : Rule} (h : limits.bucket request = some (key, rule))
    (h' : limits.bucket request' = some (key, rule')) : rule = rule' := by
  obtain ⟨keyId, client, path, hclient, hrule, hkey⟩ := bucket_cases h
  obtain ⟨keyId', client', path', hclient', hrule', hkey'⟩ := bucket_cases h'
  have hid : ∀ {k c}, limits.clients.get? k = some c → ':' ∉ k.toList := fun hc =>
    limits.client_colon _ ((Dict.mem_keys_iff _ _).mpr ⟨_, hc⟩)
  have hpath : ∀ {k c p r}, limits.clients.get? k = some c → c.get? p = some r → ':' ∉ p.toList :=
    fun hc hr => limits.prefix_colon _ ((Dict.mem_values_iff _ _).mpr ⟨_, hc⟩) _
      ((Dict.mem_keys_iff _ _).mpr ⟨_, hr⟩)
  obtain ⟨rfl, -, rfl⟩ := bucketKey_inj (hid hclient) (hid hclient') (hpath hclient hrule)
    (hpath hclient' hrule') (hkey.symm.trans hkey')
  rw [hclient] at hclient'
  obtain rfl := Option.some.inj hclient'
  exact Option.some.inj (hrule.symm.trans hrule')

theorem window_le_of_bucket {limits : ClientRateLimits} {request : Request} {key : String}
    {rule : Rule} (h : limits.bucket request = some (key, rule)) : rule.window ≤ maxWindow := by
  obtain ⟨_, client, _, hclient, hrule, -⟩ := bucket_cases h
  exact limits.window_le client ((Dict.mem_values_iff _ _).mpr ⟨_, hclient⟩) rule
    ((Dict.mem_values_iff _ _).mpr ⟨_, hrule⟩)

/-! ## Sweeps -/

theorem get?_sweepIdleBuckets (locked : String → Bool) (now : ℚ) (hits : Dict String (List ℚ))
    (key : String) : (sweepIdleBuckets locked now hits).get? key =
      (hits.get? key).bind fun times =>
        if fresh now maxWindow times = [] then if locked key then some times else none
        else some (fresh now maxWindow times) := by
  rw [sweepIdleBuckets, Dict.get?_foldl_erase, Dict.get?_mapValues]
  cases hget : hits.get? key with
  | none => simp
  | some times =>
    have hstale : key ∈ (hits.items.filter fun p =>
        fresh now (maxWindow : ℚ) p.2 = [] && !locked p.1).map Prod.fst ↔
        fresh now (maxWindow : ℚ) times = [] ∧ locked key = false := by
      simp [Dict.mem_items_iff, hget]
    by_cases hnone : fresh now (maxWindow : ℚ) times = []
    · cases hlock : locked key with
      | true =>
        rw [if_neg (fun hmem => by rw [(hstale.mp hmem).2] at hlock; cases hlock)]
        simp [hnone]
      | false =>
        rw [if_pos (hstale.mpr ⟨hnone, hlock⟩)]
        simp [hnone]
    · rw [if_neg (fun hmem => hnone (hstale.mp hmem).1)]
      simp [hnone]

/-- What a sweep leaves of a bucket counts like the bucket did. -/
theorem keeps_sweep {locked : String → Bool} {clock now : ℚ} {hits : Dict String (List ℚ)}
    {key : String} {window : Nat} {history : List ℚ} (hw : window ≤ maxWindow)
    (h : Keeps clock (window : ℚ) history ((hits.get? key).getD [])) (hc : clock ≤ now) :
    Keeps now (window : ℚ) history (((sweepIdleBuckets locked now hits).get? key).getD []) := by
  have hle : (window : ℚ) ≤ (maxWindow : ℚ) := Nat.cast_le.mpr hw
  rw [get?_sweepIdleBuckets]
  cases hget : hits.get? key with
  | none =>
    rw [hget] at h
    exact h.later hc
  | some times =>
    rw [hget] at h
    rw [Option.bind_some]
    by_cases hstale : fresh now (maxWindow : ℚ) times = []
    · rw [if_pos hstale]
      split
      · exact h.later hc
      · exact h.drop hc hle hstale
    · rw [if_neg hstale]
      exact h.prune hc hle

theorem keeps_sweepIfDue (locked : String → Bool) {clock now : ℚ} {s : RateLimitMiddleware}
    {key : String} {window : Nat} {history : List ℚ} (hw : window ≤ maxWindow)
    (h : Keeps clock (window : ℚ) history ((s.hits.get? key).getD [])) (hc : clock ≤ now) :
    Keeps now (window : ℚ) history (((sweepIfDue locked now s).hits.get? key).getD []) := by
  unfold sweepIfDue
  split
  · exact keeps_sweep hw h hc
  · exact h.later hc

/-! ## Requests -/

section Admit

variable {s : RateLimitMiddleware} {key : String} {rule : Rule} {now : ℚ}

/-- A request is refused when the maximum is reached, and only then. -/
theorem grant_refused : (grant s key rule now).2.refused = true ↔
    rule.maxReq ≤ (fresh now (rule.window : ℚ) ((s.hits.get? key).getD [])).length := by
  unfold grant
  by_cases hmax : rule.maxReq ≤ (fresh now (rule.window : ℚ) ((s.hits.get? key).getD [])).length
  · simp only [if_pos hmax, iff_true_right hmax]
    split <;> rfl
  · simp only [if_neg hmax, iff_false_right hmax]
    exact Bool.false_ne_true

theorem grant_counted : (grant s key rule now).2.counted = !(grant s key rule now).2.refused := by
  unfold grant
  simp only
  split
  · split <;> rfl
  · rfl

/-- The bucket of the request, with the request if it is let through. -/
theorem get?_grant (key' : String) : ((grant s key rule now).1.hits.get? key').getD [] =
    if key' = key then fresh now (rule.window : ℚ) ((s.hits.get? key).getD []) ++
      if (grant s key rule now).2.refused then [] else [now]
    else (s.hits.get? key').getD [] := by
  by_cases hrefused : (grant s key rule now).2.refused = true
  · have hmax := grant_refused.mp hrefused
    have hhits : (grant s key rule now).1.hits =
        s.hits.set key (fresh now (rule.window : ℚ) ((s.hits.get? key).getD [])) := by
      simp only [grant, if_pos hmax]
    rw [hhits, Dict.get?_set, if_pos hrefused, List.append_nil]
    split <;> rfl
  · have hmax := mt grant_refused.mpr hrefused
    have hhits : (grant s key rule now).1.hits =
        s.hits.set key (fresh now (rule.window : ℚ) ((s.hits.get? key).getD []) ++ [now]) := by
      simp only [grant, if_neg hmax]
    rw [hhits, Dict.get?_set, if_neg hrefused]
    split <;> rfl

end Admit

/-! ## The invariant -/

/-- What holds when the clock shows `clock`. -/
structure Sound (limits : ClientRateLimits) (clock : ℚ) (s : System) : Prop where
  past : ∀ p ∈ s.accepted, p.2 ≤ clock
  keeps : ∀ request key rule, limits.bucket request = some (key, rule) →
    Keeps clock (rule.window : ℚ) (s.history key) ((s.limiter.hits.get? key).getD [])
  bounded : ∀ request key rule, limits.bucket request = some (key, rule) →
    Bounded rule.maxReq (rule.window : ℚ) (s.history key)

section Step

variable {limits : ClientRateLimits} {clock now : ℚ} {s : System}

theorem sound_init (limits : ClientRateLimits) (clock : ℚ) : Sound limits clock .init where
  past _ hp := absurd hp List.not_mem_nil
  keeps _ _ _ _ := Keeps.nil
  bounded _ _ rule _ := Bounded.nil rule.maxReq (rule.window : ℚ)

theorem Sound.later (h : Sound limits clock s) (hc : clock ≤ now) : Sound limits now s where
  past p hp := (h.past p hp).trans hc
  keeps request key rule hb := (h.keeps request key rule hb).later hc
  bounded := h.bounded

/-- A sweep, whenever it comes and whatever locks are held. -/
theorem Sound.swept (h : Sound limits clock s) (hc : clock ≤ now) {limiter : RateLimitMiddleware}
    (hkept : ∀ {key : String} {window : Nat} {history : List ℚ}, window ≤ maxWindow →
      Keeps clock (window : ℚ) history ((s.limiter.hits.get? key).getD []) →
      Keeps now (window : ℚ) history ((limiter.hits.get? key).getD [])) :
    Sound limits now { s with limiter } where
  past p hp := (h.past p hp).trans hc
  keeps request key rule hb := hkept (window_le_of_bucket hb) (h.keeps request key rule hb)
  bounded := h.bounded

theorem history_concat (s : System) (limiter : RateLimitMiddleware) (key key' : String) (now : ℚ) :
    System.history { limiter, accepted := s.accepted ++ [(key, now)] } key' =
      if key' = key then s.history key' ++ [now] else s.history key' := by
  rw [System.history, System.history, List.filter_append, List.map_append]
  by_cases h : key = key'
  · simp [h]
  · rw [if_neg (Ne.symm h)]
    simp [h]

/-- How many requests of a bucket count. -/
theorem Sound.count (h : Sound limits now s) {request : Request} {key : String} {rule : Rule}
    (hb : limits.bucket request = some (key, rule)) :
    (fresh now (rule.window : ℚ) ((s.limiter.hits.get? key).getD [])).length =
      (s.history key).countP fun t => now - rule.window < t ∧ t ≤ now := by
  rw [← h.keeps request key rule hb now le_rfl, fresh, ← List.countP_eq_length_filter]
  refine List.countP_congr fun t ht => ?_
  obtain ⟨p, hp, rfl⟩ := List.mem_map.mp ht
  have hpast := h.past p (List.mem_of_mem_filter hp)
  simp [sub_lt_comm, hpast]

/-- A request that is let through. -/
theorem Sound.accept (h : Sound limits now s) {request : Request} {key : String} {rule : Rule}
    (hb : limits.bucket request = some (key, rule))
    (hrefused : (grant s.limiter key rule now).2.refused = false) :
    Sound limits now {
      limiter := (grant s.limiter key rule now).1
      accepted := s.accepted ++ [(key, now)] } := by
  have hlog := h.keeps request key rule hb
  refine ⟨fun p hp => ?_, fun request' key' rule' hb' => ?_, fun request' key' rule' hb' => ?_⟩
  · rcases List.mem_append.mp hp with hp | hp
    · exact h.past p hp
    · rw [List.mem_singleton.mp hp]
  · rw [history_concat, get?_grant, hrefused]
    by_cases hkey : key' = key
    · subst hkey
      obtain rfl := bucket_rule hb hb'
      rw [if_pos rfl, if_pos rfl]
      exact (hlog.prune le_rfl le_rfl).append now
    · rw [if_neg hkey, if_neg hkey]
      exact h.keeps request' key' rule' hb'
  · rw [history_concat]
    by_cases hkey : key' = key
    · subst hkey
      obtain rfl := bucket_rule hb hb'
      rw [if_pos rfl]
      refine (h.bounded request key' rule hb).append ?_
      rw [hlog now le_rfl]
      exact Nat.lt_of_not_le fun hmax => by
        rw [grant_refused.mpr hmax] at hrefused
        cases hrefused
    · rw [if_neg hkey]
      exact h.bounded request' key' rule' hb'

/-- A request that is refused. -/
theorem Sound.refuse (h : Sound limits now s) {request : Request} {key : String} {rule : Rule}
    (hb : limits.bucket request = some (key, rule))
    (hrefused : (grant s.limiter key rule now).2.refused = true) :
    Sound limits now { s with limiter := (grant s.limiter key rule now).1 } := by
  refine ⟨h.past, fun request' key' rule' hb' => ?_, h.bounded⟩
  rw [get?_grant, hrefused]
  by_cases hkey : key' = key
  · subst hkey
    obtain rfl := bucket_rule hb hb'
    rw [if_pos rfl, if_pos rfl, List.append_nil]
    exact (h.keeps request key' rule hb).prune le_rfl le_rfl
  · rw [if_neg hkey]
    exact h.keeps request' key' rule' hb'

theorem Sound.step (h : Sound limits clock s) (a : Action)
    (ha : (clock :: a.readings).Pairwise (· ≤ ·)) (hlast : ∀ t ∈ a.readings, t ≤ now) :
    Sound limits now (step limits s a) := by
  cases a with
  | sweep time locked =>
    have htime : clock ≤ time := (List.pairwise_cons.mp ha).1 time List.mem_cons_self
    refine Sound.later ?_ (hlast time List.mem_cons_self)
    exact h.swept htime fun hw hkeeps => keeps_sweep hw hkeeps htime
  | dispatch request nowSweep time locked =>
    obtain ⟨hclock, hrest⟩ := List.pairwise_cons.mp ha
    have hsweep : clock ≤ nowSweep := hclock nowSweep List.mem_cons_self
    have htime : nowSweep ≤ time :=
      (List.pairwise_cons.mp hrest).1 time (List.mem_singleton.mpr rfl)
    refine Sound.later ?_ (hlast time (List.mem_cons_of_mem _ List.mem_cons_self))
    simp only [RateLimit.step, dispatch]
    by_cases hexempt : exempt request = true
    · simp only [if_pos hexempt, Response.counted, Bool.false_eq_true, if_false, List.append_nil]
      exact h.later (hsweep.trans htime)
    · have hswept := (h.swept hsweep fun hw hkeeps =>
        keeps_sweepIfDue locked hw hkeeps hsweep).later htime
      simp only [if_neg hexempt]
      cases hb : limits.bucket request with
      | none => simpa [Response.counted] using hswept
      | some p =>
        obtain ⟨key, rule⟩ := p
        simp only [grant_counted]
        cases hrefused : (grant (sweepIfDue locked nowSweep s.limiter) key rule time).2.refused with
        | false => simpa using hswept.accept hb hrefused
        | true => simpa using hswept.refuse hb hrefused

end Step

/-- After every run whose clock does not go back, at any later time. -/
theorem sound_run (limits : ClientRateLimits) (actions : List Action) {now : ℚ}
    (h : (actions.flatMap Action.readings ++ [now]).Pairwise (· ≤ ·)) :
    Sound limits now (run limits actions) := by
  induction actions using List.reverseRecOn generalizing now with
  | nil => exact sound_init limits now
  | append_singleton actions a ih =>
    obtain ⟨first, rest, hfirst⟩ : ∃ first rest, a.readings = first :: rest := by
      cases a <;> exact ⟨_, _, rfl⟩
    rw [List.flatMap_append, List.flatMap_singleton, List.append_assoc] at h
    obtain ⟨hbefore, hafter, hcross⟩ := List.pairwise_append.mp h
    obtain ⟨hreadings, -, hlast⟩ := List.pairwise_append.mp hafter
    have hmem : first ∈ a.readings := hfirst ▸ List.mem_cons_self
    have hclock : ∀ t ∈ a.readings, first ≤ t := by
      rw [hfirst] at hreadings ⊢
      intro t ht
      rcases List.mem_cons.mp ht with rfl | ht
      · exact le_rfl
      · exact (List.pairwise_cons.mp hreadings).1 t ht
    have hsound : Sound limits first (run limits actions) := by
      refine ih (List.pairwise_append.mpr ⟨hbefore, List.pairwise_singleton _ _, ?_⟩)
      intro t ht u hu
      rw [List.mem_singleton.mp hu]
      exact hcross t ht first (List.mem_append_left _ hmem)
    rw [run, List.foldl_append]
    exact hsound.step a (List.pairwise_cons.mpr ⟨hclock, hreadings⟩)
      fun t ht => hlast t ht now (List.mem_singleton.mpr rfl)

theorem exists_later {times : List ℚ} (h : times.Pairwise (· ≤ ·)) :
    ∃ now, (times ++ [now]).Pairwise (· ≤ ·) := by
  rcases List.eq_nil_or_concat times with rfl | ⟨front, last, rfl⟩
  · exact ⟨0, List.pairwise_singleton _ _⟩
  · rw [List.concat_eq_append] at h ⊢
    refine ⟨last, List.pairwise_append.mpr ⟨h, List.pairwise_singleton _ _, fun t ht u hu => ?_⟩⟩
    rw [List.mem_singleton.mp hu]
    rcases List.mem_append.mp ht with ht | ht
    · exact (List.pairwise_append.mp h).2.2 t ht last (List.mem_singleton.mpr rfl)
    · exact (List.mem_singleton.mp ht).le

/-- What a refusal says. -/
theorem Sound.refused {limits : ClientRateLimits} {s : System} {nowSweep now : ℚ}
    (h : Sound limits nowSweep s) (hnow : nowSweep ≤ now) {request : Request}
    {locked : String → Bool}
    (hrefused : (dispatch limits locked s.limiter request nowSweep now).2.refused = true) :
    ∃ key rule, limits.bucket request = some (key, rule) ∧
      rule.maxReq ≤ (s.history key).countP fun t => now - rule.window < t ∧ t ≤ now := by
  simp only [dispatch] at hrefused
  split at hrefused
  · cases hrefused
  · cases hb : limits.bucket request with
    | none =>
      rw [hb] at hrefused
      cases hrefused
    | some p =>
      obtain ⟨key, rule⟩ := p
      rw [hb] at hrefused
      have hswept := (h.swept le_rfl fun hw hkeeps =>
        keeps_sweepIfDue locked hw hkeeps le_rfl).later hnow
      refine ⟨key, rule, rfl, ?_⟩
      have hcount := hswept.count hb
      rw [grant_refused] at hrefused
      exact hcount ▸ hrefused

/-- The rules of the desktop bridges. -/
def bridgeRules : Dict String Rule where
  items := [("/ingest", ⟨120, 60⟩)]
  nodup := by decide

def harnessRules : Dict String Rule where
  items := [("/agent/", ⟨120, 60⟩), ("/sdk/", ⟨120, 60⟩), ("/ingest", ⟨60, 60⟩)]
  nodup := by decide

/-- The rules of `CONSUMER_REGISTRY`. -/
def registry : List (String × Dict String Rule) :=
  [("gui", ⟨[("/agent/", ⟨120, 60⟩), ("/sdk/", ⟨120, 60⟩), ("/ingest", ⟨10, 60⟩),
      ("/recategorize", ⟨10, 60⟩), ("/setup/", ⟨20, 60⟩), ("/admin/", ⟨20, 60⟩),
      ("/observability/", ⟨120, 60⟩)], by decide⟩),
    ("cli-ingest", ⟨[("/ingest", ⟨60, 60⟩), ("/recategorize", ⟨30, 60⟩)], by decide⟩),
    ("a2a-agent", ⟨[("/a2a/", ⟨30, 60⟩), ("/agent/", ⟨30, 60⟩)], by decide⟩),
    ("cerid-finance", ⟨[("/agent/", ⟨40, 60⟩), ("/sdk/", ⟨40, 60⟩)], by decide⟩),
    ("cerid-anneal", ⟨[("/sdk/", ⟨40, 60⟩), ("/agent/", ⟨40, 60⟩)], by decide⟩),
    ("folder_scanner", ⟨[("/ingest", ⟨60, 60⟩), ("/admin/", ⟨30, 60⟩)], by decide⟩),
    ("webhook", ⟨[("/ingest", ⟨60, 60⟩)], by decide⟩),
    ("apple_mail", bridgeRules), ("apple_notes", bridgeRules), ("imessage", bridgeRules),
    ("apple_calendar", bridgeRules), ("apple_photos", bridgeRules),
    ("apple_reminders", bridgeRules),
    ("eval-live", harnessRules), ("verdict-eval", harnessRules),
    ("e2e-harness", ⟨[("/sdk/", ⟨60, 60⟩), ("/agent/", ⟨60, 60⟩)], by decide⟩),
    ("_default", ⟨[("/agent/", ⟨120, 60⟩), ("/sdk/", ⟨120, 60⟩), ("/ingest", ⟨10, 60⟩),
      ("/recategorize", ⟨10, 60⟩), ("/setup/", ⟨20, 60⟩), ("/admin/", ⟨20, 60⟩),
      ("/observability/", ⟨120, 60⟩), ("/auth/", ⟨5, 60⟩)], by decide⟩)]

def clientRateLimits : ClientRateLimits where
  clients := ⟨registry, by decide⟩
  window_le := by decide
  client_colon := by decide
  prefix_colon := by decide

/-- An attempt to log in, of a client that is not in the table. -/
def stranger : Request := ⟨"/auth/login", "POST", some "stranger", "10.0.0.1"⟩

/-- Two attempts. -/
def attempts : List Action :=
  [.dispatch stranger 100 100 fun _ => false, .dispatch stranger 101 102 fun _ => false]

end Cerid.Guard.RateLimit
