import Cerid.Lib.Run
import Cerid.Lib.Dict
import Cerid.Verification.ClaimKey
import Mathlib.Algebra.Order.Ring.Rat
import Mathlib.Tactic.Linarith

/-!
# The cache of verdicts

Verdicts are kept in memory, for five minutes, and in Redis, for a time to live of their own.
What the event loop and the threads that call Redis do is a run of steps; time passes between
any two of them.
-/

namespace Cerid.Verification

/-- The keys that are read of a verdict. -/
structure FreshVerdict where
  status : Option String := none
  similarity : Option ℚ := none
  verificationMethod : Option String := none
  verificationModel : Option String := none
  reason : Option (List Char) := none
  sourceDomain : Option String := none
  sourceArtifactId : Option String := none
  sourceFilename : Option String := none
  sourceUrls : Option (List String) := none
  nliEntailment : Option ℚ := none
deriving DecidableEq

structure CacheEntry where
  status : String
  similarity : ℚ
  verificationMethod : String
  verificationModel : String
  reason : List Char
  sourceDomain : String
  sourceArtifactId : String
  sourceFilename : String
  sourceUrls : List String
  nliEntailment : Option ℚ
  responseContext : Option (List Char)
deriving DecidableEq

def cacheEntry (verdict : FreshVerdict) (responseContext : List Char) : CacheEntry where
  status := verdict.status.getD "unknown"
  similarity := verdict.similarity.getD 0
  verificationMethod := verdict.verificationMethod.getD ""
  verificationModel := verdict.verificationModel.getD ""
  reason := (verdict.reason.getD []).take 200
  sourceDomain := verdict.sourceDomain.getD ""
  sourceArtifactId := verdict.sourceArtifactId.getD ""
  sourceFilename := verdict.sourceFilename.getD ""
  sourceUrls := (verdict.sourceUrls.getD []).take 5
  nliEntailment := verdict.nliEntailment
  responseContext := if responseContext = [] then none else some (responseContext.take 200)

/-- A verdict in a cache.  For the record it has the request it was stored for, when it was
stored there, and its time to live. -/
structure Stored where
  entry : CacheEntry
  request : ClaimRequest
  storedAt : ℚ
  ttl : ℤ
deriving DecidableEq

def l1MaxSize : Nat := 500

def l1Ttl : ℚ := 300

def timeSensitiveVerdictTtl : ℤ := 3 * 24 * 60 * 60

def specialPrefixes : List (List Char) :=
  ["[EVASION]".toList, "[CITATION]".toList, "[IGNORANCE]".toList]

def isSpecial (claim : List Char) : Bool :=
  specialPrefixes.any fun special => special.isPrefixOf (Text.strip claim)

/-- The time to live: a verdict from a web search is cut to three days. -/
def verdictTtl (verdict : FreshVerdict) (ttl : ℤ) : ℤ :=
  if verdict.verificationMethod = some "web_search" ∧ timeSensitiveVerdictTtl < ttl then
    timeSensitiveVerdictTtl
  else ttl

/-- The level in memory, the least recently used key first. -/
abbrev L1 := List (List Char × ℚ × Stored)

namespace L1

def without (l1 : L1) (key : List Char) : L1 := l1.filter fun slot => slot.1 ≠ key

def get (l1 : L1) (now : ℚ) (key : List Char) : Option Stored × L1 :=
  match l1.find? (fun slot => slot.1 = key) with
  | none => (none, l1)
  | some (key', timestamp, verdict) =>
    if l1Ttl < now - timestamp then (none, l1.without key)
    else (some verdict, l1.without key ++ [(key', timestamp, verdict)])

def set (l1 : L1) (now : ℚ) (key : List Char) (verdict : Stored) : L1 :=
  let l1 := l1.without key ++ [(key, now, verdict)]
  l1.drop (l1.length - l1MaxSize)

end L1

/-- An answer from a level that was read at a time. -/
structure CacheAnswer where
  request : ClaimRequest
  stored : Stored
  readAt : ℚ
deriving DecidableEq

/-- The two levels, a key of Redis with the time it expires; the writes and reads of Redis that
are under way, and what was read and is still to be put in memory; and the answers so far. -/
structure Caches where
  now : ℚ
  l1 : L1
  redis : Dict (List Char) (ℚ × Stored)
  writes : List (List Char × Stored)
  reads : List ClaimRequest
  promotes : List (List Char × Stored)
  answers : List CacheAnswer

inductive CacheStep
  | tick (d : ℚ≥0)
  /-- `cache_verdict` fills the memory and sends a write to Redis. -/
  | cache (q : ClaimRequest) (verdict : FreshVerdict) (ttl : ℤ)
  /-- Redis does the `k`-th of the writes. -/
  | write (k : Nat)
  | loseWrite (k : Nat)
  /-- `get_cached_verdict` looks into the memory, and sends a read to Redis if that has nothing. -/
  | get (q : ClaimRequest)
  /-- Redis does the `k`-th of the reads. -/
  | read (k : Nat)
  | loseRead (k : Nat)
  /-- The `k`-th of the verdicts that were read is put in memory. -/
  | promote (k : Nat)
  | evict (key : List Char)
  | restart

section Cache

variable (F : Text.CaseFold) (W : WordClass) (digest : List Char → List Char)

namespace Caches

def empty : Caches :=
  { now := 0, l1 := [], redis := Dict.empty, writes := [], reads := [], promotes := [], answers := [] }

def cache (s : Caches) (q : ClaimRequest) (verdict : FreshVerdict) (ttl : ℤ) : Caches :=
  if isSpecial q.claim then s
  else
    let key := redisKey F W digest q
    let stored : Stored :=
      { entry := cacheEntry verdict q.responseContext, request := q, storedAt := s.now
        ttl := verdictTtl verdict ttl }
    { s with l1 := s.l1.set s.now key stored, writes := s.writes ++ [(key, stored)] }

/-- A time to live that is not positive is refused. -/
def write (s : Caches) (k : Nat) : Caches :=
  match s.writes[k]? with
  | none => s
  | some (key, stored) =>
    let s := { s with writes := s.writes.eraseIdx k }
    if 0 < stored.ttl then
      { s with redis := s.redis.set key (s.now + stored.ttl, { stored with storedAt := s.now }) }
    else s

def get (s : Caches) (q : ClaimRequest) : Caches :=
  if isSpecial q.claim then s
  else
    match s.l1.get s.now (redisKey F W digest q) with
    | (some stored, l1) =>
      { s with l1 := l1, answers := s.answers ++ [{ request := q, stored := stored, readAt := s.now }] }
    | (none, l1) => { s with l1 := l1, reads := s.reads ++ [q] }

def read (s : Caches) (k : Nat) : Caches :=
  match s.reads[k]? with
  | none => s
  | some q =>
    let key := redisKey F W digest q
    let s := { s with reads := s.reads.eraseIdx k }
    match s.redis.get? key with
    | none => s
    | some (expiresAt, stored) =>
      if s.now < expiresAt then
        { s with promotes := s.promotes ++ [(key, stored)]
                 answers := s.answers ++ [{ request := q, stored := stored, readAt := s.now }] }
      else s

def promote (s : Caches) (k : Nat) : Caches :=
  match s.promotes[k]? with
  | none => s
  | some (key, stored) =>
    { s with l1 := s.l1.set s.now key stored, promotes := s.promotes.eraseIdx k }

def step (s : Caches) : CacheStep → Caches
  | .tick d => { s with now := s.now + d }
  | .cache q verdict ttl => s.cache F W digest q verdict ttl
  | .write k => s.write k
  | .loseWrite k => { s with writes := s.writes.eraseIdx k }
  | .get q => s.get F W digest q
  | .read k => s.read F W digest k
  | .loseRead k => { s with reads := s.reads.eraseIdx k }
  | .promote k => s.promote k
  | .evict key => { s with redis := s.redis.erase key }
  | .restart => { s with l1 := [], writes := [], reads := [], promotes := [] }

end Caches

/-- The answer is for the request the verdict was stored for, and not late. -/
structure CacheAnswer.Right (a : CacheAnswer) : Prop where
  same : Same F W a.request a.stored.request
  inTime : a.readAt ≤ a.stored.storedAt + a.stored.ttl

/-- The request of a step. -/
def CacheStep.request : CacheStep → Option ClaimRequest
  | .cache q _ _ => some q
  | .get q => some q
  | _ => none

/-- A verdict is put in memory only if it lives as long as the memory keeps it. -/
def Caches.Outlives (s : Caches) : CacheStep → Prop
  | .cache _ verdict ttl => l1Ttl ≤ verdictTtl verdict ttl
  | .promote k => ∀ p, s.promotes[k]? = some p → s.now + l1Ttl ≤ p.2.storedAt + p.2.ttl
  | _ => True

/-! ## What the levels hold -/

namespace L1

theorem mem_set {l1 : L1} {now : ℚ} {key : List Char} {verdict : Stored} {slot : List Char × ℚ × Stored}
    (h : slot ∈ l1.set now key verdict) : slot = (key, now, verdict) ∨ slot ∈ l1 := by
  rcases List.mem_append.mp (List.mem_of_mem_drop h) with h | h
  · exact Or.inr (List.mem_of_mem_filter h)
  · exact Or.inl (List.mem_singleton.mp h)

/-- What is found is there, and not older than the level keeps it. -/
theorem get_some {l1 : L1} {now : ℚ} {key : List Char} {verdict : Stored} {l1' : L1}
    (h : l1.get now key = (some verdict, l1')) :
    ∃ timestamp, (key, timestamp, verdict) ∈ l1 ∧ now - timestamp ≤ l1Ttl := by
  rw [get] at h
  split at h
  · cases h
  · rename_i key' timestamp verdict' hfind
    split at h
    · cases h
    · rename_i hage
      cases h
      have hkey : key' = key :=
        of_decide_eq_true (List.find?_some (p := fun slot : List Char × ℚ × Stored => slot.1 = key) hfind)
      exact ⟨timestamp, hkey ▸ List.mem_of_find?_eq_some hfind, not_lt.mp hage⟩

theorem mem_get {l1 : L1} {now : ℚ} {key : List Char} {slot : List Char × ℚ × Stored}
    (h : slot ∈ (l1.get now key).2) : slot ∈ l1 := by
  rw [get] at h
  split at h
  · exact h
  · rename_i hfind
    split at h
    · exact List.mem_of_mem_filter h
    · rcases List.mem_append.mp h with h | h
      · exact List.mem_of_mem_filter h
      · rw [List.mem_singleton.mp h]
        exact List.mem_of_find?_eq_some hfind

end L1

variable {R : ClaimRequest → Prop}

/-- A verdict is under the key of its request, which is one of the run. -/
def Keyed (R : ClaimRequest → Prop) (key : List Char) (stored : Stored) : Prop :=
  R stored.request ∧ key = redisKey F W digest stored.request

/-- Every level has verdicts of the run under their keys; in memory none outlives its time, and
in Redis each expires at it. -/
structure Caches.Inv (R : ClaimRequest → Prop) (s : Caches) : Prop where
  l1 : ∀ slot ∈ s.l1, Keyed F W digest R slot.1 slot.2.2 ∧
    slot.2.1 + l1Ttl ≤ slot.2.2.storedAt + slot.2.2.ttl
  redis : ∀ key e, s.redis.get? key = some e → Keyed F W digest R key e.2 ∧
    e.1 = e.2.storedAt + e.2.ttl
  writes : ∀ w ∈ s.writes, Keyed F W digest R w.1 w.2
  reads : ∀ q ∈ s.reads, R q
  promotes : ∀ p ∈ s.promotes, Keyed F W digest R p.1 p.2
  answers : ∀ a ∈ s.answers, a.Right F W

namespace Caches.Inv

variable {F W digest} {s : Caches}

theorem empty : Caches.empty.Inv F W digest R where
  l1 := nofun
  redis := nofun
  writes := nofun
  reads := nofun
  promotes := nofun
  answers := nofun

theorem l1_set (h : s.Inv F W digest R) {key : List Char} {stored : Stored}
    (hkeyed : Keyed F W digest R key stored) (hlong : s.now + l1Ttl ≤ stored.storedAt + stored.ttl) :
    ∀ slot ∈ s.l1.set s.now key stored, Keyed F W digest R slot.1 slot.2.2 ∧
      slot.2.1 + l1Ttl ≤ slot.2.2.storedAt + slot.2.2.ttl := by
  intro slot hslot
  rcases L1.mem_set hslot with rfl | hold
  · exact ⟨hkeyed, hlong⟩
  · exact h.l1 slot hold

theorem cache (h : s.Inv F W digest R) {q : ClaimRequest} (hq : R q) {verdict : FreshVerdict} {ttl : ℤ}
    (hlives : s.Outlives (.cache q verdict ttl)) : (s.cache F W digest q verdict ttl).Inv F W digest R := by
  rw [Caches.cache]
  split
  · exact h
  · have hlong : l1Ttl ≤ (verdictTtl verdict ttl : ℚ) := hlives
    refine { h with l1 := ?_, writes := fun w hw => ?_ }
    · dsimp only
      refine h.l1_set ⟨hq, rfl⟩ ?_
      show s.now + l1Ttl ≤ s.now + (verdictTtl verdict ttl : ℚ)
      linarith only [hlong]
    · rcases List.mem_append.mp hw with hold | hnew
      · exact h.writes w hold
      · rw [List.mem_singleton.mp hnew]
        exact ⟨hq, rfl⟩

theorem write (h : s.Inv F W digest R) (k : Nat) : (s.write k).Inv F W digest R := by
  rw [Caches.write]
  split
  · exact h
  · rename_i key stored hk
    have hkeyed := h.writes _ (List.mem_of_getElem? hk)
    have hrest : ∀ w ∈ s.writes.eraseIdx k, Keyed F W digest R w.1 w.2 :=
      fun w hw => h.writes w (List.mem_of_mem_eraseIdx hw)
    split
    · refine { h with redis := fun key' e he => ?_, writes := hrest }
      rw [Dict.get?_set] at he
      split at he
      · rename_i heq
        cases he
        exact ⟨heq ▸ hkeyed, rfl⟩
      · exact h.redis key' e he
    · exact { h with writes := hrest }

theorem get (h : s.Inv F W digest R) (hapart : ∀ q o, R q → R o → Apart F W digest q o)
    {q : ClaimRequest} (hq : R q) : (s.get F W digest q).Inv F W digest R := by
  rw [Caches.get]
  split
  · exact h
  · have hl1 : ∀ slot ∈ (s.l1.get s.now (redisKey F W digest q)).2, slot ∈ s.l1 :=
      fun slot hslot => L1.mem_get hslot
    split
    · rename_i stored l1 hget
      rw [hget] at hl1
      refine { h with l1 := fun slot hslot => h.l1 slot (hl1 slot hslot), answers := fun a ha => ?_ }
      rcases List.mem_append.mp ha with hold | hnew
      · exact h.answers a hold
      · rw [List.mem_singleton.mp hnew]
        obtain ⟨timestamp, hmem, hage⟩ := L1.get_some hget
        obtain ⟨⟨hR, hkey⟩, hlives⟩ := h.l1 _ hmem
        refine ⟨redisKey_injective F W digest (hapart q _ hq hR) hkey, ?_⟩
        show s.now ≤ stored.storedAt + stored.ttl
        linarith
    · rename_i l1 hget
      rw [hget] at hl1
      refine { h with l1 := fun slot hslot => h.l1 slot (hl1 slot hslot), reads := fun q' hq' => ?_ }
      rcases List.mem_append.mp hq' with hold | hnew
      · exact h.reads q' hold
      · rw [List.mem_singleton.mp hnew]
        exact hq

theorem read (h : s.Inv F W digest R) (hapart : ∀ q o, R q → R o → Apart F W digest q o) (k : Nat) :
    (s.read F W digest k).Inv F W digest R := by
  rw [Caches.read]
  split
  · exact h
  · rename_i q hk
    have hq := h.reads q (List.mem_of_getElem? hk)
    have hrest : ∀ q ∈ s.reads.eraseIdx k, R q := fun q hq => h.reads q (List.mem_of_mem_eraseIdx hq)
    have hquiet : ({ s with reads := s.reads.eraseIdx k } : Caches).Inv F W digest R :=
      { h with reads := hrest }
    show Caches.Inv F W digest R (match s.redis.get? (redisKey F W digest q) with
      | none => { s with reads := s.reads.eraseIdx k }
      | some (expiresAt, stored) => _)
    split
    · exact hquiet
    · rename_i expiresAt stored hget
      obtain ⟨hkeyed, hexpires⟩ := h.redis _ _ hget
      split
      · rename_i hlive
        refine { h with reads := hrest, promotes := fun p hp => ?_, answers := fun a ha => ?_ }
        · rcases List.mem_append.mp hp with hold | hnew
          · exact h.promotes p hold
          · rw [List.mem_singleton.mp hnew]
            exact hkeyed
        · rcases List.mem_append.mp ha with hold | hnew
          · exact h.answers a hold
          · rw [List.mem_singleton.mp hnew]
            refine ⟨redisKey_injective F W digest (hapart q _ hq hkeyed.1) hkeyed.2, ?_⟩
            show s.now ≤ stored.storedAt + stored.ttl
            exact le_of_lt (hexpires ▸ hlive)
      · exact hquiet

theorem promote (h : s.Inv F W digest R) {k : Nat} (hlives : s.Outlives (.promote k)) :
    (s.promote k).Inv F W digest R := by
  rw [Caches.promote]
  split
  · exact h
  · rename_i key stored hk
    have hkeyed := h.promotes (key, stored) (List.mem_of_getElem? hk)
    refine { h with l1 := ?_, promotes := fun p hp => h.promotes p (List.mem_of_mem_eraseIdx hp) }
    dsimp only
    exact h.l1_set hkeyed (hlives _ hk)

theorem step (h : s.Inv F W digest R) (hapart : ∀ q o, R q → R o → Apart F W digest q o) {i : CacheStep}
    (hi : ∀ q ∈ i.request, R q) (hlives : s.Outlives i) : (s.step F W digest i).Inv F W digest R := by
  cases i with
  | tick d => exact { h with }
  | cache q verdict ttl => exact h.cache (hi q rfl) hlives
  | write k => exact h.write k
  | loseWrite k => exact { h with writes := fun w hw => h.writes w (List.mem_of_mem_eraseIdx hw) }
  | get q => exact h.get hapart (hi q rfl)
  | read k => exact h.read hapart k
  | loseRead k => exact { h with reads := fun q hq => h.reads q (List.mem_of_mem_eraseIdx hq) }
  | promote k => exact h.promote hlives
  | evict key =>
    refine { h with redis := fun key' e he => h.redis key' e ?_ }
    rw [Caches.step, Dict.get?_erase] at he
    split at he
    · cases he
    · exact he
  | restart => exact { h with l1 := nofun, writes := nofun, reads := nofun, promotes := nofun }

end Caches.Inv

/-- In a run whose requests are told apart by their keys, and in which a verdict is put in
memory only if it lives as long as the memory keeps it, every answer is right. -/
theorem cached_answers_right {run : List CacheStep}
    (hapart : ∀ i ∈ run, ∀ j ∈ run, ∀ q ∈ i.request, ∀ o ∈ j.request, Apart F W digest q o)
    (hlives : Along (Caches.step F W digest) Caches.Outlives Caches.empty run) :
    ∀ a ∈ (run.foldl (Caches.step F W digest) Caches.empty).answers, a.Right F W := by
  have hpairs : ∀ q o, (∃ i ∈ run, q ∈ i.request) → (∃ j ∈ run, o ∈ j.request) →
      Apart F W digest q o := by
    rintro q o ⟨i, hi, hq⟩ ⟨j, hj, ho⟩
    exact hapart i hi j hj q hq o ho
  have hinv : ∀ (rest : List CacheStep) (s : Caches), (∀ i ∈ rest, i ∈ run) →
      s.Inv F W digest (fun q => ∃ i ∈ run, q ∈ i.request) →
      Along (Caches.step F W digest) Caches.Outlives s rest →
      (rest.foldl (Caches.step F W digest) s).Inv F W digest (fun q => ∃ i ∈ run, q ∈ i.request) := by
    intro rest
    induction rest with
    | nil => exact fun s _ hs _ => hs
    | cons i rest ih =>
      intro s hmem hs halong
      refine ih _ (fun j hj => hmem j (List.mem_cons_of_mem i hj)) ?_ halong.2
      exact hs.step hpairs (fun q hq => ⟨i, hmem i List.mem_cons_self, hq⟩) halong.1
  exact (hinv run _ (fun _ h => h) Caches.Inv.empty hlives).answers

end Cache

/-- A request for a claim, with nothing else. -/
def bareRequest (claim : String) : ClaimRequest :=
  { claim := claim.toList, model := [], method := [], responseContext := [], partition := [] }

theorem plain_bareRequest (claim : String) : (bareRequest claim).Plain :=
  ⟨List.not_mem_nil, List.not_mem_nil, List.not_mem_nil, List.not_mem_nil⟩

theorem cached_answers_right_twice :
    CacheAnswer.Right .lower .english
      { request := bareRequest "It rose 3 percent."
        stored :=
          { entry := cacheEntry { status := some "verified" } []
            request := bareRequest "It rose 3 percent.", storedAt := 0, ttl := 2592000 }
        readAt := 0 } := by
  refine @cached_answers_right .lower .english id
    [.cache (bareRequest "It rose 3 percent.") { status := some "verified" } 2592000,
      .get (bareRequest "It rose 3 percent.")]
    (fun i hi j hj q hq o ho => ?_) ⟨?_, trivial, trivial⟩ _ (by decide +kernel)
  · have hsame : ∀ i ∈ [CacheStep.cache (bareRequest "It rose 3 percent.") { status := some "verified" }
        2592000, .get (bareRequest "It rose 3 percent.")], ∀ q ∈ i.request,
        q = bareRequest "It rose 3 percent." := by
      intro i hi q hq
      rcases List.mem_cons.mp hi with rfl | hi
      · exact (Option.some.inj hq).symm
      · rw [List.mem_singleton.mp hi] at hq
        exact (Option.some.inj hq).symm
    rw [hsame i hi q hq, hsame j hj o ho]
    exact { plain := ⟨plain_bareRequest _, plain_bareRequest _⟩, digest := fun h => h
            marks := fun _ => rfl }
  · show l1Ttl ≤ ((2592000 : ℤ) : ℚ)
    decide +kernel

/-- The point of a number is no part of the key. -/
theorem decimal_point_lost :
    ¬ ∀ a ∈ ([.cache (bareRequest "It rose 3.5 percent.") { status := some "verified" } 2592000,
        .get (bareRequest "It rose 35 percent.")].foldl
      (Caches.step .lower .english id) Caches.empty).answers, a.Right .lower .english := by
  intro h
  have hanswer := (h
    { request := bareRequest "It rose 35 percent."
      stored :=
        { entry := cacheEntry { status := some "verified" } []
          request := bareRequest "It rose 3.5 percent.", storedAt := 0, ttl := 2592000 }
      readAt := 0 } (by decide +kernel)).same.statement
  exact absurd hanswer (by decide +kernel)

end Cerid.Verification
