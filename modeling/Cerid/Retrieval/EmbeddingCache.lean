import Cerid.Lib.Dict
import Cerid.Lib.Run
import Cerid.Lib.Text

/-!
# The embedding cache

Vectors by namespace and text, the used ones last, before a table on disk that outlives the
process.  The first disk operation that fails turns the table off until the process is started
again.

A vector is as it is stored, of 32-bit floats in one dimension.  Calls follow one another.
-/

namespace Cerid.Retrieval.EmbeddingCache

abbrev Text := List Char

/-- A digest. -/
abbrev Id := List Char

variable {Vector : Type}

/-- `PersistentEmbeddingCache`, with its table. -/
structure Cache (Vector : Type) where
  entries : Dict (Text × Id) Vector
  hits : Nat
  misses : Nat
  disk : Dict (Text × Id) Vector
  diskEnabled : Bool
  diskHits : Nat
  diskMisses : Nat

/-- A new process, whose `_init_db` gives `opens`. -/
def Cache.init (disk : Dict (Text × Id) Vector) (opens : Bool) : Cache Vector where
  entries := .empty
  hits := 0
  misses := 0
  disk := disk
  diskEnabled := opens
  diskHits := 0
  diskMisses := 0

/-- How a write to the table ends; one that fails may have had its effect. -/
inductive Write where
  | committed
  | failed (applied : Bool)

section Tiers

variable (maxSize : Int)

/-! ## The tier in memory -/

/-- `EmbeddingCache.get`. -/
def Cache.memoryGet (c : Cache Vector) (key : Text × Id) : Option Vector × Cache Vector :=
  if maxSize ≤ 0 then (none, c)
  else
    match c.entries.get? key with
    | none => (none, { c with misses := c.misses + 1 })
    | some v => (some v, { c with entries := c.entries.moveToEnd key, hits := c.hits + 1 })

/-- The loop of `put`, which pops the first entry while there are too many. -/
def trim (entries : Dict (Text × Id) Vector) : Dict (Text × Id) Vector :=
  Dict.popFirst^[entries.items.length - maxSize.toNat] entries

/-- `EmbeddingCache.put`. -/
def Cache.memoryPut (c : Cache Vector) (key : Text × Id) (v : Vector) : Cache Vector :=
  if maxSize ≤ 0 then c
  else { c with entries := trim maxSize ((c.entries.set key v).moveToEnd key) }

/-- `EmbeddingCache.clear`. -/
def Cache.clear (c : Cache Vector) : Cache Vector :=
  { c with
    entries := .empty
    hits := 0
    misses := 0 }

/-! ## The tier on disk -/

/-- `_disk_get`, which fails or not. -/
def Cache.diskGet (c : Cache Vector) (key : Text × Id) (fails : Bool) :
    Option Vector × Cache Vector :=
  if fails then (none, { c with diskEnabled := false }) else (c.disk.get? key, c)

/-- `_disk_put`. -/
def Cache.diskPut (c : Cache Vector) (key : Text × Id) (v : Vector) : Write → Cache Vector
  | .committed => { c with disk := c.disk.set key v }
  | .failed applied =>
    { c with
      disk := if applied then c.disk.set key v else c.disk
      diskEnabled := false }

variable (sha256 : Text → Id)

/-- `PersistentEmbeddingCache.get`. -/
def Cache.get (c : Cache Vector) (ns text : Text) (fails : Bool) :
    Option Vector × Cache Vector :=
  let key := (ns, sha256 text)
  match c.memoryGet maxSize key with
  | (some v, c) => (some v, c)
  | (none, c) =>
    if !c.diskEnabled || maxSize ≤ 0 then (none, c)
    else
      match c.diskGet key fails with
      | (some v, c) => (some v, ({ c with diskHits := c.diskHits + 1 }).memoryPut maxSize key v)
      | (none, c) => (none, { c with diskMisses := c.diskMisses + 1 })

/-- `PersistentEmbeddingCache.put`. -/
def Cache.put (c : Cache Vector) (ns text : Text) (v : Vector) (write : Write) : Cache Vector :=
  let key := (ns, sha256 text)
  let c := c.memoryPut maxSize key v
  if !c.diskEnabled || maxSize ≤ 0 then c else c.diskPut key v write

/-! ## Runs -/

inductive Op (Vector : Type) where
  | get (ns text : Text) (fails : Bool)
  | put (ns text : Text) (v : Vector) (write : Write)
  | clear
  | restart (opens : Bool)

def Cache.step (c : Cache Vector) : Op Vector → Cache Vector
  | .get ns text fails => (c.get maxSize sha256 ns text fails).2
  | .put ns text v write => c.put maxSize sha256 ns text v write
  | .clear => c.clear
  | .restart opens => .init c.disk opens

/-- A run from an empty table. -/
def run (ops : List (Op Vector)) : Cache Vector :=
  ops.foldl (Cache.step maxSize sha256) (.init .empty true)

end Tiers

/-- What was put last for a text in a namespace. -/
def lastPut (ns text : Text) : List (Op Vector) → Option Vector
  | [] => none
  | .put ns' text' v _ :: rest =>
    (lastPut ns text rest).or (if ns' = ns ∧ text' = text then some v else none)
  | _ :: rest => lastPut ns text rest

/-- The disk does what it is asked to. -/
def Op.Works : Op Vector → Prop
  | .get _ _ fails => fails = false
  | .put _ _ _ write => write = .committed
  | .clear => True
  | .restart opens => opens = true

def Op.IsRestart : Op Vector → Prop
  | .restart _ => True
  | _ => False

/-- The disk fails after the last restart only. -/
def Reliable : List (Op Vector) → Prop
  | [] => True
  | op :: rest => (op.Works ∨ ∀ op' ∈ rest, ¬ op'.IsRestart) ∧ Reliable rest

variable {maxSize : Int} {sha256 : Text → Id} {c : Cache Vector}

/-! ## One call -/

theorem memoryPut_eq (hpos : 0 < maxSize) (c : Cache Vector) (key : Text × Id) (v : Vector) :
    c.memoryPut maxSize key v =
      { c with entries := trim maxSize ((c.entries.set key v).moveToEnd key) } := by
  rw [Cache.memoryPut, if_neg (by omega)]

theorem entries_memoryPut (hpos : 0 < maxSize) {key key' : Text × Id} {v v' : Vector}
    (h : (c.memoryPut maxSize key v).entries.get? key' = some v') :
    key' = key ∧ v' = v ∨ key' ≠ key ∧ c.entries.get? key' = some v' := by
  rw [memoryPut_eq hpos] at h
  have h := Dict.get?_of_iterate_popFirst h
  rw [Dict.get?_moveToEnd, Dict.get?_set] at h
  split at h
  · exact Or.inl ⟨‹_›, (Option.some.inj h).symm⟩
  · exact Or.inr ⟨‹_›, h⟩

/-- What a `get` can come to. -/
theorem get_cases (hpos : 0 < maxSize) (c : Cache Vector) (sha256 : Text → Id) (ns text : Text)
    (fails : Bool) :
    (∃ v, c.entries.get? (ns, sha256 text) = some v ∧
      c.get maxSize sha256 ns text fails =
        (some v, { c with entries := c.entries.moveToEnd (ns, sha256 text), hits := c.hits + 1 })) ∨
    c.entries.get? (ns, sha256 text) = none ∧
      ((c.diskEnabled = false ∧
          c.get maxSize sha256 ns text fails = (none, { c with misses := c.misses + 1 })) ∨
        (c.diskEnabled = true ∧ fails = true ∧ c.get maxSize sha256 ns text fails =
          (none, { c with
            misses := c.misses + 1
            diskEnabled := false
            diskMisses := c.diskMisses + 1 })) ∨
        (c.diskEnabled = true ∧ fails = false ∧ c.disk.get? (ns, sha256 text) = none ∧
          c.get maxSize sha256 ns text fails =
            (none, { c with misses := c.misses + 1, diskMisses := c.diskMisses + 1 })) ∨
        ∃ v, c.diskEnabled = true ∧ fails = false ∧ c.disk.get? (ns, sha256 text) = some v ∧
          c.get maxSize sha256 ns text fails =
            (some v, ({ c with
              misses := c.misses + 1
              diskHits := c.diskHits + 1 }).memoryPut maxSize (ns, sha256 text) v)) := by
  have hsize : ¬ maxSize ≤ 0 := by omega
  unfold Cache.get Cache.memoryGet
  cases hentry : c.entries.get? (ns, sha256 text) with
  | some v => exact Or.inl ⟨v, rfl, by simp [hsize, hentry]⟩
  | none =>
    refine Or.inr ⟨rfl, ?_⟩
    cases henabled : c.diskEnabled with
    | false => exact Or.inl ⟨rfl, by simp [hsize, hentry]⟩
    | true =>
      refine Or.inr ?_
      cases fails with
      | true => exact Or.inl ⟨rfl, rfl, by simp [hsize, hentry, Cache.diskGet]⟩
      | false =>
        refine Or.inr ?_
        cases hdisk : c.disk.get? (ns, sha256 text) with
        | none => exact Or.inl ⟨rfl, rfl, rfl,
            by simp [hsize, hentry, Cache.diskGet, hdisk]⟩
        | some v =>
          exact Or.inr ⟨v, rfl, rfl, rfl,
            by simp [hsize, hentry, Cache.diskGet, hdisk]⟩

theorem put_eq (hpos : 0 < maxSize) (c : Cache Vector) (ns text : Text) (v : Vector)
    (write : Write) :
    c.put maxSize sha256 ns text v write =
      if c.diskEnabled then
        (c.memoryPut maxSize (ns, sha256 text) v).diskPut (ns, sha256 text) v write
      else c.memoryPut maxSize (ns, sha256 text) v := by
  have hsize : ¬ maxSize ≤ 0 := by omega
  rw [Cache.put, memoryPut_eq hpos]
  cases c.diskEnabled <;> simp [hsize]

/-! ## What was put last -/

/-- What is in memory, and on a disk that is read, is what was put last. -/
structure Cache.Agrees (c : Cache Vector) (sha256 : Text → Id)
    (last : Text → Text → Option Vector) : Prop where
  memory : ∀ ns text v, c.entries.get? (ns, sha256 text) = some v → last ns text = some v
  disk : c.diskEnabled = true →
    ∀ ns text v, c.disk.get? (ns, sha256 text) = some v → last ns text = some v

section Agrees

variable {last : Text → Text → Option Vector}

theorem Cache.Agrees.get (h : c.Agrees sha256 last) (hpos : 0 < maxSize)
    (hinj : Function.Injective sha256) (ns text : Text) (fails : Bool) :
    (c.get maxSize sha256 ns text fails).2.Agrees sha256 last ∧
      ∀ v, (c.get maxSize sha256 ns text fails).1 = some v → last ns text = some v := by
  rcases get_cases hpos c sha256 ns text fails with ⟨v, hentry, heq⟩ | ⟨_, hmiss⟩
  · rw [heq]
    refine ⟨⟨fun ns' text' v' hv => ?_, h.disk⟩, fun v' hv => ?_⟩
    · have hv : (c.entries.moveToEnd (ns, sha256 text)).get? (ns', sha256 text') = some v' := hv
      rw [Dict.get?_moveToEnd] at hv
      exact h.memory ns' text' v' hv
    · exact h.memory ns text v' (hentry.trans hv)
  · rcases hmiss with ⟨_, heq⟩ | ⟨_, _, heq⟩ | ⟨_, _, _, heq⟩ | ⟨v, henabled, _, hdisk, heq⟩
    · rw [heq]
      exact ⟨⟨h.memory, h.disk⟩, fun v hv => by cases hv⟩
    · rw [heq]
      exact ⟨⟨h.memory, fun hv => by cases hv⟩, fun v hv => by cases hv⟩
    · rw [heq]
      exact ⟨⟨h.memory, h.disk⟩, fun v hv => by cases hv⟩
    · have hlast := h.disk henabled ns text v hdisk
      rw [heq]
      refine ⟨⟨fun ns' text' v' hv => ?_, fun he => ?_⟩, fun v' hv => ?_⟩
      · rcases entries_memoryPut hpos hv with ⟨hkey, rfl⟩ | ⟨_, hold⟩
        · obtain ⟨rfl, htext⟩ := Prod.mk.inj hkey
          rw [hinj htext]
          exact hlast
        · exact h.memory ns' text' v' hold
      · rw [memoryPut_eq hpos] at he ⊢
        exact h.disk he
      · rw [← Option.some.inj hv]
        exact hlast

theorem Cache.Agrees.put (h : c.Agrees sha256 last) (hpos : 0 < maxSize)
    (hinj : Function.Injective sha256) (ns text : Text) (v : Vector) (write : Write) :
    (c.put maxSize sha256 ns text v write).Agrees sha256
      fun ns' text' => if ns = ns' ∧ text = text' then some v else last ns' text' := by
  have hset : ∀ (d : Dict (Text × Id) Vector) ns' text' v',
      (d.get? (ns', sha256 text') = some v' → last ns' text' = some v') →
      (d.set (ns, sha256 text) v).get? (ns', sha256 text') = some v' →
      (if ns = ns' ∧ text = text' then some v else last ns' text') = some v' := by
    intro d ns' text' v' hd hv
    rw [Dict.get?_set] at hv
    by_cases hsame : ns = ns' ∧ text = text'
    · obtain ⟨rfl, rfl⟩ := hsame
      rw [if_pos ⟨rfl, rfl⟩]
      rwa [if_pos rfl] at hv
    · rw [if_neg hsame]
      refine hd ?_
      rwa [if_neg fun hkey => hsame ⟨(Prod.mk.inj hkey).1.symm, (hinj (Prod.mk.inj hkey).2).symm⟩]
        at hv
  have hmemory : ∀ ns' text' v',
      (c.memoryPut maxSize (ns, sha256 text) v).entries.get? (ns', sha256 text') = some v' →
      (if ns = ns' ∧ text = text' then some v else last ns' text') = some v' := by
    intro ns' text' v' hv
    rw [memoryPut_eq hpos] at hv
    have hv := Dict.get?_of_iterate_popFirst hv
    rw [Dict.get?_moveToEnd] at hv
    exact hset c.entries ns' text' v' (h.memory ns' text' v') hv
  rw [put_eq hpos]
  split
  · next henabled =>
    rw [memoryPut_eq hpos] at hmemory ⊢
    cases write with
    | committed =>
      exact ⟨hmemory, fun _ ns' text' v' => hset c.disk ns' text' v' (h.disk henabled ns' text' v')⟩
    | failed applied => exact ⟨hmemory, fun he => by cases he⟩
  · next henabled =>
    refine ⟨hmemory, fun he => absurd ?_ henabled⟩
    rwa [memoryPut_eq hpos] at he

end Agrees

/-- The table stays on while the disk works. -/
theorem diskEnabled_step (hpos : 0 < maxSize) {op : Op Vector} (hop : op.Works)
    (h : c.diskEnabled = true) : (c.step maxSize sha256 op).diskEnabled = true := by
  cases op with
  | get ns text fails =>
    have hfails : fails = false := hop
    subst hfails
    show (c.get maxSize sha256 ns text false).2.diskEnabled = true
    rcases get_cases hpos c sha256 ns text false with ⟨v, _, heq⟩ | ⟨_, hmiss⟩
    · rw [heq]
      exact h
    · rcases hmiss with ⟨_, heq⟩ | ⟨_, hf, _⟩ | ⟨_, _, _, heq⟩ | ⟨v, _, _, _, heq⟩
      · rw [heq]
        exact h
      · cases hf
      · rw [heq]
        exact h
      · rw [heq, memoryPut_eq hpos]
        exact h
  | put ns text v write =>
    have hwrite : write = .committed := hop
    subst hwrite
    show (c.put maxSize sha256 ns text v .committed).diskEnabled = true
    rw [put_eq hpos, if_pos h, memoryPut_eq hpos]
    exact h
  | clear => exact h
  | restart opens => exact hop

theorem agrees_foldl (hpos : 0 < maxSize) (hinj : Function.Injective sha256)
    {ops : List (Op Vector)} (hrel : Reliable ops) {last : Text → Text → Option Vector}
    (h : c.Agrees sha256 last) (hon : c.diskEnabled = true ∨ ∀ op ∈ ops, ¬ op.IsRestart) :
    (ops.foldl (Cache.step maxSize sha256) c).Agrees sha256
      fun ns text => (lastPut ns text ops).or (last ns text) := by
  induction ops generalizing c last with
  | nil => exact h
  | cons op rest ih =>
    have hon' : (c.step maxSize sha256 op).diskEnabled = true ∨ ∀ op ∈ rest, ¬ op.IsRestart := by
      rcases hon with hon | hon
      · rcases hrel.1 with hop | hop
        · exact Or.inl (diskEnabled_step hpos hop hon)
        · exact Or.inr hop
      · exact Or.inr fun op' h => hon op' (List.mem_cons_of_mem op h)
    cases op with
    | get ns text fails => exact ih hrel.2 (h.get hpos hinj ns text fails).1 hon'
    | put ns text v write =>
      have hrest := ih hrel.2 (h.put hpos hinj ns text v write) hon'
      have heq : ∀ ns' text',
          (lastPut ns' text' (.put ns text v write :: rest)).or (last ns' text') =
            (lastPut ns' text' rest).or
              (if ns = ns' ∧ text = text' then some v else last ns' text') := by
        intro ns' text'
        rw [lastPut, Option.or_assoc]
        split <;> rfl
      exact ⟨fun ns' text' v' hv => (heq ns' text').trans (hrest.memory ns' text' v' hv),
        fun he ns' text' v' hv => (heq ns' text').trans (hrest.disk he ns' text' v' hv)⟩
    | clear => exact ih hrel.2 ⟨fun _ _ _ hv => (by cases hv), h.disk⟩ hon'
    | restart opens =>
      refine ih hrel.2 ⟨fun _ _ _ hv => (by cases hv), fun _ => ?_⟩ hon'
      rcases hon with hon | hon
      · exact h.disk hon
      · exact absurd trivial (hon _ List.mem_cons_self)

theorem get_of_not_pos (hpos : ¬ 0 < maxSize) (c : Cache Vector) (ns text : Text) (fails : Bool) :
    (c.get maxSize sha256 ns text fails).1 = none := by
  have hsize : maxSize ≤ 0 := by omega
  simp [Cache.get, Cache.memoryGet, hsize]

theorem agrees_init (opens : Bool) :
    (.init .empty opens : Cache Vector).Agrees sha256 fun _ _ => none :=
  ⟨fun _ _ _ hv => (by cases hv), fun _ _ _ _ hv => (by cases hv)⟩

/-- A call gets what was put last, or nothing, if the disk fails after the last restart only. -/
theorem get_run_of_reliable (hinj : Function.Injective sha256) {ops : List (Op Vector)}
    (hrel : Reliable ops) (ns text : Text) (fails : Bool) {v : Vector}
    (h : ((run maxSize sha256 ops).get maxSize sha256 ns text fails).1 = some v) :
    lastPut ns text ops = some v := by
  by_cases hpos : 0 < maxSize
  · have hagrees := agrees_foldl hpos hinj hrel (agrees_init true) (Or.inl rfl)
    have hlast := (hagrees.get hpos hinj ns text fails).2 v h
    rwa [Option.or_none] at hlast
  · rw [get_of_not_pos hpos] at h
    cases h

/-- A vector that memory has dropped comes from the disk, before the disk fails. -/
theorem get_run_of_reliable_letters :
    lastPut ['n'] ['a'] [.put ['n'] ['a'] 1 .committed, .put ['n'] ['b'] 2 .committed,
      .restart true, .put ['n'] ['b'] 3 .committed, .put ['n'] ['b'] 4 .committed,
      .get ['n'] ['a'] false, .put ['n'] ['b'] 5 (.failed false)] = some 1 :=
  @get_run_of_reliable Nat 2 (fun text => text) (fun _ _ h => h) _
    (by simp [Reliable, Op.Works, Op.IsRestart]) ['n'] ['a'] true 1 rfl

/-! ## While the disk works -/

/-- The table has what was put last, and is read. -/
structure Cache.Exact (c : Cache Vector) (sha256 : Text → Id)
    (last : Text → Text → Option Vector) : Prop where
  agrees : c.Agrees sha256 last
  enabled : c.diskEnabled = true
  disk : ∀ ns text, c.disk.get? (ns, sha256 text) = last ns text

theorem disk_get (hpos : 0 < maxSize) (c : Cache Vector) (ns text : Text) (fails : Bool) :
    (c.get maxSize sha256 ns text fails).2.disk = c.disk := by
  rcases get_cases hpos c sha256 ns text fails with ⟨v, _, heq⟩ | ⟨_, hmiss⟩
  · rw [heq]
  · rcases hmiss with ⟨_, heq⟩ | ⟨_, _, heq⟩ | ⟨_, _, _, heq⟩ | ⟨v, _, _, _, heq⟩
    · rw [heq]
    · rw [heq]
    · rw [heq]
    · rw [heq, memoryPut_eq hpos]

theorem Cache.Exact.get {last : Text → Text → Option Vector} (h : c.Exact sha256 last)
    (hpos : 0 < maxSize) (ns text : Text) :
    (c.get maxSize sha256 ns text false).1 = last ns text := by
  rcases get_cases hpos c sha256 ns text false with ⟨v, hentry, heq⟩ | ⟨_, hmiss⟩
  · rw [heq]
    exact (h.agrees.memory ns text v hentry).symm
  · rcases hmiss with ⟨hoff, _⟩ | ⟨_, hf, _⟩ | ⟨_, _, hdisk, heq⟩ | ⟨v, _, _, hdisk, heq⟩
    · rw [h.enabled] at hoff
      cases hoff
    · cases hf
    · rw [heq, ← h.disk, hdisk]
    · rw [heq, ← h.disk, hdisk]

theorem exact_foldl (hpos : 0 < maxSize) (hinj : Function.Injective sha256)
    {ops : List (Op Vector)} (hworks : ∀ op ∈ ops, op.Works)
    {last : Text → Text → Option Vector} (h : c.Exact sha256 last) :
    (ops.foldl (Cache.step maxSize sha256) c).Exact sha256
      fun ns text => (lastPut ns text ops).or (last ns text) := by
  have hrel : ∀ ops : List (Op Vector), (∀ op ∈ ops, op.Works) → Reliable ops := by
    intro ops hops
    induction ops with
    | nil => trivial
    | cons op rest ih =>
      exact ⟨Or.inl (hops op List.mem_cons_self),
        ih fun op' h => hops op' (List.mem_cons_of_mem op h)⟩
  refine ⟨agrees_foldl hpos hinj (hrel ops hworks) h.agrees (Or.inl h.enabled), ?_, ?_⟩
  · exact foldl_invariant (Cache.step maxSize sha256) (fun c => c.diskEnabled = true)
      (fun c op hc hop => diskEnabled_step hpos hop hc) h.enabled hworks
  · clear hrel
    intro ns text
    induction ops generalizing c last with
    | nil => exact h.disk ns text
    | cons op rest ih =>
      have hrest : ∀ op ∈ rest, op.Works := fun op' h => hworks op' (List.mem_cons_of_mem op h)
      have hop := hworks op List.mem_cons_self
      have hon : (c.step maxSize sha256 op).diskEnabled = true :=
        diskEnabled_step hpos hop h.enabled
      cases op with
      | get ns' text' fails =>
        refine ih hrest ⟨(h.agrees.get hpos hinj ns' text' fails).1, hon, fun ns text => ?_⟩
        show (c.get maxSize sha256 ns' text' fails).2.disk.get? _ = _
        rw [disk_get hpos]
        exact h.disk ns text
      | put ns' text' v write =>
        have hwrite : write = .committed := hop
        subst hwrite
        have hput : (c.put maxSize sha256 ns' text' v .committed).disk =
            c.disk.set (ns', sha256 text') v := by
          rw [put_eq hpos, if_pos h.enabled, memoryPut_eq hpos]
          rfl
        rw [lastPut, Option.or_assoc]
        refine (ih hrest ⟨h.agrees.put hpos hinj ns' text' v .committed, hon, ?_⟩).trans ?_
        · intro ns text
          show (c.put maxSize sha256 ns' text' v .committed).disk.get? _ = _
          rw [hput, Dict.get?_set]
          by_cases hsame : ns' = ns ∧ text' = text
          · obtain ⟨rfl, rfl⟩ := hsame
            rw [if_pos rfl, if_pos ⟨rfl, rfl⟩]
          · rw [if_neg hsame, if_neg fun hkey =>
              hsame ⟨(Prod.mk.inj hkey).1.symm, (hinj (Prod.mk.inj hkey).2).symm⟩]
            exact h.disk ns text
        · split <;> rfl
      | clear => exact ih hrest ⟨⟨fun _ _ _ hv => (by cases hv), h.agrees.disk⟩, hon, h.disk⟩
      | restart opens =>
        refine ih hrest ⟨⟨fun _ _ _ hv => (by cases hv), fun _ => ?_⟩, hon, h.disk⟩
        exact h.agrees.disk h.enabled

/-- While the disk works nothing is lost: not by an eviction, nor by a restart. -/
theorem get_run (hpos : 0 < maxSize) (hinj : Function.Injective sha256) {ops : List (Op Vector)}
    (hworks : ∀ op ∈ ops, op.Works) (ns text : Text) :
    ((run maxSize sha256 ops).get maxSize sha256 ns text false).1 = lastPut ns text ops := by
  have hexact := exact_foldl hpos hinj hworks
    (⟨agrees_init true, rfl, fun _ _ => rfl⟩ :
      (Cache.init .empty true).Exact sha256 fun _ _ => none)
  exact (hexact.get hpos ns text).trans Option.or_none

theorem get_run_letters :
    ((run 1 (fun text => text) [.put ['n'] ['a'] 1 .committed, .put ['n'] ['b'] 2 .committed,
      .restart true]).get 1 (fun text => text) ['n'] ['a'] false).1 =
      lastPut ['n'] ['a'] [.put ['n'] ['a'] 1 .committed, .put ['n'] ['b'] 2 .committed,
        .restart true] :=
  get_run (by decide) (fun _ _ h => h) (by simp [Op.Works]) ['n'] ['a']

end Cerid.Retrieval.EmbeddingCache
