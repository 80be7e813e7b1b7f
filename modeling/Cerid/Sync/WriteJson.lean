import Cerid.Lib.Exec
import Mathlib.Data.List.Basic

/-!
# Writing JSON atomically

`_write_json` writes a temporary file, syncs and closes it and puts it in the target's place, up to
four times.  What each call of the file system does is given for every attempt, and a write cut
short counts as one that succeeds.  A descriptor is released by the first `close`, whether or not
that call fails.
-/

namespace Cerid.Sync.WriteJson

inductive Errno where
  | EDEADLK
  | EAGAIN
  | EACCES
  | EBADF
  | other (code : Nat)
deriving DecidableEq, Repr

def Errno.transient : Errno → Bool
  | .EDEADLK | .EAGAIN | .EACCES => true
  | .EBADF | .other _ => false

abbrev Bytes := List UInt8

/-- The target, the temporary files and how often each descriptor was closed, the newest first, and
the attempts so far. -/
structure Disk where
  target : Option Bytes
  temps : List Bytes
  fds : List Nat
  attempts : Nat
deriving DecidableEq, Repr

/-- How many bytes `os.write` took. -/
inductive Write where
  | wrote (n : Nat)
  | error (e : Errno)

/-- What the calls of an attempt do.  `closeAgain` and `unlink` are those of the handler. -/
structure Outcomes where
  mkstemp : Option Errno
  write : Write
  fsync : Option Errno
  close : Option Errno
  replace : Option Errno
  closeAgain : Option Errno
  unlink : Option Errno

/-! ## An attempt -/

/-- A call that fails has no effect. -/
def call (outcome : Option Errno) (effect : Disk → Disk) : Exec Disk Errno Unit :=
  match outcome with
  | none => Exec.modify effect
  | some e => Exec.fail e

def mkstemp (outcome : Option Errno) : Exec Disk Errno Unit :=
  call outcome fun d => { d with temps := [] :: d.temps, fds := 0 :: d.fds }

def osWrite (outcome : Write) (content : Bytes) : Exec Disk Errno Unit :=
  match outcome with
  | .wrote n => Exec.modify fun d => { d with temps := content.take n :: d.temps.tail }
  | .error e => Exec.fail e

/-- A descriptor that was closed before is a bad one. -/
def osClose (outcome : Option Errno) : Exec Disk Errno Unit := fun d =>
  match d.fds with
  | 0 :: rest => (outcome.elim (.ok ()) .error, { d with fds := 1 :: rest })
  | n :: rest => (.error .EBADF, { d with fds := (n + 1) :: rest })
  | [] => (.error .EBADF, d)

def osReplace (outcome : Option Errno) : Exec Disk Errno Unit :=
  call outcome fun d => { d with target := d.temps.head?, temps := d.temps.tail }

/-- With `OSError` suppressed. -/
def osUnlink (outcome : Option Errno) : Exec Disk Errno Unit :=
  Exec.modify fun d => if outcome.isNone then { d with temps := d.temps.tail } else d

def body (o : Outcomes) (content : Bytes) : Exec Disk Errno Unit := do
  osWrite o.write content
  call o.fsync id
  osClose o.close
  osReplace o.replace

/-- The handler, which raises again what it was entered with unless its own `close` raises. -/
def handler (o : Outcomes) (e : Errno) : Exec Disk Errno Unit := do
  osClose o.closeAgain
  osUnlink o.unlink
  Exec.fail e

/-- What stands in the `with lock` of an attempt. -/
def tryOnce (o : Outcomes) (content : Bytes) : Exec Disk Errno Unit := do
  Exec.modify fun d => { d with attempts := d.attempts + 1 }
  mkstemp o.mkstemp
  fun d => match body o content d with
    | (.ok (), d) => (.ok (), d)
    | (.error e, d) => handler o e d

/-- The attempts that are left. -/
def attemptFrom (env : Nat → Outcomes) (content : Bytes) :
    Nat → Nat → Exec Disk Errno Unit
  | 0, _ => pure ()
  | left + 1, attempt => fun d =>
    match tryOnce (env attempt) content d with
    | (.ok (), d) => (.ok (), d)
    | (.error e, d) =>
      if e.transient ∧ attempt < 3 then attemptFrom env content left (attempt + 1) d
      else (.error e, d)

/-- `_write_json`, with the bytes of its content. -/
def writeJson (env : Nat → Outcomes) (content : Bytes) (old : Option Bytes) :
    Except Errno Unit × Disk :=
  attemptFrom env content 4 0 { target := old, temps := [], fds := [], attempts := 0 }

/-! ## What a write should leave -/

def Write.error? : Write → Option Errno
  | .wrote _ => none
  | .error e => some e

/-- The first call of the write itself that fails. -/
def failure (o : Outcomes) : Option Errno :=
  o.mkstemp <|> o.write.error? <|> o.fsync <|> o.close <|> o.replace

/-- The target is the old or the new one, no temporary file is left, every descriptor was closed
once, and after a transient failure there is another attempt. -/
structure Clean (env : Nat → Outcomes) (content : Bytes) (old : Option Bytes) (d : Disk) :
    Prop where
  target : d.target = old ∨ d.target = some content
  temps : d.temps = []
  fds : ∀ n ∈ d.fds, n = 1
  retried : ∀ a < d.attempts, a < 3 → ∀ e ∈ failure (env a), e.transient = true →
    a + 1 < d.attempts

/-- The bytes that were written and synced. -/
def written (o : Outcomes) : Option Nat :=
  match o.write, o.fsync with
  | .wrote n, none => some n
  | _, _ => none

/-- Once the file is written and synced, neither `close` nor `replace` fails and no byte is missing;
before that, the handler's calls do not fail. -/
def Fine (content : Bytes) (old : Option Bytes) (o : Outcomes) : Prop :=
  o.mkstemp ≠ none ∨
    match written o with
    | some n => o.close = none ∧ o.replace = none ∧
        (content.take n = content ∨ old = some (content.take n))
    | none => o.closeAgain = none ∧ o.unlink = none

/-- The attempts before failed transiently. -/
def Reached (env : Nat → Outcomes) (a : Nat) : Prop :=
  ∀ b < a, ∃ e ∈ failure (env b), e.transient = true

/-! ## One attempt -/

variable {content : Bytes} {old : Option Bytes} {o : Outcomes} {d : Disk}

/-- Before an attempt nothing of the earlier ones is left. -/
structure Ready (old : Option Bytes) (attempt : Nat) (d : Disk) : Prop where
  target : d.target = old
  temps : d.temps = []
  fds : ∀ n ∈ d.fds, n = 1
  attempts : d.attempts = attempt

/-- The disk with the temporary file of the attempt. -/
def opened (d : Disk) (temp : Bytes) (closes : Nat) : Disk :=
  { target := d.target
    temps := temp :: d.temps
    fds := closes :: d.fds
    attempts := d.attempts + 1 }

theorem tryOnce_mkstemp {e : Errno} (h : o.mkstemp = some e) :
    tryOnce o content d = (.error e, { d with attempts := d.attempts + 1 }) := by
  simp only [tryOnce, mkstemp, call, h]
  rfl

theorem tryOnce_opened (h : o.mkstemp = none) :
    tryOnce o content d = match body o content (opened d [] 0) with
      | (.ok (), d) => (.ok (), d)
      | (.error e, d) => handler o e d := by
  simp only [tryOnce, mkstemp, call, h]
  rfl

/-- What was not written and synced is closed and taken away by the handler. -/
theorem body_unwritten (h : written o = none) :
    ∃ e temp, (o.write.error? <|> o.fsync) = some e ∧
      body o content (opened d [] 0) = (.error e, opened d temp 0) := by
  cases hw : o.write with
  | error e =>
    refine ⟨e, [], rfl, ?_⟩
    simp only [body, hw, osWrite, Exec.bind_apply, Exec.fail]
  | wrote n =>
    cases hf : o.fsync with
    | none =>
      rw [written, hw, hf] at h
      cases h
    | some e =>
      refine ⟨e, content.take n, rfl, ?_⟩
      simp only [body, hw, hf, osWrite, call, Exec.bind_apply, Exec.modify, Exec.fail, opened,
        List.tail_cons]

theorem failure_unwritten {e : Errno} (hm : o.mkstemp = none)
    (h : (o.write.error? <|> o.fsync) = some e) : failure o = some e := by
  rw [failure, hm]
  cases hw : o.write.error? with
  | some e' =>
    rw [hw] at h
    exact h
  | none =>
    rw [hw] at h
    have hf : o.fsync = some e := h
    rw [hf]
    rfl

theorem written_some {n : Nat} (h : written o = some n) : o.write = .wrote n ∧ o.fsync = none := by
  unfold written at h
  split at h
  · next hw hf =>
    obtain rfl := Option.some.inj h
    exact ⟨hw, hf⟩
  · cases h

theorem body_written {n : Nat} (h : written o = some n) :
    body o content (opened d [] 0) =
      match o.close with
      | some e => (.error e, opened d (content.take n) 1)
      | none =>
        match o.replace with
        | some e => (.error e, opened d (content.take n) 1)
        | none => (.ok (), { opened d (content.take n) 1 with
            target := some (content.take n), temps := d.temps }) := by
  obtain ⟨hw, hf⟩ := written_some h
  cases hc : o.close with
  | some e => simp [body, hw, hf, hc, osWrite, call, osClose, Exec.bind_apply, Exec.modify, opened]
  | none =>
    cases hr : o.replace with
    | some e =>
      simp [body, hw, hf, hc, hr, osWrite, call, osClose, osReplace, Exec.bind_apply, Exec.modify,
        Exec.fail, opened]
    | none =>
      simp [body, hw, hf, hc, hr, osWrite, call, osClose, osReplace, Exec.bind_apply, Exec.modify,
        opened]

theorem handler_open {e : Errno} {temp : Bytes} :
    handler o e (opened d temp 0) = match o.closeAgain with
      | some e' => (.error e', opened d temp 1)
      | none => (.error e, if o.unlink.isNone then { opened d temp 1 with temps := d.temps }
          else opened d temp 1) := by
  cases hc : o.closeAgain with
  | some e' => simp [handler, hc, osClose, Exec.bind_apply, opened]
  | none =>
    simp only [handler, hc, osClose, osUnlink, opened, Exec.bind_apply, Exec.modify, Exec.fail,
      Option.elim_none, List.tail_cons]

/-- The handler finds the descriptor closed. -/
theorem handler_closed {e : Errno} {temp : Bytes} :
    handler o e (opened d temp 1) = (.error .EBADF, opened d temp 2) := by
  simp only [handler, osClose, opened, Exec.bind_apply]

/-- A fine attempt writes the file, or leaves the disk as it was and raises what failed. -/
theorem tryOnce_fine {attempt : Nat} (h : Ready old attempt d) (hfine : Fine content old o) :
    (failure o = none ∧ ∃ d', tryOnce o content d = (.ok (), d') ∧
        (d'.target = old ∨ d'.target = some content) ∧ d'.temps = [] ∧ (∀ n ∈ d'.fds, n = 1) ∧
        d'.attempts = attempt + 1) ∨
      ∃ e, failure o = some e ∧ ∃ d', tryOnce o content d = (.error e, d') ∧
        Ready old (attempt + 1) d' := by
  have hattempts : d.attempts + 1 = attempt + 1 := congrArg (· + 1) h.attempts
  have hfds : ∀ n ∈ 1 :: d.fds, n = 1 := List.forall_mem_cons.mpr ⟨rfl, h.fds⟩
  cases hm : o.mkstemp with
  | some e =>
    refine Or.inr ⟨e, by rw [failure, hm]; rfl, _, tryOnce_mkstemp hm, ?_⟩
    exact { target := h.target, temps := h.temps, fds := h.fds, attempts := hattempts }
  | none =>
    have hrest := hfine.resolve_left fun hne => hne hm
    rw [tryOnce_opened hm]
    cases hw : written o with
    | none =>
      rw [hw] at hrest
      obtain ⟨e, temp, hfail, hbody⟩ := @body_unwritten content o d hw
      refine Or.inr ⟨e, failure_unwritten hm hfail, { opened d temp 1 with temps := d.temps },
        ?_, ?_⟩
      · rw [hbody]
        simp only [handler_open, hrest.1, hrest.2, Option.isNone_none, if_true]
      · exact { target := h.target, temps := h.temps, fds := hfds, attempts := hattempts }
    | some n =>
      rw [hw] at hrest
      obtain ⟨hclose, hreplace, htarget⟩ := hrest
      refine Or.inl ⟨?_, { opened d (content.take n) 1 with
        target := some (content.take n), temps := d.temps }, ?_, ?_, h.temps, hfds, hattempts⟩
      · obtain ⟨hwrote, hfsync⟩ := written_some hw
        rw [failure, hm, hwrote, hfsync, hclose, hreplace]
        rfl
      · rw [body_written hw, hclose, hreplace]
      · rcases htarget with htake | hold
        · exact Or.inr (congrArg some htake)
        · exact Or.inl hold.symm

/-- Any other leaves a temporary file, or puts a part of the content in the target's place. -/
theorem tryOnce_not_fine (hfine : ¬ Fine content old o) :
    (∃ e d', tryOnce o content d = (.error e, d') ∧ d'.temps ≠ []) ∨
      ∃ d', tryOnce o content d = (.ok (), d') ∧ d'.target ≠ old ∧ d'.target ≠ some content := by
  obtain ⟨hm, hrest⟩ := not_or.mp hfine
  rw [tryOnce_opened (not_not.mp hm)]
  cases hw : written o with
  | none =>
    rw [hw] at hrest
    obtain ⟨e, temp, _, hbody⟩ := @body_unwritten content o d hw
    rw [hbody]
    simp only [handler_open]
    cases hc : o.closeAgain with
    | some e' => exact Or.inl ⟨e', _, rfl, List.cons_ne_nil _ _⟩
    | none =>
      have hu : o.unlink.isNone ≠ true := fun hu => hrest ⟨hc, Option.isNone_iff_eq_none.mp hu⟩
      refine Or.inl ⟨e, _, rfl, ?_⟩
      rw [if_neg hu]
      exact List.cons_ne_nil _ _
  | some n =>
    rw [hw] at hrest
    rw [body_written hw]
    cases hc : o.close with
    | some e =>
      refine Or.inl ⟨.EBADF, opened d (content.take n) 2, ?_, List.cons_ne_nil _ _⟩
      exact handler_closed
    | none =>
      cases hr : o.replace with
      | some e =>
        refine Or.inl ⟨.EBADF, opened d (content.take n) 2, ?_, List.cons_ne_nil _ _⟩
        exact handler_closed
      | none =>
        obtain ⟨htake, hold⟩ := not_or.mp fun ht => hrest ⟨hc, hr, ht⟩
        exact Or.inr ⟨_, rfl, fun heq => hold heq.symm, fun heq => htake (Option.some.inj heq)⟩

/-- A temporary file that is left stays. -/
theorem tryOnce_temps (h : d.temps ≠ []) : (tryOnce o content d).2.temps ≠ [] := by
  cases hm : o.mkstemp with
  | some e =>
    rw [tryOnce_mkstemp hm]
    exact h
  | none =>
    rw [tryOnce_opened hm]
    cases hw : written o with
    | none =>
      obtain ⟨e, temp, _, hbody⟩ := @body_unwritten content o d hw
      rw [hbody]
      simp only [handler_open]
      cases o.closeAgain with
      | some e' => exact List.cons_ne_nil _ _
      | none =>
        by_cases hu : o.unlink.isNone = true
        · simp only [hu, if_true]
          exact h
        · simp only [hu]
          exact List.cons_ne_nil _ _
    | some n =>
      rw [body_written hw]
      cases o.close with
      | some e => exact fun hnil => List.cons_ne_nil _ _ hnil
      | none =>
        cases o.replace with
        | some e => exact fun hnil => List.cons_ne_nil _ _ hnil
        | none => exact h

theorem attemptFrom_succ (env : Nat → Outcomes) (left attempt : Nat) :
    attemptFrom env content (left + 1) attempt d = match tryOnce (env attempt) content d with
      | (.ok (), d) => (.ok (), d)
      | (.error e, d) =>
        if e.transient ∧ attempt < 3 then attemptFrom env content left (attempt + 1) d
        else (.error e, d) := rfl

theorem attemptFrom_temps (env : Nat → Outcomes) (left attempt : Nat) (h : d.temps ≠ []) :
    (attemptFrom env content left attempt d).2.temps ≠ [] := by
  induction left generalizing attempt d with
  | zero => exact h
  | succ left ih =>
    have htemps := @tryOnce_temps content (env attempt) d h
    rw [attemptFrom_succ]
    split
    · next d' hd =>
      rw [hd] at htemps
      exact htemps
    · next e d' hd =>
      rw [hd] at htemps
      split
      · exact ih (attempt + 1) htemps
      · exact htemps

/-! ## All attempts -/

theorem Reached.succ {env : Nat → Outcomes} {a : Nat} (h : Reached env a) {e : Errno}
    (hfail : failure (env a) = some e) (he : e.transient = true) : Reached env (a + 1) := by
  intro b hb
  rcases Nat.lt_succ_iff_lt_or_eq.mp hb with hlt | rfl
  · exact h b hlt
  · exact ⟨e, hfail, he⟩

/-- No attempt comes after this one. -/
def Last (env : Nat → Outcomes) (attempt : Nat) : Prop :=
  ∀ e ∈ failure (env attempt), e.transient = true → 3 ≤ attempt

theorem Last.eq_of_reached {env : Nat → Outcomes} {attempt a : Nat} (h : Last env attempt)
    (hle : attempt ≤ a) (hlt : a < 4) (hreached : Reached env a) : a = attempt := by
  by_contra hne
  obtain ⟨e, he, htransient⟩ := hreached attempt (by omega)
  have := h e he htransient
  omega

theorem Clean.of_last {env : Nat → Outcomes} {attempt : Nat} (h : Last env attempt)
    (htarget : d.target = old ∨ d.target = some content) (htemps : d.temps = [])
    (hfds : ∀ n ∈ d.fds, n = 1) (hattempts : d.attempts = attempt + 1) :
    Clean env content old d where
  target := htarget
  temps := htemps
  fds := hfds
  retried := by
    intro a hlt ha e he htransient
    rw [hattempts] at hlt ⊢
    have hne : a ≠ attempt := by
      rintro rfl
      have := h e he htransient
      omega
    omega

/-- The attempts that are left are clean when those reached are fine, by induction on their
number. -/
theorem attemptFrom_clean_iff (env : Nat → Outcomes) {left attempt : Nat}
    (hleft : attempt + left = 4) (h : Ready old attempt d) (hreached : Reached env attempt) :
    Clean env content old (attemptFrom env content left attempt d).2 ↔
      ∀ a, attempt ≤ a → a < 4 → Reached env a → Fine content old (env a) := by
  induction left generalizing attempt d with
  | zero =>
    refine iff_of_true ?_ fun a hle hlt _ => absurd hlt (by omega)
    exact {
      target := Or.inl h.target
      temps := h.temps
      fds := h.fds
      retried := fun a _ ha _ _ _ => by
        show a + 1 < d.attempts
        rw [h.attempts]
        omega }
  | succ left ih =>
    rw [attemptFrom_succ]
    by_cases hfine : Fine content old (env attempt)
    · have hfrom : ∀ a, Last env attempt → attempt ≤ a → a < 4 → Reached env a →
          Fine content old (env a) := fun a hlast hle hlt hra => by
        rw [hlast.eq_of_reached hle hlt hra]
        exact hfine
      rcases tryOnce_fine h hfine with ⟨hnone, d', hd', htarget, htemps, hfds, hattempts⟩ |
        ⟨e, hsome, d', hd', hready⟩
      · have hlast : Last env attempt := fun e he => by
          rw [hnone] at he
          cases he
        rw [hd']
        exact iff_of_true (.of_last hlast htarget htemps hfds hattempts) fun a => hfrom a hlast
      · rw [hd']
        by_cases hagain : e.transient = true ∧ attempt < 3
        · simp only [hagain, and_self, if_true]
          rw [ih (by omega) hready (hreached.succ hsome hagain.1)]
          refine ⟨fun hall a hle hlt hra => ?_, fun hall a hle => hall a (by omega)⟩
          rcases Nat.eq_or_lt_of_le hle with rfl | hgt
          · exact hfine
          · exact hall a hgt hlt hra
        · have hlast : Last env attempt := fun e' he' htransient => by
            rw [hsome] at he'
            obtain rfl := Option.some.inj he'
            exact Nat.not_lt.mp fun hlt => hagain ⟨htransient, hlt⟩
          simp only [hagain, if_false]
          exact iff_of_true
            (.of_last hlast (Or.inl hready.target) hready.temps hready.fds hready.attempts)
            fun a => hfrom a hlast
    · refine iff_of_false ?_ fun hall => hfine (hall attempt (Nat.le_refl _) (by omega) hreached)
      intro hclean
      rcases @tryOnce_not_fine content old (env attempt) d hfine with ⟨e, d', hd', htemps⟩ |
        ⟨d', hd', hold, hnew⟩
      · rw [hd'] at hclean
        simp only at hclean
        split at hclean
        · exact attemptFrom_temps env left (attempt + 1) htemps hclean.temps
        · exact htemps hclean.temps
      · rw [hd'] at hclean
        exact hclean.target.elim hold hnew

/-- A write is clean when every attempt that is reached is fine. -/
theorem writeJson_clean_iff (env : Nat → Outcomes) (content : Bytes) (old : Option Bytes) :
    Clean env content old (writeJson env content old).2 ↔
      ∀ a < 4, Reached env a → Fine content old (env a) := by
  have hready : Ready old 0 { target := old, temps := [], fds := [], attempts := 0 } :=
    { target := rfl
      temps := rfl
      fds := fun n hn => absurd hn List.not_mem_nil
      attempts := rfl }
  rw [writeJson, attemptFrom_clean_iff env rfl hready fun b hb => absurd hb (Nat.not_lt_zero b)]
  exact ⟨fun h a => h a (Nat.zero_le a), fun h a _ => h a⟩

/-- An attempt in which all calls succeed. -/
def smooth : Outcomes where
  mkstemp := none
  write := .wrote 1
  fsync := none
  close := none
  replace := none
  closeAgain := none
  unlink := none

/-- The target is locked by another program when it is first replaced. -/
def lockedOnce (attempt : Nat) : Outcomes :=
  if attempt = 0 then { smooth with replace := some .EAGAIN } else smooth

/-- The handler's `close` raises, the file stays and there is no second attempt. -/
theorem locked_not_clean :
    writeJson lockedOnce [10] (some [32]) =
        (.error .EBADF, { target := some [32], temps := [[10]], fds := [2], attempts := 1 }) ∧
      ¬ ∀ (env : Nat → Outcomes) (content : Bytes) (old : Option Bytes),
        Clean env content old (writeJson env content old).2 := by
  have hrun : writeJson lockedOnce [10] (some [32]) =
      (.error .EBADF, { target := some [32], temps := [[10]], fds := [2], attempts := 1 }) := rfl
  refine ⟨hrun, fun hall => ?_⟩
  have htemps := (hall lockedOnce [10] (some [32])).temps
  rw [hrun] at htemps
  cases htemps

end Cerid.Sync.WriteJson
