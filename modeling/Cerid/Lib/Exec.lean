import Mathlib.Logic.Basic

/-!
# Computations that change a state and may fail

What was done to the state before a failure stays done.  `Within` says what of the state a
computation leaves alone, however it ends.
-/

namespace Cerid

def Exec (σ ε α : Type) : Type := σ → Except ε α × σ

namespace Exec

variable {σ ε α β : Type}

instance : Monad (Exec σ ε) where
  pure a := fun s => (.ok a, s)
  bind x f := fun s =>
    match x s with
    | (.ok a, s') => f a s'
    | (.error e, s') => (.error e, s')

def fail (e : ε) : Exec σ ε α := fun s => (.error e, s)

/-- A look at the state. -/
def read (f : σ → α) : Exec σ ε α := fun s => (.ok (f s), s)

def modify (f : σ → σ) : Exec σ ε Unit := fun s => (.ok (), f s)

theorem pure_apply (a : α) (s : σ) : (pure a : Exec σ ε α) s = (.ok a, s) := rfl

theorem pure_ok {a b : α} {s s' : σ} :
    (pure a : Exec σ ε α) s = (.ok b, s') ↔ a = b ∧ s = s' := by
  rw [pure_apply, Prod.mk.injEq, Except.ok.injEq]

theorem bind_apply (x : Exec σ ε α) (f : α → Exec σ ε β) (s : σ) :
    (x >>= f) s = match x s with
      | (.ok a, s') => f a s'
      | (.error e, s') => (.error e, s') := rfl

/-- A computation that succeeds takes both its steps. -/
theorem bind_ok {x : Exec σ ε α} {f : α → Exec σ ε β} {b : β} {s s' : σ} :
    (x >>= f) s = (.ok b, s') ↔ ∃ a s₁, x s = (.ok a, s₁) ∧ f a s₁ = (.ok b, s') := by
  rw [bind_apply]
  constructor
  · intro h
    split at h
    · next a s₁ hx => exact ⟨a, s₁, hx, h⟩
    · exact nomatch congrArg Prod.fst h
  · rintro ⟨a, s₁, hx, hf⟩
    rw [hx]
    exact hf

theorem fail_ok {e : ε} {b : α} {s s' : σ} : (fail e : Exec σ ε α) s = (.ok b, s') ↔ False := by
  constructor
  · intro h
    exact nomatch congrArg Prod.fst h
  · exact False.elim

theorem read_ok {f : σ → α} {b : α} {s s' : σ} :
    (read f : Exec σ ε α) s = (.ok b, s') ↔ f s = b ∧ s = s' := by
  unfold read
  rw [Prod.mk.injEq, Except.ok.injEq]

/-- However the computation ends, the state is related to the one before. -/
def Within (R : σ → σ → Prop) (x : Exec σ ε α) : Prop := ∀ s, R s (x s).2

section Within

variable {R : σ → σ → Prop}

theorem Within.pure (hrefl : ∀ s, R s s) (a : α) : Within R (Pure.pure a : Exec σ ε α) := hrefl

theorem Within.fail (hrefl : ∀ s, R s s) (e : ε) : Within R (Exec.fail e : Exec σ ε α) := hrefl

theorem Within.bind (htrans : ∀ a b c, R a b → R b c → R a c) {x : Exec σ ε α}
    {f : α → Exec σ ε β} (hx : Within R x) (hf : ∀ a, Within R (f a)) : Within R (x >>= f) := by
  intro s
  have hs := hx s
  rw [bind_apply]
  split
  · next a s₁ h =>
    rw [h] at hs
    exact htrans _ _ _ hs (hf a s₁)
  · next e s₁ h =>
    rw [h] at hs
    exact hs

end Within

/-- What holds of the state before still holds after, and `P` of the result, if there is one. -/
def Keeps (I : σ → Prop) (x : Exec σ ε α) (P : α → Prop) : Prop :=
  ∀ s, I s → I (x s).2 ∧ ∀ a, (x s).1 = .ok a → P a

section Keeps

variable {I : σ → Prop} {P : α → Prop} {Q : β → Prop}

theorem Keeps.pure {a : α} (h : P a) : Keeps I (Pure.pure a : Exec σ ε α) P := by
  intro s hs
  refine ⟨hs, fun b hb => ?_⟩
  cases hb
  exact h

theorem Keeps.fail (e : ε) : Keeps I (Exec.fail e : Exec σ ε α) P := fun _ hs => ⟨hs, nofun⟩

theorem Keeps.read {f : σ → α} (h : ∀ s, I s → P (f s)) : Keeps I (Exec.read f : Exec σ ε α) P := by
  intro s hs
  refine ⟨hs, fun b hb => ?_⟩
  cases hb
  exact h s hs

theorem Keeps.modify {f : σ → σ} (h : ∀ s, I s → I (f s)) :
    Keeps I (Exec.modify f : Exec σ ε Unit) fun _ => True := fun s hs => ⟨h s hs, fun _ _ => trivial⟩

theorem Keeps.bind {x : Exec σ ε α} {f : α → Exec σ ε β} (hx : Keeps I x P)
    (hf : ∀ a, P a → Keeps I (f a) Q) : Keeps I (x >>= f) Q := by
  intro s hs
  obtain ⟨hkeep, hpost⟩ := hx s hs
  rw [bind_apply]
  split
  · next a s₁ h =>
    rw [h] at hkeep hpost
    exact hf a (hpost a rfl) s₁ hkeep
  · next e s₁ h =>
    rw [h] at hkeep
    exact ⟨hkeep, nofun⟩

end Keeps

end Exec

end Cerid
