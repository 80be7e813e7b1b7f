import Mathlib.Logic.Basic

/-!
# Runs of a step function

A run is the fold of a step function over a list of inputs.  `Along` says that
each step of a run meets a condition in the state it is taken from; an invariant
that such a step keeps holds after the run.  What the steps cost together is
bounded by a potential that each step draws on.
-/

namespace Cerid

variable {σ ι : Type*} {step : σ → ι → σ} {ok ok' : σ → ι → Prop}

/-- Every step of the run from `s` meets `ok` in the state it is taken from. -/
def Along (step : σ → ι → σ) (ok : σ → ι → Prop) (s : σ) : List ι → Prop
  | [] => True
  | i :: rest => ok s i ∧ Along step ok (step s i) rest

instance Along.decidable [∀ s i, Decidable (ok s i)] (s : σ) :
    (inputs : List ι) → Decidable (Along step ok s inputs)
  | [] => isTrue trivial
  | i :: rest =>
    have := Along.decidable (step s i) rest
    inferInstanceAs (Decidable (ok s i ∧ Along step ok (step s i) rest))

theorem along_append {s : σ} {a b : List ι} :
    Along step ok s (a ++ b) ↔ Along step ok s a ∧ Along step ok (a.foldl step s) b := by
  induction a generalizing s with
  | nil => simp [Along]
  | cons i rest ih => rw [List.cons_append, Along, Along, ih, and_assoc, List.foldl_cons]

/-- Every step of a run, with the steps before it. -/
theorem along_iff_split {s : σ} {inputs : List ι} :
    Along step ok s inputs ↔
      ∀ before i rest, inputs = before ++ i :: rest → ok (before.foldl step s) i := by
  constructor
  · intro h before i rest heq
    subst heq
    exact (along_append.mp h).2.1
  · induction inputs generalizing s with
    | nil => exact fun _ => trivial
    | cons i rest ih =>
      intro h
      refine ⟨h [] i rest rfl, ih (fun before j rest' heq => ?_)⟩
      exact h (i :: before) j rest' (by rw [heq, List.cons_append])

/-- The invariant rule. -/
theorem Along.invariant (inv : σ → Prop) (hstep : ∀ s i, inv s → ok s i → inv (step s i)) {s : σ}
    (hs : inv s) {inputs : List ι} (h : Along step ok s inputs) : inv (inputs.foldl step s) := by
  induction inputs generalizing s with
  | nil => exact hs
  | cons i rest ih => exact ih (hstep s i hs h.1) h.2

/-- What every step that starts under an invariant meets, if it keeps the invariant, is met
along every run. -/
theorem along_of_invariant (inv : σ → Prop) (hok : ∀ s i, inv s → ok s i)
    (hstep : ∀ s i, inv s → inv (step s i)) {s : σ} (hs : inv s) (inputs : List ι) :
    Along step ok s inputs := by
  induction inputs generalizing s with
  | nil => trivial
  | cons i rest ih => exact ⟨hok s i hs, ih (hstep s i hs)⟩

/-- What a step promises, under an invariant that the steps keep, it promises all along a
run. -/
theorem Along.imp (inv : σ → Prop) (hok : ∀ s i, inv s → ok s i → ok' s i)
    (hstep : ∀ s i, inv s → ok s i → inv (step s i)) {s : σ} (hs : inv s) {inputs : List ι}
    (h : Along step ok s inputs) : Along step ok' s inputs := by
  induction inputs generalizing s with
  | nil => trivial
  | cons i rest ih => exact ⟨hok s i hs h.1, ih (hstep s i hs h.1) h.2⟩

/-- Two conditions that agree wherever an invariant holds are met along the same
runs, if a step that meets the second keeps the invariant. -/
theorem along_iff (inv : σ → Prop) (hiff : ∀ s i, inv s → (ok s i ↔ ok' s i))
    (hstep : ∀ s i, inv s → ok' s i → inv (step s i)) {s : σ} (hs : inv s) {inputs : List ι} :
    Along step ok s inputs ↔ Along step ok' s inputs := by
  induction inputs generalizing s with
  | nil => exact Iff.rfl
  | cons i rest ih =>
    show ok s i ∧ _ ↔ ok' s i ∧ _
    rw [hiff s i hs]
    exact and_congr_right fun h => ih (hstep s i hs h)

/-- The same for the runs whose steps meet a third condition. -/
theorem along_iff_of (inv : σ → Prop) {pre : σ → ι → Prop}
    (hiff : ∀ s i, inv s → pre s i → (ok s i ↔ ok' s i))
    (hstep : ∀ s i, inv s → pre s i → inv (step s i)) {s : σ} (hs : inv s) {inputs : List ι}
    (h : Along step pre s inputs) : Along step ok s inputs ↔ Along step ok' s inputs := by
  induction inputs generalizing s with
  | nil => exact Iff.rfl
  | cons i rest ih => exact and_congr (hiff s i hs h.1) (ih (hstep s i hs h.1) h.2)

/-- The invariant rule for a condition on the inputs alone. -/
theorem foldl_invariant (step : σ → ι → σ) (inv : σ → Prop) {p : ι → Prop}
    (hstep : ∀ s i, inv s → p i → inv (step s i)) {s : σ} (hs : inv s) {inputs : List ι}
    (hp : ∀ i ∈ inputs, p i) : inv (inputs.foldl step s) := by
  induction inputs generalizing s with
  | nil => exact hs
  | cons i rest ih =>
    exact ih (hstep s i hs (hp i List.mem_cons_self)) (fun j hj => hp j (List.mem_cons_of_mem i hj))

/-- What the steps of the run from `s` cost together. -/
def costAlong (step : σ → ι → σ) (cost : σ → ι → Nat) (s : σ) : List ι → Nat
  | [] => 0
  | i :: rest => cost s i + costAlong step cost (step s i) rest

/-- The potential rule: if each step is paid for by the potential and a grant, under an
invariant that the steps keep, so is every run. -/
theorem costAlong_le (step : σ → ι → σ) (cost grant : σ → ι → Nat) (potential : σ → Nat)
    (inv : σ → Prop) (hstep : ∀ s i, inv s → inv (step s i))
    (hpaid : ∀ s i, inv s → cost s i + potential (step s i) ≤ potential s + grant s i) {s : σ}
    (hs : inv s) (inputs : List ι) :
    costAlong step cost s inputs + potential (inputs.foldl step s) ≤
      potential s + costAlong step grant s inputs := by
  induction inputs generalizing s with
  | nil => exact Nat.le_of_eq (Nat.add_comm _ _)
  | cons i rest ih =>
    have hi := hpaid s i hs
    have hrest := ih (hstep s i hs)
    rw [costAlong, costAlong, List.foldl_cons]
    omega

theorem foldl_journal {β : Type*} {step : σ × List β → ι → σ × List β} (inv : σ → Prop)
    (emits : ι → List β)
    (hstep : ∀ acc i, inv acc.1 → inv (step acc i).1 ∧ (step acc i).2 = acc.2 ++ emits i)
    (acc : σ × List β) (hs : inv acc.1) (inputs : List ι) :
    inv (inputs.foldl step acc).1 ∧
      (inputs.foldl step acc).2 = acc.2 ++ inputs.flatMap emits := by
  induction inputs generalizing acc with
  | nil => exact ⟨hs, by simp⟩
  | cons i rest ih =>
    have hi := hstep acc i hs
    have hrest := ih _ hi.1
    rw [List.foldl_cons, List.flatMap_cons, ← List.append_assoc, ← hi.2]
    exact hrest

end Cerid
