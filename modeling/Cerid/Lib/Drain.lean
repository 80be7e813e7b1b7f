import Mathlib.Logic.Function.Iterate
import Mathlib.Data.List.Basic

/-!
# Statements that are run until nothing is left for them

A `Drain` is a statement that handles a bounded share of the rows it finds and says how many
it has handled; the loop over it runs it until that is none.  A sequence of such loops may be
cut inside any of them: if no statement leaves work for a statement before it, the sequence
run again from the cut ends where it would have ended.
-/

namespace Cerid

variable {σ : Type*}

structure Drain (σ : Type*) where
  /-- The state after the statement, and how many rows it handled. -/
  stmt : σ → σ × Nat
  /-- How many rows the statement finds. -/
  left : σ → Nat

namespace Drain

/-- `while True: run the statement; if processed == 0: break`, so many times at most. -/
def loop (b : Drain σ) : Nat → σ → σ
  | 0, s => s
  | fuel + 1, s => if (b.stmt s).2 = 0 then (b.stmt s).1 else b.loop fuel (b.stmt s).1

/-- The whole loop; there is one round for each row it finds. -/
def run (b : Drain σ) (s : σ) : σ := b.loop (b.left s) s

/-- The state after so many statements of the loop. -/
def after (b : Drain σ) (n : Nat) (s : σ) : σ := (fun s => (b.stmt s).1)^[n] s

/-- Under `inv`, the statement handles rows as long as it finds any, and those it has handled
it does not find again. -/
structure Drains (b : Drain σ) (inv : σ → Prop) : Prop where
  keeps : ∀ s, inv s → inv (b.stmt s).1
  idle : ∀ s, inv s → b.left s = 0 → b.stmt s = (s, 0)
  less : ∀ s, inv s → b.left s ≠ 0 → (b.stmt s).2 ≠ 0 ∧ b.left (b.stmt s).1 < b.left s

variable {b : Drain σ} {inv : σ → Prop}

theorem after_succ (n : Nat) (s : σ) : b.after (n + 1) s = b.after n (b.stmt s).1 := rfl

theorem Drains.after (h : b.Drains inv) (n : Nat) {s : σ} (hs : inv s) : inv (b.after n s) := by
  induction n generalizing s with
  | zero => exact hs
  | succ n ih => exact ih (h.keeps s hs)

/-- A statement that has run leaves less. -/
theorem Drains.left_after_lt (h : b.Drains inv) {s : σ} (hs : inv s) (hleft : b.left s ≠ 0)
    {n : Nat} (hn : n ≠ 0) : b.left (b.after n s) < b.left s := by
  have hle : ∀ n {s : σ}, inv s → b.left (b.after n s) ≤ b.left s := by
    intro n
    induction n with
    | zero => exact fun _ => Nat.le_refl _
    | succ n ih =>
      intro s hs
      have hstep : b.left (b.stmt s).1 ≤ b.left s := by
        by_cases hz : b.left s = 0
        · exact Nat.le_of_eq (by rw [h.idle s hs hz])
        · exact Nat.le_of_lt (h.less s hs hz).2
      exact Nat.le_trans (ih (h.keeps s hs)) hstep
  obtain ⟨m, rfl⟩ := Nat.exists_eq_succ_of_ne_zero hn
  exact Nat.lt_of_le_of_lt (hle m (h.keeps s hs)) (h.less s hs hleft).2

theorem Drains.loop_idle (h : b.Drains inv) {s : σ} (hs : inv s) (hleft : b.left s = 0)
    (fuel : Nat) : b.loop fuel s = s := by
  cases fuel with
  | zero => rfl
  | succ fuel =>
    rw [loop, h.idle s hs hleft, if_pos rfl]

theorem Drains.run_idle (h : b.Drains inv) {s : σ} (hs : inv s) (hleft : b.left s = 0) :
    b.run s = s :=
  h.loop_idle hs hleft _

/-- Rounds beyond the last row change nothing. -/
theorem Drains.loop_of_le (h : b.Drains inv) {s : σ} (hs : inv s) {fuel : Nat}
    (hfuel : b.left s ≤ fuel) : b.loop fuel s = b.run s := by
  show b.loop fuel s = b.loop (b.left s) s
  generalize hn : b.left s = n at hfuel
  induction n using Nat.strongRecOn generalizing s fuel with
  | _ n ih =>
    by_cases hleft : b.left s = 0
    · rw [h.loop_idle hs hleft, h.loop_idle hs hleft]
    · obtain ⟨hne, hlt⟩ := h.less s hs hleft
      obtain ⟨m, rfl⟩ := Nat.exists_eq_succ_of_ne_zero (hn ▸ hleft)
      obtain ⟨f, rfl⟩ := Nat.exists_eq_succ_of_ne_zero
        (Nat.ne_of_gt (Nat.lt_of_lt_of_le (Nat.succ_pos m) hfuel))
      rw [loop, if_neg hne, loop, if_neg hne]
      have hs' := h.keeps s hs
      rw [ih _ (hn ▸ hlt) hs' rfl (show _ ≤ f by omega),
        ih _ (hn ▸ hlt) hs' rfl (show _ ≤ m by omega)]

theorem Drains.run_stmt (h : b.Drains inv) {s : σ} (hs : inv s) : b.run (b.stmt s).1 = b.run s := by
  by_cases hleft : b.left s = 0
  · rw [h.idle s hs hleft]
  · obtain ⟨hne, hlt⟩ := h.less s hs hleft
    have hfuel : b.loop (b.left s + 1) s = b.run s := h.loop_of_le hs (Nat.le_succ _)
    rw [loop, if_neg hne, h.loop_of_le (h.keeps s hs) (Nat.le_of_lt hlt)] at hfuel
    exact hfuel

/-- A loop that is cut and begun again ends where it would have ended. -/
theorem Drains.run_after (h : b.Drains inv) (n : Nat) {s : σ} (hs : inv s) :
    b.run (b.after n s) = b.run s := by
  induction n generalizing s with
  | zero => rfl
  | succ n ih => rw [after_succ, ih (h.keeps s hs), h.run_stmt hs]

/-- What the statement keeps, the loop keeps. -/
theorem run_keeps {p : σ → Prop} (hp : ∀ s, p s → p (b.stmt s).1) {s : σ} (hs : p s) :
    p (b.run s) := by
  show p (b.loop (b.left s) s)
  generalize b.left s = fuel
  induction fuel generalizing s with
  | zero => exact hs
  | succ fuel ih =>
    rw [loop]
    split
    · exact hp s hs
    · exact ih (hp s hs)

theorem after_keeps {p : σ → Prop} (hp : ∀ s, p s → p (b.stmt s).1) (n : Nat) {s : σ}
    (hs : p s) : p (b.after n s) := by
  induction n generalizing s with
  | zero => exact hs
  | succ n ih => exact ih (hp s hs)

theorem Drains.run_inv (h : b.Drains inv) {s : σ} (hs : inv s) : inv (b.run s) :=
  run_keeps h.keeps hs

/-- The loop leaves nothing. -/
theorem Drains.left_run (h : b.Drains inv) {s : σ} (hs : inv s) : b.left (b.run s) = 0 := by
  show b.left (b.loop (b.left s) s) = 0
  generalize hn : b.left s = n
  induction n using Nat.strongRecOn generalizing s with
  | _ n ih =>
    by_cases hleft : b.left s = 0
    · rw [h.loop_idle hs hleft]
      exact hleft
    · obtain ⟨hne, hlt⟩ := h.less s hs hleft
      obtain ⟨m, rfl⟩ := Nat.exists_eq_succ_of_ne_zero (hn ▸ hleft)
      have hs' := h.keeps s hs
      rw [loop, if_neg hne, h.loop_of_le hs' (by omega)]
      exact ih _ (hn ▸ hlt) hs' rfl

/-! ## A sequence of loops -/

def runAll (bs : List (Drain σ)) (s : σ) : σ := bs.foldl (fun s b => b.run s) s

theorem runAll_cons (b : Drain σ) (bs : List (Drain σ)) (s : σ) :
    runAll (b :: bs) s = runAll bs (b.run s) := rfl

/-- `b` finds nothing new after a statement of `c`. -/
def Undisturbed (inv : σ → Prop) (b c : Drain σ) : Prop :=
  ∀ s, inv s → b.left s = 0 → b.left (c.stmt s).1 = 0

theorem runAll_inv {bs : List (Drain σ)} (hbs : ∀ b ∈ bs, b.Drains inv) {s : σ} (hs : inv s) :
    inv (runAll bs s) := by
  induction bs generalizing s with
  | nil => exact hs
  | cons b rest ih =>
    exact ih (fun c hc => hbs c (List.mem_cons_of_mem b hc))
      ((hbs b List.mem_cons_self).run_inv hs)

theorem runAll_keeps {p : σ → Prop} {bs : List (Drain σ)}
    (hp : ∀ b ∈ bs, ∀ s, p s → p (b.stmt s).1) {s : σ} (hs : p s) : p (runAll bs s) := by
  induction bs generalizing s with
  | nil => exact hs
  | cons b rest ih =>
    exact ih (fun c hc => hp c (List.mem_cons_of_mem b hc))
      (run_keeps (hp b List.mem_cons_self) hs)

/-- Loops that find nothing change nothing. -/
theorem runAll_idle {bs : List (Drain σ)} (hbs : ∀ b ∈ bs, b.Drains inv) {s : σ} (hs : inv s)
    (hleft : ∀ b ∈ bs, b.left s = 0) : runAll bs s = s := by
  induction bs with
  | nil => rfl
  | cons b rest ih =>
    rw [runAll_cons, (hbs b List.mem_cons_self).run_idle hs (hleft b List.mem_cons_self)]
    exact ih (fun c hc => hbs c (List.mem_cons_of_mem b hc))
      (fun c hc => hleft c (List.mem_cons_of_mem b hc))

/-- What a loop found drained stays drained through the loops that leave it undisturbed. -/
theorem left_runAll_of_undisturbed {b : Drain σ} {bs : List (Drain σ)}
    (hbs : ∀ c ∈ bs, c.Drains inv) (hb : ∀ c ∈ bs, Undisturbed inv b c) {s : σ} (hs : inv s)
    (hleft : b.left s = 0) : b.left (runAll bs s) = 0 := by
  have h : inv (runAll bs s) ∧ b.left (runAll bs s) = 0 :=
    runAll_keeps (p := fun s => inv s ∧ b.left s = 0)
      (fun c hc s hsc => ⟨(hbs c hc).keeps s hsc.1, hb c hc s hsc.1 hsc.2⟩) ⟨hs, hleft⟩
  exact h.2

/-- The sequence leaves nothing for any of its loops. -/
theorem left_runAll {bs : List (Drain σ)} (hbs : ∀ b ∈ bs, b.Drains inv)
    (hpw : bs.Pairwise (Undisturbed inv)) {s : σ} (hs : inv s) :
    ∀ b ∈ bs, b.left (runAll bs s) = 0 := by
  induction bs generalizing s with
  | nil => exact fun b hb => absurd hb List.not_mem_nil
  | cons c rest ih =>
    intro b hb
    rw [List.pairwise_cons] at hpw
    have hc := hbs c List.mem_cons_self
    have hrest : ∀ d ∈ rest, d.Drains inv := fun d hd => hbs d (List.mem_cons_of_mem c hd)
    cases List.mem_cons.mp hb with
    | inl heq =>
      subst heq
      exact left_runAll_of_undisturbed hrest hpw.1 (hc.run_inv hs) (hc.left_run hs)
    | inr hmem => exact ih hrest hpw.2 (hc.run_inv hs) b hmem

/-- A sequence of loops cut after so many statements of one of them, and run again from its
beginning. -/
theorem runAll_cut {pre post : List (Drain σ)} {b : Drain σ}
    (hbs : ∀ c ∈ pre ++ b :: post, c.Drains inv)
    (hpw : (pre ++ b :: post).Pairwise (Undisturbed inv)) (n : Nat) {s : σ} (hs : inv s) :
    runAll (pre ++ b :: post) (b.after n (runAll pre s)) = runAll (pre ++ b :: post) s := by
  have hpre : ∀ c ∈ pre, c.Drains inv := fun c hc => hbs c (List.mem_append_left _ hc)
  have hb : b.Drains inv := hbs b (List.mem_append_right _ List.mem_cons_self)
  have hs' : inv (runAll pre s) := runAll_inv hpre hs
  have hpw' := List.pairwise_append.mp hpw
  have hleft : ∀ c ∈ pre, c.left (b.after n (runAll pre s)) = 0 := by
    intro c hc
    have h : inv (b.after n (runAll pre s)) ∧ c.left (b.after n (runAll pre s)) = 0 :=
      after_keeps (p := fun s => inv s ∧ c.left s = 0)
        (fun s hsc => ⟨hb.keeps s hsc.1, hpw'.2.2 c hc b List.mem_cons_self s hsc.1 hsc.2⟩) n
        ⟨hs', left_runAll hpre hpw'.1 hs c hc⟩
    exact h.2
  show (pre ++ b :: post).foldl _ _ = (pre ++ b :: post).foldl _ _
  rw [List.foldl_append, List.foldl_append, List.foldl_cons, List.foldl_cons]
  show runAll post (b.run (runAll pre (b.after n (runAll pre s)))) =
    runAll post (b.run (runAll pre s))
  rw [runAll_idle hpre (hb.after n hs') hleft, hb.run_after n hs']

end Drain

end Cerid
