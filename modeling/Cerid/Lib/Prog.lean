import Mathlib.Logic.Basic

/-!
# Programs over atomic commands

A program is a tree: it ends with a result, or gives a command and goes on with the reply.
`Only` says of every command that the program may come to what it says of one; `Reaches`,
that the program comes to a command of some kind, as long as the replies are of some kind.
-/

namespace Cerid

variable {C : Type} {R : C → Type} {α : Type}

inductive Prog (C : Type) (R : C → Type) (α : Type) where
  | ret (a : α)
  | cmd (c : C) (k : R c → Prog C R α)

namespace Prog

/-- Commands whose replies are not looked at, and then a program. -/
def each : List C → Prog C R α → Prog C R α
  | [], p => p
  | c :: rest, p => .cmd c (fun _ => each rest p)

/-- Every command of the program, with what follows it, is as `q` says. -/
def Only (q : (c : C) → (R c → Prog C R α) → Prop) : Prog C R α → Prop
  | .ret _ => True
  | .cmd c k => q c k ∧ ∀ r, Only q (k r)

/-- Whatever the replies are, if `ok` holds of them, the program comes to a command that
`hits`. -/
def Reaches (hits : C → Prop) (ok : (c : C) → R c → Prop) : Prog C R α → Prop
  | .ret _ => False
  | .cmd c k => hits c ∨ ∀ r, ok c r → Reaches hits ok (k r)

variable {q q' : (c : C) → (R c → Prog C R α) → Prop} {hits : C → Prop}
  {ok : (c : C) → R c → Prop}

theorem only_ite {c : Prop} [Decidable c] {p p' : Prog C R α} (h : c → p.Only q)
    (h' : ¬ c → p'.Only q) : (if c then p else p').Only q := by
  split
  · exact h ‹_›
  · exact h' ‹_›

theorem reaches_ite {c : Prop} [Decidable c] {p p' : Prog C R α} (h : c → p.Reaches hits ok)
    (h' : ¬ c → p'.Reaches hits ok) : (if c then p else p').Reaches hits ok := by
  split
  · exact h ‹_›
  · exact h' ‹_›

theorem only_each {cs : List C} {p : Prog C R α} (hcs : ∀ c ∈ cs, ∀ k, q c k) (hp : p.Only q) :
    (each cs p).Only q := by
  induction cs with
  | nil => exact hp
  | cons c rest ih =>
    exact ⟨hcs c List.mem_cons_self _, fun _ => ih (fun c' hc => hcs c' (List.mem_cons_of_mem c hc))⟩

theorem reaches_each {cs : List C} {p : Prog C R α} (hp : p.Reaches hits ok) :
    (each cs p).Reaches hits ok := by
  induction cs with
  | nil => exact hp
  | cons c rest ih => exact Or.inr (fun _ _ => ih)

/-- A program that is under way stays so, unless the command was a hit. -/
theorem Reaches.next {c : C} {k : R c → Prog C R α} (h : (Prog.cmd c k).Reaches hits ok)
    (hmiss : ¬ hits c) {r : R c} (hr : ok c r) : (k r).Reaches hits ok :=
  h.resolve_left hmiss r hr

end Prog

end Cerid
