import Mathlib.Data.List.Basic
import Mathlib.Data.List.Infix

/-!
# Chains of records

A record is checked against its place in the log and the digest of the record before it,
and what passes has a digest of its own.  `walk` checks a whole log.  Where a digest binds
the record and the digest before it, the end of a walk binds the log (`walk_binds`).
-/

namespace Cerid.Chain

variable {R H : Type*} {check : Nat → H → R → Option H} {P : R → Prop}

/-- The place and the digest that the next record is checked against. -/
def walk (check : Nat → H → R → Option H) : Nat → H → List R → Option (Nat × H)
  | n, p, [] => some (n, p)
  | n, p, r :: rest => (check n p r).bind (fun h => walk check (n + 1) h rest)

/-- Among the records with `P`, a digest binds the record and the digest before it; a record
binds its place. -/
structure Binding (check : Nat → H → R → Option H) (P : R → Prop) : Prop where
  digest : ∀ {n m p q r s h}, P r → P s → check n p r = some h → check m q s = some h →
    p = q ∧ r = s
  place : ∀ {n m p q r h i}, check n p r = some h → check m q r = some i → n = m ∧ h = i

theorem walk_append (n : Nat) (p : H) (a b : List R) :
    walk check n p (a ++ b) = (walk check n p a).bind (fun s => walk check s.1 s.2 b) := by
  induction a generalizing n p with
  | nil => rfl
  | cons r rest ih =>
    rw [List.cons_append, walk, walk, Option.bind_assoc]
    exact congrArg _ (funext fun h => ih (n + 1) h)

theorem walk_concat (n : Nat) (p : H) (a : List R) (r : R) :
    walk check n p (a ++ [r]) =
      (walk check n p a).bind (fun s => (check s.1 s.2 r).map (fun h => (s.1 + 1, h))) := by
  rw [walk_append]
  refine congrArg _ (funext fun s => ?_)
  rw [walk]
  cases check s.1 s.2 r <;> rfl

/-- The beginning of a log that passes. -/
theorem walk_left {n : Nat} {p : H} {a b : List R} {t : Nat × H}
    (h : walk check n p (a ++ b) = some t) :
    ∃ s, walk check n p a = some s ∧ walk check s.1 s.2 b = some t := by
  rw [walk_append] at h
  exact Option.bind_eq_some_iff.mp h

theorem walk_cons {n : Nat} {p : H} {r : R} {rest : List R} {t : Nat × H}
    (h : walk check n p (r :: rest) = some t) :
    ∃ i, check n p r = some i ∧ walk check (n + 1) i rest = some t :=
  Option.bind_eq_some_iff.mp h

theorem walk_place {n : Nat} {p : H} {a : List R} {t : Nat × H} (h : walk check n p a = some t) :
    t.1 = n + a.length := by
  induction a generalizing n p with
  | nil => rw [← Option.some.inj h]; rfl
  | cons r rest ih =>
    obtain ⟨i, _, hrest⟩ := walk_cons h
    rw [ih hrest, List.length_cons]
    omega

/-- A record of a log that passes was checked at its place. -/
theorem walk_check {n : Nat} {p : H} {a b : List R} {r : R} {t : Nat × H}
    (h : walk check n p (a ++ r :: b) = some t) :
    ∃ s i, walk check n p a = some s ∧ s.1 = n + a.length ∧ check s.1 s.2 r = some i ∧
      walk check (s.1 + 1) i b = some t := by
  obtain ⟨s, hs, hrest⟩ := walk_left h
  obtain ⟨i, hi, hb⟩ := walk_cons hrest
  exact ⟨s, i, hs, walk_place hs, hi, hb⟩

/-- Two logs of one length that end in one digest are one log. -/
theorem walk_binds (hc : Binding check P) {n m : Nat} {p q : H} {a b : List R} {t u : Nat × H}
    (hpa : ∀ r ∈ a, P r) (hpb : ∀ r ∈ b, P r)
    (ha : walk check n p a = some t) (hb : walk check m q b = some u)
    (hlen : a.length = b.length) (hend : t.2 = u.2) : a = b ∧ p = q := by
  induction a using List.reverseRecOn generalizing b t u with
  | nil =>
    obtain rfl := List.length_eq_zero_iff.mp hlen.symm
    rw [← Option.some.inj ha, ← Option.some.inj hb] at hend
    exact ⟨rfl, hend⟩
  | append_singleton a r ih =>
    obtain ⟨b, s, rfl⟩ : ∃ b' s, b = b' ++ [s] := by
      rw [List.length_append, List.length_singleton] at hlen
      exact ⟨b.dropLast, b.getLast (by rintro rfl; cases hlen),
        (List.dropLast_append_getLast _).symm⟩
    rw [walk_concat] at ha hb
    obtain ⟨v, hv, ha⟩ := Option.bind_eq_some_iff.mp ha
    obtain ⟨w, hw, hb⟩ := Option.bind_eq_some_iff.mp hb
    obtain ⟨i, hi, rfl⟩ := Option.map_eq_some_iff.mp ha
    obtain ⟨j, hj, rfl⟩ := Option.map_eq_some_iff.mp hb
    obtain rfl : i = j := hend
    rw [List.forall_mem_append, List.forall_mem_singleton] at hpa hpb
    obtain ⟨hprev, rfl⟩ := hc.digest hpa.2 hpb.2 hi hj
    rw [List.length_append, List.length_append] at hlen
    obtain ⟨rfl, hpq⟩ := ih hpa.1 hpb.1 hv hw (Nat.add_right_cancel hlen) hprev
    exact ⟨rfl, hpq⟩

/-- A record that two logs share stands at one place in both, and they agree up to it. -/
theorem walk_agree (hc : Binding check P) {n : Nat} {p : H} {a b c d : List R} {r : R}
    {t u : Nat × H} (hpa : ∀ s ∈ a ++ r :: b, P s) (hpc : ∀ s ∈ c ++ r :: d, P s)
    (h : walk check n p (a ++ r :: b) = some t)
    (h' : walk check n p (c ++ r :: d) = some u) : a = c := by
  obtain ⟨s, i, hs, hplace, hi, _⟩ := walk_check h
  obtain ⟨s', i', hs', hplace', hi', _⟩ := walk_check h'
  obtain ⟨hn, rfl⟩ := hc.place hi hi'
  rw [List.forall_mem_append, List.forall_mem_cons] at hpa hpc
  exact (walk_binds hc hpa.1 hpc.1 hs hs' (by omega) (hc.digest hpa.2.1 hpa.2.1 hi hi').1).1

/-- Two logs that pass share a beginning, and nothing else. -/
theorem walk_diverge (hc : Binding check P) {n : Nat} {p : H} {a b : List R} {t u : Nat × H}
    (hpa : ∀ r ∈ a, P r) (hpb : ∀ r ∈ b, P r)
    (ha : walk check n p a = some t) (hb : walk check n p b = some u) :
    ∃ kept fresh, a = kept ++ fresh ∧ kept <+: b ∧ ∀ r ∈ fresh, r ∉ b := by
  induction a using List.reverseRecOn generalizing t with
  | nil => exact ⟨[], [], rfl, List.nil_prefix, fun r hr => absurd hr List.not_mem_nil⟩
  | append_singleton a r ih =>
    by_cases hr : r ∈ b
    · obtain ⟨c, d, rfl⟩ := List.append_of_mem hr
      have hac : a = c := walk_agree hc hpa hpb ha hb
      refine ⟨a ++ [r], [], (List.append_nil _).symm, ⟨d, ?_⟩, fun s hs => absurd hs List.not_mem_nil⟩
      rw [hac, List.append_assoc, List.singleton_append]
    · obtain ⟨s, hs, _⟩ := walk_left ha
      obtain ⟨kept, fresh, rfl, hkept, hfresh⟩ := ih (List.forall_mem_append.mp hpa).1 hs
      refine ⟨kept, fresh ++ [r], List.append_assoc _ _ _, hkept, fun x hx => ?_⟩
      rcases List.mem_append.mp hx with hx | hx
      · exact hfresh x hx
      · rw [List.mem_singleton.mp hx]
        exact hr

end Cerid.Chain
