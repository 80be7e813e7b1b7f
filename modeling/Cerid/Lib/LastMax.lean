import Cerid.Lib.Dict
import Mathlib.Data.List.Induction
import Mathlib.Order.Lattice

/-!
# The last maximum of a scan

A scan that replaces its candidate whenever the next element ranks at least as
high ends with the last of the elements of highest rank.  `lastMax_eq_some_iff`
is that statement, and `get?_foldl_keepAt` is the same scan run for every key of
a dictionary at once: at a key it sees exactly the elements of that key.
-/

section LastMax

variable {ε ρ : Type} [LinearOrder ρ] (rank : ε → ρ)

/-- One step of the scan. -/
def keepLast (best : Option ε) (x : ε) : Option ε :=
  match best with
  | none => some x
  | some b => if rank b ≤ rank x then some x else some b

def lastMax (xs : List ε) : Option ε := xs.foldl (keepLast rank) none

@[simp] theorem lastMax_nil : lastMax rank [] = none := rfl

theorem lastMax_snoc (xs : List ε) (x : ε) :
    lastMax rank (xs ++ [x]) = keepLast rank (lastMax rank xs) x := by
  simp [lastMax, List.foldl_append]

theorem keepLast_ne_none (best : Option ε) (x : ε) : keepLast rank best x ≠ none := by
  cases best with
  | none => simp [keepLast]
  | some b =>
    simp only [keepLast]
    split <;> simp

theorem lastMax_eq_none_iff (xs : List ε) : lastMax rank xs = none ↔ xs = [] := by
  rcases List.eq_nil_or_concat xs with rfl | ⟨ys, y, rfl⟩
  · simp
  · rw [List.concat_eq_append, lastMax_snoc]
    simp [keepLast_ne_none]

/-- The winner splits the list: nothing before it ranks higher and everything
after it ranks lower. -/
theorem lastMax_split {xs : List ε} {e : ε} (h : lastMax rank xs = some e) :
    ∃ a b, xs = a ++ e :: b ∧ (∀ x ∈ a, rank x ≤ rank e) ∧ ∀ x ∈ b, rank x < rank e := by
  induction xs using List.reverseRecOn generalizing e with
  | nil => simp at h
  | append_singleton ys y ih =>
    rw [lastMax_snoc] at h
    cases hb : lastMax rank ys with
    | none =>
      rw [lastMax_eq_none_iff] at hb
      subst hb
      simp only [lastMax_nil, keepLast, Option.some.injEq] at h
      subst h
      exact ⟨[], [], by simp, by simp, by simp⟩
    | some b =>
      obtain ⟨l, r, hys, hl, hr⟩ := ih hb
      simp only [hb, keepLast] at h
      by_cases hle : rank b ≤ rank y
      · simp only [hle, if_true, Option.some.injEq] at h
        subst h
        refine ⟨ys, [], rfl, ?_, by simp⟩
        intro x hx
        rw [hys, List.mem_append, List.mem_cons] at hx
        rcases hx with hx | rfl | hx
        · exact le_trans (hl x hx) hle
        · exact hle
        · exact le_trans (le_of_lt (hr x hx)) hle
      · simp only [hle, if_false, Option.some.injEq] at h
        subst h
        refine ⟨l, r ++ [y], by simp [hys], hl, ?_⟩
        intro x hx
        rw [List.mem_append, List.mem_singleton] at hx
        rcases hx with hx | rfl
        · exact hr x hx
        · exact lt_of_not_ge hle

theorem lastMax_mem {xs : List ε} {e : ε} (h : lastMax rank xs = some e) : e ∈ xs := by
  obtain ⟨a, b, rfl, -, -⟩ := lastMax_split rank h
  simp

theorem lastMax_max {xs : List ε} {e : ε} (h : lastMax rank xs = some e) {x : ε} (hx : x ∈ xs) :
    rank x ≤ rank e := by
  obtain ⟨a, b, rfl, ha, hb⟩ := lastMax_split rank h
  rw [List.mem_append, List.mem_cons] at hx
  rcases hx with hx | rfl | hx
  · exact ha x hx
  · exact le_refl _
  · exact le_of_lt (hb x hx)

theorem lastMax_eq_some_iff {xs : List ε} {e : ε} :
    lastMax rank xs = some e ↔
      ∃ a b, xs = a ++ e :: b ∧ (∀ x ∈ a, rank x ≤ rank e) ∧ ∀ x ∈ b, rank x < rank e := by
  constructor
  · exact lastMax_split rank
  · rintro ⟨a, b, rfl, ha, hb⟩
    induction b using List.reverseRecOn with
    | nil =>
      rw [lastMax_snoc]
      cases hw : lastMax rank a with
      | none => rfl
      | some w => simp [keepLast, ha w (lastMax_mem rank hw)]
    | append_singleton ys y ih =>
      have hy : ¬ rank e ≤ rank y := not_le_of_gt (hb y (by simp))
      rw [← List.cons_append, ← List.append_assoc, lastMax_snoc,
        ih (fun x hx => hb x (List.mem_append_left _ hx))]
      simp [keepLast, hy]

theorem lastMax_congr {ρ' : Type} [LinearOrder ρ'] (rank' : ε → ρ') {xs : List ε}
    (h : ∀ a ∈ xs, ∀ b ∈ xs, rank a ≤ rank b ↔ rank' a ≤ rank' b) :
    lastMax rank xs = lastMax rank' xs := by
  cases hw : lastMax rank xs with
  | none =>
    rw [lastMax_eq_none_iff] at hw
    simp [hw]
  | some e =>
    have he := lastMax_mem rank hw
    obtain ⟨l, r, rfl, hl, hr⟩ := lastMax_split rank hw
    refine ((lastMax_eq_some_iff rank').mpr ⟨l, r, rfl, ?_, ?_⟩).symm
    · intro x hx
      exact (h x (List.mem_append_left _ hx) e he).mp (hl x hx)
    · intro x hx
      have hxm : x ∈ l ++ e :: r := List.mem_append_right _ (List.mem_cons_of_mem _ hx)
      exact lt_of_not_ge (fun hle => not_le_of_gt (hr x hx) ((h e he x hxm).mpr hle))

theorem exists_lastMax_of_mem {xs : List ε} {x : ε} (hx : x ∈ xs) :
    ∃ e, lastMax rank xs = some e := by
  cases h : lastMax rank xs with
  | none =>
    rw [lastMax_eq_none_iff] at h
    simp [h] at hx
  | some e => exact ⟨e, rfl⟩

end LastMax

section Grouped

variable {κ ε ρ : Type} [DecidableEq κ] [LinearOrder ρ]

/-- Whether `x` takes the place of the candidate held so far. -/
def keeps (rank : ε → ρ) (x : ε) : Option ε → Bool
  | none => true
  | some b => decide (rank b ≤ rank x)

/-- One step of the scan at key `k`. -/
def keepAt (rank : ε → ρ) (d : Dict κ ε) (k : κ) (x : ε) : Dict κ ε :=
  if keeps rank x (d.get? k) then d.set k x else d

theorem get?_keepAt (rank : ε → ρ) (d : Dict κ ε) (k : κ) (x : ε) (k' : κ) :
    (keepAt rank d k x).get? k' =
      if k = k' then keepLast rank (d.get? k') x else d.get? k' := by
  unfold keepAt
  by_cases hk : k = k'
  · subst hk
    cases hd : d.get? k with
    | none => simp [keeps, keepLast]
    | some b =>
      by_cases hle : rank b ≤ rank x
      · simp [keeps, keepLast, hle]
      · simp [keeps, keepLast, hle, hd]
  · have hk' : ¬ k' = k := fun e => hk e.symm
    rw [if_neg hk]
    split <;> simp [hk']

theorem get?_foldl_keepAt {α : Type} (rank : ε → ρ) (key : α → κ) (val : α → ε) (xs : List α)
    (d : Dict κ ε) (k : κ) :
    (xs.foldl (fun acc x => keepAt rank acc (key x) (val x)) d).get? k =
      ((xs.filter (fun x => key x = k)).map val).foldl (keepLast rank) (d.get? k) := by
  induction xs generalizing d with
  | nil => rfl
  | cons x rest ih =>
    rw [List.foldl_cons, ih, get?_keepAt]
    by_cases hk : key x = k
    · simp [hk]
    · simp [hk]

end Grouped
