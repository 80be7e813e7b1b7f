import Cerid.Lib.Dict
import Mathlib.Algebra.BigOperators.Group.List.Basic
import Mathlib.Data.List.Dedup
import Mathlib.Data.List.Induction

/-!
# Tallies

Values added up under their keys.  The keys of a tally are those that were met, in the order
in which each was met first, and a key holds the sum of its values.
-/

/-- A list without its repetitions; the first of equals stays. -/
def firsts {κ : Type} [DecidableEq κ] (l : List κ) : List κ := l.reverse.dedup.reverse

section Firsts

variable {κ : Type} [DecidableEq κ]

theorem mem_firsts {l : List κ} {k : κ} : k ∈ firsts l ↔ k ∈ l := by
  rw [firsts, List.mem_reverse, List.mem_dedup, List.mem_reverse]

theorem nodup_firsts (l : List κ) : (firsts l).Nodup :=
  List.nodup_reverse.mpr (List.nodup_dedup _)

theorem firsts_snoc (l : List κ) (k : κ) :
    firsts (l ++ [k]) = if k ∈ l then firsts l else firsts l ++ [k] := by
  rw [firsts, List.reverse_append, List.reverse_singleton, List.singleton_append, List.dedup_cons,
    firsts]
  by_cases h : k ∈ l
  · rw [if_pos (List.mem_reverse.mpr h), if_pos h]
  · rw [if_neg (fun hr => h (List.mem_reverse.mp hr)), if_neg h, List.reverse_cons]

theorem filter_firsts (p : κ → Bool) (l : List κ) : (firsts l).filter p = firsts (l.filter p) := by
  induction l using List.reverseRecOn with
  | nil => rfl
  | append_singleton l k ih =>
    rw [firsts_snoc, List.filter_append]
    by_cases hp : p k = true
    · rw [List.filter_cons_of_pos hp, List.filter_nil, firsts_snoc, ← ih]
      by_cases h : k ∈ l
      · rw [if_pos h, if_pos (List.mem_filter.mpr ⟨h, hp⟩)]
      · rw [if_neg h, if_neg (fun hf => h (List.mem_of_mem_filter hf)), List.filter_append,
          List.filter_cons_of_pos hp, List.filter_nil]
    · rw [List.filter_cons_of_neg hp, List.filter_nil, List.append_nil, ← ih]
      by_cases h : k ∈ l
      · rw [if_pos h]
      · rw [if_neg h, List.filter_append, List.filter_cons_of_neg hp, List.filter_nil,
          List.append_nil]

end Firsts

namespace Dict

variable {κ α : Type} [DecidableEq κ]

theorem keys_set (d : Dict κ α) (k : κ) (v : α) :
    (d.set k v).keys = if k ∈ d.keys then d.keys else d.keys ++ [k] := setItem_keys d.items k v

theorem get?_eq_none_iff (d : Dict κ α) (k : κ) : d.get? k = none ↔ k ∉ d.keys := by
  rw [mem_keys_iff]
  cases d.get? k <;> simp

theorem items_set_of_not_mem (d : Dict κ α) {k : κ} (h : k ∉ d.keys) (v : α) :
    (d.set k v).items = d.items ++ [(k, v)] := by
  obtain ⟨items, hnd⟩ := d
  show setItem items k v = items ++ [(k, v)]
  change k ∉ items.map Prod.fst at h
  clear hnd
  induction items with
  | nil => rfl
  | cons p rest ih =>
    have hp : p.1 ≠ k := fun he => h (he ▸ List.mem_cons_self)
    rw [setItem, if_neg hp, ih (fun hrest => h (List.mem_cons_of_mem _ hrest)), List.cons_append]

/-- The items are the keys, each with its value. -/
theorem items_eq_map_keys (d : Dict κ α) (f : κ → α) (h : ∀ k ∈ d.keys, d.get? k = some (f k)) :
    d.items = d.keys.map (fun k => (k, f k)) := by
  have hitem : ∀ p ∈ d.items, ((fun k => (k, f k)) ∘ Prod.fst) p = p := by
    intro p hp
    have hget := (d.mem_items_iff p.1 p.2).mp hp
    have hkey := h p.1 (List.mem_map_of_mem hp)
    rw [hget] at hkey
    exact Prod.ext rfl (Option.some.inj hkey).symm
  rw [keys, List.map_map, List.map_congr_left hitem, List.map_id']

variable {β : Type} [AddMonoid β]

/-- `d[k] += v`, from zero. -/
def add (d : Dict κ β) (k : κ) (v : β) : Dict κ β := d.set k ((d.get? k).getD 0 + v)

def tally (hits : List (κ × β)) : Dict κ β := hits.foldl (fun d h => d.add h.1 h.2) empty

theorem tally_snoc (hits : List (κ × β)) (h : κ × β) : tally (hits ++ [h]) = (tally hits).add h.1 h.2 := by
  rw [tally, List.foldl_append]
  rfl

theorem keys_tally (hits : List (κ × β)) : (tally hits).keys = firsts (hits.map Prod.fst) := by
  induction hits using List.reverseRecOn with
  | nil => rfl
  | append_singleton hits h ih =>
    rw [tally_snoc, add, keys_set, ih, List.map_append, List.map_singleton, firsts_snoc]
    by_cases hmem : h.1 ∈ hits.map Prod.fst
    · rw [if_pos (mem_firsts.mpr hmem), if_pos hmem]
    · rw [if_neg (fun hf => hmem (mem_firsts.mp hf)), if_neg hmem]

theorem getD_tally (hits : List (κ × β)) (k : κ) :
    ((tally hits).get? k).getD 0 = ((hits.filter (fun h => h.1 = k)).map Prod.snd).sum := by
  induction hits using List.reverseRecOn with
  | nil => rfl
  | append_singleton hits h ih =>
    rw [tally_snoc, add, get?_set, List.filter_append, List.map_append, List.sum_append]
    by_cases hk : h.1 = k
    · have hlast : [h].filter (fun h => h.1 = k) = [h] := by simp [hk]
      rw [if_pos hk.symm, hlast, Option.getD_some, hk, ih, List.map_singleton, List.sum_singleton]
    · have hlast : [h].filter (fun h => h.1 = k) = [] := by simp [hk]
      rw [if_neg (fun he => hk he.symm), hlast, ih, List.map_nil, List.sum_nil, add_zero]

/-- The items of a tally. -/
theorem items_tally (hits : List (κ × β)) :
    (tally hits).items = (firsts (hits.map Prod.fst)).map (fun k =>
      (k, ((hits.filter (fun h => h.1 = k)).map Prod.snd).sum)) := by
  rw [← keys_tally]
  refine items_eq_map_keys _ _ (fun k hk => ?_)
  obtain ⟨v, hv⟩ := (mem_keys_iff _ k).mp hk
  rw [← getD_tally, hv]
  rfl

end Dict

/-- What a fold adds up by ones it counts. -/
theorem foldl_eq_countP {σ ι : Type*} {step : σ → ι → σ} (field : σ → Nat) (p : ι → Bool)
    (hstep : ∀ s i, field (step s i) = field s + if p i then 1 else 0) (s : σ) (inputs : List ι) :
    field (inputs.foldl step s) = field s + inputs.countP p := by
  induction inputs generalizing s with
  | nil => rfl
  | cons i rest ih =>
    rw [List.foldl_cons, ih, hstep, List.countP_cons, Nat.add_assoc, Nat.add_comm (rest.countP p)]

/-- Of two conditions that count the same, the first of which implies the second, the second
implies the first. -/
theorem imp_of_countP_eq {ι : Type*} {p q : ι → Bool} {l : List ι}
    (himp : ∀ i ∈ l, p i = true → q i = true) (heq : l.countP p = l.countP q) :
    ∀ i ∈ l, q i = true → p i = true := by
  induction l with
  | nil => exact fun i hi => absurd hi List.not_mem_nil
  | cons j rest ih =>
    have hrest := List.countP_mono_left (l := rest) fun i hi => himp i (List.mem_cons_of_mem j hi)
    have hj := himp j List.mem_cons_self
    rw [List.countP_cons, List.countP_cons] at heq
    intro i hi hq
    rcases List.mem_cons.mp hi with rfl | hmem
    · by_contra hp
      rw [if_neg hp, if_pos hq] at heq
      omega
    · refine ih (fun i hi => himp i (List.mem_cons_of_mem j hi)) ?_ i hmem hq
      by_cases hp : p j = true
      · rw [if_pos hp, if_pos (hj hp)] at heq
        omega
      · rw [if_neg hp] at heq
        omega

/-- A list of different numbers below a bound has them all exactly if it is as long. -/
theorem length_eq_iff_of_nodup {l : List Nat} {n : Nat} (hnodup : l.Nodup) (hlt : ∀ i ∈ l, i < n) :
    l.length = n ↔ ∀ i < n, i ∈ l := by
  constructor
  · intro hlength i hi
    have hsubset : l ⊆ List.range n := fun j hj => List.mem_range.mpr (hlt j hj)
    have hperm : l.Perm (List.range n) :=
      (List.subperm_of_subset hnodup hsubset).perm_of_length_le
        (by simp only [List.length_range, hlength, Nat.le_refl])
    exact hperm.mem_iff.mpr (List.mem_range.mpr hi)
  · intro hall
    have hperm : l.Perm (List.range n) := by
      refine (List.perm_ext_iff_of_nodup hnodup List.nodup_range).mpr fun i => ?_
      rw [List.mem_range]
      exact ⟨hlt i, hall i⟩
    rw [hperm.length_eq, List.length_range]
