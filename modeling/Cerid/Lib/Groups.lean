import Cerid.Lib.Tally
import Mathlib.Data.List.MinMax

/-!
# The best of each group

A list gathered under keys, in the order in which each key is met first, and of each group the
first element of the highest score.
-/

namespace Cerid

variable {α κ ρ : Type} [DecidableEq κ] [LinearOrder ρ] (key : α → κ) (score : α → ρ)

/-- `groups[key(x)].append(x)`, of every `x`. -/
def gather (xs : List α) : Dict κ (List α) :=
  xs.foldl (fun d x => d.set (key x) ((d.get? (key x)).getD [] ++ [x])) .empty

/-- `max(group, key=score)`, of every group. -/
def bests (xs : List α) : List α := (gather key xs).values.filterMap (List.argmax score)

/-- The group of a key. -/
def groupOf (xs : List α) (k : κ) : List α := xs.filter (fun x => key x = k)

variable {key} in
theorem mem_groupOf {xs : List α} {k : κ} {x : α} : x ∈ groupOf key xs k ↔ x ∈ xs ∧ key x = k := by
  simp [groupOf]

theorem get?_gather (xs : List α) (k : κ) :
    (gather key xs).get? k = if groupOf key xs k = [] then none else some (groupOf key xs k) := by
  rw [gather, Dict.get?_foldl_gather]
  rfl

theorem gather_snoc (xs : List α) (x : α) :
    gather key (xs ++ [x]) =
      (gather key xs).set (key x) (((gather key xs).get? (key x)).getD [] ++ [x]) := by
  rw [gather, List.foldl_append]
  rfl

theorem keys_gather (xs : List α) : (gather key xs).keys = firsts (xs.map key) := by
  induction xs using List.reverseRecOn with
  | nil => rfl
  | append_singleton xs x ih =>
    rw [gather_snoc, Dict.keys_set, ih, List.map_append, List.map_singleton, firsts_snoc]
    by_cases hmem : key x ∈ xs.map key
    · rw [if_pos (mem_firsts.mpr hmem), if_pos hmem]
    · rw [if_neg (fun hf => hmem (mem_firsts.mp hf)), if_neg hmem]

theorem groupOf_ne_nil {xs : List α} {x : α} (hx : x ∈ xs) : groupOf key xs (key x) ≠ [] :=
  List.ne_nil_of_mem (mem_groupOf.mpr ⟨hx, rfl⟩)

theorem values_gather (xs : List α) :
    (gather key xs).values = (firsts (xs.map key)).map (groupOf key xs) := by
  have hitems : (gather key xs).items =
      (gather key xs).keys.map (fun k => (k, groupOf key xs k)) := by
    refine Dict.items_eq_map_keys _ _ fun k hk => ?_
    rw [keys_gather, mem_firsts] at hk
    obtain ⟨x, hx, rfl⟩ := List.mem_map.mp hk
    rw [get?_gather, if_neg (groupOf_ne_nil key hx)]
  rw [Dict.values, hitems, List.map_map, keys_gather]
  rfl

theorem bests_eq (xs : List α) :
    bests key score xs =
      (firsts (xs.map key)).filterMap (fun k => (groupOf key xs k).argmax score) := by
  rw [bests, values_gather, List.filterMap_map]
  rfl

/-- A best element is one of its own group. -/
theorem key_of_best {xs : List α} {k : κ} {b : α} (hb : b ∈ (groupOf key xs k).argmax score) :
    b ∈ xs ∧ key b = k :=
  mem_groupOf.mp (List.argmax_mem hb)

theorem mem_bests {xs : List α} {b : α} :
    b ∈ bests key score xs ↔ b ∈ (groupOf key xs (key b)).argmax score := by
  rw [bests_eq, List.mem_filterMap]
  constructor
  · rintro ⟨k, -, hb⟩
    rwa [(key_of_best key score hb).2]
  · intro hb
    have hmem := (key_of_best key score hb).1
    exact ⟨key b, mem_firsts.mpr (List.mem_map_of_mem hmem), hb⟩

theorem argmax_groupOf {xs : List α} {x : α} (hx : x ∈ xs) :
    ∃ b, (groupOf key xs (key x)).argmax score = some b := by
  rw [← Option.ne_none_iff_exists', Ne, List.argmax_eq_none]
  exact groupOf_ne_nil key hx

/-- Every element has a best one in its group. -/
theorem exists_best {xs : List α} {x : α} (hx : x ∈ xs) :
    ∃ b ∈ bests key score xs, key b = key x ∧ score x ≤ score b := by
  obtain ⟨b, hb⟩ := argmax_groupOf key score hx
  have hkey := (key_of_best key score hb).2
  refine ⟨b, (mem_bests key score).mpr (by rw [hkey]; exact hb), hkey, ?_⟩
  exact List.le_of_mem_argmax (mem_groupOf.mpr ⟨hx, rfl⟩) hb

/-- The best elements, by their keys. -/
theorem map_key_bests (xs : List α) : (bests key score xs).map key = firsts (xs.map key) := by
  have hmap : ∀ ks : List κ, (∀ k ∈ ks, k ∈ xs.map key) →
      (ks.filterMap (fun k => (groupOf key xs k).argmax score)).map key = ks := by
    intro ks
    induction ks with
    | nil => exact fun _ => rfl
    | cons k ks ih =>
      intro hks
      obtain ⟨x, hx, rfl⟩ := List.mem_map.mp (hks k List.mem_cons_self)
      obtain ⟨b, hb⟩ := argmax_groupOf key score hx
      have hcons := List.filterMap_cons_some (f := fun k => (groupOf key xs k).argmax score)
        (l := ks) hb
      rw [hcons, List.map_cons, (key_of_best key score hb).2,
        ih fun k' hk' => hks k' (List.mem_cons_of_mem _ hk')]
  rw [bests_eq]
  exact hmap _ fun k hk => mem_firsts.mp hk

theorem nodup_keys_bests (xs : List α) : ((bests key score xs).map key).Nodup := by
  rw [map_key_bests]
  exact nodup_firsts _

/-- A list whose keys are distinct is its best elements. -/
theorem bests_of_nodup {xs : List α} (h : (xs.map key).Nodup) : bests key score xs = xs := by
  have hfirsts : firsts (xs.map key) = xs.map key := by
    rw [firsts, (List.nodup_reverse.mpr h).dedup, List.reverse_reverse]
  have hsome : ∀ x ∈ xs, ((fun k => (groupOf key xs k).argmax score) ∘ key) x = some x := by
    intro x hx
    obtain ⟨b, hb⟩ := argmax_groupOf key score hx
    obtain ⟨hmem, hkey⟩ := key_of_best key score hb
    exact hb.trans (congrArg some (List.inj_on_of_nodup_map h hmem hx hkey))
  rw [bests_eq, hfirsts, List.filterMap_map, List.filterMap_congr hsome, List.filterMap_some]

/-- Twice is once. -/
theorem bests_bests (xs : List α) : bests key score (bests key score xs) = bests key score xs :=
  bests_of_nodup key score (nodup_keys_bests key score xs)

end Cerid
