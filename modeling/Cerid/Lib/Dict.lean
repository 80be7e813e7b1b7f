import Mathlib.Data.List.Basic
import Mathlib.Data.List.Nodup
import Mathlib.Logic.Function.Iterate

/-!
# Insertion-ordered dictionaries

`Dict κ α` is the mapping type of a scripting language: the keys are distinct,
iteration follows the order in which the keys were first inserted, and writing
an existing key keeps its place.  The items are a list and the distinctness of
the keys is a field, so that a lookup and a membership test in the items say
the same thing.
-/

/-- Write `k ↦ v` into a list of items: in place when the key is there, at the
end otherwise. -/
def setItem {κ α : Type} [DecidableEq κ] : List (κ × α) → κ → α → List (κ × α)
  | [], k, v => [(k, v)]
  | (k', v') :: rest, k, v =>
    if k' = k then (k', v) :: rest else (k', v') :: setItem rest k v

theorem find?_eq_none_of_not_mem {κ α : Type} [DecidableEq κ] (key : α → κ) {xs : List α} {k : κ}
    (h : k ∉ xs.map key) : xs.find? (fun x => key x = k) = none := by
  rw [List.find?_eq_none]
  intro x hx hxk
  exact h (List.mem_map.mpr ⟨x, hx, of_decide_eq_true hxk⟩)

theorem setItem_keys {κ α : Type} [DecidableEq κ] (items : List (κ × α)) (k : κ) (v : α) :
    (setItem items k v).map Prod.fst =
      if k ∈ items.map Prod.fst then items.map Prod.fst else items.map Prod.fst ++ [k] := by
  induction items with
  | nil => simp [setItem]
  | cons p rest ih =>
    obtain ⟨k', v'⟩ := p
    by_cases h : k' = k
    · simp [setItem, h]
    · have h' : ¬ k = k' := fun e => h e.symm
      simp only [setItem, h, if_false, List.map_cons, ih, List.mem_cons, h', false_or]
      split <;> simp

instance lawfulBEqPair : LawfulBEq (String × String) := inferInstance

structure Dict (κ α : Type) where
  items : List (κ × α)
  nodup : (items.map Prod.fst).Nodup

namespace Dict

variable {κ α β : Type} [DecidableEq κ]

def empty : Dict κ α := { items := [], nodup := List.nodup_nil }

/-- `d.get(k)`. -/
def get? (d : Dict κ α) (k : κ) : Option α :=
  (d.items.find? (fun p => p.1 = k)).map Prod.snd

/-- `d[k] = v`. -/
def set (d : Dict κ α) (k : κ) (v : α) : Dict κ α where
  items := setItem d.items k v
  nodup := by
    rw [setItem_keys]
    split
    · exact d.nodup
    · rename_i h
      exact List.nodup_append.mpr ⟨d.nodup, List.nodup_singleton k, by
        intro a ha b hb
        rw [List.mem_singleton] at hb
        rintro rfl
        exact h (hb ▸ ha)⟩

/-- `d.setdefault(k, v)`. -/
def setDefault (d : Dict κ α) (k : κ) (v : α) : Dict κ α :=
  match d.get? k with
  | none => d.set k v
  | some _ => d

/-- `d.pop(k, None)`. -/
def erase (d : Dict κ α) (k : κ) : Dict κ α where
  items := d.items.filter (fun p => p.1 ≠ k)
  nodup := d.nodup.sublist (List.filter_sublist.map Prod.fst)

/-- Every value rewritten in place. -/
def mapValues (d : Dict κ α) (f : κ → α → α) : Dict κ α where
  items := d.items.map (fun p => (p.1, f p.1 p.2))
  nodup := by
    rw [List.map_map]
    exact d.nodup

def filter (d : Dict κ α) (q : κ → α → Bool) : Dict κ α where
  items := d.items.filter (fun p => q p.1 p.2)
  nodup := d.nodup.sublist (List.filter_sublist.map Prod.fst)

/-- `{**d, **e}`. -/
def merge (d e : Dict κ α) : Dict κ α :=
  e.items.foldl (fun acc p => acc.set p.1 p.2) d

def keys (d : Dict κ α) : List κ := d.items.map Prod.fst

def values (d : Dict κ α) : List α := d.items.map Prod.snd

@[simp] theorem get?_empty (k : κ) : (empty : Dict κ α).get? k = none := rfl

theorem find?_setItem (items : List (κ × α)) (k : κ) (v : α) (k' : κ) :
    ((setItem items k v).find? (fun p => p.1 = k')).map Prod.snd =
      if k' = k then some v else (items.find? (fun p => p.1 = k')).map Prod.snd := by
  induction items with
  | nil =>
    by_cases h : k' = k
    · simp [setItem, h]
    · have h' : ¬ k = k' := fun e => h e.symm
      simp [setItem, h, h']
  | cons p rest ih =>
    obtain ⟨k₀, v₀⟩ := p
    by_cases h₀ : k₀ = k
    · subst h₀
      by_cases h : k' = k₀
      · simp [setItem, h]
      · have h' : ¬ k₀ = k' := fun e => h e.symm
        simp [setItem, h, h']
    · simp only [setItem, h₀, if_false]
      by_cases h : k₀ = k'
      · have hk : ¬ k' = k := fun e => h₀ (h.trans e)
        simp [h, hk]
      · rw [List.find?_cons_of_neg (by simpa using h), List.find?_cons_of_neg (by simpa using h), ih]

@[simp] theorem get?_set (d : Dict κ α) (k : κ) (v : α) (k' : κ) :
    (d.set k v).get? k' = if k' = k then some v else d.get? k' :=
  find?_setItem d.items k v k'

theorem get?_setDefault (d : Dict κ α) (k : κ) (v : α) (k' : κ) :
    (d.setDefault k v).get? k' =
      if k' = k then some ((d.get? k).getD v) else d.get? k' := by
  unfold setDefault
  cases h : d.get? k with
  | none => simp
  | some x =>
    by_cases hk : k' = k
    · simp [hk, h]
    · simp [hk]

@[simp] theorem get?_erase (d : Dict κ α) (k k' : κ) :
    (d.erase k).get? k' = if k' = k then none else d.get? k' := by
  obtain ⟨items, hnd⟩ := d
  simp only [erase, get?]
  clear hnd
  induction items with
  | nil => simp
  | cons p rest ih =>
    by_cases hp : p.1 = k
    · by_cases hk : k' = k
      · simp [hp, hk]
      · have hk' : ¬ k = k' := fun e => hk e.symm
        simpa [hp, hk, hk'] using ih
    · by_cases hk : p.1 = k'
      · have hk' : ¬ k' = k := fun e => hp (hk.trans e)
        simp [hk, hk']
      · simpa [hp, hk] using ih

@[simp] theorem get?_mapValues (d : Dict κ α) (f : κ → α → α) (k : κ) :
    (d.mapValues f).get? k = (d.get? k).map (f k) := by
  obtain ⟨items, hnd⟩ := d
  simp only [mapValues, get?]
  clear hnd
  induction items with
  | nil => rfl
  | cons p rest ih =>
    obtain ⟨k₀, v₀⟩ := p
    by_cases h : k₀ = k
    · simp [h]
    · simpa [h] using ih

theorem mem_items_iff (d : Dict κ α) (k : κ) (v : α) :
    (k, v) ∈ d.items ↔ d.get? k = some v := by
  obtain ⟨items, hnd⟩ := d
  simp only [get?]
  induction items with
  | nil => simp
  | cons p rest ih =>
    obtain ⟨k₀, v₀⟩ := p
    rw [List.map_cons, List.nodup_cons] at hnd
    by_cases h : k₀ = k
    · subst h
      simp only [List.mem_cons, Prod.mk.injEq, true_and, decide_true,
        List.find?_cons_of_pos, Option.map_some, Option.some.injEq]
      constructor
      · rintro (rfl | hmem)
        · rfl
        · exact absurd (List.mem_map_of_mem (f := Prod.fst) hmem) hnd.1
      · rintro rfl
        exact Or.inl rfl
    · have h' : ¬ k = k₀ := fun e => h e.symm
      rw [List.find?_cons_of_neg (by simpa using h), ← ih hnd.2]
      simp [h']

/-- Writing what is there changes nothing. -/
theorem set_of_get? {d : Dict κ α} {k : κ} {v : α} (h : d.get? k = some v) : d.set k v = d := by
  obtain ⟨items, hnd⟩ := d
  have hitems : setItem items k v = items := by
    simp only [get?] at h
    clear hnd
    induction items with
    | nil => cases h
    | cons p rest ih =>
      obtain ⟨k', v'⟩ := p
      by_cases hk : k' = k
      · subst hk
        simp only [decide_true, List.find?_cons_of_pos, Option.map_some, Option.some.injEq] at h
        rw [setItem, if_pos rfl, h]
      · rw [List.find?_cons_of_neg (by simpa using hk)] at h
        rw [setItem, if_neg hk, ih h]
  simp only [set, hitems]

theorem mem_values_iff (d : Dict κ α) (v : α) :
    v ∈ d.values ↔ ∃ k, d.get? k = some v := by
  simp only [values, List.mem_map, Prod.exists, exists_eq_right, mem_items_iff]

theorem mem_keys_iff (d : Dict κ α) (k : κ) : k ∈ d.keys ↔ ∃ v, d.get? k = some v := by
  simp only [keys, List.mem_map, Prod.exists, exists_and_right, exists_eq_right, mem_items_iff]

@[simp] theorem get?_filter (d : Dict κ α) (q : κ → α → Bool) (k : κ) :
    (d.filter q).get? k = (d.get? k).filter (q k) := by
  ext v
  rw [← mem_items_iff, filter, List.mem_filter, mem_items_iff, Option.mem_def.symm]
  simp [Option.filter_eq_some_iff]

omit [DecidableEq κ] in
theorem ext_items {d e : Dict κ α} (h : d.items = e.items) : d = e := by
  cases d
  cases e
  cases h
  rfl

theorem items_foldl_erase (ks : List κ) (d : Dict κ α) :
    (ks.foldl erase d).items = d.items.filter (fun p => p.1 ∉ ks) := by
  induction ks generalizing d with
  | nil => simp
  | cons k rest ih =>
    rw [List.foldl_cons, ih, erase, List.filter_filter]
    refine List.filter_congr (fun p _ => ?_)
    simp [Bool.and_comm]

theorem get?_foldl_erase (ks : List κ) (d : Dict κ α) (k : κ) :
    (ks.foldl erase d).get? k = if k ∈ ks then none else d.get? k := by
  induction ks generalizing d with
  | nil => simp
  | cons k₀ rest ih =>
    rw [List.foldl_cons, ih, get?_erase]
    by_cases h : k = k₀ <;> by_cases h' : k ∈ rest <;> simp [h, h']

theorem get?_foldl_set_keys (ks : List κ) (f : κ → α) (d : Dict κ α) (k : κ) :
    (ks.foldl (fun acc k => acc.set k (f k)) d).get? k = if k ∈ ks then some (f k) else d.get? k := by
  induction ks generalizing d with
  | nil => simp
  | cons k₀ rest ih =>
    rw [List.foldl_cons, ih, get?_set]
    by_cases h : k = k₀
    · subst h
      simp
    · simp [h]

theorem get?_foldl_gather (key : β → κ) (xs : List β) (d : Dict κ (List β)) (k : κ) :
    (xs.foldl (fun d x => d.set (key x) ((d.get? (key x)).getD [] ++ [x])) d).get? k =
      if xs.filter (fun x => key x = k) = [] then d.get? k
      else some ((d.get? k).getD [] ++ xs.filter (fun x => key x = k)) := by
  induction xs generalizing d with
  | nil => rfl
  | cons x rest ih =>
    rw [List.foldl_cons, ih, get?_set]
    by_cases hx : key x = k
    · have hcons : (x :: rest).filter (fun x => key x = k) =
          x :: rest.filter (fun x => key x = k) :=
        List.filter_cons_of_pos (decide_eq_true hx)
      rw [hcons, if_pos hx.symm, if_neg (List.cons_ne_nil _ _), hx]
      by_cases hrest : rest.filter (fun x => key x = k) = []
      · rw [if_pos hrest, hrest]
      · rw [if_neg hrest]
        simp
    · have hcons : (x :: rest).filter (fun x => key x = k) = rest.filter (fun x => key x = k) :=
        List.filter_cons_of_neg (by simpa using hx)
      have hk : k ≠ key x := fun he => hx he.symm
      simp only [hcons, if_neg hk]

omit [DecidableEq κ] in
theorem nodup_keys (d : Dict κ α) : d.keys.Nodup := d.nodup

theorem get?_foldl_set (items : List (κ × α)) (hnd : (items.map Prod.fst).Nodup) (d : Dict κ α)
    (k : κ) :
    (items.foldl (fun acc p => acc.set p.1 p.2) d).get? k =
      ((items.find? (fun p => p.1 = k)).map Prod.snd).or (d.get? k) := by
  induction items generalizing d with
  | nil => simp
  | cons p rest ih =>
    obtain ⟨k₀, v₀⟩ := p
    rw [List.map_cons, List.nodup_cons] at hnd
    rw [List.foldl_cons, ih hnd.2]
    by_cases h : k₀ = k
    · subst h
      simp [find?_eq_none_of_not_mem Prod.fst hnd.1]
    · have h' : ¬ k = k₀ := fun e => h e.symm
      rw [List.find?_cons_of_neg (by simpa using h), get?_set, if_neg h']

theorem get?_foldl_setDefault (items : List (κ × α)) (d : Dict κ α) (k : κ) :
    (items.foldl (fun acc p => acc.setDefault p.1 p.2) d).get? k =
      (d.get? k).or ((items.find? (fun p => p.1 = k)).map Prod.snd) := by
  induction items generalizing d with
  | nil => simp
  | cons p rest ih =>
    obtain ⟨k₀, v₀⟩ := p
    rw [List.foldl_cons, ih, get?_setDefault]
    by_cases h : k = k₀
    · subst h
      cases d.get? k <;> simp
    · have h' : ¬ k₀ = k := fun e => h e.symm
      rw [if_neg h, List.find?_cons_of_neg (by simpa using h')]

/-- In a merge the second dictionary wins. -/
@[simp] theorem get?_merge (d e : Dict κ α) (k : κ) :
    (d.merge e).get? k = (e.get? k).or (d.get? k) :=
  get?_foldl_set e.items e.nodup d k

/-! ## In the order of use -/

/-- `d.move_to_end(k)`. -/
def moveToEnd (d : Dict κ α) (k : κ) : Dict κ α :=
  match d.get? k with
  | none => d
  | some v => (d.erase k).set k v

/-- `d.popitem(last=False)`. -/
def popFirst (d : Dict κ α) : Dict κ α where
  items := d.items.tail
  nodup := d.nodup.sublist ((List.tail_sublist d.items).map Prod.fst)

theorem get?_moveToEnd (d : Dict κ α) (k k' : κ) : (d.moveToEnd k).get? k' = d.get? k' := by
  unfold moveToEnd
  cases h : d.get? k with
  | none => rfl
  | some v =>
    show ((d.erase k).set k v).get? k' = _
    rw [get?_set, get?_erase]
    by_cases hk : k' = k
    · rw [if_pos hk, hk, h]
    · rw [if_neg hk, if_neg hk]

omit [DecidableEq κ] in
theorem items_iterate_popFirst (n : Nat) (d : Dict κ α) :
    (popFirst^[n] d).items = d.items.drop n := by
  induction n generalizing d with
  | zero => rfl
  | succ n ih =>
    rw [Function.iterate_succ_apply, ih]
    exact List.drop_tail

theorem get?_of_iterate_popFirst {n : Nat} {d : Dict κ α} {k : κ} {v : α}
    (h : (popFirst^[n] d).get? k = some v) : d.get? k = some v := by
  rw [← mem_items_iff] at h ⊢
  rw [items_iterate_popFirst] at h
  exact List.mem_of_mem_drop h

end Dict
