import Cerid.Lib.Dict

/-!
# Re-pointing the keys of a dictionary

The edges of one type are a dictionary, with the two ends as the key: so no two of them join
the same ends.  A re-point takes those that are `mine` one after another, writes each under
the key it goes to, where it may meet one that is there already, and deletes it; one that
goes nowhere is only deleted.
-/

namespace Dict

variable {κ α : Type} [DecidableEq κ]

structure Repoint (κ α : Type) where
  mine : κ → Bool
  target : κ → Option κ
  /-- What becomes of the value that is there, and the one that arrives. -/
  onMatch : α → α → α

namespace Repoint

variable (r : Repoint κ α)

/-- The rows that the statement's pattern finds. -/
def rows (d : Dict κ α) : List (κ × α) := d.items.filter (fun p => r.mine p.1)

/-- The value at a key that a row goes to. -/
def arrive (there : Option α) (v : α) : α :=
  match there with
  | none => v
  | some v₀ => r.onMatch v₀ v

/-- `MERGE` the edge at its new ends, then `DELETE` the old one. -/
def move (d : Dict κ α) (p : κ × α) : Dict κ α :=
  match r.target p.1 with
  | none => d.erase p.1
  | some k => (d.set k (r.arrive (d.get? k) p.2)).erase p.1

/-- The first `limit` rows are moved. -/
def batch (limit : Nat) (d : Dict κ α) : Dict κ α :=
  ((r.rows d).take limit).foldl r.move d

/-- Nothing goes to a key that is to be moved itself. -/
def Leaves : Prop := ∀ k k', r.mine k = true → r.target k = some k' → r.mine k' = false

end Repoint

theorem filter_setItem_of_neg (q : κ → Bool) (items : List (κ × α)) {k : κ} (v : α)
    (hk : q k = false) :
    (setItem items k v).filter (fun p => q p.1) = items.filter (fun p => q p.1) := by
  induction items with
  | nil => simp [setItem, hk]
  | cons p rest ih =>
    obtain ⟨k', v'⟩ := p
    by_cases h : k' = k
    · subst h
      simp [setItem, hk]
    · rw [setItem, if_neg h, List.filter_cons, List.filter_cons, ih]

namespace Repoint

variable {r : Repoint κ α}

omit [DecidableEq κ] in
theorem mine_of_mem_rows {d : Dict κ α} {p : κ × α} (hp : p ∈ r.rows d) : r.mine p.1 = true :=
  (List.mem_filter.mp hp).2

theorem mem_rows_iff (d : Dict κ α) (k : κ) (v : α) :
    (k, v) ∈ r.rows d ↔ d.get? k = some v ∧ r.mine k = true := by
  rw [rows, List.mem_filter, mem_items_iff]

theorem rows_eq_nil_iff (d : Dict κ α) :
    r.rows d = [] ↔ ∀ k, r.mine k = true → d.get? k = none := by
  rw [rows, List.filter_eq_nil_iff]
  constructor
  · intro h k hk
    cases hget : d.get? k with
    | none => rfl
    | some v => exact absurd hk (h (k, v) ((mem_items_iff d k v).mpr hget))
  · rintro h ⟨k, v⟩ hp hk
    rw [mem_items_iff, h k hk] at hp
    cases hp

omit [DecidableEq κ] in
theorem nodup_rows (d : Dict κ α) : ((r.rows d).map Prod.fst).Nodup :=
  d.nodup.sublist (List.filter_sublist.map Prod.fst)

/-- A row that has been moved is no row any more, and the others are as they were. -/
theorem rows_move (hr : r.Leaves) (d : Dict κ α) {p : κ × α} (hp : r.mine p.1 = true) :
    r.rows (r.move d p) = (r.rows d).filter (fun q => q.1 ≠ p.1) := by
  have herase : ∀ e : Dict κ α, r.rows (e.erase p.1) = (r.rows e).filter (fun q => q.1 ≠ p.1) := by
    intro e
    show (e.items.filter _).filter _ = (e.items.filter _).filter _
    rw [List.filter_filter, List.filter_filter]
    exact List.filter_congr fun q _ => Bool.and_comm _ _
  cases htarget : r.target p.1 with
  | none => rw [move, htarget, herase]
  | some k =>
    rw [move, htarget]
    show r.rows ((d.set k _).erase p.1) = _
    rw [herase]
    show (List.filter _ (setItem d.items k _)).filter _ = _
    rw [filter_setItem_of_neg r.mine d.items _ (hr p.1 k hp htarget)]
    rfl

theorem rows_move_head (hr : r.Leaves) (d : Dict κ α) {p : κ × α} {rest : List (κ × α)}
    (hd : r.rows d = p :: rest) : r.rows (r.move d p) = rest := by
  have hp : r.mine p.1 = true := mine_of_mem_rows (hd ▸ List.mem_cons_self)
  have hnd := nodup_rows (r := r) d
  rw [hd, List.map_cons, List.nodup_cons] at hnd
  rw [rows_move hr d hp, hd, List.filter_cons_of_neg (by simp), List.filter_eq_self]
  intro q hq
  have hne : q.1 ≠ p.1 := fun h => hnd.1 (h ▸ List.mem_map_of_mem hq)
  exact decide_eq_true hne

theorem rows_batch (hr : r.Leaves) (limit : Nat) (d : Dict κ α) :
    r.rows (r.batch limit d) = (r.rows d).drop limit := by
  show r.rows (((r.rows d).take limit).foldl r.move d) = _
  generalize hps : r.rows d = ps
  induction ps generalizing d limit with
  | nil => rw [List.take_nil, List.drop_nil, List.foldl_nil, hps]
  | cons p rest ih =>
    cases limit with
    | zero => exact hps
    | succ limit =>
      rw [List.take_succ_cons, List.foldl_cons, List.drop_succ_cons]
      exact ih limit (r.move d p) (rows_move_head hr d hps)

theorem get?_move (d : Dict κ α) (p : κ × α) {k : κ} (hk : k ≠ p.1) :
    (r.move d p).get? k =
      if r.target p.1 = some k then some (r.arrive (d.get? k) p.2) else d.get? k := by
  cases htarget : r.target p.1 with
  | none => rw [move, htarget, get?_erase, if_neg hk, if_neg (by simp)]
  | some k' =>
    rw [move, htarget]
    show ((d.set k' _).erase p.1).get? k = _
    rw [get?_erase, if_neg hk, get?_set]
    by_cases h : k = k'
    · subst h
      simp
    · have h' : ¬ k' = k := fun e => h e.symm
      simp [h, h']

/-- A re-point that writes nothing another one would move leaves that one without rows. -/
theorem rows_batch_eq_nil {r' : Repoint κ α} {d : Dict κ α} (hrows : r'.rows d = [])
    (hto : ∀ p ∈ r.rows d, ∀ k, r.target p.1 = some k → r'.mine k = false) (limit : Nat) :
    r'.rows (r.batch limit d) = [] := by
  have hps : ∀ p ∈ (r.rows d).take limit, ∀ k, r.target p.1 = some k → r'.mine k = false :=
    fun p hp => hto p (List.mem_of_mem_take hp)
  show r'.rows (((r.rows d).take limit).foldl r.move d) = []
  clear hto
  generalize (r.rows d).take limit = ps at hps
  rw [rows_eq_nil_iff] at hrows ⊢
  induction ps generalizing d with
  | nil => exact hrows
  | cons p rest ih =>
    refine ih (fun k hk => ?_) (fun q hq => hps q (List.mem_cons_of_mem p hq))
    by_cases hkp : k = p.1
    · rw [hkp, move]
      cases r.target p.1 <;> simp
    · have hne : ¬ r.target p.1 = some k := by
        intro h
        have hfalse := hps p List.mem_cons_self k h
        rw [hk] at hfalse
        cases hfalse
      rw [get?_move d p hkp, if_neg hne]
      exact hrows k hk

/-! ## All rows moved -/

def moveAll (r : Repoint κ α) (d : Dict κ α) : Dict κ α := (r.rows d).foldl r.move d

theorem moveAll_batch (hr : r.Leaves) (limit : Nat) (d : Dict κ α) :
    r.moveAll (r.batch limit d) = r.moveAll d := by
  show (r.rows (r.batch limit d)).foldl r.move (((r.rows d).take limit).foldl r.move d) = _
  rw [rows_batch hr, ← List.foldl_append, List.take_append_drop]
  rfl

theorem moveAll_of_rows_nil {d : Dict κ α} (h : r.rows d = []) : r.moveAll d = d := by
  rw [moveAll, h, List.foldl_nil]

theorem rows_moveAll (hr : r.Leaves) (d : Dict κ α) : r.rows (r.moveAll d) = [] := by
  have h := rows_batch hr (r.rows d).length d
  rw [List.drop_length, batch, List.take_length] at h
  exact h

theorem get?_moveAll_of_mine (hr : r.Leaves) (d : Dict κ α) {k : κ} (hk : r.mine k = true) :
    (r.moveAll d).get? k = none :=
  (rows_eq_nil_iff _).mp (rows_moveAll hr d) k hk

/-- The rows that go to a key. -/
def arrivals (r : Repoint κ α) (d : Dict κ α) (k : κ) : List (κ × α) :=
  (r.rows d).filter (fun p => r.target p.1 = some k)

/-- What arrives at a key is folded into what is there, in the order of the rows. -/
theorem get?_moveAll (d : Dict κ α) {k : κ} (hk : r.mine k = false) :
    (r.moveAll d).get? k =
      (r.arrivals d k).foldl (fun there p => some (r.arrive there p.2)) (d.get? k) := by
  show ((r.rows d).foldl r.move d).get? k = ((r.rows d).filter _).foldl _ _
  have hmine : ∀ p ∈ r.rows d, r.mine p.1 = true := fun p hp => mine_of_mem_rows hp
  generalize r.rows d = ps at hmine
  induction ps generalizing d with
  | nil => rfl
  | cons p rest ih =>
    have hkp : k ≠ p.1 := by
      intro h
      rw [h, hmine p List.mem_cons_self] at hk
      cases hk
    rw [List.foldl_cons, ih _ (fun q hq => hmine q (List.mem_cons_of_mem p hq)), get?_move d p hkp,
      List.filter_cons]
    by_cases h : r.target p.1 = some k
    · rw [if_pos h, if_pos (decide_eq_true h), List.foldl_cons]
    · rw [if_neg h, if_neg (by simpa using h)]

omit [DecidableEq κ] in
/-- Where what is there stays, nothing that arrives changes it. -/
theorem foldl_arrive_keep (hkeep : ∀ v w, r.onMatch v w = v) (v : α) (ps : List (κ × α)) :
    ps.foldl (fun there p => some (r.arrive there p.2)) (some v) = some v := by
  induction ps with
  | nil => rfl
  | cons p rest ih =>
    rw [List.foldl_cons]
    show rest.foldl _ (some (r.onMatch v p.2)) = _
    rw [hkeep]
    exact ih

/-- A key that one row at most goes to, where what is there stays. -/
theorem get?_moveAll_keep (hkeep : ∀ v w, r.onMatch v w = v) (d : Dict κ α) {k k₀ : κ}
    (hk : r.mine k = false) (hk₀ : r.mine k₀ = true) (htarget : r.target k₀ = some k)
    (honly : ∀ k', r.mine k' = true → r.target k' = some k → k' = k₀) :
    (r.moveAll d).get? k = (d.get? k).or (d.get? k₀) := by
  rw [get?_moveAll d hk]
  have hrows : ∀ p ∈ r.arrivals d k, d.get? k₀ = some p.2 := by
    intro p hp
    obtain ⟨hp, hto⟩ := List.mem_filter.mp hp
    have hp' := (mem_rows_iff d p.1 p.2).mp hp
    rw [← honly p.1 hp'.2 (of_decide_eq_true hto)]
    exact hp'.1
  cases hget : d.get? k with
  | some v => exact foldl_arrive_keep hkeep v _
  | none =>
    rw [Option.none_or]
    cases hps : r.arrivals d k with
    | nil =>
      cases hget₀ : d.get? k₀ with
      | none => rfl
      | some w =>
        have hmem : (k₀, w) ∈ r.arrivals d k :=
          List.mem_filter.mpr ⟨(mem_rows_iff d k₀ w).mpr ⟨hget₀, hk₀⟩, decide_eq_true htarget⟩
        rw [hps] at hmem
        exact absurd hmem List.not_mem_nil
    | cons p rest =>
      rw [hrows p (hps ▸ List.mem_cons_self), List.foldl_cons]
      exact foldl_arrive_keep hkeep p.2 rest

/-- A key that no row goes to. -/
theorem get?_moveAll_other (d : Dict κ α) {k : κ} (hk : r.mine k = false)
    (hto : ∀ k', r.mine k' = true → r.target k' ≠ some k) :
    (r.moveAll d).get? k = d.get? k := by
  rw [get?_moveAll d hk]
  have hnil : r.arrivals d k = [] := by
    refine List.filter_eq_nil_iff.mpr fun p hp => ?_
    have hne := hto p.1 (mine_of_mem_rows hp)
    simpa using hne
  rw [hnil, List.foldl_nil]

end Repoint

end Dict
