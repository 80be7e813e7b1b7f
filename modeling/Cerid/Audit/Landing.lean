import Cerid.Audit.Append

/-!
# Landing last

`_tail` reads the last record of the log, and of an unbroken log its number and its hash
(`tail_of_unbroken`).  A record lands last where its segment is the last by name and its
line stands on its own; anywhere else it breaks the chain (`lands_of_unbroken`).
-/

namespace Cerid.Audit

open Document Chain
open Value (decode)

variable {F : Type} [Floats F] {env : Env F}

/-- A record that goes to a segment comes after every other. -/
def LandsLast (d : Dir F) (path : Str) : Prop :=
  (∀ s ∈ segments d, s.1 ≤ path) ∧ (target d path).stands = true

/-- What `_tail` found. -/
inductive Found (env : Env F) (d : Dir F) : Int → Str → Str → Prop
  | nothing {path : Str} (hrecords : records d = []) (hnames : ∀ s ∈ segments d, s.1 = path) :
      Found env d 0 GENESIS path
  | last {front : List (Str × Segment F)} {name : Str} {newest : Segment F}
      {rest : List (Option (Value F))} {r : Option (Value F)} {m : Int} {prev path : Str}
      (hsegments : segments d = front ++ [(name, newest)]) (hnewest : newest.records = rest ++ [r])
      (hlast : lastOf env r = some (m, prev)) : Found env d (m + 1) prev path

theorem tail_found {d : Dir F} {seq : Int} {prev path : Str}
    (h : tail env d = .ok (seq, prev, path)) : Found env d seq prev path := by
  simp only [tail] at h
  split at h
  · next hnone =>
    have hnil := List.getLast?_eq_none_iff.mp hnone
    cases h
    refine .nothing (by rw [records, hnil]; rfl) (fun s hs => ?_)
    rw [hnil] at hs
    cases hs
  · next name newest hnewest =>
    have hsegments := (List.dropLast_append_getLast? _ hnewest).symm
    split at h
    · next hrecords =>
      split at h
      · next hone =>
        cases h
        have hsingle : segments d = [(path, newest)] := by
          have hlen := congrArg List.length hsegments
          rw [hone, List.length_append, List.length_singleton] at hlen
          rw [List.length_eq_zero_iff.mp (by omega : (segments d).dropLast.length = 0)] at hsegments
          exact hsegments
        refine .nothing ?_ (fun s hs => ?_)
        · rw [records, hsingle, List.flatMap_singleton]
          exact List.getLast?_eq_none_iff.mp hrecords
        · rw [hsingle] at hs
          rw [List.mem_singleton.mp hs]
      · cases h
    · next last hlast =>
      split at h
      · cases h
      · next m hash hm =>
        cases h
        exact .last hsegments (List.dropLast_append_getLast? _ hlast).symm hm

theorem toInt_of_isNumber {v : Value F} {n : Nat} (h : isNumber (some v) n = true) :
    toInt env v = some (n : Int) := by
  cases v with
  | int m => exact congrArg some (of_decide_eq_true h)
  | bool b =>
    cases b with
    | true => exact congrArg (fun k : Nat => some (k : Int)) (of_decide_eq_true h)
    | false => exact congrArg (fun k : Nat => some (k : Int)) (of_decide_eq_true h)
  | float x =>
    have hx : Floats.value x = ((n : ℚ) : WithTop ℚ) := of_decide_eq_true h
    rw [toInt, hx]
    show some (if (0 : ℚ) ≤ (n : ℚ) then ⌊(n : ℚ)⌋ else ⌈(n : ℚ)⌉) = some (n : Int)
    rw [if_pos (Nat.cast_nonneg n), Int.floor_natCast]
  | _ => cases h

/-- The last record of what passes has the last number and the last hash. -/
theorem lastOf_accepted {n : Nat} {p h prev : Str} {r : Option (Value F)} {m : Int}
    (hr : accepts env n p r = some h) (hlast : lastOf env r = some (m, prev)) :
    m = n ∧ prev = h := by
  obtain ⟨entry, rfl, hseq, _, hhash, _⟩ := accepts_some hr
  rw [lastOf] at hlast
  cases hv : get? entry "seq" with
  | none =>
    rw [hv] at hseq
    cases hseq
  | some v =>
    rw [hv] at hseq
    simp only [hv, hhash, Option.bind_eq_bind, Option.bind_some, toInt_of_isNumber hseq,
      Option.pure_def, Option.some.injEq, Prod.mk.injEq] at hlast
    exact ⟨hlast.1.symm, hlast.2.symm⟩

theorem lastOf_of_accepted {n : Nat} {p h : Str} {r : Option (Value F)}
    (hr : accepts env n p r = some h) : lastOf env r = some ((n : Int), h) := by
  obtain ⟨entry, rfl, hseq, _, hhash, _⟩ := accepts_some hr
  rw [lastOf]
  cases hv : get? entry "seq" with
  | none =>
    rw [hv] at hseq
    cases hseq
  | some v =>
    rw [hv] at hseq
    simp only [hhash, Option.bind_eq_bind, Option.bind_some, toInt_of_isNumber hseq]
    rfl

/-- `_tail` of an unbroken log. -/
theorem tail_of_unbroken {d : Dir F} {s : Nat × Str} {seq : Int} {prev path : Str}
    (hs : Unbroken env d s) (h : tail env d = .ok (seq, prev, path)) : seq = s.1 ∧ prev = s.2 := by
  cases tail_found h with
  | nothing hrecords hnames =>
    rw [Unbroken, hrecords] at hs
    obtain rfl := Option.some.inj hs
    exact ⟨rfl, rfl⟩
  | last hsegments hnewest hlast =>
    rw [Unbroken, records, hsegments, List.flatMap_append, List.flatMap_singleton, hnewest,
      ← List.append_assoc, walk_concat] at hs
    obtain ⟨t, _, ht⟩ := Option.bind_eq_some_iff.mp hs
    obtain ⟨i, hi, rfl⟩ := Option.map_eq_some_iff.mp ht
    obtain ⟨rfl, rfl⟩ := lastOf_accepted hi hlast
    exact ⟨rfl, rfl⟩

omit [Floats F] in
theorem after_eq_nil {d : Dir F} {path : Str} (h : ∀ s ∈ segments d, s.1 ≤ path) :
    after d path = [] :=
  List.filter_eq_nil_iff.mpr (fun s hs => by simpa using h s hs)

omit [Floats F] in
/-- Where some segment comes after a name, the newest does. -/
theorem after_concat {d : Dir F} {front : List (Str × Segment F)} {name path : Str}
    {newest : Segment F} (hsegments : segments d = front ++ [(name, newest)])
    (h : ¬ ∀ s ∈ segments d, s.1 ≤ path) :
    after d path = front.filter (fun s => path < s.1) ++ [(name, newest)] := by
  have hsorted := pairwise_segments d
  rw [hsegments, List.map_append] at hsorted
  have hname : path < name := by
    by_contra hle
    refine h (fun s hs => ?_)
    rw [hsegments] at hs
    rcases List.mem_append.mp hs with hs | hs
    · have hlt := (List.pairwise_append.mp hsorted).2.2 _ (List.mem_map_of_mem hs) _
        List.mem_cons_self
      exact le_trans (le_of_lt hlt) (not_lt.mp hle)
    · rw [List.mem_singleton.mp hs]
      exact not_lt.mp hle
  rw [after, hsegments, List.filter_append, List.filter_singleton, decide_eq_true hname]
  rfl

/-- A record that lands last is one more record. -/
theorem records_landed {d : Dir F} {path : Str} (h : LandsLast d path) (w : Doc F) {k : Nat}
    (hk : w.write.length ≤ k) (hk0 : k ≠ 0) :
    records (d.append path w k) = records d ++ [some (decode w)] := by
  have hnil : recordsOf ([] : List (Str × Segment F)) = [] := rfl
  rw [records_append, records_split d path, after_eq_nil h.1, records_put h.2 hk hk0, hnil,
    List.append_nil, List.append_nil, List.append_assoc]

theorem walk_none {n : Nat} {p : Str} {rs : List (Option (Value F))} {s : Nat × Str}
    (h : walk (accepts env) n p rs = some s) : none ∉ rs := by
  intro hmem
  obtain ⟨a, b, rfl⟩ := List.append_of_mem hmem
  obtain ⟨t, i, _, _, hi, _⟩ := walk_check h
  obtain ⟨_, hnone, _⟩ := accepts_some hi
  cases hnone

/-- A record that passes where it was appended is whole and has landed last. -/
theorem lands_of_unbroken {d : Dir F} {e : Event F} {seq : Int} {prev path : Str}
    {detail : Doc F} {k : Nat} {t : Nat × Str} (h : tail env d = .ok (seq, prev, path))
    (hk0 : k ≠ 0)
    (ht : Unbroken env (d.append path (prepared env e seq prev path detail).doc k) t) :
    LandsLast d path ∧ (prepared env e seq prev path detail).doc.write.length ≤ k := by
  rw [Unbroken, records_append] at ht
  have hnone := walk_none ht
  simp only [List.mem_append, not_or] at hnone
  have hstands : (target d path).stands = true ∧
      ¬ k < (prepared env e seq prev path detail).doc.write.length := by
    by_contra hne
    refine hnone.1.2 (records_put_garbled ?_ hk0)
    rw [not_and_or, Bool.not_eq_true, not_not] at hne
    exact hne
  refine ⟨⟨?_, hstands.1⟩, not_lt.mp hstands.2⟩
  rw [records_put hstands.1 (not_lt.mp hstands.2) hk0] at ht
  cases tail_found h with
  | nothing hrecords hnames => exact fun s hs => le_of_eq (hnames s hs)
  | @last front name newest rest r m _ _ hsegments hnewest hlast =>
    intro s hs
    by_contra hgt
    -- the newest segment comes after the new record, and so does the last record it has
    have hafter : ∃ init, recordsOf (after d path) = init ++ [r] := by
      refine ⟨recordsOf (front.filter (fun s => path < s.1)) ++ rest, ?_⟩
      rw [after_concat hsegments (fun hle => hgt (hle s hs))]
      simp only [recordsOf, List.flatMap_append, List.flatMap_singleton, hnewest,
        List.append_assoc]
    obtain ⟨init, hinit⟩ := hafter
    rw [hinit, ← List.append_assoc, walk_concat] at ht
    obtain ⟨u, hu, ht⟩ := Option.bind_eq_some_iff.mp ht
    obtain ⟨i, hi, rfl⟩ := Option.map_eq_some_iff.mp ht
    obtain ⟨rfl, rfl⟩ := lastOf_accepted hi hlast
    have hplace := walk_place hu
    rw [← List.append_assoc, List.append_assoc _ [_], List.singleton_append] at hu
    obtain ⟨v, j, _, hv, hj, _⟩ := walk_check hu
    have hseq := (prepared_of_accepts hj).1
    simp only [List.length_append, List.length_singleton] at hplace hv
    omega

end Cerid.Audit
