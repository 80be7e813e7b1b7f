import Cerid.Audit.Prepared

/-!
# Where a record lands

The segments before and after a name stay as they are when that segment grows, so the
records of the log are those before, those of the segment and those after
(`records_append`).  A record that `record` appends passes only as the last of the log, and
what is before it then passed already (`unbroken_of_append`).
-/

namespace Cerid.Audit

open Document Chain
open Value (decode)

variable {F : Type} [Floats F] {env : Env F}

section Segments

omit [Floats F]

theorem pairwise_segments (d : Dir F) : ((segments d).map Prod.fst).Pairwise (· < ·) := by
  have hperm := List.perm_insertionSort (fun a b : Str × Segment F => a.1 ≤ b.1) d.files.items
  have hle := List.pairwise_insertionSort (fun a b : Str × Segment F => a.1 ≤ b.1) d.files.items
  have hnodup := (hperm.map Prod.fst).nodup_iff.mpr d.files.nodup
  exact ((List.pairwise_map.mpr hle).and hnodup).imp (fun h => lt_of_le_of_ne h.1 h.2)

theorem mem_segments (d : Dir F) (name : Str) (s : Segment F) :
    (name, s) ∈ segments d ↔ d.files.get? name = some s := by
  rw [segments, List.mem_insertionSort, Dict.mem_items_iff]

/-- The segments are the one list in order of the names that holds the files. -/
theorem segments_eq {d : Dir F} {l : List (Str × Segment F)}
    (hl : (l.map Prod.fst).Pairwise (· < ·))
    (hmem : ∀ name s, (name, s) ∈ l ↔ d.files.get? name = some s) : segments d = l := by
  have hnodup : ∀ {k : List (Str × Segment F)}, (k.map Prod.fst).Pairwise (· < ·) → k.Nodup :=
    fun h => List.Nodup.of_map Prod.fst (h.imp ne_of_lt)
  have hperm : (segments d).Perm l :=
    (List.perm_ext_iff_of_nodup (hnodup (pairwise_segments d)) (hnodup hl)).mpr
      (fun m => (mem_segments d m.1 m.2).trans (hmem m.1 m.2).symm)
  have hasymm : ∀ x y : Str × Segment F, x ∈ segments d → y ∈ l → x.1 < y.1 → y.1 < x.1 → x = y :=
    fun x y _ _ hxy hyx => absurd hyx (not_lt_of_gt hxy)
  exact hperm.eq_of_pairwise hasymm (List.pairwise_map.mp (pairwise_segments d))
    (List.pairwise_map.mp hl)

def before (d : Dir F) (path : Str) : List (Str × Segment F) :=
  (segments d).filter (fun s => s.1 < path)

def after (d : Dir F) (path : Str) : List (Str × Segment F) :=
  (segments d).filter (fun s => path < s.1)

theorem pairwise_around (d : Dir F) (path : Str) (mid : List (Str × Segment F))
    (hmid : (mid.map Prod.fst).Pairwise (· < ·)) (hpath : ∀ m ∈ mid, m.1 = path) :
    ((before d path ++ mid ++ after d path).map Prod.fst).Pairwise (· < ·) := by
  have hsub : ∀ p : Str × Segment F → Bool,
      (((segments d).filter p).map Prod.fst).Pairwise (· < ·) :=
    fun p => (pairwise_segments d).sublist (List.filter_sublist.map Prod.fst)
  have hbefore : ∀ m ∈ before d path, m.1 < path :=
    fun m hm => of_decide_eq_true (List.mem_filter.mp hm).2
  have hafter : ∀ m ∈ after d path, path < m.1 :=
    fun m hm => of_decide_eq_true (List.mem_filter.mp hm).2
  rw [List.map_append, List.map_append]
  refine List.pairwise_append.mpr ⟨List.pairwise_append.mpr ⟨hsub _, hmid, ?_⟩, hsub _, ?_⟩
  · intro a ha b hb
    obtain ⟨m, hm, rfl⟩ := List.mem_map.mp ha
    obtain ⟨m', hm', rfl⟩ := List.mem_map.mp hb
    rw [hpath m' hm']
    exact hbefore m hm
  · intro a ha b hb
    obtain ⟨m', hm', rfl⟩ := List.mem_map.mp hb
    rcases List.mem_append.mp ha with ha | ha
    · obtain ⟨m, hm, rfl⟩ := List.mem_map.mp ha
      exact lt_trans (hbefore m hm) (hafter m' hm')
    · obtain ⟨m, hm, rfl⟩ := List.mem_map.mp ha
      rw [hpath m hm]
      exact hafter m' hm'

theorem mem_before (d : Dir F) (path name : Str) (s : Segment F) :
    (name, s) ∈ before d path ↔ d.files.get? name = some s ∧ name < path := by
  rw [before, List.mem_filter, mem_segments, decide_eq_true_eq]

theorem mem_after (d : Dir F) (path name : Str) (s : Segment F) :
    (name, s) ∈ after d path ↔ d.files.get? name = some s ∧ path < name := by
  rw [after, List.mem_filter, mem_segments, decide_eq_true_eq]

/-- The segment of a name, if there is one. -/
def at_ (d : Dir F) (path : Str) : List (Str × Segment F) :=
  match d.files.get? path with
  | none => []
  | some s => [(path, s)]

theorem segments_split (d : Dir F) (path : Str) :
    segments d = before d path ++ at_ d path ++ after d path := by
  have hat : ∀ name s, (name, s) ∈ at_ d path ↔ name = path ∧ d.files.get? name = some s := by
    intro name s
    unfold at_
    cases h : d.files.get? path with
    | none =>
      refine iff_of_false List.not_mem_nil (fun hname => ?_)
      rw [hname.1, h] at hname
      cases hname.2
    | some t =>
      rw [List.mem_singleton, Prod.mk.injEq]
      refine and_congr_right (fun hname => ?_)
      rw [hname, h, Option.some.injEq, eq_comm]
  refine segments_eq (pairwise_around d path _ ?_ (fun m hm => ((hat m.1 m.2).mp hm).1)) ?_
  · unfold at_
    cases d.files.get? path
    · exact List.Pairwise.nil
    · exact List.pairwise_singleton _ _
  · intro name s
    rw [List.mem_append, List.mem_append, mem_before, mem_after, hat]
    constructor
    · rintro ((h | h) | h)
      · exact h.1
      · exact h.2
      · exact h.1
    · intro h
      rcases lt_trichotomy name path with hlt | heq | hgt
      · exact Or.inl (Or.inl ⟨h, hlt⟩)
      · exact Or.inl (Or.inr ⟨heq, h⟩)
      · exact Or.inr ⟨h, hgt⟩

end Segments

theorem segments_append (d : Dir F) (path : Str) (w : Doc F) (k : Nat) :
    segments (d.append path w k) =
      before d path ++ [(path, ((d.files.get? path).getD Segment.empty).put w k)] ++
        after d path := by
  refine segments_eq (pairwise_around d path _ (List.pairwise_singleton _ _)
    (fun m hm => by rw [List.mem_singleton.mp hm])) (fun name s => ?_)
  rw [List.mem_append, List.mem_append, mem_before, mem_after, List.mem_singleton, Prod.mk.injEq,
    Dir.append, Dict.get?_set]
  rcases lt_trichotomy name path with hlt | rfl | hgt
  · rw [if_neg hlt.ne]
    simp [hlt, hlt.ne, not_lt_of_gt hlt]
  · rw [if_pos rfl]
    simp [eq_comm]
  · rw [if_neg hgt.ne']
    simp [hgt, hgt.ne', not_lt_of_gt hgt]

def recordsOf (l : List (Str × Segment F)) : List (Option (Value F)) :=
  l.flatMap (fun s => s.2.records)

/-- The segment that a record goes to, as it stands. -/
def target (d : Dir F) (path : Str) : Segment F := (d.files.get? path).getD Segment.empty

omit [Floats F] in
theorem records_split (d : Dir F) (path : Str) :
    records d =
      recordsOf (before d path) ++ (target d path).records ++ recordsOf (after d path) := by
  have hat : recordsOf (at_ d path) = (target d path).records := by
    rw [at_, target]
    cases d.files.get? path
    · rfl
    · exact List.flatMap_singleton _ _
  rw [records, segments_split d path, List.flatMap_append, List.flatMap_append, ← hat]
  rfl

theorem records_append (d : Dir F) (path : Str) (w : Doc F) (k : Nat) :
    records (d.append path w k) =
      recordsOf (before d path) ++ ((target d path).put w k).records ++
        recordsOf (after d path) := by
  rw [records, segments_append, List.flatMap_append, List.flatMap_append, List.flatMap_singleton]
  rfl

/-! ## The line that is appended -/

omit [Floats F] in
theorem records_concat (lines : List (Line F)) (line : Line F) (h : line.isBlank = false)
    (ended : Bool) (size : Nat) :
    (Segment.mk (lines ++ [line]) ended size).records =
      (Segment.mk lines ended size).records ++ [line.loads] := by
  rw [Segment.records, List.filter_append, List.map_append, List.filter_singleton, h]
  rfl

omit [Floats F] in
theorem records_dropLast_blank {lines : List (Line F)} {spaces : Bool}
    (h : lines.getLast? = some (.blank spaces)) (ended : Bool) (size : Nat) :
    (Segment.mk lines.dropLast ended size).records = (Segment.mk lines ended size).records := by
  rw [Segment.records, Segment.records]
  conv_rhs => rw [← List.dropLast_append_getLast? _ h]
  rw [List.filter_append, List.map_append, List.filter_singleton]
  exact (List.append_nil _).symm

/-- A line that stands on its own is one more record. -/
theorem records_put {s : Segment F} {w : Doc F} {k : Nat} (hs : s.stands = true)
    (hk : w.write.length ≤ k) (hk0 : k ≠ 0) :
    (s.put w k).records = s.records ++ [some (decode w)] := by
  obtain ⟨lines, ended, size⟩ := s
  rw [Segment.put, if_neg hk0]
  simp only [if_neg (not_lt.mpr hk)]
  split
  · exact records_concat lines (.doc w) rfl _ _
  · next hended =>
    cases hlast : lines.getLast? with
    | none =>
      obtain rfl := List.getLast?_eq_none_iff.mp hlast
      rfl
    | some last =>
      simp only [Segment.stands, hlast, Bool.or_eq_true] at hs
      have hs := hs.resolve_left hended
      cases last with
      | blank spaces =>
        obtain rfl : spaces = true := hs
        rw [records_concat _ _ rfl]
        exact congrArg (· ++ [some (decode w)]) (records_dropLast_blank hlast ended size)
      | garbled => cases hs
      | doc v => cases hs

/-- A line that goes on another, or is cut short, cannot be read. -/
theorem records_put_garbled {s : Segment F} {w : Doc F} {k : Nat}
    (h : s.stands = false ∨ k < w.write.length) (hk0 : k ≠ 0) : none ∈ (s.put w k).records := by
  obtain ⟨lines, ended, size⟩ := s
  have hlast : ∀ (l : List (Line F)) (line : Line F), line = .garbled → ∀ e n,
      none ∈ (Segment.mk (l ++ [line]) e n).records := by
    rintro l line rfl e n
    rw [records_concat l _ rfl]
    exact List.mem_append_right _ List.mem_cons_self
  rw [Segment.put, if_neg hk0]
  simp only
  split
  · next hended =>
    have hcut : k < w.write.length := by
      refine h.resolve_left (fun hs => ?_)
      rw [Segment.stands, hended, Bool.true_or] at hs
      cases hs
    exact hlast _ _ (if_pos hcut) _ _
  · next hended =>
    cases hl : lines.getLast? with
    | none =>
      have hcut : k < w.write.length := by
        refine h.resolve_left (fun hs => ?_)
        rw [Segment.stands, hl, Bool.or_true] at hs
        cases hs
      exact hlast [] _ (if_pos hcut) _ _
    | some last =>
      refine hlast _ _ ?_ _ _
      rcases h with hs | hcut
      · simp only [Segment.stands, hl, Bool.or_eq_false_iff] at hs
        cases last with
        | blank spaces =>
          obtain rfl : spaces = false := hs.2
          rfl
        | garbled => rfl
        | doc v => rfl
      · rw [if_pos hcut]
        cases last with
        | blank spaces => cases spaces <;> rfl
        | garbled => rfl
        | doc v => rfl

end Cerid.Audit
