import Cerid.Audit.Landing

/-!
# Sound logs

What a call of `record` can do (`record_cases`), and what a log keeps that is only recorded
to: its records are a chain that ends where the head says, every line is ended, and the
next call goes on from the last record (`Sound`).
-/

namespace Cerid.Audit

open Document Chain
open Value (decode encode)

variable {F : Type} [Floats F] {env : Env F}

/-! ## What a call does -/

/-- The log after a record of an event was made ready and appended. -/
def appended (env : Env F) (d : Dir F) (e : Event F) (seq : Int) (prev path : Str)
    (detail : Doc F) : Dir F :=
  let p := prepared env e seq prev path detail
  (d.append path p.doc p.line).writeHead seq p.digest

theorem record_ok {d : Dir F} {e : Event F} {seq : Int} {prev path : Str} {detail : Doc F}
    (haction : e.action ≠ []) (ht : tail env d = .ok (seq, prev, path))
    (hd : encode (.dict e.detail) = some detail) :
    record env d e =
      (appended env d e seq prev path detail, .ok (prepared env e seq prev path detail).entry) := by
  have hprepare : prepare env d e = .ok (prepared env e seq prev path detail) := by
    rw [prepare_eq, if_neg haction, ht]
    simp only [hd]
  rw [record, hprepare]
  rfl

theorem record_error {d : Dir F} {e : Event F} {error : Error} (haction : e.action ≠ [])
    (ht : tail env d = .error error) : record env d e = (d, .error error) := by
  have hprepare : prepare env d e = .error error := by
    rw [prepare_eq, if_neg haction, ht]
  rw [record, hprepare]

/-- What a call can do. -/
theorem record_cases (env : Env F) (d : Dir F) (e : Event F) :
    (record env d e).1 = d ∨
      ∃ seq prev path detail, tail env d = .ok (seq, prev, path) ∧
        encode (.dict e.detail) = some detail ∧
        (record env d e).1 = appended env d e seq prev path detail := by
  by_cases haction : e.action = []
  · left
    rw [record, prepare_eq, if_pos haction]
  cases ht : tail env d with
  | error error =>
    left
    rw [record, prepare_eq, if_neg haction, ht]
  | ok t =>
    obtain ⟨seq, prev, path⟩ := t
    cases hd : encode (.dict e.detail) with
    | none =>
      left
      rw [record, prepare_eq, if_neg haction, ht]
      simp only [hd]
    | some detail =>
      right
      exact ⟨seq, prev, path, detail, rfl, rfl, by rw [record_ok haction ht hd]⟩

theorem line_ne_zero (p : Prepared F) : p.line ≠ 0 := Nat.succ_ne_zero _

theorem length_le_line (p : Prepared F) : p.doc.write.length ≤ p.line := Nat.le_succ _

/-- A record that passes landed last, and what is before it passed already. -/
theorem unbroken_of_appended {d : Dir F} {e : Event F} {seq : Int} {prev path : Str}
    {detail : Doc F} {t : Nat × Str} (ht : tail env d = .ok (seq, prev, path))
    (h : Unbroken env (appended env d e seq prev path detail) t) :
    LandsLast d path ∧ ∃ s, Unbroken env d s := by
  have hlands := (lands_of_unbroken ht (line_ne_zero (prepared env e seq prev path detail)) h).1
  refine ⟨hlands, ?_⟩
  have happended : Unbroken env
      (d.append path (prepared env e seq prev path detail).doc
        (prepared env e seq prev path detail).line) t := h
  rw [Unbroken, records_landed hlands _ (length_le_line _) (line_ne_zero _)] at happended
  obtain ⟨s, hs, _⟩ := walk_left happended
  exact ⟨s, hs⟩

theorem joined_of_accepts {n : Nat} {p h : Str} {r : Option (Value F)} (hread : Read r)
    (hr : accepts env n p r = some h) : joined h = h := by
  obtain ⟨entry, rfl, _, _, hhash, _⟩ := accepts_some hr
  obtain ⟨w, hw⟩ := hread
  obtain ⟨_, _, hdict⟩ := Option.map_eq_some_iff.mp hw.symm
  obtain ⟨ms, _, _, rfl⟩ := Value.dict_of_decode hdict
  have hmem := mem_of_get? hhash
  rw [Value.decodeMembers_eq_map] at hmem
  obtain ⟨m, _, hm⟩ := List.mem_map.mp hmem
  have hv : decode m.2 = .str h := congrArg Prod.snd hm
  cases hm2 : m.2 with
  | str s =>
    rw [hm2] at hv
    obtain rfl := Value.str.inj hv
    exact joined_joined s
  | _ =>
    rw [hm2] at hv
    cases hv

/-- The hash that an unbroken log ends in is written as it was read. -/
theorem joined_of_unbroken {d : Dir F} {s : Nat × Str} (hs : Unbroken env d s) :
    joined s.2 = s.2 := by
  have hread := read_records d
  rw [Unbroken] at hs
  rcases List.eq_nil_or_concat (records d) with hnil | ⟨init, r, hr⟩
  · rw [hnil] at hs
    rw [← Option.some.inj hs]
    rfl
  · rw [hr, List.concat_eq_append] at hread
    rw [hr, List.concat_eq_append, walk_concat] at hs
    obtain ⟨t, _, ht⟩ := Option.bind_eq_some_iff.mp hs
    obtain ⟨i, hi, rfl⟩ := Option.map_eq_some_iff.mp ht
    exact joined_of_accepts (hread r List.mem_concat_self) hi

/-- An unbroken log with one more record. -/
theorem unbroken_appended {d : Dir F} {e : Event F} {s : Nat × Str} {path : Str} {detail : Doc F}
    (hs : Unbroken env d s) (hlands : LandsLast d path) (hasc : detail.joined.Ascending) :
    Unbroken env (appended env d e s.1 s.2 path detail)
      (s.1 + 1, digestOf env e s.1 s.2 detail) := by
  have hrecords : records (appended env d e s.1 s.2 path detail) =
      records d ++ [some (written env e s.1 s.2 detail)] :=
    records_landed hlands _ (length_le_line _) (line_ne_zero (prepared env e s.1 s.2 path detail))
  rw [Unbroken] at hs ⊢
  rw [hrecords, walk_concat, hs, Option.bind_some,
    accepts_prepared hasc (joined_of_unbroken hs), Option.map_some]

/-! ## What is kept -/

/-- An event with nothing in it. -/
def plainEvent : Event F :=
  { ts := [], actor := [], action := str "a", target := none, outcome := [], detail := [] }

omit [Floats F] in
theorem plainEvent_action : (plainEvent : Event F).action ≠ [] := List.cons_ne_nil _ _

/-- A log as `record` leaves it, with the number and the hash it goes on from. -/
structure Sound (env : Env F) (d : Dir F) (s : Nat × Str) : Prop where
  unbroken : Unbroken env d s
  head : HeadAt d.head s
  ended : ∀ m ∈ segments d, m.2.ended = true
  next : ∃ path, tail env d = .ok ((s.1 : Int), s.2, path)

def Dir.empty : Dir F := { files := Dict.empty, head := none }

theorem sound_empty : Sound env (Dir.empty : Dir F) (0, GENESIS) where
  unbroken := rfl
  head := rfl
  ended := fun m hm => by cases hm
  next := ⟨segmentPath 0, rfl⟩

theorem Sound.ended_target {d : Dir F} {s : Nat × Str} (h : Sound env d s) (path : Str) :
    (target d path).ended = true := by
  rw [target]
  cases hget : d.files.get? path with
  | none => rfl
  | some seg => exact h.ended (path, seg) ((mem_segments d path seg).mpr hget)

theorem Sound.stands {d : Dir F} {s : Nat × Str} (h : Sound env d s) (path : Str) :
    (target d path).stands = true := by
  rw [Segment.stands, h.ended_target path, Bool.true_or]

theorem Sound.records_record {d : Dir F} {e : Event F} {s : Nat × Str} {path : Str}
    {detail : Doc F} (h : Sound env d s) (haction : e.action ≠ [])
    (ht : tail env d = .ok ((s.1 : Int), s.2, path)) (hd : encode (.dict e.detail) = some detail)
    (hlast : ∀ m ∈ segments d, m.1 ≤ path) :
    ∃ r, records (record env d e).1 = records d ++ [r] := by
  rw [record_ok haction ht hd]
  exact ⟨_, records_landed ⟨hlast, h.stands path⟩ _
    (length_le_line (prepared env e s.1 s.2 path detail)) (line_ne_zero _)⟩

/-- `_tail` where the newest segment has a record. -/
theorem tail_of_last {d : Dir F} {front : List (Str × Segment F)} {name : Str}
    {newest : Segment F} {rest : List (Option (Value F))} {r : Option (Value F)} {m : Int}
    {prev : Str} (hsegments : segments d = front ++ [(name, newest)])
    (hnewest : newest.records = rest ++ [r]) (hlast : lastOf env r = some (m, prev)) :
    ∃ path, tail env d = .ok (m + 1, prev, path) := by
  refine ⟨if env.maxSegmentBytes ≤ newest.size then segmentPath (segments d).length else name, ?_⟩
  simp only [tail, hsegments, List.getLast?_concat, hnewest, hlast]

/-- A complete call whose record lands last leaves the log sound. -/
theorem Sound.appended {d : Dir F} {e : Event F} {s : Nat × Str} {path : Str} {detail : Doc F}
    (h : Sound env d s) (hlast : ∀ m ∈ segments d, m.1 ≤ path) (hasc : detail.joined.Ascending) :
    Sound env (appended env d e s.1 s.2 path detail)
      (s.1 + 1, digestOf env e s.1 s.2 detail) := by
  have hlands : LandsLast d path := ⟨hlast, h.stands path⟩
  have hsegments : segments (Audit.appended env d e s.1 s.2 path detail) = before d path ++
      [(path, (target d path).put (prepared env e s.1 s.2 path detail).doc
        (prepared env e s.1 s.2 path detail).line)] := by
    have hall := segments_append d path (prepared env e s.1 s.2 path detail).doc
      (prepared env e s.1 s.2 path detail).line
    rw [after_eq_nil hlast, List.append_nil] at hall
    exact hall
  have hput := records_put (h.stands path)
    (length_le_line (prepared env e s.1 s.2 path detail)) (line_ne_zero _)
  have haccepts : accepts env s.1 s.2 (some (written env e s.1 s.2 detail)) =
      some (digestOf env e s.1 s.2 detail) :=
    accepts_prepared hasc (joined_of_unbroken h.unbroken)
  exact {
    unbroken := unbroken_appended h.unbroken hlands hasc
    head := ⟨by push_cast; omega, rfl⟩
    ended := by
      rw [hsegments]
      intro m hm
      rcases List.mem_append.mp hm with hm | hm
      · exact h.ended m (List.mem_of_mem_filter hm)
      · rw [List.mem_singleton.mp hm, Segment.put, if_neg (line_ne_zero _)]
        exact decide_eq_true (Nat.lt_succ_self _)
    next := by
      obtain ⟨path', hpath'⟩ := tail_of_last hsegments hput (lastOf_of_accepted haccepts)
      exact ⟨path', hpath'⟩ }

/-! ## A digest for runs on fixed inputs -/

/-- A digest that is known of some texts, and tells all others apart. -/
def tableDigest (table : List (List Char × String)) (text : List Char) : String :=
  match table.find? (fun t => t.1 = text) with
  | some t => t.2
  | none => String.ofList ('#' :: text)

theorem tableDigest_injective {table : List (List Char × String)}
    (hnodup : (table.map Prod.snd).Nodup) (hhex : ∀ t ∈ table, t.2.toList.head? ≠ some '#') :
    Function.Injective (tableDigest table) := by
  have hmem : ∀ {text : List Char} {t : List Char × String},
      table.find? (fun t => t.1 = text) = some t → t ∈ table ∧ t.1 = text := fun {text} _ h =>
    ⟨List.mem_of_find?_eq_some h,
      of_decide_eq_true (List.find?_some (p := fun t : List Char × String => t.1 = text) h)⟩
  intro a b hab
  unfold tableDigest at hab
  cases ha : table.find? (fun t => t.1 = a) with
  | some t =>
    cases hb : table.find? (fun t => t.1 = b) with
    | some u =>
      simp only [ha, hb] at hab
      obtain rfl := List.inj_on_of_nodup_map hnodup (hmem ha).1 (hmem hb).1 hab
      exact (hmem ha).2.symm.trans (hmem hb).2
    | none =>
      simp only [ha, hb] at hab
      exact absurd (by rw [hab, String.toList_ofList]; rfl) (hhex t (hmem ha).1)
  | none =>
    cases hb : table.find? (fun t => t.1 = b) with
    | some u =>
      simp only [ha, hb] at hab
      exact absurd (by rw [← hab, String.toList_ofList]; rfl) (hhex u (hmem hb).1)
    | none =>
      simp only [ha, hb] at hab
      exact (List.cons.inj (String.ofList_injective hab)).2

/-- An event at a fixed time. -/
def sampleEvent (action : String) (detail : List (Key Empty × Value Empty)) : Event Empty where
  ts := str "2026-01-01T00:00:00+00:00"
  actor := str "system"
  action := str action
  target := none
  outcome := str "success"
  detail := detail

end Cerid.Audit
