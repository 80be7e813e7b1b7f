import Cerid.Audit.Walk

/-!
# Records that were read

What passes the walk binds the record and the hash before it (`accepts_binding`): the digest
is of everything but the hash, and the hash is the digest.
-/

namespace Cerid.Audit

open Document Chain Value

variable {F : Type} [Floats F] {env : Env F}

/-- What a line of a segment reads as. -/
def Read (r : Option (Value F)) : Prop := ∃ w : Option (Doc F), r = w.map decode

omit [Floats F] in
theorem read_records (d : Dir F) : ∀ r ∈ records d, Read r := by
  intro r hr
  rw [records_eq] at hr
  obtain ⟨line, _, rfl⟩ := List.mem_map.mp hr
  cases line with
  | doc w => exact ⟨some w, rfl⟩
  | blank spaces => exact ⟨none, rfl⟩
  | garbled => exact ⟨none, rfl⟩

/-- What passes. -/
theorem accepts_some {n : Nat} {prev h : Str} {r : Option (Value F)}
    (hr : accepts env n prev r = some h) :
    ∃ entry, r = some (.dict entry) ∧ isNumber (get? entry "seq") n = true ∧
      isText (get? entry "prev") prev = true ∧ get? entry "hash" = some (.str h) ∧
      computeHash env entry = some h := by
  rw [accepts] at hr
  split at hr
  · next stored hcheck =>
    obtain rfl := Option.some.inj hr
    unfold checkRecord at hcheck
    split at hcheck
    · cases hcheck
    · next entry =>
      split at hcheck
      · cases hcheck
      · next hseq =>
        split at hcheck
        · cases hcheck
        · next hprev =>
          split at hcheck
          · next s hhash =>
            split at hcheck
            · next hcompute =>
              obtain rfl := Except.ok.inj hcheck
              refine ⟨entry, rfl, ?_, ?_, hhash, hcompute⟩
              · simpa using hseq
              · simpa using hprev
            · cases hcheck
          · cases hcheck
    · cases hcheck
  · cases hr

theorem accepts_eq {n : Nat} {prev h : Str} {entry : Entry F}
    (hseq : isNumber (get? entry "seq") n = true) (hprev : isText (get? entry "prev") prev = true)
    (hhash : get? entry "hash" = some (.str h)) (hcompute : computeHash env entry = some h) :
    accepts env n prev (some (.dict entry)) = some h := by
  simp [accepts, checkRecord, hseq, hprev, hhash, hcompute]

theorem isNumber_inj {v : Option (Value F)} {n m : Nat} (hn : isNumber v n = true)
    (hm : isNumber v m = true) : n = m := by
  unfold isNumber at hn hm
  split at hn
  · have hn := of_decide_eq_true hn
    have hm := of_decide_eq_true hm
    omega
  · have hn := of_decide_eq_true hn
    have hm := of_decide_eq_true hm
    omega
  · have heq := (of_decide_eq_true hn).symm.trans (of_decide_eq_true hm)
    exact_mod_cast heq
  · cases hn

omit [Floats F] in
theorem isText_iff {v : Option (Value F)} {s : Str} : isText v s = true ↔ v = some (.str s) := by
  unfold isText
  split
  · next t => rw [decide_eq_true_eq, Option.some.injEq, Value.str.injEq]
  · next h => exact iff_of_false (by decide) (fun heq => h s heq)

/-! ## Binding -/

def withoutHash {α : Type} (members : List (Str × α)) : List (Str × α) :=
  members.filter (fun m => m.1 ≠ str "hash")

omit [Floats F] in
theorem strKey_injective {α : Type} : Function.Injective (@strKey F α) := by
  rintro ⟨k, v⟩ ⟨k', v'⟩ h
  obtain ⟨hk, hv⟩ := Prod.mk.inj h
  exact Prod.ext (Key.str.inj hk) hv

omit [Floats F] in
theorem filter_strKey {α : Type} (members : List (Str × α)) :
    (members.map (strKey (F := F))).filter (fun m => !Key.is "hash" m.1) =
      (withoutHash members).map strKey := by
  rw [withoutHash, List.filter_map]
  refine congrArg _ (List.filter_congr (fun m _ => ?_))
  show (!decide (m.1 = str "hash")) = decide (m.1 ≠ str "hash")
  rw [decide_not]

omit [Floats F] in
theorem get?_strKey (members : List (Str × Value F)) (name : String) :
    get? (members.map strKey) name =
      (members.find? (fun m => m.1 = str name)).map Prod.snd := by
  rw [get?, List.find?_map, Option.map_map]
  rfl

omit [Floats F] in
theorem settled_iff (members : List (Str × Doc F)) :
    Doc.joinedMembers members = members ↔
      ∀ m ∈ members, (joined m.1, m.2.joined) = m := by
  have hid : members = members.map id := (List.map_id members).symm
  rw [Doc.joinedMembers_eq_map]
  conv_lhs => rhs; rw [hid]
  exact List.map_inj_left

omit [Floats F] in
theorem withoutHash_decode {members : List (Str × Doc F)}
    (hj : Doc.joinedMembers members = members) :
    withoutHash (decodeMembers members) = decodeMembers (withoutHash members) := by
  rw [decodeMembers_eq_map, decodeMembers_eq_map, withoutHash, withoutHash, List.filter_map]
  refine congrArg _ (List.filter_congr (fun m hm => ?_))
  show decide (joined m.1 ≠ str "hash") = decide (m.1 ≠ str "hash")
  have hkey : joined m.1 = m.1 := congrArg Prod.fst ((settled_iff members).mp hj m hm)
  rw [hkey]

omit [Floats F] in
/-- The value that is hashed is one that reads back. -/
theorem decode_withoutHash {members : List (Str × Doc F)}
    (hj : Doc.joinedMembers members = members)
    (hasc : (members.map Prod.fst).Pairwise (· < ·)) :
    decode (.obj (withoutHash members)) =
      .dict (((decodeMembers members).map strKey).filter (fun m => !Key.is "hash" m.1)) := by
  have hsub : (withoutHash members).Sublist members := List.filter_sublist
  have hj' : Doc.joinedMembers (withoutHash members) = withoutHash members :=
    (settled_iff _).mpr (fun m hm => (settled_iff _).mp hj m (hsub.subset hm))
  rw [filter_strKey, withoutHash_decode hj, decode_obj_of_ascending]
  rw [hj']
  exact hasc.sublist (hsub.map Prod.fst)

/-- The text that is hashed of a record that was read. -/
theorem canonicalBytes_read {members : List (Str × Doc F)}
    (hj : Doc.joinedMembers members = members)
    (hasc : (members.map Prod.fst).Pairwise (· < ·)) :
    ∃ w', Reencoded (.obj (withoutHash members)) w' ∧
      canonicalBytes ((decodeMembers members).map strKey) = some w'.write := by
  obtain ⟨w', hw'⟩ := exists_reencoded (.obj (withoutHash members))
  refine ⟨w', hw', ?_⟩
  rw [canonicalBytes, ← decode_withoutHash hj hasc, hw'.encode]
  rfl

theorem eq_of_withoutHash {α : Type} {a b : List (Str × α)} {v : α}
    (ha : (a.map Prod.fst).Pairwise (· < ·)) (hb : (b.map Prod.fst).Pairwise (· < ·))
    (hva : (str "hash", v) ∈ a) (hvb : (str "hash", v) ∈ b)
    (h : withoutHash a = withoutHash b) : a = b := by
  have hperm : ∀ c : List (Str × α), (c.map Prod.fst).Pairwise (· < ·) → (str "hash", v) ∈ c →
      ((str "hash", v) :: withoutHash c).Perm c := by
    intro c hc hmem
    refine (List.perm_ext_iff_of_nodup ?_ ?_).mpr (fun m => ?_)
    · refine List.nodup_cons.mpr ⟨fun hm => ?_, ?_⟩
      · exact absurd rfl (of_decide_eq_true (List.mem_filter.mp hm).2)
      · exact (List.Nodup.of_map Prod.fst (hc.imp ne_of_lt)).filter _
    · exact List.Nodup.of_map Prod.fst (hc.imp ne_of_lt)
    · rw [List.mem_cons, withoutHash, List.mem_filter, decide_eq_true_eq]
      constructor
      · rintro (rfl | ⟨hm, _⟩)
        · exact hmem
        · exact hm
      · intro hm
        by_cases hk : m.1 = str "hash"
        · exact Or.inl (List.inj_on_of_nodup_map (hc.imp ne_of_lt) hm hmem hk)
        · exact Or.inr ⟨hm, hk⟩
  have hab : a.Perm b := (hperm a ha hva).symm.trans (h ▸ hperm b hb hvb)
  have hasymm : ∀ x y : Str × α, x ∈ a → y ∈ b → x.1 < y.1 → y.1 < x.1 → x = y :=
    fun x y _ _ hxy hyx => absurd hyx (not_lt_of_gt hxy)
  exact hab.eq_of_pairwise hasymm (List.pairwise_map.mp ha) (List.pairwise_map.mp hb)

omit [Floats F] in
theorem mem_of_get? {members : List (Str × Value F)} {name : String} {v : Value F}
    (h : get? (members.map strKey) name = some v) : (str name, v) ∈ members := by
  rw [get?_strKey] at h
  obtain ⟨m, hm, rfl⟩ := Option.map_eq_some_iff.mp h
  have hk : m.1 = str name :=
    of_decide_eq_true (List.find?_some (p := fun m : Str × Value F => m.1 = str name) hm)
  exact hk ▸ List.mem_of_find?_eq_some hm

/-- With a digest that tells texts apart, the hash of a record tells the record and the hash
before it. -/
theorem accepts_binding (hinj : Function.Injective env.sha256) :
    Binding (accepts env) Read where
  place := by
    intro n m p q r h i hn hm
    obtain ⟨entry, rfl, hseq, _, hhash, _⟩ := accepts_some hn
    obtain ⟨entry', heq, hseq', _, hhash', _⟩ := accepts_some hm
    obtain rfl := Value.dict.inj (Option.some.inj heq)
    exact ⟨isNumber_inj hseq hseq', Value.str.inj (Option.some.inj (hhash.symm.trans hhash'))⟩
  digest := by
    rintro n m p q r s h ⟨w, hw⟩ ⟨v, hv⟩ hr hs
    obtain ⟨entry, rfl, _, hprev, hhash, hcompute⟩ := accepts_some hr
    obtain ⟨entry', rfl, _, hprev', hhash', hcompute'⟩ := accepts_some hs
    obtain ⟨_, _, hdict⟩ := Option.map_eq_some_iff.mp hw.symm
    obtain ⟨_, _, hdict'⟩ := Option.map_eq_some_iff.mp hv.symm
    obtain ⟨ms, hj, hasc, rfl⟩ := dict_of_decode hdict
    obtain ⟨ms', hj', hasc', rfl⟩ := dict_of_decode hdict'
    obtain ⟨b, hb, hbytes⟩ := canonicalBytes_read hj hasc
    obtain ⟨b', hb', hbytes'⟩ := canonicalBytes_read hj' hasc'
    rw [computeHash, hbytes] at hcompute
    rw [computeHash, hbytes'] at hcompute'
    have htext : b.write = b'.write :=
      hinj (str_injective (Option.some.inj (hcompute.trans hcompute'.symm)))
    have hbody := decode_of_write hb hb' htext
    rw [decode_withoutHash hj hasc, decode_withoutHash hj' hasc', filter_strKey, filter_strKey,
      Value.dict.injEq] at hbody
    have hitems : decodeMembers ms = decodeMembers ms' := by
      refine eq_of_withoutHash ?_ ?_ (mem_of_get? hhash) (mem_of_get? hhash')
        (List.map_injective_iff.mpr strKey_injective hbody)
      · rwa [keys_decodeMembers, hj]
      · rwa [keys_decodeMembers, hj']
    rw [hitems] at hprev ⊢
    have htexts := (isText_iff.mp hprev).symm.trans (isText_iff.mp hprev')
    exact ⟨Value.str.inj (Option.some.inj htexts), rfl⟩

end Cerid.Audit
