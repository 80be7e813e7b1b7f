import Cerid.Audit.Sound

/-!
# Tampering

A log whose segments were edited is found out for as long as its records, as they are now,
are no chain, or `record` cannot go on from them.  A chain that `record` goes on from is
found out only until it does: the head is then written from what was found in the file
(`noticed_iff`).  Such a chain is a beginning of the log and records that were made up after
it (`tampering_noticed_iff`).
-/

namespace Cerid.Audit

open Document Chain
open Value (decode encode)

variable {F : Type} [Floats F] {env : Env F}

/-! ## Being found out -/

def recordAll (env : Env F) (d : Dir F) (events : List (Event F)) : Dir F :=
  events.foldl (fun d e => (record env d e).1) d

/-- `record` goes on after the last record. -/
def Continues (env : Env F) (d : Dir F) : Prop :=
  ∃ seq prev path, tail env d = .ok (seq, prev, path) ∧ LandsLast d path

/-- The records are a chain that ends where the head says, or that `record` goes on from. -/
def Unnoticed (env : Env F) (d : Dir F) : Prop :=
  ∃ s, Unbroken env d s ∧ (HeadAt d.head s ∨ Continues env d)

theorem unnoticed_of_ok {d : Dir F} {more : List (Event F)}
    (h : (verify env (recordAll env d more)).ok = true) : Unnoticed env d := by
  induction more generalizing d with
  | nil =>
    obtain ⟨s, hs, hhead⟩ := (verify_ok_iff d).mp h
    exact ⟨s, hs, Or.inl hhead⟩
  | cons e rest ih =>
    have hnext : Unnoticed env (record env d e).1 := ih h
    rcases record_cases env d e with heq | ⟨seq, prev, path, detail, ht, _, heq⟩
    · rwa [heq] at hnext
    · obtain ⟨t, hunbroken, _⟩ := heq ▸ hnext
      obtain ⟨hlands, s, hs⟩ := unbroken_of_appended ht hunbroken
      exact ⟨s, hs, Or.inr ⟨seq, prev, path, ht, hlands⟩⟩

/-- After one more record the head says what the file says. -/
theorem ok_of_continues {d : Dir F} {s : Nat × Str} (hs : Unbroken env d s)
    (h : Continues env d) : (verify env (recordAll env d [plainEvent])).ok = true := by
  obtain ⟨seq, prev, path, ht, hlands⟩ := h
  obtain ⟨rfl, rfl⟩ := tail_of_unbroken hs ht
  have hdetail : encode (.dict (plainEvent : Event F).detail) = some (.obj []) := rfl
  have hrecord := record_ok plainEvent_action ht hdetail
  have hasc : (Doc.obj [] : Doc F).joined.Ascending := ⟨List.Pairwise.nil, trivial⟩
  have hunbroken := unbroken_appended (e := plainEvent) hs hlands hasc
  refine (verify_ok_iff _).mpr ⟨(s.1 + 1, digestOf env plainEvent s.1 s.2 (.obj [])), ?_, ?_⟩
  · show Unbroken env (record env d plainEvent).1 _
    rw [hrecord]
    exact hunbroken
  · show HeadAt (record env d plainEvent).1.head _
    rw [hrecord]
    refine ⟨?_, rfl⟩
    push_cast
    omega

/-- A log is found out now and later unless it is a chain that goes on. -/
theorem noticed_iff (d : Dir F) :
    (∀ more, (verify env (recordAll env d more)).ok = false) ↔ ¬ Unnoticed env d := by
  constructor
  · rintro h ⟨s, hs, hhead | hcontinues⟩
    · have hok : (verify env (recordAll env d [])).ok = true := (verify_ok_iff d).mpr ⟨s, hs, hhead⟩
      exact absurd (hok.symm.trans (h [])) (by decide)
    · exact absurd ((ok_of_continues hs hcontinues).symm.trans (h [plainEvent])) (by decide)
  · intro h more
    by_contra hok
    exact h (unnoticed_of_ok (Bool.not_eq_false _ ▸ hok))

/-! ## What is not found out -/

/-- The records are a beginning of the log, and after it records that were not in the log
but were chained and hashed. -/
def MadeUp (env : Env F) (log d : Dir F) : Prop :=
  ∃ kept fresh s t, records d = kept ++ fresh ∧ kept <+: records log ∧
    (∀ r ∈ fresh, r ∉ records log) ∧ walk (accepts env) 0 GENESIS kept = some s ∧
    walk (accepts env) s.1 s.2 fresh = some t

def CarriesOwnHash (env : Env F) (r : Option (Value F)) : Prop :=
  ∃ entry h, r = some (.dict entry) ∧ get? entry "hash" = some (.str h) ∧
    computeHash env entry = some h

/-- Nothing else ends where the head says. -/
theorem not_headAt (hinj : Function.Injective env.sha256) {log d : Dir F}
    (hok : (verify env log).ok = true) (hhead : d.head = log.head)
    (hedit : records d ≠ records log) {s : Nat × Str} (hs : Unbroken env d s) :
    ¬ HeadAt d.head s := by
  intro hat
  obtain ⟨t, ht, hat'⟩ := (verify_ok_iff log).mp hok
  rw [hhead] at hat
  have hlen : s.1 = t.1 ∧ (s.1 ≠ 0 → s.2 = t.2) := by
    cases h : log.head with
    | none =>
      rw [h] at hat hat'
      exact ⟨hat.trans hat'.symm, fun hne => absurd hat hne⟩
    | some head =>
      rw [h] at hat hat'
      exact ⟨by have := hat.1.symm.trans hat'.1; omega, fun _ => hat.2.symm.trans hat'.2⟩
  have hlength : (records d).length = (records log).length := by
    rw [← unbroken_length hs, ← unbroken_length ht, hlen.1]
  by_cases hzero : s.1 = 0
  · refine hedit ?_
    rw [unbroken_length hs] at hzero
    rw [List.length_eq_zero_iff.mp hzero, List.length_eq_zero_iff.mp (hlength.symm.trans hzero)]
  · exact hedit (walk_binds (accepts_binding hinj) (read_records d) (read_records log) hs ht hlength
      (hlen.2 hzero)).1

theorem unnoticed_iff (hinj : Function.Injective env.sha256) {log d : Dir F}
    (hok : (verify env log).ok = true) (hhead : d.head = log.head)
    (hedit : records d ≠ records log) :
    Unnoticed env d ↔ Continues env d ∧ MadeUp env log d := by
  constructor
  · rintro ⟨t, ht, hat | hcontinues⟩
    · exact absurd hat (not_headAt hinj hok hhead hedit ht)
    · refine ⟨hcontinues, ?_⟩
      obtain ⟨u, hu, _⟩ := (verify_ok_iff log).mp hok
      obtain ⟨kept, fresh, heq, hkept, hfresh⟩ :=
        walk_diverge (accepts_binding hinj) (read_records d) (read_records log) ht hu
      rw [Unbroken, heq] at ht
      obtain ⟨s, hs, hrest⟩ := walk_left ht
      exact ⟨kept, fresh, s, t, heq, hkept, hfresh, hs, hrest⟩
  · rintro ⟨hcontinues, kept, fresh, s, t, heq, _, _, hs, hrest⟩
    refine ⟨t, ?_, Or.inr hcontinues⟩
    rw [Unbroken, heq, walk_append, hs]
    exact hrest

/-- Where no hash was made up, what is left is a beginning of the log. -/
theorem madeUp_iff_prefix {log d : Dir F} (hok : (verify env log).ok = true)
    (hforged : ∀ r ∈ records d, CarriesOwnHash env r → r ∈ records log) :
    MadeUp env log d ↔ records d <+: records log := by
  constructor
  · rintro ⟨kept, fresh, s, t, heq, hkept, hfresh, _, hrest⟩
    cases fresh with
    | nil => rwa [heq, List.append_nil]
    | cons r rest =>
      obtain ⟨h, hr, _⟩ := walk_cons hrest
      obtain ⟨entry, rfl, _, _, hhash, hcompute⟩ := accepts_some hr
      refine absurd (hforged _ ?_ ⟨entry, h, rfl, hhash, hcompute⟩) (hfresh _ List.mem_cons_self)
      rw [heq]
      exact List.mem_append_right _ List.mem_cons_self
  · rintro ⟨rest, hrest⟩
    obtain ⟨u, hu, _⟩ := (verify_ok_iff log).mp hok
    rw [Unbroken, ← hrest] at hu
    obtain ⟨s, hs, _⟩ := walk_left hu
    exact ⟨records d, [], s, s, (List.append_nil _).symm, ⟨rest, hrest⟩,
      fun r hr => absurd hr List.not_mem_nil, hs, rfl⟩

/-- An edit of a log that changes its records is found out, at once and however the log
grows, exactly when it does not leave a chain that `record` goes on from: a beginning of the
log, or one with records made up after it. -/
theorem tampering_noticed_iff (hinj : Function.Injective env.sha256) (events : List (Event F))
    (d : Dir F) (hhead : d.head = (recordAll env Dir.empty events).head)
    (hedit : records d ≠ records (recordAll env Dir.empty events)) :
    ((∀ more, (verify env (recordAll env d more)).ok = false) ↔ ¬ Unnoticed env d) ∧
      ((verify env (recordAll env Dir.empty events)).ok = true →
        (Unnoticed env d ↔ Continues env d ∧ MadeUp env (recordAll env Dir.empty events) d) ∧
        ((∀ r ∈ records d, CarriesOwnHash env r →
            r ∈ records (recordAll env Dir.empty events)) →
          (Unnoticed env d ↔
            Continues env d ∧ records d <+: records (recordAll env Dir.empty events)))) := by
  refine ⟨noticed_iff d, fun hok => ⟨unnoticed_iff hinj hok hhead hedit, fun hforged => ?_⟩⟩
  rw [unnoticed_iff hinj hok hhead hedit, madeUp_iff_prefix hok hforged]

def firstDigest : String := "1020a9c88a8993c9903785508db05d51564fcc9e261ff2fed744d1642e03b3c3"

def sampleText (seq : Int) (action prev : String) : List Char :=
  (Doc.obj (bodyMembers (sampleEvent action []) seq (str prev) (.obj []))).write

def sampleDigests : List (List Char × String) := [
  (sampleText 0 "license.activate" "", firstDigest),
  (sampleText 1 "artifact.delete" firstDigest,
    "2042397c5bd6973dab689fba661d6103208716671432845a2855b198b7c9bca9"),
  (sampleText 1 "license.activate" firstDigest,
    "69e2631e54ceea4c0bb927bc95d887c15b9d45455c26531e6221460e66128a16")]

def sampleEnv : Env Empty where
  sha256 := tableDigest sampleDigests
  intOfStr := fun _ => none
  strOf := fun _ => []
  maxSegmentBytes := 33554432

theorem sampleEnv_injective : Function.Injective sampleEnv.sha256 :=
  tableDigest_injective (by decide +kernel) (by decide +kernel)

def activated : Dir Empty :=
  recordAll sampleEnv Dir.empty [sampleEvent "license.activate" []]

/-- The log of two events. -/
def deleted : Dir Empty :=
  recordAll sampleEnv Dir.empty [sampleEvent "license.activate" [], sampleEvent "artifact.delete" []]

/-- The second record was cut off. -/
def cutOff : Dir Empty := { activated with head := deleted.head }

theorem sound_activated : ∃ s, Sound sampleEnv activated s := by
  have hrecord : record sampleEnv Dir.empty (sampleEvent "license.activate" []) = _ :=
    record_ok (str_ne_nil (by decide)) rfl rfl
  have hactivated : activated = appended sampleEnv Dir.empty (sampleEvent "license.activate" []) 0
      GENESIS (segmentPath 0) (.obj []) := congrArg Prod.fst hrecord
  rw [hactivated]
  exact ⟨_, sound_empty.appended (fun m hm => by cases hm) ⟨List.Pairwise.nil, trivial⟩⟩

theorem segments_activated : ∃ seg, segments activated = [(segmentPath 0, seg)] := by
  have hnames : (segments activated).map Prod.fst = [segmentPath 0] := by decide +kernel
  obtain ⟨m, hm, hname⟩ := List.map_eq_singleton_iff.mp hnames
  exact ⟨m.2, by rw [hm, ← hname]⟩

/-- The next record goes where the first one is, or into a later segment. -/
theorem le_tail_activated {seq : Int} {prev path : Str}
    (h : tail sampleEnv activated = .ok (seq, prev, path)) :
    ∀ m ∈ segments activated, m.1 ≤ path := by
  obtain ⟨seg, hseg⟩ := segments_activated
  have hlater : segmentPath 0 ≤ segmentPath 1 := by decide +kernel
  have hpath : path = segmentPath 0 ∨ path = segmentPath 1 := by
    simp only [tail, hseg, List.getLast?_singleton] at h
    cases hlast : seg.records.getLast? with
    | none =>
      simp only [hlast, List.length_singleton, if_true, Except.ok.injEq, Prod.mk.injEq] at h
      exact .inl h.2.2.symm
    | some last =>
      cases hchain : lastOf sampleEnv last with
      | none => simp [hlast, hchain] at h
      | some t =>
        simp only [hlast, hchain, List.length_singleton, Except.ok.injEq, Prod.mk.injEq] at h
        rw [← h.2.2]
        split
        · exact .inr rfl
        · exact .inl rfl
  intro m hm
  rw [hseg, List.mem_singleton] at hm
  subst hm
  rcases hpath with rfl | rfl
  · exact le_refl _
  · exact hlater

omit [Floats F] in
theorem head_setHead (d : Dir F) (head : Option (Int × Str)) :
    ({ d with head := head } : Dir F).head = head := rfl

omit [Floats F] in
theorem records_setHead (d : Dir F) (head : Option (Int × Str)) :
    records { d with head := head } = records d := rfl

/-- The head has no part in going on. -/
theorem continues_setHead {d : Dir F} {s : Nat × Str} (h : Sound env d s)
    (hlast : ∀ seq prev path, tail env d = .ok (seq, prev, path) → ∀ m ∈ segments d, m.1 ≤ path)
    (head : Option (Int × Str)) :
    Unbroken env { d with head := head } s ∧ Continues env { d with head := head } := by
  obtain ⟨path, ht⟩ := h.next
  exact ⟨h.unbroken, _, _, path, ht, hlast _ _ path ht, h.stands path⟩

theorem deleted_record :
    deleted = (record sampleEnv activated (sampleEvent "artifact.delete" [])).1 := by
  rw [deleted, activated]
  simp only [recordAll, List.foldl_cons, List.foldl_nil]

/-- The second record comes after the first. -/
theorem records_deleted : ∃ r, records deleted = records cutOff ++ [r] := by
  obtain ⟨s, hs⟩ := sound_activated
  obtain ⟨path, ht⟩ := hs.next
  have hlast : ∀ m ∈ segments activated, m.1 ≤ path := le_tail_activated ht
  have haction : str "artifact.delete" ≠ [] := str_ne_nil (by decide)
  have hdetail : encode (.dict (sampleEvent "artifact.delete" []).detail) = some (.obj []) := rfl
  rw [deleted_record, cutOff, records_setHead activated deleted.head]
  exact hs.records_record haction ht hdetail hlast

theorem deleted_eq : recordAll sampleEnv Dir.empty
    [sampleEvent "license.activate" [], sampleEvent "artifact.delete" []] = deleted := by
  rw [deleted]

theorem cutOff_head : cutOff.head = deleted.head := head_setHead activated deleted.head

theorem cutOff_ne : records cutOff ≠ records deleted := by
  obtain ⟨r, hr⟩ := records_deleted
  intro h
  have hlen := congrArg List.length (h.trans hr)
  rw [List.length_append, List.length_singleton] at hlen
  omega

/-- The last of two records is cut off: what that means, at this input. -/
theorem tampering_noticed_cutOff :
    ((∀ more, (verify sampleEnv (recordAll sampleEnv cutOff more)).ok = false) ↔
        ¬ Unnoticed sampleEnv cutOff) ∧
      ((verify sampleEnv deleted).ok = true →
        (Unnoticed sampleEnv cutOff ↔
          Continues sampleEnv cutOff ∧ MadeUp sampleEnv deleted cutOff) ∧
        ((∀ r ∈ records cutOff, CarriesOwnHash sampleEnv r → r ∈ records deleted) →
          (Unnoticed sampleEnv cutOff ↔
            Continues sampleEnv cutOff ∧ records cutOff <+: records deleted))) := by
  have h := tampering_noticed_iff sampleEnv_injective
    [sampleEvent "license.activate" [], sampleEvent "artifact.delete" []] cutOff
  rw [deleted_eq] at h
  exact h cutOff_head cutOff_ne

/-- A log of two records whose last one is cut off fails, until one more event is recorded. -/
theorem cut_unnoticed :
    ¬ (∀ (env : Env Empty) (events : List (Event Empty)) (d : Dir Empty),
      Function.Injective env.sha256 → d.head = (recordAll env Dir.empty events).head →
      records d ≠ records (recordAll env Dir.empty events) →
      (∀ r ∈ records d, CarriesOwnHash env r → r ∈ records (recordAll env Dir.empty events)) →
      ∀ more, (verify env (recordAll env d more)).ok = false) := by
  intro h
  obtain ⟨r, hr⟩ := records_deleted
  have hfails := h sampleEnv
    [sampleEvent "license.activate" [], sampleEvent "artifact.delete" []] cutOff sampleEnv_injective
  rw [deleted_eq] at hfails
  have hfails := hfails cutOff_head cutOff_ne
    (fun s hs _ => hr.symm ▸ List.mem_append_left [r] hs) [plainEvent]
  obtain ⟨s, hs⟩ := sound_activated
  obtain ⟨hunbroken, hcontinues⟩ :=
    continues_setHead hs (fun _ _ _ ht => le_tail_activated ht) deleted.head
  exact absurd ((ok_of_continues hunbroken hcontinues).symm.trans hfails) (by decide)

end Cerid.Audit
