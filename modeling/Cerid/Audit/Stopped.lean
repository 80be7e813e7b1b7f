import Cerid.Audit.Sound
import Cerid.Lib.Run

/-!
# Calls that stop

A call of `record` completes, or stops by a crash or an I/O error before it opens the
segment, after so many characters of its line are in the file, or between the line and the
head.  The log verifies after every call exactly while every call that gets to the file
lands last with a detail that reads back as it was, or stops without touching the file
(`verifies_iff`).
-/

namespace Cerid.Audit

open Document Chain
open Value (decode encode)

variable {F : Type} [Floats F] {env : Env F}

/-- Where a call stops.  `cut k`: the segment was opened, `k` characters of the line and its
end are in it, and the head was not written. -/
inductive Stop where
  | before
  | cut (k : Nat)

/-- The log, and the records whose append completed. -/
structure Journal (F : Type) where
  dir : Dir F
  done : List (Doc F)

abbrev Call (F : Type) := Event F × Option Stop

def attempt (env : Env F) (j : Journal F) (call : Call F) : Journal F :=
  match call.2 with
  | some .before => j
  | none =>
    match prepare env j.dir call.1 with
    | .error _ => j
    | .ok p => { dir := (record env j.dir call.1).1, done := j.done ++ [p.doc] }
  | some (.cut k) =>
    match prepare env j.dir call.1 with
    | .error _ => j
    | .ok p =>
      { dir := j.dir.append p.path p.doc k
        done := if k < p.line then j.done else j.done ++ [p.doc] }

def Journal.start : Journal F := { dir := Dir.empty, done := [] }

/-- What is promised of a log that nobody edited. -/
structure Good (env : Env F) (j : Journal F) : Prop where
  verified : verify env j.dir = .pass j.done.length
  recorded : records j.dir = j.done.map (fun w => some (decode w))
  consecutive : ∀ before r after, records j.dir = before ++ r :: after →
    ∃ entry, r = some (.dict entry) ∧ isNumber (get? entry "seq") before.length = true
  goesOn : ∃ s, Unbroken env j.dir s ∧
    ∀ e : Event F, e.action ≠ [] → (encode (.dict e.detail)).isSome = true →
      ∃ entry, (record env j.dir e).2 = .ok entry ∧ get? entry "seq" = some (.int s.1) ∧
        get? entry "prev" = some (.str s.2)

/-- The segment is the last by name. -/
def Last (d : Dir F) (path : Str) : Prop := ∀ m ∈ segments d, m.1 ≤ path

/-- A call that leaves the log as promised: it does not get to a file; or it completes, its
record goes to the last segment by name and the keys of its detail ascend as texts; or it
stops before the first character, and does not leave a new last segment empty unless it is
the first. -/
def Safe (env : Env F) (j : Journal F) (call : Call F) : Prop :=
  ∀ seq prev path detail, call.1.action ≠ [] → tail env j.dir = .ok (seq, prev, path) →
    encode (.dict call.1.detail) = some detail →
    match call.2 with
    | none => Last j.dir path ∧ detail.joined.Ascending
    | some .before => True
    | some (.cut 0) =>
      (j.dir.files.get? path).isSome = true ∨ segments j.dir = [] ∨ ¬ Last j.dir path
    | some (.cut (_ + 1)) => False

/-! ## Sound journals -/

structure Kept (env : Env F) (j : Journal F) (s : Nat × Str) : Prop where
  sound : Sound env j.dir s
  recorded : records j.dir = j.done.map (fun w => some (decode w))

theorem Kept.good {j : Journal F} {s : Nat × Str} (h : Kept env j s) : Good env j where
  verified := by
    have hlen : (records j.dir).length = j.done.length := by rw [h.recorded, List.length_map]
    rw [verify_pass h.sound.unbroken h.sound.head, hlen]
  recorded := h.recorded
  consecutive := by
    intro before r after heq
    have hs := h.sound.unbroken
    rw [Unbroken, heq] at hs
    obtain ⟨t, i, _, hplace, hi, _⟩ := walk_check hs
    obtain ⟨entry, hentry, hseq, _⟩ := accepts_some hi
    rw [hplace, Nat.zero_add] at hseq
    exact ⟨entry, hentry, hseq⟩
  goesOn := by
    refine ⟨s, h.sound.unbroken, fun e haction hencode => ?_⟩
    obtain ⟨detail, hd⟩ := Option.isSome_iff_exists.mp hencode
    obtain ⟨path, hpath⟩ := h.sound.next
    exact ⟨_, congrArg Prod.snd (record_ok haction hpath hd), rfl, rfl⟩

/-- A call that was made ready. -/
theorem prepare_ok {d : Dir F} {e : Event F} {seq : Int} {prev path : Str} {detail : Doc F}
    (haction : e.action ≠ []) (ht : tail env d = .ok (seq, prev, path))
    (hd : encode (.dict e.detail) = some detail) :
    prepare env d e = .ok (prepared env e seq prev path detail) := by
  rw [prepare_eq, if_neg haction, ht]
  simp only [hd]

/-- A call that does not get to a file. -/
theorem attempt_error {j : Journal F} {call : Call F} {error : Error}
    (h : prepare env j.dir call.1 = .error error) : attempt env j call = j := by
  unfold attempt
  rw [h]
  split <;> rfl

theorem prepare_cases (env : Env F) (d : Dir F) (e : Event F) :
    (∃ error, prepare env d e = .error error) ∨
      ∃ seq prev path detail, e.action ≠ [] ∧ tail env d = .ok (seq, prev, path) ∧
        encode (.dict e.detail) = some detail := by
  by_cases haction : e.action = []
  · exact Or.inl ⟨_, by rw [prepare_eq, if_pos haction]⟩
  cases ht : tail env d with
  | error error => exact Or.inl ⟨error, by rw [prepare_eq, if_neg haction, ht]⟩
  | ok t =>
    obtain ⟨seq, prev, path⟩ := t
    cases hd : encode (.dict e.detail) with
    | none =>
      refine Or.inl ⟨.unserialisable, ?_⟩
      rw [prepare_eq, if_neg haction, ht]
      simp only [hd]
    | some detail => exact Or.inr ⟨seq, prev, path, detail, haction, rfl, rfl⟩

theorem attempt_complete {j : Journal F} {e : Event F} {seq : Int} {prev path : Str}
    {detail : Doc F} (haction : e.action ≠ []) (ht : tail env j.dir = .ok (seq, prev, path))
    (hd : encode (.dict e.detail) = some detail) :
    attempt env j (e, none) =
      { dir := appended env j.dir e seq prev path detail
        done := j.done ++ [(prepared env e seq prev path detail).doc] } := by
  rw [attempt]
  simp only [prepare_ok haction ht hd, record_ok haction ht hd]

theorem attempt_cut {j : Journal F} {e : Event F} {seq : Int} {prev path : Str} {detail : Doc F}
    (k : Nat) (haction : e.action ≠ []) (ht : tail env j.dir = .ok (seq, prev, path))
    (hd : encode (.dict e.detail) = some detail) :
    (attempt env j (e, some (.cut k))).dir =
      j.dir.append path (prepared env e seq prev path detail).doc k := by
  rw [attempt]
  simp only [prepare_ok haction ht hd]
  rfl

/-! ## A segment that was opened and not written to -/

/-- Opening a segment that is there changes nothing. -/
theorem append_zero {d : Dir F} {path : Str} {seg : Segment F} (h : d.files.get? path = some seg)
    (w : Doc F) : d.append path w 0 = d := by
  rw [Dir.append, h]
  exact congrArg (fun files => { d with files := files }) (Dict.set_of_get? h)

theorem segments_opened {d : Dir F} {path : Str} (h : d.files.get? path = none) (w : Doc F) :
    segments (d.append path w 0) = before d path ++ [(path, Segment.empty)] ++ after d path := by
  rw [segments_append, h]
  rfl

theorem records_opened {d : Dir F} {path : Str} (w : Doc F) :
    records (d.append path w 0) = records d := by
  rw [records_append, records_split d path]
  rfl

/-- The next call goes on as before where the new segment is the first or not the last. -/
theorem tail_opened {d : Dir F} {seq : Int} {prev path : Str} {w : Doc F}
    (h : d.files.get? path = none) (hnext : tail env d = .ok (seq, prev, path))
    (hlast : segments d = [] ∨ ¬ Last d path) :
    ∃ next, tail env (d.append path w 0) = .ok (seq, prev, next) := by
  have hsegments := segments_opened h w
  rcases hlast with hnil | hlast
  · have hfirst : tail env d = .ok (0, GENESIS, segmentPath 0) := by
      simp only [tail, hnil]
      rfl
    cases hnext.symm.trans hfirst
    have hone : segments (d.append (segmentPath 0) w 0) = [(segmentPath 0, Segment.empty)] := by
      rw [hsegments, before, after, hnil]
      rfl
    refine ⟨segmentPath 0, ?_⟩
    simp only [tail, hone]
    rfl
  · cases tail_found hnext with
    | nothing _ hnames => exact absurd (fun m hm => le_of_eq (hnames m hm)) hlast
    | last hold hnewest hr =>
      rw [after_concat hold hlast, ← List.append_assoc] at hsegments
      exact tail_of_last hsegments hnewest hr

/-- Where it becomes the last and is not the first, no later call succeeds. -/
theorem tail_stuck (env : Env F) {d : Dir F} {path : Str} (w : Doc F) (h : d.files.get? path = none)
    (hne : segments d ≠ []) (hlast : Last d path) :
    ∃ error, tail env (d.append path w 0) = .error error := by
  have hsegments := segments_opened h w
  rw [after_eq_nil hlast, List.append_nil] at hsegments
  have hbefore : before d path ≠ [] := by
    have hall := segments_split d path
    rw [after_eq_nil hlast, List.append_nil, at_, h, List.append_nil] at hall
    exact hall ▸ hne
  have hlen : ¬ (before d path ++ [(path, (Segment.empty : Segment F))]).length = 1 := by
    rw [List.length_append, List.length_singleton]
    have hpos := List.length_pos_iff.mpr hbefore
    omega
  refine ⟨.emptyNewest path, ?_⟩
  simp only [tail, hsegments, List.getLast?_concat]
  exact if_neg hlen

/-! ## One call -/

theorem kept_opened {j : Journal F} {s : Nat × Str} {path : Str} {w : Doc F}
    (h : Kept env j s) (hnext : tail env j.dir = .ok ((s.1 : Int), s.2, path))
    (hsafe : (j.dir.files.get? path).isSome = true ∨ segments j.dir = [] ∨ ¬ Last j.dir path) :
    Kept env { j with dir := j.dir.append path w 0 } s := by
  cases hget : j.dir.files.get? path with
  | some seg => rwa [append_zero hget]
  | none =>
    have hopen := hsafe.resolve_left (by rw [hget]; exact Bool.false_ne_true)
    exact {
      sound := {
        unbroken := (congrArg _ (records_opened w)).trans h.sound.unbroken
        head := h.sound.head
        ended := by
          intro m hm
          rw [segments_opened hget] at hm
          rcases List.mem_append.mp hm with hm | hm
          · rcases List.mem_append.mp hm with hm | hm
            · exact h.sound.ended m (List.mem_of_mem_filter hm)
            · rw [List.mem_singleton.mp hm]
              rfl
          · exact h.sound.ended m (List.mem_of_mem_filter hm)
        next := tail_opened hget hnext hopen }
      recorded := (records_opened w).trans h.recorded }

theorem kept_attempt {j : Journal F} {s : Nat × Str} (h : Kept env j s) {call : Call F}
    (hsafe : Safe env j call) : ∃ t, Kept env (attempt env j call) t := by
  obtain ⟨e, stop⟩ := call
  rcases prepare_cases env j.dir e with ⟨error, herror⟩ | hcall
  · rw [attempt_error herror]
    exact ⟨s, h⟩
  obtain ⟨seq, prev, path, detail, haction, ht, hd⟩ := hcall
  obtain ⟨rfl, rfl⟩ := tail_of_unbroken h.sound.unbroken ht
  have hsafe := hsafe _ _ _ _ haction ht hd
  cases stop with
  | none =>
    refine ⟨(s.1 + 1, digestOf env e s.1 s.2 detail), ?_, ?_⟩
    · rw [attempt_complete haction ht hd]
      exact h.sound.appended hsafe.1 hsafe.2
    · rw [attempt_complete haction ht hd, List.map_append, ← h.recorded]
      exact records_landed ⟨hsafe.1, h.sound.stands path⟩ _ (length_le_line _) (line_ne_zero _)
  | some stop =>
    cases stop with
    | before => exact ⟨s, h⟩
    | cut k =>
      cases k with
      | succ k => exact absurd hsafe id
      | zero =>
        have hattempt : attempt env j (e, some (.cut 0)) =
            { j with dir := j.dir.append path (prepared env e s.1 s.2 path detail).doc 0 } := by
          rw [attempt]
          simp only [prepare_ok haction ht hd]
          rw [if_pos (Nat.pos_of_ne_zero (line_ne_zero _))]
          rfl
        rw [hattempt]
        exact ⟨s, kept_opened h ht hsafe⟩

/-- A record that completes breaks the log unless it lands last and reads back as it was. -/
theorem safe_complete (hinj : Function.Injective env.sha256) {j : Journal F} {s : Nat × Str}
    {e : Event F} {path : Str} {detail : Doc F} (haction : e.action ≠ [])
    (ht : tail env j.dir = .ok ((s.1 : Int), s.2, path))
    (hd : encode (.dict e.detail) = some detail) (h : Good env (attempt env j (e, none))) :
    Last j.dir path ∧ detail.joined.Ascending := by
  have hok : (verify env (attempt env j (e, none)).dir).ok = true := by
    rw [h.verified]
    rfl
  rw [attempt_complete haction ht hd] at hok
  obtain ⟨t, hunbroken, _⟩ := (verify_ok_iff _).mp hok
  obtain ⟨hlands, _⟩ := unbroken_of_appended ht hunbroken
  refine ⟨hlands.1, ?_⟩
  have hrecords : records (appended env j.dir e s.1 s.2 path detail) =
      records j.dir ++ [some (written env e s.1 s.2 detail)] :=
    records_landed hlands _ (length_le_line _) (line_ne_zero (prepared env e s.1 s.2 path detail))
  rw [Unbroken, hrecords] at hunbroken
  obtain ⟨_, _, _, _, hi, _⟩ := walk_check hunbroken
  exact (prepared_of_accepts hi).2.2 hinj

/-- A line that is in the file without its head breaks the log. -/
theorem not_good_cut {j : Journal F} {s : Nat × Str} (hs : Kept env j s) {e : Event F} {path : Str}
    {detail : Doc F} (k : Nat) (haction : e.action ≠ [])
    (ht : tail env j.dir = .ok ((s.1 : Int), s.2, path))
    (hd : encode (.dict e.detail) = some detail) :
    ¬ Good env (attempt env j (e, some (.cut (k + 1)))) := by
  intro h
  have hok : (verify env (attempt env j (e, some (.cut (k + 1)))).dir).ok = true := by
    rw [h.verified]
    rfl
  rw [attempt_cut (k + 1) haction ht hd] at hok
  obtain ⟨t, hunbroken, hhead⟩ := (verify_ok_iff _).mp hok
  obtain ⟨hlands, hlen⟩ := lands_of_unbroken ht (Nat.succ_ne_zero k) hunbroken
  have hcount := unbroken_length hunbroken
  rw [records_landed hlands _ hlen (Nat.succ_ne_zero k), List.length_append,
    ← unbroken_length hs.sound.unbroken, List.length_singleton] at hcount
  have hat := hs.sound.head
  have hhead : HeadAt j.dir.head t := hhead
  cases hold : j.dir.head with
  | none =>
    rw [hold] at hhead
    have hzero : t.1 = 0 := hhead
    omega
  | some head =>
    rw [hold] at hhead hat
    have heq := hhead.1.symm.trans hat.1
    omega

theorem safe_of_good (hinj : Function.Injective env.sha256) {j : Journal F} {s : Nat × Str}
    (hs : Kept env j s) {call : Call F} (h : Good env (attempt env j call)) : Safe env j call := by
  obtain ⟨e, stop⟩ := call
  intro seq prev path detail haction ht hd
  obtain ⟨rfl, rfl⟩ := tail_of_unbroken hs.sound.unbroken ht
  cases stop with
  | none => exact safe_complete hinj haction ht hd h
  | some stop =>
    cases stop with
    | before => trivial
    | cut k =>
      cases k with
      | succ k => exact not_good_cut hs k haction ht hd h
      | zero =>
        by_contra hunsafe
        have hunsafe : ¬ ((j.dir.files.get? path).isSome = true ∨ segments j.dir = [] ∨
            ¬ Last j.dir path) := hunsafe
        rw [not_or, not_or, not_not, Bool.not_eq_true, Option.isSome_eq_false_iff,
          Option.isNone_iff_eq_none] at hunsafe
        obtain ⟨hnone, hne, hlast⟩ := hunsafe
        obtain ⟨error, herror⟩ := tail_stuck env (prepared env e s.1 s.2 path detail).doc hnone hne
          hlast
        obtain ⟨t, _, hgoes⟩ := h.goesOn
        obtain ⟨entry, hentry, _⟩ := hgoes plainEvent plainEvent_action rfl
        rw [attempt_cut 0 haction ht hd, record_error plainEvent_action herror] at hentry
        cases hentry

/-! ## Runs -/

def runCalls (env : Env F) (calls : List (Call F)) : Journal F :=
  calls.foldl (attempt env) Journal.start

theorem kept_start : Kept env (Journal.start : Journal F) (0, GENESIS) where
  sound := sound_empty
  recorded := rfl

theorem kept_run {calls : List (Call F)}
    (h : Along (attempt env) (Safe env) Journal.start calls) : ∃ s, Kept env (runCalls env calls) s :=
  h.invariant (fun j => ∃ s, Kept env j s) (fun _ _ ⟨_, hs⟩ hsafe => kept_attempt hs hsafe)
    ⟨_, kept_start⟩

theorem safe_run (hinj : Function.Injective env.sha256) {calls : List (Call F)}
    (h : ∀ before rest, calls = before ++ rest → Good env (runCalls env before)) :
    Along (attempt env) (Safe env) Journal.start calls := by
  induction calls using List.reverseRecOn with
  | nil => trivial
  | append_singleton calls call ih =>
    have hcalls := ih (fun before rest heq => h before (rest ++ [call]) (by
      rw [heq, List.append_assoc]))
    obtain ⟨s, hs⟩ := kept_run hcalls
    have hgood := h (calls ++ [call]) [] (List.append_nil _).symm
    rw [runCalls, List.foldl_append] at hgood
    exact along_append.mpr ⟨hcalls, safe_of_good hinj hs hgood, trivial⟩

/-- Whatever is recorded and wherever calls stop, the log is as promised after every call if
all calls are safe, and with a digest that tells texts apart only then. -/
theorem verifies_iff (env : Env F) (calls : List (Call F)) :
    (Along (attempt env) (Safe env) Journal.start calls →
      ∀ before rest, calls = before ++ rest → Good env (runCalls env before)) ∧
    (Function.Injective env.sha256 →
      (∀ before rest, calls = before ++ rest → Good env (runCalls env before)) →
        Along (attempt env) (Safe env) Journal.start calls) := by
  refine ⟨fun h before rest heq => ?_, fun hinj h => safe_run hinj h⟩
  rw [heq] at h
  obtain ⟨s, hs⟩ := kept_run (along_append.mp h).1
  exact hs.good

/-- `{10: 1, 9: 2}`, as it is written. -/
def numbersWritten : Doc Empty := .obj [(str "9", .int 2), (str "10", .int 1)]

/-- The same, once it was read. -/
def numbersReread : Doc Empty := .obj [(str "10", .int 1), (str "9", .int 2)]

def numbersEvent : Event Empty :=
  sampleEvent "ingest.batch" [(.int 10, .int 1), (.int 9, .int 2)]

def numbersText (detail : Doc Empty) : List Char :=
  (Doc.obj (bodyMembers numbersEvent 0 GENESIS detail)).write

def numbersEnv : Env Empty where
  sha256 := tableDigest [
    (numbersText numbersWritten,
      "ed51ee9724d11b3969ecd9fc639898c5149d647938c01e1db6fbc378a3fa90a2"),
    (numbersText numbersReread,
      "a31dc43c5e8a42ec80624f1e78571a67e1659e346e74af4d40ad24fb28d0db42")]
  intOfStr := fun _ => none
  strOf := fun _ => []
  maxSegmentBytes := 33554432

/-- One event with numbers as keys of its detail, and the log does not verify. -/
theorem numbers_break_log :
    ¬ (∀ (env : Env Empty) (calls before rest : List (Call Empty)),
      calls = before ++ rest → Good env (runCalls env before)) := by
  intro h
  have hinj : Function.Injective numbersEnv.sha256 :=
    tableDigest_injective (by decide) (by decide)
  have haction : numbersEvent.action ≠ [] := by decide +kernel
  have hdetail : encode (.dict numbersEvent.detail) = some numbersWritten := rfl
  have hgood : Good numbersEnv (attempt numbersEnv Journal.start (numbersEvent, none)) :=
    h numbersEnv [(numbersEvent, none)] [(numbersEvent, none)] [] rfl
  have hsafe := safe_of_good hinj kept_start hgood
  have hasc : numbersWritten.joined.Ascending :=
    (hsafe 0 GENESIS (segmentPath 0) numbersWritten haction rfl hdetail).2
  have hkeys : ¬ (([str "9", str "10"] : List Str).Pairwise (· < ·)) := by decide
  exact hkeys hasc.1

end Cerid.Audit
