import Cerid.Forget.Engine

/-!
# What a receipt says of its stores

A purge is tried again until every store is done with every subject.  Each attempt runs
the stores on the subjects that still stand in the trash under the forget, adds what it
removed to the receipt, marks anew the stores it ran, and records the subjects that all
their stores erased.

A run is followed with its attempts: what a store did with a subject last is what the
last attempt that covers the subject says.
-/

namespace Cerid.Forget

/-! ## Attempts -/

/-- One call of `_purge_subjects`. -/
structure Attempt where
  erase : String → Subject → Except String Nat
  now : Time
  forgetId : ForgetId
  subjects : List Subject
  requestedBy : String
  userId : String

def perform (m : Engine) (a : Attempt) : Engine :=
  (purgeSubjects m a.erase a.now a.forgetId a.subjects a.requestedBy a.userId).1

/-- The attempts that `empty_trash` and `retry_started_purges` make. -/
def groupAttempts (erase : String → Subject → Except String Nat) (now : Time)
    (requester : List Entry → String) (entries : List Entry) : List Attempt :=
  (byForget entries).items.map (fun g => {
    erase, now, forgetId := g.1, subjects := g.2.map Entry.subject, requestedBy := requester g.2
    userId := (g.2.head?.map Entry.userId).getD "" })

/-- The attempts of an operation, in order. -/
def attempts (m : Engine) : Time × Act → List Attempt
  | (now, .purge erase f) =>
    let entries := (forgetEntries m.reg f).filter (fun e => e.state = .trashed)
    [{ erase, now, forgetId := f, subjects := entries.map Entry.subject, requestedBy := "ui"
       userId := (entries.head?.map Entry.userId).getD "" }]
  | (now, .forgetPermanently _ erase subjects requestedBy userId) =>
    [{ erase, now, forgetId := m.nextId, subjects, requestedBy, userId }]
  | (now, .emptyTrash erase olderThanDays) =>
    groupAttempts erase now (fun _ => if olderThanDays.any (· ≠ 0) then RETENTION else "ui")
      (expired m now olderThanDays)
  | (now, .retryStartedPurges erase) =>
    groupAttempts erase now (fun entries => (entries.head?.map Entry.requestedBy).getD "") (started m)
  | _ => []

/-- What an operation does before its first attempt. -/
def prepare (m : Engine) : Time × Act → Engine
  | (now, .forgetPermanently hides _ subjects requestedBy userId) =>
    (trash m hides now subjects requestedBy userId).1
  | (_, .purge _ _) | (_, .emptyTrash _ _) | (_, .retryStartedPurges _) => m
  | op => act m op

theorem foldl_purgeGroup (erase : String → Subject → Except String Nat) (now : Time)
    (requester : List Entry → String) (groups : List (ForgetId × List Entry))
    (acc : Engine × List ForgetId) :
    (groups.foldl (purgeGroup erase now requester) acc).1 =
      (groups.map (fun g => ({
        erase, now, forgetId := g.1, subjects := g.2.map Entry.subject
        requestedBy := requester g.2
        userId := (g.2.head?.map Entry.userId).getD "" } : Attempt))).foldl perform acc.1 := by
  induction groups generalizing acc with
  | nil => rfl
  | cons g rest ih =>
    rw [List.foldl_cons, ih, List.map_cons, List.foldl_cons]
    rfl

/-- An operation is what it prepares, followed by its attempts. -/
theorem act_eq (m : Engine) (op : Time × Act) :
    act m op = (attempts m op).foldl perform (prepare m op) := by
  obtain ⟨now, op⟩ := op
  cases op with
  | trash _ _ _ _ | restore _ _ | purge _ _ | forgetPermanently _ _ _ _ _ | forgetGate _ _
  | dropPurgedChunks _ => rfl
  | emptyTrash erase olderThanDays => exact foldl_purgeGroup erase now _ _ (m, [])
  | retryStartedPurges erase => exact foldl_purgeGroup erase now _ _ (m, [])

/-- Distinct attempts of one operation are about distinct forgets. -/
theorem nodup_attempts (m : Engine) (op : Time × Act) :
    ((attempts m op).map Attempt.forgetId).Nodup := by
  obtain ⟨now, op⟩ := op
  cases op with
  | trash _ _ _ _ | restore _ _ | forgetGate _ _ | dropPurgedChunks _ => exact List.nodup_nil
  | purge _ _ | forgetPermanently _ _ _ _ _ => exact List.nodup_singleton _
  | emptyTrash _ _ | retryStartedPurges _ =>
    simp only [attempts, groupAttempts, List.map_map]
    exact (byForget _).nodup

/-! ## What the stores did last -/

/-- The attempt covers the subject under the forget. -/
def Attempt.covers (a : Attempt) (f : ForgetId) (s : Subject) : Bool :=
  a.forgetId = f ∧ s ∈ a.subjects

/-- The last attempt that covers the subject. -/
def lastAttempt (journal : List Attempt) (f : ForgetId) (s : Subject) : Option Attempt :=
  (journal.filter (fun a => a.covers f s)).getLast?

/-- The store `name` handles the kind of the subject. -/
def handles (name : String) (s : Subject) : Bool := (adaptersFor s.kind).any (fun a => a.name = name)

/-- The store `name` erases the subject. -/
def Attempt.erases (a : Attempt) (name : String) (s : Subject) : Bool :=
  (a.erase name s).toOption.isSome

/-- The store failed on the subject when it was last run on it for this forget. -/
def StillFailing (journal : List Attempt) (f : ForgetId) (name : String) (s : Subject) : Prop :=
  handles name s = true ∧ ∃ a, lastAttempt journal f s = some a ∧ a.erases name s = false

/-- The registry file has a `purged` entry of the subject under the forget. -/
def HasPurged (m : Engine) (f : ForgetId) (s : Subject) : Prop :=
  ∃ e : Entry, Line.row e.toJson ∈ m.file ∧ e.forgetId = f ∧ e.subject = s ∧ e.state = .purged

/-- What holds of the engine after these attempts: a forget whose purge has begun is not
restored; a subject has a `purged` entry exactly when one attempt had all its stores
erase it; and a receipt says that a store is done exactly when the store fails on no
subject any more. -/
structure Reported (m : Engine) (journal : List Attempt) : Prop where
  refused : ∀ a ∈ journal, ∀ restores now,
    restore m restores now a.forgetId = .error .forgetConflict
  purged : ∀ f s, HasPurged m f s ↔
    ∃ a ∈ journal, a.forgetId = f ∧ s ∈ a.subjects ∧ complete a.erase s = true
  honest : ∀ f r name slot, m.receipts.get? f = some r → r.adapters.get? name = some slot →
    (slot.status = .done ↔ ∀ s, ¬ StillFailing journal f name s)

/-- No receipt loses a subject, and none says less was removed. -/
def Adds (m m' : Engine) : Prop :=
  ∀ f r, m.receipts.get? f = some r → ∃ r', m'.receipts.get? f = some r' ∧
    (∀ s ∈ r.subjects, s ∈ r'.subjects) ∧
    ∀ name slot, r.adapters.get? name = some slot →
      ∃ slot', r'.adapters.get? name = some slot' ∧ slot.removed ≤ slot'.removed

/-- Where the attempt runs a store and the store fails on nothing, it leaves out no
subject that the store is still failing on. -/
def Attempt.Covers (a : Attempt) (journal : List Attempt) : Prop :=
  ∀ name, (∃ s ∈ a.subjects, handles name s = true) →
    (∀ s ∈ a.subjects, handles name s = true → a.erases name s = true) →
    ∀ s, StillFailing journal a.forgetId name s → s ∈ a.subjects

/-- An engine and the attempts it has made. -/
abbrev Ledger := Engine × List Attempt

def Ledger.step (w : Ledger) (op : Time × Act) : Ledger := (act w.1 op, w.2 ++ attempts w.1 op)

def Ledger.Keeps (w : Ledger) (op : Time × Act) : Prop :=
  Reported (w.step op).1 (w.step op).2 ∧ Adds w.1 (w.step op).1

def Ledger.Covered (w : Ledger) (op : Time × Act) : Prop :=
  ∀ a ∈ attempts w.1 op, a.Covers w.2

/-! ## The stores of one attempt -/

section Calls

variable (erase : String → Subject → Except String Nat)

/-- The adapter call succeeds. -/
def okCall (call : Subject × Adapter) : Bool := (erase call.2.name call.1).toOption.isSome

theorem get?_purgeCall_other (acc : Dict String Slot × List String) {call : Subject × Adapter}
    {name : String} (h : call.2.name ≠ name) :
    (purgeCall erase acc call).1.get? name = acc.1.get? name ∧
      (name ∈ (purgeCall erase acc call).2 ↔ name ∈ acc.2) := by
  have h' : ¬ name = call.2.name := fun e => h e.symm
  simp [purgeCall, h']

/-- What one call leaves in its own slot. -/
theorem get?_purgeCall_self (acc : Dict String Slot × List String) (call : Subject × Adapter) :
    call.2.name ∈ (purgeCall erase acc call).2 ∧
      ∃ slot, (purgeCall erase acc call).1.get? call.2.name = some slot ∧
        (slot.status = .done ↔ okCall erase call = true ∧ (call.2.name ∈ acc.2 →
          ∀ old, acc.1.get? call.2.name = some old → old.status = .done)) ∧
        ∀ old, acc.1.get? call.2.name = some old → old.removed ≤ slot.removed := by
  refine ⟨by simp [purgeCall], ?_⟩
  simp only [purgeCall, Dict.get?_set, if_true, okCall]
  refine ⟨_, rfl, ?_⟩
  by_cases ht : call.2.name ∈ acc.2
  · rw [if_pos ht]
    cases erase call.2.name call.1 with
    | error e =>
      refine ⟨by simp [Except.toOption], fun old hold => ?_⟩
      rw [hold]
      exact le_refl _
    | ok n =>
      cases hold : acc.1.get? call.2.name with
      | none => simp [ht, Except.toOption]
      | some old => simp [ht, Except.toOption]
  · rw [if_neg ht]
    cases erase call.2.name call.1 with
    | error e =>
      refine ⟨by simp [Except.toOption], fun old hold => ?_⟩
      rw [hold]
      exact le_refl _
    | ok n =>
      refine ⟨by simp [ht, Except.toOption], fun old hold => ?_⟩
      rw [hold]
      exact Nat.le_add_right _ _

/-- A store that no call names keeps its slot. -/
theorem foldl_purgeCall_other (calls : List (Subject × Adapter))
    (acc : Dict String Slot × List String) {name : String}
    (h : ∀ call ∈ calls, call.2.name ≠ name) :
    (calls.foldl (purgeCall erase) acc).1.get? name = acc.1.get? name := by
  induction calls generalizing acc with
  | nil => rfl
  | cons call rest ih =>
    rw [List.foldl_cons, ih _ (fun c hc => h c (List.mem_cons_of_mem call hc))]
    exact (get?_purgeCall_other erase acc (h call List.mem_cons_self)).1

/-- The slot of a store that was run: done when none of its calls failed. -/
theorem foldl_purgeCall (calls : List (Subject × Adapter))
    (acc : Dict String Slot × List String) (name : String)
    (h : name ∈ acc.2 ∧ (acc.1.get? name).isSome ∨ ∃ call ∈ calls, call.2.name = name) :
    ∃ slot, (calls.foldl (purgeCall erase) acc).1.get? name = some slot ∧
      (slot.status = .done ↔
        (∀ call ∈ calls, call.2.name = name → okCall erase call = true) ∧
          (name ∈ acc.2 → ∀ old, acc.1.get? name = some old → old.status = .done)) ∧
      ∀ old, acc.1.get? name = some old → old.removed ≤ slot.removed := by
  induction calls generalizing acc with
  | nil =>
    rcases h with ⟨ht, hs⟩ | ⟨_, hc, _⟩
    · obtain ⟨slot, hslot⟩ := Option.isSome_iff_exists.mp hs
      refine ⟨slot, hslot, ?_, fun old hold => ?_⟩
      · simp [ht, hslot]
      · rw [hslot, Option.some.injEq] at hold
        rw [hold]
    · cases hc
  | cons call rest ih =>
    rw [List.foldl_cons]
    by_cases hname : call.2.name = name
    · subst hname
      obtain ⟨ht, slot₁, hslot₁, hdone₁, hle₁⟩ := get?_purgeCall_self erase acc call
      obtain ⟨slot, hslot, hdone, hle⟩ := ih (purgeCall erase acc call)
        (Or.inl ⟨ht, by rw [hslot₁]; rfl⟩)
      refine ⟨slot, hslot, ?_, fun old hold => le_trans (hle₁ old hold) (hle slot₁ hslot₁)⟩
      have hfirst : (call.2.name ∈ (purgeCall erase acc call).2 → ∀ old,
          (purgeCall erase acc call).1.get? call.2.name = some old → old.status = .done) ↔
          slot₁.status = .done := by
        simp [ht, hslot₁]
      rw [hdone, hfirst, hdone₁, List.forall_mem_cons]
      simp only [true_implies]
      tauto
    · obtain ⟨hget, htouched⟩ := get?_purgeCall_other erase acc hname
      have hcase : name ∈ (purgeCall erase acc call).2 ∧
          ((purgeCall erase acc call).1.get? name).isSome ∨ ∃ c ∈ rest, c.2.name = name := by
        rw [hget, htouched]
        refine h.imp_right ?_
        rintro ⟨c, hc, hcn⟩
        rcases List.mem_cons.mp hc with rfl | hc
        · exact absurd hcn hname
        · exact ⟨c, hc, hcn⟩
      obtain ⟨slot, hslot, hdone, hle⟩ := ih (purgeCall erase acc call) hcase
      rw [hget] at hle hdone
      rw [htouched] at hdone
      refine ⟨slot, hslot, ?_, hle⟩
      rw [hdone, List.forall_mem_cons]
      simp [hname]

end Calls

/-! ## One attempt -/

/-- What the receipt of a forget says of its stores before an attempt. -/
def priorSlots (m : Engine) (f : ForgetId) : Dict String Slot :=
  ((m.receipts.get? f).map Receipt.adapters).getD .empty

/-- The receipt that an attempt leaves. -/
def Attempt.receipt (m : Engine) (a : Attempt) : Receipt :=
  (purgeSubjects m a.erase a.now a.forgetId a.subjects a.requestedBy a.userId).2

theorem get?_perform (m : Engine) (a : Attempt) (f : ForgetId) :
    (perform m a).receipts.get? f =
      if f = a.forgetId then some (a.receipt m) else m.receipts.get? f :=
  Dict.get?_set m.receipts a.forgetId (a.receipt m) f

theorem handles_iff {name : String} {s : Subject} :
    handles name s = true ↔ ∃ ad ∈ adaptersFor s.kind, ad.name = name := by
  simp [handles]

/-- A store that is not run keeps its slot. -/
theorem receipt_idle (m : Engine) (a : Attempt) {name : String}
    (h : ∀ s ∈ a.subjects, ¬ handles name s = true) :
    (a.receipt m).adapters.get? name = (priorSlots m a.forgetId).get? name := by
  refine foldl_purgeCall_other a.erase _ (priorSlots m a.forgetId, []) ?_
  intro call hcall hname
  obtain ⟨s, hs, hcall⟩ := List.mem_flatMap.mp hcall
  obtain ⟨ad, had, rfl⟩ := List.mem_map.mp hcall
  exact h s (mem_ordered.mp hs) (handles_iff.mpr ⟨ad, had, hname⟩)

/-- A store that is run is done when it fails on nothing, and has removed no less. -/
theorem receipt_run (m : Engine) (a : Attempt) {name : String}
    (h : ∃ s ∈ a.subjects, handles name s = true) :
    ∃ slot, (a.receipt m).adapters.get? name = some slot ∧
      (slot.status = .done ↔
        ∀ s ∈ a.subjects, handles name s = true → a.erases name s = true) ∧
      ∀ old, (priorSlots m a.forgetId).get? name = some old → old.removed ≤ slot.removed := by
  have hmem : ∀ s ad, (s, ad) ∈ (ordered a.subjects).flatMap
      (fun s => (adaptersFor s.kind).map (fun ad => (s, ad))) ↔
      s ∈ a.subjects ∧ ad ∈ adaptersFor s.kind := by
    intro s ad
    simp [mem_ordered]
  obtain ⟨s, hs, hhandles⟩ := h
  obtain ⟨ad, had, hname⟩ := handles_iff.mp hhandles
  obtain ⟨slot, hslot, hdone, hle⟩ := foldl_purgeCall a.erase
    ((ordered a.subjects).flatMap (fun s => (adaptersFor s.kind).map (fun ad => (s, ad))))
    (priorSlots m a.forgetId, []) name (Or.inr ⟨(s, ad), (hmem s ad).mpr ⟨hs, had⟩, hname⟩)
  refine ⟨slot, hslot, ?_, hle⟩
  rw [hdone]
  constructor
  · rintro ⟨hok, -⟩ s hs hhandles
    obtain ⟨ad, had, rfl⟩ := handles_iff.mp hhandles
    exact hok (s, ad) ((hmem s ad).mpr ⟨hs, had⟩) rfl
  · intro hok
    refine ⟨fun call hcall hname => ?_, fun ht => absurd ht List.not_mem_nil⟩
    obtain ⟨hs, had⟩ := (hmem call.1 call.2).mp hcall
    have herases := hok call.1 hs (handles_iff.mpr ⟨call.2, had, hname⟩)
    rw [okCall, hname]
    exact herases

theorem priorSlots_of_receipt {m : Engine} {f : ForgetId} {r : Receipt}
    (h : m.receipts.get? f = some r) : priorSlots m f = r.adapters := by
  rw [priorSlots, h]
  rfl

/-! ## What is still failing after an attempt -/

variable {m : Engine} {journal : List Attempt} {a : Attempt} {f : ForgetId}

theorem lastAttempt_append (f : ForgetId) (s : Subject) :
    lastAttempt (journal ++ [a]) f s =
      if a.covers f s then some a else lastAttempt journal f s := by
  rw [lastAttempt, List.filter_append]
  by_cases h : a.covers f s = true
  · have hlast : [a].filter (fun a => a.covers f s) = [a] := by simp [h]
    rw [if_pos h, hlast, List.getLast?_append]
    rfl
  · have hlast : [a].filter (fun a => a.covers f s) = [] := by simp [h]
    rw [if_neg h, hlast, List.append_nil]
    rfl

theorem stillFailing_covered {name : String} {s : Subject} (h : a.covers f s = true) :
    StillFailing (journal ++ [a]) f name s ↔ handles name s = true ∧ a.erases name s = false := by
  rw [StillFailing, lastAttempt_append, if_pos h]
  simp

theorem stillFailing_other {name : String} {s : Subject} (h : ¬ a.covers f s = true) :
    StillFailing (journal ++ [a]) f name s ↔ StillFailing journal f name s := by
  rw [StillFailing, StillFailing, lastAttempt_append, if_neg h]

theorem not_covers_of_ne (h : f ≠ a.forgetId) (s : Subject) : ¬ a.covers f s = true := by
  intro hc
  exact h (of_decide_eq_true hc).1.symm

theorem covers_self {s : Subject} : a.covers a.forgetId s = true ↔ s ∈ a.subjects := by
  simp [Attempt.covers]

/-- A receipt is honest about its stores. -/
def HonestAt (m : Engine) (journal : List Attempt) (f : ForgetId) : Prop :=
  ∀ r name slot, m.receipts.get? f = some r → r.adapters.get? name = some slot →
    (slot.status = .done ↔ ∀ s, ¬ StillFailing journal f name s)

theorem honestAt_other (h : f ≠ a.forgetId) :
    HonestAt (perform m a) (journal ++ [a]) f ↔ HonestAt m journal f := by
  simp only [HonestAt, get?_perform, if_neg h, stillFailing_other (not_covers_of_ne h _)]

/-- What is still failing for a store that is run without a failure is what the attempt
left out. -/
theorem stillFailing_run {name : String}
    (hok : ∀ s ∈ a.subjects, handles name s = true → a.erases name s = true) :
    (∀ s, ¬ StillFailing (journal ++ [a]) a.forgetId name s) ↔
      ∀ s, StillFailing journal a.forgetId name s → s ∈ a.subjects := by
  refine forall_congr' fun s => ?_
  by_cases hs : s ∈ a.subjects
  · rw [stillFailing_covered (covers_self.mpr hs)]
    refine iff_of_true ?_ (fun _ => hs)
    rintro ⟨hhandles, hfails⟩
    rw [hok s hs hhandles] at hfails
    cases hfails
  · rw [stillFailing_other (fun hc => hs (covers_self.mp hc))]
    exact ⟨fun hn hf => absurd hf hn, fun himp hf => hs (himp hf)⟩

theorem honestAt_self (h : HonestAt m journal a.forgetId) :
    HonestAt (perform m a) (journal ++ [a]) a.forgetId ↔ a.Covers journal := by
  have hget : (perform m a).receipts.get? a.forgetId = some (a.receipt m) := by
    rw [get?_perform, if_pos rfl]
  constructor
  · intro hhonest name hrun hok
    obtain ⟨slot, hslot, hdone, -⟩ := receipt_run m a hrun
    exact (stillFailing_run hok).mp ((hhonest _ name slot hget hslot).mp (hdone.mpr hok))
  · intro hcovers r name slot hr hslot
    rw [hget, Option.some.injEq] at hr
    subst hr
    by_cases hrun : ∃ s ∈ a.subjects, handles name s = true
    · obtain ⟨slot', hslot', hdone, -⟩ := receipt_run m a hrun
      rw [hslot, Option.some.injEq] at hslot'
      subst hslot'
      rw [hdone]
      constructor
      · intro hok
        exact (stillFailing_run hok).mpr (hcovers name hrun hok)
      · intro hnone s hs hhandles
        by_contra hfails
        exact hnone s ((stillFailing_covered (covers_self.mpr hs)).mpr
          ⟨hhandles, Bool.eq_false_iff.mpr hfails⟩)
    · have hidle : ∀ s ∈ a.subjects, ¬ handles name s = true :=
        fun s hs hhandles => hrun ⟨s, hs, hhandles⟩
      rw [receipt_idle m a hidle] at hslot
      have hsame : ∀ s, StillFailing (journal ++ [a]) a.forgetId name s ↔
          StillFailing journal a.forgetId name s := by
        intro s
        by_cases hs : s ∈ a.subjects
        · exact iff_of_false (fun hf => hidle s hs hf.1) (fun hf => hidle s hs hf.1)
        · exact stillFailing_other (fun hc => hs (covers_self.mp hc))
      cases hprior : m.receipts.get? a.forgetId with
      | none =>
        simp [priorSlots, hprior] at hslot
      | some r =>
        rw [priorSlots_of_receipt hprior] at hslot
        rw [h r name slot hprior hslot]
        exact forall_congr' fun s => not_congr (hsame s).symm

/-- What an attempt covers is not changed by attempts of other forgets. -/
theorem covers_append {a' : Attempt} (h : a'.forgetId ≠ a.forgetId) :
    a'.Covers (journal ++ [a]) ↔ a'.Covers journal := by
  simp only [Attempt.Covers, stillFailing_other (not_covers_of_ne h _)]

/-- Attempts of other forgets do not touch the receipt. -/
theorem honestAt_foldl_other (as : List Attempt) (h : ∀ a ∈ as, a.forgetId ≠ f) :
    HonestAt (as.foldl perform m) (journal ++ as) f ↔ HonestAt m journal f := by
  induction as generalizing m journal with
  | nil => rw [List.foldl_nil, List.append_nil]
  | cons a rest ih =>
    rw [List.foldl_cons, List.append_cons,
      ih (fun a' ha' => h a' (List.mem_cons_of_mem a ha'))]
    exact honestAt_other (h a List.mem_cons_self).symm

/-- The attempts of an operation keep a receipt honest exactly when the one about its
forget covers what is still failing. -/
theorem honestAt_foldl (as : List Attempt) (hnd : (as.map Attempt.forgetId).Nodup)
    (h : HonestAt m journal f) :
    HonestAt (as.foldl perform m) (journal ++ as) f ↔
      ∀ a ∈ as, a.forgetId = f → a.Covers journal := by
  induction as generalizing m journal with
  | nil => simp [h]
  | cons a rest ih =>
    rw [List.map_cons, List.nodup_cons] at hnd
    rw [List.foldl_cons, List.append_cons, List.forall_mem_cons]
    by_cases hf : a.forgetId = f
    · subst hf
      have hrest : ∀ a' ∈ rest, a'.forgetId ≠ a.forgetId := fun a' ha' he =>
        hnd.1 (List.mem_map.mpr ⟨a', ha', he⟩)
      rw [honestAt_foldl_other rest hrest, honestAt_self h]
      exact ⟨fun hc => ⟨fun _ => hc, fun a' ha' he => absurd he (hrest a' ha')⟩,
        fun hall => hall.1 rfl⟩
    · rw [ih hnd.2 ((honestAt_other (fun e => hf e.symm)).mpr h)]
      refine ⟨fun hrest => ⟨fun he => absurd he hf, fun a' ha' he => ?_⟩, fun hall a' ha' he => ?_⟩
      · exact (covers_append (fun e => hf (e.symm.trans he))).mp (hrest a' ha' he)
      · exact (covers_append (fun e => hf (e.symm.trans he))).mpr (hall.2 a' ha' he)

/-! ## What the file says was purged -/

theorem Entry.toJson_inj {e e' : Entry} (h : e.toJson = e'.toJson) : e = e' := by
  have hkind : e.subject.kind = e'.subject.kind := by
    have h := congrArg Row.kind h
    cases hk : e.subject.kind <;> cases hk' : e'.subject.kind <;>
      simp [Entry.toJson, hk, hk', Kind.toJson] at h ⊢
  have hstate : e.state = e'.state := by
    have h := congrArg Row.state h
    cases hs : e.state <;> cases hs' : e'.state <;>
      simp [Entry.toJson, hs, hs', State.toJson] at h ⊢
  obtain ⟨f, ⟨k, i⟩, st, t, mi, r, u⟩ := e
  obtain ⟨f', ⟨k', i'⟩, st', t', mi', r', u'⟩ := e'
  simp only [Entry.toJson, Row.mk.injEq, Option.some.injEq] at h
  obtain ⟨hf, -, hi, -, ht, hm, hr, hu⟩ := h
  simp only at hkind hstate
  subst hf hkind hi hstate ht hm hr hu
  rfl

theorem row_mem_dump {e : Entry} {es : List Entry} : Line.row e.toJson ∈ dump es ↔ e ∈ es := by
  constructor
  · intro h
    obtain ⟨e', he', heq⟩ := List.mem_map.mp h
    rw [Line.row.injEq] at heq
    rw [← Entry.toJson_inj heq]
    exact he'
  · exact fun h => List.mem_map.mpr ⟨e, h, rfl⟩

theorem hasPurged_dump {m' : Engine} {es : List Entry} (h : m'.file = m.file ++ dump es)
    (f : ForgetId) (s : Subject) :
    HasPurged m' f s ↔
      HasPurged m f s ∨ ∃ e ∈ es, e.forgetId = f ∧ e.subject = s ∧ e.state = .purged := by
  simp only [HasPurged, h, List.mem_append, row_mem_dump, or_and_right, exists_or]

/-- The engine wrote nothing that purges, and no receipt. -/
structure Extends (m m' : Engine) : Prop where
  receipts : m'.receipts = m.receipts
  file : ∃ es, m'.file = m.file ++ dump es ∧ ∀ e ∈ es, e.state ≠ .purged

theorem Extends.refl (m : Engine) : Extends m m where
  receipts := rfl
  file := ⟨[], (List.append_nil _).symm, nofun⟩

theorem Extends.trans {m m' m'' : Engine} (h : Extends m m') (h' : Extends m' m'') :
    Extends m m'' where
  receipts := h'.receipts.trans h.receipts
  file := by
    obtain ⟨es, hfile, hes⟩ := h.file
    obtain ⟨es', hfile', hes'⟩ := h'.file
    refine ⟨es ++ es', ?_, ?_⟩
    · rw [hfile', hfile, List.append_assoc, dump, dump, dump, List.map_append]
    · intro e he
      exact (List.mem_append.mp he).elim (hes e) (hes' e)

theorem Extends.hasPurged {m' : Engine} (h : Extends m m') (f : ForgetId) (s : Subject) :
    HasPurged m' f s ↔ HasPurged m f s := by
  obtain ⟨es, hfile, hes⟩ := h.file
  rw [hasPurged_dump hfile, or_iff_left]
  rintro ⟨e, he, -, -, hstate⟩
  exact hes e he hstate

theorem extends_record (m : Engine) (now : Time) (subjects : List Subject) (f : ForgetId)
    (state : State) (requestedBy userId : String) (h : state ≠ .purged) :
    Extends m (record m now subjects f state requestedBy userId) where
  receipts := rfl
  file := by
    refine ⟨_, rfl, fun e he => ?_⟩
    obtain ⟨s, -, rfl⟩ := List.mem_map.mp he
    exact h

theorem extends_recordReadd (m : Engine) (now : Time) (subject : Subject) (requestedBy : String)
    (only : Option (List String)) : Extends m (recordReadd m now subject requestedBy only).1 where
  receipts := rfl
  file := by
    refine ⟨_, rfl, fun e he => ?_⟩
    obtain ⟨f, -, rfl⟩ := List.mem_map.mp he
    exact nofun

theorem extends_trash (m : Engine) (hides : String → Subject → Bool) (now : Time)
    (subjects : List Subject) (requestedBy userId : String) :
    Extends m (trash m hides now subjects requestedBy userId).1 where
  receipts := rfl
  file := (extends_record m now (ordered subjects) m.nextId .trashed requestedBy userId nofun).file

theorem extends_restore {restores : String → Subject → Bool} {now : Time} {r : Engine × Nat}
    (h : restore m restores now f = .ok r) : Extends m r.1 := by
  unfold restore at h
  simp only at h
  split at h
  · cases h
  · split at h
    · rw [Except.ok.injEq] at h
      rw [← h]
      exact ⟨rfl, (extends_record m now _ f .restored "ui" _ nofun).file⟩
    · cases h

theorem extends_dropPurgedChunks (m : Engine) (now : Time) (records : List Passage) :
    Extends m (dropPurgedChunks m now records).1 := by
  refine foldl_invariant _ (Extends m) (p := fun _ => True) (fun m' r h _ => ?_)
    (Extends.refl m) (fun _ _ => trivial)
  split
  · exact h.trans (extends_recordReadd m' now _ "ingest" _)
  · exact h

theorem extends_forgetGate (m : Engine) (now : Time) (artifactId : String) (skip : Bool) :
    Extends m (forgetGate m now artifactId skip).1 := by
  unfold forgetGate
  split
  · split
    · exact Extends.refl m
    · exact extends_recordReadd m now _ "ingest" none
  · exact Extends.refl m

/-- What comes before the attempts purges nothing. -/
theorem extends_prepare (m : Engine) (op : Time × Act) : Extends m (prepare m op) := by
  obtain ⟨now, op⟩ := op
  cases op with
  | trash hides subjects requestedBy userId => exact extends_trash m hides now subjects requestedBy userId
  | restore restores f =>
    simp only [prepare, act]
    split
    · next r h => exact extends_restore h
    · exact Extends.refl m
  | purge erase f => exact Extends.refl m
  | forgetPermanently hides erase subjects requestedBy userId =>
    exact extends_trash m hides now subjects requestedBy userId
  | emptyTrash erase days => exact Extends.refl m
  | retryStartedPurges erase => exact Extends.refl m
  | forgetGate artifactId skip => exact extends_forgetGate m now artifactId skip
  | dropPurgedChunks records => exact extends_dropPurgedChunks m now records

theorem hasPurged_perform (m : Engine) (a : Attempt) (f : ForgetId) (s : Subject) :
    HasPurged (perform m a) f s ↔
      HasPurged m f s ∨ a.forgetId = f ∧ s ∈ a.subjects ∧ complete a.erase s = true := by
  have hfile : (perform m a).file = m.file ++ dump (((ordered a.subjects).filter
      (complete a.erase)).map (fun s => {
        forgetId := a.forgetId, subject := s, state := .purged, at_ := a.now
        machineId := m.machineId, requestedBy := a.requestedBy, userId := a.userId })) := rfl
  rw [hasPurged_dump hfile]
  refine or_congr_right ?_
  simp only [List.mem_map, List.mem_filter, mem_ordered]
  constructor
  · rintro ⟨e, ⟨s', ⟨hs, hc⟩, rfl⟩, hf, rfl, -⟩
    exact ⟨hf, hs, hc⟩
  · rintro ⟨hf, hs, hc⟩
    exact ⟨_, ⟨s, ⟨hs, hc⟩, rfl⟩, hf, rfl, rfl⟩

theorem hasPurged_foldl (as : List Attempt) (m : Engine) (f : ForgetId) (s : Subject) :
    HasPurged (as.foldl perform m) f s ↔
      HasPurged m f s ∨
        ∃ a ∈ as, a.forgetId = f ∧ s ∈ a.subjects ∧ complete a.erase s = true := by
  induction as generalizing m with
  | nil => simp
  | cons a rest ih => simp only [List.foldl_cons, ih, hasPurged_perform, List.mem_cons, exists_eq_or_imp, or_assoc]

/-! ## What receipts keep -/

theorem Adds.refl (m : Engine) : Adds m m :=
  fun _ r hr => ⟨r, hr, fun _ hs => hs, fun _ slot hslot => ⟨slot, hslot, le_refl _⟩⟩

theorem Adds.trans {m m' m'' : Engine} (h : Adds m m') (h' : Adds m' m'') : Adds m m'' := by
  intro f r hr
  obtain ⟨r', hr', hsub, hslots⟩ := h f r hr
  obtain ⟨r'', hr'', hsub', hslots'⟩ := h' f r' hr'
  refine ⟨r'', hr'', fun s hs => hsub' s (hsub s hs), fun name slot hslot => ?_⟩
  obtain ⟨slot', hslot', hle⟩ := hslots name slot hslot
  obtain ⟨slot'', hslot'', hle'⟩ := hslots' name slot' hslot'
  exact ⟨slot'', hslot'', hle.trans hle'⟩

theorem Extends.adds {m' : Engine} (h : Extends m m') : Adds m m' := by
  intro f r hr
  rw [← h.receipts] at hr
  exact ⟨r, hr, fun _ hs => hs, fun _ slot hslot => ⟨slot, hslot, le_refl _⟩⟩

theorem mem_receipt_subjects {s : Subject} :
    s ∈ (a.receipt m).subjects ↔
      s ∈ ((m.receipts.get? a.forgetId).map Receipt.subjects).getD [] ∨ s ∈ a.subjects := by
  have h : (a.receipt m).subjects =
      (((m.receipts.get? a.forgetId).map Receipt.subjects).getD []).filter
        (· ∉ ordered a.subjects) ++ ordered a.subjects := rfl
  simp only [h, List.mem_append, List.mem_filter, mem_ordered, decide_eq_true_eq]
  tauto

theorem adds_perform (m : Engine) (a : Attempt) : Adds m (perform m a) := by
  intro f r hr
  by_cases hf : f = a.forgetId
  · subst hf
    refine ⟨a.receipt m, by rw [get?_perform, if_pos rfl], fun s hs => ?_, fun name slot hslot => ?_⟩
    · rw [mem_receipt_subjects, hr]
      exact Or.inl hs
    · rw [← priorSlots_of_receipt hr] at hslot
      by_cases hrun : ∃ s ∈ a.subjects, handles name s = true
      · obtain ⟨slot', hslot', -, hle⟩ := receipt_run m a hrun
        exact ⟨slot', hslot', hle slot hslot⟩
      · refine ⟨slot, ?_, le_refl _⟩
        rw [receipt_idle m a (fun s hs hh => hrun ⟨s, hs, hh⟩)]
        exact hslot
  · refine ⟨r, ?_, fun _ hs => hs, fun _ slot hslot => ⟨slot, hslot, le_refl _⟩⟩
    rw [get?_perform, if_neg hf]
    exact hr

theorem adds_foldl (as : List Attempt) (m : Engine) : Adds m (as.foldl perform m) :=
  foldl_invariant perform (Adds m) (p := fun _ => True)
    (fun m' a h _ => h.trans (adds_perform m' a)) (Adds.refl m) (fun _ _ => trivial)

/-! ## Begun purges -/

/-- Every attempt has a receipt. -/
def Begun (m : Engine) (journal : List Attempt) : Prop :=
  ∀ a ∈ journal, ∃ r, m.receipts.get? a.forgetId = some r

theorem begun_foldl (as : List Attempt) (h : Begun m journal) :
    Begun (as.foldl perform m) (journal ++ as) := by
  induction as generalizing m journal with
  | nil => rw [List.append_nil]; exact h
  | cons a rest ih =>
    rw [List.foldl_cons, List.append_cons]
    refine ih (fun a' ha' => ?_)
    rw [get?_perform]
    split
    · exact ⟨_, rfl⟩
    · next hne =>
      rcases List.mem_append.mp ha' with ha' | ha'
      · exact h a' ha'
      · exact absurd (congrArg Attempt.forgetId (List.mem_singleton.mp ha')) hne

/-- A forget that has a receipt is not restored. -/
theorem restore_refused {r : Receipt} (h : m.receipts.get? f = some r)
    (restores : String → Subject → Bool) (now : Time) :
    restore m restores now f = .error .forgetConflict := by
  have hstarted : purgeStarted m f = true := by rw [purgeStarted, h]; rfl
  unfold restore
  simp only
  rw [if_pos (Or.inr hstarted)]

/-! ## Runs of the engine -/

/-- What every reachable engine has been through. -/
structure Ledger.Inv (w : Ledger) : Prop where
  begun : Begun w.1 w.2
  purged : ∀ f s, HasPurged w.1 f s ↔
    ∃ a ∈ w.2, a.forgetId = f ∧ s ∈ a.subjects ∧ complete a.erase s = true
  honest : ∀ f, HonestAt w.1 w.2 f

theorem inv_start (machineId : String) : Ledger.Inv (Engine.start machineId, []) where
  begun := nofun
  purged f s := by simp [HasPurged, Engine.start]
  honest f := nofun

theorem purged_step {w : Ledger} (h : w.Inv) (op : Time × Act) (f : ForgetId) (s : Subject) :
    HasPurged (w.step op).1 f s ↔
      ∃ a ∈ (w.step op).2, a.forgetId = f ∧ s ∈ a.subjects ∧ complete a.erase s = true := by
  simp only [Ledger.step]
  rw [act_eq, hasPurged_foldl, (extends_prepare w.1 op).hasPurged, h.purged]
  simp only [List.mem_append, or_and_right, exists_or]

theorem begun_step {w : Ledger} (h : w.Inv) (op : Time × Act) :
    Begun (w.step op).1 (w.step op).2 := by
  simp only [Ledger.step]
  rw [act_eq]
  refine begun_foldl _ (fun a ha => ?_)
  rw [(extends_prepare w.1 op).receipts]
  exact h.begun a ha

theorem honest_step {w : Ledger} (h : w.Inv) (op : Time × Act) :
    (∀ f, HonestAt (w.step op).1 (w.step op).2 f) ↔ w.Covered op := by
  have hiff : ∀ f, HonestAt (w.step op).1 (w.step op).2 f ↔
      ∀ a ∈ attempts w.1 op, a.forgetId = f → a.Covers w.2 := by
    intro f
    simp only [Ledger.step]
    rw [act_eq]
    refine honestAt_foldl _ (nodup_attempts w.1 op) ?_
    rw [HonestAt, (extends_prepare w.1 op).receipts]
    exact h.honest f
  simp only [hiff]
  exact ⟨fun hall a ha => hall a.forgetId a ha rfl, fun hall _ a ha _ => hall a ha⟩

theorem keeps_iff_covered {w : Ledger} (h : w.Inv) (op : Time × Act) :
    w.Keeps op ↔ w.Covered op := by
  rw [← honest_step h op]
  constructor
  · exact fun hk => hk.1.honest
  · intro hhonest
    refine ⟨⟨fun a ha restores now => ?_, purged_step h op, hhonest⟩, ?_⟩
    · obtain ⟨r, hr⟩ := begun_step h op a ha
      exact restore_refused hr restores now
    · simp only [Ledger.step]
      rw [act_eq]
      exact (extends_prepare w.1 op).adds.trans (adds_foldl _ _)

theorem inv_step {w : Ledger} (h : w.Inv) (op : Time × Act) (hc : w.Covered op) :
    (w.step op).Inv where
  begun := begun_step h op
  purged := purged_step h op
  honest := (honest_step h op).mpr hc

/-- In every run of the engine: after a purge of a forget has begun its restore is
refused, receipts only ever add, a subject has a `purged` entry exactly when one attempt
had all its stores erase it, and receipts report their stores as they are, exactly when
no attempt that a store passes leaves out a subject the store is still failing on. -/
theorem receipts_kept_iff (machineId : String) (run : List (Time × Act)) :
    Along Ledger.step Ledger.Keeps (Engine.start machineId, []) run ↔
      Along Ledger.step Ledger.Covered (Engine.start machineId, []) run :=
  along_iff Ledger.Inv (fun _ op h => keeps_iff_covered h op) (fun _ op h => inv_step h op)
    (inv_start machineId)

section Overtaken

def letter : Subject := { kind := .artifact, id := "letter" }

def invoice : Subject := { kind := .artifact, id := "invoice" }

/-- Two documents are forgotten for good while the store is down, and one of them is put in
the trash once more before the purge is retried. -/
def overtaken : List (Time × Act) := [
  (1, .forgetPermanently (fun _ _ => true) (fun _ _ => .error "down") [letter, invoice] "ui" ""),
  (2, .trash (fun _ _ => true) [letter] "ui" ""),
  (3, .retryStartedPurges (fun _ _ => .ok 1))]

/-- The retry reports the store done, and it has not erased the letter. -/
theorem not_receipts_kept : ¬ ∀ (machineId : String) (run : List (Time × Act)),
    Along Ledger.step Ledger.Keeps (Engine.start machineId, []) run := by
  intro h
  obtain ⟨-, -, hretry, -⟩ := h "m" overtaken
  have hdone := hretry.1.honest 0 _ "artifacts" _ rfl rfl
  refine hdone.mp rfl letter ⟨by decide, _, rfl, rfl⟩

end Overtaken

end Cerid.Forget
