import Cerid.Forget.Engine

/-!
# A person's forget keeps its requester

A forget that version bookkeeping made may be cancelled when its passage comes
back in a new version; a person's forget may not.  Which of the two a forget is
stands on the entry that wins the fold, so a purge must carry the requester class
of the trash it completes.
-/

namespace Cerid.Forget

/-- A passage. -/
abbrev chunk (id : String) : Subject := { kind := .chunk, id }

/-- Somebody other than version bookkeeping forgot the passage under this forget,
and the forget was never restored. -/
def PersonForgot (log : List Entry) (id : String) (f : ForgetId) : Prop :=
  (∃ t ∈ log, t.subject = chunk id ∧ t.forgetId = f ∧ t.state = .trashed ∧
    t.requestedBy ∉ VERSION_KEEPING) ∧
  ∀ r ∈ log, r.subject = chunk id → r.forgetId = f → r.state ≠ .restored

/-- What a re-ingest owes to a person's forget: no entry re-adds it, its purge is
not recorded as version bookkeeping, the passage stays forgotten and is not taken
for a retired one, and once purged neither it nor a child of it is written. -/
def NeverReadded (m : Engine) : Prop :=
  ∀ id f, PersonForgot m.log id f →
    (∀ e ∈ m.log, e.subject = chunk id → e.forgetId = f → e.state ≠ .readded) ∧
    (∀ e ∈ m.log, e.subject = chunk id → e.forgetId = f → e.state = .purged →
      e.requestedBy ∉ VERSION_KEEPING) ∧
    isForgotten m.reg (chunk id) = true ∧
    id ∉ forgottenOnlyBy m.reg .chunk VERSION_KEEPING ∧
    (id ∈ purgedIds m.reg .chunk → ∀ now records, ∀ r ∈ (dropPurgedChunks m now records).2,
      r.id ≠ id ∧ r.parentId ≠ id)

/-- Emptying the trash by age purges no passage that a person forgot: whatever
passage it selects and erases was trashed by version bookkeeping. -/
def KeepsRequester (m : Engine) : Time × Act → Prop
  | (now, .emptyTrash erase (some (days + 1))) =>
    ∀ e ∈ expired m now (some (days + 1)), e.subject.kind = .chunk →
      complete erase e.subject = true → e.requestedBy ∈ VERSION_KEEPING
  | _ => True

instance (log : List Entry) (id : String) (f : ForgetId) : Decidable (PersonForgot log id f) :=
  inferInstanceAs (Decidable ((∃ t ∈ log, _) ∧ ∀ r ∈ log, _))

instance (m : Engine) : (op : Time × Act) → Decidable (KeepsRequester m op)
  | (_, .emptyTrash _ (some (_ + 1))) => inferInstanceAs (Decidable (∀ e ∈ expired m _ _, _))
  | (_, .emptyTrash _ (some 0)) | (_, .emptyTrash _ none) | (_, .trash _ _ _ _)
  | (_, .restore _ _) | (_, .purge _ _) | (_, .forgetPermanently _ _ _ _ _)
  | (_, .retryStartedPurges _) | (_, .forgetGate _ _) | (_, .dropPurgedChunks _) => isTrue trivial

/-! ## The invariant -/

/-- What holds of a log in which no forget of a person has changed hands. -/
structure Sound (log : List Entry) (next : ForgetId) : Prop where
  fresh : ∀ e ∈ log, e.forgetId < next
  requester : ∀ t ∈ log, ∀ t' ∈ log, t.state = .trashed → t'.state = .trashed →
    t.forgetId = t'.forgetId → t.requestedBy = t'.requestedBy
  purged : ∀ t ∈ log, ∀ p ∈ log, t.state = .trashed → p.state = .purged →
    p.subject = t.subject → p.forgetId = t.forgetId → t.subject.kind = .chunk →
    t.requestedBy ∉ VERSION_KEEPING → p.requestedBy ∉ VERSION_KEEPING
  readded : ∀ id f, PersonForgot log id f →
    ∀ e ∈ log, e.subject = chunk id → e.forgetId = f → e.state ≠ .readded

theorem personForgot_of_append {log es : List Entry} {id : String} {f : ForgetId}
    (h : PersonForgot (log ++ es) id f) (hes : ∀ e ∈ es, e.state ≠ .trashed ∨ e.forgetId ≠ f) :
    PersonForgot log id f := by
  obtain ⟨⟨t, ht, hts, htf, htt, htr⟩, hnr⟩ := h
  refine ⟨⟨t, ?_, hts, htf, htt, htr⟩, fun r hr => hnr r (List.mem_append_left es hr)⟩
  rcases List.mem_append.mp ht with ht | ht
  · exact ht
  · exact absurd htf ((hes t ht).resolve_left (not_not.mpr htt))

/-- A trash under a fresh forget id. -/
theorem Sound.trash {log log' : List Entry} {next : ForgetId} {requestedBy : String}
    (h : Sound log next) (hw : Wrote log log' (fun e =>
      e.state = .trashed ∧ e.forgetId = next ∧ e.requestedBy = requestedBy)) :
    Sound log' (next + 1) := by
  obtain ⟨es, rfl, hes⟩ := hw
  constructor
  · intro e he
    rcases List.mem_append.mp he with he | he
    · exact Nat.lt_succ_of_lt (h.fresh e he)
    · rw [(hes e he).2.1]
      exact Nat.lt_succ_self next
  · intro t ht t' ht' hts hts' hf
    rcases List.mem_append.mp ht with ht | ht <;> rcases List.mem_append.mp ht' with ht' | ht'
    · exact h.requester t ht t' ht' hts hts' hf
    · exact absurd ((hf.trans (hes t' ht').2.1) ▸ h.fresh t ht) (lt_irrefl _)
    · exact absurd ((hf.symm.trans (hes t ht).2.1) ▸ h.fresh t' ht') (lt_irrefl _)
    · rw [(hes t ht).2.2, (hes t' ht').2.2]
  · intro t ht p hp hts hps hsub hf hkind hr
    rcases List.mem_append.mp hp with hp | hp
    · rcases List.mem_append.mp ht with ht | ht
      · exact h.purged t ht p hp hts hps hsub hf hkind hr
      · exact absurd ((hf.trans (hes t ht).2.1) ▸ h.fresh p hp) (lt_irrefl _)
    · exact absurd ((hes p hp).1.symm.trans hps) (by decide)
  · intro id f hperson e he hes' hef hstate
    rcases List.mem_append.mp he with he | he
    · refine h.readded id f (personForgot_of_append hperson (fun x hx => ?_)) e he hes' hef hstate
      refine Or.inr (fun hxf => ?_)
      have hlt := h.fresh e he
      rw [hef, ← hxf, (hes x hx).2.1] at hlt
      exact absurd hlt (lt_irrefl _)
    · exact absurd ((hes e he).1.symm.trans hstate) (by decide)

/-- Restores of known forgets. -/
theorem Sound.restore {log log' : List Entry} {next : ForgetId} (h : Sound log next)
    (hw : Wrote log log' (fun e => e.state = .restored ∧ e.forgetId < next)) :
    Sound log' next := by
  obtain ⟨es, rfl, hes⟩ := hw
  have hold : ∀ e ∈ log ++ es, e.state ≠ .restored → e ∈ log := by
    intro e he hstate
    exact (List.mem_append.mp he).resolve_right (fun he' => hstate (hes e he').1)
  constructor
  · intro e he
    exact (List.mem_append.mp he).elim (h.fresh e) (fun he' => (hes e he').2)
  · intro t ht t' ht' hts hts'
    exact h.requester t (hold t ht (by simp [hts])) t' (hold t' ht' (by simp [hts'])) hts hts'
  · intro t ht p hp hts hps
    exact h.purged t (hold t ht (by simp [hts])) p (hold p hp (by simp [hps])) hts hps
  · intro id f hperson e he hsub hf hstate
    refine h.readded id f (personForgot_of_append hperson (fun x hx => ?_)) e
      (hold e he (by simp [hstate])) hsub hf hstate
    exact Or.inl (by simp [(hes x hx).1])

theorem Sound.purge {log log' : List Entry} {next : ForgetId} (h : Sound log next)
    (hw : Wrote log log' (fun p => p.state = .purged ∧ p.forgetId < next ∧
      ∀ t ∈ log, t.state = .trashed → p.subject = t.subject → p.forgetId = t.forgetId →
        t.subject.kind = .chunk → t.requestedBy ∉ VERSION_KEEPING →
        p.requestedBy ∉ VERSION_KEEPING)) :
    Sound log' next := by
  obtain ⟨es, rfl, hes⟩ := hw
  have hold : ∀ e ∈ log ++ es, e.state ≠ .purged → e ∈ log := by
    intro e he hstate
    exact (List.mem_append.mp he).resolve_right (fun he' => hstate (hes e he').1)
  constructor
  · intro e he
    exact (List.mem_append.mp he).elim (h.fresh e) (fun he' => (hes e he').2.1)
  · intro t ht t' ht' hts hts'
    exact h.requester t (hold t ht (by simp [hts])) t' (hold t' ht' (by simp [hts'])) hts hts'
  · intro t ht p hp hts hps
    have ht := hold t ht (by simp [hts])
    rcases List.mem_append.mp hp with hp | hp
    · exact h.purged t ht p hp hts hps
    · exact (hes p hp).2.2 t ht hts
  · intro id f hperson e he hsub hf hstate
    refine h.readded id f (personForgot_of_append hperson (fun x hx => ?_)) e
      (hold e he (by simp [hstate])) hsub hf hstate
    exact Or.inl (by simp [(hes x hx).1])

theorem Sound.readd {log log' : List Entry} {next : ForgetId} (h : Sound log next)
    (hw : Wrote log log' (fun e => e.state = .readded ∧ e.forgetId < next ∧
      ∀ id, e.subject = chunk id → ¬ PersonForgot log id e.forgetId)) :
    Sound log' next := by
  obtain ⟨es, rfl, hes⟩ := hw
  have hold : ∀ e ∈ log ++ es, e.state ≠ .readded → e ∈ log := by
    intro e he hstate
    exact (List.mem_append.mp he).resolve_right (fun he' => hstate (hes e he').1)
  constructor
  · intro e he
    exact (List.mem_append.mp he).elim (h.fresh e) (fun he' => (hes e he').2.1)
  · intro t ht t' ht' hts hts'
    exact h.requester t (hold t ht (by simp [hts])) t' (hold t' ht' (by simp [hts'])) hts hts'
  · intro t ht p hp hts hps
    exact h.purged t (hold t ht (by simp [hts])) p (hold p hp (by simp [hps])) hts hps
  · intro id f hperson e he hsub hf hstate
    have hperson : PersonForgot log id f :=
      personForgot_of_append hperson (fun x hx => Or.inl (by simp [(hes x hx).1]))
    rcases List.mem_append.mp he with he | he
    · exact h.readded id f hperson e he hsub hf hstate
    · exact (hes e he).2.2 id hsub (hf ▸ hperson)

/-- A person's forget that was not restored is live, and its requester stands. -/
theorem Sound.winner {log : List Entry} {next : ForgetId} (h : Sound log next) {id : String}
    {f : ForgetId} (hp : PersonForgot log id f) :
    ∃ w, winner log (chunk id) f = some w ∧ w.state ∈ forgottenStates ∧
      w.requestedBy ∉ VERSION_KEEPING := by
  obtain ⟨t, ht, hts, htf, htt, htr⟩ := hp.1
  obtain ⟨w, hw⟩ := exists_lastMax_of_mem rank
    (mem_entriesOf.mpr ⟨ht, by simp [htt], hts, htf⟩ : t ∈ entriesOf log (chunk id) f)
  have hcancel : (chunk id, f) ∉ cancelled log := by
    intro hc
    obtain ⟨e, he, hr, hs, hf⟩ := mem_cancelled.mp hc
    exact h.readded id f hp e he hs hf hr
  have hwin := winner_eq_some.mpr ⟨hcancel, hw⟩
  obtain ⟨hwl, hwr, hws, hwf⟩ := winner_mem hwin
  refine ⟨w, hwin, ?_⟩
  cases hstate : w.state with
  | trashed =>
    exact ⟨by decide, h.requester t ht w hwl htt hstate (htf.trans hwf.symm) ▸ htr⟩
  | purged =>
    exact ⟨by decide, h.purged t ht w hwl htt hstate (hws.trans hts.symm) (hwf.trans htf.symm)
      (by rw [hts]) htr⟩
  | restored => exact absurd hstate (hp.2 w hwl hws hwf)
  | readded => exact absurd hstate hwr

/-! ## The operations keep it -/

theorem mem_cancels {log : List Entry} {s : Subject} {only : Option (List String)} {f : ForgetId}
    (h : f ∈ cancels (index log) s only) :
    Live log s f ∧ ∀ allowed, only = some allowed →
      ∃ q ∈ allowed, liveByOf (index log).liveBy s f = some q := by
  unfold cancels at h
  cases hget : (index log).bySubject.get? s with
  | none => simp [hget] at h
  | some e =>
    rw [hget] at h
    by_cases hstate : e.state ∈ forgottenStates
    · have hlive : ∀ f ∈ (((index log).live.get? s).getD []).insert e.forgetId, Live log s f := by
        intro f hf
        rcases List.mem_insert_iff.mp hf with rfl | hf
        · rcases bySubject_spec hget with ⟨hw, -⟩ | ⟨-, hn, -⟩ | ⟨-, hr, -⟩
          · exact ⟨e, hw, hstate⟩
          · exact absurd hstate hn
          · exact absurd (hr ▸ hstate) (by decide)
        · exact (mem_live log s f).mp hf
      simp only [hstate, if_true] at h
      cases only with
      | none =>
        rw [List.mem_insertionSort] at h
        exact ⟨hlive f h, by simp⟩
      | some allowed =>
        rw [List.mem_filter, List.mem_insertionSort] at h
        refine ⟨hlive f h.1, fun allowed' ha => ?_⟩
        obtain ⟨q, hq, hqa⟩ := (Option.any_eq_true _ _).mp h.2
        rw [Option.some.injEq] at ha
        exact ⟨q, ha ▸ by simpa using hqa, hq⟩
    · simp [hstate] at h

theorem sound_recordReadd {m : Engine} (h : Sound m.log m.nextId) (now : Time) (s : Subject)
    (requestedBy : String) (only : Option (List String))
    (honly : s.kind = .chunk → only = some VERSION_KEEPING) :
    Sound (recordReadd m now s requestedBy only).1.log m.nextId := by
  refine h.readd (wrote_dump (fun e he => ?_))
  obtain ⟨f, hf, rfl⟩ := List.mem_map.mp he
  obtain ⟨⟨w, hw, hstate⟩, hallowed⟩ := mem_cancels hf
  obtain ⟨hwl, -, -, hwf⟩ := winner_mem hw
  refine ⟨rfl, hwf ▸ h.fresh w hwl, fun id hid hperson => ?_⟩
  have hid : s = chunk id := hid
  obtain ⟨q, hq, hby⟩ := hallowed VERSION_KEEPING (honly (by rw [hid]))
  obtain ⟨w', hw', -, hreq⟩ := h.winner hperson
  rw [hid] at hw hby
  have heq : w = w' := Option.some.inj (hw.symm.trans hw')
  rw [liveByOf_index, hw] at hby
  simp only [Option.filter, hstate, decide_true, if_true, Option.map_some,
    Option.some.injEq] at hby
  exact hreq (heq ▸ hby ▸ hq)

theorem sound_trash {m : Engine} (h : Sound m.log m.nextId) (hides : String → Subject → Bool)
    (now : Time) (subjects : List Subject) (requestedBy userId : String) :
    Sound (trash m hides now subjects requestedBy userId).1.log (m.nextId + 1) := by
  obtain ⟨es, hlog, hes⟩ := record_log { m with nextId := m.nextId + 1 } now (ordered subjects)
    m.nextId .trashed requestedBy userId
  exact h.trash ⟨es, hlog, fun e he => ⟨(hes e he).1, (hes e he).2.1, (hes e he).2.2.1⟩⟩

theorem sound_restore {m : Engine} (h : Sound m.log m.nextId) {restores : String → Subject → Bool}
    {now : Time} {f : ForgetId} {r : Engine × Nat} (hr : restore m restores now f = .ok r) :
    Sound r.1.log m.nextId := by
  obtain ⟨⟨es, hlog, hes⟩, -⟩ := restore_log hr
  refine h.restore ⟨es, hlog, fun e he => ⟨(hes e he).1, ?_⟩⟩
  obtain ⟨x, hx, hxf⟩ := (hes e he).2
  exact hxf ▸ h.fresh x hx

/-- A purge of subjects trashed under the forget, by a requester that keeps the
class of each trash it completes. -/
theorem sound_purgeSubjects {m : Engine} (h : Sound m.log m.nextId)
    {erase : String → Subject → Except String Nat} {now : Time} {f : ForgetId}
    {subjects : List Subject} {requestedBy userId : String} (hf : ∀ s ∈ subjects, f < m.nextId)
    (hclass : ∀ s ∈ subjects, complete erase s = true → ∀ t ∈ m.log, t.state = .trashed →
      t.subject = s → t.forgetId = f → s.kind = .chunk → t.requestedBy ∉ VERSION_KEEPING →
        requestedBy ∉ VERSION_KEEPING) :
    Sound (purgeSubjects m erase now f subjects requestedBy userId).1.log m.nextId := by
  obtain ⟨es, hlog, hes⟩ := purgeSubjects_log m erase now f subjects requestedBy userId
  refine h.purge ⟨es, hlog, fun p hp => ?_⟩
  obtain ⟨hstate, hpf, hreq, hs, hcomplete⟩ := hes p hp
  refine ⟨hstate, hpf ▸ hf p.subject hs, fun t ht hts hsub htf hkind hr => ?_⟩
  rw [hreq]
  exact hclass p.subject hs hcomplete t ht hts hsub.symm (htf.symm.trans hpf) (hsub ▸ hkind) hr

/-- Groups of trashed entries of one forget each, purged by a requester that
keeps the class of each passage the stores erase. -/
theorem sound_purgeGroups {erase : String → Subject → Except String Nat} {now : Time}
    {requester : List Entry → String} {groups : List (ForgetId × List Entry)}
    (acc : Engine × List ForgetId) (h : Sound acc.1.log acc.1.nextId)
    (hgroups : ∀ g ∈ groups, ∀ e ∈ g.2,
      e ∈ acc.1.log ∧ e.state = .trashed ∧ e.forgetId = g.1)
    (hclass : ∀ g ∈ groups, ∀ e ∈ g.2, e.subject.kind = .chunk → complete erase e.subject = true →
      e.requestedBy ∉ VERSION_KEEPING → requester g.2 ∉ VERSION_KEEPING) :
    Sound (groups.foldl (purgeGroup erase now requester) acc).1.log acc.1.nextId ∧
      (groups.foldl (purgeGroup erase now requester) acc).1.nextId = acc.1.nextId := by
  induction groups generalizing acc with
  | nil => exact ⟨h, rfl⟩
  | cons g rest ih =>
    rw [List.foldl_cons]
    have hpurge : Sound (purgeGroup erase now requester acc g).1.log acc.1.nextId := by
      refine sound_purgeSubjects h (fun s hs => ?_) (fun s hs hcomplete t ht htt _ htf hk htr => ?_)
      · obtain ⟨e, he, -⟩ := List.mem_map.mp hs
        obtain ⟨hel, -, hef⟩ := hgroups g List.mem_cons_self e he
        exact hef ▸ h.fresh e hel
      · obtain ⟨e, he, rfl⟩ := List.mem_map.mp hs
        obtain ⟨hel, het, hef⟩ := hgroups g List.mem_cons_self e he
        refine hclass g List.mem_cons_self e he hk hcomplete ?_
        rw [← h.requester t ht e hel htt het (htf.trans hef.symm)]
        exact htr
    obtain ⟨es, hlog, -⟩ := purgeSubjects_log acc.1 erase now g.1 (g.2.map Entry.subject)
      (requester g.2) ((g.2.head?.map Entry.userId).getD "")
    refine ih _ hpurge (fun g' hg' e he => ?_) (fun g' hg' => hclass g' (List.mem_cons_of_mem g hg'))
    obtain ⟨hel, hrest⟩ := hgroups g' (List.mem_cons_of_mem g hg') e he
    exact ⟨hlog ▸ List.mem_append_left es hel, hrest⟩

theorem mem_expired {m : Engine} {now : Time} {older : Option Nat} {e : Entry}
    (h : e ∈ expired m now older) : e ∈ m.log ∧ e.state = .trashed := by
  rw [expired, List.mem_filter, decide_eq_true_eq] at h
  exact ⟨mem_of_mem_latest h.1, h.2.1⟩

theorem mem_started {m : Engine} {e : Entry} (h : e ∈ started m) :
    e ∈ m.log ∧ e.state = .trashed := by
  rw [started, List.mem_filter, decide_eq_true_eq] at h
  exact ⟨mem_of_mem_latest h.1, h.2.1⟩

theorem sound_emptyTrash {m : Engine} (h : Sound m.log m.nextId)
    {erase : String → Subject → Except String Nat} {now : Time} {older : Option Nat}
    (hkeeps : KeepsRequester m (now, .emptyTrash erase older)) :
    Sound (emptyTrash m erase now older).1.log m.nextId ∧
      (emptyTrash m erase now older).1.nextId = m.nextId := by
  refine sound_purgeGroups (m, []) h (fun g hg e he => ?_) (fun g hg e he hk hc hr => ?_)
  · obtain ⟨hex, hf⟩ := mem_byForget hg e he
    exact ⟨(mem_expired hex).1, (mem_expired hex).2, hf⟩
  · have hui : "ui" ∉ VERSION_KEEPING := by decide
    match older with
    | none => exact hui
    | some 0 => exact hui
    | some (days + 1) => exact absurd (hkeeps e (mem_byForget hg e he).1 hk hc) hr

theorem sound_retryStartedPurges {m : Engine} (h : Sound m.log m.nextId)
    (erase : String → Subject → Except String Nat) (now : Time) :
    Sound (retryStartedPurges m erase now).1.log m.nextId ∧
      (retryStartedPurges m erase now).1.nextId = m.nextId := by
  have hgroup : ∀ g ∈ (byForget (started m)).items, ∀ e ∈ g.2,
      e ∈ m.log ∧ e.state = .trashed ∧ e.forgetId = g.1 := by
    intro g hg e he
    obtain ⟨hst, hf⟩ := mem_byForget hg e he
    exact ⟨(mem_started hst).1, (mem_started hst).2, hf⟩
  refine sound_purgeGroups (m, []) h hgroup (fun g hg e he _ _ hr => ?_)
  -- all the trashed entries of one forget share its requester
  cases hes : g.2 with
  | nil => simp [hes] at he
  | cons first rest =>
    obtain ⟨hel, het, hef⟩ := hgroup g hg e he
    obtain ⟨hfl, hft, hff⟩ := hgroup g hg first (hes ▸ List.mem_cons_self)
    have heq := h.requester first hfl e hel hft het (hff.trans hef.symm)
    simp only [List.head?_cons, Option.map_some, Option.getD_some, heq]
    exact hr

theorem sound_dropPurgedChunks {m : Engine} (h : Sound m.log m.nextId) (now : Time)
    (records : List Passage) :
    Sound (dropPurgedChunks m now records).1.log m.nextId ∧
      (dropPurgedChunks m now records).1.nextId = m.nextId := by
  unfold dropPurgedChunks
  simp only
  generalize forgottenOnlyBy m.reg .chunk VERSION_KEEPING = retired
  induction records generalizing m with
  | nil => exact ⟨h, rfl⟩
  | cons r rest ih =>
    rw [List.foldl_cons]
    split
    · exact ih (sound_recordReadd h now _ "ingest" (some VERSION_KEEPING) (fun _ => rfl))
    · exact ih h

theorem sound_act {m : Engine} (h : Sound m.log m.nextId) {op : Time × Act}
    (hkeeps : KeepsRequester m op) : Sound (act m op).log (act m op).nextId := by
  obtain ⟨now, op⟩ := op
  cases op with
  | trash hides subjects requestedBy userId =>
    exact sound_trash h hides now subjects requestedBy userId
  | restore restores f =>
    simp only [act]
    cases hr : restore m restores now f with
    | ok r =>
      simp only [(restore_log hr).2]
      exact sound_restore h hr
    | error _ => exact h
  | purge erase f =>
    refine sound_purgeSubjects h (fun s hs => ?_) (fun _ _ _ _ _ _ _ _ _ _ => by decide)
    obtain ⟨e, he, -⟩ := List.mem_map.mp hs
    obtain ⟨hel, hef⟩ := mem_forgetEntries (List.mem_of_mem_filter he)
    exact hef ▸ h.fresh e hel
  | forgetPermanently hides erase subjects requestedBy userId =>
    have ht := sound_trash h hides now subjects requestedBy userId
    refine sound_purgeSubjects (m := (trash m hides now subjects requestedBy userId).1) ht
      (fun _ _ => Nat.lt_succ_self m.nextId) (fun s _ _ t ht' htt _ htf _ htr => ?_)
    -- the forget id is new, so its trashed entries are those of this call
    obtain ⟨es, hlog, hes⟩ := record_log { m with nextId := m.nextId + 1 } now (ordered subjects)
      m.nextId .trashed requestedBy userId
    have htl : t ∈ m.log ++ es := hlog ▸ ht'
    rcases List.mem_append.mp htl with htl | htl
    · exact absurd (htf ▸ h.fresh t htl) (lt_irrefl _)
    · exact (hes t htl).2.2.1 ▸ htr
  | emptyTrash erase older =>
    obtain ⟨hs, hn⟩ := sound_emptyTrash h hkeeps
    simp only [act, hn]
    exact hs
  | retryStartedPurges erase =>
    obtain ⟨hs, hn⟩ := sound_retryStartedPurges h erase now
    simp only [act, hn]
    exact hs
  | forgetGate artifactId skip =>
    simp only [act, forgetGate]
    split
    · split
      · exact h
      · exact sound_recordReadd h now _ "ingest" none (by intro hk; simp at hk)
    · exact h
  | dropPurgedChunks records =>
    obtain ⟨hs, hn⟩ := sound_dropPurgedChunks h now records
    simp only [act, hn]
    exact hs

theorem sound_start (machineId : String) :
    Sound (Engine.start machineId).log (Engine.start machineId).nextId := by
  constructor <;> simp [Engine.start, Engine.log, parse]

/-! ## What it gives -/

theorem mem_dropPurgedChunks {m : Engine} {now : Time} {records : List Passage} {id : String}
    (hp : id ∈ purgedIds m.reg .chunk)
    (hr : id ∉ forgottenOnlyBy m.reg .chunk VERSION_KEEPING) :
    ∀ r ∈ (dropPurgedChunks m now records).2, r.id ≠ id ∧ r.parentId ≠ id := by
  intro r hmem
  have hpurged : id ∈ (purgedIds m.reg .chunk).filter
      (· ∉ forgottenOnlyBy m.reg .chunk VERSION_KEEPING) := by
    rw [List.mem_filter]
    exact ⟨hp, by simpa using hr⟩
  have hkeep := (List.mem_filter.mp hmem).2
  rw [decide_eq_true_eq] at hkeep
  exact ⟨fun h => hkeep.1 (h ▸ hpurged), fun h => hkeep.2 (h ▸ hpurged)⟩

theorem Sound.neverReadded {m : Engine} (h : Sound m.log m.nextId) : NeverReadded m := by
  intro id f hperson
  obtain ⟨w, hw, hstate, hreq⟩ := h.winner hperson
  have hretired : id ∉ forgottenOnlyBy m.reg .chunk VERSION_KEEPING :=
    fun hmem => hreq (forgottenOnlyBy_spec hmem hw hstate)
  obtain ⟨t, ht, hts, htf, htt, htr⟩ := hperson.1
  refine ⟨h.readded id f hperson, fun p hp hps hpf hpp => ?_,
    (isForgotten_iff_live m.log (chunk id)).mpr ⟨f, w, hw, hstate⟩, hretired,
    fun hpurged now records => mem_dropPurgedChunks hpurged hretired⟩
  exact h.purged t ht p hp htt hpp (hps.trans hts.symm) (hpf.trans htf.symm) (by rw [hts]) htr

/-- Along a run in which emptying the trash by age only purges passages that
version bookkeeping trashed, no person's forget of a passage is ever re-added. -/
theorem neverReadded_of_keepsRequester {machineId : String} {ops : List (Time × Act)}
    (h : Along act KeepsRequester (Engine.start machineId) ops) :
    NeverReadded (ops.foldl act (Engine.start machineId)) :=
  Sound.neverReadded (Along.invariant (fun m => Sound m.log m.nextId)
    (fun _ _ hs hk => sound_act hs hk) (sound_start machineId) h)

section Sample

/-- Stores that hide, restore and erase whatever they are asked to. -/
def storesUp : String → Subject → Bool := fun _ _ => true

def erasesOne : String → Subject → Except String Nat := fun _ _ => .ok 1

/-- A person trashes one passage and the document's retention another; the trash
is emptied by hand, then by age, and both passages come back in a new version. -/
theorem neverReadded_emptiedByHand :
    NeverReadded ([
      (0, .trash storesUp [chunk "a1_0"] "ui" ""),
      (1, .emptyTrash erasesOne none),
      (2, .trash storesUp [chunk "a1_1"] "undo" ""),
      (40 * dayMicros, .emptyTrash erasesOne (some 30)),
      (41 * dayMicros, .dropPurgedChunks [⟨"a1_0", ""⟩, ⟨"a1_1", ""⟩])].foldl act
        (Engine.start "m1")) :=
  neverReadded_of_keepsRequester ⟨trivial, trivial, trivial, by decide, trivial, trivial⟩

/-- A person trashes a passage, the trash is emptied by age forty days later, and
the next version of the document brings the passage back. -/
theorem not_neverReadded :
    ¬ NeverReadded ([
      (0, .trash storesUp [chunk "a1_0"] "ui" ""),
      (40 * dayMicros, .emptyTrash erasesOne (some 30)),
      (41 * dayMicros, .dropPurgedChunks [⟨"a1_0", ""⟩])].foldl act (Engine.start "m1")) := by
  intro h
  have hforgotten := (h "a1_0" 0 (by decide)).2.2.1
  exact absurd hforgotten (by decide)

end Sample

end Cerid.Forget
