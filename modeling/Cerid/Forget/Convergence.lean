import Cerid.Forget.Fold

/-!
# The fold as a function of the set of entries

The forgets of a subject are judged one by one: a forget that no re-add names
keeps its subject forgotten when it has a purged entry, or when its latest entry
is trashed.  Entries of one forget that share the latest time are settled by the
order they were read in, and apart from such ties only the set of entries
matters.
-/

namespace Cerid.Forget

/-- The latest entry of a forget by `at`, the one read last on a tie. -/
def latestOf (everything : List Entry) (s : Subject) (f : ForgetId) : Option Entry :=
  lastMax Entry.at_ (entriesOf everything s f)

/-- A re-add names this forget of the subject. -/
def Readded (everything : List Entry) (s : Subject) (f : ForgetId) : Prop :=
  ∃ e ∈ everything, e.state = .readded ∧ e.subject = s ∧ e.forgetId = f

/-- The forget has a purged entry for the subject. -/
def Purged (everything : List Entry) (s : Subject) (f : ForgetId) : Prop :=
  ∃ e ∈ everything, e.state = .purged ∧ e.subject = s ∧ e.forgetId = f

/-- What the entries say of a subject. -/
def Prescribed (everything : List Entry) (s : Subject) : Prop :=
  ∃ f, ¬ Readded everything s f ∧
    (Purged everything s f ∨
      ∃ e, latestOf everything s f = some e ∧ e.state = .trashed)

/-- The forget has a trashed and a restored entry that share its latest time. -/
def Tied (everything : List Entry) (s : Subject) (f : ForgetId) : Prop :=
  ∃ t ∈ entriesOf everything s f, ∃ r ∈ entriesOf everything s f,
    t.state = .trashed ∧ r.state = .restored ∧ t.at_ = r.at_ ∧
      ∀ x ∈ entriesOf everything s f, x.at_ ≤ t.at_

theorem winner_of_purged {everything : List Entry} {s : Subject} {f : ForgetId}
    (hr : ¬ Readded everything s f) (hp : Purged everything s f) :
    ∃ w, winner everything s f = some w ∧ w.state = .purged := by
  obtain ⟨e, he, hstate, hs, hf⟩ := hp
  have hmem : e ∈ entriesOf everything s f :=
    mem_entriesOf.mpr ⟨he, by simp [hstate], hs, hf⟩
  obtain ⟨w, hw⟩ := exists_lastMax_of_mem rank hmem
  refine ⟨w, winner_eq_some.mpr ⟨fun h => hr (mem_cancelled.mp h), hw⟩, ?_⟩
  have hle := (rank_le_iff _ _).mp (lastMax_max rank hw hmem)
  rcases hle with ⟨hne, -⟩ | ⟨hiff, -⟩
  · exact absurd hstate hne
  · exact hiff.mp hstate

theorem winner_of_not_purged {everything : List Entry} {s : Subject} {f : ForgetId}
    (hr : ¬ Readded everything s f) (hp : ¬ Purged everything s f) :
    winner everything s f = latestOf everything s f := by
  have hc : (s, f) ∉ cancelled everything := fun h => hr (mem_cancelled.mp h)
  rw [winner, if_neg hc]
  refine lastMax_congr rank Entry.at_ (fun a ha b hb => ?_)
  have hnp : ∀ x ∈ entriesOf everything s f, x.state ≠ .purged := by
    intro x hx hstate
    obtain ⟨hmem, -, hs, hf⟩ := mem_entriesOf.mp hx
    exact hp ⟨x, hmem, hstate, hs, hf⟩
  simp [rank_le_iff, hnp a ha, hnp b hb]

theorem live_iff {everything : List Entry} {s : Subject} {f : ForgetId} :
    Live everything s f ↔ ¬ Readded everything s f ∧
      (Purged everything s f ∨
        ∃ e, latestOf everything s f = some e ∧ e.state = .trashed) := by
  constructor
  · rintro ⟨w, hw, hstate⟩
    have hr : ¬ Readded everything s f :=
      fun h => (winner_eq_some.mp hw).1 (mem_cancelled.mpr h)
    refine ⟨hr, ?_⟩
    by_cases hp : Purged everything s f
    · exact Or.inl hp
    · have hnp : w.state ≠ .purged := by
        intro h
        obtain ⟨hmem, -, hs, hf⟩ := winner_mem hw
        exact hp ⟨w, hmem, h, hs, hf⟩
      refine Or.inr ⟨w, winner_of_not_purged hr hp ▸ hw, ?_⟩
      simpa [forgottenStates, hnp] using hstate
  · rintro ⟨hr, hp⟩
    by_cases hpurged : Purged everything s f
    · obtain ⟨w, hw, hstate⟩ := winner_of_purged hr hpurged
      exact ⟨w, hw, by simp [forgottenStates, hstate]⟩
    · rcases hp with hp | ⟨e, he, hstate⟩
      · exact absurd hp hpurged
      · exact ⟨e, (winner_of_not_purged hr hpurged).trans he, by simp [forgottenStates, hstate]⟩

theorem latestOf_trashed_iff {everything : List Entry} {s : Subject} {f : ForgetId}
    (hp : ¬ Purged everything s f) (ht : ¬ Tied everything s f) :
    (∃ e, latestOf everything s f = some e ∧ e.state = .trashed) ↔
      ∃ e ∈ entriesOf everything s f, e.state = .trashed ∧
        ∀ x ∈ entriesOf everything s f, x.at_ ≤ e.at_ := by
  constructor
  · rintro ⟨e, he, hstate⟩
    exact ⟨e, lastMax_mem Entry.at_ he, hstate, fun x hx => lastMax_max Entry.at_ he hx⟩
  · rintro ⟨e, he, hstate, hmax⟩
    obtain ⟨w, hw⟩ := exists_lastMax_of_mem Entry.at_ he
    have hwmem := lastMax_mem Entry.at_ hw
    have hat : e.at_ = w.at_ := Nat.le_antisymm (lastMax_max Entry.at_ hw he) (hmax w hwmem)
    refine ⟨w, hw, ?_⟩
    obtain ⟨hmem, hr, hs, hf⟩ := mem_entriesOf.mp hwmem
    cases hws : w.state with
    | trashed => rfl
    | restored => exact absurd ⟨e, he, w, hwmem, hstate, hws, hat, hmax⟩ ht
    | purged => exact absurd ⟨w, hmem, hws, hs, hf⟩ hp
    | readded => exact absurd hws hr

theorem live_congr {es es' : List Entry} {s : Subject} {f : ForgetId}
    (hmem : ∀ e, e ∈ es ↔ e ∈ es')
    (ht : ¬ Readded es s f → ¬ Purged es s f → ¬ Tied es s f) :
    Live es s f ↔ Live es' s f := by
  have hof : ∀ e, e ∈ entriesOf es s f ↔ e ∈ entriesOf es' s f := by
    intro e
    rw [mem_entriesOf, mem_entriesOf, hmem]
  have hread : Readded es s f ↔ Readded es' s f := by simp [Readded, hmem]
  have hpurge : Purged es s f ↔ Purged es' s f := by simp [Purged, hmem]
  rw [live_iff, live_iff, ← hread, ← hpurge]
  by_cases hr : Readded es s f
  · simp [hr]
  · by_cases hp : Purged es s f
    · simp [hr, hp]
    · have htie := ht hr hp
      have htie' : ¬ Tied es' s f := by
        rw [Tied] at htie ⊢
        simpa only [hof] using htie
      rw [latestOf_trashed_iff hp htie, latestOf_trashed_iff (hpurge.not.mp hp) htie']
      simp [hof]

theorem live_mono {es es' : List Entry} {s : Subject} {f : ForgetId} (hlive : Live es s f)
    (hsub : ∀ e ∈ es, e ∈ es')
    (hnew : ∀ e ∈ es', e.subject = s → e.state = .restored ∨ e.state = .readded → e ∈ es)
    (ht : ∀ t ∈ es', ∀ r ∈ es', t.subject = s → r.subject = s → t.forgetId = r.forgetId →
      t.state = .trashed → r.state = .restored → t.at_ ≠ r.at_) :
    Live es' s f := by
  obtain ⟨hr, hcase⟩ := live_iff.mp hlive
  have hr' : ¬ Readded es' s f := by
    rintro ⟨e, he, hstate, hs, hf⟩
    exact hr ⟨e, hnew e he hs (Or.inr hstate), hstate, hs, hf⟩
  refine live_iff.mpr ⟨hr', ?_⟩
  by_cases hp' : Purged es' s f
  · exact Or.inl hp'
  · have hp : ¬ Purged es s f := by
      rintro ⟨e, he, hrest⟩
      exact hp' ⟨e, hsub e he, hrest⟩
    obtain ⟨e, he, hstate⟩ := hcase.resolve_left hp
    have hmem := lastMax_mem Entry.at_ he
    obtain ⟨hes, hne, hs, hf⟩ := mem_entriesOf.mp hmem
    obtain ⟨w, hw⟩ := exists_lastMax_of_mem Entry.at_
      (mem_entriesOf.mpr ⟨hsub e hes, hne, hs, hf⟩)
    refine Or.inr ⟨w, hw, ?_⟩
    obtain ⟨hwes, hwne, hws, hwf⟩ := mem_entriesOf.mp (lastMax_mem Entry.at_ hw)
    have hge : e.at_ ≤ w.at_ :=
      lastMax_max Entry.at_ hw (mem_entriesOf.mpr ⟨hsub e hes, hne, hs, hf⟩)
    cases hwstate : w.state with
    | trashed => rfl
    | purged => exact absurd ⟨w, hwes, hwstate, hws, hwf⟩ hp'
    | readded => exact absurd hwstate hwne
    | restored =>
      -- an old restore is no later than the trashed entry, so the two would tie
      have hold := hnew w hwes hws (Or.inl hwstate)
      have hle : w.at_ ≤ e.at_ :=
        lastMax_max Entry.at_ he (mem_entriesOf.mpr ⟨hold, hwne, hws, hwf⟩)
      exact absurd (Nat.le_antisymm hge hle)
        (ht e (hsub e hes) w hwes hs hws (hf.trans hwf.symm) hstate hwstate)

theorem live_insert_other {a b : List Entry} {x : Entry} {s : Subject} {g : ForgetId}
    (hx : x.forgetId ≠ g) : Live (a ++ x :: b) s g ↔ Live (a ++ b) s g := by
  have hof : entriesOf (a ++ x :: b) s g = entriesOf (a ++ b) s g := by
    simp [entriesOf, hx]
  have hc : (s, g) ∈ cancelled (a ++ x :: b) ↔ (s, g) ∈ cancelled (a ++ b) := by
    rw [mem_cancelled, mem_cancelled]
    constructor
    · rintro ⟨e, he, hstate, hs, hf⟩
      refine ⟨e, ?_, hstate, hs, hf⟩
      rw [List.mem_append, List.mem_cons] at he
      rcases he with he | rfl | he
      · exact List.mem_append_left _ he
      · exact absurd hf hx
      · exact List.mem_append_right _ he
    · rintro ⟨e, he, hrest⟩
      refine ⟨e, ?_, hrest⟩
      rcases List.mem_append.mp he with he | he
      · exact List.mem_append_left _ he
      · exact List.mem_append_right _ (List.mem_cons_of_mem _ he)
  simp only [Live, winner, hof, hc]

section Ties

/-- An entry of one conversation. -/
def conversationEntry (forgetId : ForgetId) (state : State) (at_ : Time) : Entry where
  forgetId := forgetId
  subject := { kind := .conversation, id := "c1" }
  state := state
  at_ := at_
  machineId := "mA"
  requestedBy := "ui"
  userId := ""

end Ties

end Cerid.Forget
