import Cerid.Forget.Registry
import Mathlib.Data.Prod.Lex
import Mathlib.Order.BooleanAlgebra.Basic

/-!
# What the fold prescribes

`wins` compares two entries of one forget by a rank: purged entries first, then
the later time, and the entry read last on a tie.  The index therefore holds,
per subject and forget id, the last maximum of the entries of that forget, and a
subject is forgotten exactly when one of its forgets is live.
-/

namespace Cerid.Forget

/-- Purged entries rank above all others, and entries of one kind by time. -/
def rank (e : Entry) : Bool ×ₗ Time := toLex (decide (e.state = .purged), e.at_)

theorem rank_le_iff (a b : Entry) :
    rank a ≤ rank b ↔
      (a.state ≠ .purged ∧ b.state = .purged) ∨
        ((a.state = .purged ↔ b.state = .purged) ∧ a.at_ ≤ b.at_) := by
  rw [rank, rank, Prod.Lex.toLex_le_toLex]
  by_cases ha : a.state = .purged <;> by_cases hb : b.state = .purged <;> simp [ha, hb]

theorem wins_eq_keeps (new : Entry) (old : Option Entry) : wins new old = keeps rank new old := by
  cases old with
  | none => rfl
  | some old =>
    simp only [wins, keeps]
    rw [Bool.eq_iff_iff, decide_eq_true_iff, rank_le_iff]
    by_cases hn : new.state = .purged <;> by_cases ho : old.state = .purged <;> simp [hn, ho]

/-- The entries of one forget of a subject, without its re-adds. -/
def entriesOf (everything : List Entry) (s : Subject) (f : ForgetId) : List Entry :=
  everything.filter (fun e => e.state ≠ .readded ∧ (e.subject, e.forgetId) = (s, f))

theorem mem_entriesOf {everything : List Entry} {s : Subject} {f : ForgetId} {e : Entry} :
    e ∈ entriesOf everything s f ↔
      e ∈ everything ∧ e.state ≠ .readded ∧ e.subject = s ∧ e.forgetId = f := by
  simp [entriesOf]

theorem entriesOf_append (a b : List Entry) (s : Subject) (f : ForgetId) :
    entriesOf (a ++ b) s f = entriesOf a s f ++ entriesOf b s f :=
  List.filter_append a b

theorem mem_cancelled {everything : List Entry} {s : Subject} {f : ForgetId} :
    (s, f) ∈ cancelled everything ↔
      ∃ e ∈ everything, e.state = .readded ∧ e.subject = s ∧ e.forgetId = f := by
  simp [cancelled, and_assoc]

/-- The entry that stands for one forget of a subject, unless it is cancelled. -/
def winner (everything : List Entry) (s : Subject) (f : ForgetId) : Option Entry :=
  if (s, f) ∈ cancelled everything then none else lastMax rank (entriesOf everything s f)

/-- The forget keeps its subject forgotten. -/
def Live (everything : List Entry) (s : Subject) (f : ForgetId) : Prop :=
  ∃ e, winner everything s f = some e ∧ e.state ∈ forgottenStates

theorem winner_eq_some {everything : List Entry} {s : Subject} {f : ForgetId} {e : Entry} :
    winner everything s f = some e ↔
      (s, f) ∉ cancelled everything ∧ lastMax rank (entriesOf everything s f) = some e := by
  unfold winner
  split <;> simp_all

theorem winner_mem {everything : List Entry} {s : Subject} {f : ForgetId} {e : Entry}
    (h : winner everything s f = some e) :
    e ∈ everything ∧ e.state ≠ .readded ∧ e.subject = s ∧ e.forgetId = f :=
  mem_entriesOf.mp (lastMax_mem rank (winner_eq_some.mp h).2)

/-! ## The two loops -/

theorem indexStep_fst (c : List (Subject × ForgetId))
    (acc : Dict (Subject × ForgetId) Entry × Dict Subject Entry) (e : Entry) :
    (indexStep c acc e).1 =
      if e.state ≠ .readded ∧ (e.subject, e.forgetId) ∉ c then
        keepAt rank acc.1 (e.subject, e.forgetId) e
      else acc.1 := by
  simp only [indexStep, wins_eq_keeps, keepAt]
  by_cases hr : e.state = .readded
  · simp only [hr, if_true, ne_eq, not_true_eq_false, false_and, if_false]
    split <;> rfl
  · by_cases hc : (e.subject, e.forgetId) ∈ c
    · simp [hr, hc]
    · simp only [hr, hc, if_false, not_false_eq_true, true_and, ne_eq, and_self, if_true]
      split <;> rfl

theorem foldl_indexStep_fst (c : List (Subject × ForgetId)) (xs : List Entry)
    (acc : Dict (Subject × ForgetId) Entry × Dict Subject Entry) :
    (xs.foldl (indexStep c) acc).1 =
      (xs.filter (fun e => e.state ≠ .readded ∧ (e.subject, e.forgetId) ∉ c)).foldl
        (fun d e => keepAt rank d (e.subject, e.forgetId) e) acc.1 := by
  induction xs generalizing acc with
  | nil => rfl
  | cons e rest ih =>
    rw [List.foldl_cons, ih, indexStep_fst]
    by_cases h : e.state ≠ .readded ∧ (e.subject, e.forgetId) ∉ c
    · rw [if_pos h, List.filter_cons_of_pos (by simpa using h), List.foldl_cons]
    · rw [if_neg h, List.filter_cons_of_neg (by simpa using h)]

/-- `per_forget`, as the first loop leaves it. -/
def perForget (everything : List Entry) : Dict (Subject × ForgetId) Entry :=
  (everything.foldl (indexStep (cancelled everything)) (.empty, .empty)).1

/-- `readds`, as the first loop leaves it. -/
def readds (everything : List Entry) : Dict Subject Entry :=
  (everything.foldl (indexStep (cancelled everything)) (.empty, .empty)).2

theorem get?_perForget (everything : List Entry) (s : Subject) (f : ForgetId) :
    (perForget everything).get? (s, f) = winner everything s f := by
  have hval := get?_foldl_keepAt rank (fun e : Entry => (e.subject, e.forgetId)) id
    (everything.filter (fun e => e.state ≠ .readded ∧ (e.subject, e.forgetId) ∉ cancelled everything))
    .empty (s, f)
  simp only [id] at hval
  rw [perForget, foldl_indexStep_fst, hval, winner, lastMax, List.filter_filter, entriesOf,
    List.map_id, Dict.get?_empty]
  by_cases hc : (s, f) ∈ cancelled everything
  · rw [if_pos hc]
    have hnil : everything.filter (fun e => decide ((e.subject, e.forgetId) = (s, f)) &&
        decide (e.state ≠ .readded ∧ (e.subject, e.forgetId) ∉ cancelled everything)) = [] := by
      rw [List.filter_eq_nil_iff]
      intro e _ he
      simp only [Bool.and_eq_true, decide_eq_true_eq] at he
      exact he.2.2 (he.1 ▸ hc)
    rw [hnil]
    rfl
  · rw [if_neg hc]
    congr 1
    refine List.filter_congr (fun e _ => ?_)
    by_cases hk : (e.subject, e.forgetId) = (s, f)
    · simp [hk, hc]
    · simp [hk]

theorem mem_perForget {everything : List Entry} {s : Subject} {f : ForgetId} {e : Entry} :
    ((s, f), e) ∈ (perForget everything).items ↔ winner everything s f = some e := by
  rw [Dict.mem_items_iff, get?_perForget]

theorem putIfWins_eq (bucket : Dict Subject Entry) (s : Subject) (e : Entry) :
    putIfWins bucket s e = keepAt rank bucket s e := by
  rw [putIfWins, keepAt, wins_eq_keeps]

theorem foldl_bucketStep_forgotten (items : List ((Subject × ForgetId) × Entry)) (b : Buckets) :
    (items.foldl bucketStep b).forgotten =
      (items.filter (fun p => p.2.state ∈ forgottenStates)).foldl
        (fun d p => keepAt rank d p.1.1 p.2) b.forgotten := by
  induction items generalizing b with
  | nil => rfl
  | cons p rest ih =>
    rw [List.foldl_cons, ih]
    by_cases h : p.2.state ∈ forgottenStates
    · rw [List.filter_cons_of_pos (by simpa using h), List.foldl_cons]
      simp only [bucketStep, h, if_true, putIfWins_eq]
    · rw [List.filter_cons_of_neg (by simpa using h)]
      simp only [bucketStep, h, if_false]

theorem foldl_bucketStep_other (items : List ((Subject × ForgetId) × Entry)) (b : Buckets) :
    (items.foldl bucketStep b).other =
      (items.filter (fun p => p.2.state ∉ forgottenStates)).foldl
        (fun d p => keepAt rank d p.1.1 p.2) b.other := by
  induction items generalizing b with
  | nil => rfl
  | cons p rest ih =>
    rw [List.foldl_cons, ih]
    by_cases h : p.2.state ∈ forgottenStates
    · rw [List.filter_cons_of_neg (by simpa using h)]
      simp only [bucketStep, h, if_true]
    · rw [List.filter_cons_of_pos (by simpa using h), List.foldl_cons]
      simp only [bucketStep, h, if_false, putIfWins_eq]

/-- The buckets the second loop fills. -/
def buckets (everything : List Entry) : Buckets :=
  (perForget everything).items.foldl bucketStep Buckets.start

/-- The winners of one subject's forgets whose state satisfies `p`, in the order
the forgets were first met. -/
def winnersOf (everything : List Entry) (p : State → Bool) (s : Subject) : List Entry :=
  ((perForget everything).items.filter (fun i => i.1.1 = s ∧ p i.2.state)).map Prod.snd

theorem mem_winnersOf {everything : List Entry} {p : State → Bool} {s : Subject} {e : Entry} :
    e ∈ winnersOf everything p s ↔ winner everything s e.forgetId = some e ∧ p e.state = true := by
  simp only [winnersOf, List.mem_map, List.mem_filter, decide_eq_true_eq, Prod.exists]
  constructor
  · rintro ⟨s', f, e', ⟨hmem, rfl, hp⟩, rfl⟩
    have hw := mem_perForget.mp hmem
    rw [(winner_mem hw).2.2.2]
    exact ⟨hw, hp⟩
  · rintro ⟨hw, hp⟩
    exact ⟨s, e.forgetId, e, ⟨mem_perForget.mpr hw, rfl, hp⟩, rfl⟩

theorem get?_forgotten (everything : List Entry) (s : Subject) :
    (buckets everything).forgotten.get? s =
      lastMax rank (winnersOf everything (· ∈ forgottenStates) s) := by
  rw [buckets, foldl_bucketStep_forgotten,
    get?_foldl_keepAt rank (fun p : (Subject × ForgetId) × Entry => p.1.1) Prod.snd,
    List.filter_filter, lastMax, winnersOf]
  simp only [Buckets.start, Dict.get?_empty, Bool.decide_and, Bool.decide_eq_true]

theorem get?_other (everything : List Entry) (s : Subject) :
    (buckets everything).other.get? s =
      lastMax rank (winnersOf everything (· ∉ forgottenStates) s) := by
  rw [buckets, foldl_bucketStep_other,
    get?_foldl_keepAt rank (fun p : (Subject × ForgetId) × Entry => p.1.1) Prod.snd,
    List.filter_filter, lastMax, winnersOf]
  simp only [Buckets.start, Dict.get?_empty, Bool.decide_and, Bool.decide_eq_true]

theorem get?_bySubject (everything : List Entry) (s : Subject) :
    (index everything).bySubject.get? s =
      ((lastMax rank (winnersOf everything (· ∈ forgottenStates) s)).or
        (lastMax rank (winnersOf everything (· ∉ forgottenStates) s))).or
          ((readds everything).get? s) := by
  show ((readds everything).items.foldl (fun d item => d.setDefault item.1 item.2)
    ((buckets everything).other.merge (buckets everything).forgotten)).get? s = _
  rw [Dict.get?_foldl_setDefault, Dict.get?_merge, get?_forgotten, get?_other]
  rfl

theorem foldl_indexStep_snd (c : List (Subject × ForgetId)) (xs : List Entry)
    (acc : Dict (Subject × ForgetId) Entry × Dict Subject Entry) :
    (xs.foldl (indexStep c) acc).2 =
      (xs.filter (fun e => e.state = .readded)).foldl
        (fun d e => keepAt Entry.at_ d e.subject e) acc.2 := by
  induction xs generalizing acc with
  | nil => rfl
  | cons e rest ih =>
    rw [List.foldl_cons, ih]
    by_cases h : e.state = .readded
    · rw [List.filter_cons_of_pos (by simpa using h), List.foldl_cons]
      congr 1
      simp only [indexStep, h, if_true, keepAt]
      cases acc.2.get? e.subject with
      | none => rfl
      | some r => by_cases hle : r.at_ ≤ e.at_ <;> simp [keeps, hle]
    · rw [List.filter_cons_of_neg (by simpa using h)]
      congr 1
      simp only [indexStep, h, if_false]
      split <;> rfl

theorem readds_spec {everything : List Entry} {s : Subject} {e : Entry}
    (h : (readds everything).get? s = some e) :
    e ∈ everything ∧ e.state = .readded ∧ e.subject = s := by
  have hval := get?_foldl_keepAt Entry.at_ Entry.subject id
    (everything.filter (fun e => e.state = .readded)) .empty s
  simp only [id, List.map_id, Dict.get?_empty] at hval
  rw [readds, foldl_indexStep_snd, hval] at h
  have hmem := lastMax_mem Entry.at_ h
  rw [List.filter_filter, List.mem_filter] at hmem
  simp only [Bool.and_eq_true, decide_eq_true_eq] at hmem
  exact ⟨hmem.1, hmem.2.2, hmem.2.1⟩

/-! ## What the index answers -/

/-- The entry the index holds for a subject: the winner of a live forget, else
of a forget that is over, else a re-add. -/
theorem bySubject_spec {everything : List Entry} {s : Subject} {e : Entry}
    (h : (index everything).bySubject.get? s = some e) :
    (winner everything s e.forgetId = some e ∧ e.state ∈ forgottenStates) ∨
      (winner everything s e.forgetId = some e ∧ e.state ∉ forgottenStates ∧
        ∀ f, ¬ Live everything s f) ∨
      (e ∈ everything ∧ e.state = .readded ∧ e.subject = s ∧
        ∀ f, winner everything s f = none) := by
  rw [get?_bySubject] at h
  cases hf : lastMax rank (winnersOf everything (· ∈ forgottenStates) s) with
  | some w =>
    simp only [hf, Option.some_or, Option.some.injEq] at h
    subst h
    have hw := mem_winnersOf.mp (lastMax_mem rank hf)
    exact Or.inl ⟨hw.1, by simpa using hw.2⟩
  | none =>
    have hlive : ∀ f, ¬ Live everything s f := by
      rintro f ⟨w, hw, hstate⟩
      rw [lastMax_eq_none_iff] at hf
      have hid := (winner_mem hw).2.2.2
      have : w ∈ winnersOf everything (· ∈ forgottenStates) s :=
        mem_winnersOf.mpr ⟨hid ▸ hw, by simpa using hstate⟩
      rw [hf] at this
      exact absurd this List.not_mem_nil
    cases ho : lastMax rank (winnersOf everything (· ∉ forgottenStates) s) with
    | some w =>
      simp only [hf, ho, Option.none_or, Option.some_or, Option.some.injEq] at h
      subst h
      have hw := mem_winnersOf.mp (lastMax_mem rank ho)
      exact Or.inr (Or.inl ⟨hw.1, by simpa using hw.2, hlive⟩)
    | none =>
      simp only [hf, ho, Option.none_or] at h
      have hspec := readds_spec h
      refine Or.inr (Or.inr ⟨hspec.1, hspec.2.1, hspec.2.2, fun f => ?_⟩)
      cases hw : winner everything s f with
      | none => rfl
      | some w =>
        have hid := (winner_mem hw).2.2.2
        by_cases hstate : w.state ∈ forgottenStates
        · exact absurd ⟨w, hw, hstate⟩ (hlive f)
        · rw [lastMax_eq_none_iff] at ho
          have : w ∈ winnersOf everything (· ∉ forgottenStates) s :=
            mem_winnersOf.mpr ⟨hid ▸ hw, by simpa using hstate⟩
          rw [ho] at this
          exact absurd this List.not_mem_nil

theorem bySubject_subject {everything : List Entry} {s : Subject} {e : Entry}
    (h : (index everything).bySubject.get? s = some e) : e.subject = s := by
  rcases bySubject_spec h with ⟨hw, -⟩ | ⟨hw, -⟩ | ⟨-, -, hsub, -⟩
  · exact (winner_mem hw).2.2.1
  · exact (winner_mem hw).2.2.1
  · exact hsub

theorem bySubject_of_live {everything : List Entry} {s : Subject} {f : ForgetId}
    (h : Live everything s f) :
    ∃ e, (index everything).bySubject.get? s = some e ∧ e.state ∈ forgottenStates := by
  obtain ⟨w, hw, hstate⟩ := h
  have hmem : w ∈ winnersOf everything (· ∈ forgottenStates) s :=
    mem_winnersOf.mpr ⟨(winner_mem hw).2.2.2 ▸ hw, by simpa using hstate⟩
  obtain ⟨e, he⟩ := exists_lastMax_of_mem rank hmem
  have hstate' := (mem_winnersOf.mp (lastMax_mem rank he)).2
  exact ⟨e, by rw [get?_bySubject, he]; rfl, by simpa using hstate'⟩

/-- A subject is forgotten exactly when one of its forgets is live. -/
theorem isForgotten_iff_live (everything : List Entry) (s : Subject) :
    isForgotten (index everything) s = true ↔ ∃ f, Live everything s f := by
  simp only [isForgotten, stateOf, Option.any_eq_true, Option.map_eq_some_iff]
  constructor
  · rintro ⟨_, ⟨e, he, rfl⟩, hstate⟩
    have hstate : e.state ∈ forgottenStates := by simpa using hstate
    rcases bySubject_spec he with ⟨hw, -⟩ | ⟨-, hns, -⟩ | ⟨-, hr, -⟩
    · exact ⟨e.forgetId, e, hw, hstate⟩
    · exact absurd hstate hns
    · rw [hr] at hstate
      exact absurd hstate (by decide)
  · rintro ⟨f, hlive⟩
    obtain ⟨e, he, hstate⟩ := bySubject_of_live hlive
    exact ⟨_, ⟨e, he, rfl⟩, by simpa using hstate⟩

/-! ## Who made the live forgets -/

/-- `_live_by[s].get(f)`. -/
def liveByOf (liveBy : Dict Subject (Dict ForgetId String)) (s : Subject) (f : ForgetId) :
    Option String :=
  ((liveBy.get? s).getD .empty).get? f

theorem liveByOf_bucketStep (b : Buckets) (item : (Subject × ForgetId) × Entry) (s : Subject)
    (f : ForgetId) :
    liveByOf (bucketStep b item).liveBy s f =
      if item.2.state ∈ forgottenStates ∧ item.1 = (s, f) then some item.2.requestedBy
      else liveByOf b.liveBy s f := by
  obtain ⟨⟨s', f'⟩, e⟩ := item
  by_cases hstate : e.state ∈ forgottenStates
  · simp only [bucketStep, hstate, if_true, true_and, liveByOf, Dict.get?_set, Prod.mk.injEq]
    by_cases hs : s = s'
    · subst hs
      by_cases hf : f = f'
      · simp [hf]
      · have hf' : ¬ f' = f := fun h => hf h.symm
        simp [hf, hf']
    · have hs' : ¬ s' = s := fun h => hs h.symm
      simp [hs, hs']
  · simp only [bucketStep, hstate, if_false, false_and]

theorem liveByOf_foldl (items : List ((Subject × ForgetId) × Entry))
    (hnd : (items.map Prod.fst).Nodup) (b : Buckets) (s : Subject) (f : ForgetId) :
    liveByOf (items.foldl bucketStep b).liveBy s f =
      (((items.find? (fun p => p.1 = (s, f))).filter
        (fun p => p.2.state ∈ forgottenStates)).map (fun p => p.2.requestedBy)).or
          (liveByOf b.liveBy s f) := by
  induction items generalizing b with
  | nil => rfl
  | cons p rest ih =>
    rw [List.map_cons, List.nodup_cons] at hnd
    rw [List.foldl_cons, ih hnd.2, liveByOf_bucketStep]
    by_cases hp : p.1 = (s, f)
    · have hnone : rest.find? (fun q => q.1 = (s, f)) = none :=
        find?_eq_none_of_not_mem Prod.fst (hp ▸ hnd.1)
      rw [hnone, List.find?_cons_of_pos (by simpa using hp)]
      by_cases hstate : p.2.state ∈ forgottenStates
      · simp [hp, hstate, Option.filter]
      · simp [hp, hstate, Option.filter]
    · rw [List.find?_cons_of_neg (by simpa using hp)]
      simp [hp]

theorem liveByOf_index (everything : List Entry) (s : Subject) (f : ForgetId) :
    liveByOf (index everything).liveBy s f =
      ((winner everything s f).filter (fun e => e.state ∈ forgottenStates)).map
        Entry.requestedBy := by
  show liveByOf ((perForget everything).items.foldl bucketStep Buckets.start).liveBy s f = _
  rw [liveByOf_foldl _ (perForget everything).nodup, ← get?_perForget, Dict.get?]
  have hstart : liveByOf Buckets.start.liveBy s f = none := rfl
  rw [hstart, Option.or_none]
  cases (perForget everything).items.find? (fun p => p.1 = (s, f)) with
  | none => rfl
  | some p => by_cases hp : p.2.state ∈ forgottenStates <;> simp [hp, Option.filter]

theorem mem_live_foldl (items : List ((Subject × ForgetId) × Entry)) (b : Buckets) (s : Subject)
    (f : ForgetId) :
    f ∈ ((items.foldl bucketStep b).live.get? s).getD [] ↔
      f ∈ (b.live.get? s).getD [] ∨ ∃ e, ((s, f), e) ∈ items ∧ e.state ∈ forgottenStates := by
  induction items generalizing b with
  | nil => simp
  | cons p rest ih =>
    obtain ⟨⟨s', f'⟩, e⟩ := p
    rw [List.foldl_cons, ih]
    by_cases hstate : e.state ∈ forgottenStates
    · simp only [bucketStep, hstate, if_true, Dict.get?_set]
      by_cases hs : s = s'
      · subst hs
        by_cases hf : f = f'
        · subst hf
          simp [hstate]
        · simp [hf]
      · simp [hs]
    · simp only [bucketStep, hstate, if_false, List.mem_cons, Prod.mk.injEq]
      constructor
      · rintro (h | ⟨e', h, hs⟩)
        · exact Or.inl h
        · exact Or.inr ⟨e', Or.inr h, hs⟩
      · rintro (h | ⟨e', ⟨-, rfl⟩ | h, hs⟩)
        · exact Or.inl h
        · exact absurd hs hstate
        · exact Or.inr ⟨e', h, hs⟩

theorem mem_live (everything : List Entry) (s : Subject) (f : ForgetId) :
    f ∈ ((index everything).live.get? s).getD [] ↔ Live everything s f := by
  show f ∈ (((perForget everything).items.foldl bucketStep Buckets.start).live.get? s).getD [] ↔ _
  rw [mem_live_foldl]
  simp only [Buckets.start, Dict.get?_empty, Option.getD_none, List.not_mem_nil, false_or,
    mem_perForget, Live]

/-- A subject listed as forgotten only by `allowed` has no live forget of another
requester. -/
theorem forgottenOnlyBy_spec {everything : List Entry} {kind : Kind} {id : String}
    {allowed : List String} (h : id ∈ forgottenOnlyBy (index everything) kind allowed)
    {f : ForgetId} {e : Entry} (hw : winner everything { kind, id } f = some e)
    (hstate : e.state ∈ forgottenStates) : e.requestedBy ∈ allowed := by
  simp only [forgottenOnlyBy, List.mem_map, List.mem_filter, decide_eq_true_eq, Prod.exists] at h
  obtain ⟨s, by_, ⟨hmem, hkind, -, hall⟩, hid⟩ := h
  have hs : s = { kind, id } := by
    cases s
    simp_all
  subst hs
  have hget := (Dict.mem_items_iff _ _ _).mp hmem
  have hlook := liveByOf_index everything { kind, id } f
  rw [hw, liveByOf, hget] at hlook
  simp only [Option.getD_some, Option.filter, hstate, decide_true, if_true,
    Option.map_some] at hlook
  exact hall _ ((Dict.mem_values_iff _ _).mpr ⟨f, hlook⟩)

end Cerid.Forget
