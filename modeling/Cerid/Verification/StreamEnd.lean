import Cerid.Verification.StreamLoop
import Cerid.Verification.Summary

/-!
# The end of the loop

The deadline streams the claims that have no verdict yet, and an exception streams nothing more.
Either way each claim is streamed once at most and counted, and a claim whose verdict was
changed after it was streamed keeps both.
-/

namespace Cerid.Verification

/-- A verdict that is there is in one bucket of the summary. -/
theorem Verdict.bucket_once {r : Verdict} (h : r.truthy = true) :
    (if (r.truthy && r.countsAsVerified) = true then 1 else 0) +
      (if (r.truthy && r.isAgreementOnly) = true then 1 else 0) +
      (if (r.truthy && decide (r.status = some "unverified")) = true then 1 else 0) +
      (if (r.truthy && r.isUncertain) = true then 1 else 0) +
      (if (r.truthy && decide (r.status = some "skipped")) = true then 1 else 0) = 1 := by
  simp only [h, Bool.true_and, countsAsVerified, isAgreementOnly, isUncertain]
  by_cases hv : r.status = some "verified"
  · rw [hv]
    cases r.isSourceBacked <;> decide
  · by_cases hu : r.status = some "unverified"
    · rw [hu]
      cases r.isSourceBacked <;> decide
    · by_cases hs : r.status = some "skipped"
      · rw [hs]
        cases r.isSourceBacked <;> decide
      · simp [hv, hu, hs]

/-- The counts of a summary add up to the verdicts that are there. -/
theorem sum_summarizeClaims {claims : List Verdict} (h : ∀ r ∈ claims, r.truthy = true) :
    (summarizeClaims (claims.map some)).1.sum = claims.length := by
  simp only [summarizeClaims, Counts.sum, present_map_some]
  induction claims with
  | nil => rfl
  | cons r rest ih =>
    have hone := Verdict.bucket_once (h r List.mem_cons_self)
    have hrest := ih fun r' hr' => h r' (List.mem_cons_of_mem r hr')
    simp only [List.countP_cons, List.length_cons]
    omega

namespace Stream

variable {x : Extracted} {s : Stream}

/-- Each claim is streamed once at most, then has a verdict, and is counted. -/
structure Ledger (x : Extracted) (s : Stream) : Prop where
  nodup : s.sent.Nodup
  lt : ∀ i ∈ s.sent, i < x.claims.length
  slot : ∀ i ∈ s.sent, s.collected i ≠ none
  counted : s.counts.sum = s.sent.length
  unsummed : ∀ e ∈ s.events, e.isSummary = false

theorem Inv.ledger (h : Inv x s) : Ledger x s where
  nodup := h.sent_nodup
  lt := fun _ hi => h.sent_lt hi
  slot := h.sent_slot
  counted := h.counted
  unsummed := h.unsummed

/-- All that was streamed agrees with what is collected. -/
def Agrees (s : Stream) : Prop := ∀ i ∈ s.sent, s.AgreesOn i

/-- Some claim has a final verdict of another status than the one that was streamed. -/
def Strays (s : Stream) : Prop :=
  ∃ i ∈ s.sent, ∃ r, s.collected i = some r ∧ r.needsRetry = false ∧ ¬ s.AgreesOn i

theorem Astray.strays (h : s.Astray) : s.Strays := by
  obtain ⟨-, i, hi, r, hr, hretry, hstatus⟩ := h
  refine ⟨i, hi, r, hr, hretry, ?_⟩
  intro hagrees
  obtain ⟨r', hr', hlast⟩ := hagrees
  cases hr.symm.trans hr'
  exact hstatus hlast

theorem settleTimeout_of_some {j : Nat} (h : s.collected j ≠ none) : s.settleTimeout x j = s := by
  rw [settleTimeout, if_neg h]

/-- The deadline settles a claim that has no verdict. -/
theorem settleTimeout_of_none {j : Nat} (h : s.collected j = none) :
    (s.settleTimeout x j).sent = s.sent ++ [j] ∧
      (s.settleTimeout x j).collected =
        Function.update s.collected j (some (x.fallbackResult j)) ∧
      (s.settleTimeout x j).counts.sum = s.counts.sum + 1 ∧
      (s.settleTimeout x j).events = s.events ++ [claimVerifiedEvent x j (x.fallbackResult j)] ∧
      ∀ i, Event.lastStatus i (s.settleTimeout x j).events =
        if j = i then some (x.fallbackResult j).shown else Event.lastStatus i s.events := by
  rw [settleTimeout, if_pos h]
  refine ⟨?_, rfl, Counters.sum_addSettled _ _, rfl, ?_⟩
  · rw [sent, List.filterMap_append]
    rfl
  · exact fun i => Event.lastStatus_snoc x i j _ _

theorem Ledger.settleTimeout (h : Ledger x s) {j : Nat} (hj : j < x.claims.length) :
    Ledger x (s.settleTimeout x j) := by
  by_cases hnone : s.collected j = none
  · obtain ⟨hsent, hcollected, hcounts, hevents, -⟩ := settleTimeout_of_none (x := x) hnone
    have hnew : j ∉ s.sent := fun hmem => h.slot j hmem hnone
    refine { nodup := ?_, lt := ?_, slot := ?_, counted := ?_, unsummed := ?_ }
    · rw [hsent]
      exact List.nodup_append.mpr ⟨h.nodup, List.nodup_singleton j, fun a ha b hb hab =>
        hnew (List.mem_singleton.mp hb ▸ hab ▸ ha)⟩
    · intro i hi
      rw [hsent, List.mem_append, List.mem_singleton] at hi
      exact hi.elim (h.lt i) (fun hij => hij ▸ hj)
    · intro i hi
      rw [hsent, List.mem_append, List.mem_singleton] at hi
      rw [hcollected]
      by_cases hij : i = j
      · rw [hij, Function.update_self]
        exact Option.some_ne_none _
      · rw [Function.update_of_ne hij]
        exact h.slot i (hi.resolve_right hij)
    · rw [hcounts, hsent, List.length_append, h.counted]
      rfl
    · intro e he
      rw [hevents] at he
      rcases List.mem_append.mp he with hold | hlast
      · exact h.unsummed e hold
      · rw [List.mem_singleton.mp hlast]
        rfl
  · rw [settleTimeout_of_some hnone]
    exact h

/-- What the deadline settles agrees with what it streams. -/
theorem Agrees.settleTimeout (h : s.Agrees) (j : Nat) :
    (s.settleTimeout x j).Agrees := by
  by_cases hnone : s.collected j = none
  · obtain ⟨hsent, hcollected, -, -, hlast⟩ := settleTimeout_of_none (x := x) hnone
    intro i hi
    rw [AgreesOn, hcollected, hlast i]
    by_cases hji : j = i
    · rw [if_pos hji, ← hji, Function.update_self]
      exact ⟨_, rfl, rfl⟩
    · rw [hsent, List.mem_append, List.mem_singleton] at hi
      rw [if_neg hji, Function.update_of_ne (Ne.symm hji)]
      exact h i (hi.resolve_right (Ne.symm hji))
  · rw [settleTimeout_of_some hnone]
    exact h

theorem Strays.settleTimeout (h : s.Strays) (j : Nat) : (s.settleTimeout x j).Strays := by
  by_cases hnone : s.collected j = none
  · obtain ⟨hsent, hcollected, -, -, hlast⟩ := settleTimeout_of_none (x := x) hnone
    obtain ⟨i, hi, r, hr, hretry, hnot⟩ := h
    have hij : i ≠ j := by
      intro hij
      rw [hij, hnone] at hr
      cases hr
    refine ⟨i, ?_, r, ?_, hretry, ?_⟩
    · rw [hsent]
      exact List.mem_append_left _ hi
    · rw [hcollected, Function.update_of_ne hij]
      exact hr
    · rw [AgreesOn, hcollected, Function.update_of_ne hij, hlast i, if_neg (Ne.symm hij)]
      exact hnot
  · rw [settleTimeout_of_some hnone]
    exact h

/-- Over all claims the deadline streams those that have no verdict. -/
theorem mem_sent_settle (js : List Nat) (s : Stream) (i : Nat) :
    i ∈ (js.foldl (settleTimeout x) s).sent ↔
      i ∈ s.sent ∨ i ∈ js ∧ s.collected i = none := by
  induction js generalizing s with
  | nil => simp
  | cons j rest ih =>
    rw [List.foldl_cons, ih, List.mem_cons]
    by_cases hnone : s.collected j = none
    · obtain ⟨hsent, hcollected, -, -, -⟩ := settleTimeout_of_none (x := x) hnone
      rw [hsent, hcollected, List.mem_append, List.mem_singleton]
      by_cases hij : i = j
      · simp [hij, hnone]
      · rw [Function.update_of_ne hij]
        simp [hij]
    · rw [settleTimeout_of_some hnone]
      have hj : i = j → s.collected i ≠ none := fun hij => hij ▸ hnone
      tauto

/-- When the loop ends every claim was streamed, or it is the deadline that ends it and the
claim has no verdict. -/
def EndsWell (x : Extracted) (s : Stream) (failure : Bool) : Prop :=
  ∀ i < x.claims.length, i ∈ s.sent ∨
    (failure = false ∧ s.taken ≠ x.claims.length ∧ s.collected i = none)

theorem sent_error : ({ s with interrupted := true, events := s.events ++ [.error] } : Stream).sent =
    s.sent := by
  rw [sent, List.filterMap_append]
  exact List.append_nil _

/-- The end of the loop keeps the ledger and whether the claims agree, and streams what has no
verdict yet if the deadline ends the loop. -/
theorem leave_kept (h : Ledger x s) (failure : Bool) :
    Ledger x (s.leave x failure) ∧ (s.Agrees → (s.leave x failure).Agrees) ∧
      (s.Strays → (s.leave x failure).Strays) ∧
      (s.EndsWell x failure ↔ ∀ i < x.claims.length, i ∈ (s.leave x failure).sent) := by
  rw [leave, EndsWell]
  by_cases hfailure : failure = true
  · rw [if_pos hfailure]
    have hagrees : ∀ i, ({ s with interrupted := true,
                                  events := s.events ++ [.error] } : Stream).AgreesOn i ↔
        s.AgreesOn i := by
      intro i
      rw [AgreesOn, AgreesOn, Event.lastStatus_snoc_other i s.events rfl]
    refine ⟨⟨?_, ?_, ?_, ?_, ?_⟩, ?_, ?_, ?_⟩
    · rw [sent_error]
      exact h.nodup
    · rw [sent_error]
      exact h.lt
    · rw [sent_error]
      exact h.slot
    · rw [sent_error]
      exact h.counted
    · intro e he
      rcases List.mem_append.mp he with hold | hlast
      · exact h.unsummed e hold
      · rw [List.mem_singleton.mp hlast]
        rfl
    · intro hall i hi
      rw [sent_error] at hi
      exact (hagrees i).mpr (hall i hi)
    · intro hstrays
      obtain ⟨i, hi, r, hr, hretry, hnot⟩ := hstrays
      refine ⟨i, ?_, r, hr, hretry, fun hon => hnot ((hagrees i).mp hon)⟩
      rw [sent_error]
      exact hi
    · rw [sent_error, hfailure]
      simp
  · rw [if_neg hfailure]
    by_cases htaken : s.taken = x.claims.length
    · rw [if_pos htaken]
      refine ⟨h, id, id, ?_⟩
      simp [htaken]
    · rw [if_neg htaken]
      have hfalse : failure = false := Bool.eq_false_of_not_eq_true hfailure
      have hrange : ∀ j ∈ List.range x.claims.length, j < x.claims.length := fun j hj =>
        List.mem_range.mp hj
      have hsettled : Ledger x (s.settleTimeouts x) ∧ (s.Agrees → (s.settleTimeouts x).Agrees) ∧
          (s.Strays → (s.settleTimeouts x).Strays) := by
        refine ⟨?_, fun hs => ?_, fun hs => ?_⟩
        · exact foldl_invariant (settleTimeout x) (Ledger x)
            (fun _ _ hs hj => hs.settleTimeout hj) h hrange
        · exact foldl_invariant (settleTimeout x) Agrees (fun _ j hs _ => hs.settleTimeout j) hs
            hrange
        · exact foldl_invariant (settleTimeout x) Strays (fun _ j hs _ => hs.settleTimeout j) hs
            hrange
      refine ⟨?_, hsettled.2.1, hsettled.2.2, ?_⟩
      · exact ⟨hsettled.1.nodup, hsettled.1.lt, hsettled.1.slot, hsettled.1.counted,
          hsettled.1.unsummed⟩
      · show _ ↔ ∀ i < x.claims.length, i ∈ (s.settleTimeouts x).sent
        refine forall₂_congr fun i hi => ?_
        rw [settleTimeouts, mem_sent_settle, List.mem_range]
        simp [hfalse, htaken, hi]

end Stream

end Cerid.Verification
