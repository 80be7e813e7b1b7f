import Mathlib.Data.List.DropRight
import Mathlib.Data.List.Induction

/-!
# Pieces of a list

The runs of a list between the elements at which it is cut.  `squeeze` writes one separator for
each run of such elements; the pieces of a list do not change under it.
-/

namespace Cerid

variable {α : Type*} (p : α → Bool)

/-- The runs of elements that are not cut at, without the empty ones. -/
def pieces (xs : List α) : List (List α) := (xs.splitOnP p).filter fun w => !w.isEmpty

/-- One `sep` for every run of elements that `p` holds of; `inRun` where such a run goes on. -/
def squeezeFrom (sep : α) (inRun : Bool) : List α → List α
  | [] => []
  | x :: rest =>
    if p x then
      if inRun then squeezeFrom sep true rest else sep :: squeezeFrom sep true rest
    else x :: squeezeFrom sep false rest

def squeeze (sep : α) (xs : List α) : List α := squeezeFrom p sep false xs

variable {p}

theorem pieces_nil : pieces p [] = [] := rfl

theorem pieces_append_cons {c : α} (hc : p c = true) (xs ys : List α) :
    pieces p (xs ++ c :: ys) = pieces p xs ++ pieces p ys := by
  unfold pieces
  rw [List.splitOnP_append_cons xs ys hc, List.filter_append]

theorem pieces_cons {c : α} (hc : p c = true) (xs : List α) : pieces p (c :: xs) = pieces p xs :=
  pieces_append_cons hc [] xs

theorem pieces_gap_append {gap : List α} (hgap : ∀ c ∈ gap, p c = true) (xs : List α) :
    pieces p (gap ++ xs) = pieces p xs := by
  induction gap with
  | nil => rfl
  | cons c rest ih =>
    rw [List.cons_append, pieces_cons (hgap c List.mem_cons_self)]
    exact ih fun d hd => hgap d (List.mem_cons_of_mem c hd)

/-- A run that nothing cuts is a piece. -/
theorem pieces_of_whole {xs : List α} (hne : xs ≠ []) (h : ∀ c ∈ xs, p c = false) :
    pieces p xs = [xs] := by
  unfold pieces
  rw [List.splitOnP_eq_singleton h]
  cases xs with
  | nil => exact absurd rfl hne
  | cons x rest => rfl

/-- A list is whole, or it is cut somewhere for the first time. -/
theorem whole_or_cut (p : α → Bool) (xs : List α) :
    (∀ c ∈ xs, p c = false) ∨
      ∃ w c rest, xs = w ++ c :: rest ∧ (∀ d ∈ w, p d = false) ∧ p c = true := by
  induction xs with
  | nil => exact Or.inl fun c hc => absurd hc List.not_mem_nil
  | cons x rest ih =>
    by_cases hx : p x = true
    · exact Or.inr ⟨[], x, rest, rfl, fun d hd => absurd hd List.not_mem_nil, hx⟩
    · rw [Bool.not_eq_true] at hx
      rcases ih with hwhole | ⟨w, c, rest', rfl, hw, hc⟩
      · exact Or.inl (List.forall_mem_cons.mpr ⟨hx, hwhole⟩)
      · exact Or.inr ⟨x :: w, c, rest', rfl, List.forall_mem_cons.mpr ⟨hx, hw⟩, hc⟩

/-- The list is empty or ends where it is cut. -/
def EndsCut (p : α → Bool) (xs : List α) : Prop :=
  xs = [] ∨ ∃ front c, xs = front ++ [c] ∧ p c = true

/-- The list is empty or starts where it is cut. -/
def StartsCut (p : α → Bool) (xs : List α) : Prop :=
  xs = [] ∨ ∃ c rest, xs = c :: rest ∧ p c = true

theorem mem_pieces_of_cut {before xs after w : List α} (hbefore : EndsCut p before)
    (hafter : StartsCut p after) (h : w ∈ pieces p xs) : w ∈ pieces p (before ++ xs ++ after) := by
  have hstop : w ∈ pieces p (xs ++ after) := by
    rcases hafter with rfl | ⟨c, rest, rfl, hc⟩
    · rwa [List.append_nil]
    · rw [pieces_append_cons hc]
      exact List.mem_append_left _ h
  rcases hbefore with rfl | ⟨front, c, rfl, hc⟩
  · exact hstop
  · have hcut : front ++ [c] ++ xs ++ after = front ++ c :: (xs ++ after) := by simp
    rw [hcut, pieces_append_cons hc]
    exact List.mem_append_right _ hstop

/-- The place of a piece. -/
theorem exists_cut {w xs : List α} (h : w ∈ pieces p xs) :
    ∃ before after, xs = before ++ w ++ after ∧ EndsCut p before ∧ StartsCut p after := by
  induction hn : xs.length using Nat.strong_induction_on generalizing xs with
  | _ n ih =>
    rcases whole_or_cut p xs with hwhole | ⟨v, c, rest, rfl, hv, hc⟩
    · by_cases hxs : xs = []
      · subst hxs
        exact absurd h List.not_mem_nil
      · rw [pieces_of_whole hxs hwhole, List.mem_singleton] at h
        subst h
        exact ⟨[], [], by simp, Or.inl rfl, Or.inl rfl⟩
    · rw [pieces_append_cons hc, List.mem_append] at h
      rcases h with h | h
      · by_cases hne : v = []
        · subst hne
          exact absurd h List.not_mem_nil
        · rw [pieces_of_whole hne hv, List.mem_singleton] at h
          subst h
          exact ⟨[], c :: rest, rfl, Or.inl rfl, Or.inr ⟨c, rest, rfl, hc⟩⟩
      · have hshort : rest.length < n := by
          rw [← hn, List.length_append, List.length_cons]
          omega
        obtain ⟨before, after, rfl, hstart, hstop⟩ := ih rest.length hshort h rfl
        refine ⟨v ++ c :: before, after, by simp, Or.inr ?_, hstop⟩
        rcases hstart with rfl | ⟨front, d, rfl, hd⟩
        · exact ⟨v, c, rfl, hc⟩
        · exact ⟨v ++ c :: front, d, by simp, hd⟩

/-! ## Squeezing -/

theorem pieces_eq_of_whole {q r : α → Bool} {w : List α} (hq : ∀ c ∈ w, q c = false)
    (hr : ∀ c ∈ w, r c = false) : pieces q w = pieces r w := by
  by_cases hne : w = []
  · subst hne
    rfl
  · rw [pieces_of_whole hne hq, pieces_of_whole hne hr]

/-- `w` is what was read of a piece; within a run of what is squeezed there is none. -/
theorem pieces_squeezeFrom {q : α → Bool} {sep : α} (hsep : q sep = true) (inRun : Bool)
    {w : List α} (hw : ∀ c ∈ w, (p c || q c) = false) (hrun : inRun = true → w = [])
    (xs : List α) :
    pieces q (w ++ squeezeFrom p sep inRun xs) = pieces (fun c => p c || q c) (w ++ xs) := by
  have hcut : pieces q w = pieces (fun c => p c || q c) w :=
    pieces_eq_of_whole (fun c hc => (Bool.or_eq_false_iff.mp (hw c hc)).2) hw
  induction xs generalizing inRun w with
  | nil =>
    rw [squeezeFrom, List.append_nil]
    exact hcut
  | cons x rest ih =>
    have hnone : ∀ c ∈ ([] : List α), (p c || q c) = false := fun c hc => absurd hc List.not_mem_nil
    rw [squeezeFrom]
    by_cases hp : p x = true
    · have hr : (p x || q x) = true := by rw [hp, Bool.true_or]
      rw [if_pos hp, pieces_append_cons (p := fun c => p c || q c) hr, ← hcut]
      have ih := ih true hnone (fun _ => rfl) rfl
      cases inRun with
      | true =>
        rw [hrun rfl]
        exact ih
      | false =>
        rw [if_neg Bool.false_ne_true, pieces_append_cons hsep]
        exact congrArg _ ih
    · rw [if_neg hp]
      by_cases hq : q x = true
      · have hr : (p x || q x) = true := by rw [hq, Bool.or_true]
        rw [pieces_append_cons hq, pieces_append_cons (p := fun c => p c || q c) hr, hcut]
        exact congrArg _ (ih false hnone (fun h => absurd h Bool.false_ne_true) rfl)
      · rw [Bool.not_eq_true] at hp hq
        have hx : ∀ c ∈ w ++ [x], (p c || q c) = false := by
          intro c hc
          rcases List.mem_append.mp hc with hc | hc
          · exact hw c hc
          · rw [List.mem_singleton.mp hc, hp, hq, Bool.or_false]
        rw [List.append_cons w x rest, List.append_cons w x (squeezeFrom p sep false rest)]
        refine ih false hx (fun h => absurd h Bool.false_ne_true) ?_
        exact pieces_eq_of_whole (fun c hc => (Bool.or_eq_false_iff.mp (hx c hc)).2) hx

/-- What is squeezed is cut at either kind of element. -/
theorem pieces_squeeze {q : α → Bool} {sep : α} (hsep : q sep = true) (xs : List α) :
    pieces q (squeeze p sep xs) = pieces (fun c => p c || q c) xs :=
  pieces_squeezeFrom hsep false (w := []) (fun _ hc => absurd hc List.not_mem_nil)
    (fun _ => rfl) xs

/-- Nor does it matter what is cut off at the ends. -/
theorem pieces_dropWhile {q : α → Bool} (hq : ∀ c, q c = true → p c = true) (xs : List α) :
    pieces p (xs.dropWhile q) = pieces p xs := by
  conv_rhs => rw [← List.takeWhile_append_dropWhile (p := q) (l := xs)]
  exact (pieces_gap_append (fun c hc => hq c (List.mem_takeWhile_imp hc)) _).symm

theorem pieces_rdropWhile {q : α → Bool} (hq : ∀ c, q c = true → p c = true) (xs : List α) :
    pieces p (xs.rdropWhile q) = pieces p xs := by
  induction xs using List.reverseRecOn with
  | nil => rfl
  | append_singleton xs x ih =>
    by_cases hx : q x = true
    · rw [List.rdropWhile_concat_pos _ _ _ hx, ih, pieces_append_cons (hq x hx), pieces_nil,
        List.append_nil]
    · rw [List.rdropWhile_concat_neg _ _ _ hx]

/-- What is cut off at the ends. -/
theorem mem_dropWhile_or {q : α → Bool} {xs : List α} {c : α} (h : c ∈ xs) :
    q c = true ∨ c ∈ xs.dropWhile q := by
  rw [← List.takeWhile_append_dropWhile (p := q) (l := xs), List.mem_append] at h
  exact h.imp_left List.mem_takeWhile_imp

theorem mem_rdropWhile_or {q : α → Bool} {xs : List α} {c : α} (h : c ∈ xs) :
    q c = true ∨ c ∈ xs.rdropWhile q := by
  unfold List.rdropWhile
  rw [List.mem_reverse]
  exact mem_dropWhile_or (List.mem_reverse.mpr h)

theorem ne_nil_of_mem_pieces {w xs : List α} (h : w ∈ pieces p xs) : w ≠ [] := by
  rintro rfl
  exact absurd (List.mem_filter.mp h).2 (by simp)

/-! ## The pieces alone -/

theorem pieces_eq_self_of_whole {xs : List α} (h : ∀ c ∈ xs, p c = false) :
    pieces p xs = if xs = [] then [] else [xs] := by
  by_cases hne : xs = []
  · rw [if_pos hne, hne, pieces_nil]
  · rw [if_neg hne, pieces_of_whole hne h]

/-- To go through a list by its cuts. -/
theorem cut_induction {motive : List α → Prop}
    (whole : ∀ xs, (∀ c ∈ xs, p c = false) → motive xs)
    (cut : ∀ w c rest, (∀ d ∈ w, p d = false) → p c = true → motive rest →
      motive (w ++ c :: rest)) (xs : List α) : motive xs := by
  induction hn : xs.length using Nat.strong_induction_on generalizing xs with
  | _ n ih =>
    rcases whole_or_cut p xs with hwhole | ⟨w, c, rest, rfl, hw, hc⟩
    · exact whole xs hwhole
    · refine cut w c rest hw hc (ih rest.length ?_ rest rfl)
      rw [← hn, List.length_append, List.length_cons]
      omega

theorem flatten_pieces (xs : List α) : (pieces p xs).flatten = xs.filter fun c => !p c := by
  induction xs using cut_induction (p := p) with
  | whole xs h =>
    have hall : xs.filter (fun c => !p c) = xs :=
      List.filter_eq_self.mpr fun c hc => by simp [h c hc]
    rw [pieces_eq_self_of_whole h, hall]
    split <;> simp_all
  | cut w c rest hw hc ih =>
    have hall : w.filter (fun c => !p c) = w :=
      List.filter_eq_self.mpr fun c hc => by simp [hw c hc]
    rw [pieces_append_cons hc, List.flatten_append, ih, pieces_eq_self_of_whole hw,
      List.filter_append, hall, List.filter_cons_of_neg (by simp [hc])]
    congr 1
    split <;> simp_all

theorem squeezeFrom_whole (sep : α) {w : List α} (hw : ∀ c ∈ w, p c = false) (inRun : Bool)
    (rest : List α) (hne : w ≠ []) :
    squeezeFrom p sep inRun (w ++ rest) = w ++ squeezeFrom p sep false rest := by
  induction w generalizing inRun with
  | nil => exact absurd rfl hne
  | cons x w ih =>
    have hx : p x = false := hw x List.mem_cons_self
    rw [List.cons_append, squeezeFrom, if_neg (by simp [hx])]
    by_cases hnil : w = []
    · subst hnil
      rfl
    · rw [ih (fun c hc => hw c (List.mem_cons_of_mem x hc)) false hnil]
      rfl

section Trim

variable [DecidableEq α] {sep : α}

theorem dropWhile_squeeze (hsep : p sep = true) (xs : List α) :
    (squeeze p sep xs).dropWhile (· = sep) = squeezeFrom p sep true xs := by
  have hrun : ∀ ys, (squeezeFrom p sep true ys).dropWhile (· = sep) =
      squeezeFrom p sep true ys := by
    intro ys
    induction ys with
    | nil => rfl
    | cons y ys ih =>
      by_cases hy : p y = true
      · simpa [squeezeFrom, hy] using ih
      · have hne : y ≠ sep := fun e => hy (e ▸ hsep)
        simp [squeezeFrom, hy, hne]
  unfold squeeze
  cases xs with
  | nil => rfl
  | cons x xs =>
    by_cases hx : p x = true
    · simp [squeezeFrom, hx, hrun]
    · have hne : x ≠ sep := fun e => hx (e ▸ hsep)
      simp [squeezeFrom, hx, hne]

omit [DecidableEq α] in
theorem rdropWhile_append_of_ne_nil {q : α → Bool} (a : List α) {b : List α}
    (h : b.rdropWhile q ≠ []) : (a ++ b).rdropWhile q = a ++ b.rdropWhile q := by
  unfold List.rdropWhile at h ⊢
  rw [List.reverse_append, List.dropWhile_append]
  have hne : (b.reverse.dropWhile q).isEmpty = false := by
    cases hb : b.reverse.dropWhile q with
    | nil => simp [hb] at h
    | cons => rfl
  rw [hne]
  simp

omit [DecidableEq α] in
theorem rdropWhile_append_of_nil {q : α → Bool} (a : List α) {b : List α}
    (h : b.rdropWhile q = []) : (a ++ b).rdropWhile q = a.rdropWhile q := by
  unfold List.rdropWhile at h ⊢
  rw [List.reverse_eq_nil_iff] at h
  rw [List.reverse_append, List.dropWhile_append, h]
  rfl

theorem rdropWhile_squeezeFrom (hsep : p sep = true) (xs : List α) :
    (squeezeFrom p sep true xs).rdropWhile (· = sep) = [sep].intercalate (pieces p xs) := by
  have hlast : ∀ w : List α, (∀ c ∈ w, p c = false) → w.rdropWhile (· = sep) = w := by
    intro w hw
    rw [List.rdropWhile_eq_self_iff]
    intro hne
    have hmem := List.getLast_mem hne
    intro h
    rw [of_decide_eq_true h] at hmem
    exact absurd hsep (by simp [hw sep hmem])
  induction xs using cut_induction (p := p) with
  | whole xs h =>
    rw [pieces_eq_self_of_whole h]
    by_cases hne : xs = []
    · subst hne
      rfl
    · have hself := squeezeFrom_whole sep h true [] hne
      simp only [List.append_nil, squeezeFrom] at hself
      rw [hself, if_neg hne, hlast xs h]
      simp [List.intercalate]
  | cut w c rest hw hc ih =>
    have hrest : squeezeFrom p sep false (c :: rest) = sep :: squeezeFrom p sep true rest := by
      simp [squeezeFrom, hc]
    rw [pieces_append_cons hc, pieces_eq_self_of_whole hw]
    by_cases hne : w = []
    · subst hne
      simpa [squeezeFrom, hc] using ih
    · rw [squeezeFrom_whole sep hw true (c :: rest) hne, hrest, if_neg hne]
      cases hpieces : pieces p rest with
      | nil =>
        rw [hpieces] at ih
        have hall : ((sep :: squeezeFrom p sep true rest).rdropWhile (· = sep)) = [] := by
          rw [← List.singleton_append, rdropWhile_append_of_nil [sep] ih]
          simp
        rw [rdropWhile_append_of_nil w hall, hlast w hw]
        simp [List.intercalate]
      | cons v vs =>
        rw [hpieces] at ih
        have hmem : v ∈ pieces p rest := by simp [hpieces]
        have hv : v ≠ [] := ne_nil_of_mem_pieces hmem
        have hsome : [sep].intercalate (v :: vs) ≠ [] := by
          cases vs <;> simp [List.intercalate, hv]
        have htail : (sep :: squeezeFrom p sep true rest).rdropWhile (· = sep) =
            sep :: [sep].intercalate (v :: vs) := by
          rw [← List.singleton_append, rdropWhile_append_of_ne_nil [sep] (ih ▸ hsome), ih]
          rfl
        rw [rdropWhile_append_of_ne_nil w (by rw [htail]; exact List.cons_ne_nil _ _), htail]
        simp [List.intercalate]

/-- Squeezed, and trimmed at the ends: the pieces, with one separator between two. -/
theorem trim_squeeze (hsep : p sep = true) (xs : List α) :
    ((squeeze p sep xs).dropWhile (· = sep)).rdropWhile (· = sep) =
      [sep].intercalate (pieces p xs) := by
  rw [dropWhile_squeeze hsep, rdropWhile_squeezeFrom hsep]

end Trim

end Cerid
