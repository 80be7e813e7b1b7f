import Mathlib.Algebra.Order.Field.Rat
import Mathlib.Data.List.Basic

/-!
# How much two lists have in common

`difflib.SequenceMatcher`: the longest block that two lists share is found, and then those to the
left and to the right of it.  No element is junk, but in a long second list the blocks do not start
from elements that it has too often.
-/

namespace Cerid.SequenceMatcher

variable {α : Type*} [DecidableEq α]

/-- A block of `size` elements, from `a` on in the one list and from `b` on in the other. -/
structure Match where
  a : Nat
  b : Nat
  size : Nat

def commonPrefix : List α → List α → Nat
  | x :: xs, y :: ys => if x = y then commonPrefix xs ys + 1 else 0
  | _, _ => 0

section Blocks

variable (popular : α → Bool)

/-- The lengths of the blocks that end at `x` and at each element of `b`, from those of the blocks
that end one element before. -/
def matchLengths (x : α) (b : List α) (lengths : List Nat) : List Nat :=
  List.zipWith (fun y before => if y = x ∧ popular y = false then before + 1 else 0) b
    (0 :: lengths)

/-- A block of `k.1` elements that ends at `i` and `k.2` is taken if it is longer. -/
def Match.improve (i : Nat) (best : Match) (k : Nat × Nat) : Match :=
  if best.size < k.1 then ⟨i + 1 - k.1, k.2 + 1 - k.1, k.1⟩ else best

def longestFrom (b : List α) (i : Nat) (lengths : List Nat) (best : Match) : List α → Match
  | [] => best
  | x :: rest =>
    let lengths := matchLengths popular x b lengths
    longestFrom b (i + 1) lengths (lengths.zipIdx.foldl (Match.improve i) best) rest

/-- `find_longest_match`: the first of the longest blocks, with what it goes on with on both
sides. -/
def findLongestMatch (a b : List α) : Match :=
  let m := longestFrom popular b 0 (List.replicate b.length 0) ⟨0, 0, 0⟩ a
  let back := commonPrefix (a.take m.a).reverse (b.take m.b).reverse
  let ahead := commonPrefix (a.drop (m.a + m.size)) (b.drop (m.b + m.size))
  ⟨m.a - back, m.b - back, back + m.size + ahead⟩

/-! A block ends within the first list. -/

theorem mem_matchLengths {x : α} {b : List α} {lengths : List Nat} {i k : Nat}
    (h : ∀ n ∈ lengths, n ≤ i) (hk : k ∈ matchLengths popular x b lengths) : k ≤ i + 1 := by
  unfold matchLengths at hk
  rw [← List.map_uncurry_zip_eq_zipWith] at hk
  obtain ⟨⟨y, before⟩, hmem, rfl⟩ := List.mem_map.mp hk
  have hbefore : before ≤ i := by
    rcases List.mem_cons.mp (List.of_mem_zip hmem).2 with rfl | hmem
    · exact Nat.zero_le i
    · exact h before hmem
  rw [Function.uncurry]
  dsimp only
  split <;> omega

theorem improve_le {i : Nat} {best : Match} (hbest : best.a + best.size ≤ i + 1)
    {ks : List (Nat × Nat)} (h : ∀ k ∈ ks, k.1 ≤ i + 1) :
    (ks.foldl (Match.improve i) best).a + (ks.foldl (Match.improve i) best).size ≤ i + 1 := by
  induction ks generalizing best with
  | nil => exact hbest
  | cons k rest ih =>
    rw [List.foldl_cons]
    refine ih ?_ fun k' hk' => h k' (List.mem_cons_of_mem k hk')
    have hk := h k List.mem_cons_self
    unfold Match.improve
    split
    · dsimp only
      omega
    · exact hbest

theorem longestFrom_le (b : List α) {i : Nat} {lengths : List Nat} (best : Match)
    (hlengths : ∀ n ∈ lengths, n ≤ i) (hbest : best.a + best.size ≤ i) (a : List α) :
    (longestFrom popular b i lengths best a).a + (longestFrom popular b i lengths best a).size ≤
      i + a.length := by
  induction a generalizing i lengths best with
  | nil => exact hbest
  | cons x rest ih =>
    rw [longestFrom, List.length_cons, Nat.add_comm rest.length 1, ← Nat.add_assoc]
    have hnext : ∀ n ∈ matchLengths popular x b lengths, n ≤ i + 1 := fun n hn =>
      mem_matchLengths popular hlengths hn
    refine ih _ hnext (improve_le (by omega) fun k hk => hnext k.1 ?_)
    exact List.fst_mem_of_mem_zipIdx hk

theorem commonPrefix_le (a b : List α) : commonPrefix a b ≤ a.length := by
  induction a generalizing b with
  | nil => exact Nat.le_refl 0
  | cons x a ih =>
    cases b with
    | nil => exact Nat.zero_le _
    | cons y b =>
      rw [commonPrefix]
      split
      · exact Nat.succ_le_succ (ih b)
      · exact Nat.zero_le _

theorem findLongestMatch_le (a b : List α) :
    (findLongestMatch popular a b).a + (findLongestMatch popular a b).size ≤ a.length := by
  have hzero : ∀ n ∈ List.replicate b.length 0, n ≤ 0 := fun n hn =>
    (List.eq_of_mem_replicate hn).le
  have hlongest := longestFrom_le popular b ⟨0, 0, 0⟩ hzero (Nat.le_refl 0) a
  unfold findLongestMatch
  dsimp only
  generalize longestFrom popular b 0 (List.replicate b.length 0) ⟨0, 0, 0⟩ a = m at hlongest
  have hback := commonPrefix_le (a.take m.a).reverse (b.take m.b).reverse
  have hahead := commonPrefix_le (a.drop (m.a + m.size)) (b.drop (m.b + m.size))
  rw [List.length_reverse, List.length_take] at hback
  rw [List.length_drop] at hahead
  omega

/-- The elements of all blocks, `get_matching_blocks`. -/
def matched (a b : List α) : Nat :=
  let m := findLongestMatch popular a b
  if m.size = 0 then 0
  else
    (if 0 < m.a ∧ 0 < m.b then matched (a.take m.a) (b.take m.b) else 0) + m.size +
      if m.a + m.size < a.length ∧ m.b + m.size < b.length then
        matched (a.drop (m.a + m.size)) (b.drop (m.b + m.size))
      else 0
termination_by a.length
decreasing_by
  all_goals
    have hle := findLongestMatch_le popular a b
    have hsize : (findLongestMatch popular a b).size ≠ 0 := by assumption
    simp only [List.length_take, List.length_drop]
    omega

end Blocks

/-- The elements that a list has too often, if it is long. -/
def isPopular (b : List α) (x : α) : Bool := 200 ≤ b.length && b.length / 100 + 1 < b.count x

def ratio (a b : List α) : ℚ :=
  if a.length + b.length = 0 then 1
  else 2 * (matched (isPopular b) a b : ℚ) / ((a.length + b.length : Nat) : ℚ)

end Cerid.SequenceMatcher
