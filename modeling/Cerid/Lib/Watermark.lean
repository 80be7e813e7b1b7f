import Mathlib.Data.List.Basic
import Mathlib.Data.List.TakeWhile

/-!
# A newest-first feed read down to a mark

A reader of a feed keeps the key of the last entry it has handled, and reads from the top
down to it.  Where no key stands twice, what is above an entry's key is what was listed before
that entry; a mark that has left the feed leaves all of it to be read.
-/

namespace Cerid.Watermark

variable {E K : Type} [DecidableEq K] {key : E → K}

/-- The entries above the mark. -/
def newer (key : E → K) (mark : Option K) (feed : List E) : List E :=
  feed.takeWhile (fun e => mark ≠ some (key e))

theorem newer_append_cons {above below : List E} {e : E} (h : key e ∉ above.map key) :
    newer key (some (key e)) (above ++ e :: below) = above := by
  unfold newer
  rw [List.takeWhile_append_of_pos]
  · simp
  · intro x hx
    have hne : key e ≠ key x := fun heq => h (heq ▸ List.mem_map_of_mem hx)
    simpa using hne

theorem newer_split {feed above below : List E} {e : E} (hnodup : (feed.map key).Nodup)
    (h : feed = above ++ e :: below) : newer key (some (key e)) feed = above := by
  subst h
  refine newer_append_cons fun hmem => ?_
  rw [List.map_append, List.nodup_append] at hnodup
  exact hnodup.2.2 _ hmem _ (List.mem_map_of_mem List.mem_cons_self) rfl

variable (key) in
theorem newer_isPrefix (mark : Option K) (feed : List E) : newer key mark feed <+: feed :=
  List.takeWhile_prefix _

/-- Reading down to an entry that a reader has come to goes through what it has not. -/
theorem newer_of_newer {mark : Option K} {feed above below : List E} {e : E}
    (hnodup : (feed.map key).Nodup) (h : newer key mark feed = above ++ e :: below) :
    newer key (some (key e)) feed = above := by
  obtain ⟨t, ht⟩ := newer_isPrefix key mark feed
  rw [h, List.append_assoc, List.cons_append] at ht
  exact newer_split hnodup ht.symm

variable (key) in
/-- A feed is what is above the mark, or the mark's entry stands between that and the rest. -/
theorem newer_cases (mark : Option K) (feed : List E) :
    newer key mark feed = feed ∨
      ∃ e below, mark = some (key e) ∧ feed = newer key mark feed ++ e :: below := by
  have happend := List.takeWhile_append_dropWhile (p := fun e => decide (mark ≠ some (key e)))
    (l := feed)
  cases hdrop : feed.dropWhile (fun e => mark ≠ some (key e)) with
  | nil =>
    rw [hdrop, List.append_nil] at happend
    exact Or.inl happend
  | cons e below =>
    refine Or.inr ⟨e, below, ?_, ?_⟩
    · have hhead := List.head?_dropWhile_not (fun e => decide (mark ≠ some (key e))) feed
      rw [hdrop] at hhead
      simpa using hhead
    · rw [hdrop] at happend
      exact happend.symm

end Cerid.Watermark
