import Mathlib.Data.List.Basic

/-!
# Paths with links

A path is walked name by name from the root; a name may be a link, which is walked in its
place.  How deep links may stand in each other is bounded, and beyond that a walk has no
result.  The path that a walk ends at meets no link (`resolve_plain`), and is its own result
(`resolve_of_plain`).
-/

namespace Cerid.Links

variable {N : Type}

inductive Segment (N : Type) where
  | name (n : N)
  /-- `..` -/
  | parent

/-- What a link says. -/
structure Target (N : Type) where
  absolute : Bool
  segments : List (Segment N)

variable (link : List N → Option (Target N))

def walk (follow : List N → Target N → Option (List N)) (path : List N) :
    List (Segment N) → Option (List N)
  | [] => some path
  | .parent :: rest => walk follow path.dropLast rest
  | .name n :: rest =>
    match link (path ++ [n]) with
    | none => walk follow (path ++ [n]) rest
    | some target => (follow path target).bind (fun p => walk follow p rest)

/-- The path that the segments lead to from a path. -/
def resolve : Nat → List N → List (Segment N) → Option (List N)
  | 0 => walk link (fun _ _ => none)
  | depth + 1 =>
    walk link (fun path target =>
      resolve depth (if target.absolute then [] else path) target.segments)

/-- No path on the way is a link. -/
def Plain (path : List N) : Prop := ∀ p, p ≠ [] → p <+: path → link p = none

variable {link}

theorem plain_nil : Plain link [] := fun _ hp hpre => absurd (List.prefix_nil.mp hpre) hp

theorem Plain.of_isPrefix {p q : List N} (h : Plain link q) (hpq : p <+: q) : Plain link p :=
  fun r hr hrp => h r hr (hrp.trans hpq)

theorem Plain.concat {p : List N} (h : Plain link p) {n : N} (hn : link (p ++ [n]) = none) :
    Plain link (p ++ [n]) := by
  intro r hr hpre
  rcases List.prefix_concat_iff.mp hpre with rfl | hpre
  · exact hn
  · exact h r hr hpre

theorem walk_plain {follow : List N → Target N → Option (List N)}
    (hfollow : ∀ path target p, Plain link path → follow path target = some p → Plain link p)
    {segments : List (Segment N)} {path p : List N} (hpath : Plain link path)
    (h : walk link follow path segments = some p) : Plain link p := by
  induction segments generalizing path with
  | nil =>
    obtain rfl := Option.some.inj h
    exact hpath
  | cons s rest ih =>
    cases s with
    | parent => exact ih (hpath.of_isPrefix (List.dropLast_prefix path)) h
    | name n =>
      rw [walk] at h
      cases hlink : link (path ++ [n]) with
      | none =>
        rw [hlink] at h
        exact ih (hpath.concat hlink) h
      | some target =>
        rw [hlink] at h
        obtain ⟨p', hp', hrest⟩ := Option.bind_eq_some_iff.mp h
        exact ih (hfollow path target p' hpath hp') hrest

theorem resolve_plain {depth : Nat} {segments : List (Segment N)} {path p : List N}
    (hpath : Plain link path) (h : resolve link depth path segments = some p) :
    Plain link p := by
  induction depth generalizing path segments p with
  | zero => exact walk_plain (fun _ _ _ _ h => by cases h) hpath h
  | succ depth ih =>
    refine walk_plain (fun path target p hpath h => ih ?_ h) hpath h
    split
    · exact plain_nil
    · exact hpath

theorem resolve_of_plain {depth : Nat} {path names : List N}
    (h : Plain link (path ++ names)) :
    resolve link depth path (names.map .name) = some (path ++ names) := by
  have hwalk : ∀ (follow : List N → Target N → Option (List N)) (path names : List N),
      Plain link (path ++ names) →
      walk link follow path (names.map .name) = some (path ++ names) := by
    intro follow path names
    induction names generalizing path with
    | nil =>
      intro _
      rw [List.append_nil]
      rfl
    | cons n rest ih =>
      intro h
      rw [← List.singleton_append, ← List.append_assoc] at h
      have hn : link (path ++ [n]) = none :=
        h (path ++ [n]) (by simp) (List.prefix_append _ _)
      rw [List.map_cons, walk, hn]
      dsimp only
      rw [ih (path ++ [n]) h, List.append_assoc, List.singleton_append]
  cases depth with
  | zero => exact hwalk _ path names h
  | succ depth => exact hwalk _ path names h

end Cerid.Links
