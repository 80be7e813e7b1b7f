import Mathlib.Data.List.Count
import Mathlib.Data.List.Induction
import Mathlib.Data.List.Nodup
import Mathlib.Data.List.Perm.Subperm
import Mathlib.Logic.Function.Basic
import Mathlib.Order.WellFoundedSet

/-!
# Kahn's algorithm

A queue holds the nodes whose incoming edges all come from nodes that were taken already.
The order in which nodes are taken lists every node if any order does (`sort_sorted`), in
whatever order the nodes were given.
-/

namespace Cerid.Kahn

variable {α : Type*} [DecidableEq α]

/-- The nodes, in an order in which every edge goes forward. -/
structure Sorted (nodes : List α) (edges : List (α × α)) (order : List α) : Prop where
  perm : order.Perm nodes
  forward : ∀ before n after, order = before ++ n :: after → ∀ e ∈ edges, e.2 = n → e.1 ∈ before

/-- The number of incoming edges of every node. -/
def inDegree (edges : List (α × α)) : α → Int :=
  edges.foldl (fun degree e => Function.update degree e.2 (degree e.2 + 1)) (fun _ => 0)

/-- An edge to `n` is taken away. -/
def relax (acc : List α × (α → Int)) (n : α) : List α × (α → Int) :=
  let degree := Function.update acc.2 n (acc.2 n - 1)
  if degree n = 0 then (acc.1 ++ [n], degree) else (acc.1, degree)

/-- No path along edges comes back to where it started. -/
def Acyclic (edges : List (α × α)) : Prop :=
  ∀ n, ¬ Relation.TransGen (fun a b => (a, b) ∈ edges) n n

def targets (edges : List (α × α)) (n : α) : List α :=
  (edges.filter (fun e => e.1 = n)).map Prod.snd

/-- The loop over the queue, for at most so many rounds. -/
def loop (edges : List (α × α)) : Nat → List α → (α → Int) → List α → List α
  | 0, _, _, order => order
  | _ + 1, [], _, order => order
  | rounds + 1, n :: queue, degree, order =>
    let next := (targets edges n).foldl relax (queue, degree)
    loop edges rounds next.1 next.2 (order ++ [n])

/-- Every round takes another node, so there are no more rounds than nodes. -/
def sort (nodes : List α) (edges : List (α × α)) : List α :=
  let degree := inDegree edges
  loop edges nodes.length (nodes.filter (fun n => degree n = 0)) degree []

/-! ## Degrees -/

/-- The edges into `n` from nodes that are not taken yet. -/
def open_ (edges : List (α × α)) (order : List α) (n : α) : List (α × α) :=
  edges.filter (fun e => e.2 = n && e.1 ∉ order)

theorem inDegree_eq (edges : List (α × α)) (n : α) :
    inDegree edges n = ((open_ edges [] n).length : Int) := by
  have hfold : ∀ (edges : List (α × α)) (degree : α → Int),
      edges.foldl (fun degree e => Function.update degree e.2 (degree e.2 + 1)) degree n =
        degree n + ((open_ edges [] n).length : Int) := by
    intro edges
    induction edges with
    | nil =>
      intro degree
      simp [open_]
    | cons e rest ih =>
      intro degree
      rw [List.foldl_cons, ih]
      unfold open_
      by_cases h : e.2 = n
      · subst h
        rw [Function.update_self, List.filter_cons_of_pos (by simp), List.length_cons]
        omega
      · rw [Function.update_of_ne (fun heq => h heq.symm),
          List.filter_cons_of_neg (by simp [h])]
  unfold inDegree
  rw [hfold]
  omega

theorem count_targets (edges : List (α × α)) (n m : α) :
    (targets edges n).count m = (edges.filter (fun e => e.2 = m && e.1 = n)).length := by
  unfold targets
  rw [List.count, List.countP_map, List.countP_filter, List.countP_eq_length_filter]
  congr 1

/-- Taking `n` closes the edges out of it. -/
theorem open_append (edges : List (α × α)) {order : List α} {n : α} (hn : n ∉ order) (m : α) :
    ((open_ edges (order ++ [n]) m).length : Int) =
      (open_ edges order m).length - ((targets edges n).count m : Int) := by
  rw [count_targets]
  unfold open_
  induction edges with
  | nil => simp
  | cons e rest ih =>
    by_cases hm : e.2 = m
    · by_cases he : e.1 = n
      · rw [List.filter_cons_of_neg (by simp [he]), List.filter_cons_of_pos (by simp [hm, he, hn]),
          List.filter_cons_of_pos (by simp [hm, he]), List.length_cons, List.length_cons]
        omega
      · by_cases hin : e.1 ∈ order
        · rw [List.filter_cons_of_neg (by simp [hin]), List.filter_cons_of_neg (by simp [hin]),
            List.filter_cons_of_neg (by simp [he])]
          exact ih
        · rw [List.filter_cons_of_pos (by simp [hm, hin, he]),
            List.filter_cons_of_pos (by simp [hm, hin]), List.filter_cons_of_neg (by simp [he]),
            List.length_cons, List.length_cons]
          omega
    · rw [List.filter_cons_of_neg (by simp [hm]), List.filter_cons_of_neg (by simp [hm]),
        List.filter_cons_of_neg (by simp [hm])]
      exact ih

/-! ## One node -/

theorem relax_eq (queue : List α) (degree : α → Int) (n : α) :
    relax (queue, degree) n =
      if degree n - 1 = 0 then (queue ++ [n], Function.update degree n (degree n - 1))
      else (queue, Function.update degree n (degree n - 1)) := by
  unfold relax
  dsimp only
  rw [Function.update_self]

/-- Taking the edges to `ts` away queues those of `ts` that have no other edge. -/
theorem relax_foldl (ts : List α) (queue : List α) (degree : α → Int)
    (hts : ∀ n ∈ ts, (ts.count n : Int) ≤ degree n) :
    (∀ n, (ts.foldl relax (queue, degree)).2 n = degree n - (ts.count n : Int)) ∧
      ∃ new, (ts.foldl relax (queue, degree)).1 = queue ++ new ∧ new.Nodup ∧
        ∀ n, n ∈ new ↔ n ∈ ts ∧ degree n = (ts.count n : Int) := by
  induction ts generalizing queue degree with
  | nil => exact ⟨fun n => by simp, [], by simp, List.nodup_nil, fun n => by simp⟩
  | cons t rest ih =>
    have hcount : ∀ n, n ≠ t → (t :: rest).count n = rest.count n :=
      fun n hn => List.count_cons_of_ne (fun heq => hn heq.symm)
    have hself : ((t :: rest).count t : Int) = (rest.count t : Int) + 1 := by
      rw [List.count_cons_self]
      omega
    have hle := hts t List.mem_cons_self
    rw [hself] at hle
    have hrest : ∀ n ∈ rest,
        (rest.count n : Int) ≤ Function.update degree t (degree t - 1) n := by
      intro n hn
      by_cases h : n = t
      · subst h
        rw [Function.update_self]
        omega
      · rw [Function.update_of_ne h, ← hcount n h]
        exact hts n (List.mem_cons_of_mem t hn)
    have hdegree : ∀ n, Function.update degree t (degree t - 1) n - (rest.count n : Int) =
        degree n - ((t :: rest).count n : Int) := by
      intro n
      by_cases h : n = t
      · subst h
        rw [Function.update_self, hself]
        omega
      · rw [Function.update_of_ne h, hcount n h]
    rw [List.foldl_cons, relax_eq]
    by_cases hzero : degree t - 1 = 0
    · rw [if_pos hzero]
      obtain ⟨hdegrees, new, hqueue, hnodup, hnew⟩ := ih (queue ++ [t]) _ hrest
      have hnot : t ∉ rest := by
        rw [← List.count_pos_iff]
        omega
      refine ⟨fun n => (hdegrees n).trans (hdegree n), t :: new, ?_, ?_, ?_⟩
      · rw [hqueue, List.append_assoc, List.singleton_append]
      · exact List.nodup_cons.mpr ⟨fun ht => hnot ((hnew t).mp ht).1, hnodup⟩
      · intro n
        by_cases h : n = t
        · subst h
          rw [hself, List.count_eq_zero_of_not_mem hnot]
          refine iff_of_true List.mem_cons_self ⟨List.mem_cons_self, ?_⟩
          omega
        · rw [List.mem_cons, List.mem_cons, hnew, Function.update_of_ne h, hcount n h]
          simp [h]
    · rw [if_neg hzero]
      obtain ⟨hdegrees, new, hqueue, hnodup, hnew⟩ := ih queue _ hrest
      refine ⟨fun n => (hdegrees n).trans (hdegree n), new, hqueue, hnodup, fun n => ?_⟩
      rw [hnew]
      by_cases h : n = t
      · subst h
        rw [Function.update_self, hself]
        constructor
        · rintro ⟨-, heq⟩
          exact ⟨List.mem_cons_self, by omega⟩
        · rintro ⟨-, heq⟩
          refine ⟨?_, by omega⟩
          rw [← List.count_pos_iff]
          omega
      · rw [List.mem_cons, Function.update_of_ne h, hcount n h]
        simp [h]

/-! ## The loop -/

/-- What holds between two rounds. -/
structure At (nodes : List α) (edges : List (α × α)) (order queue : List α) (degree : α → Int) :
    Prop where
  nodup : (order ++ queue).Nodup
  mem : ∀ n, n ∈ order ++ queue ↔ n ∈ nodes ∧ degree n = 0
  degree : ∀ n, degree n = ((open_ edges order n).length : Int)
  forward : ∀ before n after, order = before ++ n :: after → ∀ e ∈ edges, e.2 = n → e.1 ∈ before

variable {nodes : List α} {edges : List (α × α)}

theorem at_start (hnodes : nodes.Nodup) :
    At nodes edges [] (nodes.filter (fun n => inDegree edges n = 0)) (inDegree edges) where
  nodup := hnodes.filter _
  mem := fun n => by simp
  degree := inDegree_eq edges
  forward := by
    intro before n after h
    exact absurd (congrArg List.length h) (by simp)

theorem At.round {order queue : List α} {n : α} {degree : α → Int}
    (h : At nodes edges order (n :: queue) degree) (hedges : ∀ e ∈ edges, e.2 ∈ nodes) :
    At nodes edges (order ++ [n]) ((targets edges n).foldl relax (queue, degree)).1
      ((targets edges n).foldl relax (queue, degree)).2 := by
  have hn : n ∉ order := by
    intro hin
    exact List.disjoint_of_nodup_append h.nodup hin List.mem_cons_self
  have hle : ∀ m ∈ targets edges n, ((targets edges n).count m : Int) ≤ degree m := by
    intro m _
    have hopen := open_append edges hn m
    rw [h.degree m]
    omega
  obtain ⟨hdegree, new, hqueue, hnodup, hnew⟩ := relax_foldl (targets edges n) queue degree hle
  have hfresh : ∀ m ∈ new, m ∉ order ++ n :: queue := by
    intro m hm hold
    obtain ⟨htarget, heq⟩ := (hnew m).mp hm
    have hzero := ((h.mem m).mp hold).2
    have hpos := List.count_pos_iff.mpr htarget
    omega
  have happ : (order ++ [n]) ++ (queue ++ new) = (order ++ n :: queue) ++ new := by simp
  rw [hqueue]
  refine { nodup := ?_, mem := ?_, degree := ?_, forward := ?_ }
  · rw [happ, List.nodup_append]
    refine ⟨h.nodup, hnodup, fun a ha b hb hab => ?_⟩
    exact hfresh b hb (hab ▸ ha)
  · intro m
    rw [happ, List.mem_append, h.mem, hnew, hdegree]
    by_cases hm : m ∈ targets edges n
    · have hpos := List.count_pos_iff.mpr hm
      have hmle := hle m hm
      have hnode : m ∈ nodes := by
        obtain ⟨e, he, rfl⟩ := List.mem_map.mp hm
        exact hedges e (List.mem_of_mem_filter he)
      constructor
      · rintro (⟨-, hzero⟩ | ⟨-, heq⟩)
        · omega
        · exact ⟨hnode, by omega⟩
      · rintro ⟨-, heq⟩
        exact Or.inr ⟨hm, by omega⟩
    · rw [List.count_eq_zero_of_not_mem hm]
      simp [hm]
  · intro m
    rw [hdegree, h.degree m, open_append edges hn m]
  · intro before x after heq e he hex
    rcases List.append_eq_append_iff.mp heq with ⟨rest, hbefore, hrest⟩ | ⟨rest, horder, hrest⟩
    · -- `x` is the node that was taken
      cases rest with
      | nil =>
        have hx : x = n := ((List.cons.inj hrest).1).symm
        have hzero := ((h.mem n).mp (List.mem_append_right _ List.mem_cons_self)).2
        rw [h.degree n] at hzero
        rw [hbefore, List.append_nil]
        by_contra hout
        have hopen : e ∈ open_ edges order n :=
          List.mem_filter.mpr ⟨he, by simp [hex, hx, hout]⟩
        have hpos := List.length_pos_of_mem hopen
        omega
      | cons y rest =>
        have hlen := congrArg List.length hrest
        simp at hlen
    · cases rest with
      | nil =>
        have hx : x = n := (List.cons.inj hrest).1
        have hzero := ((h.mem n).mp (List.mem_append_right _ List.mem_cons_self)).2
        rw [h.degree n] at hzero
        rw [List.append_nil] at horder
        rw [← horder]
        by_contra hout
        have hopen : e ∈ open_ edges order n :=
          List.mem_filter.mpr ⟨he, by simp [hex, hx, hout]⟩
        have hpos := List.length_pos_of_mem hopen
        omega
      | cons y rest =>
        rw [List.cons_append, List.cons.injEq] at hrest
        exact h.forward before x rest (hrest.1 ▸ horder) e he hex

theorem At.finishes {queue order : List α} {degree : α → Int} {rounds : Nat}
    (h : At nodes edges order queue degree) (hedges : ∀ e ∈ edges, e.2 ∈ nodes)
    (hrounds : nodes.length ≤ order.length + rounds) :
    ∃ degree', At nodes edges (loop edges rounds queue degree order) [] degree' := by
  induction rounds generalizing queue order degree with
  | zero =>
    have hsub : order ++ queue ⊆ nodes := fun n hn => ((h.mem n).mp hn).1
    have hlen := (List.subperm_of_subset h.nodup hsub).length_le
    rw [List.length_append] at hlen
    have hempty : queue = [] := List.length_eq_zero_iff.mp (by omega)
    subst hempty
    exact ⟨degree, h⟩
  | succ rounds ih =>
    cases queue with
    | nil => exact ⟨degree, h⟩
    | cons n queue =>
      refine ih (h.round hedges) ?_
      rw [List.length_append, List.length_singleton]
      omega

theorem at_sort (hnodes : nodes.Nodup) (hedges : ∀ e ∈ edges, e.2 ∈ nodes) :
    ∃ degree, At nodes edges (sort nodes edges) [] degree :=
  (at_start hnodes).finishes hedges (by simp)

/-- A sort that takes every node is an order in which every edge goes forward. -/
theorem sorted_of_length (hnodes : nodes.Nodup) (hedges : ∀ e ∈ edges, e.2 ∈ nodes)
    (hall : (sort nodes edges).length = nodes.length) : Sorted nodes edges (sort nodes edges) := by
  obtain ⟨degree, h⟩ := at_sort hnodes hedges
  have hnodup := h.nodup
  have hmem := h.mem
  rw [List.append_nil] at hnodup hmem
  refine ⟨?_, h.forward⟩
  have hsub : sort nodes edges ⊆ nodes := fun n hn => ((hmem n).mp hn).1
  exact (List.subperm_of_subset hnodup hsub).perm_of_length_le (Nat.le_of_eq hall.symm)

/-- If there is any such order, the sort is one. -/
theorem sort_sorted {order : List α} (ho : Sorted nodes edges order) {nodes' : List α}
    (hnodes' : nodes'.Nodup) (hperm : nodes'.Perm nodes)
    (hedges : ∀ e ∈ edges, e.2 ∈ nodes) : Sorted nodes' edges (sort nodes' edges) := by
  have hedges' : ∀ e ∈ edges, e.2 ∈ nodes' := fun e he => hperm.mem_iff.mpr (hedges e he)
  obtain ⟨degree, h⟩ := at_sort hnodes' hedges'
  have hnodup := h.nodup
  have hmem := h.mem
  rw [List.append_nil] at hnodup hmem
  -- along the other order, every node is taken here too
  have hall : ∀ before after, order = before ++ after → ∀ n ∈ before, n ∈ sort nodes' edges := by
    intro before
    induction before using List.reverseRecOn with
    | nil => exact fun _ _ n hn => absurd hn List.not_mem_nil
    | append_singleton before x ih =>
      intro after heq n hn
      rw [List.append_assoc, List.singleton_append] at heq
      rcases List.mem_append.mp hn with hn | hn
      · exact ih _ heq n hn
      · rw [List.mem_singleton] at hn
        subst hn
        have hnode : n ∈ nodes' := by
          rw [hperm.mem_iff, ← ho.perm.mem_iff, heq]
          exact List.mem_append_right _ List.mem_cons_self
        refine (hmem n).mpr ⟨hnode, ?_⟩
        rw [h.degree n]
        have hclosed : open_ edges (sort nodes' edges) n = [] := by
          unfold open_
          rw [List.filter_eq_nil_iff]
          intro e he hboth
          rw [Bool.and_eq_true, decide_eq_true_iff, decide_eq_true_iff] at hboth
          exact hboth.2 (ih _ heq e.1 (ho.forward before n after heq e he hboth.1))
        rw [hclosed]
        rfl
  refine ⟨(List.perm_ext_iff_of_nodup hnodup hnodes').mpr (fun n => ⟨fun hn => ?_, fun hn => ?_⟩),
    h.forward⟩
  · exact ((hmem n).mp hn).1
  · exact hall order [] (List.append_nil order).symm n
      (ho.perm.mem_iff.mpr (hperm.mem_iff.mp hn))

/-! ## Cycles -/

omit [DecidableEq α] in
/-- Where every edge goes forward, so does every path. -/
theorem Sorted.path {order : List α} (h : Sorted nodes edges order) {a b : α}
    (hpath : Relation.TransGen (fun a b => (a, b) ∈ edges) a b) :
    ∀ before after, order = before ++ b :: after → a ∈ before := by
  induction hpath with
  | single he =>
    intro before after heq
    exact h.forward before _ after heq _ he rfl
  | tail _ he ih =>
    intro before after heq
    obtain ⟨start, stop, hbefore⟩ := List.append_of_mem (h.forward before _ after heq _ he rfl)
    subst hbefore
    rw [List.append_assoc, List.cons_append] at heq
    exact List.mem_append_left _ (ih start _ heq)

theorem Sorted.acyclic {order : List α} (h : Sorted nodes edges order) (hnodes : nodes.Nodup)
    (hedges : ∀ e ∈ edges, e.2 ∈ nodes) : Acyclic edges := by
  intro n hcycle
  have hn : n ∈ order := by
    obtain ⟨m, -, he⟩ := Relation.TransGen.tail'_iff.mp hcycle
    exact h.perm.mem_iff.mpr (hedges _ he)
  obtain ⟨before, after, heq⟩ := List.append_of_mem hn
  have hnodup := h.perm.nodup_iff.mpr hnodes
  rw [heq] at hnodup
  exact List.disjoint_of_nodup_append hnodup (h.path hcycle before after heq) List.mem_cons_self

/-- Without cycles, every node is taken: among those that are not, one would come first. -/
theorem length_sort_of_acyclic (hnodes : nodes.Nodup)
    (hedges : ∀ e ∈ edges, e.1 ∈ nodes ∧ e.2 ∈ nodes) (h : Acyclic edges) :
    (sort nodes edges).length = nodes.length := by
  obtain ⟨degree, hat⟩ := at_sort hnodes (fun e he => (hedges e he).2)
  have hnodup := hat.nodup
  have hmem := hat.mem
  rw [List.append_nil] at hnodup hmem
  have hall : ∀ n ∈ nodes, n ∈ sort nodes edges := by
    by_contra hleft
    rw [not_forall₂] at hleft
    obtain ⟨n, hn, hnot⟩ := hleft
    let r := Relation.TransGen (fun a b => (a, b) ∈ edges)
    have hirrefl : Std.Irrefl r := ⟨h⟩
    have hstrict : IsStrictOrder α r := { }
    let left : Set α := fun m => m ∈ nodes ∧ m ∉ sort nodes edges
    have hfinite : left.Finite := (List.finite_toSet nodes).subset fun m hm => hm.1
    have hwf := Set.wellFoundedOn_iff.mp (hfinite.wellFoundedOn (r := r))
    obtain ⟨m, hm, hfirst⟩ := hwf.has_min left ⟨n, hn, hnot⟩
    have hopen : open_ edges (sort nodes edges) m ≠ [] := by
      intro hnil
      refine hm.2 ((hmem m).mpr ⟨hm.1, ?_⟩)
      rw [hat.degree m, hnil]
      rfl
    obtain ⟨e, he⟩ := List.exists_mem_of_ne_nil _ hopen
    obtain ⟨hedge, hinto⟩ := List.mem_filter.mp he
    rw [Bool.and_eq_true, decide_eq_true_iff, decide_eq_true_iff] at hinto
    have hsource : left e.1 := ⟨(hedges e hedge).1, hinto.2⟩
    refine hfirst e.1 hsource ⟨Relation.TransGen.single ?_, hsource, hm⟩
    rw [← hinto.1]
    exact hedge
  have hperm := (List.perm_ext_iff_of_nodup hnodup hnodes).mpr
    (fun n => ⟨fun hn => ((hmem n).mp hn).1, hall n⟩)
  exact hperm.length_eq

theorem length_sort_iff (hnodes : nodes.Nodup)
    (hedges : ∀ e ∈ edges, e.1 ∈ nodes ∧ e.2 ∈ nodes) :
    (sort nodes edges).length = nodes.length ↔ Acyclic edges := by
  have htargets : ∀ e ∈ edges, e.2 ∈ nodes := fun e he => (hedges e he).2
  constructor
  · exact fun hall => (sorted_of_length hnodes htargets hall).acyclic hnodes htargets
  · exact length_sort_of_acyclic hnodes hedges

end Cerid.Kahn
