import Cerid.Wikilinks.Graph
import Mathlib.Data.List.Dedup
import Mathlib.Data.List.Induction

/-!
# Where each link has gone

The landing order of the notes decides where each link goes: to a candidate among the notes
before its own, else to the first note from its own on that answers to its target.  The edges
of the graph are the links, each at its home, under the key that they are merged by (`Tracks`).
-/

namespace Cerid.Wikilinks

/-- An artifact that lands takes what waits for it. -/
def Target.settle (m : Note) (t : Target) : Target :=
  match t with
  | .placeholder name => if m.answers name then .artifact m.id else t
  | .artifact _ => t

def Edge.settle (m : Note) (e : Edge) : Edge := { e with target := e.target.settle m }

/-- The first of some notes that answers to a name, or else the placeholder. -/
def answered (notes : List Note) (name : String) : Target :=
  match notes.find? (fun m => m.answers name) with
  | some m => .artifact m.id
  | none => .placeholder name

/-- Where a link of `n` is once the artifacts have landed in this order. -/
def home (limit : Limit) (artifacts : List Note) (n : Note) (r : WikilinkRef) : Target :=
  match limit.first (candidates (artifacts.takeWhile (fun m => m.id ≠ n.id)) n.id r.target) with
  | some m => .artifact m.id
  | none => answered (artifacts.dropWhile (fun m => m.id ≠ n.id)) r.target

/-- The edges are the links, each at its home. -/
structure Tracks (limit : Limit) (g : Graph) : Prop where
  nodup : (g.artifacts.map Note.id).Nodup
  keys : (g.edges.map Edge.key).Nodup
  sound : ∀ e ∈ g.edges, ∃ n ∈ g.artifacts, ∃ r ∈ n.refs,
    e = Edge.ofRef n r (home limit g.artifacts n r)
  complete : ∀ n ∈ g.artifacts, ∀ r ∈ n.refs, ∃ e ∈ g.edges,
    e.key = (Edge.ofRef n r (home limit g.artifacts n r)).key

variable {limit : Limit}

/-! ## Answers -/

theorem answered_cons (n : Note) (notes : List Note) (name : String) :
    answered (n :: notes) name =
      if n.answers name then .artifact n.id else answered notes name := by
  unfold answered
  cases h : n.answers name with
  | true => simp [h]
  | false => simp [h]

theorem answered_append_singleton (notes : List Note) (m : Note) (name : String) :
    answered (notes ++ [m]) name = (answered notes name).settle m := by
  induction notes with
  | nil => exact answered_cons m [] name
  | cons n rest ih =>
    rw [List.cons_append, answered_cons, answered_cons, ih]
    cases n.answers name <;> rfl

theorem answered_artifact {notes : List Note} {name id : String}
    (h : answered notes name = .artifact id) :
    ∃ m ∈ notes, m.answers name = true ∧ m.id = id := by
  induction notes with
  | nil => nomatch h
  | cons n rest ih =>
    rw [answered_cons] at h
    cases hans : n.answers name with
    | true =>
      rw [hans, if_pos rfl] at h
      exact ⟨n, List.mem_cons_self, hans, Target.artifact.inj h⟩
    | false =>
      rw [hans, if_neg Bool.false_ne_true] at h
      obtain ⟨m, hm, hboth⟩ := ih h
      exact ⟨m, List.mem_cons_of_mem n hm, hboth⟩

theorem answered_placeholder {notes : List Note} {name : String}
    (h : ∀ m ∈ notes, m.answers name = false) : answered notes name = .placeholder name := by
  induction notes with
  | nil => rfl
  | cons n rest ih =>
    rw [answered_cons, h n List.mem_cons_self, if_neg Bool.false_ne_true]
    exact ih (fun m hm => h m (List.mem_cons_of_mem n hm))

/-- If someone answers, then the answer is someone. -/
theorem answered_of_mem {notes : List Note} {name : String} {m : Note} (hm : m ∈ notes)
    (h : m.answers name = true) :
    ∃ x ∈ notes, x.answers name = true ∧ answered notes name = .artifact x.id := by
  induction notes with
  | nil => exact absurd hm List.not_mem_nil
  | cons n rest ih =>
    rw [answered_cons]
    cases hans : n.answers name with
    | true => exact ⟨n, List.mem_cons_self, hans, if_pos rfl⟩
    | false =>
      have hrest : m ∈ rest := by
        rcases List.mem_cons.mp hm with rfl | hm
        · rw [hans] at h
          exact absurd h Bool.false_ne_true
        · exact hm
      obtain ⟨x, hx, hxans, heq⟩ := ih hrest
      exact ⟨x, List.mem_cons_of_mem n hx, hxans, by rw [if_neg Bool.false_ne_true, heq]⟩

/-! ## Merging -/

theorem merge_keys {edges : List Edge} {e : Edge} (h : (edges.map Edge.key).Nodup) :
    ((merge edges e).map Edge.key).Nodup := by
  unfold merge
  by_cases hin : e.key ∈ edges.map Edge.key
  · rw [if_pos hin]
    exact h
  · rw [if_neg hin, List.map_append, List.map_singleton]
    refine List.Nodup.append h (List.nodup_singleton _) (fun k hk hk' => ?_)
    exact hin (List.mem_singleton.mp hk' ▸ hk)

/-- What a row of merges gives. -/
theorem foldl_merge (new : List Edge) {edges : List Edge} (h : (edges.map Edge.key).Nodup) :
    ((new.foldl merge edges).map Edge.key).Nodup ∧
      (∀ e ∈ new.foldl merge edges, e ∈ edges ∨ e ∈ new) ∧
      (∀ e ∈ edges, e ∈ new.foldl merge edges) ∧
      ∀ e ∈ new, e.key ∈ (new.foldl merge edges).map Edge.key := by
  induction new generalizing edges with
  | nil => exact ⟨h, fun e he => Or.inl he, fun e he => he, fun e he => absurd he List.not_mem_nil⟩
  | cons x rest ih =>
    obtain ⟨hkeys, hfrom, hkeep, hnew⟩ := ih (merge_keys (e := x) h)
    have hold : ∀ e ∈ edges, e ∈ merge edges x := by
      intro e he
      unfold merge
      split
      · exact he
      · exact List.mem_append_left _ he
    have hx : x.key ∈ (merge edges x).map Edge.key := by
      unfold merge
      split
      · assumption
      · simp
    have hmerge : ∀ e ∈ merge edges x, e ∈ edges ∨ e = x := by
      intro e he
      unfold merge at he
      split at he
      · exact Or.inl he
      · simpa using he
    refine ⟨hkeys, fun e he => ?_, fun e he => hkeep e (hold e he), fun e he => ?_⟩
    · rcases hfrom e he with he | he
      · exact (hmerge e he).imp_right (fun heq : e = x => heq ▸ List.mem_cons_self)
      · exact Or.inr (List.mem_cons_of_mem x he)
    · rcases List.mem_cons.mp he with rfl | he
      · obtain ⟨e', he', hkey⟩ := List.mem_map.mp hx
        exact List.mem_map.mpr ⟨e', hkeep e' he', hkey⟩
      · exact hnew e he

/-! ## Taking over -/

theorem settle_waits {m : Note} {e : Edge} (h : e.waitsFor m = true) :
    e.settle m = { e with target := .artifact m.id } := by
  unfold Edge.waitsFor at h
  unfold Edge.settle Target.settle
  cases ht : e.target with
  | artifact id =>
    rw [ht] at h
    nomatch h
  | placeholder name =>
    rw [ht] at h
    show { e with target := if m.answers name then Target.artifact m.id else _ } = _
    rw [if_pos h]

theorem settle_stays {m : Note} {e : Edge} (h : e.waitsFor m = false) : e.settle m = e := by
  have htarget : e.target.settle m = e.target := by
    unfold Edge.waitsFor at h
    unfold Target.settle
    cases ht : e.target with
    | artifact id => rfl
    | placeholder name =>
      rw [ht] at h
      exact if_neg (fun hname => Bool.false_ne_true (h.symm.trans hname))
  show { e with target := e.target.settle m } = e
  rw [htarget]

theorem settle_key {m : Note} {e e' : Edge} (h : e.key = e'.key) :
    (e.settle m).key = (e'.settle m).key := by
  unfold Edge.key at h ⊢
  simp only [Prod.mk.injEq] at h
  obtain ⟨hsource, hrel, hchunk, htarget⟩ := h
  show (e.source, e.rel, e.sourceChunkId, e.target.settle m) =
    (e'.source, e'.rel, e'.sourceChunkId, e'.target.settle m)
  rw [hsource, hrel, hchunk, htarget]

/-- One type of edges settled. -/
def Edge.settleRel (m : Note) (rel : RelType) (e : Edge) : Edge :=
  if e.rel = rel then e.settle m else e

theorem repoint_edges (m : Note) {edges : List Edge} (rel : RelType)
    (h : (edges.map Edge.key).Nodup) :
    ((repoint m edges rel).map Edge.key).Nodup ∧
      (∀ e ∈ repoint m edges rel, ∃ e' ∈ edges, e = e'.settleRel m rel) ∧
      ∀ e ∈ edges, (e.settleRel m rel).key ∈ (repoint m edges rel).map Edge.key := by
  have hrest : ((edges.filter (fun e => !(e.rel = rel && e.waitsFor m))).map Edge.key).Nodup :=
    h.sublist (List.filter_sublist.map _)
  have hfold : repoint m edges rel =
      ((edges.filter (fun e => e.rel = rel && e.waitsFor m)).map (Edge.settleRel m rel)).foldl
        merge (edges.filter (fun e => !(e.rel = rel && e.waitsFor m))) := by
    unfold repoint
    rw [List.foldl_map]
    refine List.foldl_ext _ _ _ (fun acc e he => ?_)
    have hboth := (List.mem_filter.mp he).2
    rw [Bool.and_eq_true, decide_eq_true_iff] at hboth
    unfold Edge.settleRel
    rw [if_pos hboth.1, settle_waits hboth.2]
  have hstay : ∀ e : Edge, (e.rel = rel && e.waitsFor m) = false → e.settleRel m rel = e := by
    intro e he
    unfold Edge.settleRel
    by_cases hrel : e.rel = rel
    · rw [if_pos hrel]
      rw [decide_eq_true hrel, Bool.true_and] at he
      exact settle_stays he
    · rw [if_neg hrel]
  obtain ⟨hkeys, hfrom, hkeep, hnew⟩ := foldl_merge
    ((edges.filter (fun e => e.rel = rel && e.waitsFor m)).map (Edge.settleRel m rel)) hrest
  rw [hfold]
  refine ⟨hkeys, fun e he => ?_, fun e he => ?_⟩
  · rcases hfrom e he with he | he
    · obtain ⟨hmem, hnot⟩ := List.mem_filter.mp he
      rw [Bool.not_eq_true'] at hnot
      exact ⟨e, hmem, (hstay e hnot).symm⟩
    · obtain ⟨e', he', rfl⟩ := List.mem_map.mp he
      exact ⟨e', List.mem_of_mem_filter he', rfl⟩
  · cases hboth : (e.rel = rel && e.waitsFor m) with
    | true => exact hnew _ (List.mem_map_of_mem (List.mem_filter.mpr ⟨he, hboth⟩))
    | false =>
      rw [hstay e hboth]
      exact List.mem_map_of_mem (hkeep e (List.mem_filter.mpr ⟨he, by rw [hboth]; rfl⟩))

theorem settleRel_both (m : Note) (e : Edge) :
    (e.settleRel m .wikilinksTo).settleRel m .embeds = e.settle m := by
  unfold Edge.settleRel
  cases hrel : e.rel with
  | wikilinksTo =>
    have hne : (e.settle m).rel ≠ .embeds := by
      show e.rel ≠ .embeds
      rw [hrel]
      decide
    rw [if_pos rfl, if_neg hne]
  | embeds =>
    have hinner : (if RelType.embeds = .wikilinksTo then e.settle m else e) = e :=
      if_neg (by decide)
    rw [hinner, if_pos hrel]

theorem resolvePending_edges (m : Note) {g : Graph} (h : (g.edges.map Edge.key).Nodup) :
    ((resolvePendingArtifacts m g).edges.map Edge.key).Nodup ∧
      (∀ e ∈ (resolvePendingArtifacts m g).edges, ∃ e' ∈ g.edges, e = e'.settle m) ∧
      ∀ e ∈ g.edges, (e.settle m).key ∈ (resolvePendingArtifacts m g).edges.map Edge.key := by
  obtain ⟨hkeys, hfrom, hto⟩ := repoint_edges m .wikilinksTo h
  obtain ⟨hkeys', hfrom', hto'⟩ := repoint_edges m .embeds hkeys
  refine ⟨hkeys', fun e he => ?_, fun e he => ?_⟩
  · obtain ⟨e₁, he₁, rfl⟩ := hfrom' e he
    obtain ⟨e₀, he₀, rfl⟩ := hfrom e₁ he₁
    exact ⟨e₀, he₀, settleRel_both m e₀⟩
  · obtain ⟨e₁, he₁, hkey⟩ := List.mem_map.mp (hto e he)
    have hlast := hto' e₁ he₁
    have hsame : (e₁.settleRel m .embeds).key = (e.settle m).key := by
      rw [← settleRel_both]
      have hrel : e₁.rel = (e.settleRel m .wikilinksTo).rel :=
        congrArg (fun k : String × RelType × String × Target => k.2.1) hkey
      unfold Edge.settleRel at hrel hkey ⊢
      by_cases hembeds : e₁.rel = .embeds
      · rw [if_pos hembeds, if_pos (hrel ▸ hembeds)]
        exact settle_key hkey
      · rw [if_neg hembeds, if_neg (fun h => hembeds (hrel.trans h))]
        exact hkey
    exact hsame ▸ hlast

/-! ## A note that lands -/

theorem write_refs (n : Note) (refs : List WikilinkRef) (g : Graph) :
    refs.foldl (writeWikilinkEdge limit n) g =
      { g with
        edges := (refs.map (fun r =>
          Edge.ofRef n r (written limit g.artifacts n.id r.target))).foldl merge g.edges } := by
  induction refs generalizing g with
  | nil => rfl
  | cons r rest ih =>
    rw [List.foldl_cons, ih]
    rfl

theorem candidates_self {artifacts : List Note} {n : Note} {target : String} :
    candidates (artifacts ++ [n]) n.id target = candidates artifacts n.id target := by
  unfold candidates
  rw [List.filter_append, List.filter_cons_of_neg (by simp), List.filter_nil, List.append_nil]

/-- The home of a link, from the notes before and after its own. -/
theorem home_split {before after : List Note} {n : Note} (hn : n.id ∉ before.map Note.id)
    (r : WikilinkRef) :
    home limit (before ++ n :: after) n r =
      match limit.first (candidates before n.id r.target) with
      | some m => .artifact m.id
      | none => answered (n :: after) r.target := by
  have hall : ∀ m ∈ before, decide (m.id ≠ n.id) = true := by
    intro m hm
    exact decide_eq_true (fun heq => hn (heq ▸ List.mem_map_of_mem hm))
  have htake : (before ++ n :: after).takeWhile (fun m => m.id ≠ n.id) = before := by
    rw [List.takeWhile_append_of_pos hall, List.takeWhile_cons_of_neg (by simp), List.append_nil]
  have hdrop : (before ++ n :: after).dropWhile (fun m => m.id ≠ n.id) = n :: after := by
    rw [List.dropWhile_append_of_pos hall, List.dropWhile_cons_of_neg (by simp)]
  unfold home
  rw [htake, hdrop]

/-- The links of a note that lands settle where they are written. -/
theorem home_new {artifacts : List Note} {n : Note} (hn : n.id ∉ artifacts.map Note.id)
    (r : WikilinkRef) :
    home limit (artifacts ++ [n]) n r =
      (written limit (artifacts ++ [n]) n.id r.target).settle n := by
  rw [home_split hn]
  unfold written
  rw [candidates_self]
  cases limit.first (candidates artifacts n.id r.target) with
  | some m => rfl
  | none => exact answered_append_singleton [] n r.target

/-- The links that stand already are settled. -/
theorem home_old {artifacts : List Note} (hnodup : (artifacts.map Note.id).Nodup) {n : Note}
    (hn : n ∈ artifacts) (m : Note) (r : WikilinkRef) :
    home limit (artifacts ++ [m]) n r = (home limit artifacts n r).settle m := by
  obtain ⟨before, after, rfl⟩ := List.append_of_mem hn
  have hbefore : n.id ∉ before.map Note.id := by
    intro hin
    rw [List.map_append] at hnodup
    exact List.disjoint_of_nodup_append hnodup hin List.mem_cons_self
  rw [List.append_assoc, List.cons_append, home_split hbefore, home_split hbefore]
  cases limit.first (candidates before n.id r.target) with
  | some x => rfl
  | none => exact answered_append_singleton (n :: after) m r.target

theorem tracks_empty : Tracks limit Graph.empty where
  nodup := List.nodup_nil
  keys := List.nodup_nil
  sound := fun _ he => absurd he List.not_mem_nil
  complete := fun _ hn => absurd hn List.not_mem_nil

theorem Tracks.ingest {g : Graph} (h : Tracks limit g) (n : Note) :
    Tracks limit (ingest limit g n) := by
  unfold Wikilinks.ingest
  by_cases hin : n.id ∈ g.artifacts.map Note.id
  · rw [if_pos hin]
    exact h
  · rw [if_neg hin]
    dsimp only
    rw [write_refs]
    obtain ⟨hkeys, hfrom, hkeep, hnew⟩ := foldl_merge
      (n.refs.map (fun r =>
        Edge.ofRef n r (written limit (g.artifacts ++ [n]) n.id r.target))) h.keys
    generalize hedges : (n.refs.map (fun r => Edge.ofRef n r
      (written limit (g.artifacts ++ [n]) n.id r.target))).foldl merge g.edges = edges
      at hkeys hfrom hkeep hnew
    obtain ⟨hkeys', hfrom', hto'⟩ := resolvePending_edges n
      (g := { artifacts := g.artifacts ++ [n], edges := edges }) hkeys
    refine { nodup := ?_, keys := hkeys', sound := fun e he => ?_, complete := fun m hm r hr => ?_ }
    · show ((g.artifacts ++ [n]).map Note.id).Nodup
      rw [List.map_append, List.map_singleton]
      refine List.Nodup.append h.nodup (List.nodup_singleton _) (fun k hk hk' => ?_)
      exact hin (List.mem_singleton.mp hk' ▸ hk)
    · obtain ⟨e₀, he₀, rfl⟩ := hfrom' e he
      rcases hfrom e₀ he₀ with hold | hadded
      · obtain ⟨m, hm, r, hr, rfl⟩ := h.sound e₀ hold
        refine ⟨m, List.mem_append_left _ hm, r, hr, ?_⟩
        show _ = Edge.ofRef m r (home limit (g.artifacts ++ [n]) m r)
        rw [home_old h.nodup hm]
        rfl
      · obtain ⟨r, hr, rfl⟩ := List.mem_map.mp hadded
        refine ⟨n, by simp [resolvePendingArtifacts], r, hr, ?_⟩
        show _ = Edge.ofRef n r (home limit (g.artifacts ++ [n]) n r)
        rw [home_new hin]
        rfl
    · have hm' : m ∈ g.artifacts ++ [n] := hm
      rw [List.mem_append, List.mem_singleton] at hm'
      have hsettled : ∃ e ∈ edges, (e.settle n).key =
          (Edge.ofRef m r (home limit (g.artifacts ++ [n]) m r)).key := by
        rcases hm' with hold | rfl
        · obtain ⟨e, he, hkey⟩ := h.complete m hold r hr
          refine ⟨e, hkeep e he, ?_⟩
          rw [home_old h.nodup hold]
          exact settle_key hkey
        · obtain ⟨e, he, hkey⟩ := List.mem_map.mp (hnew _ (List.mem_map_of_mem hr))
          refine ⟨e, he, ?_⟩
          rw [home_new hin]
          exact settle_key hkey
      obtain ⟨e, he, hkey⟩ := hsettled
      obtain ⟨e', he', hkey'⟩ := List.mem_map.mp (hto' e he)
      exact ⟨e', he', hkey'.trans hkey⟩

/-- Every run keeps its edges so. -/
theorem tracks_run (run : List Note) : Tracks limit (ingestAll limit run) := by
  unfold ingestAll
  induction run using List.reverseRecOn with
  | nil => exact tracks_empty
  | append_singleton run n ih =>
    rw [List.foldl_append]
    exact ih.ingest n

end Cerid.Wikilinks
