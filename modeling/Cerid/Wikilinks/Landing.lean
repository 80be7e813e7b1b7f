import Cerid.Wikilinks.Home
import Mathlib.Data.List.Perm.Subperm

/-!
# Landing orders

The artifacts of a run that covers a vault are its notes in some order, one for each text
(`Landing`).  Every such order is that of a run, and the edges of the run number at most the
links of the artifacts.
-/

namespace Cerid.Wikilinks

/-- A set of notes. -/
structure Vault where
  notes : List Note
  nodup : notes.Nodup

/-- Every note is ingested, once or more often, and nothing else is. -/
def Vault.Covered (v : Vault) (run : List Note) : Prop := ∀ n, n ∈ run ↔ n ∈ v.notes

/-- The links of some notes. -/
def links (notes : List Note) : List (Note × WikilinkRef) :=
  notes.flatMap (fun n => n.refs.dedup.map (Prod.mk n))

/-- The notes of a vault in the order in which they land. -/
structure Landing (v : Vault) (artifacts : List Note) : Prop where
  sub : ∀ n ∈ artifacts, n ∈ v.notes
  ids : (artifacts.map Note.id).Nodup
  all : ∀ n ∈ v.notes, n.id ∈ artifacts.map Note.id

variable {limit : Limit} {v : Vault} {artifacts : List Note}

/-! ## The artifacts of a run -/

theorem ingest_artifacts (g : Graph) (n : Note) :
    (ingest limit g n).artifacts =
      if n.id ∈ g.artifacts.map Note.id then g.artifacts else g.artifacts ++ [n] := by
  unfold ingest
  by_cases hin : n.id ∈ g.artifacts.map Note.id
  · rw [if_pos hin, if_pos hin]
  · rw [if_neg hin, if_neg hin]
    dsimp only
    rw [write_refs]
    rfl

theorem foldl_artifacts (run : List Note) (g : Graph) :
    (∀ n ∈ (run.foldl (ingest limit) g).artifacts, n ∈ g.artifacts ∨ n ∈ run) ∧
      (∃ more, (run.foldl (ingest limit) g).artifacts = g.artifacts ++ more) ∧
      ∀ n ∈ run, n.id ∈ (run.foldl (ingest limit) g).artifacts.map Note.id := by
  induction run generalizing g with
  | nil =>
    refine ⟨fun n hn => Or.inl hn, ⟨[], (List.append_nil _).symm⟩, fun n hn => ?_⟩
    exact absurd hn List.not_mem_nil
  | cons x rest ih =>
    obtain ⟨hfrom, ⟨more, hmore⟩, hids⟩ := ih (ingest limit g x)
    have hx : ∃ added, (ingest limit g x).artifacts = g.artifacts ++ added ∧
        (∀ n ∈ added, n = x) ∧ x.id ∈ (ingest limit g x).artifacts.map Note.id := by
      rw [ingest_artifacts]
      by_cases hin : x.id ∈ g.artifacts.map Note.id
      · rw [if_pos hin]
        exact ⟨[], by simp, by simp, hin⟩
      · rw [if_neg hin]
        exact ⟨[x], rfl, by simp, by simp⟩
    obtain ⟨added, hadded, hsame, hxid⟩ := hx
    rw [List.foldl_cons]
    refine ⟨fun n hn => ?_, ⟨added ++ more, ?_⟩, fun n hn => ?_⟩
    · rcases hfrom n hn with hn | hn
      · rw [hadded] at hn
        rcases List.mem_append.mp hn with hn | hn
        · exact Or.inl hn
        · exact Or.inr (hsame n hn ▸ List.mem_cons_self)
      · exact Or.inr (List.mem_cons_of_mem x hn)
    · rw [hmore, hadded, List.append_assoc]
    · rcases List.mem_cons.mp hn with rfl | hn
      · rw [hmore, List.map_append]
        exact List.mem_append_left _ hxid
      · exact hids n hn

/-- Notes with ids of their own land in the order of their ingests. -/
theorem artifacts_of_nodup {run : List Note} (h : (run.map Note.id).Nodup) :
    (ingestAll limit run).artifacts = run := by
  induction run using List.reverseRecOn with
  | nil => rfl
  | append_singleton run n ih =>
    rw [List.map_append, List.map_singleton] at h
    have hrun := ih (List.Nodup.of_append_left h)
    have hn : n.id ∉ run.map Note.id :=
      fun hin => List.disjoint_of_nodup_append h hin (List.mem_singleton_self _)
    unfold ingestAll at hrun ⊢
    rw [List.foldl_append]
    show (ingest limit (run.foldl (ingest limit) Graph.empty) n).artifacts = _
    rw [ingest_artifacts, hrun, if_neg hn]

theorem Vault.Covered.landing {run : List Note} (h : v.Covered run) :
    Landing v (ingestAll limit run).artifacts := by
  obtain ⟨hfrom, -, hids⟩ := @foldl_artifacts limit run Graph.empty
  refine ⟨fun n hn => ?_, (tracks_run run).nodup, fun n hn => hids n ((h n).mpr hn)⟩
  exact (h n).mp ((hfrom n hn).resolve_left List.not_mem_nil)

/-- Some notes can come first. -/
theorem exists_landing (limit : Limit) {first : List Note} (hsub : ∀ n ∈ first, n ∈ v.notes)
    (hids : (first.map Note.id).Nodup) :
    ∃ run more, v.Covered run ∧ (ingestAll limit run).artifacts = first ++ more := by
  obtain ⟨-, ⟨more, hmore⟩, -⟩ := @foldl_artifacts limit v.notes (ingestAll limit first)
  refine ⟨first ++ v.notes, more, fun n => ?_, ?_⟩
  · rw [List.mem_append]
    exact ⟨fun h => h.elim (hsub n) id, Or.inr⟩
  · unfold ingestAll at hmore ⊢
    rw [List.foldl_append, hmore]
    exact congrArg (· ++ more) (artifacts_of_nodup hids)

theorem Landing.eq_of_id (h : Landing v artifacts) {n m : Note} (hn : n ∈ artifacts)
    (hm : m ∈ artifacts) (hid : n.id = m.id) : n = m :=
  List.inj_on_of_nodup_map h.ids hn hm hid

/-- The notes that did not land have the text of one that did. -/
theorem Landing.rest (h : Landing v artifacts) :
    ∃ others, v.notes.Perm (artifacts ++ others) ∧
      ∀ m ∈ others, m ∈ v.notes ∧ m ∉ artifacts := by
  have hnodup : artifacts.Nodup := List.Nodup.of_map _ h.ids
  have hperm : (artifacts ++ v.notes.diff artifacts).Perm v.notes := by
    refine List.subperm_append_diff_self_of_count_le (fun n hn => ?_)
    rw [List.count_eq_one_of_mem hnodup hn]
    exact List.count_pos_iff.mpr (h.sub n hn)
  refine ⟨v.notes.diff artifacts, hperm.symm, fun m hm => ?_⟩
  exact (List.Nodup.mem_diff_iff v.nodup).mp hm

/-! ## Links and edges -/

theorem mem_links {notes : List Note} {n : Note} {r : WikilinkRef} :
    (n, r) ∈ links notes ↔ n ∈ notes ∧ r ∈ n.refs := by
  unfold links
  simp only [List.mem_flatMap, List.mem_map, Prod.mk.injEq]
  constructor
  · rintro ⟨m, hm, q, hq, rfl, rfl⟩
    exact ⟨hm, List.mem_dedup.mp hq⟩
  · rintro ⟨hn, hr⟩
    exact ⟨n, hn, r, List.mem_dedup.mpr hr, rfl, rfl⟩

theorem links_nodup {notes : List Note} (h : notes.Nodup) : (links notes).Nodup := by
  unfold links
  rw [List.nodup_flatMap]
  constructor
  · intro n _
    exact List.Nodup.map (fun a b hab => (Prod.mk.inj hab).2) (List.nodup_dedup _)
  · refine h.imp (fun hne p hp hq => ?_)
    obtain ⟨r, -, rfl⟩ := List.mem_map.mp hp
    obtain ⟨q, -, heq⟩ := List.mem_map.mp hq
    exact hne (Prod.mk.inj heq).1.symm

theorem links_append (a b : List Note) : links (a ++ b) = links a ++ links b :=
  List.flatMap_append

theorem links_perm {a b : List Note} (h : a.Perm b) : (links a).Perm (links b) :=
  h.flatMap_right _

/-- The edge of a link, put where `f` says. -/
def edgeAt (f : Note → WikilinkRef → Target) (p : Note × WikilinkRef) : Edge :=
  Edge.ofRef p.1 p.2 (f p.1 p.2)

theorem edgeAt_key (f : Note → WikilinkRef → Target) (n : Note) (r : WikilinkRef) :
    (edgeAt f (n, r)).key = (n.id, r.rel, n.chunkId, f n r) := rfl

variable {g : Graph}

theorem Tracks.key_mem (h : Tracks limit g) :
    ∀ k ∈ g.edges.map Edge.key,
      k ∈ (links g.artifacts).map (fun p => (edgeAt (home limit g.artifacts) p).key) := by
  intro k hk
  obtain ⟨e, he, rfl⟩ := List.mem_map.mp hk
  obtain ⟨n, hn, r, hr, rfl⟩ := h.sound e he
  exact List.mem_map.mpr ⟨(n, r), mem_links.mpr ⟨hn, hr⟩, rfl⟩

theorem Tracks.length_le (h : Tracks limit g) : g.edges.length ≤ (links g.artifacts).length := by
  have hsub := (List.subperm_of_subset h.keys h.key_mem).length_le
  rwa [List.length_map, List.length_map] at hsub

/-- If there are as many edges as links, then no two links share a key. -/
theorem Tracks.distinct (h : Tracks limit g)
    (hlength : (links g.artifacts).length ≤ g.edges.length) :
    ((links g.artifacts).map (fun p => (edgeAt (home limit g.artifacts) p).key)).Nodup := by
  have hsub := List.subperm_of_subset h.keys h.key_mem
  refine (hsub.perm_of_length_le ?_).nodup_iff.mp h.keys
  rw [List.length_map, List.length_map]
  exact hlength

/-- If no two links share a key, then the edges are those of the links. -/
theorem Tracks.perm (h : Tracks limit g)
    (hkeys : ((links g.artifacts).map (fun p => (edgeAt (home limit g.artifacts) p).key)).Nodup) :
    g.edges.Perm ((links g.artifacts).map (edgeAt (home limit g.artifacts))) := by
  have hedges : ((links g.artifacts).map (edgeAt (home limit g.artifacts))).Nodup := by
    refine List.Nodup.of_map Edge.key ?_
    rwa [List.map_map]
  refine (List.perm_ext_iff_of_nodup (List.Nodup.of_map _ h.keys) hedges).mpr (fun e => ?_)
  constructor
  · intro he
    obtain ⟨n, hn, r, hr, rfl⟩ := h.sound e he
    exact List.mem_map.mpr ⟨(n, r), mem_links.mpr ⟨hn, hr⟩, rfl⟩
  · intro he
    obtain ⟨p, hp, rfl⟩ := List.mem_map.mp he
    obtain ⟨hn, hr⟩ := mem_links.mp hp
    obtain ⟨e, he, hkey⟩ := h.complete p.1 hn p.2 hr
    obtain ⟨m, hm, q, hq, rfl⟩ := h.sound e he
    have hsame := List.inj_on_of_nodup_map hkeys (mem_links.mpr ⟨hm, hq⟩) hp hkey
    rw [← hsame]
    exact he

end Cerid.Wikilinks
