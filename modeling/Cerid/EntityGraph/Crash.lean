import Cerid.EntityGraph.Effects
import Cerid.Lib.Run

/-!
# A merge that is cut, and run again

The statements of a merge are committed one by one.  A cut leaves the graph after so many of
them; the call is then made again, with the same arguments.
-/

namespace Cerid.EntityGraph

/-- How far the fold of a loser has come: through so many loops and so many statements of the
next one, or to one of the statements that follow. -/
inductive Stage where
  | loops (done n : Nat)
  | counted
  | tombstoned
  | deleted
deriving DecidableEq, Repr

def foldStage (c : MergeCall) (loser : String) (i : Identity) (g : Graph) : Stage → Graph
  | .loops done n =>
    match (foldDrains c loser)[done]? with
    | none => Drain.runAll (foldDrains c loser) g
    | some b => b.after n (Drain.runAll ((foldDrains c loser).take done) g)
  | .counted =>
    addMentionCount c.survivorId i.mentionCount (Drain.runAll (foldDrains c loser) g)
  | .tombstoned =>
    writeTombstone c loser i
      (addMentionCount c.survivorId i.mentionCount (Drain.runAll (foldDrains c loser) g))
  | .deleted =>
    detachDelete loser (writeTombstone c loser i
      (addMentionCount c.survivorId i.mentionCount (Drain.runAll (foldDrains c loser) g)))

/-- The fold of a loser, cut at a stage.  A loser that is skipped writes nothing. -/
def cutFold (c : MergeCall) (g : Graph) (loser : String) (stage : Stage) : Graph :=
  if loser = c.survivorId then g
  else
    match readIdentity c g loser with
    | none => g
    | some i => foldStage c loser i g stage

/-- A point of a call: before its first statement, or in the fold of one of its losers. -/
inductive Cut where
  | atStart
  | folding (j : Nat) (stage : Stage)
deriving DecidableEq, Repr

def cutMerge (c : MergeCall) (g : Graph) : Cut → Graph
  | .atStart => g
  | .folding j stage =>
    match c.loserIds[j]? with
    | none => mergeEntities c g
    | some loser =>
      cutFold c ((c.loserIds.take j).foldl (foldLoser c) (upsertSurvivor c g)) loser stage

/-- The loser has no `MENTIONS` edge. -/
def Unmentioned (g : Graph) (loser : String) : Prop := ∀ src, g.mentions.get? (src, loser) = none

/-- The cuts that a second run repairs: those outside a loser's writes, and those of a loser
without mentions, before its count was added or where it is none. -/
def Safe (c : MergeCall) (g : Graph) : Cut → Prop
  | .atStart => True
  | .folding j stage =>
    match c.loserIds[j]? with
    | none => True
    | some loser =>
      (loser = c.survivorId ∨ loser ∈ c.loserIds.take j ∨ g.hasEntity loser = false) ∨
        stage = .deleted ∨ stage = .loops 0 0 ∨
        Unmentioned g loser ∧ ((∃ done n, stage = .loops done n) ∨ g.count loser = 0)

/-! ## The survivor is upserted once -/

/-- The survivor is there, with a name that the call does not replace. -/
def Named (c : MergeCall) (g : Graph) : Prop :=
  ∃ e, g.entities.get? c.survivorId = some e ∧
    (strOr c.survivorName c.survivorId).length ≤ (e.name.getD "").length

theorem setEntity_of_fixed {g : Graph} {id : String} {f : Entity → Entity} {e : Entity}
    (hget : g.entities.get? id = some e) (hf : f e = e) : g.setEntity id f = g := by
  have hitems : g.entities.mapValues (fun k e => if k = id then f e else e) = g.entities := by
    have hmap : g.entities.items.map (fun p => (p.1, if p.1 = id then f p.2 else p.2)) =
        g.entities.items := by
      refine (List.map_congr_left fun p hp => ?_).trans (List.map_id _)
      by_cases hk : p.1 = id
      · have hp' := (Dict.mem_items_iff g.entities p.1 p.2).mp hp
        rw [hk, hget] at hp'
        rw [if_pos hk, ← Option.some.inj hp', hf, Option.some.inj hp']
        rfl
      · rw [if_neg hk]
        rfl
    cases hd : g.entities with
    | mk items nodup =>
      rw [hd] at hmap
      simp only [Dict.mapValues, hmap]
  rw [Graph.setEntity, hitems]

theorem upsertSurvivor_of_named {c : MergeCall} {g : Graph} (h : Named c g) :
    upsertSurvivor c g = g := by
  obtain ⟨e, hget, hname⟩ := h
  simp only [upsertSurvivor, hget]
  refine setEntity_of_fixed hget ?_
  rw [if_neg (Nat.not_lt.mpr hname)]

theorem length_le_longer (name : String) (old : Option String) :
    name.length ≤
      ((if name.length > (old.getD "").length then some name else old).getD "").length := by
  split
  · exact Nat.le_refl _
  · omega

theorem named_upsertSurvivor (c : MergeCall) (g : Graph) : Named c (upsertSurvivor c g) := by
  cases hget : g.entities.get? c.survivorId with
  | none =>
    refine ⟨⟨some (strOr c.survivorName c.survivorId), some (strOr c.entityType ""), some 0⟩, ?_,
      Nat.le_refl _⟩
    simp only [upsertSurvivor, hget]
    rw [Dict.get?_set, if_pos rfl]
  | some e =>
    have hset : (upsertSurvivor c g).entities.get? c.survivorId =
        some { e with name := if (strOr c.survivorName c.survivorId).length >
          (e.name.getD "").length then some (strOr c.survivorName c.survivorId) else e.name } := by
      simp only [upsertSurvivor, hget]
      rw [Graph.get?_setEntity, if_pos rfl, hget]
      rfl
    exact ⟨_, hset, length_le_longer _ _⟩

/-- A `SET` of the survivor's count, or of another entity, leaves its name. -/
theorem Named.congr {c : MergeCall} {g g' : Graph} (h : Named c g)
    (hname : (g'.entities.get? c.survivorId).map Entity.name =
      (g.entities.get? c.survivorId).map Entity.name) : Named c g' := by
  obtain ⟨e, hget, hlen⟩ := h
  rw [hget] at hname
  obtain ⟨e', hget', he⟩ := Option.map_eq_some_iff.mp hname
  exact ⟨e', hget', by rw [he]; exact hlen⟩

theorem named_foldLoser {c : MergeCall} {g : Graph} (h : Named c g) (l : String) :
    Named c (foldLoser c g l) := by
  have hg : g.hasEntity c.survivorId = true := by
    obtain ⟨e, hget, -⟩ := h
    rw [Graph.hasEntity, hget]
    rfl
  rcases foldLoser_cases c g l with ⟨heq, -⟩ | ⟨hl, e, hget⟩
  · rw [heq]
    exact h
  · refine h.congr ?_
    rw [get?_foldLoser_entities hl hget hg, if_neg (Ne.symm hl), if_pos rfl]
    cases g.entities.get? c.survivorId <;> rfl

theorem named_foldl (c : MergeCall) (ids : List String) {g : Graph} (h : Named c g) :
    Named c (ids.foldl (foldLoser c) g) :=
  foldl_invariant (foldLoser c) (Named c) (p := fun _ => True)
    (fun _ l hinv _ => named_foldLoser hinv l) h (fun _ _ => trivial)

theorem Named.hasEntity {c : MergeCall} {g : Graph} (h : Named c g) :
    g.hasEntity c.survivorId = true := by
  obtain ⟨e, hget, -⟩ := h
  rw [Graph.hasEntity, hget]
  rfl

/-! ## The loops of a fold, cut and run again -/

theorem after_keeps_of_eq {β : Type} (q : Graph → β) {b : Drain Graph}
    (hq : ∀ g, q (b.stmt g).1 = q g) (n : Nat) (g : Graph) : q (b.after n g) = q g :=
  Drain.after_keeps (p := fun g' => q g' = q g) (fun g' hg' => (hq g').trans hg') n rfl

section Stages

variable {c : MergeCall} {g : Graph} {loser : String} (h : loser ≠ c.survivorId)
  (hg : g.hasEntity c.survivorId = true)

theorem foldDrains_split {k : Nat} {b : Drain Graph} (hb : (foldDrains c loser)[k]? = some b) :
    foldDrains c loser = (foldDrains c loser).take k ++ b :: (foldDrains c loser).drop (k + 1) := by
  obtain ⟨hk, rfl⟩ := List.getElem?_eq_some_iff.mp hb
  rw [← List.drop_eq_getElem_cons hk, List.take_append_drop]

/-- What the loops keep, a cut keeps. -/
theorem loops_invariant {p : Graph → Prop}
    (hp : ∀ b ∈ foldDrains c loser, ∀ g, p g → p (b.stmt g).1) (i : Identity) (k n : Nat)
    (hpg : p g) : p (foldStage c loser i g (.loops k n)) := by
  rw [foldStage]
  cases hb : (foldDrains c loser)[k]? with
  | none => exact Drain.runAll_keeps hp hpg
  | some b =>
    have htake := Drain.runAll_keeps (fun b hb => hp b (List.mem_of_mem_take (i := k) hb)) hpg
    exact Drain.after_keeps (hp b (List.mem_of_getElem? hb)) n htake

theorem loops_keeps {β : Type} (q : Graph → β)
    (hq : ∀ b ∈ foldDrains c loser, ∀ g, q (b.stmt g).1 = q g) (i : Identity) (k n : Nat) :
    q (foldStage c loser i g (.loops k n)) = q g :=
  loops_invariant (p := fun g' => q g' = q g) (fun b hb g' hg' => (hq b hb g').trans hg') i k n rfl

theorem loops_entities (i : Identity) (k n : Nat) :
    (foldStage c loser i g (.loops k n)).entities = g.entities :=
  loops_keeps Graph.entities
    (foldDrains_keeps Graph.entities (fun _ _ _ _ _ _ _ _ _ _ _ => rfl)) i k n

theorem loops_tombstones (i : Identity) (k n : Nat) :
    (foldStage c loser i g (.loops k n)).tombstones = g.tombstones :=
  loops_keeps Graph.tombstones
    (foldDrains_keeps Graph.tombstones (fun _ _ _ _ _ _ _ _ _ _ _ => rfl)) i k n

include h hg

/-- The loops end where they would have ended. -/
theorem runAll_loops (i : Identity) (k n : Nat) :
    Drain.runAll (foldDrains c loser) (foldStage c loser i g (.loops k n)) =
      Drain.runAll (foldDrains c loser) g := by
  have hdrains := foldDrains_drains h
  have hpairwise := foldDrains_pairwise h
  rw [foldStage]
  cases hb : (foldDrains c loser)[k]? with
  | none =>
    exact Drain.runAll_idle hdrains (Drain.runAll_inv hdrains hg)
      (Drain.left_runAll hdrains hpairwise hg)
  | some b =>
    have hsplit := foldDrains_split hb
    rw [hsplit] at hdrains hpairwise
    have hcut := Drain.runAll_cut hdrains hpairwise n hg
    rw [← hsplit] at hcut
    exact hcut

/-- The mentions that a cut has left to the loser are fewer than they were, unless nothing
was run, or there are none. -/
theorem loops_rows_lt (i : Identity) {k n : Nat} (hkn : ¬ (k = 0 ∧ n = 0))
    (hrows : (repointMentions loser loser).rows g.mentions ≠ []) :
    ((repointMentions loser loser).rows (foldStage c loser i g (.loops k n)).mentions).length <
      ((repointMentions loser loser).rows g.mentions).length := by
  have hdrains : (repointDrain mentionsFamily (repointMentions loser c.survivorId) c.survivorId
      c.chunk).Drains (fun g => g.hasEntity c.survivorId = true) :=
    repointDrain_drains mentionsFamily (repointMentions_leaves h) c.chunk_pos
  have hleft : (repointDrain mentionsFamily (repointMentions loser c.survivorId) c.survivorId
      c.chunk).left g ≠ 0 := fun hzero => hrows (List.length_eq_zero_iff.mp hzero)
  cases k with
  | zero =>
    have hn : n ≠ 0 := fun hn => hkn ⟨rfl, hn⟩
    exact hdrains.left_after_lt hg hleft hn
  | succ k =>
    -- the first loop has moved them all, and no later one writes a mention
    have hgone : (foldStage c loser i g (.loops (k + 1) n)).mentions =
        ((repointDrain mentionsFamily (repointMentions loser c.survivorId) c.survivorId
          c.chunk).run g).mentions := by
      have hlater : ∀ bs : List (Drain Graph), (∀ b ∈ bs, b ∈ laterDrains c loser) → ∀ g',
          (Drain.runAll bs g').mentions = g'.mentions := fun bs hbs g' =>
        runAll_keeps_of_eq Graph.mentions (fun b hb => laterDrains_mentions c loser b (hbs b hb)) g'
      rw [foldStage, foldDrains_eq, List.getElem?_cons_succ, List.take_succ_cons,
        Drain.runAll_cons]
      cases hb : (laterDrains c loser)[k]? with
      | none => exact hlater _ (fun b hb => hb) _
      | some b =>
        refine Eq.trans ?_ (hlater ((laterDrains c loser).take k)
          (fun b hb => List.mem_of_mem_take hb) _)
        exact after_keeps_of_eq Graph.mentions
          (laterDrains_mentions c loser b (List.mem_of_getElem? hb)) n _
    have hzero := hdrains.left_run hg
    change ((repointMentions loser c.survivorId).rows _).length = 0 at hzero
    rw [hgone]
    show ((repointMentions loser c.survivorId).rows _).length < _
    exact Nat.lt_of_le_of_lt (Nat.le_of_eq hzero) (Nat.pos_of_ne_zero hleft)

omit hg in
/-- A second run from a cut in the loops differs in the snapshot alone. -/
theorem foldLoser_loops (hg : g.hasEntity c.survivorId = true) {e : Entity}
    (hget : g.entities.get? loser = some e) (i : Identity) (k n : Nat) :
    foldLoser c (foldStage c loser i g (.loops k n)) loser =
      detachDelete loser (writeTombstone c loser
        { identityOf c g loser e with
          mentionsSnapshot := snapshotMentions (foldStage c loser i g (.loops k n)) loser c.chunk }
        (addMentionCount c.survivorId (e.mentionCount.getD 0)
          (Drain.runAll (foldDrains c loser) g))) := by
  have hget' : (foldStage c loser i g (.loops k n)).entities.get? loser = some e := by
    rw [loops_entities, hget]
  rw [foldLoser_eq h hget', runAll_loops h hg]
  rfl

end Stages

/-- The loops look at edges and facts alone. -/
theorem left_congr (c : MergeCall) (loser : String) :
    ∀ b ∈ foldDrains c loser, ∀ (g : Graph) entities tombstones mergedInto,
      b.left { g with entities := entities, tombstones := tombstones, mergedInto := mergedInto } =
        b.left g := by
  intro b hb g entities tombstones mergedInto
  rcases List.mem_append.mp hb with hb | hb
  · simp only [entityEdgeRepoints, List.mem_cons, List.not_mem_nil, or_false] at hb
    rcases hb with rfl | rfl | rfl | rfl | rfl | rfl | rfl | rfl | rfl | rfl <;> rfl
  · simp only [reconcileFactSubjects, List.mem_cons, List.not_mem_nil, or_false] at hb
    rcases hb with rfl | rfl | rfl <;> rfl

/-- Once they have run, the loops find nothing, whatever is written to the nodes. -/
theorem runAll_again {c : MergeCall} {g g' : Graph} {loser : String} (h : loser ≠ c.survivorId)
    (hg : g.hasEntity c.survivorId = true) (hg' : g'.hasEntity c.survivorId = true)
    (hnodes : g' = { Drain.runAll (foldDrains c loser) g with
      entities := g'.entities, tombstones := g'.tombstones, mergedInto := g'.mergedInto }) :
    Drain.runAll (foldDrains c loser) g' = g' := by
  have hdrains := foldDrains_drains h
  refine Drain.runAll_idle hdrains hg' fun b hb => ?_
  rw [hnodes, left_congr c loser b hb]
  exact Drain.left_runAll hdrains (foldDrains_pairwise h) hg b hb

/-! ## What a cut does to the survivor and the tombstone -/

/-- The loser is gone from the graph, and the graphs differ in the survivor's count alone as
far as counts go. -/
structure Ahead (c : MergeCall) (delta : Nat) (g g' : Graph) : Prop where
  has : ∀ k, g'.hasEntity k = g.hasEntity k
  count : ∀ k, g'.count k = g.count k + if k = c.survivorId then delta else 0

theorem ahead_foldLoser {c : MergeCall} {delta : Nat} {g g' : Graph} (h : Ahead c delta g g')
    (hg : g.hasEntity c.survivorId = true) (l : String) :
    Ahead c delta (foldLoser c g l) (foldLoser c g' l) := by
  have hg' : g'.hasEntity c.survivorId = true := (h.has _).trans hg
  rcases foldLoser_cases c g l with ⟨heq, hskip⟩ | ⟨hl, e, hget⟩
  · rcases foldLoser_cases c g' l with ⟨heq', -⟩ | ⟨hl', e', hget'⟩
    · rw [heq, heq']
      exact h
    · have hhas := hskip.resolve_left hl'
      rw [← h.has, Graph.hasEntity, hget'] at hhas
      cases hhas
  · rcases foldLoser_cases c g' l with ⟨-, hskip'⟩ | ⟨-, e', hget'⟩
    · have hhas := hskip'.resolve_left hl
      rw [h.has, Graph.hasEntity, hget] at hhas
      cases hhas
    · constructor
      · intro k
        rw [hasEntity_foldLoser hl hget hg, hasEntity_foldLoser hl hget' hg', h.has]
      · intro k
        have hls : g'.count l = g.count l := by rw [h.count, if_neg hl, Nat.add_zero]
        rw [count_foldLoser hl hget hg, count_foldLoser hl hget' hg', hls, h.count]
        by_cases hk : k = l
        · rw [if_pos hk, if_pos hk, if_neg (fun he => hl (hk.symm.trans he))]
        · rw [if_neg hk, if_neg hk]
          by_cases hs : k = c.survivorId
          · rw [if_pos hs, if_pos hs, if_pos hs]
            omega
          · rw [if_neg hs, if_neg hs, if_neg hs]

theorem ahead_foldl {c : MergeCall} {delta : Nat} (ids : List String) {g g' : Graph}
    (h : Ahead c delta g g') (hg : g.hasEntity c.survivorId = true) :
    Ahead c delta (ids.foldl (foldLoser c) g) (ids.foldl (foldLoser c) g') := by
  induction ids generalizing g g' with
  | nil => exact h
  | cons l rest ih => exact ih (ahead_foldLoser h hg l) (hasEntity_survivor_foldLoser c hg l)

/-- The tombstone of an entity that is gone is not written again. -/
theorem foldl_tombstone_gone (c : MergeCall) (ids : List String) {g : Graph} {loser : String}
    (hg : g.hasEntity c.survivorId = true) (hgone : g.hasEntity loser = false) :
    (ids.foldl (foldLoser c) g).tombstones.get? loser = g.tombstones.get? loser := by
  induction ids generalizing g with
  | nil => rfl
  | cons l rest ih =>
    rw [List.foldl_cons]
    rcases foldLoser_cases c g l with ⟨heq, -⟩ | ⟨hl, e, hget⟩
    · rw [heq]
      exact ih hg hgone
    · have hne : loser ≠ l := by
        rintro rfl
        rw [Graph.hasEntity, hget] at hgone
        cases hgone
      have hgone' : (foldLoser c g l).hasEntity loser = false := by
        rw [hasEntity_foldLoser hl hget hg, hgone, Bool.and_false]
      rw [ih (hasEntity_survivor_foldLoser c hg l) hgone', foldLoser_tombstones hl hget hg,
        Dict.get?_set, if_neg hne]

/-! ## The second run -/

section SecondRun

variable {c : MergeCall} {g : Graph} {loser : String} (h : loser ≠ c.survivorId)
  (hg : g.hasEntity c.survivorId = true) {e : Entity} (hget : g.entities.get? loser = some e)

include h hg hget

theorem foldLoser_tombstone :
    (foldLoser c g loser).tombstones.get? loser =
      some (tombstoneOf c loser (identityOf c g loser e)) := by
  rw [foldLoser_tombstones h hget hg, Dict.get?_set, if_pos rfl]

/-- Two runs whose snapshots differ end in graphs that differ. -/
theorem foldl_ne_of_snapshot {g' : Graph} (hg' : g'.hasEntity c.survivorId = true)
    (hget' : g'.entities.get? loser = some e) (ids : List String)
    (hlen : (mentionRows g' loser).length ≠ (mentionRows g loser).length) :
    ids.foldl (foldLoser c) (foldLoser c g' loser) ≠ ids.foldl (foldLoser c) (foldLoser c g loser) := by
  intro heq
  have hgone : ∀ {x : Graph}, x.hasEntity c.survivorId = true → x.entities.get? loser = some e →
      (ids.foldl (foldLoser c) (foldLoser c x loser)).tombstones.get? loser =
        some (tombstoneOf c loser (identityOf c x loser e)) := by
    intro x hx hxget
    rw [foldl_tombstone_gone c ids (hasEntity_survivor_foldLoser c hx loser)
      (by rw [hasEntity_foldLoser h hxget hx]; simp), foldLoser_tombstone h hx hxget]
  have htomb := hgone hg' hget'
  rw [heq, hgone hg hget] at htomb
  have hsnap := congrArg Tombstone.mentionsSnapshot (Option.some.inj htomb)
  change snapshotMentions g loser c.chunk = snapshotMentions g' loser c.chunk at hsnap
  rw [snapshotMentions_eq g loser c.chunk_pos, snapshotMentions_eq g' loser c.chunk_pos] at hsnap
  exact hlen (congrArg List.length hsnap.symm)

end SecondRun

theorem mentionRows_eq_nil_iff (g : Graph) (loser : String) :
    mentionRows g loser = [] ↔ Unmentioned g loser := by
  rw [← List.length_eq_zero_iff, length_mentionRows, List.length_eq_zero_iff,
    Dict.Repoint.rows_eq_nil_iff]
  constructor
  · exact fun h src => h (src, loser) (decide_eq_true rfl)
  · rintro h ⟨src, id⟩ hid
    have hid : id = loser := of_decide_eq_true hid
    rw [hid]
    exact h src

/-- A fold writes no mention of its loser. -/
theorem unmentioned_stmt {c : MergeCall} {loser : String} (h : loser ≠ c.survivorId) :
    ∀ b ∈ foldDrains c loser, ∀ g, g.hasEntity c.survivorId = true ∧ Unmentioned g loser →
      (b.stmt g).1.hasEntity c.survivorId = true ∧ Unmentioned (b.stmt g).1 loser := by
  intro b hb g hg
  refine ⟨(foldDrains_drains h b hb).keeps g hg.1, ?_⟩
  rcases List.mem_cons.mp (foldDrains_eq c loser ▸ hb) with rfl | hb
  · have hrows := (mentionRows_eq_nil_iff g loser).mpr hg.2
    rw [← List.length_eq_zero_iff, length_mentionRows] at hrows
    rw [(repointDrain_drains mentionsFamily (repointMentions_leaves h) c.chunk_pos).idle g hg.1 hrows]
    exact hg.2
  · intro src
    rw [laterDrains_mentions c loser b hb]
    exact hg.2 src

section SecondRun

variable {c : MergeCall} {g : Graph} {loser : String} (h : loser ≠ c.survivorId)
  (hg : g.hasEntity c.survivorId = true) {e : Entity} (hget : g.entities.get? loser = some e)

include h hg hget

/-- Without mentions, a cut in the loops is repaired. -/
theorem foldLoser_loops_same (hnone : Unmentioned g loser) (i : Identity) (k n : Nat) :
    foldLoser c (foldStage c loser i g (.loops k n)) loser = foldLoser c g loser := by
  have hcut : Unmentioned (foldStage c loser i g (.loops k n)) loser :=
    (loops_invariant (unmentioned_stmt h) i k n ⟨hg, hnone⟩).2
  have hsnap : snapshotMentions (foldStage c loser i g (.loops k n)) loser c.chunk =
      snapshotMentions g loser c.chunk := by
    rw [snapshotMentions_eq _ _ c.chunk_pos, snapshotMentions_eq _ _ c.chunk_pos,
      (mentionRows_eq_nil_iff _ _).mpr hcut, (mentionRows_eq_nil_iff _ _).mpr hnone]
  rw [foldLoser_loops h hg hget, foldLoser_eq h hget, hsnap]
  rfl

end SecondRun

/-- The graph once the count has been added to what the loops left, with the tombstone or
without. -/
structure Added (c : MergeCall) (e : Entity) (folded g' : Graph) : Prop where
  nodes : g' = { folded with
    entities := g'.entities, tombstones := g'.tombstones, mergedInto := g'.mergedInto }
  entities : g'.entities = (addMentionCount c.survivorId (e.mentionCount.getD 0) folded).entities

theorem added_counted (c : MergeCall) (e : Entity) (folded : Graph) :
    Added c e folded (addMentionCount c.survivorId (e.mentionCount.getD 0) folded) := ⟨rfl, rfl⟩

theorem added_tombstoned {c : MergeCall} {e : Entity} {folded : Graph}
    (hf : folded.hasEntity c.survivorId = true) (loser : String) (i : Identity) :
    Added c e folded
      (writeTombstone c loser i
        (addMentionCount c.survivorId (e.mentionCount.getD 0) folded)) := by
  rw [writeTombstone, if_pos ((hasEntity_addMentionCount _ _ _ _).trans hf)]
  exact ⟨rfl, rfl⟩

section Added

variable {c : MergeCall} {g folded g' : Graph} {loser : String} (h : loser ≠ c.survivorId)
  (hg : g.hasEntity c.survivorId = true) {e : Entity} (hget : g.entities.get? loser = some e)
  (hf : folded = Drain.runAll (foldDrains c loser) g) (ha : Added c e folded g')

include hf ha

theorem Added.get?_entities (k : String) :
    g'.entities.get? k =
      if k = c.survivorId then
        (g.entities.get? k).map
          (fun s => { s with mentionCount := some (s.mentionCount.getD 0 + e.mentionCount.getD 0) })
      else g.entities.get? k := by
  rw [ha.entities, addMentionCount, Graph.get?_setEntity, hf, runAll_entities]

theorem Added.hasEntity (k : String) : g'.hasEntity k = g.hasEntity k := by
  rw [hasEntity_congr ha.entities, hasEntity_addMentionCount, hf,
    hasEntity_congr (runAll_entities c loser g)]

include h hg

/-- The loser's mentions have all been moved. -/
theorem Added.mentionRows : mentionRows g' loser = [] := by
  rw [mentionRows_eq_nil_iff]
  intro src
  rw [ha.nodes]
  show folded.mentions.get? (src, loser) = none
  rw [hf, runAll_mentions h hg, get?_moveAll_mentions h, if_pos rfl]

/-- The loops of a second run find nothing. -/
theorem Added.runAll : Drain.runAll (foldDrains c loser) g' = g' := by
  have hg' : g'.hasEntity c.survivorId = true := (ha.hasEntity hf _).trans hg
  have hnodes := ha.nodes
  rw [hf] at hnodes
  exact runAll_again h hg hg' hnodes

include hget

/-- The second run adds the count once more. -/
theorem Added.ahead : Ahead c (g.count loser) (foldLoser c g loser) (foldLoser c g' loser) := by
  have hget' : g'.entities.get? loser = some e := by
    rw [ha.get?_entities hf, if_neg h, hget]
  have hg' : g'.hasEntity c.survivorId = true := (ha.hasEntity hf _).trans hg
  have hcl : g.count loser = e.mentionCount.getD 0 := by
    rw [Graph.count, hget]
    rfl
  have hcount : ∀ k, g'.count k = g.count k + if k = c.survivorId then g.count loser else 0 := by
    intro k
    rw [Graph.count, ha.get?_entities hf, hcl]
    by_cases hs : k = c.survivorId
    · obtain ⟨s, hs'⟩ := Option.isSome_iff_exists.mp hg
      rw [if_pos hs, if_pos hs, Graph.count, hs, hs']
      rfl
    · rw [if_neg hs, if_neg hs, Graph.count, Nat.add_zero]
  constructor
  · intro k
    rw [hasEntity_foldLoser h hget' hg', hasEntity_foldLoser h hget hg, ha.hasEntity hf]
  · intro k
    have hls : g'.count loser = g.count loser := by rw [hcount, if_neg h, Nat.add_zero]
    rw [count_foldLoser h hget' hg', count_foldLoser h hget hg, hls, hcount]
    by_cases hk : k = loser
    · rw [if_pos hk, if_pos hk, if_neg (fun he => h (hk.symm.trans he))]
    · rw [if_neg hk, if_neg hk]
      by_cases hs : k = c.survivorId
      · rw [if_pos hs, if_pos hs, if_pos hs, Nat.add_right_comm]
      · rw [if_neg hs, if_neg hs, if_neg hs, Nat.add_zero]

omit h in
/-- With nothing to add, the second run writes the count that is there. -/
theorem Added.addMentionCount_same (hzero : g.count loser = 0) :
    addMentionCount c.survivorId (e.mentionCount.getD 0) g' = g' := by
  have hcl : e.mentionCount.getD 0 = 0 := by
    rw [Graph.count, hget] at hzero
    exact hzero
  obtain ⟨s, hs⟩ := Option.isSome_iff_exists.mp hg
  have hs' : g'.entities.get? c.survivorId =
      some { s with mentionCount := some (s.mentionCount.getD 0 + e.mentionCount.getD 0) } := by
    rw [ha.get?_entities hf, if_pos rfl, hs]
    rfl
  refine setEntity_of_fixed hs' ?_
  show Entity.mk _ _ (some (s.mentionCount.getD 0 + e.mentionCount.getD 0 +
    e.mentionCount.getD 0)) = _
  rw [hcl]

/-- The second run from here, when the loser had no mentions and no count. -/
theorem Added.foldLoser_same (hnone : Unmentioned g loser) (hzero : g.count loser = 0) :
    foldLoser c g' loser =
      detachDelete loser (writeTombstone c loser (identityOf c g loser e) g') := by
  have hget' : g'.entities.get? loser = some e := by
    rw [ha.get?_entities hf, if_neg h, hget]
  have hsnap : snapshotMentions g' loser c.chunk = snapshotMentions g loser c.chunk := by
    rw [snapshotMentions_eq _ _ c.chunk_pos, snapshotMentions_eq _ _ c.chunk_pos,
      ha.mentionRows h hg hf, (mentionRows_eq_nil_iff _ _).mpr hnone]
  rw [foldLoser_eq h hget', ha.runAll h hg hf, ha.addMentionCount_same hg hget hf hzero,
    identityOf, hsnap]
  rfl

end Added

/-- A tombstone written twice is written once. -/
theorem writeTombstone_twice {c : MergeCall} {g : Graph} {loser : String}
    (hg : g.hasEntity c.survivorId = true) (i : Identity) :
    writeTombstone c loser i (writeTombstone c loser i g) = writeTombstone c loser i g := by
  have hw : writeTombstone c loser i g = { g with
      tombstones := g.tombstones.set loser (tombstoneOf c loser i)
      mergedInto := g.mergedInto.set (loser, c.survivorId) () } := if_pos hg
  have htomb : (g.tombstones.set loser (tombstoneOf c loser i)).set loser (tombstoneOf c loser i) =
      g.tombstones.set loser (tombstoneOf c loser i) :=
    Dict.set_of_get? (by rw [Dict.get?_set, if_pos rfl])
  have hinto : (g.mergedInto.set (loser, c.survivorId) ()).set (loser, c.survivorId) () =
      g.mergedInto.set (loser, c.survivorId) () :=
    Dict.set_of_get? (by rw [Dict.get?_set, if_pos rfl])
  rw [hw]
  refine (if_pos hg).trans ?_
  show Graph.mk .. = Graph.mk ..
  congr

/-! ## The whole call -/

/-- A call leaves an entity alone that it does not name. -/
theorem foldl_other (c : MergeCall) (ids : List String) {g : Graph} {l : String}
    (hg : g.hasEntity c.survivorId = true) (hl : l ≠ c.survivorId) (hmem : l ∉ ids) :
    (ids.foldl (foldLoser c) g).entities.get? l = g.entities.get? l ∧
      ∀ src, (ids.foldl (foldLoser c) g).mentions.get? (src, l) = g.mentions.get? (src, l) := by
  induction ids generalizing g with
  | nil => exact ⟨rfl, fun _ => rfl⟩
  | cons x rest ih =>
    rw [List.mem_cons, not_or] at hmem
    obtain ⟨hentity, hmentions⟩ := ih (hasEntity_survivor_foldLoser c hg x) hmem.2
    rw [List.foldl_cons, hentity]
    rcases foldLoser_cases c g x with ⟨heq, -⟩ | ⟨hx, e, hget⟩
    · rw [heq] at hmentions ⊢
      exact ⟨rfl, hmentions⟩
    · refine ⟨?_, fun src => (hmentions src).trans ?_⟩
      · rw [get?_foldLoser_entities hx hget hg, if_neg hmem.1, if_neg hl]
      · rw [get?_foldLoser_mentions hx hget hg, if_neg hmem.1, if_neg hl]

theorem upsertSurvivor_other (c : MergeCall) (g : Graph) {l : String} (hl : l ≠ c.survivorId) :
    (upsertSurvivor c g).entities.get? l = g.entities.get? l := by
  rw [upsertSurvivor]
  split
  · show (g.entities.set _ _).get? l = _
    rw [Dict.get?_set, if_neg hl]
  · rw [Graph.get?_setEntity, if_neg hl]

/-- The call again, from a graph in which the losers before this one are gone. -/
theorem mergeEntities_resume {c : MergeCall} {g' : Graph} {j : Nat} {loser : String}
    (hj : c.loserIds[j]? = some loser) (hnamed : Named c g')
    (hgone : ∀ x ∈ c.loserIds.take j, x = c.survivorId ∨ g'.hasEntity x = false) :
    mergeEntities c g' = (c.loserIds.drop (j + 1)).foldl (foldLoser c) (foldLoser c g' loser) := by
  have hsplit : c.loserIds = c.loserIds.take j ++ loser :: c.loserIds.drop (j + 1) := by
    obtain ⟨hlt, rfl⟩ := List.getElem?_eq_some_iff.mp hj
    rw [← List.drop_eq_getElem_cons hlt, List.take_append_drop]
  rw [mergeEntities, upsertSurvivor_of_named hnamed]
  conv_lhs => rw [hsplit]
  rw [List.foldl_append, foldl_foldLoser_skip c hgone, List.foldl_cons]

section Resume

variable {c : MergeCall} {g folded g' : Graph} {loser : String} (h : loser ≠ c.survivorId)
  (hg : g.hasEntity c.survivorId = true) {e : Entity} (hget : g.entities.get? loser = some e)
  (hf : folded = Drain.runAll (foldDrains c loser) g)

include hf

theorem foldStage_counted :
    foldStage c loser (identityOf c g loser e) g .counted =
      addMentionCount c.survivorId (e.mentionCount.getD 0) folded := by
  rw [hf]
  rfl

theorem foldStage_tombstoned :
    foldStage c loser (identityOf c g loser e) g .tombstoned =
      writeTombstone c loser (identityOf c g loser e)
        (addMentionCount c.survivorId (e.mentionCount.getD 0) folded) := by
  rw [hf]
  rfl

include hg in
theorem hasEntity_folded : folded.hasEntity c.survivorId = true := by
  rw [hf, hasEntity_congr (runAll_entities c loser g)]
  exact hg

include h hg hget in
/-- Once the count has been added, a second run differs, unless there was nothing to move and
nothing to add. -/
theorem Added.foldl_iff (ha : Added c e folded g') (rest : List String)
    (hcase : detachDelete loser (writeTombstone c loser (identityOf c g loser e) g') =
      foldLoser c g loser) :
    rest.foldl (foldLoser c) (foldLoser c g' loser) =
        rest.foldl (foldLoser c) (foldLoser c g loser) ↔
      Unmentioned g loser ∧ g.count loser = 0 := by
  have hg' : g'.hasEntity c.survivorId = true := (ha.hasEntity hf _).trans hg
  have hget' : g'.entities.get? loser = some e := by
    rw [ha.get?_entities hf, if_neg h, hget]
  constructor
  · intro heq
    have hnone : Unmentioned g loser := by
      by_contra hment
      refine foldl_ne_of_snapshot h hg hget hg' hget' rest ?_ heq
      rw [ha.mentionRows h hg hf, List.length_nil]
      exact fun hzero => hment
        ((mentionRows_eq_nil_iff g loser).mp (List.length_eq_zero_iff.mp hzero.symm))
    refine ⟨hnone, ?_⟩
    have hahead := ahead_foldl rest (ha.ahead h hg hget hf)
      (hasEntity_survivor_foldLoser c hg loser)
    have hcount := hahead.count c.survivorId
    rw [heq, if_pos rfl] at hcount
    omega
  · rintro ⟨hnone, hzero⟩
    rw [ha.foldLoser_same h hg hget hf hnone hzero, hcase]

end Resume

/-- A stage keeps the survivor's name, and brings no entity back. -/
theorem stage_nodes {c : MergeCall} {g : Graph} {loser : String} (h : loser ≠ c.survivorId)
    (hn : Named c g) {e : Entity} (hget : g.entities.get? loser = some e) (stage : Stage) :
    Named c (foldStage c loser (identityOf c g loser e) g stage) ∧
      ∀ k, (foldStage c loser (identityOf c g loser e) g stage).hasEntity k = true →
        g.hasEntity k = true := by
  obtain ⟨folded, hf⟩ : ∃ folded, folded = Drain.runAll (foldDrains c loser) g := ⟨_, rfl⟩
  have hadded : ∀ {g' : Graph}, Added c e folded g' →
      Named c g' ∧ ∀ k, g'.hasEntity k = true → g.hasEntity k = true := by
    intro g' ha
    refine ⟨hn.congr ?_, fun k hk => (ha.hasEntity hf k).symm.trans hk⟩
    rw [ha.get?_entities hf, if_pos rfl]
    cases g.entities.get? c.survivorId <;> rfl
  cases stage with
  | loops k n =>
    have hent : (foldStage c loser (identityOf c g loser e) g (.loops k n)).entities =
        g.entities := loops_entities _ k n
    exact ⟨hn.congr (by rw [hent]), fun x hx => (hasEntity_congr hent x).symm.trans hx⟩
  | counted =>
    rw [foldStage_counted hf]
    exact hadded (added_counted c e folded)
  | tombstoned =>
    rw [foldStage_tombstoned hf]
    exact hadded (added_tombstoned (hasEntity_folded hn.hasEntity hf) loser _)
  | deleted =>
    have heq : foldStage c loser (identityOf c g loser e) g .deleted = foldLoser c g loser :=
      (foldLoser_eq h hget).symm
    rw [heq]
    refine ⟨named_foldLoser hn loser, fun k hk => ?_⟩
    rw [hasEntity_foldLoser h hget hn.hasEntity, Bool.and_eq_true] at hk
    exact hk.2

/-- The second run from a cut in the fold of one loser, when the losers after it follow. -/
theorem foldl_stage_iff {c : MergeCall} {g : Graph} {loser : String} (h : loser ≠ c.survivorId)
    (hg : g.hasEntity c.survivorId = true) {e : Entity} (hget : g.entities.get? loser = some e)
    (stage : Stage) (rest : List String) :
    rest.foldl (foldLoser c)
        (foldLoser c (foldStage c loser (identityOf c g loser e) g stage) loser) =
        rest.foldl (foldLoser c) (foldLoser c g loser) ↔
      stage = .deleted ∨ stage = .loops 0 0 ∨
        Unmentioned g loser ∧ ((∃ done n, stage = .loops done n) ∨ g.count loser = 0) := by
  obtain ⟨folded, hf⟩ : ∃ folded, folded = Drain.runAll (foldDrains c loser) g := ⟨_, rfl⟩
  have hwritten : detachDelete loser (writeTombstone c loser (identityOf c g loser e)
      (addMentionCount c.survivorId (e.mentionCount.getD 0) folded)) = foldLoser c g loser := by
    rw [hf, foldLoser_eq h hget]
  have hhas := hasEntity_folded hg hf
  cases stage with
  | loops k n =>
    constructor
    · intro heq
      by_cases hkn : k = 0 ∧ n = 0
      · exact Or.inr (Or.inl (by rw [hkn.1, hkn.2]))
      · refine Or.inr (Or.inr ⟨?_, Or.inl ⟨k, n, rfl⟩⟩)
        by_contra hment
        have hent : (foldStage c loser (identityOf c g loser e) g (.loops k n)).entities =
            g.entities := loops_entities _ k n
        refine foldl_ne_of_snapshot h hg hget ((hasEntity_congr hent _).trans hg)
          (by rw [hent, hget]) rest ?_ heq
        rw [length_mentionRows, length_mentionRows]
        refine Nat.ne_of_lt (loops_rows_lt h hg _ hkn fun hrows => hment ?_)
        rw [← mentionRows_eq_nil_iff, ← List.length_eq_zero_iff, length_mentionRows, hrows,
          List.length_nil]
    · rintro (hstage | hstage | ⟨hnone, -⟩)
      · cases hstage
      · cases hstage
        rfl
      · rw [foldLoser_loops_same h hg hget hnone]
  | counted =>
    rw [foldStage_counted hf, (added_counted c e folded).foldl_iff h hg hget hf rest hwritten]
    simp
  | tombstoned =>
    have hx : (addMentionCount c.survivorId (e.mentionCount.getD 0) folded).hasEntity
        c.survivorId = true := (hasEntity_addMentionCount _ _ _ _).trans hhas
    rw [foldStage_tombstoned hf, (added_tombstoned hhas loser _).foldl_iff h hg hget hf rest
      (by rw [writeTombstone_twice hx, hwritten])]
    simp
  | deleted =>
    have heq : foldStage c loser (identityOf c g loser e) g .deleted = foldLoser c g loser :=
      (foldLoser_eq h hget).symm
    have hgone : (foldLoser c g loser).entities.get? loser = none := by
      rw [get?_foldLoser_entities h hget hg, if_pos rfl]
    rw [heq, foldLoser_gone hgone]
    simp

/-- The losers of a call before one of them, that one, and those after it. -/
theorem mergeEntities_split {c : MergeCall} (g : Graph) {j : Nat} {loser : String}
    (hj : c.loserIds[j]? = some loser) :
    mergeEntities c g = (c.loserIds.drop (j + 1)).foldl (foldLoser c)
      (foldLoser c ((c.loserIds.take j).foldl (foldLoser c) (upsertSurvivor c g)) loser) := by
  have hsplit : c.loserIds = c.loserIds.take j ++ loser :: c.loserIds.drop (j + 1) := by
    obtain ⟨hlt, rfl⟩ := List.getElem?_eq_some_iff.mp hj
    rw [← List.drop_eq_getElem_cons hlt, List.take_append_drop]
  rw [mergeEntities]
  conv_lhs => rw [hsplit]
  rw [List.foldl_append, List.foldl_cons]

/-- A merge that is cut anywhere, and made again, ends in the graph of the merge made once,
if and only if the cut is safe. -/
theorem mergeEntities_cut_iff (c : MergeCall) (g : Graph) (cut : Cut) :
    mergeEntities c (cutMerge c g cut) = mergeEntities c g ↔ Safe c g cut := by
  cases cut with
  | atStart => exact ⟨fun _ => trivial, fun _ => rfl⟩
  | folding j stage =>
    rw [cutMerge, Safe]
    cases hj : c.loserIds[j]? with
    | none =>
      refine ⟨fun _ => trivial, fun _ => ?_⟩
      show mergeEntities c (mergeEntities c g) = mergeEntities c g
      have hnamed : Named c (mergeEntities c g) :=
        named_foldl c c.loserIds (named_upsertSurvivor c g)
      rw [mergeEntities_again, upsertSurvivor_of_named hnamed]
    | some loser =>
      have hfull := mergeEntities_split g hj
      have hu := hasEntity_survivor_upsertSurvivor c g
      have hnamed := named_foldl c (c.loserIds.take j) (named_upsertSurvivor c g)
      have hgone : ∀ x ∈ c.loserIds.take j, x = c.survivorId ∨
          ((c.loserIds.take j).foldl (foldLoser c) (upsertSurvivor c g)).hasEntity x = false := by
        intro x hx
        by_cases hxs : x = c.survivorId
        · exact Or.inl hxs
        · exact Or.inr (foldl_foldLoser_gone c _ hu hxs (Or.inr hx))
      have hother := fun (hl : loser ≠ c.survivorId) (hmem : loser ∉ c.loserIds.take j) =>
        foldl_other c (c.loserIds.take j) hu hl hmem
      -- `g₀` is the graph before the loser's fold
      generalize (c.loserIds.take j).foldl (foldLoser c) (upsertSurvivor c g) = g₀ at *
      dsimp only
      have hskip : mergeEntities c g₀ = mergeEntities c g := by
        rw [mergeEntities_resume hj hnamed hgone, hfull]
      by_cases hl : loser = c.survivorId
      · rw [cutFold, if_pos hl]
        exact ⟨fun _ => Or.inl (Or.inl hl), fun _ => hskip⟩
      · cases hget : g₀.entities.get? loser with
        | none =>
          have hcut : cutFold c g₀ loser stage = g₀ := by
            rw [cutFold, if_neg hl, readIdentity, hget]
            rfl
          rw [hcut]
          refine ⟨fun _ => Or.inl (Or.inr ?_), fun _ => hskip⟩
          by_cases hmem : loser ∈ c.loserIds.take j
          · exact Or.inl hmem
          · refine Or.inr ?_
            rw [(hother hl hmem).1, upsertSurvivor_other c g hl] at hget
            rw [Graph.hasEntity, hget]
            rfl
        | some e =>
          have hmem : loser ∉ c.loserIds.take j := by
            intro hmem
            have hno := (hgone loser hmem).resolve_left hl
            rw [Graph.hasEntity, hget] at hno
            cases hno
          have hgget : g.entities.get? loser = some e := by
            rw [← upsertSurvivor_other c g hl, ← (hother hl hmem).1, hget]
          have hment : Unmentioned g₀ loser ↔ Unmentioned g loser := by
            refine forall_congr' fun src => ?_
            rw [(hother hl hmem).2, (upsertSurvivor_keeps c g).1]
          have hcount : g₀.count loser = g.count loser := by
            rw [Graph.count, Graph.count, hget, hgget]
          have hcut : cutFold c g₀ loser stage =
              foldStage c loser (identityOf c g₀ loser e) g₀ stage := by
            rw [cutFold, if_neg hl, readIdentity, hget]
            rfl
          obtain ⟨hnamed', hkeep⟩ := stage_nodes hl hnamed hget stage
          have hgone' : ∀ x ∈ c.loserIds.take j, x = c.survivorId ∨
              (foldStage c loser (identityOf c g₀ loser e) g₀ stage).hasEntity x = false := by
            intro x hx
            refine (hgone x hx).imp_right fun hno => Bool.eq_false_iff.mpr fun hyes => ?_
            rw [hkeep x hyes] at hno
            cases hno
          have hexists : g.hasEntity loser = true := by
            rw [Graph.hasEntity, hgget]
            rfl
          rw [hcut, mergeEntities_resume hj hnamed' hgone', hfull,
            foldl_stage_iff hl hnamed.hasEntity hget, hment, hcount]
          constructor
          · exact Or.inr
          · rintro ((hs | hm | hno) | hsafe)
            · exact absurd hs hl
            · exact absurd hm hmem
            · rw [hexists] at hno
              cases hno
            · exact hsafe

/-- Two artifacts of one entity. -/
def twiceMentioned : Graph :=
  { Graph.empty with
    sources := [⟨.artifact, "a"⟩, ⟨.artifact, "b"⟩]
    entities := ⟨[("person:ada", ⟨some "Ada", some "PERSON", some 2⟩)], by decide⟩
    mentions := ⟨[((⟨.artifact, "a"⟩, "person:ada"), ⟨some 1, some ["c1"], "t1"⟩),
      ((⟨.artifact, "b"⟩, "person:ada"), ⟨some 1, some ["c2"], "t2"⟩)], by decide⟩ }

/-- Cut after the first of two mentions, a merge made again has the other alone in its
snapshot; cut after the count, it counts twice. -/
theorem merge_cut_loses_mentions_and_counts_twice :
    mergeEntities { mergeAda with chunk := 1, chunk_pos := Nat.le_refl 1 }
        (cutMerge { mergeAda with chunk := 1, chunk_pos := Nat.le_refl 1 } twiceMentioned
          (.folding 0 (.loops 0 1))) ≠
        mergeEntities { mergeAda with chunk := 1, chunk_pos := Nat.le_refl 1 } twiceMentioned ∧
      mergeEntities mergeAda (cutMerge mergeAda twiceMentioned (.folding 0 .counted)) ≠
        mergeEntities mergeAda twiceMentioned := by
  constructor
  · intro h
    have hsnap := congrArg (fun g => (g.tombstones.get? "person:ada").map
      (fun t => t.mentionsSnapshot.length)) h
    revert hsnap
    decide +kernel
  · intro h
    have hcount := congrArg (fun g => g.count "person:ada-lovelace") h
    revert hcount
    decide +kernel

end Cerid.EntityGraph
