import Cerid.Wikilinks.Landing

/-!
# Every order of ingests

The links of a vault get their edges in every order exactly when each name means one note, by
both ways of finding it, and no two links of a note share an edge (`agreed_iff`).
-/

namespace Cerid.Wikilinks

/-- A note that answers to the target of a link, or the placeholder if there is none. -/
def Resolves (notes : List Note) (r : WikilinkRef) (t : Target) : Prop :=
  (∃ m ∈ notes, m.answers r.target = true ∧ t = .artifact m.id) ∨
    (∀ m ∈ notes, m.answers r.target = false) ∧ t = .placeholder r.target

/-- In every order each link has one edge, with its own alias and heading, and always the same:
to a note that answers to its target if there is one, to a placeholder otherwise. -/
def Agreed (limit : Limit) (v : Vault) : Prop :=
  ∃ f : Note → WikilinkRef → Target,
    (∀ n ∈ v.notes, ∀ r ∈ n.refs, Resolves v.notes r (f n r)) ∧
      ∀ run, v.Covered run →
        (ingestAll limit run).edges.Perm ((links v.notes).map (edgeAt f))

/-- What a name means in a note: the note itself, another one, or nothing yet. -/
def meaning (notes : List Note) (n : Note) (name : String) : Target :=
  if n.answers name then .artifact n.id else answered notes name

/-- A note that links is the only one with its text.  A link to the note itself is not the end
of another's file name.  Any other target is the end of the file names of just the notes that
answer to it, and these are one text. -/
structure Named (notes : List Note) : Prop where
  twins : ∀ n ∈ notes, ∀ m ∈ notes, n.id = m.id → n ≠ m → n.refs = []
  own : ∀ n ∈ notes, ∀ r ∈ n.refs, n.answers r.target = true →
    ∀ m ∈ notes, m.id ≠ n.id → m.endsWith r.target = false
  ends : ∀ n ∈ notes, ∀ r ∈ n.refs, n.answers r.target = false →
    ∀ m ∈ notes, m.id ≠ n.id → m.endsWith r.target = m.answers r.target
  one : ∀ n ∈ notes, ∀ r ∈ n.refs, n.answers r.target = false →
    ∀ m ∈ notes, m.answers r.target = true →
      ∀ m' ∈ notes, m'.answers r.target = true ↔ m'.id = m.id

/-- Besides, two links of a note of one kind mean different things. -/
structure Clear (notes : List Note) : Prop extends Named notes where
  apart : ∀ n ∈ notes, ∀ r ∈ n.refs, ∀ r' ∈ n.refs, r ≠ r' → r.rel = r'.rel →
    meaning notes n r.target ≠ meaning notes n r'.target

variable {limit : Limit} {v : Vault} {artifacts : List Note}

/-! ## Where names are clear -/

theorem first_nil : limit.first [] = none := by
  cases h : limit.first [] with
  | none => rfl
  | some m => exact absurd (limit.mem h) List.not_mem_nil

theorem mem_candidates {notes : List Note} {id target : String} {m : Note} :
    m ∈ candidates notes id target ↔ m ∈ notes ∧ m.endsWith target = true ∧ m.id ≠ id := by
  unfold candidates
  rw [List.mem_filter, Bool.and_eq_true, decide_eq_true_iff]

/-- Where names are clear, a link goes to what its name means. -/
theorem Named.home_eq (hc : Named v.notes) (h : Landing v artifacts) {n : Note}
    (hn : n ∈ artifacts) {r : WikilinkRef} (hr : r ∈ n.refs) :
    home limit artifacts n r = meaning v.notes n r.target := by
  obtain ⟨before, after, rfl⟩ := List.append_of_mem hn
  have hids := h.ids
  rw [List.map_append, List.map_cons] at hids
  have hbefore : ∀ m ∈ before, m.id ≠ n.id := by
    intro m hm hid
    exact List.disjoint_of_nodup_append hids (List.mem_map_of_mem hm) (hid ▸ List.mem_cons_self)
  have hfresh : n.id ∉ before.map Note.id := by
    intro hin
    obtain ⟨m, hm, hid⟩ := List.mem_map.mp hin
    exact hbefore m hm hid
  have hnotes : ∀ m ∈ before, m ∈ v.notes := fun m hm => h.sub m (List.mem_append_left _ hm)
  have hnv := h.sub n hn
  rw [home_split hfresh]
  unfold meaning
  cases hself : n.answers r.target with
  | true =>
    have hnone : candidates before n.id r.target = [] := by
      refine List.eq_nil_iff_forall_not_mem.mpr (fun m hm => ?_)
      obtain ⟨hmem, hends, hne⟩ := mem_candidates.mp hm
      have hnot := hc.own n hnv r hr hself m (hnotes m hmem) hne
      exact Bool.false_ne_true (hnot.symm.trans hends)
    rw [hnone, first_nil]
    show answered (n :: after) r.target = _
    rw [answered_cons, hself, if_pos rfl, if_pos rfl]
  | false =>
    have hone := hc.one n hnv r hr hself
    have hends := hc.ends n hnv r hr hself
    -- whoever answers, the meaning is that text
    have hmeaning : ∀ m ∈ v.notes, m.answers r.target = true →
        answered v.notes r.target = .artifact m.id := by
      intro m hm hans
      obtain ⟨x, hx, hxans, heq⟩ := answered_of_mem hm hans
      rw [heq, (hone m hm hans x hx).mp hxans]
    rw [if_neg Bool.false_ne_true]
    cases hfirst : limit.first (candidates before n.id r.target) with
    | some m =>
      obtain ⟨hmem, hend, hne⟩ := mem_candidates.mp (limit.mem hfirst)
      have hans := (hends m (hnotes m hmem) hne).symm.trans hend
      exact (hmeaning m (hnotes m hmem) hans).symm
    | none =>
      show answered (n :: after) r.target = _
      have hnone := limit.found hfirst
      have hsilent : ∀ m ∈ before, m.answers r.target = false := by
        intro m hm
        rw [← hends m (hnotes m hm) (hbefore m hm), ← Bool.not_eq_true]
        intro hend
        have hcand := mem_candidates.mpr ⟨hm, hend, hbefore m hm⟩
        rw [hnone] at hcand
        exact List.not_mem_nil hcand
      by_cases hsome : ∃ m ∈ v.notes, m.answers r.target = true
      · -- a note with this text landed, and answers
        obtain ⟨m, hm, hans⟩ := hsome
        obtain ⟨m', hm', hid⟩ := List.mem_map.mp (h.all m hm)
        have hans' := (hone m hm hans m' (h.sub m' hm')).mpr hid
        have hin : m' ∈ n :: after := by
          rcases List.mem_append.mp hm' with hin | hin
          · exact absurd ((hsilent m' hin).symm.trans hans') Bool.false_ne_true
          · exact hin
        obtain ⟨x, hx, hxans, heq⟩ := answered_of_mem hin hans'
        have hxv := h.sub x (List.mem_append_right before hx)
        rw [heq, hmeaning x hxv hxans]
      · have hall : ∀ m ∈ v.notes, m.answers r.target = false := by
          intro m hm
          rw [← Bool.not_eq_true]
          exact fun hans => hsome ⟨m, hm, hans⟩
        have hlater : ∀ m ∈ n :: after, m.answers r.target = false :=
          fun m hm => hall m (h.sub m (List.mem_append_right before hm))
        rw [answered_placeholder hlater, answered_placeholder hall]

theorem resolves_meaning {n : Note} (hn : n ∈ v.notes) (r : WikilinkRef) :
    Resolves v.notes r (meaning v.notes n r.target) := by
  unfold Resolves meaning
  cases hself : n.answers r.target with
  | true => exact Or.inl ⟨n, hn, hself, if_pos rfl⟩
  | false =>
    rw [if_neg Bool.false_ne_true]
    by_cases hsome : ∃ m ∈ v.notes, m.answers r.target = true
    · obtain ⟨m, hm, hans⟩ := hsome
      obtain ⟨x, hx, hxans, heq⟩ := answered_of_mem hm hans
      exact Or.inl ⟨x, hx, hxans, heq⟩
    · have hall : ∀ m ∈ v.notes, m.answers r.target = false := by
        intro m hm
        rw [← Bool.not_eq_true]
        exact fun hans => hsome ⟨m, hm, hans⟩
      exact Or.inr ⟨hall, answered_placeholder hall⟩

theorem Clear.agreed (hc : Clear v.notes) : Agreed limit v := by
  refine ⟨fun n r => meaning v.notes n r.target, fun n hn r _ => resolves_meaning hn r,
    fun run hrun => ?_⟩
  have hl : Landing v (ingestAll limit run).artifacts := hrun.landing
  have ht : Tracks limit (ingestAll limit run) := tracks_run run
  have hhome : ∀ n ∈ (ingestAll limit run).artifacts, ∀ r ∈ n.refs,
      home limit (ingestAll limit run).artifacts n r = meaning v.notes n r.target :=
    fun n hn r hr => hc.home_eq hl hn hr
  have hkeys : ((links (ingestAll limit run).artifacts).map
      (fun p => (edgeAt (home limit (ingestAll limit run).artifacts) p).key)).Nodup := by
    refine List.Nodup.map_on ?_ (links_nodup (List.Nodup.of_map _ hl.ids))
    rintro ⟨n, r⟩ hp ⟨n', r'⟩ hp' hkey
    obtain ⟨hn, hr⟩ := mem_links.mp hp
    obtain ⟨hn', hr'⟩ := mem_links.mp hp'
    rw [edgeAt_key, edgeAt_key] at hkey
    simp only [Prod.mk.injEq] at hkey
    obtain ⟨hid, hrel, -, htarget⟩ := hkey
    have hsame := hl.eq_of_id hn hn' hid
    subst hsame
    rw [hhome n hn r hr, hhome n hn r' hr'] at htarget
    by_contra hne
    have hrr : r ≠ r' := fun heq => hne (by rw [heq])
    exact hc.apart n (hl.sub n hn) r hr r' hr' hrr hrel htarget
  obtain ⟨others, hperm, hothers⟩ := hl.rest
  have hnone : links others = [] := by
    refine List.eq_nil_iff_forall_not_mem.mpr (fun p hp => ?_)
    obtain ⟨hm, hr⟩ := mem_links.mp hp
    obtain ⟨hnote, hout⟩ := hothers p.1 hm
    obtain ⟨n, hn, hid⟩ := List.mem_map.mp (hl.all p.1 hnote)
    have hempty := hc.twins p.1 hnote n (hl.sub n hn) hid.symm (fun heq => hout (heq ▸ hn))
    rw [hempty] at hr
    exact List.not_mem_nil hr
  have hlinks : (links v.notes).Perm (links (ingestAll limit run).artifacts) := by
    have hboth := links_perm hperm
    rwa [links_append, hnone, List.append_nil] at hboth
  refine (ht.perm hkeys).trans (List.Perm.trans ?_ (hlinks.symm.map _))
  refine List.Perm.of_eq (List.map_congr_left (fun p hp => ?_))
  obtain ⟨hn, hr⟩ := mem_links.mp hp
  unfold edgeAt
  rw [hhome p.1 hn p.2 hr]

/-! ## What agreement asks for -/

/-- What agreement says of one landing order. -/
structure Settled (limit : Limit) (v : Vault) (f : Note → WikilinkRef → Target)
    (artifacts : List Note) : Prop extends Landing v artifacts where
  distinct : ∀ n ∈ artifacts, ∀ r ∈ n.refs, ∀ r' ∈ n.refs, r.rel = r'.rel →
    home limit artifacts n r = home limit artifacts n r' → r = r'
  rest : ∀ m ∈ v.notes, m ∉ artifacts → m.refs = []
  edges : ((links artifacts).map (edgeAt (home limit artifacts))).Perm
    ((links v.notes).map (edgeAt f))

theorem settled_of_agreed {f : Note → WikilinkRef → Target} {run : List Note}
    (hrun : v.Covered run)
    (hperm : (ingestAll limit run).edges.Perm ((links v.notes).map (edgeAt f))) :
    Settled limit v f (ingestAll limit run).artifacts := by
  have hl : Landing v (ingestAll limit run).artifacts := hrun.landing
  have ht : Tracks limit (ingestAll limit run) := tracks_run run
  obtain ⟨others, hothers, hout⟩ := hl.rest
  have hlength := hperm.length_eq
  have hcount := (links_perm hothers).length_eq
  have hle := ht.length_le
  rw [List.length_map] at hlength
  rw [links_append, List.length_append] at hcount
  have hkeys := ht.distinct (by omega)
  refine ⟨hl, ?_, ?_, (ht.perm hkeys).symm.trans hperm⟩
  · intro n hn r hr r' hr' hrel hhome
    have hkey : (edgeAt (home limit (ingestAll limit run).artifacts) (n, r)).key =
        (edgeAt (home limit (ingestAll limit run).artifacts) (n, r')).key := by
      rw [edgeAt_key, edgeAt_key, hrel, hhome]
    have hsame := List.inj_on_of_nodup_map hkeys (mem_links.mpr ⟨hn, hr⟩)
      (mem_links.mpr ⟨hn, hr'⟩) hkey
    exact (Prod.mk.inj hsame).2
  · intro m hm hmout
    have hin : m ∈ others := by
      have hmem := hothers.mem_iff.mp hm
      exact (List.mem_append.mp hmem).resolve_left hmout
    have hnone : links others = [] := List.length_eq_zero_iff.mp (by omega)
    refine List.eq_nil_iff_forall_not_mem.mpr (fun r hr => ?_)
    have hlink := mem_links.mpr ⟨hin, hr⟩
    rw [hnone] at hlink
    exact List.not_mem_nil hlink

variable {f : Note → WikilinkRef → Target} {first second : List Note}

/-- Where a link goes in one order, a link of that kind goes in every order. -/
theorem Settled.swap (h : Settled limit v f first) (h' : Settled limit v f second) {n : Note}
    (hn : n ∈ first) (hn' : n ∈ second) {r : WikilinkRef} (hr : r ∈ n.refs) :
    ∃ r' ∈ n.refs, r'.rel = r.rel ∧ home limit second n r' = home limit first n r := by
  have hedge := (h.edges.trans h'.edges.symm).mem_iff.mp
    (List.mem_map_of_mem (f := edgeAt (home limit first)) (mem_links.mpr ⟨hn, hr⟩))
  obtain ⟨⟨m, r'⟩, hp, heq⟩ := List.mem_map.mp hedge
  obtain ⟨hm, hr'⟩ := mem_links.mp hp
  have hid : m.id = n.id := congrArg Edge.source heq
  have hsame := h'.eq_of_id hm hn' hid
  subst hsame
  exact ⟨r', hr', congrArg Edge.rel heq, congrArg Edge.target heq⟩

/-- Nobody answers to the name of a placeholder. -/
theorem Settled.unnamed (hf : ∀ n ∈ v.notes, ∀ r ∈ n.refs, Resolves v.notes r (f n r))
    (h : Settled limit v f artifacts) {n : Note} (hn : n ∈ artifacts) {r : WikilinkRef}
    (hr : r ∈ n.refs) {name : String} (hhome : home limit artifacts n r = .placeholder name) :
    ∀ m ∈ v.notes, m.answers name = false := by
  have hedge := h.edges.mem_iff.mp
    (List.mem_map_of_mem (f := edgeAt (home limit artifacts)) (mem_links.mpr ⟨hn, hr⟩))
  obtain ⟨⟨m, r'⟩, hp, heq⟩ := List.mem_map.mp hedge
  obtain ⟨hm, hr'⟩ := mem_links.mp hp
  have htarget : f m r' = home limit artifacts n r := congrArg Edge.target heq
  rcases hf m hm r' hr' with ⟨x, -, -, hx⟩ | ⟨hnone, hx⟩
  · rw [hx, hhome] at htarget
    nomatch htarget
  · rw [hx, hhome] at htarget
    exact Target.placeholder.inj htarget ▸ hnone

/-! ### Orders that begin as asked -/

theorem home_first (n : Note) (more : List Note) (r : WikilinkRef) :
    home limit (n :: more) n r = answered (n :: more) r.target := by
  have hnone : candidates [] n.id r.target = [] := rfl
  have hsplit : home limit ([] ++ n :: more) n r = _ := home_split List.not_mem_nil r
  rw [hnone, first_nil] at hsplit
  exact hsplit

theorem home_second {n m : Note} (hne : m.id ≠ n.id) (more : List Note) (r : WikilinkRef) :
    home limit (m :: n :: more) n r =
      if m.endsWith r.target then .artifact m.id else answered (n :: more) r.target := by
  have hfresh : n.id ∉ [m].map Note.id := fun h => hne (List.mem_singleton.mp h).symm
  have hsplit : home limit ([m] ++ n :: more) n r = _ := home_split hfresh r
  have hcand : candidates [m] n.id r.target = if m.endsWith r.target then [m] else [] := by
    unfold candidates
    cases hends : m.endsWith r.target with
    | true => simp [hends, hne]
    | false => simp [hends]
  rw [List.singleton_append, hcand] at hsplit
  rw [hsplit]
  cases m.endsWith r.target with
  | false => rw [if_neg Bool.false_ne_true, if_neg Bool.false_ne_true, first_nil]
  | true =>
    rw [if_pos rfl, if_pos rfl]
    cases hfirst : limit.first [m] with
    | none => exact absurd (limit.found hfirst) (List.cons_ne_nil _ _)
    | some x => rw [List.mem_singleton.mp (limit.mem hfirst)]

/-- Every order is settled, and any notes of different texts can begin one. -/
theorem exists_settled
    (hrun : ∀ run, v.Covered run →
      (ingestAll limit run).edges.Perm ((links v.notes).map (edgeAt f)))
    (notes : List Note) (hsub : ∀ n ∈ notes, n ∈ v.notes) (hids : (notes.map Note.id).Nodup) :
    ∃ more, Settled limit v f (notes ++ more) := by
  obtain ⟨run, more, hcovered, hartifacts⟩ := exists_landing limit hsub hids
  exact ⟨more, hartifacts ▸ settled_of_agreed hcovered (hrun run hcovered)⟩

section Asked

variable (hf : ∀ n ∈ v.notes, ∀ r ∈ n.refs, Resolves v.notes r (f n r))
  (hrun : ∀ run, v.Covered run →
    (ingestAll limit run).edges.Perm ((links v.notes).map (edgeAt f)))

include hrun

theorem begins_one {n : Note} (hn : n ∈ v.notes) : ∃ more, Settled limit v f (n :: more) :=
  exists_settled hrun [n] (by simpa using hn) (List.nodup_singleton _)

theorem begins_two {n m : Note} (hn : n ∈ v.notes) (hm : m ∈ v.notes) (hne : n.id ≠ m.id) :
    ∃ more, Settled limit v f (n :: m :: more) :=
  exists_settled hrun [n, m] (by simp [hn, hm]) (by simp [hne])

theorem begins_three {n m k : Note} (hn : n ∈ v.notes) (hm : m ∈ v.notes) (hk : k ∈ v.notes)
    (hnm : n.id ≠ m.id) (hnk : n.id ≠ k.id) (hmk : m.id ≠ k.id) :
    ∃ more, Settled limit v f (n :: m :: k :: more) :=
  exists_settled hrun [n, m, k] (by simp [hn, hm, hk]) (by simp [hnm, hnk, hmk])

theorem asked_twins {n m : Note} (hn : n ∈ v.notes) (hm : m ∈ v.notes) (hid : n.id = m.id)
    (hne : n ≠ m) : n.refs = [] := by
  obtain ⟨more, hs⟩ := begins_one hrun hm
  refine hs.rest n hn (fun hin => hne ?_)
  exact hs.eq_of_id hin List.mem_cons_self hid

/-- A link to the note itself resolves to itself when the note comes first, and must do so
after any other note. -/
theorem asked_own {n m : Note} (hn : n ∈ v.notes) (hm : m ∈ v.notes) {r : WikilinkRef}
    (hr : r ∈ n.refs) (hself : n.answers r.target = true) (hne : m.id ≠ n.id) :
    m.endsWith r.target = false := by
  obtain ⟨more, hs⟩ := begins_one hrun hn
  obtain ⟨more', hs'⟩ := begins_two hrun hm hn hne
  have hn' : n ∈ m :: n :: more' := List.mem_cons_of_mem m List.mem_cons_self
  have hown : ∀ q : WikilinkRef, n.answers q.target = true →
      home limit (n :: more) n q = .artifact n.id := by
    intro q hq
    rw [home_first, answered_cons, if_pos hq]
  by_contra hends
  rw [Bool.not_eq_false] at hends
  have hother : home limit (m :: n :: more') n r = .artifact m.id := by
    rw [home_second hne, if_pos hends]
  obtain ⟨q, hq, hrel, hhome⟩ := hs.swap hs' List.mem_cons_self hn' hr
  rw [hown r hself, home_second hne] at hhome
  have hqself : n.answers q.target = true := by
    cases hqends : m.endsWith q.target with
    | true =>
      rw [hqends, if_pos rfl] at hhome
      exact absurd (Target.artifact.inj hhome) hne
    | false =>
      rw [hqends, if_neg Bool.false_ne_true] at hhome
      obtain ⟨x, hx, hxans, hxid⟩ := answered_artifact hhome
      have hxn := hs'.eq_of_id (List.mem_cons_of_mem m hx) hn' hxid
      exact hxn ▸ hxans
  have hsame := hs.distinct n List.mem_cons_self q hq r hr hrel
    ((hown q hqself).trans (hown r hself).symm)
  subst hsame
  rw [home_second hne] at hother
  rw [hother] at hhome
  exact hne (Target.artifact.inj hhome)

/-- A note with a link that it does not answer to has another text than those that do. -/
theorem asked_other {n m : Note} (hn : n ∈ v.notes) (hm : m ∈ v.notes) {r : WikilinkRef}
    (hr : r ∈ n.refs) (hself : n.answers r.target = false) (hans : m.answers r.target = true) :
    n.id ≠ m.id := by
  intro hid
  have hne : n ≠ m := by
    rintro rfl
    exact Bool.false_ne_true (hself.symm.trans hans)
  rw [asked_twins hrun hn hm hid hne] at hr
  exact List.not_mem_nil hr

/-- Two notes that answer have the same text: otherwise the one that lands first gets the
link. -/
theorem asked_one_id {n m k : Note} (hn : n ∈ v.notes) (hm : m ∈ v.notes) (hk : k ∈ v.notes)
    {r : WikilinkRef} (hr : r ∈ n.refs) (hself : n.answers r.target = false)
    (hmans : m.answers r.target = true) (hkans : k.answers r.target = true) : k.id = m.id := by
  by_contra hne
  have hnm := asked_other hrun hn hm hr hself hmans
  have hnk := asked_other hrun hn hk hr hself hkans
  obtain ⟨more, hs⟩ := begins_three hrun hn hm hk hnm hnk (fun h => hne h.symm)
  obtain ⟨more', hs'⟩ := begins_three hrun hn hk hm hnk hnm hne
  obtain ⟨q, hq, hrel, hhome⟩ := hs.swap hs' List.mem_cons_self List.mem_cons_self hr
  have hfirst : home limit (n :: m :: k :: more) n r = .artifact m.id := by
    rw [home_first, answered_cons, hself, if_neg Bool.false_ne_true, answered_cons, if_pos hmans]
  have hsecond : home limit (n :: k :: m :: more') n r = .artifact k.id := by
    rw [home_first, answered_cons, hself, if_neg Bool.false_ne_true, answered_cons, if_pos hkans]
  rw [hfirst] at hhome
  have hqhome := hhome
  rw [home_first] at hqhome
  have hmem : m ∈ n :: k :: m :: more' := by simp
  obtain ⟨x, hx, hxans, hxid⟩ := answered_artifact hqhome
  have hqm : m.answers q.target = true := hs'.eq_of_id hx hmem hxid ▸ hxans
  have hqn : n.answers q.target = false := by
    rw [← Bool.not_eq_true]
    intro hqn
    rw [answered_cons, if_pos hqn] at hqhome
    exact hnm (Target.artifact.inj hqhome)
  have hqfirst : home limit (n :: m :: k :: more) n q = .artifact m.id := by
    rw [home_first, answered_cons, hqn, if_neg Bool.false_ne_true, answered_cons, if_pos hqm]
  have hsame := hs.distinct n List.mem_cons_self q hq r hr hrel (hqfirst.trans hfirst.symm)
  subst hsame
  rw [hsecond] at hhome
  exact hne (Target.artifact.inj hhome)

include hf

/-- Notes with the text of one that answers answer too: one of them lands for all. -/
theorem asked_one {n m k : Note} (hn : n ∈ v.notes) (hm : m ∈ v.notes) (hk : k ∈ v.notes)
    {r : WikilinkRef} (hr : r ∈ n.refs) (hself : n.answers r.target = false)
    (hmans : m.answers r.target = true) : k.answers r.target = true ↔ k.id = m.id := by
  constructor
  · exact asked_one_id hrun hn hm hk hr hself hmans
  · intro hid
    by_contra hkans
    rw [Bool.not_eq_true] at hkans
    have hnk : n.id ≠ k.id := hid ▸ asked_other hrun hn hm hr hself hmans
    obtain ⟨more, hs⟩ := begins_two hrun hn hk hnk
    have hsilent : ∀ x ∈ n :: k :: more, x.answers r.target = false := by
      intro x hx
      rw [← Bool.not_eq_true]
      intro hxans
      have hxid := asked_one_id hrun hn hm (hs.sub x hx) hr hself hmans hxans
      have hxk := hs.eq_of_id hx (List.mem_cons_of_mem n List.mem_cons_self) (hxid.trans hid.symm)
      rw [hxk, hkans] at hxans
      exact Bool.false_ne_true hxans
    have hhome : home limit (n :: k :: more) n r = .placeholder r.target := by
      rw [home_first, answered_placeholder hsilent]
    have hnone := hs.unnamed hf List.mem_cons_self hr hhome m hm
    exact Bool.false_ne_true (hnone.symm.trans hmans)

/-- A note that answers is found by its file name too: otherwise a link that is written after
it waits for ever. -/
theorem asked_found {n m : Note} (hn : n ∈ v.notes) (hm : m ∈ v.notes) {r : WikilinkRef}
    (hr : r ∈ n.refs) (hself : n.answers r.target = false) (hans : m.answers r.target = true) :
    m.endsWith r.target = true := by
  by_contra hends
  rw [Bool.not_eq_true] at hends
  have hne := asked_other hrun hn hm hr hself hans
  obtain ⟨more, hs⟩ := begins_two hrun hm hn hne.symm
  have hn' : n ∈ m :: n :: more := List.mem_cons_of_mem m List.mem_cons_self
  have hsilent : ∀ x ∈ n :: more, x.answers r.target = false := by
    intro x hx
    rw [← Bool.not_eq_true]
    intro hxans
    have hx' : x ∈ m :: n :: more := List.mem_cons_of_mem m hx
    have hxid := asked_one_id hrun hn hm (hs.sub x hx') hr hself hans hxans
    have hxm := hs.eq_of_id hx' List.mem_cons_self hxid
    have hids := hs.ids
    rw [List.map_cons, List.nodup_cons] at hids
    exact hids.1 (hxm ▸ List.mem_map_of_mem hx)
  have hhome : home limit (m :: n :: more) n r = .placeholder r.target := by
    rw [home_second hne.symm, hends, if_neg Bool.false_ne_true, answered_placeholder hsilent]
  have hnone := hs.unnamed hf hn' hr hhome m hm
  exact Bool.false_ne_true (hnone.symm.trans hans)

/-- A note that is found by its file name answers: otherwise it gets the link only if it lands
first. -/
theorem asked_answers {n m : Note} (hn : n ∈ v.notes) (hm : m ∈ v.notes) {r : WikilinkRef}
    (hr : r ∈ n.refs) (hne : m.id ≠ n.id) (hends : m.endsWith r.target = true) :
    m.answers r.target = true := by
  obtain ⟨more, hs⟩ := begins_two hrun hm hn hne
  obtain ⟨more', hs'⟩ := begins_two hrun hn hm hne.symm
  have hn' : n ∈ m :: n :: more := List.mem_cons_of_mem m List.mem_cons_self
  have hfound : ∀ q : WikilinkRef, m.endsWith q.target = true →
      home limit (m :: n :: more) n q = .artifact m.id := by
    intro q hq
    rw [home_second hne, if_pos hq]
  obtain ⟨q, hq, hrel, hhome⟩ := hs.swap hs' hn' List.mem_cons_self hr
  rw [hfound r hends, home_first] at hhome
  obtain ⟨x, hx, hxans, hxid⟩ := answered_artifact hhome
  have hqans : m.answers q.target = true :=
    hs'.eq_of_id hx (List.mem_cons_of_mem n List.mem_cons_self) hxid ▸ hxans
  have hqself : n.answers q.target = false := by
    rw [← Bool.not_eq_true]
    intro hqn
    rw [answered_cons, if_pos hqn] at hhome
    exact hne (Target.artifact.inj hhome).symm
  have hqends := asked_found hf hrun hn hm hq hqself hqans
  have hsame := hs.distinct n hn' q hq r hr hrel ((hfound q hqends).trans (hfound r hends).symm)
  exact hsame ▸ hqans

theorem asked_named : Named v.notes where
  twins := fun _ hn _ hm hid hne => asked_twins hrun hn hm hid hne
  own := fun _ hn _ hr hself _ hm hne => asked_own hrun hn hm hr hself hne
  ends := by
    intro n hn r hr hself m hm hne
    rw [Bool.eq_iff_iff]
    exact ⟨asked_answers hf hrun hn hm hr hne, asked_found hf hrun hn hm hr hself⟩
  one := fun _ hn _ hr hself _ hm hans _ hk => asked_one hf hrun hn hm hk hr hself hans

end Asked

theorem Agreed.clear (h : Agreed limit v) : Clear v.notes := by
  obtain ⟨f, hf, hrun⟩ := h
  have hnamed := asked_named hf hrun
  refine { hnamed with apart := fun n hn r hr r' hr' hne hrel hmeaning => hne ?_ }
  obtain ⟨more, hs⟩ := begins_one hrun hn
  have hl : Landing v (n :: more) := hs.toLanding
  refine hs.distinct n List.mem_cons_self r hr r' hr' hrel ?_
  rw [hnamed.home_eq hl List.mem_cons_self hr, hnamed.home_eq hl List.mem_cons_self hr',
    hmeaning]

/-- The links of a vault get the same edges in every order of ingests, one a link, exactly when
its names are clear. -/
theorem agreed_iff (limit : Limit) (v : Vault) : Agreed limit v ↔ Clear v.notes :=
  ⟨Agreed.clear, Clear.agreed⟩

/-! ## Names that are not clear -/

theorem not_agreed_of_runs {run run' : List Note} (h : v.Covered run) (h' : v.Covered run')
    (hedges : ¬ (ingestAll limit run).edges.Perm (ingestAll limit run').edges) :
    ¬ Agreed limit v := by
  rintro ⟨f, -, hperm⟩
  exact hedges ((hperm run h).trans (hperm run' h').symm)

/-- A note without text of its own. -/
def plain (id filename : String) (aliases : List String) : Note where
  id := id
  filename := filename
  aliases := aliases
  chunkId := id ++ "_0"
  sections := []

/-- A note with a text of these links. -/
def linking (refs : List WikilinkRef) : Note where
  id := "source"
  filename := "source.md"
  chunkId := "source_0"
  sections := [refs]

/-- `[[name]]`. -/
def plainLink (name : String) : WikilinkRef where
  target := name
  displayAlias := name
  heading := ""
  isEmbed := false

/-- `[[name#heading]]`. -/
def headingLink (name heading : String) : WikilinkRef := { plainLink name with heading := heading }

/-- A link by an alias, by a path, by the end of a name, and two links to headings of one
note. -/
theorem order_of_ingests_shows :
    ¬ Agreed Limit.head ⟨[plain "foo" "Foo.md" ["Bar"], linking [plainLink "Bar"]], by decide⟩ ∧
    ¬ Agreed Limit.head ⟨[plain "foo" "Foo.md" [], linking [plainLink "dir/Foo"]], by decide⟩ ∧
    ¬ Agreed Limit.head ⟨[plain "foo" "Foo.md" [], linking [plainLink "oo"]], by decide⟩ ∧
    ¬ Agreed Limit.head ⟨[plain "foo" "Foo.md" [],
      linking [headingLink "Foo" "One", headingLink "Foo" "Two"]], by decide⟩ := by
  have hswap : ∀ (a b : Note) (h : [a, b].Nodup),
      (⟨[a, b], h⟩ : Vault).Covered [a, b] ∧ (⟨[a, b], h⟩ : Vault).Covered [b, a] := by
    intro a b h
    refine ⟨fun n => Iff.rfl, fun n => ?_⟩
    exact (List.Perm.swap a b []).mem_iff
  refine ⟨?_, ?_, ?_, ?_⟩
  · have hcovered := hswap (plain "foo" "Foo.md" ["Bar"]) (linking [plainLink "Bar"]) (by decide)
    exact not_agreed_of_runs hcovered.1 hcovered.2 (by decide +kernel)
  · have hcovered := hswap (plain "foo" "Foo.md" []) (linking [plainLink "dir/Foo"]) (by decide)
    exact not_agreed_of_runs hcovered.1 hcovered.2 (by decide +kernel)
  · have hcovered := hswap (plain "foo" "Foo.md" []) (linking [plainLink "oo"]) (by decide)
    exact not_agreed_of_runs hcovered.1 hcovered.2 (by decide +kernel)
  · rintro ⟨f, -, hperm⟩
    have hcovered := hswap (plain "foo" "Foo.md" [])
      (linking [headingLink "Foo" "One", headingLink "Foo" "Two"]) (by decide)
    have hlength := (hperm _ hcovered.1).length_eq
    rw [List.length_map] at hlength
    revert hlength
    decide +kernel

end Cerid.Wikilinks
