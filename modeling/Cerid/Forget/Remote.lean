import Cerid.Forget.Engine

/-!
# Forgets recorded on another machine

A second machine reads the first machine's registry file as far as it has
arrived and brings its own artifacts in line with it.  The archive flag of an
artifact carries one reason, the forget that hid it, and only a restore of that
forget clears it.
-/

namespace Cerid.Forget

/-- An artifact. -/
abbrev artifact (id : String) : Subject := { kind := .artifact, id }

/-- The archive fields of an artifact node.  `archivedReason` is the forget id in
`"forget:<id>"`. -/
structure Archive where
  archived : Bool
  archivedReason : Option ForgetId
deriving DecidableEq, Repr

def Archive.visible : Archive := { archived := false, archivedReason := none }

/-- `set_archived`; `extra` is the `archived_reason` it merges. -/
def setArchived (onlyIfVisible : Bool) (extra : Option ForgetId) (a : Archive) : Archive :=
  if onlyIfVisible ∧ a.archived then a
  else {
    archived := true
    archivedReason := extra.or (if onlyIfVisible then a.archivedReason else none) }

def clearArchived (reason : ForgetId) (a : Archive) : Archive :=
  if a.archivedReason = some reason then .visible else a

/-- The stores of the second machine: what it has applied, and its artifact
nodes. -/
structure Store where
  applied : List Applied
  nodes : String → Option Archive

/-- `ArtifactAdapter.hide`, on the node. -/
def hide (forgetId : ForgetId) (node : Option Archive) : Option Archive :=
  node.map (setArchived true (some forgetId))

/-- `ArtifactAdapter.restore`, on the node. -/
def unhide (forgetId : ForgetId) (node : Option Archive) : Option Archive :=
  node.map (clearArchived forgetId)

/-- Runs an artifact adapter on its subject; the other adapters keep the nodes. -/
def Store.adapt (st : Store) (subject : Subject) (g : Option Archive → Option Archive) : Store :=
  { st with nodes := fun id => if subject = artifact id then g (st.nodes id) else st.nodes id }

structure Counts where
  hidden : Nat
  restored : Nat
  purged : Nat

def Entry.key (e : Entry) : Applied :=
  { forgetId := e.forgetId, subject := e.subject, state := e.state }

/-- One round of `apply_remote`, with the keys applied before it began. -/
def applyEntry (applied : List Applied) (acc : Store × Counts) (e : Entry) : Store × Counts :=
  if e.key ∈ applied then acc
  else
    let acc := match e.state with
      | .trashed =>
        (acc.1.adapt e.subject (hide e.forgetId), { acc.2 with hidden := acc.2.hidden + 1 })
      | .restored =>
        (acc.1.adapt e.subject (unhide e.forgetId), { acc.2 with restored := acc.2.restored + 1 })
      | .readded => acc
      | .purged =>
        (acc.1.adapt e.subject (fun _ => none), { acc.2 with purged := acc.2.purged + 1 })
    ({ acc.1 with applied := acc.1.applied ++ [e.key] }, acc.2)

/-- `apply_remote` over the registry this machine can read. -/
def applyRemote (st : Store) (file : List Line) : Store × Counts :=
  (latest (index (parse file))).foldl (applyEntry st.applied)
    (st, { hidden := 0, restored := 0, purged := 0 })

/-- Passes over the first lines of a registry file, as many as had arrived at
each of them. -/
def passes (file : List Line) (st : Store) (arrived : List Nat) : Store :=
  arrived.foldl (fun st n => (applyRemote st (file.take n)).1) st

def archived (st : Store) (id : String) : Bool := (st.nodes id).any Archive.archived

def reason (st : Store) (id : String) : Option ForgetId := (st.nodes id).bind Archive.archivedReason

/-- The artifact is archived exactly when some forget of it is live. -/
def Converged (log : List Entry) (st : Store) (id : String) : Prop :=
  archived st id = true ↔ ∃ f, Live log (artifact id) f

/-- A pass can bring the artifact in line with the entry in force: a trashed
artifact is archived already or the entry is new here; a restored one is visible
already, or archived for that very forget and the entry is new here. -/
def Movable (st : Store) (id : String) : Option Entry → Prop
  | none => True
  | some e =>
    if e.state ∈ forgottenStates then archived st id = true ∨ e.key ∉ st.applied
    else archived st id = false ∨ reason st id = some e.forgetId ∧ e.key ∉ st.applied

def TrashOrRestore : Act → Prop
  | .trash _ _ _ _ | .restore _ _ => True
  | _ => False

/-! ## The first machine's file -/

/-- A registry in which every forget is trashed once and restored afterwards. -/
structure Trail (log : List Entry) (next : ForgetId) : Prop where
  fresh : ∀ e ∈ log, e.forgetId < next
  states : ∀ e ∈ log, e.state = .trashed ∨ e.state = .restored
  ordered : log.Pairwise (fun x y => x.state = .restored → y.state = .trashed →
    y.forgetId ≠ x.forgetId)

theorem Trail.trash {log log' : List Entry} {next : ForgetId} (h : Trail log next)
    (hw : Wrote log log' (fun e => e.state = .trashed ∧ e.forgetId = next)) :
    Trail log' (next + 1) := by
  obtain ⟨es, rfl, hes⟩ := hw
  refine ⟨fun e he => ?_, fun e he => ?_, List.pairwise_append.mpr ⟨h.ordered, ?_, ?_⟩⟩
  · rcases List.mem_append.mp he with he | he
    · exact Nat.lt_succ_of_lt (h.fresh e he)
    · rw [(hes e he).2]
      exact Nat.lt_succ_self next
  · exact (List.mem_append.mp he).elim (h.states e) (fun he => Or.inl (hes e he).1)
  · refine List.pairwise_of_forall_mem_list (fun x hx y _ hr => ?_)
    exact absurd ((hes x hx).1.symm.trans hr) (by decide)
  · intro x hx y hy _ _ hf
    exact absurd (((hes y hy).2.symm.trans hf) ▸ h.fresh x hx) (lt_irrefl _)

theorem Trail.restore {log log' : List Entry} {next : ForgetId} (h : Trail log next)
    (hw : Wrote log log' (fun e => e.state = .restored ∧ e.forgetId < next)) : Trail log' next := by
  obtain ⟨es, rfl, hes⟩ := hw
  refine ⟨fun e he => ?_, fun e he => ?_, List.pairwise_append.mpr ⟨h.ordered, ?_, ?_⟩⟩
  · exact (List.mem_append.mp he).elim (h.fresh e) (fun he => (hes e he).2)
  · exact (List.mem_append.mp he).elim (h.states e) (fun he => Or.inr (hes e he).1)
  · refine List.pairwise_of_forall_mem_list (fun x _ y hy _ ht => ?_)
    exact absurd ((hes y hy).1.symm.trans ht) (by decide)
  · intro x _ y hy _ ht
    exact absurd ((hes y hy).1.symm.trans ht) (by decide)

theorem trail_act {m : Engine} (h : Trail m.log m.nextId) {op : Time × Act}
    (hop : TrashOrRestore op.2) : Trail (act m op).log (act m op).nextId := by
  obtain ⟨now, op⟩ := op
  cases op with
  | trash hides subjects requestedBy userId =>
    obtain ⟨es, hlog, hes⟩ := record_log { m with nextId := m.nextId + 1 } now (ordered subjects)
      m.nextId .trashed requestedBy userId
    exact h.trash ⟨es, hlog, fun e he => ⟨(hes e he).1, (hes e he).2.1⟩⟩
  | restore restores f =>
    simp only [act]
    cases hr : restore m restores now f with
    | error _ => exact h
    | ok r =>
      obtain ⟨hw, hn⟩ := restore_log hr
      simp only [hn]
      obtain ⟨es, hlog, hes⟩ := hw
      refine h.restore ⟨es, hlog, fun e he => ⟨(hes e he).1, ?_⟩⟩
      obtain ⟨x, hx, hxf⟩ := (hes e he).2
      exact hxf ▸ h.fresh x hx
  | purge => exact absurd hop id
  | forgetPermanently => exact absurd hop id
  | emptyTrash => exact absurd hop id
  | retryStartedPurges => exact absurd hop id
  | forgetGate => exact absurd hop id
  | dropPurgedChunks => exact absurd hop id

theorem trail_run (machineId : String) {ops : List (Time × Act)}
    (hops : ∀ op ∈ ops, TrashOrRestore op.2) :
    ∃ next, Trail (ops.foldl act (Engine.start machineId)).log next := by
  have hstart : Trail (Engine.start machineId).log (Engine.start machineId).nextId := by
    constructor <;> simp [Engine.start, Engine.log, parse]
  exact ⟨_, foldl_invariant act (fun m => Trail m.log m.nextId) (fun m op h hop => trail_act h hop)
    hstart hops⟩

theorem Trail.initial {log v : List Entry} {next : ForgetId} (h : Trail log next) (hv : v <+: log) :
    Trail v next where
  fresh e he := h.fresh e (hv.subset he)
  states e he := h.states e (hv.subset he)
  ordered := h.ordered.sublist hv.sublist

theorem Trail.winner_isSome {log : List Entry} {next : ForgetId} (h : Trail log next) {e : Entry}
    (he : e ∈ log) : ∃ w, winner log e.subject e.forgetId = some w := by
  have hne : e.state ≠ .readded := by
    rcases h.states e he with hs | hs <;> simp [hs]
  obtain ⟨w, hw⟩ := exists_lastMax_of_mem rank
    (mem_entriesOf.mpr ⟨he, hne, rfl, rfl⟩ : e ∈ entriesOf log e.subject e.forgetId)
  refine ⟨w, winner_eq_some.mpr ⟨fun hc => ?_, hw⟩⟩
  obtain ⟨x, hx, hr, -⟩ := mem_cancelled.mp hc
  rcases h.states x hx with hs | hs <;> exact absurd (hr.symm.trans hs) (by decide)

theorem Trail.over {log v : List Entry} {next : ForgetId} (h : Trail log next) (hv : v <+: log)
    {s : Subject} {f : ForgetId} {w w' : Entry} (hw : winner v s f = some w)
    (hr : w.state = .restored) (hw' : winner log s f = some w') : w'.state = .restored := by
  refine (h.states w' (winner_mem hw').1).resolve_left (fun ht => ?_)
  obtain ⟨x, rfl⟩ := hv
  have hv := lastMax_mem rank (winner_eq_some.mp hw).2
  have hlast := (winner_eq_some.mp hw').2
  have hsub : (entriesOf (v ++ x) s f).Sublist (v ++ x) := List.filter_sublist
  have hpair := h.ordered.sublist hsub
  have hff : w'.forgetId = w.forgetId := (winner_mem hw').2.2.2.trans (winner_mem hw).2.2.2.symm
  obtain ⟨a, b, hab, -, hb⟩ := lastMax_split rank hlast
  have hwab : w ∈ a ++ w' :: b := by
    rw [← hab, entriesOf_append]
    exact List.mem_append_left _ hv
  rw [List.mem_append, List.mem_cons] at hwab
  rcases hwab with hwa | rfl | hwb
  · -- the restore stands before the trash that wins
    rw [hab, List.pairwise_append] at hpair
    exact hpair.2.2 w hwa w' List.mem_cons_self hr ht hff
  · exact absurd (hr.symm.trans ht) (by decide)
  · have hlt := hb w hwb
    have hmem := lastMax_mem rank hlast
    rw [entriesOf_append, List.mem_append] at hmem
    rcases hmem with hmem | hmem
    · exact absurd hlt (not_lt_of_ge (lastMax_max rank (winner_eq_some.mp hw).2 hmem))
    · rw [entriesOf_append, List.pairwise_append] at hpair
      exact hpair.2.2 w hv w' hmem hr ht hff

theorem Trail.live_earlier {log v : List Entry} {next : ForgetId} (h : Trail log next)
    (hv : v <+: log) {s : Subject} {f : ForgetId} (hlive : Live log s f)
    (ht : ∃ t ∈ v, t.subject = s ∧ t.forgetId = f) : Live v s f := by
  obtain ⟨w', hw', hstate⟩ := hlive
  obtain ⟨t, ht, rfl, rfl⟩ := ht
  obtain ⟨w, hw⟩ := (h.initial hv).winner_isSome ht
  refine ⟨w, hw, ?_⟩
  rcases (h.initial hv).states w (winner_mem hw).1 with hs | hs
  · simp [hs, forgottenStates]
  · exact absurd (h.over hv hw hs hw' ▸ hstate) (by decide)

/-! ## One pass -/

/-- What one round does to the node of the entry's artifact. -/
def moved (applied : List Applied) (e : Entry) (node : Option Archive) : Option Archive :=
  if e.key ∈ applied then node
  else match e.state with
    | .trashed => hide e.forgetId node
    | .restored => unhide e.forgetId node
    | .readded => node
    | .purged => none

theorem applyEntry_nodes (applied : List Applied) (acc : Store × Counts) (e : Entry) (id : String) :
    (applyEntry applied acc e).1.nodes id =
      if e.subject = artifact id then moved applied e (acc.1.nodes id) else acc.1.nodes id := by
  unfold applyEntry moved
  by_cases hk : e.key ∈ applied
  · simp [hk]
  · cases hs : e.state <;> simp [hk, Store.adapt]

theorem mem_applyEntry_applied {applied : List Applied} {acc : Store × Counts} {e : Entry}
    {k : Applied} (h : k ∈ (applyEntry applied acc e).1.applied) :
    k ∈ acc.1.applied ∨ k = e.key := by
  unfold applyEntry at h
  split at h
  · exact Or.inl h
  · simp only [List.mem_append, List.mem_singleton] at h
    refine h.imp_left (fun h => ?_)
    cases hs : e.state <;> simpa [hs, Store.adapt] using h

theorem foldl_applyEntry_nodes (applied : List Applied) (es : List Entry)
    (hnd : (es.map Entry.subject).Nodup) (acc : Store × Counts) (id : String) :
    (es.foldl (applyEntry applied) acc).1.nodes id =
      ((es.find? (fun e => e.subject = artifact id)).map
        (fun e => moved applied e (acc.1.nodes id))).getD (acc.1.nodes id) := by
  induction es generalizing acc with
  | nil => rfl
  | cons e rest ih =>
    rw [List.map_cons, List.nodup_cons] at hnd
    rw [List.foldl_cons, ih hnd.2, applyEntry_nodes]
    by_cases he : e.subject = artifact id
    · have hnone : rest.find? (fun x => x.subject = artifact id) = none :=
        find?_eq_none_of_not_mem Entry.subject (he ▸ hnd.1)
      simp [hnone, he]
    · simp [he]

theorem mem_foldl_applyEntry {applied : List Applied} {es : List Entry} {acc : Store × Counts}
    {k : Applied} (h : k ∈ (es.foldl (applyEntry applied) acc).1.applied) :
    k ∈ acc.1.applied ∨ ∃ e ∈ es, k = e.key := by
  induction es generalizing acc with
  | nil => exact Or.inl h
  | cons e rest ih =>
    rcases ih h with h | ⟨x, hx, hk⟩
    · exact (mem_applyEntry_applied h).imp_right (fun hk => ⟨e, List.mem_cons_self, hk⟩)
    · exact Or.inr ⟨x, List.mem_cons_of_mem e hx, hk⟩

theorem nodup_latest (log : List Entry) : ((latest (index log)).map Entry.subject).Nodup := by
  have hperm : ((latest (index log)).map Entry.subject).Perm
      ((index log).bySubject.values.map Entry.subject) :=
    (List.perm_insertionSort _ _).map _
  refine hperm.nodup_iff.mpr ?_
  have hkeys : (index log).bySubject.values.map Entry.subject = (index log).bySubject.items.map
      Prod.fst := by
    rw [Dict.values, List.map_map]
    refine List.map_congr_left (fun p hp => ?_)
    exact bySubject_subject ((Dict.mem_items_iff _ _ _).mp hp)
  rw [hkeys]
  exact (index log).bySubject.nodup

theorem applyRemote_nodes (st : Store) (file : List Line) (id : String) :
    (applyRemote st file).1.nodes id =
      (((index (parse file)).bySubject.get? (artifact id)).map
        (fun e => moved st.applied e (st.nodes id))).getD (st.nodes id) := by
  rw [applyRemote, foldl_applyEntry_nodes _ _ (nodup_latest _)]
  congr 2
  cases hget : (index (parse file)).bySubject.get? (artifact id) with
  | none =>
    rw [List.find?_eq_none]
    intro e he hs
    have hs : e.subject = artifact id := by simpa using hs
    have := mem_latest.mp he
    rw [hs, hget] at this
    exact absurd this (by simp)
  | some e =>
    cases hfind : (latest (index (parse file))).find? (fun e => e.subject = artifact id) with
    | none =>
      rw [List.find?_eq_none] at hfind
      have hsub := bySubject_subject hget
      exact absurd (by simpa using hsub) (hfind e (mem_latest.mpr (by rw [hsub]; exact hget)))
    | some x =>
      have hx := mem_latest.mp (List.mem_of_find?_eq_some hfind)
      have hxs : x.subject = artifact id := by simpa using List.find?_some hfind
      rw [hxs, hget] at hx
      exact hx.symm

theorem Trail.inForce {log : List Entry} {next : ForgetId} (h : Trail log next) {s : Subject}
    {e : Entry} (hget : (index log).bySubject.get? s = some e) :
    winner log s e.forgetId = some e ∧
      (e.state = .trashed ∧ (∃ f, Live log s f) ∨ e.state = .restored ∧ ∀ f, ¬ Live log s f) := by
  rcases bySubject_spec hget with ⟨hw, hstate⟩ | ⟨hw, hstate, hnone⟩ | ⟨he, hr, -⟩
  · refine ⟨hw, Or.inl ⟨?_, e.forgetId, e, hw, hstate⟩⟩
    rcases h.states e (winner_mem hw).1 with hs | hs
    · exact hs
    · exact absurd (hs ▸ hstate) (by decide)
  · refine ⟨hw, Or.inr ⟨?_, hnone⟩⟩
    rcases h.states e (winner_mem hw).1 with hs | hs
    · exact absurd (hs ▸ (by decide : State.trashed ∈ forgottenStates)) hstate
    · exact hs
  · rcases h.states e he with hs | hs <;> exact absurd (hr.symm.trans hs) (by decide)

theorem Trail.unmentioned {log : List Entry} {next : ForgetId} (h : Trail log next) {s : Subject}
    (hget : (index log).bySubject.get? s = none) : ∀ e ∈ log, e.subject ≠ s := by
  rintro e he rfl
  obtain ⟨w, hw⟩ := h.winner_isSome he
  rw [get?_bySubject, Option.or_eq_none_iff, Option.or_eq_none_iff] at hget
  have hid := (winner_mem hw).2.2.2
  by_cases hstate : w.state ∈ forgottenStates
  · obtain ⟨x, hx⟩ := exists_lastMax_of_mem rank
      (mem_winnersOf.mpr ⟨hid ▸ hw, by simpa using hstate⟩ :
        w ∈ winnersOf log (· ∈ forgottenStates) e.subject)
    exact absurd (hget.1.1.symm.trans hx) (by simp)
  · obtain ⟨x, hx⟩ := exists_lastMax_of_mem rank
      (mem_winnersOf.mpr ⟨hid ▸ hw, by simpa using hstate⟩ :
        w ∈ winnersOf log (· ∉ forgottenStates) e.subject)
    exact absurd (hget.1.2.symm.trans hx) (by simp)

theorem Trail.not_live_of_none {log : List Entry} {s : Subject}
    (hget : (index log).bySubject.get? s = none) (f : ForgetId) : ¬ Live log s f := by
  intro hlive
  obtain ⟨e, he, -⟩ := bySubject_of_live hlive
  rw [hget] at he
  exact absurd he (by simp)

/-- The node is there, and archived only if the registry mentions its artifact. -/
def Seen (log : List Entry) (st : Store) (id : String) : Prop :=
  (st.nodes id).isSome = true ∧ (archived st id = true → ∃ e ∈ log, e.subject = artifact id)

/-- A pass with a trashed entry in force archives, unless the entry was applied
here before. -/
theorem applyRemote_trashed {st : Store} {file : List Line} {id : String} {e : Entry}
    (hnode : (st.nodes id).isSome = true)
    (hget : (index (parse file)).bySubject.get? (artifact id) = some e) (hs : e.state = .trashed) :
    (archived (applyRemote st file).1 id = true ↔
      archived st id = true ∨ e.key ∉ st.applied) ∧
    (reason (applyRemote st file).1 id = reason st id ∨
      reason (applyRemote st file).1 id = some e.forgetId) := by
  obtain ⟨node, hnode⟩ := Option.isSome_iff_exists.mp hnode
  have hnodes := applyRemote_nodes st file id
  rw [hget, hnode] at hnodes
  by_cases hk : e.key ∈ st.applied
  · simp [archived, reason, hnodes, hnode, moved, hk]
  · by_cases ha : node.archived = true <;>
      simp [archived, reason, hnodes, hnode, moved, hk, hs, hide, setArchived, ha]

/-- A pass with a restored entry in force clears the archive its forget made,
unless the entry was applied here before. -/
theorem applyRemote_restored {st : Store} {file : List Line} {id : String} {e : Entry}
    (hnode : (st.nodes id).isSome = true)
    (hget : (index (parse file)).bySubject.get? (artifact id) = some e) (hs : e.state = .restored) :
    (archived (applyRemote st file).1 id = false ↔
      archived st id = false ∨ reason st id = some e.forgetId ∧ e.key ∉ st.applied) ∧
    (reason (applyRemote st file).1 id = reason st id ∨
      reason (applyRemote st file).1 id = none) ∧
    (e.key ∉ st.applied → reason (applyRemote st file).1 id ≠ some e.forgetId) := by
  obtain ⟨node, hnode⟩ := Option.isSome_iff_exists.mp hnode
  have hnodes := applyRemote_nodes st file id
  rw [hget, hnode] at hnodes
  by_cases hk : e.key ∈ st.applied
  · simp [archived, reason, hnodes, hnode, moved, hk]
  · by_cases hr : node.archivedReason = some e.forgetId <;>
      simp [archived, reason, hnodes, hnode, moved, hk, hs, unhide, clearArchived, hr,
        Archive.visible]

theorem applyRemote_none {st : Store} {file : List Line} {id : String}
    (hget : (index (parse file)).bySubject.get? (artifact id) = none) :
    archived (applyRemote st file).1 id = archived st id ∧
      reason (applyRemote st file).1 id = reason st id := by
  have hnodes := applyRemote_nodes st file id
  rw [hget] at hnodes
  simp [archived, reason, hnodes]

/-- One pass brings an artifact in line exactly when it can move it. -/
theorem converged_iff_movable {file : List Line} {next : ForgetId} (h : Trail (parse file) next)
    {st : Store} {id : String} (hseen : Seen (parse file) st id) :
    Converged (parse file) (applyRemote st file).1 id ↔
      Movable st id ((index (parse file)).bySubject.get? (artifact id)) := by
  obtain ⟨hnode, hmention⟩ := hseen
  unfold Converged
  cases hget : (index (parse file)).bySubject.get? (artifact id) with
  | none =>
    have hvisible : archived st id ≠ true := by
      intro ha
      obtain ⟨e, he, hs⟩ := hmention ha
      exact h.unmentioned hget e he hs
    simp [Movable, (applyRemote_none hget).1, hvisible, Trail.not_live_of_none hget]
  | some e =>
    obtain ⟨-, ⟨hstate, hlive⟩ | ⟨hstate, hnone⟩⟩ := h.inForce hget
    · simp [Movable, hstate, forgottenStates, hlive, (applyRemote_trashed hnode hget hstate).1]
    · have hcleared := (applyRemote_restored hnode hget hstate).1
      simp [Movable, hstate, forgottenStates, hnone, ← hcleared]

theorem seen_applyRemote {log : List Entry} {file : List Line} {next : ForgetId}
    (h : Trail log next) (hv : parse file <+: log) {st : Store} {id : String}
    (hseen : Seen log st id) : Seen log (applyRemote st file).1 id := by
  cases hget : (index (parse file)).bySubject.get? (artifact id) with
  | none =>
    constructor
    · rw [applyRemote_nodes, hget]
      exact hseen.1
    · rw [(applyRemote_none hget).1]
      exact hseen.2
  | some e =>
    obtain ⟨hw, hcases⟩ := (h.initial hv).inForce hget
    refine ⟨?_, fun _ => ⟨e, hv.subset (winner_mem hw).1, (winner_mem hw).2.2.1⟩⟩
    obtain ⟨node, hnode⟩ := Option.isSome_iff_exists.mp hseen.1
    rw [applyRemote_nodes, hget, hnode]
    rcases hcases with ⟨hstate, -⟩ | ⟨hstate, -⟩ <;> by_cases hk : e.key ∈ st.applied <;>
      simp [moved, hk, hstate, hide, unhide]

theorem take_of_parse (file : List Line) {m n : Nat} (h : m ≤ n) :
    parse (file.take m) <+: parse (file.take n) :=
  (List.take_prefix_take_left h).filterMap _

theorem seen_passes {file : List Line} {next : ForgetId} (h : Trail (parse file) next)
    {st : Store} {id : String} (hseen : Seen (parse file) st id) (arrived : List Nat) :
    Seen (parse file) (passes file st arrived) id := by
  induction arrived generalizing st with
  | nil => exact hseen
  | cons n rest ih =>
    exact ih (seen_applyRemote h ((List.take_prefix n file).filterMap _) hseen)

/-! ## Passes over a growing file -/

/-- What holds of an artifact after a pass over `v`, if earlier passes saw less:
it is archived while a forget of it is live, a trash applied here has arrived, and
a restore applied here is over and not the reason of the archive. -/
structure InStep (v : List Entry) (st : Store) (id : String) : Prop where
  live_archived : (∃ f, Live v (artifact id) f) → archived st id = true
  trashed : ∀ f, { forgetId := f, subject := artifact id, state := .trashed } ∈ st.applied →
    ∃ t ∈ v, t.subject = artifact id ∧ t.forgetId = f
  restored : ∀ f, { forgetId := f, subject := artifact id, state := .restored } ∈ st.applied →
    (∃ w, winner v (artifact id) f = some w ∧ w.state = .restored) ∧ reason st id ≠ some f

theorem mem_applyRemote_applied {st : Store} {file : List Line} {f : ForgetId} {id : String}
    {state : State}
    (h : { forgetId := f, subject := artifact id, state } ∈ (applyRemote st file).1.applied) :
    { forgetId := f, subject := artifact id, state } ∈ st.applied ∨
      ∃ e, (index (parse file)).bySubject.get? (artifact id) = some e ∧ e.forgetId = f ∧
        e.state = state := by
  refine (mem_foldl_applyEntry h).imp_right (fun ⟨e, he, hk⟩ => ?_)
  simp only [Entry.key, Applied.mk.injEq] at hk
  obtain ⟨hf, hs, hstate⟩ := hk
  exact ⟨e, hs ▸ mem_latest.mp he, hf.symm, hstate.symm⟩

theorem Trail.over_later {log v : List Entry} {next : ForgetId} (h : Trail log next) (hv : v <+: log)
    {s : Subject} {f : ForgetId} (hover : ∃ w, winner v s f = some w ∧ w.state = .restored) :
    ∃ w, winner log s f = some w ∧ w.state = .restored := by
  obtain ⟨w, hw, hr⟩ := hover
  obtain ⟨hwv, -, hws, hwf⟩ := winner_mem hw
  obtain ⟨w', hw'⟩ := h.winner_isSome (hv.subset hwv)
  rw [hws, hwf] at hw'
  exact ⟨w', hw', h.over hv hw hr hw'⟩

theorem key_of_get? {log : List Entry} {id : String} {e : Entry}
    (hget : (index log).bySubject.get? (artifact id) = some e) :
    e.key = { forgetId := e.forgetId, subject := artifact id, state := e.state } := by
  rw [Entry.key, bySubject_subject hget]

section Pass

variable {v : List Entry} {file : List Line} {next : ForgetId} {st : Store} {id : String}

theorem InStep.pass_live (h : Trail (parse file) next) (hv : v <+: parse file)
    (hi : InStep v st id) (hnode : (st.nodes id).isSome = true) :
    (∃ f, Live (parse file) (artifact id) f) → archived (applyRemote st file).1 id = true := by
  rintro ⟨f, hf⟩
  obtain ⟨e, hget, hstate⟩ := bySubject_of_live hf
  obtain ⟨hw, ⟨ht, -⟩ | ⟨-, hnone⟩⟩ := h.inForce hget
  · refine (applyRemote_trashed hnode hget ht).1.mpr ?_
    by_cases hk : e.key ∈ st.applied
    · -- an applied trash was live when it arrived, and the artifact is archived since
      have harrived := hi.trashed e.forgetId (ht ▸ key_of_get? hget ▸ hk)
      exact Or.inl (hi.live_archived ⟨e.forgetId, h.live_earlier hv ⟨e, hw, hstate⟩ harrived⟩)
    · exact Or.inr hk
  · exact absurd hf (hnone f)

theorem InStep.pass_trashed (hv : v <+: parse file) (hi : InStep v st id) {f : ForgetId}
    (hf : { forgetId := f, subject := artifact id, state := .trashed } ∈
      (applyRemote st file).1.applied) :
    ∃ t ∈ parse file, t.subject = artifact id ∧ t.forgetId = f := by
  rcases mem_applyRemote_applied hf with hf | ⟨e, hget, hef, -⟩
  · obtain ⟨t, ht, hrest⟩ := hi.trashed f hf
    exact ⟨t, hv.subset ht, hrest⟩
  · exact ⟨e, mem_of_mem_latest (mem_latest.mpr (bySubject_subject hget ▸ hget)),
      bySubject_subject hget, hef⟩

theorem InStep.pass_restored (h : Trail (parse file) next) (hv : v <+: parse file)
    (hi : InStep v st id) (hnode : (st.nodes id).isSome = true) {f : ForgetId}
    (hf : { forgetId := f, subject := artifact id, state := .restored } ∈
      (applyRemote st file).1.applied) :
    (∃ w, winner (parse file) (artifact id) f = some w ∧ w.state = .restored) ∧
      reason (applyRemote st file).1 id ≠ some f := by
  have hold : { forgetId := f, subject := artifact id, state := .restored } ∈ st.applied →
      (∃ w, winner (parse file) (artifact id) f = some w ∧ w.state = .restored) ∧
        reason st id ≠ some f := by
    intro hf
    exact ⟨h.over_later hv (hi.restored f hf).1, (hi.restored f hf).2⟩
  cases hget : (index (parse file)).bySubject.get? (artifact id) with
  | none =>
    rw [(applyRemote_none hget).2]
    rcases mem_applyRemote_applied hf with hf | ⟨e, he, -⟩
    · exact hold hf
    · exact absurd (hget.symm.trans he) (by simp)
  | some e =>
    obtain ⟨hw, ⟨hstate, -⟩ | ⟨hstate, -⟩⟩ := h.inForce hget
    · have hf : { forgetId := f, subject := artifact id, state := .restored } ∈ st.applied := by
        refine (mem_applyRemote_applied hf).resolve_right (fun ⟨x, hx, _, hxs⟩ => ?_)
        rw [hget, Option.some.injEq] at hx
        exact absurd (hstate.symm.trans (hx ▸ hxs)) (by decide)
      obtain ⟨⟨w, hw', hr⟩, hne⟩ := hold hf
      refine ⟨⟨w, hw', hr⟩, ?_⟩
      rcases (applyRemote_trashed hnode hget hstate).2 with hreason | hreason
      · exact hreason ▸ hne
      · rw [hreason]
        intro heq
        rw [Option.some.injEq] at heq
        rw [← heq, hw, Option.some.injEq] at hw'
        exact absurd (hstate.symm.trans (hw' ▸ hr)) (by decide)
    · obtain ⟨-, hreason, hcleared⟩ := applyRemote_restored hnode hget hstate
      by_cases hk : { forgetId := f, subject := artifact id, state := .restored } ∈ st.applied
      · refine ⟨(hold hk).1, ?_⟩
        rcases hreason with hreason | hreason
        · exact hreason ▸ (hold hk).2
        · simp [hreason]
      · obtain ⟨x, hx, hxf, -⟩ := (mem_applyRemote_applied hf).resolve_left hk
        rw [hget, Option.some.injEq] at hx
        subst hx hxf
        exact ⟨⟨e, hw, hstate⟩, hcleared (by rw [key_of_get? hget, hstate]; exact hk)⟩

theorem InStep.pass (h : Trail (parse file) next) (hv : v <+: parse file) (hi : InStep v st id)
    (hnode : (st.nodes id).isSome = true) : InStep (parse file) (applyRemote st file).1 id where
  live_archived := hi.pass_live h hv hnode
  trashed _ hf := hi.pass_trashed hv hf
  restored _ hf := hi.pass_restored h hv hnode hf

end Pass

theorem inStep_passes {file : List Line} {next : ForgetId} (h : Trail (parse file) next)
    {st : Store} {id : String} {n : Nat} (hseen : Seen (parse file) st id)
    (hi : InStep (parse (file.take n)) st id) {arrived : List Nat}
    (hgrows : (n :: arrived).Pairwise (· ≤ ·)) :
    ∃ n, InStep (parse (file.take n)) (passes file st arrived) id := by
  induction arrived generalizing st n with
  | nil => exact ⟨n, hi⟩
  | cons m rest ih =>
    rw [List.pairwise_cons] at hgrows
    have hm := (List.take_prefix m file).filterMap Line.entry
    exact ih (seen_applyRemote h hm hseen)
      (hi.pass (h.initial hm) (take_of_parse file (hgrows.1 m List.mem_cons_self)) hseen.1)
      hgrows.2

/-- After passes over less, an artifact is in line unless it is stuck: archived
for another forget than the restored one in force. -/
theorem InStep.converged_iff {v : List Entry} {file : List Line} {next : ForgetId} {st : Store}
    {id : String} (h : Trail (parse file) next) (hv : v <+: parse file) (hi : InStep v st id)
    (hseen : Seen (parse file) st id) :
    Converged (parse file) (applyRemote st file).1 id ↔
      (∃ f, Live (parse file) (artifact id) f) ∨ archived st id = false ∨
        ∃ e, (index (parse file)).bySubject.get? (artifact id) = some e ∧
          reason st id = some e.forgetId := by
  by_cases hlive : ∃ f, Live (parse file) (artifact id) f
  · have harchived := hi.pass_live h hv hseen.1 hlive
    simp [Converged, hlive, harchived]
  · rw [converged_iff_movable h hseen]
    cases hget : (index (parse file)).bySubject.get? (artifact id) with
    | none =>
      have hvisible : archived st id = false := by
        by_contra ha
        obtain ⟨e, he, hs⟩ := hseen.2 (by simpa using ha)
        exact h.unmentioned hget e he hs
      simp [Movable, hvisible]
    | some e =>
      obtain ⟨-, ⟨-, hl⟩ | ⟨hstate, -⟩⟩ := h.inForce hget
      · exact absurd hl hlive
      · have happlied : reason st id = some e.forgetId → e.key ∉ st.applied := by
          intro hr hk
          rw [key_of_get? hget, hstate] at hk
          exact (hi.restored e.forgetId hk).2 hr
        simp only [Movable, hstate, forgottenStates, hlive, false_or, Option.some.injEq]
        constructor
        · rintro (hvis | ⟨hr, -⟩)
          · exact Or.inl hvis
          · exact Or.inr ⟨e, rfl, hr⟩
        · rintro (hvis | ⟨_, rfl, hr⟩)
          · exact Or.inl hvis
          · exact Or.inr ⟨hr, happlied hr⟩

/-- Whatever the second machine saw before, a pass over the whole file brings an
artifact in line exactly when it can move it.  If each pass saw no less than the
one before, that is when a forget is live, or the artifact is visible, or its
archive names the forget of the entry in force. -/
theorem converged_applyRemote_iff (machineId : String) {ops : List (Time × Act)}
    (hops : ∀ op ∈ ops, TrashOrRestore op.2) {nodes : String → Option Archive} {id : String}
    (hnode : nodes id = some .visible) (arrived : List Nat) :
    let m := ops.foldl act (Engine.start machineId)
    let st := passes m.file { applied := [], nodes } arrived
    (Converged m.log (applyRemote st m.file).1 id ↔
      Movable st id (m.reg.bySubject.get? (artifact id))) ∧
    (arrived.Pairwise (· ≤ ·) → (Converged m.log (applyRemote st m.file).1 id ↔
      (∃ f, Live m.log (artifact id) f) ∨ archived st id = false ∨
        ∃ e, m.reg.bySubject.get? (artifact id) = some e ∧ reason st id = some e.forgetId)) := by
  intro m st
  obtain ⟨next, h⟩ := trail_run machineId hops
  have hstart : Seen (parse m.file) { applied := [], nodes } id := by
    simp [Seen, archived, hnode, Archive.visible]
  have hseen : Seen (parse m.file) st id := seen_passes h hstart arrived
  refine ⟨converged_iff_movable h hseen, fun hgrows => ?_⟩
  have hi : InStep (parse (m.file.take 0)) { applied := [], nodes } id := by
    refine ⟨?_, by simp, by simp⟩
    rintro ⟨f, w, hw, -⟩
    exact absurd (winner_mem hw).1 (by simp [parse])
  obtain ⟨n, hi⟩ := inStep_passes h hstart hi
    (List.pairwise_cons.mpr ⟨fun _ _ => Nat.zero_le _, hgrows⟩)
  exact hi.converged_iff h ((List.take_prefix n m.file).filterMap _) hseen

section Overlap

/-- A document is trashed and restored, and trashed and restored again. -/
def trashedTwice : List (Time × Act) := [
  (1, .trash (fun _ _ => true) [artifact "doc"] "ui" ""),
  (2, .restore (fun _ _ => true) 0),
  (3, .trash (fun _ _ => true) [artifact "doc"] "ui" ""),
  (4, .restore (fun _ _ => true) 1)]

/-- Seen one entry at a time, the document ends visible. -/
theorem converged_applyRemote_iff_stepwise :
    let m := trashedTwice.foldl act (Engine.start "mA")
    let st := passes m.file { applied := [], nodes := fun _ => some .visible } [1, 2, 3]
    Converged m.log (applyRemote st m.file).1 "doc" := by
  intro m st
  have hops : ∀ op ∈ trashedTwice, TrashOrRestore op.2 := by simp [trashedTwice, TrashOrRestore]
  have hnode : (fun _ : String => some Archive.visible) "doc" = some .visible := rfl
  refine ((converged_applyRemote_iff "mA" hops hnode [1, 2, 3]).2 (by decide)).mpr ?_
  exact Or.inr (Or.inr ⟨_, rfl, by decide⟩)

/-- A pass that misses the first restore leaves the document archived for ever. -/
theorem not_converged_applyRemote :
    let m := trashedTwice.foldl act (Engine.start "mA")
    let st := passes m.file { applied := [], nodes := fun _ => some .visible } [1, 3]
    ¬ Converged m.log (applyRemote st m.file).1 "doc" := by
  intro m st
  rw [Converged, ← isForgotten_iff_live]
  decide

end Overlap

end Cerid.Forget
