import Cerid.Forget.Convergence
import Cerid.Lib.Run

/-!
# Refreshing the registry

A refresh lists the registry files, reads those that changed and folds what they
say.  Around it stand the folder, which other machines append to, the local
snapshot on disk, and the process, which may restart.  Every failure a refresh
can meet is part of its `View`: the folder missing, a listing that fails, a file
that is absent, a `stat` or an `open` that fails, a snapshot that cannot be read
or written.
-/

namespace Cerid.Forget

/-- What one refresh meets: whether the folder is there and can be listed, the
names the listing returns, the size and time of a file unless its `stat` fails,
and which files open. -/
structure View where
  isDir : Bool
  globs : Bool
  paths : List String
  stat : String → Option (Nat × Nat)
  readable : String → Bool
  snapshotReadable : Bool
  snapshotWritable : Bool

/-- The state of one `Registry` object. -/
structure Registry where
  root : Bool
  signature : List (String × Nat × Nat)
  loaded : Bool
  unreachable : Bool
  perFile : Dict String (List Entry)
  idx : Index

def Registry.new (root : Bool) : Registry where
  root := root
  signature := []
  loaded := false
  unreachable := false
  perFile := .empty
  idx := Index.start

/-- One machine: the shared folder as it is now, its snapshot file and its
process. -/
structure Host where
  folder : String → List Line
  snapshot : Option (List Line)
  registry : Registry

/-- `Registry._files`. -/
def files (root : Bool) (v : View) : Option (List (String × Nat × Nat)) :=
  if !root then some []
  else if !v.isDir || !v.globs then none
  else some (v.paths.filterMap (fun p => (v.stat p).map (fun st => (p, st))))

/-- `Registry._read_snapshot`. -/
def readSnapshot (v : View) (h : Host) : List Entry :=
  if v.snapshotReadable then parse (h.snapshot.getD []) else []

/-- `Registry._write_snapshot`. -/
def writeSnapshot (v : View) (h : Host) (entries : List Entry) : Host :=
  if v.snapshotWritable then { h with snapshot := some (dump entries) } else h

structure Loaded where
  everything : List Entry
  perFile : Dict String (List Entry)
  unread : Bool

/-- What a file contributes: its text, or what it said when it last read. -/
def contribution (v : View) (h : Host) (name : String) : List Entry :=
  if v.readable name then parse (h.folder name)
  else (h.registry.perFile.get? name).getD []

/-- The loop of `_refresh` over the files. -/
def loadStep (v : View) (h : Host) (acc : Loaded) (file : String × Nat × Nat) : Loaded where
  everything := acc.everything ++ contribution v h file.1
  perFile := acc.perFile.set file.1 (contribution v h file.1)
  unread := acc.unread || !v.readable file.1

def load (v : View) (h : Host) (listed : List (String × Nat × Nat)) : Loaded :=
  listed.foldl (loadStep v h) { everything := [], perFile := .empty, unread := false }

def Registry.put (r : Registry) (everything : List Entry) (signature : List (String × Nat × Nat)) :
    Registry :=
  { r with idx := index everything, signature := signature, loaded := true }

/-- `_refresh`, from the signature test on. -/
def reload (v : View) (h : Host) (listed : List (String × Nat × Nat)) : Host :=
  let r := { h.registry with unreachable := false }
  if r.loaded ∧ listed = r.signature then { h with registry := r }
  else
    let l := load v h listed
    let r := { r with perFile := l.perFile }
    if l.unread then
      let everything :=
        l.everything ++ (readSnapshot v h).filter (fun e => e ∉ l.everything)
      { h with registry := r.put everything [] }
    else { writeSnapshot v h l.everything with registry := r.put l.everything listed }

/-- `Registry._refresh`. -/
def refresh (v : View) (h : Host) : Host :=
  match files h.registry.root v with
  | none | some [] =>
    let known := if h.registry.loaded then h.registry.idx.all else readSnapshot v h
    if known ≠ [] then
      let r := { h.registry with unreachable := true }
      { h with registry := if r.loaded then r else r.put known [] }
    else reload v h []
  | some (file :: rest) => reload v h (file :: rest)

/-! ## Runs -/

/-- A file of the folder grows, by this process (which then drops its signature)
or by another machine; the registry refreshes; or the process restarts. -/
inductive Op where
  | append (name : String) (lines : List Line) (own : Bool)
  | refresh (v : View)
  | restart

def append (name : String) (lines : List Line) (own : Bool) (h : Host) : Host where
  folder := fun n => if n = name then h.folder n ++ lines else h.folder n
  snapshot := h.snapshot
  registry := if own then { h.registry with signature := [] } else h.registry

def restart (h : Host) : Host := { h with registry := Registry.new h.registry.root }

def step (h : Host) : Op → Host
  | .append name lines own => append name lines own h
  | .refresh v => refresh v h
  | .restart => restart h

def run (h : Host) (ops : List Op) : Host := ops.foldl step h

/-- A machine on its first start: no snapshot, and whatever the folder holds. -/
def Host.start (folder : String → List Line) (root : Bool) : Host where
  folder := folder
  snapshot := none
  registry := Registry.new root

/-- The answer of `is_forgotten` after a refresh. -/
def reported (h : Host) (s : Subject) : Bool := isForgotten h.registry.idx s

/-- A refresh reads files, rather than leaving the index as it is. -/
def reloads (v : View) (h : Host) : Bool :=
  match files h.registry.root v with
  | none | some [] => false
  | some listed => !(h.registry.loaded && decide (listed = h.registry.signature))

/-- The entries a step reads from the registry files. -/
def entriesRead (h : Host) : Op → List Entry
  | .append _ _ _ | .restart => []
  | .refresh v =>
    if reloads v h then
      (((files h.registry.root v).getD []).filter (fun f => v.readable f.1)).flatMap
        (fun f => parse (h.folder f.1))
    else []

def entriesReadIn (h : Host) : List Op → List Entry
  | [] => []
  | op :: rest => entriesRead h op ++ entriesReadIn (step h op) rest

/-- The entries a machine holds, in memory or for its next start. -/
def known (h : Host) : List Entry :=
  if h.registry.loaded then h.registry.idx.all else parse (h.snapshot.getD [])

/-- A subject reported forgotten after `early` is still reported forgotten after
`late`, unless a restored or readded entry of it that was not known before has
been read in between. -/
def KeepsForgotten (h : Host) (early late : List Op) (s : Subject) : Prop :=
  reported (run h early) s = true →
    (∀ e ∈ entriesReadIn (run h early) late, e.subject = s →
      e.state = .restored ∨ e.state = .readded → e ∈ known (run h early)) →
    reported (run h (early ++ late)) s = true

/-! ## When nothing is lost -/

/-- A refresh that meets this listing loses no entry.  When it lists files it
lists every file whose entries the process holds; when it reads them all, they
hold what the snapshot holds; and where the snapshot is needed it can be read. -/
def RetainsListing (v : View) (h : Host) : Option (List (String × Nat × Nat)) → Prop
  | none | some [] => h.registry.loaded = false → v.snapshotReadable = true
  | some (file :: rest) =>
    reloads v h = true →
      (∀ p ∈ h.registry.perFile.items, p.2 ≠ [] → p.1 ∈ (file :: rest).map Prod.fst) ∧
      ((∀ f ∈ file :: rest, v.readable f.1 = true) →
        ∀ e ∈ parse (h.snapshot.getD []), ∃ f ∈ file :: rest, e ∈ parse (h.folder f.1)) ∧
      ((∃ f ∈ file :: rest, v.readable f.1 = false) → v.snapshotReadable = true)

/-- The step loses no entry.  A restart comes while the snapshot holds all that
is known. -/
def Retains (h : Host) : Op → Prop
  | .append _ _ _ => True
  | .restart => ∀ e ∈ known h, e ∈ parse (h.snapshot.getD [])
  | .refresh v => RetainsListing v h (files h.registry.root v)

/-- Every step of the run retains. -/
def Steady (h : Host) (ops : List Op) : Prop := Along step Retains h ops

instance (v : View) (h : Host) :
    (listing : Option (List (String × Nat × Nat))) → Decidable (RetainsListing v h listing)
  | none | some [] => inferInstanceAs (Decidable (_ → _))
  | some (_ :: _) => inferInstanceAs (Decidable (_ → _))

instance (h : Host) : (op : Op) → Decidable (Retains h op)
  | .append _ _ _ => isTrue trivial
  | .restart => inferInstanceAs (Decidable (∀ e ∈ known h, _))
  | .refresh v => inferInstanceAs (Decidable (RetainsListing v h _))

instance (h : Host) (ops : List Op) : Decidable (Steady h ops) :=
  inferInstanceAs (Decidable (Along step Retains h ops))

/-- No forget of the subject has a trashed and a restored entry of one time. -/
def Untied (h : Host) (s : Subject) : Prop :=
  ∀ m n, ∀ t ∈ parse (h.folder m), ∀ r ∈ parse (h.folder n), t.subject = s → r.subject = s →
    t.forgetId = r.forgetId → t.state = .trashed → r.state = .restored → t.at_ ≠ r.at_

/-- What holds of a machine along a steady run. -/
structure Consistent (h : Host) : Prop where
  idx : h.registry.loaded = true → h.registry.idx = index h.registry.idx.all
  fresh : h.registry.loaded = false → h.registry.idx = Index.start ∧ h.registry.perFile = .empty
  snapshot_known : ∀ e ∈ parse (h.snapshot.getD []), e ∈ known h
  held : ∀ e ∈ known h,
    e ∈ parse (h.snapshot.getD []) ∨ ∃ p ∈ h.registry.perFile.items, e ∈ p.2
  perFile_known : ∀ p ∈ h.registry.perFile.items, ∀ e ∈ p.2, e ∈ known h
  perFile_folder : ∀ p ∈ h.registry.perFile.items, ∀ e ∈ p.2, e ∈ parse (h.folder p.1)
  known_folder : ∀ e ∈ known h, ∃ n, e ∈ parse (h.folder n)

theorem consistent_start (folder : String → List Line) (root : Bool) :
    Consistent (Host.start folder root) where
  idx := by intro h; exact absurd h (by simp [Host.start, Registry.new])
  fresh := by intro _; exact ⟨rfl, rfl⟩
  snapshot_known := by intro e he; simp [Host.start, parse] at he
  held := by intro e he; simp [known, Host.start, Registry.new, parse] at he
  perFile_known := by intro p hp; simp [Host.start, Registry.new, Dict.empty] at hp
  perFile_folder := by intro p hp; simp [Host.start, Registry.new, Dict.empty] at hp
  known_folder := by intro e he; simp [known, Host.start, Registry.new, parse] at he

/-! ### Loading -/

theorem foldl_loadStep_everything (v : View) (h : Host) (listed : List (String × Nat × Nat))
    (acc : Loaded) :
    (listed.foldl (loadStep v h) acc).everything =
      acc.everything ++ listed.flatMap (fun f => contribution v h f.1) := by
  induction listed generalizing acc with
  | nil => simp
  | cons f rest ih => simp [ih, loadStep, List.append_assoc]

theorem foldl_loadStep_unread (v : View) (h : Host) (listed : List (String × Nat × Nat))
    (acc : Loaded) :
    (listed.foldl (loadStep v h) acc).unread =
      (acc.unread || listed.any (fun f => !v.readable f.1)) := by
  induction listed generalizing acc with
  | nil => simp
  | cons f rest ih => simp [ih, loadStep, Bool.or_assoc]

theorem get?_foldl_loadStep_perFile (v : View) (h : Host) (listed : List (String × Nat × Nat))
    (acc : Loaded) (n : String) :
    (listed.foldl (loadStep v h) acc).perFile.get? n =
      if n ∈ listed.map Prod.fst then some (contribution v h n) else acc.perFile.get? n := by
  induction listed generalizing acc with
  | nil => simp
  | cons f rest ih =>
    rw [List.foldl_cons, ih]
    by_cases hr : n ∈ rest.map Prod.fst
    · rw [if_pos hr, List.map_cons, if_pos (List.mem_cons_of_mem _ hr)]
    · rw [if_neg hr]
      by_cases hf : n = f.1
      · subst hf
        simp [loadStep]
      · simp only [loadStep, Dict.get?_set, List.map_cons, List.mem_cons, hf, hr, if_false, or_self]

theorem load_everything (v : View) (h : Host) (listed : List (String × Nat × Nat)) :
    (load v h listed).everything = listed.flatMap (fun f => contribution v h f.1) := by
  simp [load, foldl_loadStep_everything]

theorem load_unread (v : View) (h : Host) (listed : List (String × Nat × Nat)) :
    (load v h listed).unread = true ↔ ∃ f ∈ listed, v.readable f.1 = false := by
  simp [load, foldl_loadStep_unread]

theorem mem_load_perFile {v : View} {h : Host} {listed : List (String × Nat × Nat)}
    {p : String × List Entry} :
    p ∈ (load v h listed).perFile.items ↔
      p.1 ∈ listed.map Prod.fst ∧ p.2 = contribution v h p.1 := by
  obtain ⟨n, es⟩ := p
  rw [Dict.mem_items_iff, load, get?_foldl_loadStep_perFile]
  by_cases hn : n ∈ listed.map Prod.fst
  · simp [hn, eq_comm]
  · simp [hn]

theorem contribution_folder {h : Host} (hc : Consistent h) (v : View) (n : String) :
    ∀ e ∈ contribution v h n, e ∈ parse (h.folder n) := by
  intro e he
  unfold contribution at he
  split at he
  · exact he
  · cases hg : h.registry.perFile.get? n with
    | none => simp [hg] at he
    | some es =>
      rw [hg, Option.getD_some] at he
      exact hc.perFile_folder (n, es) ((Dict.mem_items_iff _ _ _).mpr hg) e he

theorem held_contribution {h : Host} (hc : Consistent h) (v : View) {p : String × List Entry}
    (hp : p ∈ h.registry.perFile.items) : ∀ e ∈ p.2, e ∈ contribution v h p.1 := by
  intro e he
  unfold contribution
  split
  · exact hc.perFile_folder p hp e he
  · have hg : h.registry.perFile.get? p.1 = some p.2 := (Dict.mem_items_iff _ _ _).mp hp
    rw [hg]
    exact he

theorem mem_everything {v : View} {h : Host} {listed : List (String × Nat × Nat)} {e : Entry} :
    e ∈ (load v h listed).everything ↔ ∃ f ∈ listed, e ∈ contribution v h f.1 := by
  rw [load_everything, List.mem_flatMap]

theorem everything_known_or_read {h : Host} (hc : Consistent h) {v : View}
    {listed : List (String × Nat × Nat)} {e : Entry} (he : e ∈ (load v h listed).everything) :
    e ∈ known h ∨ ∃ f ∈ listed, v.readable f.1 = true ∧ e ∈ parse (h.folder f.1) := by
  obtain ⟨f, hf, hef⟩ := mem_everything.mp he
  unfold contribution at hef
  by_cases hv : v.readable f.1 = true
  · rw [if_pos hv] at hef
    exact Or.inr ⟨f, hf, hv, hef⟩
  · rw [if_neg hv] at hef
    cases hg : h.registry.perFile.get? f.1 with
    | none => simp [hg] at hef
    | some es =>
      rw [hg, Option.getD_some] at hef
      exact Or.inl (hc.perFile_known (f.1, es) ((Dict.mem_items_iff _ _ _).mpr hg) e hef)

/-! ### The two ways a load ends -/

/-- The machine after a load that left some file unread. -/
def loadedPartly (v : View) (h : Host) (listed : List (String × Nat × Nat)) : Host :=
  let l := load v h listed
  let r : Registry := { h.registry with unreachable := false, perFile := l.perFile }
  let everything := l.everything ++ (readSnapshot v h).filter (fun e => e ∉ l.everything)
  { h with registry := r.put everything [] }

/-- The machine after a load that read every file. -/
def loadedFully (v : View) (h : Host) (listed : List (String × Nat × Nat)) : Host :=
  let l := load v h listed
  let r : Registry := { h.registry with unreachable := false, perFile := l.perFile }
  { writeSnapshot v h l.everything with registry := r.put l.everything listed }

theorem reload_eq (v : View) (h : Host) (listed : List (String × Nat × Nat)) :
    reload v h listed =
      if h.registry.loaded ∧ listed = h.registry.signature then
        { h with registry := { h.registry with unreachable := false } }
      else if (load v h listed).unread then loadedPartly v h listed
      else loadedFully v h listed := rfl

theorem mem_known_loadedPartly {v : View} {h : Host} {listed : List (String × Nat × Nat)}
    {e : Entry} :
    e ∈ known (loadedPartly v h listed) ↔
      e ∈ (load v h listed).everything ∨ e ∈ readSnapshot v h := by
  show e ∈ (load v h listed).everything ++
    (readSnapshot v h).filter (fun e => e ∉ (load v h listed).everything) ↔ _
  rw [List.mem_append, List.mem_filter]
  by_cases he : e ∈ (load v h listed).everything <;> simp [he]

theorem known_loadedFully (v : View) (h : Host) (listed : List (String × Nat × Nat)) :
    known (loadedFully v h listed) = (load v h listed).everything := rfl

theorem writeSnapshot_folder (v : View) (h : Host) (es : List Entry) :
    (writeSnapshot v h es).folder = h.folder := by
  unfold writeSnapshot
  split <;> rfl

theorem consistent_loadedPartly {v : View} {h : Host} {listed : List (String × Nat × Nat)}
    (hc : Consistent h) (hread : v.snapshotReadable = true) :
    Consistent (loadedPartly v h listed) where
  idx := by intro _; rfl
  fresh := by intro hl; exact absurd hl (by simp [loadedPartly, Registry.put])
  snapshot_known := by
    intro e he
    refine mem_known_loadedPartly.mpr (Or.inr ?_)
    rw [readSnapshot, if_pos hread]
    exact he
  held := by
    intro e he
    rcases mem_known_loadedPartly.mp he with he | he
    · obtain ⟨f, hf, hef⟩ := mem_everything.mp he
      exact Or.inr ⟨(f.1, contribution v h f.1),
        mem_load_perFile.mpr ⟨List.mem_map_of_mem hf, rfl⟩, hef⟩
    · rw [readSnapshot, if_pos hread] at he
      exact Or.inl he
  perFile_known := by
    intro p hp e he
    obtain ⟨hp1, hp2⟩ := mem_load_perFile.mp hp
    obtain ⟨f, hf, hfp⟩ := List.mem_map.mp hp1
    exact mem_known_loadedPartly.mpr (Or.inl (mem_everything.mpr ⟨f, hf, by rw [hfp, ← hp2]; exact he⟩))
  perFile_folder := by
    intro p hp e he
    obtain ⟨-, hp2⟩ := mem_load_perFile.mp hp
    exact contribution_folder hc v p.1 e (hp2 ▸ he)
  known_folder := by
    intro e he
    rcases mem_known_loadedPartly.mp he with he | he
    · obtain ⟨f, -, hef⟩ := mem_everything.mp he
      exact ⟨f.1, contribution_folder hc v f.1 e hef⟩
    · rw [readSnapshot, if_pos hread] at he
      exact hc.known_folder e (hc.snapshot_known e he)

theorem consistent_loadedFully {v : View} {h : Host} {listed : List (String × Nat × Nat)}
    (hc : Consistent h) (hsub : ∀ e ∈ known h, e ∈ (load v h listed).everything) :
    Consistent (loadedFully v h listed) where
  idx := by intro _; rfl
  fresh := by intro hl; exact absurd hl (by simp [loadedFully, Registry.put])
  snapshot_known := by
    intro e he
    rw [known_loadedFully]
    by_cases hw : v.snapshotWritable = true
    · exact (mem_parse_dump.mp (by simpa [loadedFully, writeSnapshot, hw] using he)).1
    · refine hsub e (hc.snapshot_known e ?_)
      simpa [loadedFully, writeSnapshot, hw] using he
  held := by
    intro e he
    obtain ⟨f, hf, hef⟩ := mem_everything.mp he
    exact Or.inr ⟨(f.1, contribution v h f.1),
      mem_load_perFile.mpr ⟨List.mem_map_of_mem hf, rfl⟩, hef⟩
  perFile_known := by
    intro p hp e he
    obtain ⟨hp1, hp2⟩ := mem_load_perFile.mp hp
    obtain ⟨f, hf, hfp⟩ := List.mem_map.mp hp1
    exact mem_everything.mpr ⟨f, hf, by rw [hfp, ← hp2]; exact he⟩
  perFile_folder := by
    intro p hp e he
    obtain ⟨-, hp2⟩ := mem_load_perFile.mp hp
    show e ∈ parse ((writeSnapshot v h _).folder p.1)
    rw [writeSnapshot_folder]
    exact contribution_folder hc v p.1 e (hp2 ▸ he)
  known_folder := by
    intro e he
    obtain ⟨f, -, hef⟩ := mem_everything.mp he
    refine ⟨f.1, ?_⟩
    show e ∈ parse ((writeSnapshot v h _).folder f.1)
    rw [writeSnapshot_folder]
    exact contribution_folder hc v f.1 e hef

theorem consistent_unreachable {h : Host} (hc : Consistent h) (b : Bool) :
    Consistent { h with registry := { h.registry with unreachable := b } } :=
  { idx := hc.idx, fresh := hc.fresh, snapshot_known := hc.snapshot_known, held := hc.held,
    perFile_known := hc.perFile_known, perFile_folder := hc.perFile_folder,
    known_folder := hc.known_folder }

/-! ### One step -/

/-- What a step of a steady run does to what is known: nothing is lost, and what
is new was read. -/
structure Kept (h h' : Host) (read : List Entry) : Prop where
  consistent : Consistent h'
  known_mono : ∀ e ∈ known h, e ∈ known h'
  known_new : ∀ e ∈ known h', e ∈ known h ∨ e ∈ read

theorem reload_kept {v : View} {h : Host} {listed : List (String × Nat × Nat)} {read : List Entry}
    (hc : Consistent h)
    (hread : (∃ f ∈ listed, v.readable f.1 = false) → v.snapshotReadable = true)
    (hfull : ¬ (h.registry.loaded = true ∧ listed = h.registry.signature) →
      ∀ e ∈ known h, e ∈ (load v h listed).everything ∨
        ((∃ f ∈ listed, v.readable f.1 = false) ∧ e ∈ parse (h.snapshot.getD [])))
    (hnew : ¬ (h.registry.loaded = true ∧ listed = h.registry.signature) →
      ∀ f ∈ listed, v.readable f.1 = true → ∀ e ∈ parse (h.folder f.1), e ∈ read) :
    Kept h (reload v h listed) read := by
  rw [reload_eq]
  by_cases hskip : h.registry.loaded = true ∧ listed = h.registry.signature
  · rw [if_pos hskip]
    exact ⟨consistent_unreachable hc false, fun e he => he, fun e he => Or.inl he⟩
  · rw [if_neg hskip]
    have hfound : ∀ e ∈ (load v h listed).everything, e ∈ known h ∨ e ∈ read := by
      intro e he
      rcases everything_known_or_read hc he with he | ⟨f, hf, hv, hef⟩
      · exact Or.inl he
      · exact Or.inr (hnew hskip f hf hv e hef)
    by_cases hu : (load v h listed).unread = true
    · rw [if_pos hu]
      have hsnap := hread ((load_unread v h listed).mp hu)
      refine ⟨consistent_loadedPartly hc hsnap, fun e he => ?_, fun e he => ?_⟩
      · rw [mem_known_loadedPartly, readSnapshot, if_pos hsnap]
        exact (hfull hskip e he).imp_right And.right
      · rcases mem_known_loadedPartly.mp he with he | he
        · exact hfound e he
        · rw [readSnapshot, if_pos hsnap] at he
          exact Or.inl (hc.snapshot_known e he)
    · rw [if_neg hu]
      have hall : ∀ e ∈ known h, e ∈ (load v h listed).everything := by
        intro e he
        rcases hfull hskip e he with he | ⟨hun, -⟩
        · exact he
        · exact absurd ((load_unread v h listed).mpr hun) hu
      exact ⟨consistent_loadedFully hc hall, hall, fun e he => hfound e he⟩

/-- The machine after a refresh that listed no file while forgets were known. -/
def unreached (h : Host) (known : List Entry) : Host :=
  let r : Registry := { h.registry with unreachable := true }
  { h with registry := if r.loaded then r else r.put known [] }

theorem refresh_unlisted {v : View} {h : Host}
    (hl : files h.registry.root v = none ∨ files h.registry.root v = some []) :
    refresh v h =
      if (if h.registry.loaded then h.registry.idx.all else readSnapshot v h) ≠ [] then
        unreached h (if h.registry.loaded then h.registry.idx.all else readSnapshot v h)
      else reload v h [] := by
  rcases hl with hl | hl <;> simp only [refresh, hl] <;> rfl

theorem refresh_listed {v : View} {h : Host} {file : String × Nat × Nat}
    {rest : List (String × Nat × Nat)} (hl : files h.registry.root v = some (file :: rest)) :
    refresh v h = reload v h (file :: rest) := by
  simp only [refresh, hl]

theorem refresh_unlisted_kept {v : View} {h : Host} (hc : Consistent h)
    (hl : files h.registry.root v = none ∨ files h.registry.root v = some [])
    (hread : h.registry.loaded = false → v.snapshotReadable = true) (read : List Entry) :
    Kept h (refresh v h) read := by
  have hknown : (if h.registry.loaded then h.registry.idx.all else readSnapshot v h) = known h := by
    unfold known readSnapshot
    by_cases hld : h.registry.loaded = true
    · simp [hld]
    · simp [hld, hread (by simpa using hld)]
  rw [refresh_unlisted hl, hknown]
  by_cases hk : known h = []
  · rw [if_neg (by simpa using hk)]
    refine reload_kept hc ?_ ?_ ?_
    · rintro ⟨f, hf, -⟩
      exact absurd hf List.not_mem_nil
    · intro _ e he
      simp [hk] at he
    · intro _ f hf
      exact absurd hf List.not_mem_nil
  · rw [if_pos hk]
    by_cases hld : h.registry.loaded = true
    · have heq : unreached h (known h) =
          { h with registry := { h.registry with unreachable := true } } := by
        simp [unreached, hld]
      rw [heq]
      exact ⟨consistent_unreachable hc true, fun e he => he, fun e he => Or.inl he⟩
    · have heq : unreached h (known h) =
          { h with registry :=
              Registry.put { h.registry with unreachable := true } (known h) [] } := by
        simp [unreached, hld]
      have hsnap : known h = parse (h.snapshot.getD []) := by simp [known, hld]
      rw [heq]
      refine ⟨⟨fun _ => rfl, fun hl' => absurd hl' (by simp [Registry.put]), ?_, ?_, ?_, ?_, ?_⟩,
        fun e he => he, fun e he => Or.inl he⟩
      · exact hc.snapshot_known
      · intro e he
        exact Or.inl (hsnap ▸ he)
      · exact hc.perFile_known
      · exact hc.perFile_folder
      · exact hc.known_folder

theorem refresh_kept {v : View} {h : Host} (hc : Consistent h) (hr : Retains h (.refresh v)) :
    Kept h (refresh v h) (entriesRead h (.refresh v)) := by
  cases hfs : files h.registry.root v with
  | none =>
    simp only [Retains, RetainsListing, hfs] at hr
    exact refresh_unlisted_kept hc (Or.inl hfs) hr _
  | some listed =>
    cases listed with
    | nil =>
      simp only [Retains, RetainsListing, hfs] at hr
      exact refresh_unlisted_kept hc (Or.inr hfs) hr _
    | cons file rest =>
      simp only [Retains, RetainsListing, hfs] at hr
      have hrel : reloads v h =
          !(h.registry.loaded && decide (file :: rest = h.registry.signature)) := by
        simp [reloads, hfs]
      have hto : ¬ (h.registry.loaded = true ∧ file :: rest = h.registry.signature) →
          reloads v h = true := by
        intro hskip
        rw [hrel, ← decide_eq_true (p := ¬ _) hskip]
        simp
      rw [refresh_listed hfs]
      by_cases hskip : h.registry.loaded = true ∧ file :: rest = h.registry.signature
      · rw [reload_eq, if_pos hskip]
        exact ⟨consistent_unreachable hc false, fun e he => he, fun e he => Or.inl he⟩
      · obtain ⟨hlisted, hcomplete, hsnap⟩ := hr (hto hskip)
        refine reload_kept hc hsnap (fun _ e he => ?_) (fun _ f hf hv e he => ?_)
        · rcases hc.held e he with he' | ⟨p, hp, hep⟩
          · by_cases hall : ∀ f ∈ file :: rest, v.readable f.1 = true
            · obtain ⟨f, hf, hef⟩ := hcomplete hall e he'
              refine Or.inl (mem_everything.mpr ⟨f, hf, ?_⟩)
              rw [contribution, if_pos (hall f hf)]
              exact hef
            · push Not at hall
              obtain ⟨f, hf, hv⟩ := hall
              exact Or.inr ⟨⟨f, hf, by simpa using hv⟩, he'⟩
          · have hne : p.2 ≠ [] := fun hnil => by simp [hnil] at hep
            obtain ⟨f, hf, hfp⟩ := List.mem_map.mp (hlisted p hp hne)
            exact Or.inl (mem_everything.mpr ⟨f, hf, hfp ▸ held_contribution hc v hp e hep⟩)
        · rw [entriesRead, if_pos (hto hskip), hfs, Option.getD_some, List.mem_flatMap]
          exact ⟨f, List.mem_filter.mpr ⟨hf, hv⟩, he⟩

theorem append_kept {h : Host} (hc : Consistent h) (name : String) (lines : List Line) (own : Bool) :
    Kept h (append name lines own h) [] := by
  have hknown : known (append name lines own h) = known h := by
    cases own <;> rfl
  have hfolder : ∀ n, ∀ e ∈ parse (h.folder n), e ∈ parse ((append name lines own h).folder n) := by
    intro n e he
    by_cases hn : n = name
    · simp only [append, hn, if_true, parse_append, List.mem_append]
      exact Or.inl (hn ▸ he)
    · simpa only [append, hn, if_false] using he
  have hper : (append name lines own h).registry.perFile = h.registry.perFile := by
    cases own <;> rfl
  have hidx : (append name lines own h).registry.idx = h.registry.idx := by
    cases own <;> rfl
  have hld : (append name lines own h).registry.loaded = h.registry.loaded := by
    cases own <;> rfl
  refine ⟨⟨?_, ?_, ?_, ?_, ?_, ?_, ?_⟩, fun e he => hknown ▸ he, fun e he => Or.inl (hknown ▸ he)⟩
  · rw [hld, hidx]; exact hc.idx
  · rw [hld, hidx, hper]; exact hc.fresh
  · rw [hknown]; exact hc.snapshot_known
  · rw [hknown, hper]; exact hc.held
  · rw [hknown, hper]; exact hc.perFile_known
  · rw [hper]; exact fun p hp e he => hfolder p.1 e (hc.perFile_folder p hp e he)
  · rw [hknown]
    intro e he
    obtain ⟨n, hn⟩ := hc.known_folder e he
    exact ⟨n, hfolder n e hn⟩

theorem restart_kept {h : Host} (hc : Consistent h) (hr : Retains h .restart) :
    Kept h (restart h) [] := by
  have hknown : known (restart h) = parse (h.snapshot.getD []) := rfl
  refine ⟨⟨?_, ?_, ?_, ?_, ?_, ?_, ?_⟩, fun e he => hr e he,
    fun e he => Or.inl (hc.snapshot_known e he)⟩
  · intro hl; exact absurd hl (by simp [restart, Registry.new])
  · intro _; exact ⟨rfl, rfl⟩
  · intro e he; exact he
  · intro e he; exact Or.inl he
  · intro p hp; simp [restart, Registry.new, Dict.empty] at hp
  · intro p hp; simp [restart, Registry.new, Dict.empty] at hp
  · intro e he
    exact hc.known_folder e (hc.snapshot_known e he)

theorem step_kept {h : Host} (hc : Consistent h) {op : Op} (hr : Retains h op) :
    Kept h (step h op) (entriesRead h op) := by
  cases op with
  | append name lines own => exact append_kept hc name lines own
  | refresh v => exact refresh_kept hc hr
  | restart => exact restart_kept hc hr

/-! ### Runs -/

theorem run_append (h : Host) (a b : List Op) : run h (a ++ b) = run (run h a) b :=
  List.foldl_append

/-- A steady run loses nothing, and what is new was read on the way. -/
theorem run_kept {h : Host} (hc : Consistent h) {ops : List Op} (hs : Steady h ops) :
    Kept h (run h ops) (entriesReadIn h ops) := by
  induction ops generalizing h with
  | nil => exact ⟨hc, fun e he => he, fun e he => Or.inl he⟩
  | cons op rest ih =>
    have h1 := step_kept hc hs.1
    have h2 := ih h1.consistent hs.2
    refine ⟨h2.consistent, fun e he => h2.known_mono e (h1.known_mono e he), fun e he => ?_⟩
    rcases h2.known_new e he with he | he
    · rcases h1.known_new e he with he | he
      · exact Or.inl he
      · exact Or.inr (List.mem_append_left _ he)
    · exact Or.inr (List.mem_append_right _ he)

theorem reported_iff {h : Host} (hc : Consistent h) (hl : h.registry.loaded = true) (s : Subject) :
    reported h s = true ↔ ∃ f, Live (known h) s f := by
  have hk : known h = h.registry.idx.all := by simp [known, hl]
  rw [reported, hc.idx hl, isForgotten_iff_live, ← hk]

theorem reported_loaded {h : Host} (hc : Consistent h) {s : Subject} (hr : reported h s = true) :
    h.registry.loaded = true := by
  by_contra hl
  have hstart := (hc.fresh (by simpa using hl)).1
  rw [reported, hstart] at hr
  exact absurd hr (by simp [isForgotten, stateOf, Index.start])

theorem refresh_loaded (v : View) (h : Host) : (refresh v h).registry.loaded = true := by
  have hreload : ∀ listed, (reload v h listed).registry.loaded = true := by
    intro listed
    rw [reload_eq]
    split
    · rename_i hskip
      exact hskip.1
    · split <;> rfl
  have hun : ∀ es, (unreached h es).registry.loaded = true := by
    intro es
    by_cases hl : h.registry.loaded = true <;> simp [unreached, hl, Registry.put]
  cases hfs : files h.registry.root v with
  | none =>
    rw [refresh_unlisted (Or.inl hfs)]
    by_cases hk : (if h.registry.loaded then h.registry.idx.all else readSnapshot v h) = []
    · rw [if_neg (not_not.mpr hk)]
      exact hreload []
    · rw [if_pos hk]
      exact hun _
  | some listed =>
    cases listed with
    | nil =>
      rw [refresh_unlisted (Or.inr hfs)]
      by_cases hk : (if h.registry.loaded then h.registry.idx.all else readSnapshot v h) = []
      · rw [if_neg (not_not.mpr hk)]
        exact hreload []
      · rw [if_pos hk]
        exact hun _
    | cons file rest =>
      rw [refresh_listed hfs]
      exact hreload _

/-- Along a steady run no forget lapses: not while the folder is away, not while
a file does not open, and not across a restart. -/
theorem keepsForgotten_of_steady {folder : String → List Line} {root : Bool} {early late : List Op}
    {v : View} {s : Subject}
    (hs : Steady (Host.start folder root) (early ++ (late ++ [.refresh v])))
    (hu : Untied (run (Host.start folder root) (early ++ (late ++ [.refresh v]))) s) :
    KeepsForgotten (Host.start folder root) early (late ++ [.refresh v]) s := by
  intro hrep hread
  rw [Steady, along_append] at hs
  have hearly := (run_kept (consistent_start folder root) hs.1).consistent
  have hlate := run_kept hearly hs.2
  rw [run_append] at hu ⊢
  have hloaded : (run (run (Host.start folder root) early)
      (late ++ [.refresh v])).registry.loaded = true := by
    rw [run_append]
    exact refresh_loaded v _
  obtain ⟨f, hlive⟩ := (reported_iff hearly (reported_loaded hearly hrep) s).mp hrep
  refine (reported_iff hlate.consistent hloaded s).mpr ⟨f, ?_⟩
  refine live_mono hlive hlate.known_mono ?_ ?_
  · intro e he hsub hstate
    rcases hlate.known_new e he with he | he
    · exact he
    · exact hread e he hsub hstate
  · intro t ht r hr hts hrs hf htt hrr
    obtain ⟨m, hm⟩ := hlate.consistent.known_folder t ht
    obtain ⟨n, hn⟩ := hlate.consistent.known_folder r hr
    exact hu m n t hm r hn hts hrs hf htt hrr

section TwoFiles

/-- A folder in which machine A forgot one conversation and machine B another. -/
def twoFiles (name : String) : List Line :=
  if name = "registry-mA.jsonl" then dump [conversationEntry 1 .trashed 1]
  else if name = "registry-mB.jsonl" then
    dump [{ conversationEntry 2 .trashed 2 with subject := { kind := .conversation, id := "c2" } }]
  else []

/-- A refresh of a folder that is there, whose listing returns `paths`. -/
def viewOf (paths : List String) (readable : String → Bool) : View where
  isDir := true
  globs := true
  paths := paths
  stat := fun _ => some (1, 1)
  readable := readable
  snapshotReadable := true
  snapshotWritable := true

/-- Machine A's file stops opening, the process restarts, and the folder is not
there any more: the conversation machine A forgot stays forgotten. -/
theorem keepsForgotten_twoFiles :
    KeepsForgotten (Host.start twoFiles true)
      [.refresh (viewOf ["registry-mA.jsonl", "registry-mB.jsonl"] (fun _ => true))]
      ([.refresh (viewOf ["registry-mA.jsonl", "registry-mB.jsonl"] (· ≠ "registry-mA.jsonl")),
        .restart] ++ [.refresh { viewOf [] (fun _ => true) with isDir := false }])
      { kind := .conversation, id := "c1" } := by
  refine keepsForgotten_of_steady (by decide) ?_
  intro m n t ht r hr hts hrs _ _ hrr
  have hfolder : ∀ name, ∀ e ∈ parse (twoFiles name), e.state = .trashed := by
    intro name e he
    unfold twoFiles at he
    split at he
    · have he := (mem_parse_dump.mp he).1
      simp [conversationEntry] at he
      simp [he]
    · split at he
      · have he := (mem_parse_dump.mp he).1
        simp [conversationEntry] at he
        simp [he]
      · simp [parse] at he
  exact absurd ((hfolder n r hr).symm.trans hrr) (by decide)

/-- A forget lapses when machine A's file is missing from a listing that still
shows machine B's, when its `stat` fails there, and when the process restarts
after a refresh that read a new forget of B's beside an unreadable file of A's. -/
theorem not_keepsForgotten :
    ¬ KeepsForgotten (Host.start twoFiles true)
      [.refresh (viewOf ["registry-mA.jsonl", "registry-mB.jsonl"] (fun _ => true))]
      [.refresh (viewOf ["registry-mB.jsonl"] (fun _ => true))]
      { kind := .conversation, id := "c1" } ∧
    ¬ KeepsForgotten (Host.start twoFiles true)
      [.refresh (viewOf ["registry-mA.jsonl", "registry-mB.jsonl"] (fun _ => true))]
      [.refresh { viewOf ["registry-mA.jsonl", "registry-mB.jsonl"] (fun _ => true) with
        stat := fun n => if n = "registry-mA.jsonl" then none else some (1, 1) }]
      { kind := .conversation, id := "c1" } ∧
    ¬ KeepsForgotten (Host.start twoFiles true)
      [.refresh (viewOf ["registry-mA.jsonl", "registry-mB.jsonl"] (fun _ => true)),
        .append "registry-mB.jsonl" (dump [{ conversationEntry 3 .trashed 3 with
          subject := { kind := .conversation, id := "c3" } }]) true,
        .refresh (viewOf ["registry-mA.jsonl", "registry-mB.jsonl"] (· ≠ "registry-mA.jsonl"))]
      [.restart,
        .refresh (viewOf ["registry-mA.jsonl", "registry-mB.jsonl"] (· ≠ "registry-mB.jsonl"))]
      { kind := .conversation, id := "c3" } := by
  refine ⟨?_, ?_, ?_⟩
  · intro hkeep
    exact absurd (hkeep (by decide) (by decide)) (by decide)
  · intro hkeep
    exact absurd (hkeep (by decide) (by decide)) (by decide)
  · intro hkeep
    exact absurd (hkeep (by decide) (by decide)) (by decide)

end TwoFiles

end Cerid.Forget
