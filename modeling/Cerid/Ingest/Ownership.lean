import Cerid.Ingest.Identity

/-!
# Every live document owns its node

The id of a node is the hash of its first text and outlives it.  A document that
brings that text again as a new one would be merged into the node; while none
does, the nodes of the live documents are distinct, an ingest writes to the node
of its own document, and every current passage of a document is listed on its
node.
-/

namespace Cerid.Ingest

/-- A row that serves the current version and that retrieval ranks. -/
def Current (rows : ChunkId → Option Row) (c : ChunkId) : Prop :=
  ∃ r, rows c = some r ∧ r.closed = false ∧ r.retrieveEligible = true

/-- Each live document has a node at its path, which lists exactly its current
passages, and no two live documents share a node. -/
structure Owned (w : World) : Prop where
  node : ∀ d id, w.docs d = some id →
    ∃ n, w.lib.nodes.get? id = some n ∧ n.sourcePath = d.1 ∧ n.domain = d.2 ∧
      ∀ c, c.artifactId = id → (Current w.lib.rows c ↔ c ∈ n.chunkIds)
  distinct : ∀ d d' id, w.docs d = some id → w.docs d' = some id → d = d'

/-- The path the operation is about. -/
def Op.path : Op → String
  | .ingest f => f.sourcePath
  | .delete d => d.1

/-- The document's file is gone from a folder that can be read. -/
def Gone (op : Op) (d : Doc) : Prop :=
  match op with
  | .ingest f => f.files.pathExists d.1 = false ∧ f.files.folderIsDir d.1 = true
  | .delete _ => False

section

variable (contentHash : String → String)

/-- The operation leaves every document of another path as it is, unless its file
is gone: its artifact, the whole node, and the rows. -/
def Independent (w : World) (op : Op) : Prop :=
  ∀ d id, w.docs d = some id → d.1 ≠ op.path → ¬ Gone op d →
    (step contentHash w op).docs d = some id ∧
    (step contentHash w op).lib.nodes.get? id = w.lib.nodes.get? id ∧
    ∀ c, c.artifactId = id → (step contentHash w op).lib.rows c = w.lib.rows c

/-- The hash of a new document's text is not the id of a node already there.  And
a forced re-index reaches no other document's node, nor brings a text that another
node holds. -/
def Clear (w : World) : Op → Prop
  | .delete _ => True
  | .ingest f =>
    match route w.lib (contentHash f.text) f with
    | .duplicate _ => True
    | .create => w.lib.nodes.get? (contentHash f.text) = none
    | .reingest id _ => f.forceReindex = true →
        (∀ d, w.docs d = some id → d = (f.sourcePath, f.domain)) ∧
          hashTaken w.lib id (contentHash f.text) = false

end

/-- What holds along a clear run: a document has a path and its node is there, a
node lists its current passages, and every row belongs to a node. -/
structure Kept (w : World) : Prop where
  path : ∀ d id, w.docs d = some id → d.1 ≠ ""
  node : ∀ d id, w.docs d = some id →
    ∃ n, w.lib.nodes.get? id = some n ∧ n.sourcePath = d.1 ∧ n.domain = d.2
  listed : ∀ id n, w.lib.nodes.get? id = some n → ∀ c, c.artifactId = id →
    (Current w.lib.rows c ↔ c ∈ n.chunkIds)
  stored : ∀ c r, w.lib.rows c = some r → ∃ n, w.lib.nodes.get? c.artifactId = some n

theorem Kept.distinct {w : World} (h : Kept w) {d d' : Doc} {id : String}
    (hd : w.docs d = some id) (hd' : w.docs d' = some id) : d = d' := by
  obtain ⟨n, hn, hp, hdom⟩ := h.node d id hd
  obtain ⟨n', hn', hp', hdom'⟩ := h.node d' id hd'
  rw [hn, Option.some.injEq] at hn'
  subst hn'
  exact Prod.ext (hp.symm.trans hp') (hdom.symm.trans hdom')

theorem Kept.owned {w : World} (h : Kept w) : Owned w where
  node d id hd := by
    obtain ⟨n, hn, hp, hdom⟩ := h.node d id hd
    exact ⟨n, hn, hp, hdom, h.listed id n hn⟩
  distinct _ _ _ hd hd' := h.distinct hd hd'

/-! ## Rows -/

theorem mem_childChunkIds {id : String} {records : List Chunk} {c : ChunkId} :
    c ∈ childChunkIds id records ↔
      c.artifactId = id ∧ ∃ r ∈ records, r.retrieveEligible = true ∧ r.digest = c.digest := by
  simp only [childChunkIds, List.mem_map, List.mem_filter]
  constructor
  · rintro ⟨r, ⟨hr, he⟩, rfl⟩
    exact ⟨rfl, r, hr, he, rfl⟩
  · rintro ⟨rfl, r, hr, he, hd⟩
    exact ⟨r, ⟨hr, he⟩, by rw [hd]⟩

theorem closeRows_written {rows : ChunkId → Option Row} {id : String} {records : List Chunk}
    {changed : Bool} {c : ChunkId} {r : Chunk} (hc : c.artifactId = id)
    (hfind : records.find? (fun r => r.digest = c.digest) = some r) :
    closeRows (upsert rows id records) changed (closing rows id records) c =
      some { closed := false, retrieveEligible := r.retrieveEligible } := by
  have hall : records.all (fun r => r.digest ≠ c.digest) = false := by
    rw [List.all_eq_false]
    exact ⟨r, List.mem_of_find?_eq_some hfind, by simpa using List.find?_some hfind⟩
  have hstay : closing rows id records c = false := by rw [closing, hall, Bool.and_false]
  simp [closeRows, hstay, upsert, hc, hfind]

theorem not_current_closeRows {rows : ChunkId → Option Row} {id : String} {records : List Chunk}
    {changed : Bool} {c : ChunkId} (hc : c.artifactId = id)
    (hfind : records.find? (fun r => r.digest = c.digest) = none) :
    ¬ Current (closeRows (upsert rows id records) changed (closing rows id records)) c := by
  rintro ⟨r, hr, hcl, -⟩
  have hall : records.all (fun r => r.digest ≠ c.digest) = true := by
    rw [List.all_eq_true]
    intro r hr
    simpa using List.find?_eq_none.mp hfind r hr
  have hup : upsert rows id records c = rows c := by simp [upsert, hc, hfind]
  rw [closeRows, hup, closing, hall] at hr
  cases hrow : rows c with
  | none => simp [hrow] at hr
  | some row =>
    by_cases hclosed : row.closed = true
    · have hr : row = r := by simpa [hrow, hclosed] using hr
      exact absurd (hr ▸ hcl) (by simp [hclosed])
    · cases changed with
      | false => simp [hrow, hclosed, hc] at hr
      | true =>
        simp [hrow, hclosed, hc] at hr
        exact absurd (hr ▸ hcl) (by simp)

/-- After the new passages are written and the rows they leave out are closed or
dropped, the current passages are those of the text. -/
theorem current_closeRows {rows : ChunkId → Option Row} {id : String} {records : List Chunk}
    (hnd : (records.map Chunk.digest).Nodup) {changed : Bool} {c : ChunkId}
    (hc : c.artifactId = id) :
    Current (closeRows (upsert rows id records) changed (closing rows id records)) c ↔
      c ∈ childChunkIds id records := by
  rw [mem_childChunkIds]
  cases hfind : records.find? (fun r => r.digest = c.digest) with
  | some r =>
    have hr := List.mem_of_find?_eq_some hfind
    have hd : r.digest = c.digest := by simpa using List.find?_some hfind
    rw [Current, closeRows_written hc hfind]
    constructor
    · rintro ⟨_, heq, -, he⟩
      rw [Option.some.injEq] at heq
      subst heq
      exact ⟨hc, r, hr, he, hd⟩
    · rintro ⟨-, r', hr', he, hd'⟩
      have heq : r' = r := List.inj_on_of_nodup_map hnd hr' hr (hd'.trans hd.symm)
      exact ⟨_, rfl, rfl, heq ▸ he⟩
  | none =>
    refine iff_of_false (not_current_closeRows hc hfind) ?_
    rintro ⟨-, r, hr, -, hd⟩
    exact absurd hd (by simpa using List.find?_eq_none.mp hfind r hr)

theorem closeRows_other {rows : ChunkId → Option Row} {id : String} {records : List Chunk}
    {changed : Bool} {c : ChunkId} (hc : c.artifactId ≠ id) :
    closeRows (upsert rows id records) changed (closing rows id records) c = rows c := by
  simp [closeRows, closing, upsert, hc]

/-! ## Where a text goes -/

theorem not_hashTaken {lib : Library} {hashes : List String} {h id : String} (hh : h ∈ hashes)
    (hnone : checkDuplicate lib hashes = none) : hashTaken lib id h = false := by
  rw [hashTaken, List.any_eq_false]
  intro p hp
  have := List.find?_eq_none.mp hnone p hp
  simp only [decide_eq_true_eq] at this ⊢
  exact fun ⟨_, heq⟩ => this (heq ▸ hh)

theorem accepts_eq_some {force : Bool} {h : String} {prev : Option (String × Node)}
    {p : String × Node} (hp : accepts force h prev = some p) : prev = some p := by
  unfold accepts at hp
  cases prev with
  | none => simp at hp
  | some q =>
    rw [Option.filter] at hp
    split at hp
    · exact hp
    · exact absurd hp (by simp)

/-- A text is sent to a node that is there: by its path, or by its file name, and
then the node has no path unless the ingest is forced. -/
theorem route_reingest {lib : Library} {h : String} {f : Source} {id : String} {prev : Node}
    (hr : route lib h f = .reingest id prev) :
    lib.nodes.get? id = some prev ∧ prev.domain = f.domain ∧
      (prev.sourcePath = f.sourcePath ∨ prev.sourcePath = "" ∨ f.forceReindex = true) ∧
      (f.forceReindex = false → hashTaken lib id h = false) := by
  unfold route at hr
  cases hdup : (if f.forceReindex then none else checkDuplicate lib (h :: f.priorHashes)) with
  | some existing => simp [hdup] at hr
  | none =>
    have htaken : f.forceReindex = false → hashTaken lib id h = false := by
      intro hforce
      rw [hforce] at hdup
      exact not_hashTaken List.mem_cons_self hdup
    rw [hdup] at hr
    cases hpath : accepts f.forceReindex h (findBySourcePath lib f.sourcePath f.domain) with
    | some p =>
      simp only [hpath, Route.reingest.injEq] at hr
      obtain ⟨rfl, rfl⟩ := hr
      have hfind := accepts_eq_some hpath
      rw [findBySourcePath, if_neg f.hasPath] at hfind
      have hp := List.find?_some hfind
      simp only [decide_eq_true_eq] at hp
      exact ⟨(Dict.mem_items_iff _ _ _).mp (List.mem_of_find?_eq_some hfind), hp.2,
        Or.inl hp.1, htaken⟩
    | none =>
      simp only [hpath] at hr
      split at hr
      · cases hr
      · split at hr
        · rename_i p hname
          simp only [Route.reingest.injEq] at hr
          obtain ⟨rfl, rfl⟩ := hr
          have hfind := accepts_eq_some hname
          split at hfind
          · rename_i hforced
            have hp := List.find?_some hfind
            simp only [decide_eq_true_eq] at hp
            exact ⟨(Dict.mem_items_iff _ _ _).mp (List.mem_of_find?_eq_some hfind), hp.2.1,
              Or.inr (Or.inr (hforced.2.resolve_left f.hasPath)), htaken⟩
          · have hp := List.find?_some hfind
            simp only [decide_eq_true_eq, Bool.false_eq_true, false_or] at hp
            exact ⟨(Dict.mem_items_iff _ _ _).mp (List.mem_of_find?_eq_some hfind), hp.2.1,
              Or.inr (Or.inl hp.2.2), htaken⟩
        · cases hr

/-! ## One operation -/

section

variable {contentHash : String → String} {w : World}

theorem Kept.owner (h : Kept w) {f : Source} {id : String} {prev : Node}
    (hr : route w.lib (contentHash f.text) f = .reingest id prev)
    (hclear : Clear contentHash w (.ingest f)) :
    (∀ d, w.docs d = some id → d = (f.sourcePath, f.domain)) ∧
      hashTaken w.lib id (contentHash f.text) = false := by
  obtain ⟨hget, hdom, hpath, htaken⟩ := route_reingest hr
  cases hforce : f.forceReindex with
  | true =>
    simp only [Clear, hr] at hclear
    exact hclear hforce
  | false =>
    refine ⟨fun d hd => ?_, htaken hforce⟩
    obtain ⟨n, hn, hnp, hnd⟩ := h.node d id hd
    rw [hget, Option.some.injEq] at hn
    subst hn
    rcases hpath with hpath | hpath | hpath
    · exact Prod.ext (hnp.symm.trans hpath) (hnd.symm.trans hdom)
    · exact absurd (hnp.symm.trans hpath) (h.path d id hd)
    · exact absurd (hforce.symm.trans hpath) (by simp)

/-- The node and the rows of one artifact are replaced, and the document takes
it. -/
theorem Kept.write (h : Kept w) {f : Source} {id : String} {rows : ChunkId → Option Row} {n : Node}
    (howner : ∀ d, w.docs d = some id → d = (f.sourcePath, f.domain))
    (hpath : n.sourcePath = f.sourcePath) (hdom : n.domain = f.domain)
    (hrows : ∀ c, c.artifactId ≠ id → rows c = w.lib.rows c)
    (hcur : ∀ c, c.artifactId = id → (Current rows c ↔ c ∈ n.chunkIds)) :
    Kept {
      lib := { nodes := w.lib.nodes.set id n, rows }
      docs := assign w.docs (f.sourcePath, f.domain) (some id) } := by
  refine ⟨fun d id' hd => ?_, fun d id' hd => ?_, fun id' n' hn' c hc => ?_, fun c r hr => ?_⟩
  · simp only [assign] at hd
    split at hd
    · rename_i heq
      rw [heq]
      exact f.hasPath
    · exact h.path d id' hd
  · simp only [assign] at hd
    split at hd
    · rename_i heq
      rw [Option.some.injEq] at hd
      subst hd heq
      exact ⟨n, by simp, hpath, hdom⟩
    · rename_i hne
      obtain ⟨n', hn', hrest⟩ := h.node d id' hd
      have hid : id' ≠ id := by
        rintro rfl
        exact hne (howner d hd)
      exact ⟨n', by simpa [hid] using hn', hrest⟩
  · have hn' : (if id' = id then some n else w.lib.nodes.get? id') = some n' := by simpa using hn'
    show Current rows c ↔ c ∈ n'.chunkIds
    split at hn'
    · rename_i heq
      rw [Option.some.injEq] at hn'
      subst hn' heq
      exact hcur c hc
    · rename_i hid
      rw [Current, hrows c (hc ▸ hid)]
      exact h.listed id' n' hn' c hc
  · have hr : rows c = some r := hr
    by_cases hc : c.artifactId = id
    · exact ⟨n, by simp [hc]⟩
    · rw [hrows c hc] at hr
      obtain ⟨n', hn'⟩ := h.stored c r hr
      exact ⟨n', by simpa [hc] using hn'⟩

theorem write_independent {f : Source} {id : String} {rows : ChunkId → Option Row} {n : Node}
    (howner : ∀ d, w.docs d = some id → d = (f.sourcePath, f.domain))
    (hrows : ∀ c, c.artifactId ≠ id → rows c = w.lib.rows c) {d : Doc} {id' : String}
    (hd : w.docs d = some id') (hne : d.1 ≠ f.sourcePath) :
    assign w.docs (f.sourcePath, f.domain) (some id) d = some id' ∧
      (w.lib.nodes.set id n).get? id' = w.lib.nodes.get? id' ∧
      ∀ c, c.artifactId = id' → rows c = w.lib.rows c := by
  have hkey : d ≠ (f.sourcePath, f.domain) := by
    rintro rfl
    exact hne rfl
  have hid : id' ≠ id := by
    rintro rfl
    exact hkey (howner d hd)
  exact ⟨by simpa [assign, hkey] using hd, by simp [hid], fun c hc => hrows c (hc ▸ hid)⟩

/-- A duplicate changes a node only when the file at the node's path is gone, and
then that document is the one that moved. -/
theorem noteSourcePath_cases (lib : Library) (files : Files) (id sourcePath filename : String) :
    noteSourcePath lib files id sourcePath filename = lib ∨
      ∃ n fname, lib.nodes.get? id = some n ∧ n.sourcePath ≠ sourcePath ∧
        (n.sourcePath = "" ∨
          files.pathExists n.sourcePath = false ∧ files.folderIsDir n.sourcePath = true) ∧
        noteSourcePath lib files id sourcePath filename =
          { lib with nodes := lib.nodes.set id { n with sourcePath, filename := fname } } := by
  unfold noteSourcePath
  cases hget : lib.nodes.get? id with
  | none => exact Or.inl rfl
  | some n =>
    simp only
    split
    · exact Or.inl rfl
    · rename_i hmoves
      refine Or.inr ⟨n, _, rfl, fun heq => hmoves (Or.inr (Or.inl heq)), ?_, rfl⟩
      by_cases hp : n.sourcePath = ""
      · exact Or.inl hp
      · refine Or.inr ⟨?_, ?_⟩
        · by_contra hex
          exact hmoves (Or.inr (Or.inr ⟨hp, Or.inl (by simpa using hex)⟩))
        · by_contra hdir
          exact hmoves (Or.inr (Or.inr ⟨hp, Or.inr hdir⟩))

theorem Kept.left (h : Kept w) {id : String} {n : Node} (hn : w.lib.nodes.get? id = some n) {d : Doc}
    {id' : String}
    (hd : (if w.docs (n.sourcePath, n.domain) = some id then
      assign w.docs (n.sourcePath, n.domain) none else w.docs) d = some id') :
    w.docs d = some id' ∧ id' ≠ id := by
  have howner : w.docs d = some id → d = (n.sourcePath, n.domain) := by
    intro hd
    obtain ⟨n', hn', hp, hdom⟩ := h.node d id hd
    rw [hn, Option.some.injEq] at hn'
    subst hn'
    exact Prod.ext hp.symm hdom.symm
  split at hd
  · simp only [assign] at hd
    split at hd
    · exact absurd hd (by simp)
    · rename_i hne
      exact ⟨hd, fun heq => hne (howner (heq ▸ hd))⟩
  · rename_i hleft
    exact ⟨hd, fun heq => hleft ((howner (heq ▸ hd)) ▸ (heq ▸ hd))⟩

theorem moveDoc_moved {lib : Library} (lib' : Library) (docs : Doc → Option String) {id : String}
    {n n' : Node} (hn : lib.nodes.get? id = some n) (hn' : lib'.nodes.get? id = some n')
    (hne : n.sourcePath ≠ n'.sourcePath) :
    moveDoc lib lib' docs id =
      assign (if docs (n.sourcePath, n.domain) = some id then
        assign docs (n.sourcePath, n.domain) none else docs) (n'.sourcePath, n.domain) (some id) := by
  simp only [moveDoc, hn, hn', if_neg hne]

theorem moveDoc_self (lib : Library) (docs : Doc → Option String) (id : String) :
    moveDoc lib lib docs id = docs := by
  unfold moveDoc
  cases lib.nodes.get? id <;> simp

theorem Kept.duplicate (h : Kept w) (f : Source) (id : String) :
    Kept {
      lib := noteSourcePath w.lib f.files id f.sourcePath f.filename
      docs := moveDoc w.lib (noteSourcePath w.lib f.files id f.sourcePath f.filename) w.docs id } := by
  rcases noteSourcePath_cases w.lib f.files id f.sourcePath f.filename with
    heq | ⟨n, fname, hn, hne, -, heq⟩
  · rw [heq, moveDoc_self]
    exact h
  · rw [heq, moveDoc_moved _ w.docs hn (by simp; rfl) hne]
    refine ⟨fun d id' hd => ?_, fun d id' hd => ?_, fun id' n' hn' c hc => ?_, fun c r hr => ?_⟩
    · simp only [assign] at hd
      split at hd
      · rename_i hkey
        rw [hkey]
        exact f.hasPath
      · exact h.path d id' (h.left hn hd).1
    · simp only [assign] at hd
      split at hd
      · rename_i hkey
        rw [Option.some.injEq] at hd
        subst hd hkey
        exact ⟨{ n with sourcePath := f.sourcePath, filename := fname }, by simp, rfl, rfl⟩
      · obtain ⟨hd, hid⟩ := h.left hn hd
        obtain ⟨n', hn', hrest⟩ := h.node d id' hd
        exact ⟨n', by simpa [hid] using hn', hrest⟩
    · by_cases hid : id' = id
      · subst hid
        have hsame := h.listed id' n hn c hc
        have hn' : { n with sourcePath := f.sourcePath, filename := fname } = n' := by
          simpa using hn'
        rw [← hn']
        exact hsame
      · exact h.listed id' n' (by simpa [hid] using hn') c hc
    · obtain ⟨n', hn'⟩ := h.stored c r hr
      by_cases hid : c.artifactId = id
      · exact ⟨_, by simp [hid]; rfl⟩
      · exact ⟨n', by simpa [hid] using hn'⟩

theorem Kept.delete (h : Kept w) {d : Doc} {id : String} (hd : w.docs d = some id) :
    Kept { lib := removeContent w.lib id, docs := assign w.docs d none } := by
  have hold : ∀ d' id', assign w.docs d none d' = some id' → w.docs d' = some id' ∧ id' ≠ id := by
    intro d' id' hd'
    simp only [assign] at hd'
    split at hd'
    · exact absurd hd' (by simp)
    · rename_i hne
      exact ⟨hd', fun heq => hne (h.distinct (heq ▸ hd') hd)⟩
  refine ⟨fun d' id' hd' => h.path d' id' (hold d' id' hd').1, fun d' id' hd' => ?_,
    fun id' n hn c hc => ?_, fun c r hr => ?_⟩
  · obtain ⟨hd', hid⟩ := hold d' id' hd'
    obtain ⟨n, hn, hrest⟩ := h.node d' id' hd'
    exact ⟨n, by simpa [removeContent, hid] using hn, hrest⟩
  · have hn : (if id' = id then none else w.lib.nodes.get? id') = some n := by
      simpa [removeContent] using hn
    split at hn
    · exact absurd hn (by simp)
    · rename_i hid
      have hsame := h.listed id' n hn c hc
      simpa [Current, removeContent, hc, hid] using hsame
  · simp only [removeContent] at hr
    split at hr
    · exact absurd hr (by simp)
    · rename_i hid
      obtain ⟨n, hn⟩ := h.stored c r hr
      exact ⟨n, by simpa [removeContent, hid] using hn⟩

theorem create_fresh {lib : Library} {f : Source} {h : String} (hnew : lib.nodes.get? h = none) :
    createArtifact lib f h =
      if hashTaken lib h h then
        ({ lib with rows := fun c =>
          if c.artifactId = h ∧ (f.chunks h).any (fun r => r.digest = c.digest) then none
          else upsert lib.rows h (f.chunks h) c }, .duplicate h)
      else
        ({ rows := upsert lib.rows h (f.chunks h),
           nodes := lib.nodes.set h {
            filename := f.filename, domain := f.domain, contentHash := h
            chunkIds := childChunkIds h (f.chunks h), sourcePath := f.sourcePath } }, .success h) := by
  simp only [createArtifact, hnew]

theorem rollback_rows (h : Kept w) {id : String} (hnew : w.lib.nodes.get? id = none)
    (records : List Chunk) :
    (fun c : ChunkId => if c.artifactId = id ∧ records.any (fun r => r.digest = c.digest) then none
      else upsert w.lib.rows id records c) = w.lib.rows := by
  funext c
  by_cases hc : c.artifactId = id
  · have hrow : w.lib.rows c = none := by
      by_contra hne
      obtain ⟨r, hr⟩ := Option.ne_none_iff_exists'.mp hne
      obtain ⟨n, hn⟩ := h.stored c r hr
      rw [hc, hnew] at hn
      exact absurd hn (by simp)
    by_cases hr : records.any (fun r => r.digest = c.digest) = true
    · rw [if_pos ⟨hc, hr⟩, hrow]
    · rw [if_neg (fun hboth => hr hboth.2)]
      have hfind : records.find? (fun r => r.digest = c.digest) = none := by
        rw [List.find?_eq_none]
        intro r hrm hd
        exact hr (List.any_eq_true.mpr ⟨r, hrm, hd⟩)
      simp [upsert, hc, hfind]
  · simp [upsert, hc]

theorem upsert_fresh (h : Kept w) {id : String} (hnew : w.lib.nodes.get? id = none)
    (records : List Chunk) :
    closeRows (upsert w.lib.rows id records) true (closing w.lib.rows id records) =
      upsert w.lib.rows id records := by
  funext c
  have hstay : closing w.lib.rows id records c = false := by
    by_cases hc : c.artifactId = id
    · have hrow : w.lib.rows c = none := by
        by_contra hne
        obtain ⟨r, hr⟩ := Option.ne_none_iff_exists'.mp hne
        obtain ⟨n, hn⟩ := h.stored c r hr
        rw [hc, hnew] at hn
        exact absurd hn (by simp)
      simp [closing, hrow]
    · simp [closing, hc]
  simp [closeRows, hstay]

/-- A clear operation keeps the invariant. -/
theorem kept_step (h : Kept w) {op : Op} (hclear : Clear contentHash w op) :
    Kept (step contentHash w op) := by
  cases op with
  | delete d =>
    simp only [step]
    cases hd : w.docs d with
    | none => exact h
    | some id => exact h.delete hd
  | ingest f =>
    cases hr : route w.lib (contentHash f.text) f with
    | duplicate id =>
      simp only [step, ingestContent, hr]
      exact h.duplicate f id
    | reingest id prev =>
      obtain ⟨howner, htaken⟩ := h.owner hr hclear
      obtain ⟨-, hdom, -, -⟩ := route_reingest hr
      simp only [step, ingestContent, hr, reingestArtifact, htaken, Bool.false_eq_true, if_false,
        ne_eq, f.hasPath, not_false_eq_true, if_true]
      exact h.write howner rfl hdom (fun c hc => closeRows_other hc)
        (fun c hc => current_closeRows (f.distinct id) hc)
    | create =>
      have hnew : w.lib.nodes.get? (contentHash f.text) = none := by
        simpa only [Clear, hr] using hclear
      simp only [step, ingestContent, hr]
      rw [create_fresh hnew, rollback_rows h hnew]
      by_cases htaken : hashTaken w.lib (contentHash f.text) (contentHash f.text) = true
      · rw [if_pos htaken]
        simp only [answer, moveDoc_self]
        exact h
      · rw [if_neg htaken]
        refine h.write (fun d hd => ?_) rfl rfl (fun c hc => by simp [upsert, hc]) (fun c hc => ?_)
        · obtain ⟨n, hn, -⟩ := h.node d _ hd
          exact absurd (hnew.symm.trans hn) (by simp)
        · rw [← upsert_fresh h hnew]
          exact current_closeRows (f.distinct _) hc

/-- A clear operation leaves the other documents alone. -/
theorem independent_step (h : Kept w) {op : Op} (hclear : Clear contentHash w op) :
    Independent contentHash w op := by
  intro d id hd hne hgone
  cases op with
  | delete d' =>
    simp only [step]
    cases hd' : w.docs d' with
    | none => exact ⟨hd, rfl, fun _ _ => rfl⟩
    | some id' =>
      have hkey : d ≠ d' := by
        rintro rfl
        exact hne rfl
      have hid : id ≠ id' := by
        rintro rfl
        exact hkey (h.distinct hd hd')
      exact ⟨by simpa [assign, hkey] using hd, by simp [removeContent, hid],
        fun c hc => by simp [removeContent, hc, hid]⟩
  | ingest f =>
    have hkey : ∀ dom, d ≠ (f.sourcePath, dom) := by
      rintro dom rfl
      exact hne rfl
    cases hr : route w.lib (contentHash f.text) f with
    | duplicate id' =>
      simp only [step, ingestContent, hr, answer]
      rcases noteSourcePath_cases w.lib f.files id' f.sourcePath f.filename with
        heq | ⟨n, fname, hn, hnp, hmoved, heq⟩
      · rw [heq, moveDoc_self]
        exact ⟨hd, rfl, fun _ _ => rfl⟩
      · have hid : id ≠ id' := by
          rintro rfl
          obtain ⟨n', hn', hp, -⟩ := h.node d id hd
          rw [hn, Option.some.injEq] at hn'
          subst hn'
          rcases hmoved with hempty | hgone'
          · exact h.path d id hd (hp.symm.trans hempty)
          · exact hgone (by simpa only [Gone, ← hp] using hgone')
        have hleft : d ≠ (n.sourcePath, n.domain) ∨ w.docs (n.sourcePath, n.domain) ≠ some id' := by
          by_contra hboth
          rw [not_or, not_not, not_not] at hboth
          rw [hboth.1] at hd
          exact hid (Option.some.inj (hd.symm.trans hboth.2))
        rw [heq, moveDoc_moved _ w.docs hn (by simp; rfl) hnp]
        refine ⟨?_, by simp [hid], fun _ _ => rfl⟩
        rcases hleft with hleft | hleft
        · by_cases hl : w.docs (n.sourcePath, n.domain) = some id' <;>
            simp [assign, hkey, hl, hleft, hd]
        · simp [assign, hkey, hleft, hd]
    | reingest id' prev =>
      obtain ⟨howner, htaken⟩ := h.owner hr hclear
      simp only [step, ingestContent, hr, reingestArtifact, htaken, Bool.false_eq_true, if_false]
      exact write_independent howner (fun c hc => closeRows_other hc) hd hne
    | create =>
      have hnew : w.lib.nodes.get? (contentHash f.text) = none := by
        simpa only [Clear, hr] using hclear
      simp only [step, ingestContent, hr]
      rw [create_fresh hnew, rollback_rows h hnew]
      by_cases htaken : hashTaken w.lib (contentHash f.text) (contentHash f.text) = true
      · rw [if_pos htaken]
        simpa [answer, moveDoc_self] using hd
      · rw [if_neg htaken]
        have howner : ∀ d, w.docs d = some (contentHash f.text) → d = (f.sourcePath, f.domain) := by
          intro d hd
          obtain ⟨n, hn, -⟩ := h.node d _ hd
          exact absurd (hnew.symm.trans hn) (by simp)
        have hrows : ∀ c, c.artifactId ≠ contentHash f.text →
            upsert w.lib.rows (contentHash f.text) (f.chunks (contentHash f.text)) c =
              w.lib.rows c := fun c hc => by simp [upsert, hc]
        exact write_independent howner hrows hd hne

end

theorem kept_empty : Kept World.empty := by
  constructor <;> simp [World.empty]

/-- Along a run in which no new text is the id of a node already there, every live
document owns its node, and each operation leaves the other documents alone. -/
theorem owned_of_clear (contentHash : String → String) (ops : List Op) (op : Op)
    (h : Along (step contentHash) (Clear contentHash) World.empty (ops ++ [op])) :
    Independent contentHash (ops.foldl (step contentHash) World.empty) op ∧
      Owned ((ops ++ [op]).foldl (step contentHash) World.empty) := by
  have hinv : ∀ w op, Kept w → Clear contentHash w op → Kept (step contentHash w op) :=
    fun _ _ hk hc => kept_step hk hc
  have hall := Along.invariant Kept hinv kept_empty h
  rw [along_append] at h
  have hbefore := Along.invariant Kept hinv kept_empty h.1
  exact ⟨independent_step hbefore h.2.1, hall.owned⟩

section Sample

/-- A file of one passage, in a folder where every file is in place. -/
def note (path text : String) : Source where
  sourcePath := "/notes/" ++ path
  filename := path
  domain := "general"
  text := text
  priorHashes := []
  chunks := fun _ => [{ digest := text, retrieveEligible := true }]
  files := { pathExists := fun _ => true, folderIsDir := fun _ => true }
  forceReindex := false
  hasPath := by
    intro h
    have hlen := congrArg String.length h
    rw [String.length_append] at hlen
    simp at hlen
  distinct := fun _ => by simp

/-- A stand-in for the digest, which tells the texts of the samples apart. -/
def sampleHash (text : String) : String := "sha256:" ++ text

/-- Two documents, one of them re-ingested with a text of its own. -/
def twoNotes : List Op :=
  [.ingest (note "p1.md" "A"), .ingest (note "p2.md" "B"), .ingest (note "p1.md" "C")]

theorem owned_of_clear_twoNotes :
    Independent sampleHash (twoNotes.foldl (step sampleHash) World.empty)
        (Op.delete ("/notes/p2.md", "general")) ∧
      Owned ((twoNotes ++ [Op.delete ("/notes/p2.md", "general")]).foldl (step sampleHash)
        World.empty) :=
  owned_of_clear sampleHash twoNotes (.delete ("/notes/p2.md", "general"))
    ⟨rfl, rfl, fun h => absurd h (by decide), trivial, trivial⟩

/-- A document is re-ingested with a new text, and another document brings its
first text: both are answered with one artifact. -/
theorem not_owned :
    ¬ Owned ([.ingest (note "p1.md" "A"), .ingest (note "p1.md" "B"),
      .ingest (note "p2.md" "A")].foldl (step sampleHash) World.empty) := by
  intro h
  have hsame := h.distinct ("/notes/p1.md", "general") ("/notes/p2.md", "general") "sha256:A"
    (by decide) (by decide)
  exact absurd hsame (by decide)

end Sample

end Cerid.Ingest
