import Cerid.Retrieval.Sparse

/-!
# A sparse index and its corpus

Every change of the index is written to the corpus of the domain: what an add brings in is
appended, after a removal or a renaming the corpus is written anew.  A reload starts from the
corpus.  A write that fails leaves the corpus as it was.

A line of the corpus is what `json.loads` makes of it.
-/

namespace Cerid.Retrieval.Sparse

/-- The index of a domain and the lines of its corpus. -/
structure Stored where
  index : SparseIndex
  corpus : List Entry

variable (defaultTenant : String)

/-- The line of a vector that an add has put into the index. -/
def addEntry (tenant : String) (acc : SparseIndex × List Entry) (p : String × Vec) :
    SparseIndex × List Entry :=
  if p.2.items = [] then acc
  else (acc.1.put p.1 p.2 tenant, acc.2 ++ [{ id := p.1, tenantId := some tenant, v := p.2 }])

/-- The chunks of a call that are not indexed yet and have a text.  Ids may be met twice. -/
def newChunks (idx : SparseIndex) (chunks : List (String × String)) : List (String × String) :=
  chunks.filter fun c => (idx.docs.get? c.1).isNone && !blank c.2

/-- `add_documents`; `encodeBatch` is `none` where the encoder fails or is not there. -/
def Stored.addDocuments (s : Stored) (chunks : List (String × String))
    (encodeBatch : List String → Option (List Vec)) (tenantId : Option String) (written : Bool) :
    Stored :=
  let new := newChunks s.index chunks
  if new = [] then s
  else match encodeBatch (new.map Prod.snd) with
    | none => s
    | some vectors =>
      let r := ((new.map Prod.fst).zip vectors).foldl (addEntry (tenantId.getD defaultTenant))
        (s.index, [])
      { index := r.1, corpus := if written then s.corpus ++ r.2 else s.corpus }

/-- What `_rewrite_disk` writes. -/
def corpusOf (idx : SparseIndex) : List Entry :=
  idx.docs.items.map fun d =>
    { id := d.1, tenantId := some (idx.tenantOf defaultTenant d.1), v := d.2 }

def Stored.rewriteDisk (s : Stored) (idx : SparseIndex) (written : Bool) : Stored where
  index := idx
  corpus := if written then corpusOf defaultTenant idx else s.corpus

def Stored.removeDocuments (s : Stored) (chunkIds : List String) (written : Bool) : Stored :=
  if chunkIds.filter (fun c => (s.index.docs.get? c).isSome) = [] then s
  else s.rewriteDisk defaultTenant (Sparse.removeDocuments s.index chunkIds) written

def Stored.rekey (s : Stored) (mapping : Dict String String) (written : Bool) : Stored :=
  if s.index.docs.keys.filter (fun c => (mapping.get? c).isSome) = [] then s
  else s.rewriteDisk defaultTenant (Sparse.rekey defaultTenant s.index mapping) written

def Stored.reload (s : Stored) : Stored := { s with index := Sparse.load defaultTenant s.corpus }

inductive Change where
  | addDocuments (chunks : List (String × String)) (encodeBatch : List String → Option (List Vec))
      (tenantId : Option String) (written : Bool)
  | removeDocuments (chunkIds : List String) (written : Bool)
  | rekey (mapping : Dict String String) (written : Bool)
  | reload

def Change.written : Change → Bool
  | .addDocuments _ _ _ written | .removeDocuments _ written | .rekey _ written => written
  | .reload => true

def Stored.step (s : Stored) : Change → Stored
  | .addDocuments chunks encodeBatch tenantId written =>
    s.addDocuments defaultTenant chunks encodeBatch tenantId written
  | .removeDocuments chunkIds written => s.removeDocuments defaultTenant chunkIds written
  | .rekey mapping written => s.rekey defaultTenant mapping written
  | .reload => s.reload defaultTenant

/-- The index of a corpus that is there, or of none. -/
def Stored.start (corpus : List Entry) : Stored where
  index := Sparse.load defaultTenant corpus
  corpus := corpus

/-! ## What the corpus should say -/

/-- The lists hold the documents and nothing else, and the corpus says what the index does. -/
structure Right (s : Stored) : Prop where
  transposed : ∀ tid id, (listed s.index.postings tid).filter (fun p => p.1 = id) =
    (((s.index.docs.get? id).bind fun vec => vec.get? tid).map fun w => (id, w)).toList
  docs : ∀ id, (Sparse.load defaultTenant s.corpus).docs.get? id = s.index.docs.get? id
  tenants : ∀ id,
    (Sparse.load defaultTenant s.corpus).docTenant.get? id = s.index.docTenant.get? id

/-- The vectors that an add puts into the index. -/
def encoded (idx : SparseIndex) (chunks : List (String × String))
    (encodeBatch : List String → Option (List Vec)) : List (String × Vec) :=
  let new := newChunks idx chunks
  match encodeBatch (new.map Prod.snd) with
  | none => []
  | some vectors => ((new.map Prod.fst).zip vectors).filter fun p => p.2.items ≠ []

/-- An add brings in no id twice and none that is empty, and nothing is renamed to the empty id. -/
def Named (s : Stored) : Change → Prop
  | .addDocuments chunks encodeBatch _ _ =>
    let ids := (encoded s.index chunks encodeBatch).map Prod.fst
    ids.Nodup ∧ "" ∉ ids
  | .rekey mapping _ => ∀ id ∈ s.index.docs.keys, mapping.get? id ≠ some ""
  | .removeDocuments _ _ | .reload => True

/-! ## Loading -/

/-- A line goes into the index, whatever is there. -/
def SparseIndex.enter (idx : SparseIndex) (e : Entry) : SparseIndex :=
  idx.put e.id e.v (e.tenantId.getD defaultTenant)

/-- Lines of which a load takes each. -/
structure Fresh (idx : SparseIndex) (entries : List Entry) : Prop where
  nodup : (entries.map Entry.id).Nodup
  named : ∀ e ∈ entries, e.id ≠ ""
  full : ∀ e ∈ entries, e.v.items ≠ []
  new : ∀ e ∈ entries, e.id ∉ idx.docs.keys

/-- An index as a load leaves it. -/
structure Regular (idx : SparseIndex) : Prop where
  postings : idx.postings = rebuildPostings idx.docs
  tenants : idx.docTenant.keys = idx.docs.keys
  named : "" ∉ idx.docs.keys
  full : ∀ d ∈ idx.docs.items, d.2.items ≠ []

section Loading

variable {defaultTenant} {idx : SparseIndex} {e : Entry} {entries : List Entry}

theorem Fresh.tail (h : Fresh idx (e :: entries)) : Fresh (idx.enter defaultTenant e) entries := by
  obtain ⟨hnew, hnodup⟩ := List.nodup_cons.mp h.nodup
  have hcons : ∀ x ∈ entries, x ∈ e :: entries := fun x hx => List.mem_cons_of_mem e hx
  refine ⟨hnodup, fun x hx => h.named x (hcons x hx), fun x hx => h.full x (hcons x hx),
    fun x hx hmem => ?_⟩
  have hkeys : x.id ∈ (idx.docs.set e.id e.v).keys := hmem
  rw [Dict.keys_set, if_neg (h.new e List.mem_cons_self)] at hkeys
  rcases List.mem_append.mp hkeys with hold | hold
  · exact h.new x (hcons x hx) hold
  · exact hnew (List.mem_singleton.mp hold ▸ List.mem_map_of_mem hx)

theorem foldl_loadEntry (h : Fresh idx entries) :
    entries.foldl (loadEntry defaultTenant) idx =
      entries.foldl (SparseIndex.enter defaultTenant) idx := by
  induction entries generalizing idx with
  | nil => rfl
  | cons e rest ih =>
    have hload : loadEntry defaultTenant idx e = idx.enter defaultTenant e := by
      have hnone := (Dict.get?_eq_none_iff idx.docs e.id).mpr (h.new e List.mem_cons_self)
      rw [loadEntry, if_neg, if_neg (by rw [hnone]; exact Bool.false_ne_true)]
      · rfl
      · rintro (hid | hv)
        · exact h.named e List.mem_cons_self hid
        · exact h.full e List.mem_cons_self hv
    rw [List.foldl_cons, List.foldl_cons, hload]
    exact ih h.tail

variable (defaultTenant) in
theorem postings_enter (entries : List Entry) (idx : SparseIndex) :
    (entries.foldl (SparseIndex.enter defaultTenant) idx).postings =
      (entries.map fun e => (e.id, e.v)).foldl (fun postings d => post postings d.1 d.2)
        idx.postings := by
  rw [List.foldl_map]
  exact (List.foldl_hom SparseIndex.postings fun _ _ => rfl).symm

variable (defaultTenant) in
theorem docs_enter (entries : List Entry) (idx : SparseIndex) :
    (entries.foldl (SparseIndex.enter defaultTenant) idx).docs =
      entries.foldl (fun docs e => docs.set e.id e.v) idx.docs :=
  (List.foldl_hom SparseIndex.docs fun _ _ => rfl).symm

variable (defaultTenant) in
theorem items_enter (h : Fresh idx entries) (ht : idx.docTenant.keys = idx.docs.keys) :
    (entries.foldl (SparseIndex.enter defaultTenant) idx).docs.items =
        idx.docs.items ++ entries.map (fun e => (e.id, e.v)) ∧
      (entries.foldl (SparseIndex.enter defaultTenant) idx).docTenant.items =
        idx.docTenant.items ++ entries.map (fun e => (e.id, e.tenantId.getD defaultTenant)) := by
  induction entries generalizing idx with
  | nil => simp
  | cons e rest ih =>
    have hnew := h.new e List.mem_cons_self
    have hnew' : e.id ∉ idx.docTenant.keys := ht ▸ hnew
    have hkeys : (idx.enter defaultTenant e).docTenant.keys =
        (idx.enter defaultTenant e).docs.keys := by
      show (idx.docTenant.set _ _).keys = (idx.docs.set _ _).keys
      rw [Dict.keys_set, Dict.keys_set, if_neg hnew, if_neg hnew', ht]
    obtain ⟨hdocs, htenants⟩ := ih h.tail hkeys
    rw [List.foldl_cons, hdocs, htenants]
    constructor
    · show (idx.docs.set e.id e.v).items ++ _ = _
      rw [Dict.items_set_of_not_mem _ hnew, List.append_assoc]
      rfl
    · show (idx.docTenant.set e.id _).items ++ _ = _
      rw [Dict.items_set_of_not_mem _ hnew', List.append_assoc]
      rfl

theorem regular_start : Regular .start where
  postings := rfl
  tenants := rfl
  named := List.not_mem_nil
  full _ h := absurd h List.not_mem_nil

theorem Regular.loadEntry (h : Regular idx) (e : Entry) :
    Regular (loadEntry defaultTenant idx e) := by
  unfold Sparse.loadEntry
  split
  · exact h
  · next hgood =>
    obtain ⟨hid, hv⟩ := not_or.mp hgood
    split
    · exact h
    · next hnone =>
      rw [Bool.not_eq_true, Option.isSome_eq_false_iff, Option.isNone_iff_eq_none] at hnone
      have hnew := (Dict.get?_eq_none_iff _ _).mp hnone
      have hitems := Dict.items_set_of_not_mem idx.docs hnew e.v
      have hnew' : e.id ∉ idx.docTenant.keys := h.tenants ▸ hnew
      refine ⟨?_, ?_, ?_, fun d hd => ?_⟩
      · show post idx.postings e.id e.v = (idx.docs.set e.id e.v).items.foldl _ _
        rw [hitems, List.foldl_append, h.postings]
        rfl
      · show (idx.docTenant.set _ _).keys = (idx.docs.set _ _).keys
        rw [Dict.keys_set, Dict.keys_set, if_neg hnew, if_neg hnew', h.tenants]
      · show "" ∉ (idx.docs.set e.id e.v).keys
        rw [Dict.keys_set, if_neg hnew, List.mem_append, List.mem_singleton]
        exact not_or.mpr ⟨h.named, Ne.symm hid⟩
      · have hd' : d ∈ (idx.docs.set e.id e.v).items := hd
        rw [hitems] at hd'
        rcases List.mem_append.mp hd' with hd' | hd'
        · exact h.full d hd'
        · rw [List.mem_singleton.mp hd']
          exact hv

theorem regular_load (entries : List Entry) : Regular (load defaultTenant entries) :=
  foldl_invariant (Sparse.loadEntry defaultTenant) Regular (p := fun _ => True)
    (fun _ e h _ => h.loadEntry e) regular_start fun _ _ => trivial

/-- What is written anew is read back as it was. -/
theorem load_corpusOf (h : Regular idx) :
    load defaultTenant (corpusOf defaultTenant idx) = idx := by
  have hids : (corpusOf defaultTenant idx).map Entry.id = idx.docs.keys := by
    rw [corpusOf, List.map_map]
    rfl
  have hfresh : Fresh .start (corpusOf defaultTenant idx) := by
    refine ⟨hids ▸ idx.docs.nodup, fun e he hid => ?_, fun e he => ?_, fun _ _ => List.not_mem_nil⟩
    · exact h.named (hids ▸ hid ▸ List.mem_map_of_mem he)
    · obtain ⟨d, hd, rfl⟩ := List.mem_map.mp he
      exact h.full d hd
  have hpairs : (corpusOf defaultTenant idx).map (fun e => (e.id, e.v)) = idx.docs.items := by
    rw [corpusOf, List.map_map]
    exact List.map_id _
  have htenants : (corpusOf defaultTenant idx).map
      (fun e => (e.id, e.tenantId.getD defaultTenant)) = idx.docTenant.items := by
    rw [Dict.items_eq_map_keys idx.docTenant (idx.tenantOf defaultTenant), h.tenants, Dict.keys,
      corpusOf, List.map_map, List.map_map]
    · rfl
    · intro id hid
      obtain ⟨tenant, hget⟩ := (Dict.mem_keys_iff _ _).mp hid
      rw [hget, SparseIndex.tenantOf, hget]
      rfl
  have hitems := items_enter defaultTenant hfresh rfl
  have hpostings := postings_enter defaultTenant (corpusOf defaultTenant idx) .start
  rw [hpairs, htenants] at hitems
  rw [hpairs] at hpostings
  rw [load, foldl_loadEntry hfresh]
  generalize (corpusOf defaultTenant idx).foldl (SparseIndex.enter defaultTenant) .start = loaded
    at hitems hpostings
  have hdocs : loaded.docs = idx.docs := Dict.ext_items hitems.1
  have hdocTenant : loaded.docTenant = idx.docTenant := Dict.ext_items hitems.2
  have hlists : loaded.postings = idx.postings := hpostings.trans h.postings.symm
  cases loaded
  cases idx
  simp only at hdocs hdocTenant hlists
  rw [hdocs, hdocTenant, hlists]

end Loading

/-! ## What each change leaves -/

/-- The corpus says what the index does, to the order of the lists. -/
def Synced (s : Stored) : Prop := Sparse.load defaultTenant s.corpus = s.index

/-- The line of a vector that is added. -/
def entryOf (tenant : String) (p : String × Vec) : Entry where
  id := p.1
  tenantId := some tenant
  v := p.2

section Changes

variable {defaultTenant} {s : Stored} {idx : SparseIndex}

variable (defaultTenant) in
theorem foldl_addEntry (tenant : String) (ps : List (String × Vec))
    (acc : SparseIndex × List Entry) : ps.foldl (addEntry tenant) acc =
      (((ps.filter fun p => p.2.items ≠ []).map (entryOf tenant)).foldl
          (SparseIndex.enter defaultTenant) acc.1,
        acc.2 ++ (ps.filter fun p => p.2.items ≠ []).map (entryOf tenant)) := by
  induction ps generalizing acc with
  | nil => simp
  | cons p rest ih =>
    rw [List.foldl_cons, ih]
    by_cases hp : p.2.items = []
    · rw [addEntry, if_pos hp, List.filter_cons_of_neg (by simpa using hp)]
    · rw [addEntry, if_neg hp, List.filter_cons_of_pos (by simpa using hp), List.map_cons,
        List.foldl_cons, List.append_assoc]
      rfl

/-- An add puts what was encoded at the end of the corpus and into the index. -/
theorem addDocuments_eq (chunks : List (String × String))
    (encodeBatch : List String → Option (List Vec)) (tenantId : Option String) :
    s.addDocuments defaultTenant chunks encodeBatch tenantId true =
      let entries := (encoded s.index chunks encodeBatch).map
        (entryOf (tenantId.getD defaultTenant))
      { index := entries.foldl (SparseIndex.enter defaultTenant) s.index
        corpus := s.corpus ++ entries } := by
  unfold Stored.addDocuments encoded
  simp only
  by_cases hnew : newChunks s.index chunks = []
  · rw [if_pos hnew, hnew, List.map_nil, List.map_nil]
    cases encodeBatch [] <;> simp
  · rw [if_neg hnew]
    cases encodeBatch ((newChunks s.index chunks).map Prod.snd) with
    | none => simp
    | some vectors =>
      simp only [foldl_addEntry defaultTenant, List.nil_append, if_true]

theorem of_mem_encoded {chunks : List (String × String)}
    {encodeBatch : List String → Option (List Vec)} {p : String × Vec}
    (hp : p ∈ encoded idx chunks encodeBatch) : p.1 ∉ idx.docs.keys ∧ p.2.items ≠ [] := by
  unfold encoded at hp
  simp only at hp
  split at hp
  · exact absurd hp List.not_mem_nil
  · obtain ⟨hzip, hfull⟩ := List.mem_filter.mp hp
    refine ⟨?_, by simpa using hfull⟩
    have hid : p.1 ∈ (newChunks idx chunks).map Prod.fst :=
      (map_fst_zip_isPrefix _ _).subset (List.mem_map_of_mem hzip)
    obtain ⟨c, hc, hce⟩ := List.mem_map.mp hid
    have hnone := (List.mem_filter.mp hc).2
    rw [Bool.and_eq_true, Option.isNone_iff_eq_none, hce] at hnone
    exact (Dict.get?_eq_none_iff _ _).mp hnone.1

theorem synced_append (h : Synced defaultTenant s) {entries : List Entry}
    (hfresh : Fresh s.index entries) : Synced defaultTenant
      { index := entries.foldl (SparseIndex.enter defaultTenant) s.index
        corpus := s.corpus ++ entries } := by
  show load defaultTenant (s.corpus ++ entries) = _
  have hload : s.corpus.foldl (loadEntry defaultTenant) .start = s.index := h
  rw [load, List.foldl_append, hload, foldl_loadEntry hfresh]

theorem synced_rewriteDisk (h : Regular idx) :
    Synced defaultTenant (s.rewriteDisk defaultTenant idx true) :=
  load_corpusOf h

theorem Synced.regular (h : Synced defaultTenant s) : Regular s.index :=
  h ▸ regular_load s.corpus

theorem regular_removeDocuments (h : Regular idx) (chunkIds : List String) :
    Regular (removeDocuments idx chunkIds) := by
  unfold removeDocuments
  simp only
  split
  · exact h
  · generalize chunkIds.filter _ = removeSet
    have hkeys : ∀ {α : Type} (d : Dict String α),
        (removeSet.foldl Dict.erase d).keys = d.keys.filter fun id => id ∉ removeSet := by
      intro α d
      rw [Dict.keys, Dict.keys, Dict.items_foldl_erase, List.filter_map]
      rfl
    refine ⟨rfl, ?_, ?_, fun d hd => ?_⟩
    · rw [hkeys, hkeys, h.tenants]
    · rw [hkeys]
      exact fun hmem => h.named (List.mem_of_mem_filter hmem)
    · rw [Dict.items_foldl_erase] at hd
      exact h.full d (List.mem_of_mem_filter hd)

/-- What a renaming has kept so far of the documents `docs`. -/
structure Renamed (docs : List (String × Vec)) (mapping : Dict String String)
    (acc : Dict String Vec × Dict String String) : Prop where
  tenants : acc.2.keys = acc.1.keys
  kept : ∀ d ∈ docs, (mapping.get? d.1).getD d.1 ∈ acc.1.keys
  origin : ∀ d ∈ acc.1.items, ∃ d' ∈ docs, d.1 = (mapping.get? d'.1).getD d'.1 ∧ d.2 = d'.2

variable (defaultTenant idx) in
theorem renamed_foldl (mapping : Dict String String) (docs : List (String × Vec)) :
    Renamed docs mapping (docs.foldl (rekeyStep defaultTenant idx mapping) (.empty, .empty)) := by
  induction docs using List.reverseRecOn with
  | nil => exact ⟨rfl, fun _ h => absurd h List.not_mem_nil, fun _ h => absurd h List.not_mem_nil⟩
  | append_singleton docs d ih =>
    rw [List.foldl_append, List.foldl_cons, List.foldl_nil]
    generalize docs.foldl (rekeyStep defaultTenant idx mapping) (.empty, .empty) = acc at ih
    have horigin : ∀ x ∈ acc.1.items, ∃ d' ∈ docs ++ [d],
        x.1 = (mapping.get? d'.1).getD d'.1 ∧ x.2 = d'.2 := by
      intro x hx
      obtain ⟨d', hd', h⟩ := ih.origin x hx
      exact ⟨d', List.mem_append_left _ hd', h⟩
    unfold rekeyStep
    simp only
    split
    · next hthere =>
      refine ⟨ih.tenants, fun x hx => ?_, horigin⟩
      rcases List.mem_append.mp hx with hx | hx
      · exact ih.kept x hx
      · obtain ⟨vec, hvec⟩ := Option.isSome_iff_exists.mp hthere
        rw [List.mem_singleton.mp hx]
        exact (Dict.mem_keys_iff _ _).mpr ⟨vec, hvec⟩
    · next hnot =>
      rw [Bool.not_eq_true, Option.isSome_eq_false_iff, Option.isNone_iff_eq_none] at hnot
      have hnew := (Dict.get?_eq_none_iff _ _).mp hnot
      have hnew' : (mapping.get? d.1).getD d.1 ∉ acc.2.keys := ih.tenants ▸ hnew
      refine ⟨?_, fun x hx => ?_, fun x hx => ?_⟩
      · rw [Dict.keys_set, Dict.keys_set, if_neg hnew, if_neg hnew', ih.tenants]
      · rw [Dict.keys_set, if_neg hnew]
        rcases List.mem_append.mp hx with hx | hx
        · exact List.mem_append_left _ (ih.kept x hx)
        · rw [List.mem_singleton.mp hx]
          exact List.mem_append_right _ List.mem_cons_self
      · rw [Dict.items_set_of_not_mem _ hnew] at hx
        rcases List.mem_append.mp hx with hx | hx
        · exact horigin x hx
        · rw [List.mem_singleton.mp hx]
          exact ⟨d, List.mem_append_right _ List.mem_cons_self, rfl, rfl⟩

theorem regular_rekey (h : Regular idx) (mapping : Dict String String)
    (hnamed : ∀ id ∈ idx.docs.keys, mapping.get? id ≠ some "") :
    Regular (rekey defaultTenant idx mapping) := by
  have hrenamed := renamed_foldl defaultTenant idx mapping idx.docs.items
  unfold rekey
  simp only
  split
  · exact h
  · refine ⟨rfl, hrenamed.tenants, fun hmem => ?_, fun d hd => ?_⟩
    · obtain ⟨d, hd, hempty⟩ := List.mem_map.mp hmem
      obtain ⟨d', hd', hid, -⟩ := hrenamed.origin d hd
      have hkey : d'.1 ∈ idx.docs.keys := List.mem_map_of_mem hd'
      rw [hempty] at hid
      cases hget : mapping.get? d'.1 with
      | none =>
        rw [hget, Option.getD_none] at hid
        exact h.named (hid ▸ hkey)
      | some new =>
        rw [hget, Option.getD_some] at hid
        exact hnamed d'.1 hkey (hid ▸ hget)
    · obtain ⟨d', hd', -, hvec⟩ := hrenamed.origin d hd
      rw [hvec]
      exact h.full d' hd'

theorem fresh_entries {chunks : List (String × String)}
    {encodeBatch : List String → Option (List Vec)} (tenant : String)
    (hnodup : ((encoded idx chunks encodeBatch).map Prod.fst).Nodup)
    (hnamed : "" ∉ (encoded idx chunks encodeBatch).map Prod.fst) :
    Fresh idx ((encoded idx chunks encodeBatch).map (entryOf tenant)) := by
  refine ⟨?_, fun e he hid => ?_, fun e he => ?_, fun e he => ?_⟩
  · rw [List.map_map]
    exact hnodup
  · obtain ⟨p, hp, rfl⟩ := List.mem_map.mp he
    exact hnamed (hid ▸ List.mem_map_of_mem (f := Prod.fst) hp)
  · obtain ⟨p, hp, rfl⟩ := List.mem_map.mp he
    exact (of_mem_encoded hp).2
  · obtain ⟨p, hp, rfl⟩ := List.mem_map.mp he
    exact (of_mem_encoded hp).1

theorem Synced.step (h : Synced defaultTenant s) {c : Change} (hwritten : c.written = true)
    (hnamed : Named s c) : Synced defaultTenant (s.step defaultTenant c) := by
  cases c with
  | addDocuments chunks encodeBatch tenantId written =>
    obtain rfl : written = true := hwritten
    rw [Stored.step, addDocuments_eq]
    exact synced_append h (fresh_entries _ hnamed.1 hnamed.2)
  | removeDocuments chunkIds written =>
    obtain rfl : written = true := hwritten
    rw [Stored.step, Stored.removeDocuments]
    split
    · exact h
    · exact synced_rewriteDisk (regular_removeDocuments h.regular chunkIds)
  | rekey mapping written =>
    obtain rfl : written = true := hwritten
    rw [Stored.step, Stored.rekey]
    split
    · exact h
    · exact synced_rewriteDisk (regular_rekey h.regular mapping hnamed)
  | reload => exact rfl

/-! ## What the corpus then says -/

/-- The entries of a document in the list of a token. -/
theorem filter_holders (docs : Dict String Vec) (tid : Nat) (id : String) :
    (holders docs.items tid).filter (fun p => p.1 = id) =
      (((docs.get? id).bind fun vec => vec.get? tid).map fun w => (id, w)).toList := by
  obtain ⟨items, hnd⟩ := docs
  show (holders items tid).filter _ =
    ((((items.find? fun p => p.1 = id).map Prod.snd).bind _).map _).toList
  induction items with
  | nil => rfl
  | cons d rest ih =>
    obtain ⟨hnew, hrest⟩ := List.nodup_cons.mp hnd
    rw [holders_cons, List.filter_append, ih hrest]
    by_cases hd : d.1 = id
    · have hnone : rest.find? (fun p => p.1 = id) = none :=
        find?_eq_none_of_not_mem Prod.fst (hd ▸ hnew)
      rw [hnone, List.find?_cons_of_pos (by simpa using hd)]
      cases hget : d.2.get? tid <;> simp [hd, hget]
    · rw [List.find?_cons_of_neg (by simpa using hd)]
      cases d.2.get? tid <;> simp [hd]

theorem Synced.right (h : Synced defaultTenant s) : Right defaultTenant s where
  transposed tid id := by
    have hlists : listed s.index.postings tid = holders s.index.docs.items tid := by
      rw [h.regular.postings]
      exact listed_foldl_post s.index.docs.items .empty tid
    rw [hlists, filter_holders]
  docs id := by rw [show load defaultTenant s.corpus = s.index from h]
  tenants id := by rw [show load defaultTenant s.corpus = s.index from h]

/-- An empty id is in no corpus. -/
theorem Right.named (h : Right defaultTenant s) : "" ∉ s.index.docs.keys := by
  rw [← Dict.get?_eq_none_iff, ← h.docs, Dict.get?_eq_none_iff]
  exact (regular_load s.corpus).named

theorem get?_foldl_docs (entries : List Entry) (docs : Dict String Vec) {id : String}
    (hid : id ∉ entries.map Entry.id) :
    (entries.foldl (fun docs e => docs.set e.id e.v) docs).get? id = docs.get? id := by
  induction entries generalizing docs with
  | nil => rfl
  | cons e rest ih =>
    rw [List.map_cons, List.mem_cons, not_or] at hid
    rw [List.foldl_cons, ih _ hid.2, Dict.get?_set, if_neg hid.1]

/-- An id that is met twice, up to where it is met last. -/
theorem split_of_not_nodup {entries : List Entry} (h : ¬ (entries.map Entry.id).Nodup) :
    ∃ front e back, entries = front ++ e :: back ∧ e.id ∈ front.map Entry.id ∧
      e.id ∉ back.map Entry.id := by
  induction entries using List.reverseRecOn with
  | nil => exact absurd List.nodup_nil h
  | append_singleton entries e ih =>
    by_cases hmem : e.id ∈ entries.map Entry.id
    · exact ⟨entries, e, [], rfl, hmem, List.not_mem_nil⟩
    · have hnot : ¬ (entries.map Entry.id).Nodup := by
        intro hnd
        refine h ?_
        rw [List.map_append, List.map_singleton, List.nodup_append]
        refine ⟨hnd, List.nodup_singleton _, fun a ha b hb hab => ?_⟩
        rw [hab, List.mem_singleton.mp hb] at ha
        exact hmem ha
      obtain ⟨front, x, back, rfl, hfront, hback⟩ := ih hnot
      refine ⟨front, x, back ++ [e], by simp, hfront, ?_⟩
      rw [List.map_append, List.mem_append, not_or]
      refine ⟨hback, fun he => hmem ?_⟩
      rw [← List.mem_singleton.mp he, List.map_append]
      exact List.mem_append_left _ hfront

/-- A document that is put twice is twice in the list of a token. -/
theorem nodup_of_right {entries : List Entry} (hfull : ∀ e ∈ entries, e.v.items ≠ [])
    {corpus : List Entry} (h : Right defaultTenant
      { index := entries.foldl (SparseIndex.enter defaultTenant) idx, corpus }) :
    (entries.map Entry.id).Nodup := by
  by_contra hnot
  obtain ⟨front, e, back, rfl, hfront, hback⟩ := split_of_not_nodup hnot
  obtain ⟨x, hx, hxe⟩ := List.mem_map.mp hfront
  obtain ⟨⟨tid, w⟩, hw⟩ := List.exists_mem_of_ne_nil _ (hfull x (List.mem_append_left _ hx))
  have hget : x.v.get? tid = some w := (Dict.mem_items_iff _ _ _).mp hw
  have htransposed := h.transposed tid e.id
  have hdoc : ((front ++ e :: back).foldl (SparseIndex.enter defaultTenant) idx).docs.get? e.id =
      some e.v := by
    rw [docs_enter, List.foldl_append, List.foldl_cons, get?_foldl_docs _ _ hback, Dict.get?_set,
      if_pos rfl]
  rw [hdoc, Option.bind_some, postings_enter, listed_foldl_post, List.map_append, List.map_cons,
    holders, List.filterMap_append, ← holders, ← holders, holders_cons] at htransposed
  have hown : (((e.v.get? tid).map fun w => (e.id, w)).toList.filter fun p => p.1 = e.id) =
      ((e.v.get? tid).map fun w => (e.id, w)).toList := by
    cases e.v.get? tid <;> simp
  have hmem : (e.id, w) ∈ (holders (front.map fun e => (e.id, e.v)) tid).filter
      fun p => p.1 = e.id := by
    refine List.mem_filter.mpr ⟨List.mem_filterMap.mpr ⟨(x.id, x.v), ?_, ?_⟩, by simp⟩
    · exact List.mem_map.mpr ⟨x, hx, rfl⟩
    · rw [hget, hxe]
      rfl
  have hpos := List.length_pos_of_mem hmem
  have hlength := congrArg List.length htransposed
  rw [List.filter_append, List.filter_append, List.filter_append, hown] at hlength
  simp only [List.length_append] at hlength
  omega

theorem mem_keys_enter (entries : List Entry) {e : Entry} (he : e ∈ entries) :
    e.id ∈ (entries.foldl (SparseIndex.enter defaultTenant) idx).docs.keys := by
  rw [docs_enter]
  induction entries using List.reverseRecOn with
  | nil => exact absurd he List.not_mem_nil
  | append_singleton entries x ih =>
    rw [List.foldl_append, List.foldl_cons, List.foldl_nil, Dict.keys_set]
    rcases List.mem_append.mp he with he | he
    · have hold := ih he
      split
      · exact hold
      · exact List.mem_append_left _ hold
    · rw [List.mem_singleton.mp he]
      split
      · assumption
      · exact List.mem_append_right _ List.mem_cons_self

theorem named_of_right {c : Change} (hwritten : c.written = true)
    (hright : Right defaultTenant (s.step defaultTenant c)) : Named s c := by
  cases c with
  | addDocuments chunks encodeBatch tenantId written =>
    obtain rfl : written = true := hwritten
    rw [Stored.step, addDocuments_eq] at hright
    constructor
    · have hnodup := nodup_of_right (fun e he => ?_) hright
      · rwa [List.map_map] at hnodup
      · obtain ⟨p, hp, rfl⟩ := List.mem_map.mp he
        exact (of_mem_encoded hp).2
    · intro hempty
      obtain ⟨p, hp, hid⟩ := List.mem_map.mp hempty
      refine hright.named ?_
      rw [← hid]
      exact mem_keys_enter _ (e := entryOf _ p) (List.mem_map_of_mem hp)
  | rekey mapping written =>
    obtain rfl : written = true := hwritten
    intro id hid hempty
    refine hright.named ?_
    obtain ⟨d, hd, rfl⟩ := List.mem_map.mp hid
    have hkept := (renamed_foldl defaultTenant s.index mapping s.index.docs.items).kept d hd
    rw [hempty, Option.getD_some] at hkept
    have hhits : s.index.docs.keys.filter (fun c => (mapping.get? c).isSome) ≠ [] := by
      refine List.ne_nil_of_mem (a := d.1) (List.mem_filter.mpr ⟨hid, ?_⟩)
      rw [hempty]
      rfl
    rw [Stored.step, Stored.rekey, if_neg hhits]
    show "" ∈ (rekey defaultTenant s.index mapping).docs.keys
    rw [rekey, if_neg hhits]
    exact hkept
  | removeDocuments chunkIds written => trivial
  | reload => trivial

end Changes

/-! ## Every run -/

theorem synced_start (corpus : List Entry) :
    Synced defaultTenant (Stored.start defaultTenant corpus) := rfl

/-- As long as no write fails: in every state that a run reaches the lists hold the documents
and the corpus says what the index does, if and only if no add brings in an id twice or an empty
one, and nothing is renamed to the empty id. -/
theorem right_iff_named (corpus : List Entry) (changes : List Change)
    (h : ∀ c ∈ changes, c.written = true) :
    (∀ before after, changes = before ++ after → Right defaultTenant
        (before.foldl (Stored.step defaultTenant) (Stored.start defaultTenant corpus))) ↔
      Along (Stored.step defaultTenant) Named (Stored.start defaultTenant corpus) changes := by
  generalize hs : Stored.start defaultTenant corpus = s
  have hsynced : Synced defaultTenant s := hs ▸ synced_start defaultTenant corpus
  clear hs
  induction changes generalizing s with
  | nil =>
    refine iff_of_true (fun before after heq => ?_) trivial
    obtain ⟨rfl, -⟩ := List.append_eq_nil_iff.mp heq.symm
    exact hsynced.right
  | cons c rest ih =>
    have hwritten := h c List.mem_cons_self
    have ih := ih (fun x hx => h x (List.mem_cons_of_mem c hx))
    constructor
    · intro hall
      have hnamed := named_of_right hwritten (hall [c] rest rfl)
      refine ⟨hnamed, (ih _ (hsynced.step hwritten hnamed)).mp fun before after heq => ?_⟩
      exact hall (c :: before) after (by rw [heq, List.cons_append])
    · rintro ⟨hnamed, hrest⟩ before after heq
      cases before with
      | nil => exact hsynced.right
      | cons x before =>
        obtain ⟨rfl, rfl⟩ := List.cons.inj heq
        exact (ih _ (hsynced.step hwritten hnamed)).mpr hrest before after rfl

/-- An add of two chunks under one id. -/
def twice : Change :=
  .addDocuments [("a", "alpha"), ("a", "beta")]
    (fun _ => some [Dict.empty.set 7 1, Dict.empty.set 7 2]) none true

/-- An add of one chunk, and a reload. -/
def once : List Change :=
  [.addDocuments [("a", "alpha")] (fun _ => some [Dict.empty.set 7 1]) none true, .reload]

theorem right_iff_named_once : Right "default"
    (once.foldl (Stored.step "default") (Stored.start "default" [])) :=
  (right_iff_named "default" [] once (by decide)).mpr ⟨⟨by decide, by decide⟩, trivial, trivial⟩
    once [] rfl

/-- The list of the token has the document twice. -/
theorem not_right_twice : ¬ ∀ (defaultTenant : String) (corpus : List Entry)
    (changes : List Change), (∀ c ∈ changes, c.written = true) →
      ∀ before after, changes = before ++ after → Right defaultTenant
        (before.foldl (Stored.step defaultTenant) (Stored.start defaultTenant corpus)) := by
  intro h
  have hlist := (h "default" [] [twice] (by decide) [twice] [] rfl).transposed 7 "a"
  revert hlist
  decide

end Cerid.Retrieval.Sparse
