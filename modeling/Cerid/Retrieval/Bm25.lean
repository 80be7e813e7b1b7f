import Cerid.Lib.Dict
import Cerid.Lib.Json
import Cerid.Lib.Text

/-!
# A keyword index and its corpus

One domain of the keyword index: parallel lists in memory, and a corpus file of one JSON
line a document that is appended to by an add and rewritten by a removal or a rename.  The
retriever is built from the lists later, when a search finds them changed; a search ranks by
the snapshot that was built last.

`json.dumps` writes ASCII, so a character of the corpus file is a byte.  A row whose
fields are not strings, which this index never writes, counts as one that does not load.
-/

namespace Cerid.Retrieval

open Text (joined fileLines strip)

/-! ## Rows -/

/-- A line of the corpus. -/
structure Row where
  id : String
  text : String
  tenantId : String
deriving DecidableEq, Repr

def Row.toJson (r : Row) : Json :=
  .obj [("id", .str r.id), ("text", .str r.text), ("tenant_id", .str r.tenantId)]

def Row.line (r : Row) : List Char := Json.dumps r.toJson

def payload (rows : List Row) : List Char := joined (rows.map Row.line) []

/-- `not text or not text.strip()`. -/
def blank (text : String) : Bool := (strip text.toList).isEmpty

/-! ## The index -/

/-- The fields of `BM25Index`.  The retriever of the snapshot is the texts it was built
from. -/
structure Index where
  texts : List String
  docIds : List String
  docIdSet : List String
  docTenant : Dict String String
  snapshot : Option (List String) × List String
  dirty : Bool
  staleIds : List String
  lastRebuild : Nat

/-- A domain: the index in memory, and the corpus file. -/
structure Domain where
  index : Index
  file : List Char

def Index.start : Index where
  texts := []
  docIds := []
  docIdSet := []
  docTenant := .empty
  snapshot := (none, [])
  dirty := false
  staleIds := []
  lastRebuild := 0

def Domain.start : Domain := { index := .start, file := [] }

variable (defaultTenant : String)

/-- The entries `_rewrite_disk` writes. -/
def Index.rows (idx : Index) : List Row :=
  (idx.docIds.zip idx.texts).map (fun p =>
    { id := p.1, text := p.2, tenantId := (idx.docTenant.get? p.1).getD defaultTenant })

/-- One document goes into the four fields of the index. -/
def Index.push (idx : Index) (r : Row) : Index :=
  { idx with
    texts := idx.texts ++ [r.text]
    docIds := idx.docIds ++ [r.id]
    docIdSet := idx.docIdSet.insert r.id
    docTenant := idx.docTenant.set r.id r.tenantId }

/-- One round of the loop of `add_documents`. -/
def addDocument (tenant : String) (acc : Index × List Row) (p : String × String) :
    Index × List Row :=
  if p.1 ∈ acc.1.docIdSet then acc
  else if blank p.2 then acc
  else
    let r : Row := { id := p.1, text := p.2, tenantId := tenant }
    (acc.1.push r, acc.2 ++ [r])

/-- `add_documents` up to the disk: the index, and the entries to append. -/
def addEntries (idx : Index) (chunkIds texts : List String) (tenantId : Option String) :
    Index × List Row :=
  let r := (chunkIds.zip texts).foldl (addDocument (tenantId.getD defaultTenant)) (idx, [])
  (if r.2 = [] then r.1 else { r.1 with dirty := true }, r.2)

def addDocuments (w : Domain) (chunkIds texts : List String) (tenantId : Option String) : Domain :=
  let r := addEntries defaultTenant w.index chunkIds texts tenantId
  { index := r.1, file := w.file ++ payload r.2 }

/-- `_rewrite_disk`. -/
def rewriteDisk (idx : Index) : Domain := { index := idx, file := payload (idx.rows defaultTenant) }

/-- The index over other pairs of ids and texts, with the ids that its snapshot has lost. -/
def Index.relist (idx : Index) (kept : List (String × String)) (tenants : Dict String String)
    (lost : List String) : Index :=
  { idx with
    texts := kept.map Prod.snd
    docIds := kept.map Prod.fst
    docIdSet := kept.map Prod.fst
    docTenant := tenants
    staleIds := idx.staleIds ++ lost
    dirty := true }

def removeDocuments (w : Domain) (chunkIds : List String) : Domain :=
  let removeSet := chunkIds.filter (· ∈ w.index.docIdSet)
  if removeSet = [] then w
  else
    let kept := (w.index.docIds.zip w.index.texts).filter (fun p => p.1 ∉ removeSet)
    rewriteDisk defaultTenant
      (w.index.relist kept (removeSet.foldl Dict.erase w.index.docTenant) removeSet)

/-- One round of the loop of `rekey`, over the kept texts and ids and the tenants. -/
def rekeyStep (idx : Index) (mapping : Dict String String)
    (acc : List (String × String) × Dict String String) (p : String × String) :
    List (String × String) × Dict String String :=
  let new := (mapping.get? p.1).getD p.1
  if new ∈ acc.1.map Prod.fst then acc
  else (acc.1 ++ [(new, p.2)], acc.2.set new ((idx.docTenant.get? p.1).getD defaultTenant))

def rekey (w : Domain) (mapping : Dict String String) : Domain :=
  let hits := w.index.docIds.filter (fun id => (mapping.get? id).isSome)
  if hits = [] then w
  else
    let r := (w.index.docIds.zip w.index.texts).foldl (rekeyStep defaultTenant w.index mapping)
      ([], .empty)
    rewriteDisk defaultTenant (w.index.relist r.1 r.2 hits)

/-! ## Rebuilding and loading -/

/-- `_rebuild_locked`. -/
def rebuildLocked (now : Nat) (idx : Index) : Index :=
  { idx with
    snapshot := if idx.texts = [] then (none, []) else (some idx.texts, idx.docIds)
    staleIds := []
    dirty := false
    lastRebuild := now }

def strOf : Json → Option String
  | .str s => some s
  | _ => none

/-- The text of an entry, in the format with texts or the one with tokens; `none` is a
value that makes the load fail, `some none` an entry without either. -/
def entryText (entry : Json) : Option (Option String) :=
  match entry.get? "text", entry.get? "tokens" with
  | some v, _ => (strOf v).map some
  | none, some (.arr tokens) => (tokens.mapM strOf).map (fun ts => some (" ".intercalate ts))
  | none, some _ => none
  | none, none => some none

def entryTenant (entry : Json) : Option String :=
  match entry.get? "tenant_id" with
  | some v => strOf v
  | none => some defaultTenant

def loadEntry (idx : Index) (entry : Json) : Option Index :=
  match (entry.get? "id").bind strOf with
  | none => none
  | some chunkId =>
    if chunkId ∈ idx.docIdSet then some idx
    else match entryText entry with
      | none => none
      | some none => some idx
      | some (some text) => (entryTenant defaultTenant entry).map (fun tenantId =>
          idx.push { id := chunkId, text, tenantId })

/-- One line of the loop of `_load`; `none` is an exception, which ends the load. -/
def loadLine (idx : Index) (line : List Char) : Option Index :=
  if strip line = [] then some idx
  else (Json.loads (strip line)).bind (loadEntry defaultTenant idx)

/-- `_load` into an empty index. -/
def load (now : Nat) (file : List Char) : Index :=
  match (fileLines file).foldlM (loadLine defaultTenant) Index.start with
  | some idx => rebuildLocked now idx
  | none => Index.start

/-- What a new process, or `rebuild_all`, makes of the corpus. -/
def reload (now : Nat) (w : Domain) : Domain :=
  { index := load defaultTenant now w.file, file := w.file }

/-- The worker thread. -/
def rebuild (now : Nat) (idx : Index) : Index := if idx.dirty then rebuildLocked now idx else idx

/-- `_maybe_rebuild`.  The first build is made in place; a later one by a worker, which is
done when the search goes on (`waited`) or not yet. -/
def maybeRebuild (debounce now : Nat) (waited : Bool) (idx : Index) : Index :=
  if idx.dirty = false then idx
  else if idx.snapshot.1 = none then rebuild now idx
  else if now - idx.lastRebuild < debounce then idx
  else if waited then rebuild now idx
  else idx

/-! ## Runs -/

inductive Op where
  | addDocuments (chunkIds texts : List String) (tenantId : Option String)
  | removeDocuments (chunkIds : List String)
  | rekey (mapping : Dict String String)
  | search (query : String) (topK : Nat) (tenantId : Option String) (now : Nat) (waited : Bool)
  | rebuild (now : Nat)
  | reload (now : Nat)

/-- One operation; a worker that a search did not wait for is a step of its own. -/
def Domain.step (debounce : Nat) (w : Domain) : Op → Domain
  | .addDocuments chunkIds texts tenantId => addDocuments defaultTenant w chunkIds texts tenantId
  | .removeDocuments chunkIds => removeDocuments defaultTenant w chunkIds
  | .rekey mapping => rekey defaultTenant w mapping
  | .search _ _ _ now waited => { w with index := maybeRebuild debounce now waited w.index }
  | .rebuild now => { w with index := rebuild now w.index }
  | .reload now => reload defaultTenant now w

/-! ## The lists of an index -/

variable {idx : Index}

/-- The fields of an index fit together. -/
structure Index.Aligned (idx : Index) : Prop where
  length : idx.texts.length = idx.docIds.length
  set : ∀ id, id ∈ idx.docIdSet ↔ id ∈ idx.docIds
  nodup : idx.docIds.Nodup
  tenant : ∀ id ∈ idx.docIds, ∃ t, idx.docTenant.get? id = some t

theorem aligned_start : Index.start.Aligned := ⟨rfl, fun _ => Iff.rfl, List.nodup_nil, nofun⟩

theorem Index.Aligned.ids (h : idx.Aligned) : (idx.rows defaultTenant).map Row.id = idx.docIds := by
  rw [Index.rows, List.map_map]
  exact List.map_fst_zip h.length.ge

theorem rows_push {r : Row} (h : idx.Aligned) (hr : r.id ∉ idx.docIds) :
    (idx.push r).rows defaultTenant = idx.rows defaultTenant ++ [r] := by
  simp only [Index.rows, Index.push]
  rw [List.zip_append h.length.symm, List.map_append]
  have hold : ∀ p ∈ idx.docIds.zip idx.texts, ({
      id := p.1, text := p.2
      tenantId := ((idx.docTenant.set r.id r.tenantId).get? p.1).getD defaultTenant } : Row) =
      { id := p.1, text := p.2, tenantId := (idx.docTenant.get? p.1).getD defaultTenant } := by
    intro p hp
    have hne : p.1 ≠ r.id := fun he => hr (he ▸ (List.of_mem_zip hp).1)
    rw [Dict.get?_set, if_neg hne]
  rw [List.map_congr_left hold]
  simp

theorem aligned_push {r : Row} (h : idx.Aligned) (hr : r.id ∉ idx.docIds) : (idx.push r).Aligned where
  length := by simp [Index.push, h.length]
  set id := by simp [Index.push, h.set, or_comm]
  nodup := by
    refine List.nodup_append.mpr ⟨h.nodup, List.nodup_singleton _, fun a ha b hb => ?_⟩
    rw [List.mem_singleton.mp hb]
    rintro rfl
    exact hr ha
  tenant id hid := by
    simp only [Index.push, Dict.get?_set]
    split
    · exact ⟨_, rfl⟩
    · next hne =>
      rcases List.mem_append.mp hid with hid | hid
      · exact h.tenant id hid
      · exact absurd (List.mem_singleton.mp hid) hne

/-! ## What the operations do to the rows -/

/-- One document is added to rows. -/
def addRow (tenant : String) (rows : List Row) (p : String × String) : List Row :=
  if p.1 ∈ rows.map Row.id then rows
  else if blank p.2 then rows
  else rows ++ [{ id := p.1, text := p.2, tenantId := tenant }]

def addRows (defaultTenant : String) (rows : List Row) (chunkIds texts : List String)
    (tenantId : Option String) : List Row :=
  (chunkIds.zip texts).foldl (addRow (tenantId.getD defaultTenant)) rows

def removeRows (rows : List Row) (chunkIds : List String) : List Row :=
  rows.filter (fun r => r.id ∉ chunkIds)

def rekeyRow (mapping : Dict String String) (rows : List Row) (r : Row) : List Row :=
  let new := (mapping.get? r.id).getD r.id
  if new ∈ rows.map Row.id then rows else rows ++ [{ r with id := new }]

def rekeyRows (rows : List Row) (mapping : Dict String String) : List Row :=
  rows.foldl (rekeyRow mapping) []

theorem addDocument_rows (tenant : String) {acc : Index × List Row} (h : acc.1.Aligned)
    (p : String × String) :
    (addDocument tenant acc p).1.Aligned ∧
      (addDocument tenant acc p).1.rows defaultTenant = addRow tenant (acc.1.rows defaultTenant) p ∧
      ∀ rows, acc.1.rows defaultTenant = rows ++ acc.2 →
        (addDocument tenant acc p).1.rows defaultTenant = rows ++ (addDocument tenant acc p).2 := by
  unfold addDocument addRow
  rw [h.ids defaultTenant]
  by_cases hid : p.1 ∈ acc.1.docIdSet
  · rw [if_pos hid, if_pos ((h.set _).mp hid)]
    exact ⟨h, rfl, fun _ hrows => hrows⟩
  · have hnew : p.1 ∉ acc.1.docIds := fun hmem => hid ((h.set _).mpr hmem)
    rw [if_neg hid, if_neg hnew]
    by_cases hb : blank p.2 = true
    · rw [if_pos hb, if_pos hb]
      exact ⟨h, rfl, fun _ hrows => hrows⟩
    · rw [if_neg hb, if_neg hb]
      refine ⟨aligned_push h hnew, rows_push defaultTenant h hnew, fun rows hrows => ?_⟩
      rw [rows_push defaultTenant h hnew, hrows, List.append_assoc]

theorem foldl_addDocument (tenant : String) (ps : List (String × String)) {acc : Index × List Row}
    (h : acc.1.Aligned) :
    (ps.foldl (addDocument tenant) acc).1.Aligned ∧
      (ps.foldl (addDocument tenant) acc).1.rows defaultTenant =
        ps.foldl (addRow tenant) (acc.1.rows defaultTenant) ∧
      ∀ rows, acc.1.rows defaultTenant = rows ++ acc.2 →
        (ps.foldl (addDocument tenant) acc).1.rows defaultTenant =
          rows ++ (ps.foldl (addDocument tenant) acc).2 := by
  induction ps generalizing acc with
  | nil => exact ⟨h, rfl, fun _ hrows => hrows⟩
  | cons p rest ih =>
    obtain ⟨hp, hrows, happend⟩ := addDocument_rows defaultTenant tenant h p
    obtain ⟨hrest, hrows', happend'⟩ := ih hp
    refine ⟨hrest, ?_, fun rows hr => happend' rows (happend rows hr)⟩
    rw [List.foldl_cons, List.foldl_cons, ← hrows]
    exact hrows'

/-- What an add leaves in the index, and that its entries are what came new. -/
theorem addEntries_rows (h : idx.Aligned) (chunkIds texts : List String) (tenantId : Option String) :
    (addEntries defaultTenant idx chunkIds texts tenantId).1.Aligned ∧
      (addEntries defaultTenant idx chunkIds texts tenantId).1.rows defaultTenant =
        addRows defaultTenant (idx.rows defaultTenant) chunkIds texts tenantId ∧
      (addEntries defaultTenant idx chunkIds texts tenantId).1.rows defaultTenant =
        idx.rows defaultTenant ++ (addEntries defaultTenant idx chunkIds texts tenantId).2 := by
  obtain ⟨ha, hrows, happend⟩ := foldl_addDocument defaultTenant
    (tenantId.getD defaultTenant) (chunkIds.zip texts) (show (idx, ([] : List Row)).1.Aligned from h)
  have happend := happend (idx.rows defaultTenant) (List.append_nil _).symm
  unfold addEntries
  simp only
  split
  · exact ⟨ha, hrows, happend⟩
  · exact ⟨⟨ha.length, ha.set, ha.nodup, ha.tenant⟩, hrows, happend⟩

theorem rows_relist (kept : List (String × String)) (tenants : Dict String String)
    (lost : List String) :
    (idx.relist kept tenants lost).rows defaultTenant = kept.map (fun p =>
      { id := p.1, text := p.2, tenantId := (tenants.get? p.1).getD defaultTenant }) := by
  have hzip : (kept.map Prod.fst).zip (kept.map Prod.snd) = kept :=
    List.zip_map'.trans (List.map_id kept)
  simp only [Index.rows, Index.relist, hzip]

theorem aligned_relist {kept : List (String × String)} {tenants : Dict String String}
    (lost : List String) (hnd : (kept.map Prod.fst).Nodup)
    (ht : ∀ p ∈ kept, ∃ t, tenants.get? p.1 = some t) : (idx.relist kept tenants lost).Aligned where
  length := by simp [Index.relist]
  set _ := Iff.rfl
  nodup := hnd
  tenant id hid := by
    obtain ⟨p, hp, rfl⟩ := List.mem_map.mp hid
    exact ht p hp

/-- The pair of a row that an index has. -/
theorem mem_docIds_of_zip {p : String × String} (h : p ∈ idx.docIds.zip idx.texts) :
    p.1 ∈ idx.docIds := (List.of_mem_zip h).1

theorem removeDocuments_rows {w : Domain} (h : w.index.Aligned) (chunkIds : List String) :
    (removeDocuments defaultTenant w chunkIds).index.Aligned ∧
      (removeDocuments defaultTenant w chunkIds).index.rows defaultTenant =
        removeRows (w.index.rows defaultTenant) chunkIds := by
  have hmem : ∀ p ∈ w.index.docIds.zip w.index.texts,
      (p.1 ∈ chunkIds.filter (· ∈ w.index.docIdSet) ↔ p.1 ∈ chunkIds) := by
    intro p hp
    rw [List.mem_filter, decide_eq_true_eq, h.set]
    exact and_iff_left (mem_docIds_of_zip hp)
  unfold removeDocuments
  simp only
  split
  · next hnone =>
    refine ⟨h, (List.filter_eq_self.mpr fun r hr => ?_).symm⟩
    obtain ⟨p, hp, rfl⟩ := List.mem_map.mp hr
    rw [decide_eq_true_eq, ← hmem p hp, hnone]
    exact List.not_mem_nil
  · have hkept : (w.index.docIds.zip w.index.texts).filter
        (fun p => p.1 ∉ chunkIds.filter (· ∈ w.index.docIdSet)) =
        (w.index.docIds.zip w.index.texts).filter (fun p => p.1 ∉ chunkIds) :=
      List.filter_congr (fun p hp => decide_eq_decide.mpr (not_congr (hmem p hp)))
    have htenant : ∀ p ∈ (w.index.docIds.zip w.index.texts).filter (fun p => p.1 ∉ chunkIds),
        ((chunkIds.filter (· ∈ w.index.docIdSet)).foldl Dict.erase w.index.docTenant).get? p.1 =
          w.index.docTenant.get? p.1 := by
      intro p hp
      rw [List.mem_filter, decide_eq_true_eq] at hp
      rw [Dict.get?_foldl_erase, if_neg (fun hm => hp.2 ((hmem p hp.1).mp hm))]
    rw [hkept]
    refine ⟨aligned_relist _ ?_ (fun p hp => ?_), ?_⟩
    · refine List.Nodup.sublist (List.filter_sublist.map Prod.fst) ?_
      rw [List.map_fst_zip h.length.ge]
      exact h.nodup
    · rw [htenant p hp]
      exact h.tenant p.1 (mem_docIds_of_zip (List.mem_of_mem_filter hp))
    · show ((w.index.relist _ _ _).rows defaultTenant) = _
      rw [rows_relist, removeRows, Index.rows, List.filter_map]
      exact List.map_congr_left (fun p hp => by rw [htenant p hp])

theorem rekey_rows_aux (idx : Index) (mapping : Dict String String) (ps : List (String × String))
    (acc : List (String × String) × Dict String String) {rows : List Row}
    (hrows : acc.1.map (fun p => ({
      id := p.1, text := p.2, tenantId := (acc.2.get? p.1).getD defaultTenant } : Row)) = rows)
    (hnd : (acc.1.map Prod.fst).Nodup) (ht : ∀ p ∈ acc.1, ∃ t, acc.2.get? p.1 = some t) :
    let r := ps.foldl (rekeyStep defaultTenant idx mapping) acc
    r.1.map (fun p => ({
      id := p.1, text := p.2, tenantId := (r.2.get? p.1).getD defaultTenant } : Row)) =
      (ps.map (fun p => ({
        id := p.1, text := p.2, tenantId := (idx.docTenant.get? p.1).getD defaultTenant } : Row))).foldl
        (rekeyRow mapping) rows ∧
      (r.1.map Prod.fst).Nodup ∧ ∀ p ∈ r.1, ∃ t, r.2.get? p.1 = some t := by
  induction ps generalizing acc rows with
  | nil => exact ⟨hrows, hnd, ht⟩
  | cons p rest ih =>
    have hids : rows.map Row.id = acc.1.map Prod.fst := by
      rw [← hrows, List.map_map]
      rfl
    rw [List.foldl_cons, List.map_cons, List.foldl_cons]
    by_cases hnew : (mapping.get? p.1).getD p.1 ∈ acc.1.map Prod.fst
    · have hstep : rekeyStep defaultTenant idx mapping acc p = acc := by
        rw [rekeyStep]
        exact if_pos hnew
      rw [hstep]
      refine ih _ ?_ hnd ht
      rw [rekeyRow, hids, if_pos hnew]
      exact hrows
    · have hstep : rekeyStep defaultTenant idx mapping acc p =
          (acc.1 ++ [((mapping.get? p.1).getD p.1, p.2)],
            acc.2.set ((mapping.get? p.1).getD p.1)
              ((idx.docTenant.get? p.1).getD defaultTenant)) := by
        rw [rekeyStep]
        exact if_neg hnew
      have hother : ∀ q ∈ acc.1, q.1 ≠ (mapping.get? p.1).getD p.1 := by
        intro q hq he
        exact hnew (he ▸ List.mem_map_of_mem hq)
      rw [hstep]
      refine ih _ ?_ ?_ ?_
      · rw [rekeyRow, hids, if_neg hnew, List.map_append, ← hrows]
        congr 1
        · exact List.map_congr_left (fun q hq => by rw [Dict.get?_set, if_neg (hother q hq)])
        · simp
      · rw [List.map_append]
        refine List.nodup_append.mpr ⟨hnd, List.nodup_singleton _, fun a ha b hb => ?_⟩
        rw [List.mem_singleton.mp hb]
        rintro rfl
        exact hnew ha
      · intro q hq
        rw [Dict.get?_set]
        split
        · exact ⟨_, rfl⟩
        · next hne =>
          rcases List.mem_append.mp hq with hq | hq
          · exact ht q hq
          · exact absurd (congrArg Prod.fst (List.mem_singleton.mp hq)) hne

theorem rekeyRows_none {mapping : Dict String String} {rows : List Row}
    (hnd : (rows.map Row.id).Nodup) (h : ∀ r ∈ rows, mapping.get? r.id = none) :
    rekeyRows rows mapping = rows := by
  have hfold : ∀ rest done : List Row, done ++ rest = rows →
      rest.foldl (rekeyRow mapping) done = rows := by
    intro rest
    induction rest with
    | nil => exact fun done heq => (List.append_nil done).symm.trans heq
    | cons r rest ih =>
      intro done heq
      have hr : mapping.get? r.id = none := h r (by rw [← heq]; simp)
      have hnew : r.id ∉ done.map Row.id := by
        rw [← heq, List.map_append, List.map_cons] at hnd
        intro hmem
        exact (List.nodup_append.mp hnd).2.2 r.id hmem r.id List.mem_cons_self rfl
      rw [List.foldl_cons, rekeyRow, hr, Option.getD_none, if_neg hnew]
      exact ih (done ++ [r]) (by rw [List.append_assoc]; exact heq)
  exact hfold rows [] rfl

theorem rekey_rows {w : Domain} (h : w.index.Aligned) (mapping : Dict String String) :
    (rekey defaultTenant w mapping).index.Aligned ∧
      (rekey defaultTenant w mapping).index.rows defaultTenant =
        rekeyRows (w.index.rows defaultTenant) mapping := by
  unfold rekey
  simp only
  split
  · next hnone =>
    refine ⟨h, (rekeyRows_none (by rw [h.ids defaultTenant]; exact h.nodup) fun r hr => ?_).symm⟩
    obtain ⟨p, hp, rfl⟩ := List.mem_map.mp hr
    have hget := List.filter_eq_nil_iff.mp hnone p.1 (mem_docIds_of_zip hp)
    rw [Bool.not_eq_true, Option.isSome_eq_false_iff, Option.isNone_iff_eq_none] at hget
    exact hget
  · obtain ⟨hrows, hnd, ht⟩ := rekey_rows_aux defaultTenant w.index mapping
      (w.index.docIds.zip w.index.texts) ([], .empty) rfl List.nodup_nil nofun
    exact ⟨aligned_relist _ hnd ht, (rows_relist defaultTenant _ _ _).trans hrows⟩

/-! ## The corpus file -/

theorem payload_append (a b : List Row) : payload a ++ payload b = payload (a ++ b) := by
  rw [payload, payload, payload, List.map_append, Text.joined_append]

/-- A removal or a rename rewrites the corpus, or changes nothing. -/
theorem removeDocuments_file (w : Domain) (chunkIds : List String) :
    removeDocuments defaultTenant w chunkIds = w ∨
      (removeDocuments defaultTenant w chunkIds).file =
        payload ((removeDocuments defaultTenant w chunkIds).index.rows defaultTenant) := by
  unfold removeDocuments
  simp only
  split
  · exact Or.inl rfl
  · exact Or.inr rfl

theorem rekey_file (w : Domain) (mapping : Dict String String) :
    rekey defaultTenant w mapping = w ∨
      (rekey defaultTenant w mapping).file =
        payload ((rekey defaultTenant w mapping).index.rows defaultTenant) := by
  unfold rekey
  simp only
  split
  · exact Or.inl rfl
  · exact Or.inr rfl

theorem written_row (r : Row) : ∀ m ∈ [("id", Json.str r.id), ("text", Json.str r.text),
    ("tenant_id", Json.str r.tenantId)], Json.Written m.2 := by
  simp only [List.forall_mem_cons, List.not_mem_nil, false_implies, implies_true, and_true]
  exact ⟨Json.written_str _, Json.written_str _, Json.written_str _⟩

theorem loads_line (r : Row) : Json.loads r.line = some r.toJson :=
  Json.loads_dumps (Json.written_obj (written_row r))

theorem printable_row (r : Row) : Json.Printable r.line :=
  (Json.written_obj (written_row r)).printable

/-- A line starts and ends with a brace. -/
theorem row_line_eq (r : Row) : ∃ cs, r.line = '\x7b' :: (cs ++ ['\x7d']) := by
  rw [Row.line, Row.toJson, Json.dumps]
  exact ⟨_, rfl⟩

theorem strip_line (r : Row) : strip r.line = r.line := by
  obtain ⟨cs, h⟩ := row_line_eq r
  rw [h, strip, List.dropWhile_cons_of_neg (by decide), ← List.cons_append,
    List.rdropWhile_concat_neg _ _ _ (by decide)]

/-- A row that is read. -/
def loadRow (idx : Index) (r : Row) : Index := if r.id ∈ idx.docIdSet then idx else idx.push r

theorem loadLine_line (idx : Index) (r : Row) :
    loadLine defaultTenant idx r.line = some (loadRow idx r) := by
  obtain ⟨cs, hcs⟩ := row_line_eq r
  have hne : strip r.line ≠ [] := by
    rw [strip_line, hcs]
    exact List.cons_ne_nil _ _
  have hid : (r.toJson.get? "id").bind strOf = some r.id := rfl
  have htext : entryText r.toJson = some (some r.text) := rfl
  have htenant : entryTenant defaultTenant r.toJson = some r.tenantId := rfl
  rw [loadLine, if_neg hne, strip_line, loads_line, Option.bind_some, loadEntry, hid, htext,
    htenant, loadRow]
  simp only [Option.map_some]
  split
  · rfl
  · rfl

theorem foldlM_loadLine (rows : List Row) (idx : Index) :
    (rows.map Row.line).foldlM (loadLine defaultTenant) idx = some (rows.foldl loadRow idx) := by
  induction rows generalizing idx with
  | nil => rfl
  | cons r rest ih =>
    rw [List.map_cons, List.foldlM_cons, loadLine_line]
    exact ih (loadRow idx r)

/-- Rows of distinct ids are all read. -/
theorem foldl_loadRow (h : idx.Aligned) (rows : List Row)
    (hnd : (idx.rows defaultTenant ++ rows).map Row.id |>.Nodup) :
    (rows.foldl loadRow idx).Aligned ∧
      (rows.foldl loadRow idx).rows defaultTenant = idx.rows defaultTenant ++ rows := by
  induction rows generalizing idx with
  | nil => exact ⟨h, (List.append_nil _).symm⟩
  | cons r rest ih =>
    have hnew : r.id ∉ idx.docIds := by
      rw [← h.ids defaultTenant]
      rw [List.map_append, List.map_cons] at hnd
      intro hmem
      exact (List.nodup_append.mp hnd).2.2 r.id hmem r.id List.mem_cons_self rfl
    have hstep : loadRow idx r = idx.push r := by
      rw [loadRow, if_neg (fun hm => hnew ((h.set _).mp hm))]
    rw [List.foldl_cons, hstep]
    rw [List.append_cons, ← rows_push defaultTenant h hnew] at hnd ⊢
    exact ih (aligned_push h hnew) hnd

theorem not_break {cs : List Char} (h : Json.Printable cs) :
    ∀ c ∈ cs, decide (c ∈ ['\n', '\r']) = false := by
  intro c hc
  rw [decide_eq_false_iff_not]
  intro hmem
  simp only [List.mem_cons, List.not_mem_nil, or_false] at hmem
  rcases hmem with rfl | rfl
  all_goals exact absurd (h _ hc) (by decide)

theorem fileLines_joined (rows : List Row) {tail : List Char} (h : Json.Printable tail) :
    fileLines (joined (rows.map Row.line) tail) =
      rows.map Row.line ++ if tail = [] then [] else [tail] := by
  refine Text.linesFrom_joined (by decide) (by decide) (fun line hline => ?_) (not_break h)
  obtain ⟨r, -, rfl⟩ := List.mem_map.mp hline
  exact not_break (printable_row r)

theorem aligned_rebuildLocked (now : Nat) (h : idx.Aligned) : (rebuildLocked now idx).Aligned :=
  ⟨h.length, h.set, h.nodup, h.tenant⟩

/-- A rebuild leaves the lists as they are. -/
theorem rebuild_rows (now : Nat) (h : idx.Aligned) :
    (rebuild now idx).Aligned ∧ (rebuild now idx).rows defaultTenant = idx.rows defaultTenant := by
  unfold rebuild
  split
  · exact ⟨aligned_rebuildLocked now h, rfl⟩
  · exact ⟨h, rfl⟩

theorem maybeRebuild_rows (debounce now : Nat) (waited : Bool) (h : idx.Aligned) :
    (maybeRebuild debounce now waited idx).Aligned ∧
      (maybeRebuild debounce now waited idx).rows defaultTenant = idx.rows defaultTenant := by
  unfold maybeRebuild
  split_ifs
  · exact ⟨h, rfl⟩
  · exact rebuild_rows defaultTenant now h
  · exact ⟨h, rfl⟩
  · exact rebuild_rows defaultTenant now h
  · exact ⟨h, rfl⟩

/-- A corpus of whole lines is read in full, whether its last line was ended or not. -/
theorem load_rows (now : Nat) {rows last : List Row} {tail : List Char}
    (hlast : last = [] ∧ tail = [] ∨ ∃ r, last = [r] ∧ tail = r.line)
    (hall : ((rows ++ last).map Row.id).Nodup) :
    (load defaultTenant now (joined (rows.map Row.line) tail)).Aligned ∧
      (load defaultTenant now (joined (rows.map Row.line) tail)).rows defaultTenant =
        rows ++ last := by
  have hlines : fileLines (joined (rows.map Row.line) tail) = (rows ++ last).map Row.line := by
    rcases hlast with ⟨rfl, rfl⟩ | ⟨r, rfl, rfl⟩
    · rw [fileLines_joined rows Json.printable_nil, if_pos rfl, List.append_nil, List.append_nil]
    · have hne : r.line ≠ [] := by
        obtain ⟨cs, hcs⟩ := row_line_eq r
        rw [hcs]
        exact List.cons_ne_nil _ _
      rw [fileLines_joined rows (printable_row r), if_neg hne, List.map_append]
      rfl
  obtain ⟨ha, hrows⟩ := foldl_loadRow defaultTenant aligned_start
    (rows ++ last) hall
  rw [load, hlines, foldlM_loadLine]
  exact ⟨aligned_rebuildLocked now ha, hrows⟩

end Cerid.Retrieval
