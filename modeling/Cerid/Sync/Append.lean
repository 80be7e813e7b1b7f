import Cerid.Lib.Run
import Cerid.Sync.Import
import Mathlib.Data.List.Nodup

/-!
# Importing into lists

Keyword corpora and the audit log grow by the rows of a file whose key they do not
have.  The keys are collected before the rows of the file are looked at, and the log is
cut to its newest elements after each push, so a file that repeats a key is taken twice
and a file whose entries have been cut off is taken again.
-/

namespace Cerid.Sync

open Forget (Index)

/-! ## Runs -/

def idsOf (corpus : List LexicalRow) : List String := corpus.filterMap LexicalRow.key

def keysOf (log : List LogLine) : List (Option String × Option String) :=
  log.filterMap LogLine.key

def blank (s : String) : Bool := s.toList.all Char.isWhitespace

/-- `BM25Index.add_documents`: a row whose id is indexed is skipped, one of this call
included. -/
def addDocument (corpus : List LexicalRow) (row : LexicalRow) : List LexicalRow :=
  if row.key.all (fun id => id ∈ idsOf corpus) ∨ blank row.body then corpus else corpus ++ [row]

def logEvent (logMax : Nat) (e : LogEntry) (log : List LogLine) : List LogLine :=
  (.entry e :: log).take logMax

/-- A machine and the folders it has imported. -/
structure Desk where
  stores : Stores
  imported : List Folder

/-- What adds to the corpora and the log. -/
inductive Addition where
  | importFolder (f : Folder)
  | addDocuments (file : String) (rows : List LexicalRow)
  | logEvent (e : LogEntry)

/-- `import_bm25` and `import_redis`, as far as their stores. -/
def importLists (c : Settings) (reg : Index) (f : Folder) (s : Stores) : Stores :=
  (importRedis c f (importBm25 reg f s).1).1

def add (c : Settings) (reg : Index) (w : Desk) : Addition → Desk
  | .importFolder f =>
    { stores := importLists c reg f w.stores, imported := f :: w.imported }
  | .addDocuments file rows =>
    { w with stores := { w.stores with
        corpora := w.stores.corpora.set file
          (rows.foldl addDocument ((w.stores.corpora.get? file).getD [])) } }
  | .logEvent e =>
    { w with stores := { w.stores with log := logEvent c.logMax e w.stores.log } }

/-- Importing the folder again would add nothing. -/
def Settled (c : Settings) (reg : Index) (s : Stores) (f : Folder) : Prop :=
  (importBm25 reg f s).2 = [] ∧ (importRedis c f s).2 = []

instance (c : Settings) (reg : Index) (s : Stores) (f : Folder) :
    Decidable (Settled c reg s f) :=
  inferInstanceAs (Decidable (_ ∧ _))

/-- Each chunk id is at most once in a corpus, each element at most once in the log, and
the folders imported so far have nothing to add. -/
structure Once (c : Settings) (reg : Index) (w : Desk) : Prop where
  corpora : ∀ p ∈ w.stores.corpora.items, (idsOf p.2).Nodup
  log : w.stores.log.Nodup
  settled : ∀ f ∈ w.imported, Settled c reg w.stores f

theorem once_iff {c : Settings} {reg : Index} {w : Desk} :
    Once c reg w ↔ (∀ p ∈ w.stores.corpora.items, (idsOf p.2).Nodup) ∧ w.stores.log.Nodup ∧
      ∀ f ∈ w.imported, Settled c reg w.stores f :=
  ⟨fun h => ⟨h.corpora, h.log, h.settled⟩, fun h => ⟨h.1, h.2.1, h.2.2⟩⟩

instance (c : Settings) (reg : Index) (w : Desk) : Decidable (Once c reg w) :=
  decidable_of_iff _ once_iff.symm

/-! ## When an addition is safe -/

/-- The keys of the audit files of some folders. -/
def fileKeys (folders : List Folder) : List (Option String × Option String) :=
  folders.flatMap (fun f => (f.auditLog.getD []).map LogEntry.key)

/-- The ids of a file that its corpus lacks and the test lets pass. -/
def missingIds (reg : Index) (corpus rows : List LexicalRow) : List String :=
  (idsOf rows).filter (fun id => decide (id ∉ idsOf corpus) && !isForgottenLexicalRow reg id)

/-- The entries of a file whose key the log lacks. -/
def missingEntries (log : List LogLine) (f : Folder) : List LogEntry :=
  (f.auditLog.getD []).filter (fun e => e.key ∉ keysOf log)

/-- Cutting the list to its first `n` elements loses no key of the folders. -/
def CutKeeps (folders : List Folder) (n : Nat) (log : List LogLine) : Prop :=
  ∀ key ∈ keysOf (log.drop n), key ∈ fileKeys folders → key ∈ keysOf (log.take n)

/-- The condition on an addition: a file repeats none of the ids and entries that are
missing here, a local entry is new, and no entry of an imported file is cut off. -/
def AddsOnce (c : Settings) (reg : Index) (w : Desk) : Addition → Prop
  | .importFolder f =>
    (∀ file ∈ f.bm25.items,
      (missingIds reg ((w.stores.corpora.get? file.1).getD []) file.2).Nodup) ∧
    ((missingEntries w.stores.log f).take c.logMax).Nodup ∧
    (missingEntries w.stores.log f ≠ [] → CutKeeps (f :: w.imported) c.logMax
      ((missingEntries w.stores.log f).map LogLine.entry ++ w.stores.log))
  | .addDocuments _ _ => True
  | .logEvent e =>
    LogLine.entry e ∉ w.stores.log.take (c.logMax - 1) ∧
    CutKeeps w.imported c.logMax (.entry e :: w.stores.log)

instance (folders : List Folder) (n : Nat) (log : List LogLine) :
    Decidable (CutKeeps folders n log) :=
  inferInstanceAs (Decidable (∀ key ∈ _, _))

instance (c : Settings) (reg : Index) (w : Desk) (a : Addition) : Decidable (AddsOnce c reg w a) :=
  match a with
  | .importFolder _ => inferInstanceAs (Decidable (_ ∧ _ ∧ (_ → _)))
  | .addDocuments _ _ => isTrue trivial
  | .logEvent _ => inferInstanceAs (Decidable (_ ∧ _))

variable {c : Settings} {reg : Index} {w : Desk}

/-! ## Corpora -/

/-- The corpus of a file; a file that is not there is empty. -/
def corpusOf (corpora : Dict String (List LexicalRow)) (file : String) : List LexicalRow :=
  (corpora.get? file).getD []

theorem idsOf_append (a b : List LexicalRow) : idsOf (a ++ b) = idsOf a ++ idsOf b :=
  List.filterMap_append

theorem filterMap_filter_any {α β : Type} (key : α → Option β) (q : β → Bool) (xs : List α) :
    (xs.filter (fun x => (key x).any q)).filterMap key = (xs.filterMap key).filter q := by
  induction xs with
  | nil => rfl
  | cons x rest ih =>
    cases hkey : key x with
    | none => rw [List.filter_cons_of_neg (by simp [hkey]), List.filterMap_cons_none hkey, ih]
    | some b =>
      rw [List.filterMap_cons_some hkey]
      by_cases h : q b = true
      · rw [List.filter_cons_of_pos (by simpa [hkey] using h), List.filter_cons_of_pos h,
          List.filterMap_cons_some hkey, ih]
      · rw [List.filter_cons_of_neg (by simpa [hkey] using h), List.filter_cons_of_neg h, ih]

theorem idsOf_newLexicalRows (corpus rows : List LexicalRow) :
    idsOf (newLexicalRows reg corpus rows) = missingIds reg corpus rows :=
  filterMap_filter_any _ _ rows

theorem corpusOf_set (corpora : Dict String (List LexicalRow)) (file file' : String)
    (corpus : List LexicalRow) :
    corpusOf (corpora.set file corpus) file' =
      if file' = file then corpus else corpusOf corpora file' := by
  rw [corpusOf, Dict.get?_set]
  split <;> rfl

theorem corpusOf_mergeCorpora (items : List (String × List LexicalRow))
    (hnd : (items.map Prod.fst).Nodup) (corpora : Dict String (List LexicalRow)) (file : String) :
    corpusOf (items.foldl (mergeCorpus reg) corpora) file = corpusOf corpora file ++
      newLexicalRows reg (corpusOf corpora file)
        (((items.find? (fun p => p.1 = file)).map Prod.snd).getD []) := by
  induction items generalizing corpora with
  | nil => simp [newLexicalRows]
  | cons p rest ih =>
    rw [List.map_cons, List.nodup_cons] at hnd
    rw [List.foldl_cons, ih hnd.2, mergeCorpus, corpusOf_set]
    by_cases h : file = p.1
    · have hnone : rest.find? (fun q => q.1 = file) = none :=
        find?_eq_none_of_not_mem Prod.fst (h ▸ hnd.1)
      rw [hnone, List.find?_cons_of_pos (by simpa using h.symm), if_pos h]
      simp [newLexicalRows, corpusOf, h]
    · have h' : ¬ p.1 = file := fun e => h e.symm
      rw [List.find?_cons_of_neg (by simpa using h'), if_neg h]

theorem corpusOf_importBm25 (f : Folder) (s : Stores) (file : String) :
    corpusOf (importBm25 reg f s).1.corpora file = corpusOf s.corpora file ++
      newLexicalRows reg (corpusOf s.corpora file) ((f.bm25.get? file).getD []) :=
  corpusOf_mergeCorpora f.bm25.items f.bm25.nodup s.corpora file

theorem newLexicalRows_nil {corpus rows : List LexicalRow} :
    newLexicalRows reg corpus rows = [] ↔ missingIds reg corpus rows = [] := by
  rw [← idsOf_newLexicalRows, idsOf, List.filterMap_eq_nil_iff]
  constructor
  · intro h row hrow
    rw [h] at hrow
    exact absurd hrow List.not_mem_nil
  · intro h
    rw [newLexicalRows, List.filter_eq_nil_iff]
    intro row hrow hnew
    have hkey := h row (List.mem_filter.mpr ⟨hrow, hnew⟩)
    simp [hkey] at hnew

/-- The corpora have nothing to take from the folder. -/
def CorporaSettled (reg : Index) (corpora : Dict String (List LexicalRow)) (f : Folder) : Prop :=
  ∀ file ∈ f.bm25.items, missingIds reg (corpusOf corpora file.1) file.2 = []

theorem importBm25_nil {f : Folder} {s : Stores} :
    (importBm25 reg f s).2 = [] ↔ CorporaSettled reg s.corpora f := by
  simp only [importBm25, List.flatMap_eq_nil_iff, CorporaSettled]
  refine forall_congr' fun file => forall_congr' fun _ => ?_
  rw [← idsOf_newLexicalRows, idsOf, List.filterMap_eq_nil_iff, List.filterMap_eq_nil_iff]
  simp only [Option.map_eq_none_iff, corpusOf]

theorem CorporaSettled.mono {corpora corpora' : Dict String (List LexicalRow)} {f : Folder}
    (h : CorporaSettled reg corpora f)
    (hsub : ∀ file, ∀ id ∈ idsOf (corpusOf corpora file), id ∈ idsOf (corpusOf corpora' file)) :
    CorporaSettled reg corpora' f := by
  intro file hfile
  have hold := h file hfile
  simp only [missingIds, List.filter_eq_nil_iff, Bool.and_eq_true, decide_eq_true_eq,
    Bool.not_eq_true', not_and] at hold ⊢
  exact fun id hid hnew => hold id hid fun hin => hnew (hsub file.1 id hin)

theorem idsOf_importBm25 (f : Folder) (s : Stores) (file : String) :
    idsOf (corpusOf (importBm25 reg f s).1.corpora file) = idsOf (corpusOf s.corpora file) ++
      missingIds reg (corpusOf s.corpora file) ((f.bm25.get? file).getD []) := by
  rw [corpusOf_importBm25, idsOf_append, idsOf_newLexicalRows]

theorem corporaSettled_importBm25 (f : Folder) (s : Stores) :
    CorporaSettled reg (importBm25 reg f s).1.corpora f := by
  intro file hfile
  have hget : f.bm25.get? file.1 = some file.2 := (Dict.mem_items_iff _ _ _).mp hfile
  rw [missingIds, List.filter_eq_nil_iff, idsOf_importBm25, hget, Option.getD_some]
  intro id hid hnew
  simp only [Bool.and_eq_true, decide_eq_true_eq, List.mem_append, not_or, Bool.not_eq_true'] at hnew
  exact hnew.1.2 (List.mem_filter.mpr ⟨hid, by simp [hnew.1.1, hnew.2]⟩)

theorem nodup_corpora {corpora : Dict String (List LexicalRow)} :
    (∀ q ∈ corpora.items, (idsOf q.2).Nodup) ↔ ∀ file, (idsOf (corpusOf corpora file)).Nodup := by
  constructor
  · intro h file
    rw [corpusOf]
    cases hget : corpora.get? file with
    | none => exact List.nodup_nil
    | some corpus => exact h (file, corpus) ((Dict.mem_items_iff _ _ _).mpr hget)
  · intro h q hq
    have hget : corpora.get? q.1 = some q.2 := (Dict.mem_items_iff _ _ _).mp hq
    simpa [corpusOf, hget] using h q.1

/-- An import keeps the ids of the corpora distinct exactly when no file repeats an id
that is missing here. -/
theorem nodup_importBm25 {f : Folder} {s : Stores} (h : ∀ q ∈ s.corpora.items, (idsOf q.2).Nodup) :
    (∀ q ∈ (importBm25 reg f s).1.corpora.items, (idsOf q.2).Nodup) ↔
      ∀ file ∈ f.bm25.items, (missingIds reg (corpusOf s.corpora file.1) file.2).Nodup := by
  rw [nodup_corpora] at h ⊢
  have hgrown : ∀ file, (idsOf (corpusOf (importBm25 reg f s).1.corpora file)).Nodup ↔
      (missingIds reg (corpusOf s.corpora file) ((f.bm25.get? file).getD [])).Nodup := by
    intro file
    rw [idsOf_importBm25, List.nodup_append']
    refine ⟨fun hand => hand.2.1, fun hnew => ⟨h file, hnew, ?_⟩⟩
    intro id hid hmiss
    simp only [missingIds, List.mem_filter, Bool.and_eq_true, decide_eq_true_eq] at hmiss
    exact hmiss.2.1 hid
  constructor
  · intro hall file hfile
    have hget : f.bm25.get? file.1 = some file.2 := (Dict.mem_items_iff _ _ _).mp hfile
    simpa [hget] using (hgrown file.1).mp (hall file.1)
  · intro hnew file
    rw [hgrown]
    cases hget : f.bm25.get? file with
    | none => exact List.nodup_nil
    | some rows => exact hnew (file, rows) ((Dict.mem_items_iff _ _ _).mpr hget)

theorem addDocuments_spec (rows corpus : List LexicalRow) (h : (idsOf corpus).Nodup) :
    (idsOf (rows.foldl addDocument corpus)).Nodup ∧
      ∀ id ∈ idsOf corpus, id ∈ idsOf (rows.foldl addDocument corpus) := by
  induction rows generalizing corpus with
  | nil => exact ⟨h, fun _ hid => hid⟩
  | cons row rest ih =>
    rw [List.foldl_cons]
    unfold addDocument
    split
    · exact ih corpus h
    · rename_i hno
      rw [not_or] at hno
      have hgrown : (idsOf (corpus ++ [row])).Nodup := by
        cases hkey : row.key with
        | none => simp [hkey] at hno
        | some id =>
          simp only [hkey, Option.all_some, decide_eq_true_eq] at hno
          rw [idsOf_append, List.nodup_append']
          refine ⟨h, by simp [idsOf, hkey], fun a ha hb => ?_⟩
          simp only [idsOf, List.filterMap_cons, hkey, List.filterMap_nil,
            List.mem_singleton] at hb
          exact hno.1 (hb ▸ ha)
      refine ⟨(ih _ hgrown).1, fun id hid => (ih _ hgrown).2 id ?_⟩
      rw [idsOf_append]
      exact List.mem_append_left _ hid

/-! ## The audit log -/

theorem keysOf_append (a b : List LogLine) : keysOf (a ++ b) = keysOf a ++ keysOf b :=
  List.filterMap_append

theorem keysOf_entries (entries : List LogEntry) :
    keysOf (entries.map LogLine.entry) = entries.map LogEntry.key := by
  simp [keysOf, List.filterMap_map, Function.comp_def, LogLine.key]

theorem importRedis_log (f : Folder) (s : Stores) :
    (importRedis c f s).1.log = pushLog c.logMax (missingEntries s.log f) s.log := by
  unfold importRedis missingEntries
  cases f.auditLog <;> rfl

theorem importRedis_corpora (f : Folder) (s : Stores) :
    (importRedis c f s).1.corpora = s.corpora := by
  unfold importRedis
  cases f.auditLog <;> rfl

theorem importRedis_nil {f : Folder} {s : Stores} :
    (importRedis c f s).2 = [] ↔ ∀ key ∈ fileKeys [f], key ∈ keysOf s.log := by
  have hwritten : (importRedis c f s).2 = (missingEntries s.log f).map Written.logEntry := by
    unfold importRedis missingEntries
    cases f.auditLog <;> rfl
  rw [hwritten, List.map_eq_nil_iff, missingEntries, List.filter_eq_nil_iff]
  simp [fileKeys]

theorem mem_keysOf_pushed {log : List LogLine} {f : Folder} {key : Option String × Option String}
    (h : key ∈ fileKeys [f]) :
    key ∈ keysOf ((missingEntries log f).map LogLine.entry ++ log) := by
  rw [fileKeys, List.flatMap_singleton, List.mem_map] at h
  obtain ⟨e, he, rfl⟩ := h
  rw [keysOf_append, keysOf_entries, List.mem_append]
  by_cases hin : e.key ∈ keysOf log
  · exact Or.inr hin
  · exact Or.inl (List.mem_map.mpr ⟨e, List.mem_filter.mpr ⟨he, by simpa using hin⟩, rfl⟩)

theorem cutKeeps_iff {folders : List Folder} {n : Nat} {log : List LogLine}
    (h : ∀ key ∈ fileKeys folders, key ∈ keysOf log) :
    (∀ key ∈ fileKeys folders, key ∈ keysOf (log.take n)) ↔ CutKeeps folders n log := by
  constructor
  · exact fun hall key _ hkey => hall key hkey
  · intro hcut key hkey
    have hin := h key hkey
    rw [← List.take_append_drop n log, keysOf_append, List.mem_append] at hin
    exact hin.elim id fun hdrop => hcut key hdrop hkey

theorem missingEntries_disjoint (log : List LogLine) (f : Folder) :
    ∀ line ∈ (missingEntries log f).map LogLine.entry, line ∉ log := by
  intro line hline hlog
  obtain ⟨e, he, rfl⟩ := List.mem_map.mp hline
  have hnew := (List.mem_filter.mp he).2
  rw [decide_eq_true_eq] at hnew
  exact hnew (List.mem_filterMap.mpr ⟨_, hlog, rfl⟩)

theorem nodup_map_entry (entries : List LogEntry) :
    (entries.map LogLine.entry).Nodup ↔ entries.Nodup :=
  List.nodup_map_iff fun _ _ h => LogLine.entry.inj h

/-- An import keeps the elements of the log distinct exactly when the missing entries
that fit into it are distinct. -/
theorem nodup_importRedis {f : Folder} {s : Stores} (h : s.log.Nodup) :
    (importRedis c f s).1.log.Nodup ↔ ((missingEntries s.log f).take c.logMax).Nodup := by
  rw [importRedis_log, pushLog]
  split
  · rename_i hnil
    simp [hnil, h]
  · rw [List.take_append, List.nodup_append', ← List.map_take, nodup_map_entry]
    refine ⟨fun hand => hand.1, fun hnew => ⟨hnew, h.sublist (List.take_sublist _ _), ?_⟩⟩
    intro line hline hlog
    rw [List.map_take] at hline
    exact missingEntries_disjoint s.log f line (List.mem_of_mem_take hline)
      (List.mem_of_mem_take hlog)

theorem nodup_logEvent {e : LogEntry} {log : List LogLine} (h : log.Nodup) (logMax : Nat) :
    (logEvent logMax e log).Nodup ↔ LogLine.entry e ∉ log.take (logMax - 1) := by
  unfold logEvent
  cases logMax with
  | zero => simp
  | succ n =>
    rw [List.take_succ_cons, List.nodup_cons, Nat.add_sub_cancel]
    exact and_iff_left (h.sublist (List.take_sublist _ _))

/-! ## Runs that add once -/

theorem settled_iff {f : Folder} {s : Stores} :
    Settled c reg s f ↔
      CorporaSettled reg s.corpora f ∧ ∀ key ∈ fileKeys [f], key ∈ keysOf s.log := by
  rw [Settled, importBm25_nil, importRedis_nil]

theorem forall_fileKeys {folders : List Folder} {p : Option String × Option String → Prop} :
    (∀ key ∈ fileKeys folders, p key) ↔ ∀ f ∈ folders, ∀ key ∈ fileKeys [f], p key := by
  simp only [fileKeys, List.flatMap_singleton, List.mem_flatMap, forall_exists_index, and_imp]
  exact ⟨fun h f hf key hkey => h key f hf hkey, fun h key f hf hkey => h f hf key hkey⟩

theorem all_settled_iff {folders : List Folder} {s : Stores} :
    (∀ f ∈ folders, Settled c reg s f) ↔ (∀ f ∈ folders, CorporaSettled reg s.corpora f) ∧
      ∀ key ∈ fileKeys folders, key ∈ keysOf s.log := by
  rw [forall_fileKeys]
  simp only [settled_iff]
  exact ⟨fun h => ⟨fun f hf => (h f hf).1, fun f hf => (h f hf).2⟩,
    fun h f hf => ⟨h.1 f hf, h.2 f hf⟩⟩

theorem importFolder_once {f : Folder} (h : Once c reg w) :
    Once c reg (add c reg w (.importFolder f)) ↔ AddsOnce c reg w (.importFolder f) := by
  have hcorpora : (importLists c reg f w.stores).corpora = (importBm25 reg f w.stores).1.corpora :=
    importRedis_corpora f _
  have hlog : (importLists c reg f w.stores).log =
      pushLog c.logMax (missingEntries w.stores.log f) w.stores.log := importRedis_log f _
  have hall : ∀ g ∈ f :: w.imported, CorporaSettled reg (importBm25 reg f w.stores).1.corpora g := by
    intro g hg
    rcases List.mem_cons.mp hg with rfl | hg
    · exact corporaSettled_importBm25 g _
    · refine ((settled_iff.mp (h.settled g hg)).1).mono fun file id hid => ?_
      rw [idsOf_importBm25]
      exact List.mem_append_left _ hid
  have hkeys : ∀ key ∈ fileKeys (f :: w.imported),
      key ∈ keysOf ((missingEntries w.stores.log f).map LogLine.entry ++ w.stores.log) := by
    intro key hkey
    rw [fileKeys, List.flatMap_cons, List.mem_append] at hkey
    rcases hkey with hkey | hkey
    · exact mem_keysOf_pushed (by simpa [fileKeys] using hkey)
    · rw [keysOf_append]
      exact List.mem_append_right _ ((all_settled_iff.mp h.settled).2 key hkey)
  have hsettled : (∀ g ∈ f :: w.imported, Settled c reg (importLists c reg f w.stores) g) ↔
      (missingEntries w.stores.log f ≠ [] → CutKeeps (f :: w.imported) c.logMax
        ((missingEntries w.stores.log f).map LogLine.entry ++ w.stores.log)) := by
    rw [all_settled_iff, hcorpora, hlog, and_iff_right hall, ← cutKeeps_iff hkeys, pushLog]
    by_cases hnil : missingEntries w.stores.log f = []
    · simpa [hnil] using hkeys
    · simp [hnil]
  have hdistinct : (∀ q ∈ (importLists c reg f w.stores).corpora.items, (idsOf q.2).Nodup) ↔
      ∀ file ∈ f.bm25.items, (missingIds reg (corpusOf w.stores.corpora file.1) file.2).Nodup := by
    rw [hcorpora]
    exact nodup_importBm25 h.corpora
  rw [once_iff]
  exact and_congr hdistinct
    (and_congr (nodup_importRedis (s := (importBm25 reg f w.stores).1) h.log) hsettled)

theorem addDocuments_once {file : String} {rows : List LexicalRow} (h : Once c reg w) :
    Once c reg (add c reg w (.addDocuments file rows)) := by
  have hspec := addDocuments_spec rows (corpusOf w.stores.corpora file)
    (nodup_corpora.mp h.corpora file)
  have hcorpus : ∀ file', corpusOf (add c reg w (.addDocuments file rows)).stores.corpora file' =
      if file' = file then rows.foldl addDocument (corpusOf w.stores.corpora file)
      else corpusOf w.stores.corpora file' := fun file' => corpusOf_set _ _ _ _
  refine ⟨nodup_corpora.mpr fun file' => ?_, h.log, fun f hf => ?_⟩
  · rw [hcorpus]
    split
    · exact hspec.1
    · exact nodup_corpora.mp h.corpora file'
  · have hold := settled_iff.mp (h.settled f hf)
    refine settled_iff.mpr ⟨hold.1.mono fun file' id hid => ?_, hold.2⟩
    rw [hcorpus]
    split
    · rename_i hfile
      exact hspec.2 id (hfile ▸ hid)
    · exact hid

theorem logEvent_once {e : LogEntry} (h : Once c reg w) :
    Once c reg (add c reg w (.logEvent e)) ↔ AddsOnce c reg w (.logEvent e) := by
  have hkeys : ∀ key ∈ fileKeys w.imported, key ∈ keysOf (.entry e :: w.stores.log) := by
    intro key hkey
    exact List.mem_cons_of_mem _ ((all_settled_iff.mp h.settled).2 key hkey)
  have hsettled : (∀ f ∈ w.imported, Settled c reg (add c reg w (.logEvent e)).stores f) ↔
      CutKeeps w.imported c.logMax (.entry e :: w.stores.log) := by
    rw [all_settled_iff, ← cutKeeps_iff hkeys]
    exact and_iff_right (all_settled_iff.mp h.settled).1
  rw [once_iff]
  exact (and_iff_right h.corpora).trans (and_congr (nodup_logEvent h.log c.logMax) hsettled)

/-- What one addition does to a machine that has everything once. -/
theorem add_once_iff (a : Addition) (h : Once c reg w) :
    Once c reg (add c reg w a) ↔ AddsOnce c reg w a := by
  cases a with
  | importFolder f => exact importFolder_once h
  | addDocuments file rows => exact iff_of_true (addDocuments_once h) trivial
  | logEvent e => exact logEvent_once h

/-- A machine whose log keeps three elements. -/
def shortLog : Settings :=
  { machineId := "laptop", domains := ["general", "conversations"], defaultDomain := "general",
    relationshipTypes := [], logMax := 3, ttl := 90, now := "2026-03-01", instant := 60,
    conversations := conversations_mem }

def freshDesk : Desk := { stores := .fresh, imported := [] }

/-- A folder with one corpus file, whose rows have the ids, and one audit entry. -/
def corpusFolder (ids : List String) : Folder :=
  { Folder.empty with
    bm25 := Dict.empty.set "general.jsonl" (ids.map (fun id =>
      { chunkId := none, id := some id, body := "a line", tenantId := none }))
    auditLog := some [
      { artifactId := .value "note", timestamp := .value "2026-02-01", body := "ingest" }] }

theorem once_freshDesk : Once shortLog (Forget.index []) freshDesk := by
  decide

end Cerid.Sync
