import Cerid.Sync.Import

/-!
# The newer copy of an artifact

An import takes a row of an artifact when its update time is later than that of the
node.  What happens to one artifact depends on its own rows only, and each row either
leaves the node alone or replaces its properties, except a lineage or an identity the
row does not carry.
-/

namespace Cerid.Sync

open Forget (Index)

variable {c : Settings} {force : Bool} {skipped : String → Bool}

/-! ## The rows of one artifact -/

/-- What a row makes of the node of its artifact. -/
def pullRow (c : Settings) (force : Bool) (mine : Option Artifact) (row : ArtifactRow) :
    Option Artifact :=
  if takes force row mine then some (written c row (mine.getD .blank)) else mine

/-- The rows of an artifact. -/
def rowsOf (rows : List ArtifactRow) (id : String) : List ArtifactRow :=
  rows.filter (fun row => text row.id = some id)

theorem get?_importArtifacts (rows : List ArtifactRow)
    (acc : Dict String Artifact × List String) (id : String) :
    (rows.foldl (importArtifact c force skipped) acc).1.get? id =
      if skipped id then acc.1.get? id
      else (rowsOf rows id).foldl (pullRow c force) (acc.1.get? id) := by
  induction rows generalizing acc with
  | nil => simp [rowsOf]
  | cons row rest ih =>
    rw [List.foldl_cons, ih]
    rcases @importArtifact_cases c force skipped acc row with
      ⟨id', hid, hs, ht, heq⟩ | ⟨hno, heq⟩
    · rw [heq]
      by_cases h : id = id'
      · subst h
        simp [rowsOf, hid, hs, pullRow, ht]
      · have h' : ¬ id' = id := fun e => h e.symm
        simp [rowsOf, hid, h, h']
    · rw [heq]
      by_cases hs : skipped id = true
      · rw [if_pos hs, if_pos hs]
      · rw [if_neg hs, if_neg hs]
        by_cases hid : text row.id = some id
        · have ht := hno id hid (by simpa using hs)
          simp [rowsOf, hid, pullRow, ht]
        · simp [rowsOf, hid]

/-! ## Update times -/

theorem orText_filled (u i : Option String) :
    orText (orText u (some ((text i).getD ""))) (some ((text i).getD "")) =
      some ((orText u i).getD "") := by
  have hi : (text i).getD "" = i.getD "" := by
    cases i with
    | none => rfl
    | some t => by_cases h : t = "" <;> simp [h, text, orText]
  rw [hi]
  cases u with
  | none => by_cases h : i.getD "" = "" <;> simp [orText, h]
  | some s =>
    by_cases h : s = ""
    · by_cases h' : i.getD "" = "" <;> simp [orText, h, h']
    · simp [orText, h]

theorem localUpdated_written (row : ArtifactRow) (a : Artifact) :
    localUpdated (written c row a) = some (remoteUpdated row) :=
  orText_filled row.updatedAt row.ingestedAt

/-- The second copy is as late as the first or later, and is the first where it is not
later. -/
def NotOlder (a b : Artifact) : Prop :=
  b = a ∨ ∃ t u, localUpdated a = some t ∧ localUpdated b = some u ∧ t < u

theorem NotOlder.trans {a b d : Artifact} (hab : NotOlder a b) (hbd : NotOlder b d) :
    NotOlder a d := by
  rcases hbd with rfl | ⟨t', u', ht', hu', hlt'⟩
  · exact hab
  · rcases hab with rfl | ⟨t, u, ht, hu, hlt⟩
    · exact Or.inr ⟨t', u', ht', hu', hlt'⟩
    · rw [hu, Option.some.injEq] at ht'
      exact Or.inr ⟨t, u', ht, hu', hlt.trans (ht' ▸ hlt')⟩

theorem takes_some {row : ArtifactRow} {a : Artifact} :
    takes false row (some a) = true ↔ ∃ t, localUpdated a = some t ∧ t < remoteUpdated row := by
  cases hlocal : localUpdated a with
  | none => simp [takes, hlocal]
  | some t =>
    simp only [takes, hlocal, Bool.false_or, decide_eq_true_eq, Option.some.injEq, exists_eq_left']

theorem pullRow_notOlder (row : ArtifactRow) (a : Artifact) :
    ∃ b, pullRow c false (some a) row = some b ∧ NotOlder a b := by
  unfold pullRow
  split
  · rename_i h
    obtain ⟨t, ht, hlt⟩ := takes_some.mp h
    exact ⟨_, rfl, Or.inr ⟨t, _, ht, localUpdated_written row a, hlt⟩⟩
  · exact ⟨a, rfl, Or.inl rfl⟩

/-- Rows replace a node by later copies only. -/
theorem pullRows_notOlder (rows : List ArtifactRow) (a : Artifact) :
    ∃ b, rows.foldl (pullRow c false) (some a) = some b ∧ NotOlder a b := by
  induction rows generalizing a with
  | nil => exact ⟨a, rfl, Or.inl rfl⟩
  | cons row rest ih =>
    obtain ⟨b, hb, hab⟩ := pullRow_notOlder (c := c) row a
    obtain ⟨d, hd, hbd⟩ := ih b
    exact ⟨d, by rw [List.foldl_cons, hb, hd], hab.trans hbd⟩

/-! ## Exported rows -/

/-- A copy as it arrives on a machine. -/
def carried (q a : Artifact) : Artifact :=
  { q with
    ingestedAt := some ((text q.ingestedAt).getD "")
    updatedAt := orText q.updatedAt (some ((text q.ingestedAt).getD ""))
    lineage := if (text q.lineage.lineageId).isSome then q.lineage else a.lineage
    memoryScope := q.memoryScope.or a.memoryScope
    conversationId := q.conversationId.or a.conversationId }

theorem Cell.getD_ofOption {α : Type} (o : Option α) (d : α) : (Cell.ofOption o).getD d = o := by
  cases o <;> rfl

theorem written_row (c : Settings) (id : String) (q a : Artifact) :
    written c (q.row id) a = carried q a := by
  simp only [written, applyLineage, overwrite, Artifact.row, Cell.getD_ofOption, carried,
    remoteIngestedAt]

theorem rowsOf_exportAll (g : Dict String Artifact) {id : String} (hid : id ≠ "") :
    rowsOf (exportArtifacts none g) id = (g.get? id).toList.map (Artifact.row id) := by
  obtain ⟨items, hnd⟩ := g
  have hall : (items.filter (fun p => changedSince none p.2)) = items :=
    List.filter_eq_self.mpr fun _ _ => rfl
  simp only [rowsOf, exportArtifacts, Dict.get?, hall]
  clear hall
  induction items with
  | nil => rfl
  | cons p rest ih =>
    obtain ⟨k, q⟩ := p
    rw [List.map_cons, List.nodup_cons] at hnd
    rw [List.map_cons]
    have htext : text (Artifact.row k q).id = some id ↔ k = id := by
      show text (some k) = some id ↔ k = id
      rw [text_eq_some, Option.some.injEq]
      exact and_iff_left hid
    by_cases h : k = id
    · subst h
      have hnone : rest.find? (fun p => p.1 = k) = none :=
        find?_eq_none_of_not_mem Prod.fst hnd.1
      rw [List.filter_cons_of_pos (by simpa using htext), ih hnd.2, hnone,
        List.find?_cons_of_pos (by simp)]
      rfl
    · rw [List.filter_cons_of_neg (by simpa using fun e => h (htext.mp e)), ih hnd.2,
        List.find?_cons_of_neg (by simpa using h)]

theorem exportArtifacts_eq (since : Option String) (g : Dict String Artifact) :
    exportArtifacts since g = exportArtifacts none (g.filter (fun _ a => changedSince since a)) := by
  have hall : ∀ items : List (String × Artifact),
      items.filter (fun p => changedSince none p.2) = items :=
    fun _ => List.filter_eq_self.mpr fun _ _ => rfl
  simp only [exportArtifacts, Dict.filter, hall]

theorem rowsOf_exportArtifacts (since : Option String) (g : Dict String Artifact) {id : String}
    (hid : id ≠ "") :
    rowsOf (exportArtifacts since g) id =
      ((g.get? id).filter (changedSince since)).toList.map (Artifact.row id) := by
  rw [exportArtifacts_eq, rowsOf_exportAll _ hid, Dict.get?_filter]

/-! ## Importing twice -/

/-- Nothing in the rows is later than the node. -/
def Caught (mine : Option Artifact) (row : ArtifactRow) : Prop := takes false row mine = false

theorem takes_none {row : ArtifactRow} : takes force row none = true := rfl

theorem caught_pullRow {mine : Option Artifact} {row row' : ArtifactRow} (h : Caught mine row) :
    Caught (pullRow c false mine row') row := by
  cases mine with
  | none => exact absurd takes_none (Bool.eq_false_iff.mp h)
  | some a =>
    obtain ⟨b, hb, hab⟩ := pullRow_notOlder (c := c) row' a
    rw [hb]
    rcases hab with rfl | ⟨t, u, ht, hu, hlt⟩
    · exact h
    · rw [Caught, Bool.eq_false_iff, ne_eq, takes_some] at h ⊢
      rintro ⟨u', hu', hlt'⟩
      rw [hu, Option.some.injEq] at hu'
      exact h ⟨t, ht, hlt.trans (hu' ▸ hlt')⟩

theorem caught_own (mine : Option Artifact) (row : ArtifactRow) :
    Caught (pullRow c false mine row) row := by
  unfold pullRow
  split
  · rw [Caught, Bool.eq_false_iff, ne_eq, takes_some]
    rintro ⟨t, ht, hlt⟩
    rw [localUpdated_written, Option.some.injEq] at ht
    exact absurd hlt (ht ▸ lt_irrefl _)
  · rename_i h
    exact Bool.eq_false_iff.mpr h

theorem caught_pullRows (rows : List ArtifactRow) (mine : Option Artifact) :
    ∀ row ∈ rows, Caught (rows.foldl (pullRow c false) mine) row := by
  have hkeep : ∀ (rows : List ArtifactRow) mine row, Caught mine row →
      Caught (rows.foldl (pullRow c false) mine) row := by
    intro rows
    induction rows with
    | nil => exact fun _ _ h => h
    | cons row' rest ih => exact fun _ row h => ih _ row (caught_pullRow h)
  induction rows generalizing mine with
  | nil => exact fun row h => absurd h List.not_mem_nil
  | cons row' rest ih =>
    intro row hrow
    rcases List.mem_cons.mp hrow with rfl | hrow
    · exact hkeep rest _ row (caught_own mine row)
    · exact ih _ row hrow

theorem pullRows_caught {rows : List ArtifactRow} {mine : Option Artifact}
    (h : ∀ row ∈ rows, Caught mine row) : rows.foldl (pullRow c false) mine = mine := by
  induction rows with
  | nil => rfl
  | cons row rest ih =>
    have hrow : takes false row mine = false := h row List.mem_cons_self
    rw [List.foldl_cons, pullRow, hrow]
    exact ih fun row' h' => h row' (List.mem_cons_of_mem _ h')

/-- The properties of a node that a row may leave alone. -/
def Artifact.kept (a : Artifact) : Lineage × Option String × Option String :=
  (a.lineage, a.memoryScope, a.conversationId)

theorem written_ext {row : ArtifactRow} {a b : Artifact}
    (h : (written c row a).kept = (written c row b).kept) : written c row a = written c row b := by
  simp only [Artifact.kept, Prod.mk.injEq] at h
  simp only [written, applyLineage, overwrite, Artifact.mk.injEq, true_and] at h ⊢
  exact h

theorem kept_foldl_written (rows : List ArtifactRow) :
    ∃ (l : Option Lineage) (m k : Option (Option String)), ∀ a,
      (rows.foldl (fun a row => written c row a) a).kept =
        (l.getD a.lineage, m.getD a.memoryScope, k.getD a.conversationId) := by
  induction rows with
  | nil => exact ⟨none, none, none, fun _ => rfl⟩
  | cons row rest ih =>
    obtain ⟨l, m, k, h⟩ := ih
    refine ⟨l.or (if (text row.lineage.lineageId).isSome then some row.lineage else none),
      m.or (row.memoryScope.map some), k.or (row.conversationId.map some), fun a => ?_⟩
    rw [List.foldl_cons, h]
    have hl : (written c row a).lineage =
        (if (text row.lineage.lineageId).isSome then some row.lineage else none).getD a.lineage := by
      show (if _ then _ else _) = _
      split <;> rfl
    have hm : (written c row a).memoryScope = (row.memoryScope.map some).getD a.memoryScope := by
      show row.memoryScope.or a.memoryScope = _
      cases row.memoryScope <;> rfl
    have hk : (written c row a).conversationId =
        (row.conversationId.map some).getD a.conversationId := by
      show row.conversationId.or a.conversationId = _
      cases row.conversationId <;> rfl
    rw [hl, hm, hk]
    cases l <;> cases m <;> cases k <;> rfl

theorem foldl_written_twice (rows : List ArtifactRow) (a : Artifact) :
    rows.foldl (fun a row => written c row a) (rows.foldl (fun a row => written c row a) a) =
      rows.foldl (fun a row => written c row a) a := by
  obtain ⟨l, m, k, h⟩ := kept_foldl_written (c := c) rows
  have hkept : (rows.foldl (fun a row => written c row a)
      (rows.foldl (fun a row => written c row a) a)).kept =
        (rows.foldl (fun a row => written c row a) a).kept := by
    have hfirst := h a
    rw [h (rows.foldl (fun a row => written c row a) a)]
    simp only [Artifact.kept, Prod.mk.injEq] at hfirst
    rw [h a, hfirst.1, hfirst.2.1, hfirst.2.2]
    cases l <;> cases m <;> cases k <;> rfl
  rcases List.eq_nil_or_concat rows with rfl | ⟨init, last, rfl⟩
  · rfl
  · simp only [List.concat_eq_append, List.foldl_append, List.foldl_cons,
      List.foldl_nil] at hkept ⊢
    exact written_ext hkept

theorem pullRows_force (rows : List ArtifactRow) (mine : Option Artifact) :
    rows.foldl (pullRow c true) mine =
      match mine with
      | none =>
        if rows = [] then none
        else some (rows.foldl (fun a row => written c row a) .blank)
      | some a =>
        if (localUpdated a).isNone then some a
        else some (rows.foldl (fun a row => written c row a) a) := by
  have hsome : ∀ (rows : List ArtifactRow) a, (localUpdated a).isSome →
      rows.foldl (pullRow c true) (some a) = some (rows.foldl (fun a row => written c row a) a) := by
    intro rows
    induction rows with
    | nil => exact fun _ _ => rfl
    | cons row rest ih =>
      intro a ha
      obtain ⟨t, ht⟩ := Option.isSome_iff_exists.mp ha
      have htakes : takes true row (some a) = true := by simp [takes, ht]
      rw [List.foldl_cons, pullRow, if_pos htakes]
      exact ih _ (by rw [localUpdated_written]; rfl)
  have hstuck : ∀ (rows : List ArtifactRow) a, localUpdated a = none →
      rows.foldl (pullRow c true) (some a) = some a := by
    intro rows a ha
    induction rows with
    | nil => rfl
    | cons row rest ih =>
      have htakes : takes true row (some a) = false := by simp [takes, ha]
      rw [List.foldl_cons, pullRow, htakes]
      exact ih
  cases mine with
  | none =>
    cases rows with
    | nil => rfl
    | cons row rest =>
      exact hsome rest (written c row .blank) (by rw [localUpdated_written]; rfl)
  | some a =>
    cases ht : localUpdated a with
    | none => simpa [ht] using hstuck rows a ht
    | some t => simpa [ht] using hsome rows a (by rw [ht]; rfl)

theorem localUpdated_foldl_written {rows : List ArtifactRow} (h : rows ≠ []) (a : Artifact) :
    (localUpdated (rows.foldl (fun a row => written c row a) a)).isSome := by
  rcases List.eq_nil_or_concat rows with rfl | ⟨init, last, rfl⟩
  · exact absurd rfl h
  · rw [List.concat_eq_append, List.foldl_append]
    show (localUpdated (written c last _)).isSome
    rw [localUpdated_written]
    rfl

theorem pullRows_twice (rows : List ArtifactRow) (mine : Option Artifact) :
    rows.foldl (pullRow c force) (rows.foldl (pullRow c force) mine) =
      rows.foldl (pullRow c force) mine := by
  cases force with
  | false => exact pullRows_caught (caught_pullRows rows mine)
  | true =>
    by_cases hnil : rows = []
    · subst hnil
      rfl
    · have hlocal := fun a => localUpdated_foldl_written (c := c) hnil a
      rw [pullRows_force rows mine]
      cases mine with
      | none =>
        rw [pullRows_force]
        simp only [hnil, if_false]
        rw [if_neg (by simpa using Option.isSome_iff_ne_none.mp (hlocal _)), foldl_written_twice]
      | some a =>
        by_cases ht : (localUpdated a).isNone
        · rw [pullRows_force]
          simp only [ht, if_true]
        · rw [pullRows_force]
          simp only [ht, if_false, Bool.false_eq_true]
          rw [if_neg (by simpa using Option.isSome_iff_ne_none.mp (hlocal _)), foldl_written_twice]

/-- The two machines hold the same artifacts and relationships. -/
def SameGraph (s s' : Stores) : Prop :=
  (∀ id, s.artifacts.get? id = s'.artifacts.get? id) ∧
    ∀ key, s.relationships.get? key = s'.relationships.get? key

theorem mem_skipIds_congr {strategy : ConflictStrategy} {lastSyncAt : Option String}
    {g g' : Dict String Artifact} {rows : List ArtifactRow} {id : String}
    (h : g.get? id = g'.get? id) :
    id ∈ skipIds strategy lastSyncAt g rows ↔ id ∈ skipIds strategy lastSyncAt g' rows := by
  unfold skipIds
  split
  · split
    · exact Iff.rfl
    · simp only [detectConflicts, List.mem_map, List.mem_filter]
      constructor
      · rintro ⟨p, ⟨hp, hc⟩, rfl⟩
        exact ⟨p, ⟨hp, h ▸ hc⟩, rfl⟩
      · rintro ⟨p, ⟨hp, hc⟩, rfl⟩
        exact ⟨p, ⟨hp, h ▸ hc⟩, rfl⟩
  · exact Iff.rfl

theorem passedOver_congr {reg : Index} {f : Folder} {skip skip' : List String} {id : String}
    (h : id ∈ skip ↔ id ∈ skip') : passedOver reg f skip id = passedOver reg f skip' id := by
  simp only [passedOver, h]

/-- The node of an artifact after `import_neo4j`. -/
theorem get?_importNeo4j (c : Settings) (reg : Index) (f : Folder) (force : Bool)
    (strategy : ConflictStrategy) (s : Stores) (id : String) :
    (importNeo4j c reg f force strategy s).1.artifacts.get? id =
      if passedOver reg f (skipIds strategy f.lastExportedAt s.artifacts f.artifacts) id then
        s.artifacts.get? id
      else (rowsOf f.artifacts id).foldl (pullRow c force) (s.artifacts.get? id) :=
  get?_importArtifacts f.artifacts (s.artifacts, []) id

theorem artifacts_twice (c : Settings) (now : String) (reg : Index) (f : Folder) (force : Bool)
    (strategy : ConflictStrategy) (s : Stores) (id : String) :
    (importNeo4j { c with now } reg f force strategy
      (importNeo4j c reg f force strategy s).1).1.artifacts.get? id =
        (importNeo4j c reg f force strategy s).1.artifacts.get? id := by
  have hfirst := get?_importNeo4j c reg f force strategy s id
  rw [get?_importNeo4j]
  by_cases hpass : passedOver reg f (skipIds strategy f.lastExportedAt s.artifacts f.artifacts) id
  · rw [if_pos hpass] at hfirst
    rw [if_pos]
    rw [passedOver_congr (mem_skipIds_congr hfirst)]
    exact hpass
  · rw [if_neg hpass] at hfirst
    split
    · rfl
    · rw [hfirst]
      exact pullRows_twice (c := c) _ _

/-- The key under which a row of the relationships loop is merged. -/
def relationKey (c : Settings) (artifacts : Dict String Artifact) (row : RelationRow) :
    Option (String × String × String) :=
  match text row.sourceId, text row.targetId, text row.relType with
  | some source, some target, some rel =>
    if rel ∈ c.relationshipTypes ∧ (artifacts.get? source).isSome ∧
        (artifacts.get? target).isSome then some (source, target, rel)
    else none
  | _, _, _ => none

theorem importRelationship_eq (artifacts : Dict String Artifact)
    (relationships : Dict (String × String × String) Relation) (row : RelationRow) :
    importRelationship c artifacts relationships row =
      match relationKey c artifacts row with
      | some key => relationships.setDefault key
          { row.props with createdAt := orText row.props.createdAt (some c.now) }
      | none => relationships := by
  unfold importRelationship relationKey
  cases text row.sourceId with
  | none => rfl
  | some source =>
    cases text row.targetId with
    | none => rfl
    | some target =>
      cases text row.relType with
      | none => rfl
      | some rel => by_cases h : rel ∈ c.relationshipTypes ∧ (artifacts.get? source).isSome ∧
          (artifacts.get? target).isSome <;> simp [h]

theorem isSome_importRelationships {artifacts : Dict String Artifact} (rows : List RelationRow)
    (relationships : Dict (String × String × String) Relation) {key : String × String × String}
    (h : (relationships.get? key).isSome ∨ ∃ row ∈ rows, relationKey c artifacts row = some key) :
    ((rows.foldl (importRelationship c artifacts) relationships).get? key).isSome := by
  induction rows generalizing relationships with
  | nil => exact h.resolve_right (by simp)
  | cons row rest ih =>
    rw [List.foldl_cons, importRelationship_eq]
    apply ih
    rw [List.exists_mem_cons_iff, ← or_assoc] at h
    refine h.imp_left fun h => ?_
    cases hkey : relationKey c artifacts row with
    | none => exact h.resolve_right (by simp [hkey])
    | some key' =>
      rw [Dict.get?_setDefault]
      by_cases heq : key = key'
      · rw [if_pos heq]
        rfl
      · rw [if_neg heq]
        refine h.resolve_right fun hk => heq ?_
        rw [hkey, Option.some.injEq] at hk
        exact hk.symm

theorem importRelationships_held {artifacts : Dict String Artifact} {rows : List RelationRow}
    {relationships : Dict (String × String × String) Relation}
    (h : ∀ row ∈ rows, ∀ key, relationKey c artifacts row = some key →
      (relationships.get? key).isSome) :
    rows.foldl (importRelationship c artifacts) relationships = relationships := by
  induction rows with
  | nil => rfl
  | cons row rest ih =>
    have hrow : importRelationship c artifacts relationships row = relationships := by
      rw [importRelationship_eq]
      cases hkey : relationKey c artifacts row with
      | none => rfl
      | some key =>
        obtain ⟨r, hr⟩ := Option.isSome_iff_exists.mp (h row List.mem_cons_self key hkey)
        simp [Dict.setDefault, hr]
    rw [List.foldl_cons, hrow]
    exact ih fun row' hrow' => h row' (List.mem_cons_of_mem _ hrow')

theorem importNeo4j_twice (c : Settings) (now : String) (reg : Index) (f : Folder) (force : Bool)
    (strategy : ConflictStrategy) (s : Stores) :
    SameGraph (importNeo4j { c with now } reg f force strategy
      (importNeo4j c reg f force strategy s).1).1 (importNeo4j c reg f force strategy s).1 := by
  have hart := artifacts_twice c now reg f force strategy s
  refine ⟨hart, fun key => ?_⟩
  show ((f.relationships.foldl (importRelationship { c with now } _)
    (importNeo4j c reg f force strategy s).1.relationships)).get? key = _
  rw [importRelationships_held]
  intro row hrow key' hkey
  refine isSome_importRelationships f.relationships s.relationships (Or.inr ⟨row, hrow, ?_⟩)
  rw [← hkey]
  have hart' : ∀ id, (importArtifacts { c with now } force (passedOver reg f (skipIds strategy
      f.lastExportedAt (importNeo4j c reg f force strategy s).1.artifacts f.artifacts))
      f.artifacts (importNeo4j c reg f force strategy s).1.artifacts).1.get? id =
        (importArtifacts c force (passedOver reg f (skipIds strategy f.lastExportedAt s.artifacts
          f.artifacts)) f.artifacts s.artifacts).1.get? id := hart
  simp only [relationKey, hart']

theorem importNeo4j_notOlder (c : Settings) (reg : Index) (f : Folder)
    (strategy : ConflictStrategy) (s : Stores) (id : String) (a : Artifact)
    (h : s.artifacts.get? id = some a) :
    ∃ b, (importNeo4j c reg f false strategy s).1.artifacts.get? id = some b ∧ NotOlder a b := by
  rw [get?_importNeo4j, h]
  split
  · exact ⟨a, rfl, Or.inl rfl⟩
  · exact pullRows_notOlder _ a

end Cerid.Sync
