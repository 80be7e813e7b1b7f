import Cerid.Lib.Value

/-!
# Values read back

The values of a scripting language at large, of which JSON holds some as they are, some as
something else and some not at all.  `dumps` keeps the order of a dict, and so does `loads`.  A
value is equal to what is read back of it exactly when it is `Kept` (`same_reread_iff`).
-/

namespace Cerid.Document

inductive Object (F : Type) where
  | none
  | bool (b : Bool)
  | int (n : Int)
  | float (x : F)
  | nan
  | str (s : Str)
  | list (items : List (Object F))
  | tuple (items : List (Object F))
  | dict (items : List (Key F × Object F))
  /-- A value that JSON has no text for. -/
  | other

variable {F : Type} [Floats F]

/-- Keys that are one key of a dict. -/
def Key.same : Key F → Key F → Bool
  | .str s, .str t => s = t
  | .none, .none => true
  | a, b =>
    match a.number, b.number with
    | some p, some q => p = q
    | _, _ => false

theorem Value.exists_of_forall₂ {α β : Type} {P : α → β → Prop} {xs : List α} {ys : List β}
    (h : List.Forall₂ P xs ys) {x : α} (hx : x ∈ xs) : ∃ y ∈ ys, P x y := by
  induction h with
  | nil => exact absurd hx List.not_mem_nil
  | @cons a b _ _ hab _ ih =>
    rcases List.mem_cons.mp hx with rfl | hx
    · exact ⟨b, List.mem_cons_self, hab⟩
    · obtain ⟨y, hy, hP⟩ := ih hx
      exact ⟨y, List.mem_cons_of_mem _ hy, hP⟩

namespace Object

/-- What a value is as a number. -/
def number : Object F → Option (WithBot (WithTop ℚ))
  | int n => some ((n : ℚ) : WithTop ℚ)
  | bool b => some ((if b then 1 else 0 : ℚ) : WithTop ℚ)
  | float x => some (Floats.value x)
  | _ => Option.none

mutual

/-- The document that is written. -/
def toDoc : Object F → Option (Doc F)
  | none => some .null
  | bool b => some (.bool b)
  | int n => some (.int n)
  | float x => some (.float x)
  | nan => some .nan
  | str s => some (.str s)
  | list items => (toDocs items).map .arr
  | tuple items => (toDocs items).map .arr
  | dict items => (toMembers items).map .obj
  | other => Option.none

def toDocs : List (Object F) → Option (List (Doc F))
  | [] => some []
  | v :: rest => do
    let d ← v.toDoc
    let ds ← toDocs rest
    return d :: ds

def toMembers : List (Key F × Object F) → Option (List (Str × Doc F))
  | [] => some []
  | (k, v) :: rest => do
    let d ← v.toDoc
    let ds ← toMembers rest
    return (k.text, d) :: ds

end

/-- A member met again has the value met last, at the place of the first. -/
def gather {α : Type} (members : List (Str × α)) : List (Str × α) :=
  members.foldl (fun items m => setItem items m.1 m.2) []

mutual

/-- The value that is read. -/
def ofDoc : Doc F → Object F
  | .null => none
  | .bool b => bool b
  | .int n => int n
  | .float x => float x
  | .nan => nan
  | .str s => str (joined s)
  | .arr items => list (ofDocs items)
  | .obj members => dict ((gather (ofMembers members)).map fun m => (Key.str m.1, m.2))

def ofDocs : List (Doc F) → List (Object F)
  | [] => []
  | v :: rest => ofDoc v :: ofDocs rest

def ofMembers : List (Str × Doc F) → List (Str × Object F)
  | [] => []
  | (k, v) :: rest => (joined k, ofDoc v) :: ofMembers rest

end

mutual

/-- `==`. -/
def same : Object F → Object F → Bool
  | none, none => true
  | str s, str t => s = t
  | list xs, list ys => sameItems xs ys
  | tuple xs, tuple ys => sameItems xs ys
  | dict xs, dict ys => xs.length = ys.length && sameMembers xs ys
  | a, b =>
    match a.number, b.number with
    | some p, some q => p = q
    | _, _ => false

def sameItems : List (Object F) → List (Object F) → Bool
  | [], [] => true
  | v :: rest, w :: more => v.same w && sameItems rest more
  | _, _ => false

def sameMembers : List (Key F × Object F) → List (Key F × Object F) → Bool
  | [], _ => true
  | (k, v) :: rest, ys =>
    (match ys.find? fun m => k.same m.1 with
      | some m => v.same m.2
      | Option.none => false) && sameMembers rest ys

end

/-- A key that is read back. -/
def KeptKey : Key F → Prop
  | .str s => joined s = s
  | _ => False

mutual

/-- No tuple, no value that is not equal to itself, and no key but a text. -/
def Kept : Object F → Prop
  | nan | tuple _ | other => False
  | str s => joined s = s
  | list items => KeptItems items
  | dict items => (items.map Prod.fst).Nodup ∧ KeptMembers items
  | _ => True

def KeptItems : List (Object F) → Prop
  | [] => True
  | v :: rest => v.Kept ∧ KeptItems rest

def KeptMembers : List (Key F × Object F) → Prop
  | [] => True
  | (k, v) :: rest => KeptKey k ∧ v.Kept ∧ KeptMembers rest

end

variable {F : Type}

theorem keptItems_iff (items : List (Object F)) : KeptItems items ↔ ∀ v ∈ items, v.Kept := by
  induction items with
  | nil => exact iff_of_true trivial fun v hv => absurd hv List.not_mem_nil
  | cons v rest ih => rw [KeptItems, ih, List.forall_mem_cons]

theorem keptMembers_iff (items : List (Key F × Object F)) :
    KeptMembers items ↔ ∀ m ∈ items, KeptKey m.1 ∧ m.2.Kept := by
  induction items with
  | nil => exact iff_of_true trivial fun m hm => absurd hm List.not_mem_nil
  | cons m rest ih => rw [KeptMembers, ih, List.forall_mem_cons, and_assoc]

theorem ofDocs_eq_map (docs : List (Doc F)) : ofDocs docs = docs.map ofDoc := by
  induction docs with
  | nil => rfl
  | cons d rest ih => rw [ofDocs, ih, List.map_cons]

theorem ofMembers_eq_map (members : List (Str × Doc F)) :
    ofMembers members = members.map fun m => (joined m.1, ofDoc m.2) := by
  induction members with
  | nil => rfl
  | cons m rest ih => rw [ofMembers, ih, List.map_cons]

theorem gather_of_nodup {α : Type} {members : List (Str × α)}
    (h : (members.map Prod.fst).Nodup) : gather members = members :=
  Value.foldl_setItem_of_nodup [] h

theorem nodup_gather {α : Type} (members : List (Str × α)) :
    ((gather members).map Prod.fst).Nodup :=
  Value.nodup_foldl_setItem members List.nodup_nil

theorem mem_of_mem_gather {α : Type} {members : List (Str × α)} {m : Str × α}
    (h : m ∈ gather members) : m ∈ members :=
  (Value.mem_foldl_setItem h).resolve_left List.not_mem_nil

/-- Induction over the values within a value. -/
theorem within {P : Object F → Prop} (none : P none) (bool : ∀ b, P (bool b)) (int : ∀ n, P (int n))
    (float : ∀ x, P (float x)) (nan : P nan) (str : ∀ s, P (str s))
    (list : ∀ items, (∀ v ∈ items, P v) → P (list items))
    (tuple : ∀ items, (∀ v ∈ items, P v) → P (tuple items))
    (dict : ∀ items : List (Key F × Object F), (∀ m ∈ items, P m.2) → P (dict items))
    (other : P other) (v : Object F) : P v := by
  refine @Object.rec F P (fun items => ∀ v ∈ items, P v) (fun items => ∀ m ∈ items, P m.2)
    (fun m => P m.2) none bool int float nan str (fun items h => list items h)
    (fun items h => tuple items h) (fun items h => dict items h) other ?_ ?_ ?_ ?_ ?_ v
  · exact fun v hv => absurd hv List.not_mem_nil
  · exact fun v rest hv hrest => List.forall_mem_cons.mpr ⟨hv, hrest⟩
  · exact fun m hm => absurd hm List.not_mem_nil
  · exact fun m rest hm hrest => List.forall_mem_cons.mpr ⟨hm, hrest⟩
  · exact fun k v hv => hv

/-- Reading joins the strings itself. -/
theorem ofDoc_joined (d : Doc F) : ofDoc d.joined = ofDoc d := by
  induction d using Doc.within with
  | str s => rw [Doc.joined, ofDoc, ofDoc, joined_joined]
  | arr items ih =>
    rw [Doc.joined, ofDoc, ofDoc, ofDocs_eq_map, ofDocs_eq_map, Doc.joinedItems_eq_map,
      List.map_map]
    exact congrArg _ (List.map_congr_left ih)
  | obj members ih =>
    have hmembers : ofMembers (Doc.joinedMembers members) = ofMembers members := by
      rw [ofMembers_eq_map, ofMembers_eq_map, Doc.joinedMembers_eq_map, List.map_map]
      refine List.map_congr_left fun m hm => ?_
      show (joined (joined m.1), ofDoc m.2.joined) = (joined m.1, ofDoc m.2)
      rw [joined_joined, ih m hm]
    rw [Doc.joined, ofDoc, ofDoc, hmembers]
  | _ => rfl

theorem ofDoc_of_write [Floats F] {d d' : Doc F} (h : d.write = d'.write) : ofDoc d = ofDoc d' := by
  rw [← ofDoc_joined d, Doc.joined_of_write h, ofDoc_joined]

section Written

variable [Floats F]

theorem toDocs_some {items : List (Object F)} {docs : List (Doc F)} :
    toDocs items = some docs ↔ List.Forall₂ (fun v d => toDoc v = some d) items docs := by
  induction items generalizing docs with
  | nil => simp [toDocs, eq_comm]
  | cons v rest ih =>
    cases docs with
    | nil => simp [toDocs, Option.bind_eq_some_iff]
    | cons d ds =>
      rw [List.forall₂_cons, ← ih]
      simp [toDocs, Option.bind_eq_some_iff]

theorem toMembers_some {items : List (Key F × Object F)} {members : List (Str × Doc F)} :
    toMembers items = some members ↔
      List.Forall₂ (fun m d => m.1.text = d.1 ∧ toDoc m.2 = some d.2) items members := by
  induction items generalizing members with
  | nil => simp [toMembers, eq_comm]
  | cons m rest ih =>
    cases members with
    | nil => simp [toMembers, Option.bind_eq_some_iff]
    | cons d ds =>
      rw [List.forall₂_cons, ← ih]
      obtain ⟨k, v⟩ := m
      obtain ⟨t, d⟩ := d
      simp [toMembers, Option.bind_eq_some_iff]
      tauto

end Written

/-! ## What is kept -/

section Same

variable [Floats F]

omit [Floats F] in
theorem keptKey_iff (k : Key F) : KeptKey k ↔ ∃ s, k = .str s ∧ joined s = s := by
  cases k with
  | str s => exact ⟨fun h => ⟨s, rfl, h⟩, fun ⟨t, ht, h⟩ => by rw [Key.str.inj ht]; exact h⟩
  | _ => exact ⟨fun h => absurd h id, fun ⟨t, ht, _⟩ => by cases ht⟩

theorem Key.same_str {k : Key F} {s : Str} : Key.same (.str s) k = true ↔ k = .str s := by
  cases k with
  | str t => simp [Key.same, eq_comm]
  | _ => simp [Key.same, Key.number]

/-- What is kept is read back as it was. -/
theorem ofDoc_toDoc {v : Object F} (h : v.Kept) : ∃ d, toDoc v = some d ∧ ofDoc d = v := by
  induction v using within with
  | nan | tuple items ih | other => exact absurd h id
  | none => exact ⟨.null, rfl, rfl⟩
  | bool b => exact ⟨.bool b, rfl, rfl⟩
  | int n => exact ⟨.int n, rfl, rfl⟩
  | float x => exact ⟨.float x, rfl, rfl⟩
  | str s => exact ⟨.str s, rfl, congrArg str h⟩
  | list items ih =>
    rw [Kept, keptItems_iff] at h
    obtain ⟨docs, hdocs⟩ := Value.forall₂_of_mem fun v hv => ih v hv (h v hv)
    refine ⟨.arr docs, ?_, ?_⟩
    · rw [toDoc, toDocs_some.mpr (hdocs.imp fun _ _ hd => hd.1)]
      rfl
    · rw [ofDoc, ofDocs_eq_map]
      refine congrArg list ?_
      clear ih h
      induction hdocs with
      | nil => rfl
      | cons hd _ ih => rw [List.map_cons, ih, hd.2]
  | dict items ih =>
    obtain ⟨hnodup, hkept⟩ := h
    rw [keptMembers_iff] at hkept
    have hmember : ∀ m ∈ items, ∃ d : Str × Doc F, (m.1.text = d.1 ∧ toDoc m.2 = some d.2) ∧
        (Key.str (joined d.1), ofDoc d.2) = m := by
      intro m hm
      obtain ⟨s, hs, hjoined⟩ := (keptKey_iff m.1).mp (hkept m hm).1
      obtain ⟨d, hd, hof⟩ := ih m hm (hkept m hm).2
      refine ⟨(s, d), ⟨by rw [hs]; rfl, hd⟩, Prod.ext ?_ hof⟩
      rw [hs, hjoined]
    obtain ⟨members, hmembers⟩ := Value.forall₂_of_mem hmember
    have hread : (ofMembers members).map (fun m => (Key.str m.1, m.2)) = items := by
      rw [ofMembers_eq_map, List.map_map]
      clear ih hnodup hkept hmember
      induction hmembers with
      | nil => rfl
      | cons hd _ ih => rw [List.map_cons, ih, ← hd.2]; rfl
    have hkeys : ((ofMembers members).map Prod.fst).Nodup := by
      rw [← hread, List.map_map] at hnodup
      refine List.Nodup.of_map (Key.str (F := F)) ?_
      rwa [List.map_map]
    refine ⟨.obj members, ?_, ?_⟩
    · rw [toDoc, toMembers_some.mpr (hmembers.imp fun _ _ hd => hd.1)]
      rfl
    · rw [ofDoc, gather_of_nodup hkeys, hread]

theorem sameItems_iff (xs ys : List (Object F)) :
    sameItems xs ys = true ↔ List.Forall₂ (fun v w => same v w = true) xs ys := by
  induction xs generalizing ys with
  | nil =>
    cases ys with
    | nil => exact iff_of_true rfl .nil
    | cons w more => exact iff_of_false Bool.false_ne_true nofun
  | cons v rest ih =>
    cases ys with
    | nil => exact iff_of_false Bool.false_ne_true nofun
    | cons w more => rw [sameItems, Bool.and_eq_true, ih, List.forall₂_cons]

theorem sameMembers_iff (xs ys : List (Key F × Object F)) :
    sameMembers xs ys = true ↔
      ∀ m ∈ xs, ∃ m' ∈ ys.find? fun m' => Key.same m.1 m'.1, same m.2 m'.2 = true := by
  induction xs with
  | nil => exact iff_of_true rfl fun m hm => absurd hm List.not_mem_nil
  | cons m rest ih =>
    obtain ⟨k, v⟩ := m
    rw [sameMembers, Bool.and_eq_true, ih, List.forall_mem_cons]
    refine and_congr_left fun _ => ?_
    cases ys.find? fun m' => Key.same k m'.1 with
    | none => simp
    | some m' => simp

/-- A text is looked up where it stands. -/
theorem find?_str {items : List (Key F × Object F)} (hnodup : (items.map Prod.fst).Nodup)
    {m : Key F × Object F} (hm : m ∈ items) {s : Str} (hs : m.1 = .str s) :
    items.find? (fun m' => Key.same m.1 m'.1) = some m := by
  cases hfind : items.find? fun m' => Key.same m.1 m'.1 with
  | none =>
    have hself := List.find?_eq_none.mp hfind m hm
    exact absurd (by rw [hs]; exact Key.same_str.mpr rfl) hself
  | some m' =>
    have hkey : m'.1 = m.1 := by
      have hsame := List.find?_some hfind
      rw [hs] at hsame ⊢
      exact Key.same_str.mp hsame
    rw [List.inj_on_of_nodup_map hnodup (List.mem_of_find?_eq_some hfind) hm hkey]

theorem same_self {v : Object F} (h : v.Kept) : same v v = true := by
  induction v using within with
  | nan | tuple items ih | other => exact absurd h id
  | none => rfl
  | bool b => simp [same, number]
  | int n => simp [same, number]
  | float x => simp [same, number]
  | str s => simp [same]
  | list items ih =>
    rw [Kept, keptItems_iff] at h
    rw [same, sameItems_iff, List.forall₂_same]
    exact fun v hv => ih v hv (h v hv)
  | dict items ih =>
    obtain ⟨hnodup, hkept⟩ := h
    rw [keptMembers_iff] at hkept
    rw [same, Bool.and_eq_true, sameMembers_iff]
    refine ⟨decide_eq_true rfl, fun m hm => ⟨m, ?_, ih m hm (hkept m hm).2⟩⟩
    obtain ⟨s, hs, _⟩ := (keptKey_iff m.1).mp (hkept m hm).1
    exact find?_str hnodup hm hs

/-- The keys of a dict that is equal to what was read of its text. -/
theorem keys_of_same {items : List (Key F × Object F)} {members : List (Str × Doc F)}
    (hdocs : List.Forall₂ (fun m d => m.1.text = d.1 ∧ toDoc m.2 = some d.2) items members)
    (hsame : same (ofDoc (.obj members)) (dict items) = true) :
    (items.map Prod.fst).Nodup ∧ (∀ m ∈ items, KeptKey m.1) ∧
      gather (ofMembers members) = ofMembers members := by
  rw [ofDoc, same, Bool.and_eq_true, decide_eq_true_eq, List.length_map, sameMembers_iff] at hsame
  obtain ⟨hlength, hmem⟩ := hsame
  have hsub : ((gather (ofMembers members)).map fun m => Key.str (F := F) m.1) ⊆
      items.map Prod.fst := by
    intro k hk
    obtain ⟨m, hm, rfl⟩ := List.mem_map.mp hk
    obtain ⟨m', hfind, _⟩ := hmem (.str m.1, m.2) (List.mem_map.mpr ⟨m, hm, rfl⟩)
    have hkey : m'.1 = .str m.1 := Key.same_str.mp (List.find?_some (Option.mem_def.mp hfind) :)
    exact List.mem_map.mpr ⟨m', List.mem_of_find?_eq_some hfind, hkey⟩
  have hnodup : ((gather (ofMembers members)).map fun m => Key.str (F := F) m.1).Nodup := by
    have h := (nodup_gather (ofMembers members)).map fun s t : Str => Key.str.inj (F := F)
    rwa [List.map_map] at h
  have hperm := (List.subperm_of_subset hnodup hsub).perm_of_length_le (by
    rw [List.length_map, List.length_map, hlength])
  have hkept : ∀ m ∈ items, KeptKey m.1 := by
    intro m hm
    obtain ⟨r, hr, hkey⟩ := List.mem_map.mp (hperm.mem_iff.mpr (List.mem_map_of_mem hm))
    have hread := mem_of_mem_gather hr
    rw [ofMembers_eq_map] at hread
    obtain ⟨d, _, rfl⟩ := List.mem_map.mp hread
    exact (keptKey_iff m.1).mpr ⟨joined d.1, hkey.symm, joined_joined d.1⟩
  have hkeys : (ofMembers members).map (fun m => Key.str (F := F) m.1) = items.map Prod.fst := by
    rw [ofMembers_eq_map, List.map_map]
    clear hsub hnodup hperm hmem hlength
    induction hdocs with
    | nil => rfl
    | @cons m d _ _ hd _ ih =>
      obtain ⟨s, hs, hjoined⟩ := (keptKey_iff m.1).mp (hkept m List.mem_cons_self)
      rw [List.map_cons, List.map_cons, ih fun m hm => hkept m (List.mem_cons_of_mem _ hm)]
      refine congrArg (· :: _) ?_
      show Key.str (joined d.1) = m.1
      rw [← hd.1, hs, Key.text, hjoined]
  refine ⟨hperm.nodup_iff.mp hnodup, hkept, gather_of_nodup ?_⟩
  have hall : ((ofMembers members).map fun m => Key.str (F := F) m.1).Nodup :=
    hkeys ▸ hperm.nodup_iff.mp hnodup
  refine List.Nodup.of_map (Key.str (F := F)) ?_
  rwa [List.map_map]

theorem kept_of_same {v : Object F} {d : Doc F} (hd : toDoc v = some d)
    (hsame : same (ofDoc d) v = true) : v.Kept := by
  induction v using within generalizing d with
  | none => trivial
  | bool b => trivial
  | int n => trivial
  | float x => trivial
  | nan =>
    obtain rfl := Option.some.inj hd
    simp [ofDoc, same, number] at hsame
  | other => cases hd
  | str s =>
    obtain rfl := Option.some.inj hd
    rw [ofDoc, same, decide_eq_true_eq] at hsame
    exact hsame
  | tuple items ih =>
    obtain ⟨docs, _, rfl⟩ := Option.map_eq_some_iff.mp hd
    simp [ofDoc, same, number] at hsame
  | list items ih =>
    obtain ⟨docs, hsome, rfl⟩ := Option.map_eq_some_iff.mp hd
    rw [ofDoc, same, sameItems_iff, ofDocs_eq_map, List.forall₂_map_left_iff] at hsame
    rw [Kept, keptItems_iff]
    have hdocs := toDocs_some.mp hsome
    clear hd hsome
    induction hdocs with
    | nil => exact fun v hv => absurd hv List.not_mem_nil
    | cons hd _ ihrest =>
      obtain ⟨hv, hrest⟩ := List.forall₂_cons.mp hsame
      exact List.forall_mem_cons.mpr ⟨ih _ List.mem_cons_self hd hv,
        ihrest (fun v hv => ih v (List.mem_cons_of_mem _ hv)) hrest⟩
  | dict items ih =>
    obtain ⟨members, hmembers, rfl⟩ := Option.map_eq_some_iff.mp hd
    have hdocs := toMembers_some.mp hmembers
    obtain ⟨hnodup, hkept, hgather⟩ := keys_of_same hdocs hsame
    rw [ofDoc, same, Bool.and_eq_true, sameMembers_iff, hgather] at hsame
    rw [Kept, keptMembers_iff]
    refine ⟨hnodup, fun m hm => ⟨hkept m hm, ?_⟩⟩
    obtain ⟨s, hs, hjoined⟩ := (keptKey_iff m.1).mp (hkept m hm)
    obtain ⟨d, hmem, htext, hdoc⟩ := Value.exists_of_forall₂ hdocs hm
    have hread : (Key.str (F := F) s, ofDoc d.2) ∈
        (ofMembers members).map fun r => (Key.str r.1, r.2) := by
      rw [ofMembers_eq_map, List.map_map]
      refine List.mem_map.mpr ⟨d, hmem, ?_⟩
      show (Key.str (joined d.1), ofDoc d.2) = (Key.str s, ofDoc d.2)
      rw [← htext, hs, Key.text, hjoined]
    obtain ⟨m', hfind, hvalue⟩ := hsame.2 _ hread
    rw [← hs, find?_str hnodup hm hs] at hfind
    rw [Option.mem_some] at hfind
    rw [← hfind] at hvalue
    exact ih m hm hdoc hvalue

/-- A value is equal to what is read back of it. -/
theorem same_reread_iff {v : Object F} {d : Doc F} (hd : toDoc v = some d) :
    same (ofDoc d) v = true ↔ v.Kept := by
  refine ⟨kept_of_same hd, fun h => ?_⟩
  obtain ⟨d', hd', hof⟩ := ofDoc_toDoc h
  obtain rfl := Option.some.inj (hd.symm.trans hd')
  rw [hof]
  exact same_self h

end Same

end Object

end Cerid.Document
