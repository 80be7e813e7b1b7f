import Cerid.Lib.Dict
import Cerid.Lib.Document
import Mathlib.Algebra.Order.Ring.Unbundled.Rat
import Mathlib.Data.List.Sort

/-!
# Values and their documents

The values of a scripting language that JSON can hold.  `encode` is the document that
`dumps` writes with its keys sorted, as keys and not as the texts they are written as;
`decode` is the value that `loads` makes of a document.  A document that was read and
written again is the one it was exactly when the keys of its objects ascend as texts
(`write_reencoded_iff`).
-/

namespace Cerid.Document

/-- A key of a dict that may be written as a text. -/
inductive Key (F : Type) where
  | str (s : Str)
  | int (n : Int)
  | bool (b : Bool)
  | float (x : F)
  | none

inductive Value (F : Type) where
  | none
  | bool (b : Bool)
  | int (n : Int)
  | float (x : F)
  | nan
  | str (s : Str)
  | list (items : List (Value F))
  | dict (items : List (Key F × Value F))

variable {F : Type} [Floats F]

namespace Key

/-- What a key is as a number. -/
def number : Key F → Option (WithBot (WithTop ℚ))
  | int n => some ((n : ℚ) : WithTop ℚ)
  | bool b => some ((if b then 1 else 0 : ℚ) : WithTop ℚ)
  | float x => some (Floats.value x)
  | _ => Option.none

omit [Floats F] in
def isStr : Key F → Bool
  | str _ => true
  | _ => false

def le : Key F → Key F → Bool
  | str s, str t => s ≤ t
  | a, b =>
    match a.number, b.number with
    | some p, some q => p ≤ q
    | _, _ => true

/-- Keys that `sorted` can compare with each other. -/
def comparable (keys : List (Key F)) : Bool :=
  keys.length ≤ 1 || keys.all isStr || keys.all (fun k => k.number.isSome)

/-- The text that a key is written as. -/
def text : Key F → Str
  | str s => s
  | int n => spell (intText n)
  | bool true => Document.str "true"
  | bool false => Document.str "false"
  | float x => spell (Floats.repr x)
  | none => Document.str "null"

end Key

namespace Value

mutual

/-- The document that is written, unless keys do not compare. -/
def encode : Value F → Option (Doc F)
  | none => some .null
  | bool b => some (.bool b)
  | int n => some (.int n)
  | float x => some (.float x)
  | nan => some .nan
  | str s => some (.str s)
  | list items => (encodeItems items).map .arr
  | dict items =>
    if Key.comparable (items.map Prod.fst) then
      (encodeMembers items).map (fun members =>
        .obj ((members.insertionSort (fun a b => a.1.le b.1)).map (fun m => (m.1.text, m.2))))
    else Option.none

def encodeItems : List (Value F) → Option (List (Doc F))
  | [] => some []
  | v :: rest => do
    let d ← v.encode
    let ds ← encodeItems rest
    return d :: ds

def encodeMembers : List (Key F × Value F) → Option (List (Key F × Doc F))
  | [] => some []
  | (k, v) :: rest => do
    let d ← v.encode
    let ds ← encodeMembers rest
    return (k, d) :: ds

end

/-- Members with the last value of every key, in the order of the keys.  The order of a
dict that was read is nowhere looked at. -/
def settle {α : Type} (members : List (Str × α)) : List (Str × α) :=
  (members.foldl (fun items m => setItem items m.1 m.2) []).insertionSort (fun a b => a.1 ≤ b.1)

mutual

/-- The value that is read. -/
def decode : Doc F → Value F
  | .null => none
  | .bool b => bool b
  | .int n => int n
  | .float x => float x
  | .nan => nan
  | .str s => str (joined s)
  | .arr items => list (decodeItems items)
  | .obj members => dict ((settle (decodeMembers members)).map (fun m => (Key.str m.1, m.2)))

def decodeItems : List (Doc F) → List (Value F)
  | [] => []
  | v :: rest => decode v :: decodeItems rest

def decodeMembers : List (Str × Doc F) → List (Str × Value F)
  | [] => []
  | (k, v) :: rest => (joined k, decode v) :: decodeMembers rest

end

end Value

namespace Doc

mutual

/-- The keys of every object ascend. -/
def Ascending : Doc F → Prop
  | .arr items => AscendingItems items
  | .obj members => (members.map Prod.fst).Pairwise (· < ·) ∧ AscendingMembers members
  | _ => True

def AscendingItems : List (Doc F) → Prop
  | [] => True
  | v :: rest => v.Ascending ∧ AscendingItems rest

def AscendingMembers : List (Str × Doc F) → Prop
  | [] => True
  | (_, v) :: rest => v.Ascending ∧ AscendingMembers rest

end

omit [Floats F]

theorem ascendingItems_iff (items : List (Doc F)) :
    AscendingItems items ↔ ∀ v ∈ items, v.Ascending := by
  induction items with
  | nil => exact iff_of_true trivial (fun v hv => absurd hv List.not_mem_nil)
  | cons v rest ih => rw [AscendingItems, ih, List.forall_mem_cons]

theorem ascendingMembers_iff (members : List (Str × Doc F)) :
    AscendingMembers members ↔ ∀ m ∈ members, m.2.Ascending := by
  induction members with
  | nil => exact iff_of_true trivial (fun m hm => absurd hm List.not_mem_nil)
  | cons m rest ih => rw [AscendingMembers, ih, List.forall_mem_cons]

theorem ascending_arr (items : List (Doc F)) : (arr items).Ascending ↔ ∀ v ∈ items, v.Ascending := by
  rw [Ascending, ascendingItems_iff]

theorem ascending_obj (members : List (Str × Doc F)) :
    (obj members).Ascending ↔
      (members.map Prod.fst).Pairwise (· < ·) ∧ ∀ m ∈ members, m.2.Ascending := by
  rw [Ascending, ascendingMembers_iff]

end Doc

namespace Value

section Settle

variable {α : Type}

theorem setItem_of_not_mem {items : List (Str × α)} {k : Str} {v : α}
    (h : k ∉ items.map Prod.fst) : setItem items k v = items ++ [(k, v)] := by
  induction items with
  | nil => rfl
  | cons m rest ih =>
    rw [List.map_cons, List.mem_cons, not_or] at h
    rw [setItem, if_neg (fun he => h.1 he.symm), ih h.2, List.cons_append]

theorem foldl_setItem_of_nodup {members : List (Str × α)} (acc : List (Str × α))
    (h : ((acc ++ members).map Prod.fst).Nodup) :
    members.foldl (fun items m => setItem items m.1 m.2) acc = acc ++ members := by
  induction members generalizing acc with
  | nil => rw [List.foldl_nil, List.append_nil]
  | cons m rest ih =>
    have hm : m.1 ∉ acc.map Prod.fst := by
      rw [List.map_append, List.nodup_append] at h
      exact fun hmem => h.2.2 m.1 hmem m.1 List.mem_cons_self rfl
    rw [List.foldl_cons, setItem_of_not_mem hm, ih _ (by rwa [List.append_assoc]),
      List.append_assoc]
    rfl

theorem settle_of_ascending {members : List (Str × α)}
    (h : (members.map Prod.fst).Pairwise (· < ·)) : settle members = members := by
  rw [settle, foldl_setItem_of_nodup [] (h.imp ne_of_lt), List.nil_append]
  exact (List.pairwise_map.mp (h.imp le_of_lt)).insertionSort_eq

theorem nodup_foldl_setItem (members : List (Str × α)) {acc : List (Str × α)}
    (h : (acc.map Prod.fst).Nodup) :
    ((members.foldl (fun items m => setItem items m.1 m.2) acc).map Prod.fst).Nodup := by
  induction members generalizing acc with
  | nil => exact h
  | cons m rest ih =>
    refine ih ?_
    rw [setItem_keys]
    split
    · exact h
    · next hm => exact List.nodup_append.mpr ⟨h, List.nodup_singleton _, fun a ha b hb => by
        rw [List.mem_singleton.mp hb]
        rintro rfl
        exact hm ha⟩

theorem settle_ascending (members : List (Str × α)) :
    ((settle members).map Prod.fst).Pairwise (· < ·) := by
  have hnodup := @nodup_foldl_setItem α members [] List.nodup_nil
  have hperm := (List.perm_insertionSort (fun a b : Str × α => a.1 ≤ b.1)
    (members.foldl (fun items m => setItem items m.1 m.2) [])).map Prod.fst
  have hle := List.pairwise_map.mpr (List.pairwise_insertionSort (fun a b : Str × α => a.1 ≤ b.1)
    (members.foldl (fun items m => setItem items m.1 m.2) []))
  exact (hle.and (hperm.nodup_iff.mpr hnodup)).imp (fun h => lt_of_le_of_ne h.1 h.2)

theorem mem_foldl_setItem {members acc : List (Str × α)} {m : Str × α}
    (h : m ∈ members.foldl (fun items m => setItem items m.1 m.2) acc) :
    m ∈ acc ∨ m ∈ members := by
  induction members generalizing acc with
  | nil => exact Or.inl h
  | cons m' rest ih =>
    have hset : ∀ items : List (Str × α), m ∈ setItem items m'.1 m'.2 → m ∈ items ∨ m = m' := by
      intro items hm
      induction items with
      | nil => exact Or.inr (List.mem_singleton.mp hm)
      | cons p items ihi =>
        rw [setItem] at hm
        split at hm
        · next hk =>
          rcases List.mem_cons.mp hm with hm | hm
          · exact Or.inr (hm.trans (by rw [hk]))
          · exact Or.inl (List.mem_cons_of_mem p hm)
        · rcases List.mem_cons.mp hm with hm | hm
          · exact Or.inl (hm ▸ List.mem_cons_self)
          · exact (ihi hm).imp_left (List.mem_cons_of_mem p)
    rcases ih h with h | h
    · exact (hset acc h).imp_right (fun hm => List.mem_cons.mpr (Or.inl hm))
    · exact Or.inr (List.mem_cons_of_mem m' h)

theorem mem_settle {members : List (Str × α)} {m : Str × α} (h : m ∈ settle members) :
    m ∈ members :=
  (mem_foldl_setItem ((List.mem_insertionSort _).mp h)).resolve_left List.not_mem_nil

end Settle

/-- A member of a dict whose keys are strings. -/
def strKey {α : Type} (m : Str × α) : Key F × α := (Key.str m.1, m.2)

section Decode

omit [Floats F]

theorem decodeItems_eq_map (items : List (Doc F)) : decodeItems items = items.map decode := by
  induction items with
  | nil => rfl
  | cons v rest ih => rw [decodeItems, ih, List.map_cons]

theorem decodeMembers_eq_map (members : List (Str × Doc F)) :
    decodeMembers members = members.map (fun m => (joined m.1, decode m.2)) := by
  induction members with
  | nil => rfl
  | cons m rest ih => rw [decodeMembers, ih, List.map_cons]

theorem keys_decodeMembers (members : List (Str × Doc F)) :
    (decodeMembers members).map Prod.fst = (Doc.joinedMembers members).map Prod.fst := by
  rw [decodeMembers_eq_map, Doc.joinedMembers_eq_map, List.map_map, List.map_map]
  rfl

theorem decode_obj_of_ascending {members : List (Str × Doc F)}
    (h : ((Doc.joinedMembers members).map Prod.fst).Pairwise (· < ·)) :
    decode (.obj members) = dict ((decodeMembers members).map strKey) := by
  rw [decode, settle_of_ascending (by rwa [keys_decodeMembers])]
  rfl

end Decode

theorem comparable_strKey {α : Type} (members : List (Str × α)) :
    Key.comparable ((members.map (strKey (F := F))).map Prod.fst) = true := by
  have hall : ((members.map (strKey (F := F))).map Prod.fst).all Key.isStr = true := by
    rw [List.all_eq_true, List.map_map]
    intro k hk
    obtain ⟨m, _, rfl⟩ := List.mem_map.mp hk
    rfl
  rw [Key.comparable, hall, Bool.or_true, Bool.true_or]

/-- A dict of strings in their order is written in that order. -/
theorem encode_dict_strKey {items : List (Str × Value F)} {members : List (Str × Doc F)}
    (hkeys : (members.map Prod.fst).Pairwise (· < ·))
    (h : encodeMembers (items.map strKey) = some (members.map strKey)) :
    encode (dict (items.map strKey)) = some (.obj members) := by
  have hsorted : ((members.map (strKey (F := F))).Pairwise (fun a b => a.1.le b.1 = true)) := by
    refine List.pairwise_map.mpr ((List.pairwise_map.mp hkeys).imp (fun hlt => ?_))
    exact decide_eq_true (le_of_lt hlt)
  rw [encode, if_pos (comparable_strKey items), h, Option.map_some, hsorted.insertionSort_eq,
    List.map_map]
  refine congrArg (fun ms => some (Doc.obj ms)) ?_
  exact List.map_id members

theorem encodeItems_some {items : List (Value F)} {docs : List (Doc F)}
    (h : List.Forall₂ (fun v d => encode v = some d) items docs) :
    encodeItems items = some docs := by
  induction h with
  | nil => rfl
  | cons hv _ ih =>
    rw [encodeItems, hv, ih]
    rfl

theorem encodeMembers_some {items : List (Str × Value F)} {docs : List (Str × Doc F)}
    (h : List.Forall₂ (fun m d => m.1 = d.1 ∧ encode m.2 = some d.2) items docs) :
    encodeMembers (items.map strKey) = some (docs.map strKey) := by
  induction h with
  | nil => rfl
  | cons hm _ ih =>
    rw [List.map_cons, strKey, encodeMembers, hm.2, ih, List.map_cons, strKey, hm.1]
    rfl

/-- A document whose keys ascend is written again as it was read. -/
theorem encode_decode_of_ascending {w : Doc F} (h : w.joined.Ascending) :
    encode (decode w) = some w.joined := by
  induction w using Doc.within with
  | arr items ih =>
    rw [Doc.joined, Doc.ascending_arr, Doc.joinedItems_eq_map] at h
    have hall : List.Forall₂ (fun v d => encode v = some d) (decodeItems items)
        (Doc.joinedItems items) := by
      rw [decodeItems_eq_map, Doc.joinedItems_eq_map, List.forall₂_map_left_iff,
        List.forall₂_map_right_iff, List.forall₂_same]
      exact fun v hv => ih v hv (h _ (List.mem_map_of_mem hv))
    rw [decode, encode, encodeItems_some hall]
    rfl
  | obj members ih =>
    rw [Doc.joined, Doc.ascending_obj] at h
    have hall : List.Forall₂ (fun m d => m.1 = d.1 ∧ encode m.2 = some d.2)
        (decodeMembers members) (Doc.joinedMembers members) := by
      rw [Doc.joinedMembers_eq_map] at h
      rw [decodeMembers_eq_map, Doc.joinedMembers_eq_map, List.forall₂_map_left_iff,
        List.forall₂_map_right_iff, List.forall₂_same]
      exact fun m hm => ⟨rfl, ih m hm (h.2 _ (List.mem_map_of_mem hm))⟩
    rw [decode_obj_of_ascending h.1]
    exact encode_dict_strKey h.1 (encodeMembers_some hall)
  | _ => rfl

/-- A document as it is written again. -/
structure Reencoded (w w' : Doc F) : Prop where
  encode : encode (decode w) = some w'
  decode : decode w' = decode w
  ascending : w'.Ascending
  joined : w'.joined = w'

theorem forall₂_of_mem {α β : Type} {P : α → β → Prop} {xs : List α}
    (h : ∀ x ∈ xs, ∃ y, P x y) : ∃ ys, List.Forall₂ P xs ys := by
  induction xs with
  | nil => exact ⟨[], List.Forall₂.nil⟩
  | cons x rest ih =>
    obtain ⟨y, hy⟩ := h x List.mem_cons_self
    obtain ⟨ys, hys⟩ := ih (fun z hz => h z (List.mem_cons_of_mem x hz))
    exact ⟨y :: ys, List.Forall₂.cons hy hys⟩

theorem reencoded_arr {items docs : List (Doc F)} (h : List.Forall₂ Reencoded items docs) :
    Reencoded (.arr items) (.arr docs) where
  encode := by
    have hall : List.Forall₂ (fun v d => Value.encode v = some d) (decodeItems items) docs := by
      rw [decodeItems_eq_map, List.forall₂_map_left_iff]
      exact h.imp (fun _ _ hv => hv.encode)
    rw [Value.decode, Value.encode, encodeItems_some hall]
    rfl
  decode := by
    rw [Value.decode, Value.decode, decodeItems_eq_map, decodeItems_eq_map]
    refine congrArg _ ?_
    induction h with
    | nil => rfl
    | cons hv _ ih => rw [List.map_cons, List.map_cons, hv.decode, ih]
  ascending := by
    rw [Doc.ascending_arr]
    induction h with
    | nil => exact fun v hv => absurd hv List.not_mem_nil
    | cons hv _ ih => exact List.forall_mem_cons.mpr ⟨hv.ascending, ih⟩
  joined := by
    rw [Doc.joined, Doc.joinedItems_eq_map]
    refine congrArg _ ?_
    induction h with
    | nil => rfl
    | cons hv _ ih => rw [List.map_cons, hv.joined, ih]

/-- A member that was read, and the member it is written as. -/
structure ReencodedMember (m : Str × Value F) (d : Str × Doc F) : Prop where
  key : m.1 = d.1
  settled : Document.joined d.1 = d.1
  encode : Value.encode m.2 = some d.2
  decode : Value.decode d.2 = m.2
  ascending : d.2.Ascending
  joined : d.2.joined = d.2

theorem reencoded_members {items : List (Str × Value F)} {docs : List (Str × Doc F)}
    (h : List.Forall₂ ReencodedMember items docs) :
    docs.map Prod.fst = items.map Prod.fst ∧ Doc.joinedMembers docs = docs ∧
      decodeMembers docs = items ∧ ∀ d ∈ docs, d.2.Ascending := by
  induction h with
  | nil => exact ⟨rfl, rfl, rfl, fun d hd => absurd hd List.not_mem_nil⟩
  | cons hm _ ih =>
    obtain ⟨hkeys, hjoined, hdecode, hasc⟩ := ih
    refine ⟨?_, ?_, ?_, List.forall_mem_cons.mpr ⟨hm.ascending, hasc⟩⟩
    · rw [List.map_cons, List.map_cons, hkeys, hm.key]
    · rw [Doc.joinedMembers, hm.settled, hm.joined, hjoined]
    · rw [decodeMembers, hm.settled, hm.decode, hdecode, ← hm.key]

theorem reencoded_obj {members docs : List (Str × Doc F)}
    (h : List.Forall₂ ReencodedMember (settle (decodeMembers members)) docs) :
    Reencoded (.obj members) (.obj docs) := by
  obtain ⟨hkeys, hjoined, hdecode, hasc⟩ := reencoded_members h
  have hpairwise : (docs.map Prod.fst).Pairwise (· < ·) := hkeys ▸ settle_ascending _
  exact {
    encode := encode_dict_strKey hpairwise (encodeMembers_some (h.imp fun _ _ hm =>
      ⟨hm.key, hm.encode⟩))
    decode := by
      rw [decode_obj_of_ascending (hjoined.symm ▸ hpairwise), hdecode]
      rfl
    ascending := (Doc.ascending_obj docs).mpr ⟨hpairwise, hasc⟩
    joined := by rw [Doc.joined, hjoined] }

theorem exists_reencoded (w : Doc F) : ∃ w', Reencoded w w' := by
  induction w using Doc.within with
  | str s =>
    exact ⟨.str (joined s), rfl, by rw [decode, decode, joined_joined], trivial,
      by rw [Doc.joined, joined_joined]⟩
  | arr items ih =>
    obtain ⟨docs, hdocs⟩ := forall₂_of_mem ih
    exact ⟨.arr docs, reencoded_arr hdocs⟩
  | obj members ih =>
    have hmember : ∀ m ∈ settle (decodeMembers members), ∃ d, ReencodedMember m d := by
      intro m hm
      have hmem := mem_settle hm
      rw [decodeMembers_eq_map] at hmem
      obtain ⟨m', hm', rfl⟩ := List.mem_map.mp hmem
      obtain ⟨d, hd⟩ := ih m' hm'
      exact ⟨(joined m'.1, d), rfl, joined_joined _, hd.encode, hd.decode, hd.ascending, hd.joined⟩
    obtain ⟨docs, hdocs⟩ := forall₂_of_mem hmember
    exact ⟨.obj docs, reencoded_obj hdocs⟩
  | _ => exact ⟨_, rfl, rfl, trivial, rfl⟩

/-- A dict that was read, with its keys in order. -/
theorem dict_of_decode {w : Doc F} {entry : List (Key F × Value F)} (h : decode w = .dict entry) :
    ∃ members : List (Str × Doc F), Doc.joinedMembers members = members ∧
      (members.map Prod.fst).Pairwise (· < ·) ∧ entry = (decodeMembers members).map strKey := by
  obtain ⟨w', hw'⟩ := exists_reencoded w
  have hdecode := hw'.decode.trans h
  cases w' with
  | obj members =>
    have hjoined := Doc.obj.inj hw'.joined
    have hasc := ((Doc.ascending_obj members).mp hw'.ascending).1
    rw [decode_obj_of_ascending (hjoined.symm ▸ hasc)] at hdecode
    exact ⟨members, hjoined, hasc, (Value.dict.inj hdecode).symm⟩
  | _ => cases hdecode

/-- A document that was read and is written again is written alike exactly when the keys of
its objects ascend. -/
theorem write_reencoded_iff {w w' : Doc F} (h : Reencoded w w') :
    w'.write = w.write ↔ w.joined.Ascending := by
  constructor
  · intro heq
    have hjoined := Doc.joined_of_write heq
    rw [h.joined] at hjoined
    exact hjoined ▸ h.ascending
  · intro hasc
    obtain rfl := Option.some.inj (h.encode.symm.trans (encode_decode_of_ascending hasc))
    exact Doc.write_joined w

/-- What is written alike was read alike. -/
theorem decode_of_write {w v w' v' : Doc F} (hw : Reencoded w w') (hv : Reencoded v v')
    (h : w'.write = v'.write) : decode w = decode v := by
  have hjoined := Doc.joined_of_write h
  rw [hw.joined, hv.joined] at hjoined
  rw [← hw.decode, ← hv.decode, hjoined]

end Value

end Cerid.Document
