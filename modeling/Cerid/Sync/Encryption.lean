import Cerid.Sync.Forgotten

/-!
# Values in the user's files

A file of the user's state is a JSON object whose texts may be encrypted, each by itself.
Texts that are not encrypted are told apart by a mark, so a file may hold both.

A token is taken as a function of the text; that it also depends on the time and on
chance plays no role.  An encryption that raises leaves the text as it is and is left
out.
-/

namespace Cerid.Sync

/-- A JSON value; a number, a truth value or `null` is opaque. -/
inductive Value where
  | text (s : String)
  | list (items : List Value)
  | dict (entries : List (String × Value))
  | other (token : String)

/-- The cipher, with its key. -/
structure Fernet where
  encrypt : String → String
  /-- `none` is `InvalidToken`. -/
  decrypt : String → Option String
  decrypt_encrypt : ∀ s, decrypt (encrypt s) = some s

/-- What a machine is configured with for its own state. -/
structure Host where
  machineId : String
  encryptSync : Bool
  /-- The encryptor, when a key is configured. -/
  encryptor : Option Fernet

/-- `ENCRYPTED_PREFIX`. -/
def encryptedMark : String := "enc:v1:"

/-- `_encrypt_value`. -/
def encryptText (h : Host) (s : String) : String :=
  match h.encryptor with
  | none => s
  | some f =>
    if h.encryptSync = false ∨ s = "" ∨ startsWith s encryptedMark then s
    else encryptedMark ++ f.encrypt s

/-- `_decrypt_value`: what is not a token of the key stays. -/
def decryptText (h : Host) (s : String) : String :=
  match h.encryptor with
  | none => s
  | some f =>
    if startsWith s encryptedMark then (f.decrypt (withoutMark s encryptedMark)).getD s else s

def syncMetadataKeys : List String :=
  ["id", "updated_at", "machine_id", "_synced_at", "_machine_id", "createdAt", "updatedAt", "role"]

/-! ## Rewriting the texts of a value -/

section

variable (f : String → String) (skips : String → Bool)

mutual

/-- The texts of a value rewritten, except under the keys that are skipped. -/
def Value.rewrite : Value → Value
  | .text s => .text (f s)
  | .list items => .list (rewriteItems items)
  | .dict entries => .dict (rewriteEntries entries)
  | .other token => .other token

/-- A list inside a list stays as it is. -/
def rewriteItems : List Value → List Value
  | [] => []
  | v :: rest =>
    (match v with
      | .list items => .list items
      | v => v.rewrite) :: rewriteItems rest

def rewriteEntries : List (String × Value) → List (String × Value)
  | [] => []
  | e :: rest => (e.1, if skips e.1 then e.2 else e.2.rewrite) :: rewriteEntries rest

end

/-- The value of one key. -/
def rewriteEntry (key : String) (v : Value) : Value := if skips key then v else v.rewrite f skips

end

def encryptDict (h : Host) (d : Dict String Value) : Dict String Value :=
  d.mapValues (rewriteEntry (encryptText h) (fun key => key ∈ syncMetadataKeys))

def decryptDict (h : Host) (d : Dict String Value) : Dict String Value :=
  d.mapValues (rewriteEntry (decryptText h) (fun _ => false))

/-- How the value of a key reads once it has been written. -/
def readBack (h : Host) (key : String) (v : Value) : Value :=
  rewriteEntry (decryptText h) (fun _ => false) key
    (rewriteEntry (encryptText h) (fun key => key ∈ syncMetadataKeys) key v)

theorem get?_decrypt_encrypt (h : Host) (d : Dict String Value) (key : String) :
    (decryptDict h (encryptDict h d)).get? key = (d.get? key).map (readBack h key) := by
  rw [decryptDict, Dict.get?_mapValues, encryptDict, Dict.get?_mapValues, Option.map_map]
  rfl

/-! ## Values that read back as they are -/

mutual

/-- The texts in a value. -/
def Value.texts : Value → List String
  | .text s => [s]
  | .list items => textsOfItems items
  | .dict entries => textsOfEntries entries
  | .other _ => []

def textsOfItems : List Value → List String
  | [] => []
  | v :: rest => v.texts ++ textsOfItems rest

def textsOfEntries : List (String × Value) → List String
  | [] => []
  | e :: rest => e.2.texts ++ textsOfEntries rest

end

/-- The text does not look like an encrypted one. -/
def Plain (s : String) : Prop := startsWith s encryptedMark = false

theorem startsWith_append (mark s : String) : startsWith (mark ++ s) mark = true := by
  simp [startsWith, List.isPrefixOf_iff_prefix]

theorem withoutMark_append (mark s : String) : withoutMark (mark ++ s) mark = s := by
  rw [withoutMark, if_pos (startsWith_append mark s)]
  simp

theorem decryptText_plain (h : Host) {s : String} (hs : Plain s) : decryptText h s = s := by
  unfold decryptText
  cases h.encryptor with
  | none => rfl
  | some f =>
    show (if startsWith s encryptedMark then _ else s) = s
    rw [if_neg (by rw [hs]; simp)]

theorem decryptText_encryptText (h : Host) {s : String} (hs : Plain s) :
    decryptText h (encryptText h s) = s := by
  unfold encryptText
  cases hf : h.encryptor with
  | none => exact decryptText_plain h hs
  | some f =>
    show decryptText h (if h.encryptSync = false ∨ s = "" ∨ startsWith s encryptedMark then s
      else encryptedMark ++ f.encrypt s) = s
    split
    · exact decryptText_plain h hs
    · simp [decryptText, hf, startsWith_append, withoutMark_append, f.decrypt_encrypt]

section

variable {f g : String → String}

mutual

theorem rewrite_eq_self (skips : String → Bool) : ∀ v : Value, (∀ s ∈ v.texts, f s = s) →
    v.rewrite f skips = v
  | .text s, hv => congrArg Value.text (hv s (by simp [Value.texts]))
  | .list items, hv => congrArg Value.list (rewriteItems_eq_self skips items hv)
  | .dict entries, hv => congrArg Value.dict (rewriteEntries_eq_self skips entries hv)
  | .other _, _ => rfl

theorem rewriteItems_eq_self (skips : String → Bool) : ∀ items : List Value,
    (∀ s ∈ textsOfItems items, f s = s) → rewriteItems f skips items = items
  | [], _ => rfl
  | v :: rest, hv => by
    have hhead := rewrite_eq_self skips v fun s hs => hv s (List.mem_append_left _ hs)
    have hrest := rewriteItems_eq_self skips rest fun s hs => hv s (List.mem_append_right _ hs)
    cases v with
    | list inner => simp only [rewriteItems, hrest]
    | text s => simp only [rewriteItems, hrest, hhead]
    | dict entries => simp only [rewriteItems, hrest, hhead]
    | other token => simp only [rewriteItems, hrest, hhead]

theorem rewriteEntries_eq_self (skips : String → Bool) : ∀ entries : List (String × Value),
    (∀ s ∈ textsOfEntries entries, f s = s) → rewriteEntries f skips entries = entries
  | [], _ => rfl
  | e :: rest, hv => by
    have hhead := rewrite_eq_self skips e.2 fun s hs => hv s (List.mem_append_left _ hs)
    have hrest := rewriteEntries_eq_self skips rest fun s hs => hv s (List.mem_append_right _ hs)
    rw [rewriteEntries, hrest, hhead, ite_self]

end

mutual

/-- A second rewriting undoes the first when it does so on the texts, and leaves them. -/
theorem rewrite_rewrite (skips : String → Bool) : ∀ v : Value,
    (∀ s ∈ v.texts, g (f s) = s ∧ g s = s) →
    (v.rewrite f skips).rewrite g (fun _ => false) = v
  | .text s, hv => congrArg Value.text (hv s (by simp [Value.texts])).1
  | .list items, hv => congrArg Value.list (rewriteItems_rewriteItems skips items hv)
  | .dict entries, hv => congrArg Value.dict (rewriteEntries_rewriteEntries skips entries hv)
  | .other _, _ => rfl

theorem rewriteItems_rewriteItems (skips : String → Bool) : ∀ items : List Value,
    (∀ s ∈ textsOfItems items, g (f s) = s ∧ g s = s) →
    rewriteItems g (fun _ => false) (rewriteItems f skips items) = items
  | [], _ => rfl
  | v :: rest, hv => by
    have hhead := rewrite_rewrite skips v fun s hs => hv s (List.mem_append_left _ hs)
    have hrest := rewriteItems_rewriteItems skips rest
      fun s hs => hv s (List.mem_append_right _ hs)
    cases v with
    | list inner => simp only [rewriteItems, hrest]
    | text s => simpa only [rewriteItems, Value.rewrite, hrest, List.cons.injEq, and_true] using hhead
    | dict entries =>
      simpa only [rewriteItems, Value.rewrite, hrest, List.cons.injEq, and_true] using hhead
    | other token => simp only [rewriteItems, Value.rewrite, hrest]

theorem rewriteEntries_rewriteEntries (skips : String → Bool) :
    ∀ entries : List (String × Value),
    (∀ s ∈ textsOfEntries entries, g (f s) = s ∧ g s = s) →
    rewriteEntries g (fun _ => false) (rewriteEntries f skips entries) = entries
  | [], _ => rfl
  | e :: rest, hv => by
    have hrest := rewriteEntries_rewriteEntries skips rest
      fun s hs => hv s (List.mem_append_right _ hs)
    have hhead : ∀ s ∈ e.2.texts, g (f s) = s ∧ g s = s :=
      fun s hs => hv s (List.mem_append_left _ hs)
    rw [rewriteEntries, rewriteEntries, hrest, if_neg Bool.false_ne_true]
    by_cases hskip : skips e.1 = true
    · rw [if_pos hskip, rewrite_eq_self _ e.2 fun s hs => (hhead s hs).2]
    · rw [if_neg hskip, rewrite_rewrite skips e.2 hhead]

end

end

theorem readBack_plain (h : Host) {key : String} {v : Value} (hv : ∀ s ∈ v.texts, Plain s) :
    readBack h key v = v := by
  have htexts : ∀ s ∈ v.texts, decryptText h (encryptText h s) = s ∧ decryptText h s = s :=
    fun s hs => ⟨decryptText_encryptText h (hv s hs), decryptText_plain h (hv s hs)⟩
  unfold readBack rewriteEntry
  rw [if_neg Bool.false_ne_true]
  split
  · exact rewrite_eq_self _ v fun s hs => (htexts s hs).2
  · exact rewrite_rewrite _ v htexts

end Cerid.Sync
