import Cerid.Lib.Run
import Cerid.Sync.Encryption

/-!
# Settings and preferences

`write_settings` and `write_preferences` read their file, merge the update into what
they read and replace the file.  The lock of the file is held for the replacement only,
so calls interleave between their read and their replacement, and a read that fails
counts as a file without keys.

A replacement is one step; its attempts, and the directories that are made, are left out.
-/

namespace Cerid.Sync.UserState

/-! ## Calls -/

inductive File where
  | settings
  | state
deriving DecidableEq, Repr

/-- What a file holds. -/
inductive Content where
  | absent
  | object (d : Dict String Value)
  /-- JSON of another kind -/
  | notObject
  | notJson
  /-- bytes that are not UTF-8 -/
  | notText

inductive Call where
  | writeSettings (settings : Dict String Value)
  | writePreferences (preferences : Dict String Value)

def Call.file : Call → File
  | .writeSettings _ => .settings
  | .writePreferences _ => .state

def Call.update : Call → Dict String Value
  | .writeSettings settings => settings
  | .writePreferences preferences => preferences

/-- The call has read its file; `failed` says that the system refused the read, and `met`
what the file held. -/
structure Pending where
  call : Call
  now : String
  met : Content
  failed : Bool

/-- The files, and the calls between their read and their replacement. -/
structure Desk where
  content : File → Content
  pending : Nat → Option Pending

/-- Whether `_decrypt_dict(_read_json(path))` raises. -/
def raises (failed : Bool) : Content → Bool
  | .notObject => !failed
  | .notText => !failed
  | _ => false

/-- The file as a reader sees it. -/
def view (h : Host) : Content → Dict String Value
  | .object d => decryptDict h d
  | _ => .empty

/-- `_decrypt_dict(_read_json(path))`. -/
def Pending.existing (h : Host) (p : Pending) : Dict String Value :=
  if p.failed then .empty else view h p.met

/-- The keys that each write sets itself. -/
def stamps : List String := ["updated_at", "machine_id"]

/-- What a call writes. -/
def Pending.merged (h : Host) (p : Pending) : Dict String Value :=
  (((p.existing h).merge p.call.update).set "updated_at" (.text p.now)).set "machine_id"
    (.text h.machineId)

inductive Action where
  | read (id : Nat) (call : Call) (now : String) (fails : Bool)
  | replace (id : Nat) (succeeds : Bool)

def step (h : Host) (w : Desk) : Action → Desk
  | .read id call now fails =>
    if (w.pending id).isSome ∨ raises fails (w.content call.file) then w
    else { w with
      pending := Function.update w.pending id
        (some { call, now, met := w.content call.file, failed := fails }) }
  | .replace id succeeds =>
    match w.pending id with
    | none => w
    | some p => {
        content :=
          if succeeds then
            Function.update w.content p.call.file (.object (encryptDict h (p.merged h)))
          else w.content
        pending := Function.update w.pending id none }

/-! ## What a write owes to the file -/

/-- The file reads as it did with the update merged into it, and has the stamps. -/
def Merges (h : Host) (update : Dict String Value) (before after : Content) : Prop :=
  (∀ key, key ∉ stamps →
    (view h after).get? key = (update.get? key).or ((view h before).get? key)) ∧
  ∀ key ∈ stamps, ((view h after).get? key).isSome

/-- A replacement that succeeds merges its update into the file. -/
def MergesUpdate (h : Host) (w : Desk) : Action → Prop
  | .replace id true => ∀ p, w.pending id = some p →
      Merges h p.call.update (w.content p.call.file)
        ((step h w (.replace id true)).content p.call.file)
  | _ => True

/-- What the call found for a key that it does not name is, once it has been written
again, what the file has now, and the values of the update read back as they are. -/
def Undisturbed (h : Host) (w : Desk) : Action → Prop
  | .replace id true => ∀ p, w.pending id = some p → ∀ key, key ∉ stamps →
      match p.call.update.get? key with
      | some v => readBack h key v = v
      | none => ((p.existing h).get? key).map (readBack h key) =
          (view h (w.content p.call.file)).get? key
  | _ => True

theorem get?_merged_stamp (h : Host) (p : Pending) {key : String} (hkey : key ∈ stamps) :
    ((p.merged h).get? key).isSome := by
  simp only [stamps, List.mem_cons, List.not_mem_nil, or_false] at hkey
  rcases hkey with rfl | rfl <;> simp [Pending.merged]

theorem get?_merged (h : Host) (p : Pending) {key : String} (hkey : key ∉ stamps) :
    (p.merged h).get? key = (p.call.update.get? key).or ((p.existing h).get? key) := by
  simp only [stamps, List.mem_cons, List.not_mem_nil, or_false, not_or] at hkey
  rw [Pending.merged, Dict.get?_set, if_neg hkey.2, Dict.get?_set, if_neg hkey.1, Dict.get?_merge]

theorem content_replace {h : Host} {w : Desk} {id : Nat} {p : Pending}
    (hp : w.pending id = some p) :
    (step h w (.replace id true)).content p.call.file = .object (encryptDict h (p.merged h)) := by
  show (match w.pending id with
    | none => w
    | some p => _).content p.call.file = _
  rw [hp]
  exact Function.update_self _ _ _

theorem mergesUpdate_iff (h : Host) (w : Desk) (a : Action) :
    MergesUpdate h w a ↔ Undisturbed h w a := by
  match a with
  | .read _ _ _ _ => exact Iff.rfl
  | .replace _ false => exact Iff.rfl
  | .replace id true =>
    refine forall_congr' fun p => forall_congr' fun hp => ?_
    rw [content_replace hp]
    have hafter : ∀ key, (view h (.object (encryptDict h (p.merged h)))).get? key =
        ((p.merged h).get? key).map (readBack h key) := get?_decrypt_encrypt h (p.merged h)
    have hstamps : ∀ key ∈ stamps,
        ((view h (.object (encryptDict h (p.merged h)))).get? key).isSome := by
      intro key hkey
      rw [hafter, Option.isSome_map]
      exact get?_merged_stamp h p hkey
    refine (and_iff_left hstamps).trans (forall_congr' fun key => forall_congr' fun hkey => ?_)
    rw [hafter, get?_merged h p hkey]
    cases p.call.update.get? key with
    | none => exact Iff.rfl
    | some v => exact Option.some_inj

/-- In every run, the writes that succeed merge their updates into the file exactly when
each finds the file as it had read it, as far as the keys it does not name. -/
theorem mergesUpdate_run_iff (h : Host) (w : Desk) (actions : List Action) :
    Along (step h) (MergesUpdate h) w actions ↔ Along (step h) (Undisturbed h) w actions :=
  along_iff (fun _ => True) (fun w a _ => mergesUpdate_iff h w a) (fun _ _ _ _ => trivial) trivial

/-! ## A settings file with a theme -/

/-- Nothing is encrypted. -/
def unencrypted : Host := { machineId := "laptop", encryptSync := false, encryptor := none }

def entry (key value : String) : Dict String Value := Dict.empty.set key (.text value)

def themed : Desk :=
  { content := fun file =>
      match file with
      | .settings => .object (entry "theme" "dark")
      | .state => .absent
    pending := fun _ => none }

/-- A read that fails loses the theme, and of two calls that both have read the file the
first one's language is lost. -/
theorem not_mergesUpdate_run :
    ¬ Along (step unencrypted) (MergesUpdate unencrypted) themed
      [.read 0 (.writeSettings (entry "language" "en")) "10:00" true, .replace 0 true] ∧
    ¬ Along (step unencrypted) (MergesUpdate unencrypted) themed
      [.read 0 (.writeSettings (entry "language" "en")) "10:00" false,
        .read 1 (.writeSettings (entry "font" "small")) "10:01" false,
        .replace 0 true, .replace 1 true] := by
  constructor
  · intro hrun
    have htheme := (hrun.2.1 _ rfl).1 "theme" (by decide)
    exact absurd (congrArg Option.isSome htheme) (by decide)
  · intro hrun
    have hlanguage := (hrun.2.2.2.1 _ rfl).1 "language" (by decide)
    exact absurd (congrArg Option.isSome hlanguage) (by decide)

/-! ## Calls that nothing disturbs -/

/-- The action neither ends the call nor writes the file. -/
def Quiet (id : Nat) (file : File) (w : Desk) : Action → Prop
  | .read _ _ _ _ => True
  | .replace id' succeeds =>
    id' ≠ id ∧ (succeeds = true → ∀ p, w.pending id' = some p → p.call.file ≠ file)

/-- The call waits with what it read, and the file is as it was. -/
structure Waits (id : Nat) (p : Pending) (w : Desk) : Prop where
  pending : w.pending id = some p
  content : w.content p.call.file = p.met

theorem Waits.step {h : Host} {id : Nat} {p : Pending} {w : Desk} (hw : Waits id p w)
    {a : Action} (ha : Quiet id p.call.file w a) : Waits id p (step h w a) := by
  cases a with
  | read id' call now fails =>
    show Waits id p (if (w.pending id').isSome ∨ raises fails (w.content call.file) then w else _)
    split
    · exact hw
    · rename_i hfree
      have hne : id ≠ id' := by
        intro heq
        rw [← heq, hw.pending] at hfree
        simp at hfree
      exact ⟨(Function.update_of_ne hne _ _).trans hw.pending, hw.content⟩
  | replace id' succeeds =>
    show Waits id p (match w.pending id' with
      | none => w
      | some p => _)
    cases hp' : w.pending id' with
    | none => exact hw
    | some p' =>
      refine ⟨(Function.update_of_ne ha.1.symm _ _).trans hw.pending, ?_⟩
      show (if succeeds = true then _ else w.content) p.call.file = p.met
      split
      · rename_i hsucceeds
        have hfile : p.call.file ≠ p'.call.file := fun heq => ha.2 hsucceeds p' hp' heq.symm
        exact (Function.update_of_ne hfile _ _).trans hw.content
      · exact hw.content

/-- A call whose read succeeds and whose file no other call writes in between merges its
update, if no text that is written looks encrypted. -/
theorem mergesUpdate_of_quiet {h : Host} {id : Nat} {p : Pending} {w : Desk} (hw : Waits id p w)
    (hread : p.failed = false) {between : List Action}
    (hquiet : Along (UserState.step h) (Quiet id p.call.file) w between)
    (hplain : ∀ key v, (p.merged h).get? key = some v → ∀ s ∈ v.texts, Plain s) :
    MergesUpdate h (between.foldl (UserState.step h) w) (.replace id true) := by
  have hwaits : Waits id p (between.foldl (UserState.step h) w) :=
    Along.invariant (Waits id p) (fun _ _ hw ha => hw.step ha) hw hquiet
  apply (mergesUpdate_iff h _ _).mpr
  intro p' hp' key hkey
  rw [hwaits.pending, Option.some.injEq] at hp'
  subst hp'
  have hexisting : p.existing h = view h p.met := by
    rw [Pending.existing, hread, if_neg Bool.false_ne_true]
  have hmerged := get?_merged h p hkey
  have hback : ∀ v, (p.merged h).get? key = some v → readBack h key v = v :=
    fun v hv => readBack_plain h (hplain key v hv)
  cases hupdate : p.call.update.get? key with
  | some v =>
    rw [hupdate, Option.some_or] at hmerged
    exact hback v hmerged
  | none =>
    rw [hupdate, Option.none_or] at hmerged
    show ((p.existing h).get? key).map (readBack h key) = _
    rw [hwaits.content, ← hexisting, ← hmerged]
    cases hv : (p.merged h).get? key with
    | none => rfl
    | some v => exact congrArg some (hback v hv)

/-- The language is written while the preferences are. -/
theorem mergesUpdate_of_quiet_themed :
    MergesUpdate unencrypted
      ([.read 1 (.writePreferences (entry "font" "small")) "10:01" false, .replace 1 true].foldl
        (UserState.step unencrypted) (UserState.step unencrypted themed
          (.read 0 (.writeSettings (entry "language" "en")) "10:00" false)))
      (.replace 0 true) := by
  let p : Pending :=
    ⟨.writeSettings (entry "language" "en"), "10:00", themed.content .settings, false⟩
  refine mergesUpdate_of_quiet (p := p) ⟨rfl, rfl⟩ rfl ⟨trivial, ⟨by decide, ?_⟩, trivial⟩ ?_
  · intro _ p' hp'
    cases hp'
    decide
  · intro key v hv s hs
    have hitems : (p.merged unencrypted).items = [("theme", .text "dark"),
        ("language", .text "en"), ("updated_at", .text "10:00"), ("machine_id", .text "laptop")] :=
      rfl
    have hmem : (key, v) ∈ (p.merged unencrypted).items := (Dict.mem_items_iff _ key v).mpr hv
    rw [hitems] at hmem
    have hplain : ∀ e ∈ [("theme", Value.text "dark"), ("language", .text "en"),
        ("updated_at", .text "10:00"), ("machine_id", .text "laptop")], ∀ s ∈ e.2.texts,
        startsWith s encryptedMark = false := by
      decide
    exact hplain (key, v) hmem s hs

end Cerid.Sync.UserState
