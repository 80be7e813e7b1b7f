import Cerid.Audit.Entry

/-!
# Records that are written

A record that is written passes the walk once it was read exactly when it stands at its
number, after the hash it names, and its detail is written again as it was
(`accepts_prepared`, `prepared_of_accepts`).
-/

namespace Cerid.Audit

open Document Chain
open Value (encode encodeMembers decode decodeMembers strKey Reencoded)

variable {F : Type} [Floats F] {env : Env F}

def targetDoc : Option Str → Doc F
  | .none => .null
  | some target => .str target

/-- What is hashed of a record, in the order of the keys. -/
def bodyMembers (e : Event F) (seq : Int) (prev : Str) (detail : Doc F) : List (Str × Doc F) := [
  (str "action", .str e.action),
  (str "actor", .str e.actor),
  (str "detail", detail),
  (str "outcome", .str e.outcome),
  (str "prev", .str prev),
  (str "seq", .int seq),
  (str "target", targetDoc e.target),
  (str "ts", .str e.ts)]

/-- What is written of it. -/
def members (e : Event F) (seq : Int) (prev digest : Str) (detail : Doc F) :
    List (Str × Doc F) := [
  (str "action", .str e.action),
  (str "actor", .str e.actor),
  (str "detail", detail),
  (str "hash", .str digest),
  (str "outcome", .str e.outcome),
  (str "prev", .str prev),
  (str "seq", .int seq),
  (str "target", targetDoc e.target),
  (str "ts", .str e.ts)]

def digestOf (env : Env F) (e : Event F) (seq : Int) (prev : Str) (detail : Doc F) : Str :=
  str (env.sha256 (Doc.obj (bodyMembers e seq prev detail)).write)

/-- The record of an event at a place of the log. -/
def prepared (env : Env F) (e : Event F) (seq : Int) (prev path : Str) (detail : Doc F) :
    Prepared F where
  path := path
  seq := seq
  digest := digestOf env e seq prev detail
  entry := body e seq prev ++ [hashMember (digestOf env e seq prev detail)]
  doc := .obj (members e seq prev (digestOf env e seq prev detail) detail)

theorem encode_target (target : Option Str) :
    encode (targetValue target : Value F) = some (targetDoc target) := by
  cases target <;> rfl

theorem encodeMembers_cons {k : Key F} {v : Value F} {d : Doc F} (h : encode v = some d)
    (rest : List (Key F × Value F)) :
    encodeMembers ((k, v) :: rest) = (encodeMembers rest).map ((k, d) :: ·) := by
  rw [encodeMembers, h]
  cases encodeMembers rest <;> rfl

/-- The members of a record, followed by others. -/
theorem encodeMembers_body {e : Event F} {detail : Doc F} (h : encode (.dict e.detail) = some detail)
    (seq : Int) (prev : Str) (rest : List (Key F × Value F)) :
    encodeMembers (body e seq prev ++ rest) =
      (encodeMembers rest).map (fun ds => [
        (.str (str "seq"), .int seq),
        (.str (str "ts"), .str e.ts),
        (.str (str "actor"), .str e.actor),
        (.str (str "action"), .str e.action),
        (.str (str "target"), targetDoc e.target),
        (.str (str "outcome"), .str e.outcome),
        (.str (str "detail"), detail),
        (.str (str "prev"), .str prev)] ++ ds) := by
  have hstr : ∀ s : Str, encode (.str s : Value F) = some (.str s) := fun s => rfl
  rw [body]
  simp only [List.cons_append, List.nil_append]
  rw [encodeMembers_cons (rfl : encode (.int seq) = some (.int seq)), encodeMembers_cons (hstr _),
    encodeMembers_cons (hstr _), encodeMembers_cons (hstr _),
    encodeMembers_cons (encode_target _), encodeMembers_cons (hstr _), encodeMembers_cons h,
    encodeMembers_cons (hstr _)]
  cases encodeMembers rest <;> rfl

theorem encodeMembers_body_none {e : Event F} (h : encode (.dict e.detail) = none) (seq : Int)
    (prev : Str) (rest : List (Key F × Value F)) :
    encodeMembers (body e seq prev ++ rest) = none := by
  have hstr : ∀ s : Str, encode (.str s : Value F) = some (.str s) := fun s => rfl
  have hdetail : ∀ ms : List (Key F × Value F),
      encodeMembers ((.str (str "detail"), .dict e.detail) :: ms) = none := by
    intro ms
    rw [encodeMembers, h]
    rfl
  rw [body]
  simp only [List.cons_append, List.nil_append]
  rw [encodeMembers_cons (rfl : encode (.int seq) = some (.int seq)), encodeMembers_cons (hstr _),
    encodeMembers_cons (hstr _), encodeMembers_cons (hstr _),
    encodeMembers_cons (encode_target _), encodeMembers_cons (hstr _), hdetail]
  rfl

/-- The text that is hashed when an event is recorded. -/
theorem canonicalBytes_body (e : Event F) (seq : Int) (prev : Str) :
    canonicalBytes (body e seq prev) =
      (encode (.dict e.detail)).map
        (fun detail => (Doc.obj (bodyMembers e seq prev detail)).write) := by
  have hfilter : (body e seq prev).filter (fun m => !Key.is "hash" m.1) = body e seq prev ++ [] :=
    rfl
  have hcomparable : Key.comparable ((body e seq prev ++ []).map Prod.fst) = true := rfl
  rw [canonicalBytes, hfilter, encode, if_pos hcomparable]
  cases hd : encode (.dict e.detail) with
  | none =>
    rw [encodeMembers_body_none hd]
    rfl
  | some detail =>
    rw [encodeMembers_body hd]
    rfl

/-- The document that is written. -/
theorem encode_entry {e : Event F} {detail : Doc F} (h : encode (.dict e.detail) = some detail)
    (seq : Int) (prev digest : Str) :
    encode (.dict (body e seq prev ++ [hashMember digest])) =
      some (.obj (members e seq prev digest detail)) := by
  have hcomparable : Key.comparable
      ((body e seq prev ++ [hashMember digest]).map Prod.fst) = true := rfl
  rw [encode, if_pos hcomparable, encodeMembers_body h]
  rfl

/-- What `record` makes ready before it touches a file. -/
theorem prepare_eq (d : Dir F) (e : Event F) :
    prepare env d e =
      if e.action = [] then .error .actionRequired
      else
        match tail env d with
        | .error error => .error error
        | .ok (seq, prev, path) =>
          match encode (.dict e.detail) with
          | none => .error .unserialisable
          | some detail => .ok (prepared env e seq prev path detail) := by
  rw [prepare]
  refine if_congr Iff.rfl rfl ?_
  cases tail env d with
  | error error => rfl
  | ok t =>
    obtain ⟨seq, prev, path⟩ := t
    simp only [computeHash, canonicalBytes_body]
    cases hd : encode (.dict e.detail) with
    | none => rfl
    | some detail =>
      simp only [Option.map_some, encode_entry hd]
      rfl

/-! ## Reading a record that was written -/

/-- The record of a place, as it reads back. -/
def written (env : Env F) (e : Event F) (seq : Int) (prev : Str) (detail : Doc F) : Value F :=
  decode (.obj (members e seq prev (digestOf env e seq prev detail) detail))

omit [Floats F] in
theorem pairwise_members (e : Event F) (seq : Int) (prev digest : Str) (detail : Doc F) :
    ((Doc.joinedMembers (members e seq prev digest detail)).map Prod.fst).Pairwise (· < ·) := by
  have hkeys : (Doc.joinedMembers (members e seq prev digest detail)).map Prod.fst =
      ["action", "actor", "detail", "hash", "outcome", "prev", "seq", "target", "ts"].map str := rfl
  rw [hkeys]
  decide

omit [Floats F] in
theorem pairwise_bodyMembers (e : Event F) (seq : Int) (prev : Str) (detail : Doc F) :
    ((Doc.joinedMembers (bodyMembers e seq prev detail)).map Prod.fst).Pairwise (· < ·) := by
  have hkeys : (Doc.joinedMembers (bodyMembers e seq prev detail)).map Prod.fst =
      ["action", "actor", "detail", "outcome", "prev", "seq", "target", "ts"].map str := rfl
  rw [hkeys]
  decide

theorem written_eq (env : Env F) (e : Event F) (seq : Int) (prev : Str) (detail : Doc F) :
    written env e seq prev detail =
      .dict ((decodeMembers (members e seq prev (digestOf env e seq prev detail) detail)).map
        strKey) :=
  Value.decode_obj_of_ascending (pairwise_members _ _ _ _ _)

omit [Floats F] in
/-- Everything but the detail is written again as it was. -/
theorem ascending_bodyMembers (e : Event F) (seq : Int) (prev : Str) (detail : Doc F) :
    (Doc.obj (bodyMembers e seq prev detail)).joined.Ascending ↔ detail.joined.Ascending := by
  have htarget : (targetDoc e.target : Doc F).joined.Ascending := by
    cases e.target <;> trivial
  rw [Doc.joined, Doc.Ascending]
  constructor
  · exact fun h => h.2.2.2.1
  · exact fun h => ⟨pairwise_bodyMembers e seq prev detail, trivial, trivial, h, trivial, trivial,
      trivial, htarget, trivial, trivial⟩

/-- What is hashed of a record that was read is hashed like what was written when, and with a
digest that tells texts apart only when, the keys of the detail ascend. -/
theorem computeHash_written (env : Env F) (e : Event F) (seq : Int) (prev : Str) (detail : Doc F) :
    ∃ entry text, written env e seq prev detail = .dict entry ∧
      computeHash env entry = some (str (env.sha256 text)) ∧
      (text = (Doc.obj (bodyMembers e seq prev detail)).write ↔ detail.joined.Ascending) := by
  obtain ⟨ms, hj, hasc, hentry⟩ := Value.dict_of_decode (written_eq env e seq prev detail)
  obtain ⟨w, hw, hbytes⟩ := canonicalBytes_read hj hasc
  have hbody : decode (.obj (withoutHash ms)) = decode (.obj (bodyMembers e seq prev detail)) := by
    rw [decode_withoutHash hj hasc, ← hentry, filter_strKey,
      Value.decode_obj_of_ascending (pairwise_bodyMembers e seq prev detail)]
    rfl
  have hw' : Reencoded (.obj (bodyMembers e seq prev detail)) w :=
    { hw with encode := hbody ▸ hw.encode, decode := hbody ▸ hw.decode }
  refine ⟨_, w.write, written_eq env e seq prev detail, ?_, ?_⟩
  · rw [hentry, computeHash, hbytes]
    rfl
  · rw [Value.write_reencoded_iff hw', ascending_bodyMembers]

theorem accepts_prepared {e : Event F} {n : Nat} {prev prev' : Str} {detail : Doc F}
    (h : detail.joined.Ascending) (hprev : joined prev = prev') :
    accepts env n prev' (some (written env e n prev detail)) =
      some (digestOf env e n prev detail) := by
  obtain ⟨entry, text, hentry, hhash, htext⟩ := computeHash_written env e n prev detail
  have hdict := Value.dict.inj ((written_eq env e n prev detail).symm.trans hentry)
  rw [hentry, ← hdict]
  refine accepts_eq (decide_eq_true rfl) (decide_eq_true hprev) ?_ ?_
  · exact congrArg (fun digest => some (Value.str digest)) (joined_str _)
  · rw [hdict, hhash, htext.mpr h]
    rfl

theorem prepared_of_accepts {e : Event F} {n : Nat} {seq : Int} {prev prev' h : Str}
    {detail : Doc F} (hr : accepts env n prev' (some (written env e seq prev detail)) = some h) :
    seq = n ∧ h = digestOf env e seq prev detail ∧
      (Function.Injective env.sha256 → detail.joined.Ascending) := by
  obtain ⟨entry, text, hentry, hhash, htext⟩ := computeHash_written env e seq prev detail
  have hdict := Value.dict.inj ((written_eq env e seq prev detail).symm.trans hentry)
  obtain ⟨entry', heq, hseq, hprev, hstored, hcompute⟩ := accepts_some hr
  rw [hentry] at heq
  obtain rfl := Value.dict.inj (Option.some.inj heq)
  have hdigest : h = digestOf env e seq prev detail := by
    rw [← hdict] at hstored
    rw [← Value.str.inj (Option.some.inj hstored)]
    exact joined_str _
  refine ⟨?_, hdigest, fun hinj => htext.mp ?_⟩
  · rw [← hdict] at hseq
    exact of_decide_eq_true hseq
  · rw [hhash, hdigest] at hcompute
    exact hinj (str_injective (Option.some.inj hcompute))

end Cerid.Audit
