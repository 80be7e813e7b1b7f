import Cerid.Lib.Dict
import Mathlib.Data.Rat.Defs
import Mathlib.Algebra.Order.Field.Rat

/-!
# Where clauses

A where clause of a store is a mapping.  A field has a condition, and the key `$and` a list of
clauses; all of them are meant.  A store takes a clause only if every mapping in it has a single
key, so that a condition is added by fusing it in with `$and`.
-/

namespace Cerid

/-- A value of a row's metadata. -/
inductive MetaValue
  | str (s : String)
  | num (q : ℚ)
  | bool (b : Bool)
deriving DecidableEq

abbrev Metadata := String → Option MetaValue

inductive Condition
  | value (v : MetaValue)
  | eq (v : MetaValue)
  | ne (v : MetaValue)
  | isIn (vs : List MetaValue)
  | notIn (vs : List MetaValue)
  | lt (q : ℚ)
  | le (q : ℚ)
  | gt (q : ℚ)
  | ge (q : ℚ)
deriving DecidableEq

/-- What is said of the value of the field, which a row may lack. -/
def Condition.holds (actual : Option MetaValue) : Condition → Bool
  | .value v | .eq v => decide (actual = some v)
  | .ne v => decide (actual ≠ some v)
  | .isIn vs => actual.any fun v => v ∈ vs
  | .notIn vs => !actual.any fun v => v ∈ vs
  | .lt q => actual.any fun v => match v with | .num x => decide (x < q) | _ => false
  | .le q => actual.any fun v => match v with | .num x => decide (x ≤ q) | _ => false
  | .gt q => actual.any fun v => match v with | .num x => decide (q < x) | _ => false
  | .ge q => actual.any fun v => match v with | .num x => decide (q ≤ x) | _ => false

/-- The fields of the mapping, and the list under `$and`. -/
inductive Where
  | mk (fields : Dict String Condition) (all : Option (List Where))

namespace Where

def fields : Where → Dict String Condition
  | mk fields _ => fields

def all : Where → Option (List Where)
  | mk _ all => all

/-- `{field: condition}`. -/
def single (field : String) (condition : Condition) : Where :=
  mk (Dict.empty.set field condition) none

/-- `{"$and": clauses}`. -/
def conj (clauses : List Where) : Where := mk Dict.empty (some clauses)

/-- `not where`, for a mapping. -/
def isEmpty (w : Where) : Bool := w.fields.items.isEmpty && w.all.isNone

def fieldsHold (m : Metadata) (w : Where) : Bool :=
  w.fields.items.all fun p => p.2.holds (m p.1)

mutual

/-- A row meets the clause. -/
def holds (m : Metadata) : Where → Bool
  | mk fields none => fields.items.all fun p => p.2.holds (m p.1)
  | mk fields (some clauses) => (fields.items.all fun p => p.2.holds (m p.1)) && allHold m clauses

def allHold (m : Metadata) : List Where → Bool
  | [] => true
  | w :: rest => w.holds m && allHold m rest

end

mutual

/-- A store takes the clause. -/
def taken : Where → Bool
  | mk fields none => fields.items.length = 1
  | mk fields (some clauses) => fields.items.isEmpty && allTaken clauses

def allTaken : List Where → Bool
  | [] => true
  | w :: rest => w.taken && allTaken rest

end

/-- The mapping has the field. -/
def has (field : String) (w : Where) : Bool := decide (field ∈ w.fields.keys)

/-- A clause of the list has the field. -/
def listHas (field : String) (w : Where) : Bool := (w.all.getD []).any (has field)

/-- The clauses that a condition is added to: those of the list, and only those, if there is
one. -/
def clauses (w : Where) : List Where :=
  match w.all with
  | some clauses => clauses
  | none => [w]

/-- The clause with one more in its list. -/
def and (w clause : Where) : Where := conj (w.clauses ++ [clause])

/-- No field stands beside a list. -/
def Plain (w : Where) : Prop := w.all = none ∨ w.fields.items = []

instance (w : Where) : Decidable w.Plain := inferInstanceAs (Decidable (_ ∨ _))

/-- What is left of a clause when a condition is added. -/
def left (w : Where) : Where :=
  match w.all with
  | some clauses => conj clauses
  | none => w

/-- The clause names the field, in the mapping or in one of its list. -/
def named (field : String) (w : Where) : Bool := w.has field || w.listHas field

/-- A condition is added to a clause, if there is one that is not `blank`, and unless it is to
be skipped. -/
def fuse (blank skip : Where → Bool) (w : Option Where) (clause : Where) : Where :=
  match w with
  | none => clause
  | some w => if blank w then clause else if skip w then w else w.and clause

/-! ## What the parts mean -/

theorem allHold_eq (m : Metadata) (clauses : List Where) :
    allHold m clauses = clauses.all (holds m) := by
  induction clauses with
  | nil => rfl
  | cons w rest ih => rw [allHold, ih, List.all_cons]

theorem allTaken_eq (clauses : List Where) : allTaken clauses = clauses.all taken := by
  induction clauses with
  | nil => rfl
  | cons w rest ih => rw [allTaken, ih, List.all_cons]

theorem holds_conj (m : Metadata) (clauses : List Where) :
    (conj clauses).holds m = clauses.all (holds m) := by
  rw [conj, holds, allHold_eq]
  exact Bool.true_and _

theorem taken_conj (clauses : List Where) : (conj clauses).taken = clauses.all taken := by
  rw [conj, taken, allTaken_eq]
  exact Bool.true_and _

/-- A clause means its fields and what is left of it when a condition is added. -/
theorem holds_eq (m : Metadata) (w : Where) : w.holds m = (w.fieldsHold m && w.left.holds m) := by
  obtain ⟨fields, all⟩ := w
  cases all with
  | none =>
    rw [holds]
    show _ = (_ && holds m (mk fields none))
    rw [holds]
    exact (Bool.and_self _).symm
  | some clauses =>
    rw [holds]
    show _ = (_ && (conj clauses).holds m)
    rw [holds_conj, allHold_eq]
    rfl

theorem all_clauses (p : Where → Bool) (hconj : ∀ clauses, p (conj clauses) = clauses.all p)
    (w : Where) : w.clauses.all p = p w.left := by
  obtain ⟨fields, all⟩ := w
  cases all with
  | none => exact Bool.and_true _
  | some clauses => exact (hconj clauses).symm

theorem holds_and (m : Metadata) (w clause : Where) :
    (w.and clause).holds m = (w.left.holds m && clause.holds m) := by
  rw [and, holds_conj, List.all_append, all_clauses _ (holds_conj m), List.all_cons, List.all_nil,
    Bool.and_true]

theorem taken_and (w clause : Where) : (w.and clause).taken = (w.left.taken && clause.taken) := by
  rw [and, taken_conj, List.all_append, all_clauses _ taken_conj, List.all_cons, List.all_nil,
    Bool.and_true]

theorem named_and (field : String) (w clause : Where) :
    (w.and clause).named field = (w.clauses.any (has field) || clause.has field) := by
  rw [named, listHas, and]
  show (false || (w.clauses ++ [clause]).any (has field)) = _
  rw [Bool.false_or, List.any_append, List.any_cons, List.any_nil, Bool.or_false]

theorem plain_conj (clauses : List Where) : (conj clauses).Plain := Or.inr rfl

theorem isEmpty_conj (clauses : List Where) : (conj clauses).isEmpty = false := rfl

/-- A condition that is added to a plain clause leaves all of it. -/
theorem left_of_plain {w : Where} (h : w.Plain) : w.left = w := by
  obtain ⟨fields, all⟩ := w
  cases all with
  | none => rfl
  | some clauses =>
    obtain ⟨items, hnodup⟩ := fields
    have hitems : items = [] := h.resolve_left (Option.some_ne_none _)
    subst hitems
    rfl

theorem any_clauses_of_plain {w : Where} (h : w.Plain) (field : String) :
    w.clauses.any (has field) = w.named field := by
  obtain ⟨fields, all⟩ := w
  cases all with
  | none => rfl
  | some clauses =>
    obtain ⟨items, hnodup⟩ := fields
    have hitems : items = [] := h.resolve_left (Option.some_ne_none _)
    subst hitems
    rfl

theorem left_left (w : Where) : w.left.left = w.left := by
  obtain ⟨fields, all⟩ := w
  cases all with
  | none => rfl
  | some clauses => rfl

theorem plain_left (w : Where) : w.left.Plain := by
  obtain ⟨fields, all⟩ := w
  cases all with
  | none => exact Or.inl rfl
  | some clauses => exact plain_conj clauses

section Single

variable (m : Metadata) (field : String) (condition : Condition)

@[simp] theorem holds_single : (single field condition).holds m = condition.holds (m field) := by
  rw [single, holds]
  exact Bool.and_true _

@[simp] theorem taken_single : (single field condition).taken = true := by
  rw [single, taken]
  rfl

@[simp] theorem has_single (other : String) :
    (single field condition).has other = decide (other = field) := by
  rw [has]
  exact decide_eq_decide.mpr List.mem_singleton

theorem proper_single : ∀ clause ∈ some (single field condition),
    clause.Plain ∧ clause.isEmpty = false := by
  intro clause h
  cases h
  exact ⟨Or.inl rfl, rfl⟩

end Single

/-- The clauses of the single fields of a mapping. -/
def singles (fields : Dict String Condition) : List Where := fields.items.map fun p => single p.1 p.2

theorem all_holds_singles (m : Metadata) (fields : Dict String Condition) :
    (singles fields).all (holds m) = fields.items.all fun p => p.2.holds (m p.1) := by
  rw [singles, List.all_map]
  congr 1
  funext p
  exact holds_single m p.1 p.2

theorem all_taken_singles (fields : Dict String Condition) :
    (singles fields).all taken = true := by
  rw [singles, List.all_map]
  exact List.all_eq_true.mpr fun p _ => taken_single p.1 p.2

theorem any_has_singles (field : String) (fields : Dict String Condition) :
    (singles fields).any (has field) = decide (field ∈ fields.keys) := by
  rw [singles, List.any_map, Bool.eq_iff_iff, List.any_eq_true, decide_eq_true_iff, Dict.keys,
    List.mem_map]
  refine exists_congr fun p => and_congr_right fun _ => ?_
  rw [Function.comp_apply, has_single, decide_eq_true_iff]
  exact eq_comm

/-! ## Optional clauses -/

/-- No clause is met by every row, and a store takes it. -/
def optHolds (m : Metadata) (w : Option Where) : Bool := w.all (holds m)

def optTaken (w : Option Where) : Bool := w.all taken

def optNamed (field : String) (w : Option Where) : Bool := w.any (named field)

/-- A clause, if there is one, is plain and not empty. -/
def Proper (w : Option Where) : Prop := ∀ clause ∈ w, clause.Plain ∧ clause.isEmpty = false

section Fuse

variable {blank skip : Where → Bool} {w : Option Where}

theorem proper_none : Proper none := nofun

theorem proper_fuse (hw : Proper w) {clause : Where} (hclause : Proper (some clause)) :
    Proper (some (fuse blank skip w clause)) := by
  cases w with
  | none => exact hclause
  | some w =>
    rw [fuse]
    split
    · exact hclause
    · split
      · exact hw
      · intro clause' h
        cases h
        exact ⟨plain_conj _, rfl⟩

variable (hblank : ∀ w : Where, w.isEmpty = false → blank w = false)

include hblank

theorem holds_fuse (m : Metadata) (hw : Proper w) (clause : Where) :
    (fuse blank skip w clause).holds m = (optHolds m w && (w.any skip || clause.holds m)) := by
  cases w with
  | none => rfl
  | some w =>
    obtain ⟨hplain, hne⟩ := hw w rfl
    rw [fuse, if_neg (by rw [hblank w hne]; exact Bool.false_ne_true)]
    show _ = (w.holds m && (skip w || clause.holds m))
    split
    · rename_i hskip
      rw [hskip, Bool.true_or, Bool.and_true]
    · rename_i hskip
      rw [Bool.not_eq_true] at hskip
      rw [hskip, Bool.false_or, holds_and, left_of_plain hplain]

theorem taken_fuse (hw : Proper w) (clause : Where) :
    (fuse blank skip w clause).taken = (optTaken w && (w.any skip || clause.taken)) := by
  cases w with
  | none => rfl
  | some w =>
    obtain ⟨hplain, hne⟩ := hw w rfl
    rw [fuse, if_neg (by rw [hblank w hne]; exact Bool.false_ne_true)]
    show _ = (w.taken && (skip w || clause.taken))
    split
    · rename_i hskip
      rw [hskip, Bool.true_or, Bool.and_true]
    · rename_i hskip
      rw [Bool.not_eq_true] at hskip
      rw [hskip, Bool.false_or, taken_and, left_of_plain hplain]

theorem named_fuse (field : String) (hw : Proper w) {clause : Where} (hclause : clause.all = none) :
    (fuse blank skip w clause).named field =
      (optNamed field w || (!w.any skip && clause.has field)) := by
  have hone : clause.named field = clause.has field := by
    rw [named, listHas, hclause]
    exact Bool.or_false _
  cases w with
  | none => exact hone
  | some w =>
    obtain ⟨hplain, hne⟩ := hw w rfl
    rw [fuse, if_neg (by rw [hblank w hne]; exact Bool.false_ne_true)]
    show _ = (w.named field || (!skip w && clause.has field))
    split
    · rename_i hskip
      rw [hskip, Bool.not_true, Bool.false_and, Bool.or_false]
    · rename_i hskip
      rw [Bool.not_eq_true] at hskip
      rw [hskip, Bool.not_false, Bool.true_and, named_and, any_clauses_of_plain hplain]

end Fuse

/-- A clause with fields beside its list is used up to its list when a condition is added. -/
theorem fuse_left {blank skip : Where → Bool} {w : Where} (hblank : blank w = false)
    (hskip : skip w = false) (hblank' : blank w.left = false) (hskip' : skip w.left = false)
    (clause : Where) :
    fuse blank skip (some w) clause = fuse blank skip (some w.left) clause := by
  obtain ⟨fields, all⟩ := w
  rw [fuse, fuse, hblank, hskip, hblank', hskip']
  cases all with
  | none => rfl
  | some clauses => rfl

end Where

end Cerid
