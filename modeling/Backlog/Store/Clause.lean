import Backlog.Json.Path
import Backlog.Store.Cell
import Backlog.Store.Declaration

/-!
# Clauses

A filter over tables becomes a clause over the document of a row. A clause about a member that is
not there is neither true nor false; a row is selected when its clause is true. Every literal has
one arm for each way in which it may be stored: a text that reads as an integer, a truth value or
an instant also finds those, and what only holds for a declared kind asks for the declaration.

A name is put into a path as it is, so that a name with a quote is a path of more than one leg. A
clause may therefore fail on a row: over a path that is found to be wrong in the document of the
row, or over a declaration that is a text and no document.

## Main statements

* `Clause.eval_ofFilter_and`, `Clause.eval_ofFilter_or` — groups of filters become groups of
  clauses;
* `Clause.outcome_eq_yes_iff` — the order in which an engine takes the parts of a clause does not
  change which rows it selects.
-/

namespace Backlog

open Json (Tree)

/-! ## Rows -/

/-- A condition on a row. -/
inductive Clause
  | always
  | ofSort (field : String) (sort : CellSort)
  | isText (field text : String)
  | isInteger (field : String) (n : Int)
  | declared (field : String) (kind : FieldKind)
  | and (children : List Clause)
  | or (children : List Clause)
  deriving Inhabited

/-- What a clause sees of a row: the document of the fields, and the documents of the
declarations of its type. -/
structure RowView where
  fields : Tree
  definitions : Tree

namespace RowView

/-- Where the path to a name leads. -/
def spot (r : RowView) (field : String) : Json.Spot :=
  Json.Path.follow (Json.Path.ofName field.toList) r.fields

/-- The part of the fields that the path to a name leads to. -/
def part? (r : RowView) (field : String) : Option Tree := (r.spot field).part?

/-- Whether the path to a name is found to be wrong. -/
def isBroken (r : RowView) (field : String) : Bool := (r.spot field).isBroken

/-- The outcome of a test on the part with a name. Where there is none it stays open. -/
def test (r : RowView) (field : String) (f : Tree → Truth) : Truth :=
  if r.isBroken field then .fault else ((r.part? field).map f).getD .unknown

/-- The path to a name is never wrong if the name has no quote and is not broken off. -/
theorem isBroken_eq_false {r : RowView} {field : String} (hquote : '"' ∉ field.toList)
    (hzero : '\x00' ∉ field.toList) : r.isBroken field = false := by
  rw [isBroken, spot, Json.Path.follow_ofName hquote hzero]
  cases r.fields.labelled? field.toList <;> rfl

/-- It leads to the member whose name is written like the given one. -/
theorem part?_eq {r : RowView} {field : String} (hquote : '"' ∉ field.toList)
    (hzero : '\x00' ∉ field.toList) : r.part? field = r.fields.labelled? field.toList := by
  rw [part?, spot, Json.Path.follow_ofName hquote hzero]
  cases r.fields.labelled? field.toList <;> rfl

end RowView

/-! ## Evaluation -/

namespace Clause

/-- Whether a cell is a text; a cell without a value leaves it open. -/
def cellIsText (text : String) : Cell → Truth
  | .null => .unknown
  | .text s => .ofBool (s == some text)
  | _ => .no

/-- Whether a cell is an integer; a cell without a value leaves it open. -/
def cellIsInteger (n : Int) : Cell → Truth
  | .null => .unknown
  | .integer m => .ofBool (m == n)
  -- truth values compare as zero and one
  | .truth b => .ofBool ((if b then 1 else 0) == n)
  | _ => .no

mutual

/-- The outcome of a clause for a row. -/
def eval (r : RowView) : Clause → Truth
  | .always => .yes
  | .ofSort field sort => r.test field fun t => .ofBool (Cell.isOfSort sort t)
  | .isText field text => r.test field fun t => cellIsText text (.ofTree t)
  | .isInteger field n => r.test field fun t => cellIsInteger n (.ofTree t)
  | .declared field kind => Declaration.declaredIn field kind r.definitions.parts
  | .and children => evalAll r children
  | .or children => evalAny r children

/-- The outcome of a group of which every member has to hold. -/
def evalAll (r : RowView) : List Clause → Truth
  | [] => .yes
  | c :: rest => (eval r c).both (evalAll r rest)

/-- The outcome of a group of which one member has to hold. -/
def evalAny (r : RowView) : List Clause → Truth
  | [] => .no
  | c :: rest => (eval r c).either (evalAny r rest)

end

/-! ## The order of evaluation -/

mutual

/-- The conditions that all have to hold for a clause to hold. A group of one is its member. -/
def conditions : Clause → List Clause
  | .and children => conditionsOf children
  | .or [c] => conditions c
  | c => [c]

/-- The conditions of clauses that all have to hold. -/
def conditionsOf : List Clause → List Clause
  | [] => []
  | c :: rest => conditions c ++ conditionsOf rest

end

mutual

/-- Whether a clause asks for a declaration. -/
def asksDeclaration : Clause → Bool
  | .declared _ _ => true
  | .and children => anyAsksDeclaration children
  | .or children => anyAsksDeclaration children
  | _ => false

/-- Whether one of the clauses asks for a declaration. -/
def anyAsksDeclaration : List Clause → Bool
  | [] => false
  | c :: rest => asksDeclaration c || anyAsksDeclaration rest

end

/-- The conditions in the order in which they are evaluated: those that look at declarations come
last. -/
def inOrder (c : Clause) : List Clause :=
  (conditions c).filter (fun c => !asksDeclaration c) ++ (conditions c).filter asksDeclaration

/-- The outcome of a clause for a row when its conditions are evaluated in their order. -/
def outcome (c : Clause) (r : RowView) : Truth := evalAll r (inOrder c)

/-! ## From filters -/

/-- The field holds a text. -/
def textArm (field text : String) : Clause := .and [.ofSort field .text, .isText field text]

/-- The field holds an integer. -/
def integerArm (field : String) (n : Int) : Clause :=
  .and [.ofSort field .integer, .isInteger field n]

/-- The field holds a truth value. -/
def boolArm (field : String) (b : Bool) : Clause := .ofSort field (.truth b)

/-- The field holds a text and is declared with a kind. -/
def declaredArm (field text : String) (kind : FieldKind) : Clause :=
  .and [textArm field text, .declared field kind]

/-- The arms of a text that reads as an instant, unless it is written that way already. -/
def timestampArms (field s : String) : List Clause :=
  match Timestamp.read (Text.trim s) with
  | .ok t => if t.text = s then [] else [declaredArm field t.text .timestamp]
  | .error _ => []

/-- The arms of a text that reads as an integer. -/
def integerArms (field s : String) : List Clause :=
  match Text.int64? (Text.trim s) with
  | some n => [integerArm field n.toInt]
  | none => []

/-- The arms of a text that reads as a truth value. -/
def boolArms (field s : String) : List Clause :=
  if Text.trim s = "true" then [boolArm field true]
  else if Text.trim s = "false" then [boolArm field false]
  else []

/-- The arms of a number of microseconds. -/
def microsArms (field : String) (n : Int) : List Clause :=
  match Timestamp.ofMicros? n with
  | some t => [declaredArm field t.text .timestamp]
  | none => []

/-- The clause of a text. -/
def ofText (field s : String) : Clause :=
  .or (textArm field s :: (timestampArms field s ++ integerArms field s ++ boolArms field s))

/-- The clause of an equality. -/
def ofEquality (field : String) : FieldValue → Clause
  | .string s => ofText field s
  | .identifier s => ofText field s
  -- a number may also stand for an identifier, or count microseconds
  | .integer n =>
    .or (integerArm field n.toInt :: declaredArm field (Text.decimal n.toInt) .identifier
      :: microsArms field n.toInt)
  | .bool b => .or [boolArm field b]
  | .timestamp t => .or [textArm field t.text]

mutual

/-- The clause of a filter. -/
def ofFilter : Filter → Clause
  | .all => .always
  | .equals field value => ofEquality field value
  | .and children => .and (ofFilters children)
  | .or children => .or (ofFilters children)

/-- The clauses of filters. -/
def ofFilters : List Filter → List Clause
  | [] => []
  | f :: rest => ofFilter f :: ofFilters rest

end

/-! ## Laws -/

theorem evalAll_eq_yes_iff {r : RowView} : ∀ {cs : List Clause},
    evalAll r cs = .yes ↔ ∀ c ∈ cs, eval r c = .yes
  | [] => by simp [evalAll]
  | c :: rest => by
    rw [evalAll, Truth.both_eq_yes_iff, evalAll_eq_yes_iff]
    simp

theorem evalAny_eq_yes_iff {r : RowView} : ∀ {cs : List Clause},
    (∀ c ∈ cs, eval r c ≠ .fault) → (evalAny r cs = .yes ↔ ∃ c ∈ cs, eval r c = .yes)
  | [], _ => by simp [evalAny]
  | c :: rest, h => by
    have hc := h c List.mem_cons_self
    rw [evalAny, Truth.either_eq_yes_iff,
      evalAny_eq_yes_iff fun d hd => h d (List.mem_cons_of_mem c hd)]
    simp [hc]

mutual

theorem conditions_eq_yes_iff (r : RowView) :
    ∀ c : Clause, (∀ d ∈ conditions c, eval r d = .yes) ↔ eval r c = .yes
  | .and children => by
    rw [conditions, eval, evalAll_eq_yes_iff]
    exact conditionsOf_eq_yes_iff r children
  | .or [c] => by
    rw [conditions, eval, evalAny, evalAny, Truth.either_no]
    exact conditions_eq_yes_iff r c
  | .or [] => by simp [conditions]
  | .or (_ :: _ :: _) => by simp [conditions]
  | .always => by simp [conditions]
  | .ofSort _ _ => by simp [conditions]
  | .isText _ _ => by simp [conditions]
  | .isInteger _ _ => by simp [conditions]
  | .declared _ _ => by simp [conditions]

theorem conditionsOf_eq_yes_iff (r : RowView) :
    ∀ cs : List Clause, (∀ d ∈ conditionsOf cs, eval r d = .yes) ↔ ∀ c ∈ cs, eval r c = .yes
  | [] => by simp [conditionsOf]
  | c :: rest => by
    rw [conditionsOf, List.forall_mem_append, conditions_eq_yes_iff r c,
      conditionsOf_eq_yes_iff r rest, List.forall_mem_cons]

end

/-- The order in which an engine takes the parts of a clause does not change which rows it
selects. -/
theorem outcome_eq_yes_iff {c : Clause} {r : RowView} :
    c.outcome r = .yes ↔ eval r c = .yes := by
  rw [outcome, evalAll_eq_yes_iff, inOrder, List.forall_mem_append, ← conditions_eq_yes_iff r c]
  simp only [List.mem_filter, Bool.not_eq_eq_eq_not, Bool.not_true]
  constructor
  · rintro ⟨h1, h2⟩ d hd
    cases ha : asksDeclaration d with
    | false => exact h1 d ⟨hd, ha⟩
    | true => exact h2 d ⟨hd, ha⟩
  · exact fun h => ⟨fun d hd => h d hd.1, fun d hd => h d hd.1⟩

theorem ofFilters_eq_map (fs : List Filter) : ofFilters fs = fs.map ofFilter := by
  induction fs with
  | nil => rw [ofFilters, List.map_nil]
  | cons f rest ih => rw [ofFilters, ih, List.map_cons]

theorem eval_ofFilter_and {r : RowView} {fs : List Filter} :
    eval r (ofFilter (.and fs)) = .yes ↔ ∀ f ∈ fs, eval r (ofFilter f) = .yes := by
  rw [ofFilter, eval, evalAll_eq_yes_iff, ofFilters_eq_map]
  simp

theorem eval_ofFilter_or {r : RowView} {fs : List Filter}
    (h : ∀ f ∈ fs, eval r (ofFilter f) ≠ .fault) :
    eval r (ofFilter (.or fs)) = .yes ↔ ∃ f ∈ fs, eval r (ofFilter f) = .yes := by
  rw [ofFilter, eval, ofFilters_eq_map, evalAny_eq_yes_iff]
  · constructor
    · rintro ⟨c, hc, h⟩
      obtain ⟨f, hf, rfl⟩ := List.mem_map.mp hc
      exact ⟨f, hf, h⟩
    · rintro ⟨f, hf, h⟩
      exact ⟨ofFilter f, List.mem_map_of_mem hf, h⟩
  · intro c hc
    obtain ⟨f, hf, rfl⟩ := List.mem_map.mp hc
    exact h f hf

end Clause

end Backlog
