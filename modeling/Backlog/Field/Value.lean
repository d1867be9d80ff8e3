import Backlog.Field.Kind
import Backlog.Timestamp
import Backlog.Json.Writer

/-!
# Field values

A value carries its kind. Raw JSON literals become values of a declared kind, and values are
stored as JSON again; texts of numbers, truth values and instants are taken for those kinds,
numbers are taken for identifiers. Without a declared kind a literal is taken for what it looks
like, and only texts, integers and truth values look like something.

## Main statements

* `FieldValue.ofJson_kind` — a converted value has the kind that was asked for;
* `FieldValue.infer_kind` — an inferred value is a text, an integer or a truth value;
* `FieldValue.coerceTo_self` — a value is already what it is.
-/

namespace Backlog

/-- A value of a field. -/
inductive FieldValue
  | string (s : String)
  | integer (n : Int64)
  | bool (b : Bool)
  | timestamp (t : Timestamp)
  | identifier (s : String)
  deriving DecidableEq, Inhabited

/-- Why a literal does not become a value of a field. -/
inductive ConversionFault
  | undeclared (typeName : String)
  | mismatch (kind : FieldKind) (literal : Json)
  | unreadable (text : String) (fault : Timestamp.Fault)
  deriving DecidableEq

/-- The description of a literal in messages. -/
def Json.description : Json → String
  | .null => "null"
  | .bool true => "bool true"
  | .bool false => "bool false"
  | .number n => "number " ++ Json.numberText n
  | .string s => "string \"" ++ s ++ "\""
  | .array _ => "array"
  | .object _ => "object"

/-- The reason as it is told. -/
def ConversionFault.message : ConversionFault → String
  | .undeclared typeName => "not a field of type '" ++ typeName ++ "'"
  | .mismatch kind literal => "expected " ++ kind.name ++ ", got " ++ literal.description
  | .unreadable text fault =>
    "expected timestamp, got " ++ (Json.string text).description ++ ": " ++ fault.message

namespace FieldValue

/-- The kind of a value. -/
def kind : FieldValue → FieldKind
  | .string _ => .string
  | .integer _ => .integer
  | .bool _ => .bool
  | .timestamp _ => .timestamp
  | .identifier _ => .identifier

/-- An identifier is not empty and holds no blank character. -/
def isIdentifier (s : String) : Bool := s.toList ≠ [] && !(s.toList.any Text.isBlank)

/-! ## From literals -/

/-- The integer of a literal. -/
def integerOf? : Json → Option Int64
  | .number (.integer n) => Text.exactInt64? n
  | .string s => Text.int64? (Text.trim s)
  | _ => none

/-- The truth value of a literal. -/
def boolOf? : Json → Option Bool
  | .bool b => some b
  | .string s =>
    if Text.trim s = "true" then some true
    else if Text.trim s = "false" then some false
    else none
  | _ => none

/-- The identifier of a literal. -/
def identifierOf? : Json → Option String
  | .string s => if isIdentifier s then some s else none
  | .number (.integer n) => some (Text.decimal n)
  | _ => none

/-- The instant of a literal. -/
def timestampOf : Json → Except ConversionFault Timestamp
  | .string s =>
    match Timestamp.read (Text.trim s) with
    | .ok t => .ok t
    | .error fault => .error (.unreadable s fault)
  | .number (.integer n) =>
    match (Text.exactInt64? n).bind fun micros => Timestamp.ofMicros? micros.toInt with
    | some t => .ok t
    | none => .error (.mismatch .timestamp (.number (.integer n)))
  | j => .error (.mismatch .timestamp j)

/-- The value, or the fault that the literal is not of the kind. -/
def orMismatch (kind : FieldKind) (literal : Json) :
    Option FieldValue → Except ConversionFault FieldValue
  | some v => .ok v
  | none => .error (.mismatch kind literal)

/-- Convert a literal to a value of a kind. -/
def ofJson (kind : FieldKind) (literal : Json) : Except ConversionFault FieldValue :=
  match kind with
  | .string => orMismatch kind literal (literal.text?.map .string)
  | .integer => orMismatch kind literal ((integerOf? literal).map .integer)
  | .bool => orMismatch kind literal ((boolOf? literal).map .bool)
  | .timestamp => (timestampOf literal).map .timestamp
  | .identifier => orMismatch kind literal ((identifierOf? literal).map .identifier)

/-- The value of a kind, if the literal has one. -/
def ofJson? (kind : FieldKind) (literal : Json) : Option FieldValue :=
  match ofJson kind literal with
  | .ok v => some v
  | .error _ => none

/-- Take a literal for what it looks like. -/
def infer : Json → Option FieldValue
  | .string s => some (.string s)
  | .number (.integer n) => (Text.exactInt64? n).map .integer
  | .bool b => some (.bool b)
  | _ => none

/-! ## To literals and texts -/

/-- The stored form of a value. -/
def toJson : FieldValue → Json
  | .string s => .string s
  | .integer n => .int n.toInt
  | .bool b => .bool b
  | .timestamp t => .string t.text
  | .identifier s => .string s

/-- The text that a value is, for values that are compared as texts. -/
def text? : FieldValue → Option String
  | .string s => some s
  | .identifier s => some s
  | _ => none

/-- A value as it is shown. -/
def display : FieldValue → String
  | .string s => s
  | .integer n => Text.decimal n.toInt
  | .bool true => "true"
  | .bool false => "false"
  | .timestamp t => t.text
  | .identifier s => s

/-- The value expressed in another kind, if that kind can express it. -/
def coerceTo (v : FieldValue) (kind : FieldKind) : Option FieldValue :=
  if v.kind = kind then some v else ofJson? kind v.toJson

/-! ## Kinds of results -/

theorem orMismatch_eq_ok {kind : FieldKind} {literal : Json} {o : Option FieldValue}
    {v : FieldValue} :
    orMismatch kind literal o = .ok v ↔ o = some v := by
  cases o <;> simp [orMismatch]

/-- A converted value has the kind that was asked for. -/
theorem ofJson_kind {kind : FieldKind} {literal : Json} {v : FieldValue}
    (h : ofJson kind literal = .ok v) : v.kind = kind := by
  cases kind <;> simp only [ofJson, orMismatch_eq_ok, Option.map_eq_some_iff] at h
  -- an instant has faults of its own
  case timestamp =>
    cases ht : timestampOf literal with
    | error e => simp [ht, Except.map] at h
    | ok t =>
      simp only [ht, Except.map, Except.ok.injEq] at h
      rw [← h]
      rfl
  all_goals
    obtain ⟨a, -, rfl⟩ := h
    rfl

/-- An inferred value is a text, an integer or a truth value. -/
theorem infer_kind {literal : Json} {v : FieldValue} (h : infer literal = some v) :
    v.kind = .string ∨ v.kind = .integer ∨ v.kind = .bool := by
  unfold infer at h
  split at h
  · rw [← Option.some.inj h]; exact .inl rfl
  · obtain ⟨n, -, rfl⟩ := Option.map_eq_some_iff.mp h
    exact .inr (.inl rfl)
  · rw [← Option.some.inj h]; exact .inr (.inr rfl)
  · simp at h

/-- A value is already what it is. -/
theorem coerceTo_self (v : FieldValue) : v.coerceTo v.kind = some v := by
  simp [coerceTo]

theorem ofJson?_eq_some_iff {kind : FieldKind} {literal : Json} {v : FieldValue} :
    ofJson? kind literal = some v ↔ ofJson kind literal = .ok v := by
  unfold ofJson?
  split <;> simp_all

end FieldValue

end Backlog
