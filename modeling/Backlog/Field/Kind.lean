import Backlog.Text.Blank

/-!
# Kinds of fields

A field is declared with one of five kinds. People may write a kind in several ways; schemas
and messages use one name each.

## Main statements

* `FieldKind.read_name` — the name of a kind is read as that kind;
* `FieldKind.ofName?_eq_some_iff` — a schema takes exactly the five names.
-/

namespace Backlog

/-- A word that names nothing of what was expected. -/
structure UnknownWord where
  expected : String
  got : String
  deriving DecidableEq, Repr

/-- The message for an unknown word. -/
def UnknownWord.message (w : UnknownWord) : String :=
  "invalid " ++ w.expected ++ ": '" ++ w.got ++ "'"

/-- The declared kind of a field. -/
inductive FieldKind
  | string
  | integer
  | bool
  | timestamp
  | identifier
  deriving DecidableEq, Repr, Inhabited

namespace FieldKind

/-- Every kind. -/
def all : List FieldKind := [.string, .integer, .bool, .timestamp, .identifier]

/-- The name of a kind. -/
def name : FieldKind → String
  | .string => "string"
  | .integer => "integer"
  | .bool => "bool"
  | .timestamp => "timestamp"
  | .identifier => "identifier"

/-- The other words for a kind. -/
def aliases : FieldKind → List String
  | .string => ["str"]
  | .integer => ["int"]
  | .bool => ["boolean"]
  | .timestamp => ["instant"]
  | .identifier => ["id", "user"]

/-- The kind with exactly this name, as a schema writes it. -/
def ofName? (s : String) : Option FieldKind := all.find? fun k => k.name = s

/-- Read a kind as people write it: in any case, with blanks around it, by any of its words. -/
def read (s : String) : Except UnknownWord FieldKind :=
  let word := Text.asciiLower (Text.trim s)
  match all.find? fun k => word ∈ k.name :: k.aliases with
  | some k => .ok k
  | none => .error ⟨"field kind", s⟩

theorem ofName?_name (k : FieldKind) : ofName? k.name = some k := by
  cases k <;> decide

/-- A schema takes exactly the five names. -/
theorem ofName?_eq_some_iff {s : String} {k : FieldKind} : ofName? s = some k ↔ s = k.name := by
  constructor
  · intro h
    have := List.find?_some h
    simpa using (of_decide_eq_true this).symm
  · rintro rfl
    exact ofName?_name k

/-- The name of a kind is read as that kind. -/
theorem read_name (k : FieldKind) : read k.name = .ok k := by
  cases k <;> rfl

end FieldKind

end Backlog
