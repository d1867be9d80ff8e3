import Backlog.Json.Tree
import Backlog.Number.Shortest
import Backlog.Text.Integer

/-!
# Writing JSON

The compact form has no blanks at all. The pretty form puts every item and member on a line of
its own, two spaces further in than its container; an empty container stays on one line.
Integers are written in decimal, floating-point numbers in their shortest form.

## Main statements

* `write_string`, `write_array`, `write_object` — the compact form part by part.
-/

namespace Backlog.Json

/-- Floating-point numbers are positional from `0.00001` up to sixteen digits in front of the
point, and have an exponent outside. -/
def layout : DecimalLayout := ⟨-5, 15⟩

/-- The text of a number. -/
def numberText : JsonNumber → String
  | .integer n => Text.decimal n
  | .real x => x.text layout

/-- A text in quotes. -/
def quoted (s : String) : List Char := '"' :: Literal.quote s.toList ++ ['"']

/-! ## Compact form -/

mutual

/-- The characters of the compact form. -/
def chars : Json → List Char
  | .null => ['n', 'u', 'l', 'l']
  | .bool true => ['t', 'r', 'u', 'e']
  | .bool false => ['f', 'a', 'l', 's', 'e']
  | .number n => (numberText n).toList
  | .string s => quoted s
  | .array items => '[' :: itemChars items
  | .object members => '{' :: memberChars members

/-- Items, the separators between them and the closing bracket. -/
def itemChars : List Json → List Char
  | [] => [']']
  | [j] => chars j ++ [']']
  | j :: rest => chars j ++ ',' :: itemChars rest

/-- Members, the separators between them and the closing bracket. -/
def memberChars : List (String × Json) → List Char
  | [] => ['}']
  | [e] => quoted e.1 ++ ':' :: chars e.2 ++ ['}']
  | e :: rest => quoted e.1 ++ ':' :: chars e.2 ++ ',' :: memberChars rest

end

/-- The compact text of a value. -/
def write (j : Json) : String := String.ofList (chars j)

@[simp] theorem toList_write (j : Json) : (write j).toList = chars j := by
  simp [write]

theorem write_string (s : String) : chars (.string s) = quoted s := by rw [chars]

theorem write_array (items : List Json) : chars (.array items) = '[' :: itemChars items := by
  rw [chars]

theorem write_object (members : List (String × Json)) :
    chars (.object members) = '{' :: memberChars members := by
  rw [chars]

/-! ## Pretty form -/

/-- A line break and the indentation of a level. -/
def lineAt (level : Nat) : List Char := '\n' :: List.replicate (2 * level) ' '

mutual

/-- The characters of the pretty form inside `level` containers. -/
def prettyChars (level : Nat) : Json → List Char
  | .array [] => ['[', ']']
  | .array items => '[' :: prettyItems (level + 1) items ++ lineAt level ++ [']']
  | .object [] => ['{', '}']
  | .object members => '{' :: prettyMembers (level + 1) members ++ lineAt level ++ ['}']
  | .null => ['n', 'u', 'l', 'l']
  | .bool true => ['t', 'r', 'u', 'e']
  | .bool false => ['f', 'a', 'l', 's', 'e']
  | .number n => (numberText n).toList
  | .string s => quoted s

/-- Items on lines of their own. -/
def prettyItems (level : Nat) : List Json → List Char
  | [] => []
  | [j] => lineAt level ++ prettyChars level j
  | j :: rest => lineAt level ++ prettyChars level j ++ ',' :: prettyItems level rest

/-- Members on lines of their own. -/
def prettyMembers (level : Nat) : List (String × Json) → List Char
  | [] => []
  | [e] => lineAt level ++ quoted e.1 ++ ':' :: ' ' :: prettyChars level e.2
  | e :: rest =>
    lineAt level ++ quoted e.1 ++ ':' :: ' ' :: prettyChars level e.2
      ++ ',' :: prettyMembers level rest

end

/-- The pretty text of a value. -/
def pretty (j : Json) : String := String.ofList (prettyChars 0 j)

end Backlog.Json
