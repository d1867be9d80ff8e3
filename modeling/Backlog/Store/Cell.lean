import Backlog.Store
import Backlog.ItemType.Document

/-!
# Documents in tables

A table keeps fields and declarations as JSON documents, as they were written. A query looks into
such a document by the name of a member as it is written, takes the first member of that name, and
tells texts, integers, other numbers and truth values apart. A text that names the character zero
by an escape ends there, and so does a document that holds it.

## Main statements

* `Document.value?_ofFields` — the document of fields has the stored form of the fields as its
  value.
-/

namespace Backlog

open Json (Tree Literal)

/-- What a query makes of a part of a document. -/
inductive Cell
  | null
  | text (s : Option String)
  | integer (n : Int)
  | real
  | truth (b : Bool)
  | container
  deriving DecidableEq, Repr

/-- What a query tells apart. -/
inductive CellSort
  | text
  | integer
  | truth (b : Bool)
  deriving DecidableEq, Repr

namespace Cell

/-- Whether a part of a quoted text is an escape that names the character zero. -/
def isZero : Json.Piece → Bool
  | .plain _ => false
  | .code u _ => u == 0

/-- The text of a quoted text; one with half a pair has none. -/
def textOf (l : Literal) : Option String := Json.Literal.text? (l.takeWhile fun p => !isZero p)

/-- The least integer of 64 bits. -/
def leastInteger : Int := -9223372036854775808

/-- The value of a numeral without fraction and exponent, within 64 bits. What is too small by half
a step of the floating-point numbers there is read as the number next to it, which is the least
integer. -/
def integerOf? (n : Numeral) : Option Int :=
  let size := Nat.ofDigitChars 10 n.whole 0
  let value : Int := if n.negative then -(size : Int) else size
  if n.isPlain ∧ leastInteger - 1024 ≤ value ∧ value < -leastInteger then
    some (max leastInteger value)
  else none

/-- The cell of a part of a document. -/
def ofTree : Tree → Cell
  | .null => .null
  | .bool b => .truth b
  | .number n =>
    match integerOf? n with
    | some i => .integer i
    | none => .real
  | .string l => .text (textOf l)
  | .array _ => .container
  | .object _ => .container

/-- Whether a part of a document is of a sort: an integer is one by how it is written. -/
def isOfSort (sort : CellSort) : Tree → Bool
  | .string _ => sort == .text
  | .number n => n.isPlain && sort == .integer
  | .bool b => sort == .truth b
  | _ => false

/-- The text that a cell is compared by with the text of a row number. -/
def rowText? : Cell → Option String
  | .text s => s
  | .integer n => some (Text.decimal n)
  | .truth b => some (if b then "1" else "0")
  | _ => none

end Cell

/-! ## Stored documents -/

/-- A document as a row keeps it. The character zero ends what a query reads of a text, and then the
text as a whole is no document. -/
structure StoredDocument where
  tree : Tree
  isWhole : Bool
  deriving Inhabited

namespace StoredDocument

/-- How deep a document of a row may nest. -/
def greatestDepth : Nat := 1000

/-- The stored form of a document. -/
def ofTree (t : Tree) : StoredDocument := ⟨t, true⟩

/-- Read the text of a row as far as a query does. -/
def read? (s : String) : Option StoredDocument :=
  let front := s.toList.takeWhile fun c => !(c == '\x00')
  match Tree.read? (String.ofList front) with
  | some t =>
    if t.depth ≤ greatestDepth then some ⟨t, front.length == s.toList.length⟩ else none
  | none => none

end StoredDocument

/-! ## Documents of typed values -/

namespace Document

/-- A text as it is written. -/
def ofText (s : String) : Tree := .string (.ofChars s.toList)

/-- A value as it is written. -/
def ofValue : FieldValue → Tree
  | .string s => ofText s
  | .integer n => .number (.ofInt n.toInt)
  | .bool b => .bool b
  | .timestamp t => ofText t.text
  | .identifier s => ofText s

/-- Fields as they are written. -/
def ofFields (fields : Fields) : Tree :=
  .object (fields.toList.map fun e => (.ofChars e.1.toList, ofValue e.2))

/-- A declaration as it is written. -/
def ofDefinition (d : FieldDefinition) : Tree :=
  .object [(.ofChars "name".toList, ofText d.name), (.ofChars "kind".toList, ofText d.kind.name),
    (.ofChars "required".toList, .bool d.required)]

/-- Declarations as they are written. -/
def ofDefinitions (ds : List FieldDefinition) : Tree := .array (ds.map ofDefinition)

/-- The value of a whole document that does not nest too deep, if it is an object. -/
def payload? (doc : StoredDocument) : Option Payload :=
  if doc.isWhole ∧ doc.tree.depth ≤ Json.greatestDepth then
    match doc.tree.value? with
    | some (.object members) => some (.ofList members)
    | _ => none
  else none

/-- The declarations of a whole document. -/
def definitions? (doc : StoredDocument) : Option (List FieldDefinition) :=
  if doc.isWhole then FieldDefinition.listOfTree? doc.tree else none

/-! ## Laws -/

theorem text?_ofChars (s : String) : Json.Literal.text? (.ofChars s.toList) = some s := by
  rw [Json.Literal.text?, Json.Literal.chars?_quote]
  simp

theorem value?_ofText (s : String) : (ofText s).value? = some (.string s) := by
  rw [ofText, Tree.value?, text?_ofChars]
  rfl

theorem value?_ofValue (v : FieldValue) : (ofValue v).value? = some v.toJson := by
  cases v with
  | string s => exact value?_ofText s
  | integer n =>
    -- a word lies within the range of integers that are read
    have h1 := Int64.le_toInt n
    have h2 := Int64.toInt_lt n
    rw [ofValue, Tree.value?, Numeral.number?_ofInt h1 (by omega)]
    rfl
  | bool b => rw [ofValue, Tree.value?]; rfl
  | timestamp t => exact value?_ofText t.text
  | identifier s => exact value?_ofText s

theorem entries?_ofFields (l : List (String × FieldValue)) :
    Tree.entries? (l.map fun e => (Literal.ofChars e.1.toList, ofValue e.2)) =
      some (l.map fun e => (e.1, e.2.toJson)) := by
  induction l with
  | nil => rfl
  | cons e l ih =>
    rw [List.map_cons, Tree.entries?]
    simp only [text?_ofChars, value?_ofValue, ih]
    rfl

/-- The document of fields has the stored form of the fields as its value. -/
theorem value?_ofFields (fields : Fields) :
    (ofFields fields).value? = some (.ofMap (.ofList fields.toPayload.entries)) := by
  rw [ofFields, Tree.value?, SortedMap.toList, entries?_ofFields]
  rfl

end Document

end Backlog
