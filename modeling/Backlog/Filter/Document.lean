import Backlog.Filter.Basic
import Backlog.Catalog

/-!
# Filters as documents

A filter is written as a JSON object. Every member is a condition: the keys `$and` and `$or` take
a group of objects, every other key is a field with a literal. A literal for a field with a known
kind is converted to it, other literals are taken for what they look like. Empty text asks for
nothing.

## Main statements

* `Filter.read_blank` — empty text asks for nothing;
* `Filter.toJson_equals` — an equality is written as an object with one member.
-/

namespace Backlog

namespace Filter

/-- The key of a group of which every member is asked for. -/
def andKey : String := "$and"

/-- The key of a group of which one member is asked for. -/
def orKey : String := "$or"

/-! ## Faults -/

/-- What is wrong with the text of a filter. -/
inductive Fault
  | invalidJson
  | noObject (sort : String)
  | noArray (key sort : String)
  | emptyGroup (key : String)
  | noEntry (key sort : String)
  | emptyField
  | noLiteral (field sort : String)
  | unconverted (field : String) (fault : ConversionFault)
  deriving DecidableEq

/-- The failure that a fault is. -/
def Fault.toError : Fault → AccessError
  | .invalidJson => .malformedFilter "invalid JSON"
  | .noObject sort => .malformedFilter ("expected a JSON object, got " ++ sort)
  | .noArray key sort =>
    .malformedFilter ("'" ++ key ++ "' takes an array of filter objects, got " ++ sort)
  | .emptyGroup key => .malformedFilter ("'" ++ key ++ "' needs at least one filter object")
  | .noEntry key sort => .malformedFilter ("'" ++ key ++ "' entries must be objects, got " ++ sort)
  | .emptyField => .malformedFilter "empty field name"
  | .noLiteral field sort =>
    .malformedFilter ("value for '" ++ field ++ "' must be a string, integer or bool, got " ++ sort)
  | .unconverted field fault => fault.toError field

/-! ## Reading -/

/-- The literal of an equality. -/
def literal (catalog : Catalog) (field : String) (j : Json) : Except Fault FieldValue :=
  match (if j.isScalar then catalog.kind? field else none) with
  | some kind =>
    match FieldValue.ofJson kind j with
    | .ok v => .ok v
    | .error fault => .error (.unconverted field fault)
  | none =>
    match FieldValue.infer j with
    | some v => .ok v
    | none => .error (.noLiteral field j.sort)

/-- The equality of a member. -/
def equality (catalog : Catalog) (field : String) (j : Json) : Except Fault Filter :=
  if field = "" then .error .emptyField
  else (literal catalog field j).map fun v => .equals field v

/-- How the members of a group are joined, if the key is that of a group. -/
def joinOf? (key : String) : Option (List Filter → Filter) :=
  if key = andKey then some joinAll else if key = orKey then some joinAny else none

mutual

/-- The conditions of members, in their order. -/
def ofMembers (catalog : Catalog) : List (String × Json) → Except Fault (List Filter)
  | [] => .ok []
  | (key, j) :: rest =>
    match ofMember catalog key j with
    | .error fault => .error fault
    | .ok f =>
      match ofMembers catalog rest with
      | .error fault => .error fault
      | .ok fs => .ok (f :: fs)

/-- The condition of a member. -/
def ofMember (catalog : Catalog) (key : String) : Json → Except Fault Filter
  | .array items =>
    match joinOf? key with
    | none => equality catalog key (.array items)
    | some join =>
      if items = [] then .error (.emptyGroup key)
      else
        match ofEntries catalog key items with
        | .error fault => .error fault
        | .ok fs => .ok (join fs)
  | j =>
    match joinOf? key with
    | none => equality catalog key j
    | some _ => .error (.noArray key j.sort)

/-- The conditions of the entries of a group. -/
def ofEntries (catalog : Catalog) (key : String) : List Json → Except Fault (List Filter)
  | [] => .ok []
  | .object members :: rest =>
    match ofMembers catalog members with
    | .error fault => .error fault
    | .ok fs =>
      match ofEntries catalog key rest with
      | .error fault => .error fault
      | .ok gs => .ok (joinAll fs :: gs)
  | j :: _ => .error (.noEntry key j.sort)

end

/-- The filter of an object. -/
def ofObject (catalog : Catalog) (members : List (String × Json)) : Except Fault Filter :=
  (ofMembers catalog members).map joinAll

/-- The filter of a value. -/
def ofJson (catalog : Catalog) : Json → Except Fault Filter
  | .object members => ofObject catalog members
  | j => .error (.noObject j.sort)

/-- Read the text of a filter. -/
def read (catalog : Catalog) (s : String) : Except Fault Filter :=
  let text := Text.trim s
  if text.isEmpty then .ok .all
  else
    match Json.read? text with
    | some j => ofJson catalog j
    | none => .error .invalidJson

theorem read_blank (catalog : Catalog) {s : String} (h : Text.trim s = "") :
    read catalog s = .ok .all := by
  simp [read, h]

/-! ## Writing -/

mutual

/-- A filter as a document. -/
def toJson : Filter → Json
  | .all => .object []
  | .equals field value => .object [(field, value.toJson)]
  | .and children =>
    let parts := flatten ∅ children
    .ofMap (if parts.2 = [] then parts.1 else parts.1.insert andKey (.array parts.2))
  | .or children => .object [(orKey, .array (listToJson children))]

/-- Split a group into equalities of different fields and the documents of the rest. -/
def flatten (flat : SortedMap String Json) : List Filter → SortedMap String Json × List Json
  | [] => (flat, [])
  | .equals field value :: rest =>
    -- a field that is asked for twice keeps its first literal in the open
    if flat.contains field then
      let parts := flatten flat rest
      (parts.1, .object [(field, value.toJson)] :: parts.2)
    else flatten (flat.insert field value.toJson) rest
  | f :: rest =>
    let parts := flatten flat rest
    (parts.1, toJson f :: parts.2)

/-- Filters as documents. -/
def listToJson : List Filter → List Json
  | [] => []
  | f :: rest => toJson f :: listToJson rest

end

/-- The text of a filter. -/
def text (f : Filter) : String := f.toJson.write

theorem toJson_equals (field : String) (value : FieldValue) :
    (Filter.equals field value).toJson = .object [(field, value.toJson)] := by
  rw [toJson]

end Filter

end Backlog
