import Backlog.ItemType
import Backlog.Json.Writer

/-!
# Types as documents

A type is written as an object with its name and its declarations. The reader is lenient where it
costs nothing: members it does not know are skipped, whatever they hold, and the parts of a record
may also stand in an array in their order. It is strict about what it knows: no member twice,
no `null` for a part, and a kind by exactly its name.

## Main statements

* `FieldKind.ofTree?_string` — a kind is read from its own name;
* `FieldDefinition.membersOf_nil` — a declaration without members has no parts.
-/

namespace Backlog

open Json (Tree Literal)

/-! ## Parts of documents -/

/-- The text that a document is, if it is one. -/
def Json.Tree.text? : Tree → Option String
  | .string s => s.text?
  | _ => none

/-- The truth value that a document is, if it is one. -/
def Json.Tree.bool? : Tree → Option Bool
  | .bool b => some b
  | _ => none

/-- Documents under the names they are filed under; every name has to be readable. -/
def Json.Tree.named? : List (Literal × Tree) → Option (List (String × Tree))
  | [] => some []
  | e :: rest =>
    match e.1.text?, named? rest with
    | some k, some es => some ((k, e.2) :: es)
    | _, _ => none

/-- The documents that are filed under a name. -/
def Json.Tree.filed (name : String) (members : List (String × Tree)) : List Tree :=
  (members.filter fun e => e.1 = name).map Prod.snd

/-! ## Kinds -/

/-- Read a kind: its name, or an object that files `null` under its name. -/
def FieldKind.ofTree? : Tree → Option FieldKind
  | .string s => s.text?.bind ofName?
  | .object [(s, .null)] => s.text?.bind ofName?
  | _ => none

theorem FieldKind.ofTree?_string (s : Literal) (k : FieldKind) (h : s.text? = some k.name) :
    ofTree? (.string s) = some k := by
  simp [ofTree?, h, ofName?_name]

/-! ## Declarations -/

namespace FieldDefinition

/-- Join the parts of a declaration. -/
def ofParts? (name kind : Tree) (required : Option Tree) : Option FieldDefinition :=
  match name.text?, FieldKind.ofTree? kind, required with
  | some name, some kind, none => some ⟨name, kind, false⟩
  | some name, some kind, some required => required.bool?.map fun r => ⟨name, kind, r⟩
  | _, _, _ => none

/-- Read the members of a declaration. -/
def ofMembers? (members : List (String × Tree)) : Option FieldDefinition :=
  match Tree.filed "name" members, Tree.filed "kind" members, Tree.filed "required" members with
  | [name], [kind], [] => ofParts? name kind none
  | [name], [kind], [required] => ofParts? name kind (some required)
  | _, _, _ => none

/-- Read a declaration. -/
def ofTree? : Tree → Option FieldDefinition
  | .object members => (Tree.named? members).bind ofMembers?
  | .array [name, kind] => ofParts? name kind none
  | .array [name, kind, required] => ofParts? name kind (some required)
  | _ => none

/-- Read declarations, all of them or none. -/
def ofTrees? : List Tree → Option (List FieldDefinition)
  | [] => some []
  | t :: rest =>
    match ofTree? t, ofTrees? rest with
    | some d, some ds => some (d :: ds)
    | _, _ => none

/-- Read a list of declarations. -/
def listOfTree? : Tree → Option (List FieldDefinition)
  | .array items => ofTrees? items
  | _ => none

/-- Read the text of a list of declarations. -/
def readList? (s : String) : Option (List FieldDefinition) := (Tree.read? s).bind listOfTree?

/-- A declaration as a document. -/
def toJson (d : FieldDefinition) : Json :=
  .object [("name", .string d.name), ("kind", .string d.kind.name), ("required", .bool d.required)]

/-- Declarations as a document. -/
def listToJson (ds : List FieldDefinition) : Json := .array (ds.map toJson)

theorem membersOf_nil : ofMembers? [] = none := rfl

end FieldDefinition

/-! ## Types -/

namespace ItemType

/-- Join the parts of a type. -/
def ofParts? (name fields : Tree) : Option ItemType :=
  match name.text?, FieldDefinition.listOfTree? fields with
  | some name, some fields => some ⟨name, fields⟩
  | _, _ => none

/-- Read the members of a type. -/
def ofMembers? (members : List (String × Tree)) : Option ItemType :=
  match Tree.filed "name" members, Tree.filed "fields" members with
  | [name], [fields] => ofParts? name fields
  | _, _ => none

/-- Read a type. -/
def ofTree? : Tree → Option ItemType
  | .object members => (Tree.named? members).bind ofMembers?
  | .array [name, fields] => ofParts? name fields
  | _ => none

/-- Read the text of a type. -/
def read? (s : String) : Option ItemType := (Tree.read? s).bind ofTree?

/-- Read types, all of them or none. -/
def ofTrees? : List Tree → Option (List ItemType)
  | [] => some []
  | t :: rest =>
    match ofTree? t, ofTrees? rest with
    | some type, some types => some (type :: types)
    | _, _ => none

/-- Read the text of a list of types. -/
def readList? (s : String) : Option (List ItemType) :=
  match Tree.read? s with
  | some (.array items) => ofTrees? items
  | _ => none

/-- A type as a document. -/
def toJson (t : ItemType) : Json :=
  .object [("name", .string t.name), ("fields", FieldDefinition.listToJson t.fields)]

end ItemType

end Backlog
