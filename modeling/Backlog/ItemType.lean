import Backlog.Item
import Backlog.Error

/-!
# Work item types

A type names its fields, their kinds and which of them every item needs. Converting a payload
checks all of that; a schema itself is checked before it is published.

## Main statements

* `ItemType.convertValue_eq_ok_iff` — one literal converts exactly when the field is declared and
  the literal is of its kind;
* `ItemType.checkRequired_eq_ok_iff` — the check passes exactly when no required field is missing.
-/

namespace Backlog

/-! ## Names with a meaning -/

namespace SystemField

/-- The field of the title. -/
def title : String := "system.title"

/-- The field of the state. -/
def state : String := "system.state"

/-- The field of the description. -/
def description : String := "system.description"

/-- The field of the caller that created the item. -/
def creator : String := "system.creator"

/-- The field of whoever works on the item. -/
def assignee : String := "system.assignee"

/-- The field of the iteration that the item is planned into. -/
def iteration : String := "system.iteration"

/-- The field of the id that the item has elsewhere. -/
def remoteItemId : String := "system.remote_item_id"

end SystemField

namespace SystemType

/-- The type of user stories. -/
def userStory : String := "system.userstory"

/-- The type of bugs. -/
def bug : String := "system.bug"

/-- The type of features. -/
def feature : String := "system.feature"

end SystemType

namespace StateName

/-- The state of a new item. -/
def new : String := "new"

/-- The state of an item that is done. -/
def closed : String := "closed"

end StateName

/-! ## Types -/

/-- A declared field. -/
structure FieldDefinition where
  name : String
  kind : FieldKind
  required : Bool
  deriving DecidableEq, Repr

/-- A type of work items. -/
structure ItemType where
  name : String
  fields : List FieldDefinition
  deriving DecidableEq, Repr

/-- What is wrong with a schema. -/
inductive SchemaFault
  | namelessType
  | noFields (typeName : String)
  | namelessField
  | repeatedField (name : String)
  deriving DecidableEq, Repr

/-- The failure that a wrong schema is. -/
def SchemaFault.toError : SchemaFault → AccessError
  | .namelessType => .badParameter "name" "type name must not be empty"
  | .noFields typeName => .badParameter "fields" ("type '" ++ typeName ++ "' declares no fields")
  | .namelessField => .badParameter "fields" "field name must not be empty"
  | .repeatedField name => .badParameter "fields" ("duplicate field '" ++ name ++ "'")

/-- The failure that a literal is which does not convert. -/
def ConversionFault.toError (fault : ConversionFault) (field : String) : AccessError :=
  .fieldConversion field fault.message

namespace ItemType

/-- The first declaration of a field. -/
def field? (t : ItemType) (name : String) : Option FieldDefinition :=
  t.fields.find? fun d => d.name = name

/-! ## Checking a schema -/

/-- Check declarations in order, knowing the names that came before. -/
def validateFields (seen : List String) : List FieldDefinition → Except SchemaFault Unit
  | [] => .ok ()
  | d :: rest =>
    if Text.blank d.name then .error .namelessField
    else if d.name ∈ seen then .error (.repeatedField d.name)
    else validateFields (d.name :: seen) rest

/-- Check a schema: a name, at least one field, and field names that differ. -/
def validate (t : ItemType) : Except SchemaFault Unit :=
  if Text.blank t.name then .error .namelessType
  else if t.fields.isEmpty then .error (.noFields t.name)
  else validateFields [] t.fields

/-! ## Converting payloads -/

/-- Convert a literal for a declared field. -/
def convertValue (t : ItemType) (name : String) (literal : Json) : Except AccessError FieldValue :=
  match t.field? name with
  | none => .error ((ConversionFault.undeclared t.name).toError name)
  | some d =>
    match FieldValue.ofJson d.kind literal with
    | .ok v => .ok v
    | .error fault => .error (fault.toError name)

/-- The first required field that is missing. -/
def missing? (t : ItemType) (fields : Fields) : Option FieldDefinition :=
  t.fields.find? fun d => d.required && !(fields.contains d.name)

/-- Check that no required field is missing. -/
def checkRequired (t : ItemType) (fields : Fields) : Except AccessError Unit :=
  match t.missing? fields with
  | some d => .error (.badParameter d.name ("required by type '" ++ t.name ++ "'"))
  | none => .ok ()

/-- Convert literals in order of their names; a `null` for a declared field counts as absent. -/
def convertEntries (t : ItemType) (acc : Fields) : List (String × Json) → Except AccessError Fields
  | [] => .ok acc
  | (name, literal) :: rest =>
    if literal.isNull then
      match t.field? name with
      | none => .error ((ConversionFault.undeclared t.name).toError name)
      | some _ => convertEntries t acc rest
    else
      match t.convertValue name literal with
      | .ok v => convertEntries t (acc.insert name v) rest
      | .error e => .error e

/-- Convert the payload of a new item and check that nothing required is missing. -/
def convertFields (t : ItemType) (payload : Payload) : Except AccessError Fields :=
  match t.convertEntries ∅ payload.toList with
  | .error e => .error e
  | .ok fields =>
    match t.checkRequired fields with
    | .ok () => .ok fields
    | .error e => .error e

/-! ## Changing fields -/

/-- Put one literal over the fields of an item; `null` removes a field that is not required. -/
def mergeEntry (t : ItemType) (fields : Fields) (name : String) (literal : Json) :
    Except AccessError Fields :=
  if literal.isNull then
    match t.field? name with
    | none => .error ((ConversionFault.undeclared t.name).toError name)
    | some d =>
      if d.required then
        .error (.badParameter name ("required by type '" ++ t.name ++ "' and cannot be removed"))
      else .ok (fields.erase name)
  else
    match t.convertValue name literal with
    | .ok v => .ok (fields.insert name v)
    | .error e => .error e

/-- Put literals over the fields of an item, in order of their names. -/
def mergeEntries (t : ItemType) (fields : Fields) : List (String × Json) → Except AccessError Fields
  | [] => .ok fields
  | (name, literal) :: rest =>
    match t.mergeEntry fields name literal with
    | .ok fields => mergeEntries t fields rest
    | .error e => .error e

/-- Put a payload over the fields of an item and check that nothing required is missing. -/
def mergeFields (t : ItemType) (fields : Fields) (payload : Payload) : Except AccessError Fields :=
  match t.mergeEntries fields payload.toList with
  | .error e => .error e
  | .ok fields =>
    match t.checkRequired fields with
    | .ok () => .ok fields
    | .error e => .error e

/-! ## Small laws -/

/-- One literal converts exactly when the field is declared and the literal is of its kind. -/
theorem convertValue_eq_ok_iff {t : ItemType} {name : String} {literal : Json} {v : FieldValue} :
    t.convertValue name literal = .ok v ↔
      ∃ d, t.field? name = some d ∧ FieldValue.ofJson d.kind literal = .ok v := by
  unfold convertValue
  cases hf : t.field? name with
  | none => simp
  | some d => cases hv : FieldValue.ofJson d.kind literal <;> simp [hv]

/-- The check passes exactly when no required field is missing. -/
theorem checkRequired_eq_ok_iff {t : ItemType} {fields : Fields} :
    t.checkRequired fields = .ok () ↔
      ∀ d ∈ t.fields, d.required = true → fields.contains d.name = true := by
  unfold checkRequired missing?
  cases h : t.fields.find? fun d => d.required && !(fields.contains d.name) with
  | none =>
    -- nothing is missing
    rw [List.find?_eq_none] at h
    simpa using h
  | some d =>
    -- the field that was found is required and missing
    have hd := List.find?_some h
    simp only [Bool.and_eq_true, Bool.not_eq_true'] at hd
    simp only [reduceCtorEq, false_iff]
    intro hall
    have := hall d (List.mem_of_find?_eq_some h) hd.1
    rw [hd.2] at this
    exact Bool.noConfusion this

/-! ## The types that every store knows -/

/-- The fields of the types that every store knows. -/
def systemFields : List FieldDefinition :=
  [⟨SystemField.title, .string, true⟩, ⟨SystemField.state, .string, true⟩,
   ⟨SystemField.description, .string, false⟩, ⟨SystemField.creator, .identifier, true⟩,
   ⟨SystemField.assignee, .identifier, false⟩, ⟨SystemField.iteration, .identifier, false⟩,
   ⟨SystemField.remoteItemId, .string, false⟩]

/-- The types that every store knows from the start. -/
def system : List ItemType :=
  [SystemType.userStory, SystemType.bug, SystemType.feature].map fun name => ⟨name, systemFields⟩

end ItemType

end Backlog
