import Backlog.Field.Value

/-!
# Work items

A work item has an id, the name of its type, a version and typed fields. Ids are opaque texts;
only those that read as positive 64-bit numbers name a row, so `1` and `+1` name the same row
and are different texts.

## Main statements

* `rowOf?_rowText` — the text of a row names that row;
* `nextVersion_of_lt` — below the greatest word a version rises by one;
* `WorkItem.get?_fieldsJson` — the stored form has the fields of the item, each in its own form.
-/

namespace Backlog

/-! ## Rows and ids -/

/-- The row that an id text names, if it names one. -/
def rowOf? (text : String) : Option Int :=
  match Text.int64? text with
  | some w => if 0 < w.toInt then some w.toInt else none
  | none => none

/-- The id text of a row. -/
def rowText (row : Int) : String := Text.decimal row

/-- The text of a row names that row. -/
theorem rowOf?_rowText {row : Int} (low : 0 < row) (high : row < 9223372036854775808) :
    rowOf? (rowText row) = some row := by
  have hw : Text.int64? (rowText row) = some (Int64.ofInt row) := by
    unfold Text.int64? rowText Text.decimal
    rw [String.toList_ofList, Text.integer?_decimalChars, Option.bind_some, Text.exactInt64?,
      if_pos ⟨by omega, high⟩]
  have hv : (Int64.ofInt row).toInt = row := Int64.toInt_ofInt_of_le (by omega) high
  unfold rowOf?
  rw [hw]
  simp [hv, low]

/-- The text of a row names no other row. -/
theorem eq_of_rowOf?_rowText {row row' : Int} (h : rowOf? (rowText row) = some row') :
    row' = row := by
  unfold rowOf? at h
  split at h
  · next w hw =>
    have hvalue : w.toInt = row := by
      unfold Text.int64? rowText Text.decimal at hw
      rw [String.toList_ofList, Text.integer?_decimalChars, Option.bind_some] at hw
      exact Text.toInt_of_exactInt64? hw
    split at h
    · rw [← Option.some.inj h, hvalue]
    · simp at h
  · simp at h

/-- Rows have different texts. -/
theorem rowText_injective {a b : Int} (h : rowText a = rowText b) : a = b := by
  have hchars : Text.decimalChars a = Text.decimalChars b := by
    have := congrArg String.toList h
    simpa [rowText, Text.decimal] using this
  have ha := Text.integer?_decimalChars a
  rw [hchars, Text.integer?_decimalChars] at ha
  exact (Option.some.inj ha).symm

theorem rowOf?_pos {text : String} {row : Int} (h : rowOf? text = some row) : 0 < row := by
  unfold rowOf? at h
  split at h
  · split at h
    · next hp => rw [← Option.some.inj h]; exact hp
    · simp at h
  · simp at h

/-- The id of a work item. -/
structure ItemId where
  text : String
  deriving DecidableEq, Repr, Inhabited

namespace ItemId

/-- The id of a row. -/
def ofRow (row : Int) : ItemId := ⟨rowText row⟩

/-- The row that an id names, if it names one. -/
def row? (id : ItemId) : Option Int := rowOf? id.text

/-- The id that a person wrote, without blanks around it. -/
def ofInput (s : String) : ItemId := ⟨Text.trim s⟩

end ItemId

/-! ## Items -/

/-- Typed fields by name. -/
abbrev Fields := SortedMap String FieldValue

/-- Raw literals by field name. -/
abbrev Payload := SortedMap String Json

/-- The version of a work item that was just created. -/
def initialVersion : Nat := 0

/-- The version after a version. Versions are words of 64 bits, so zero comes after the greatest
one. -/
def nextVersion (version : Nat) : Nat := (version + 1) % 18446744073709551616

/-- Below the greatest word a version rises by one. -/
theorem nextVersion_of_lt {version : Nat} (h : version < 18446744073709551615) :
    nextVersion version = version + 1 :=
  Nat.mod_eq_of_lt (by omega)

/-- A work item. -/
structure WorkItem where
  id : ItemId
  typeName : String
  version : Nat
  fields : Fields
  deriving DecidableEq

/-- A request to change a work item: the version it is based on, and literals for fields. -/
structure WorkItemUpdate where
  id : ItemId
  version : Nat
  fields : Payload
  deriving DecidableEq

/-- The stored form of fields. -/
def Fields.toPayload (fields : Fields) : Payload := fields.map fun _ v => v.toJson

namespace WorkItem

/-- The value of a field. -/
def field? (item : WorkItem) (name : String) : Option FieldValue := item.fields.get? name

/-- The fields in their stored form. -/
def fieldsJson (item : WorkItem) : Payload := item.fields.toPayload

end WorkItem

/-- The stored form has the fields of the item, each in its own form. -/
theorem WorkItem.get?_fieldsJson (item : WorkItem) (name : String) :
    item.fieldsJson.get? name = (item.field? name).map FieldValue.toJson :=
  SortedMap.get?_map (fun (_ : String) (v : FieldValue) => v.toJson) item.fields name

end Backlog
