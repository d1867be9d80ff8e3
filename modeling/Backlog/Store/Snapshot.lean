import Backlog.Json.Writer
import Backlog.Store.Tables

/-!
# Tables in a file

All rows of the tables as one document, and back. The documents inside rows are kept as texts, so
that they come back as they were written.

## Main statements

* `Snapshot.iterationOf?_iterationJson` — the row of an iteration comes back as it was;
* `Snapshot.itemOf?_itemJson` — so does the row of an item whose document reads back.
-/

namespace Backlog.Snapshot

/-! ## Writing -/

/-- The text of a document. One that is not whole stays so. -/
def documentText (doc : StoredDocument) : String :=
  (doc.tree.value?.getD .null).write ++ (if doc.isWhole then "" else "\x00")

/-- A text that may be absent. -/
def optionalJson (s : Option String) : Json :=
  match s with
  | some s => .string s
  | none => .null

/-- The row of a type. -/
def typeJson (e : String × StoredDocument) : Json :=
  .array [.string e.1, .string (documentText e.2)]

/-- The row of an item. -/
def itemJson (e : Int × ItemRow) : Json :=
  .array [.int e.1, .string e.2.typeName, .nat e.2.version, .string (documentText e.2.fields)]

/-- The number of a parent, if there is one. -/
def parentJson (p : Option Int) : Json :=
  match p with
  | some row => .int row
  | none => .null

/-- The row of an iteration. -/
def iterationJson (e : Int × IterationRow) : Json :=
  .array [.int e.1, .string e.2.space, parentJson e.2.parent, .string e.2.name,
    optionalJson e.2.description, optionalJson e.2.startAt, optionalJson e.2.endAt,
    .string e.2.state.name]

/-- All rows, and the rows that were handed out last. -/
def toJson (t : Tables) : Json :=
  .object
    [("layout", .nat Tables.layoutVersion),
     ("types", .array (t.types.toList.map typeJson)),
     ("items", .array (t.items.toList.map itemJson)),
     ("iterations", .array (t.iterations.toList.map iterationJson)),
     ("last_item", .int t.lastItem), ("last_iteration", .int t.lastIteration)]

/-! ## Reading -/

/-- A text that may be absent. -/
def optionalOf? : Json → Option (Option String)
  | .string s => some (some s)
  | .null => some none
  | _ => none

/-- The number of a parent that may be absent. -/
def parentOf? : Json → Option (Option Int)
  | .number (.integer n) => some (some n)
  | .null => some none
  | _ => none

/-- The row of a type. -/
def typeOf? : Json → Option (String × StoredDocument)
  | .array [.string name, .string doc] => (StoredDocument.read? doc).map fun d => (name, d)
  | _ => none

/-- The row of an item. -/
def itemOf? : Json → Option (Int × ItemRow)
  | .array [.number (.integer row), .string typeName, .number (.integer version), .string doc] =>
    (StoredDocument.read? doc).map fun d => (row, ⟨typeName, version.toNat, d⟩)
  | _ => none

/-- The row of an iteration. -/
def iterationOf? : Json → Option (Int × IterationRow)
  | .array [.number (.integer row), .string space, parent, .string name, description, startAt,
      endAt, .string state] =>
    match parentOf? parent, optionalOf? description, optionalOf? startAt, optionalOf? endAt,
      Tables.stateOf? state with
    | some parent, some description, some startAt, some endAt, some state =>
      some (row, ⟨space, parent, name, description, startAt, endAt, state⟩)
    | _, _, _, _, _ => none
  | _ => none

/-- All rows of a list, or none. -/
def rowsOf? {α : Type} (f : Json → Option α) : Json → Option (List α)
  | .array items => items.mapM f
  | _ => none

/-- The tables of a document. -/
def ofJson? (j : Json) : Option Tables := do
  let types ← rowsOf? typeOf? (← j.get? "types")
  let items ← rowsOf? itemOf? (← j.get? "items")
  let iterations ← rowsOf? iterationOf? (← j.get? "iterations")
  let lastItem ← Json.integer? (← j.get? "last_item")
  let lastIteration ← Json.integer? (← j.get? "last_iteration")
  return ⟨.ofList types, .ofList items, .ofList iterations, lastItem, lastIteration⟩

/-- The tables of a text. -/
def read? (s : String) : Option Tables := (Json.read? s).bind ofJson?

/-! ## Laws -/

theorem optionalOf?_optionalJson (s : Option String) : optionalOf? (optionalJson s) = some s := by
  cases s <;> rfl

theorem parentOf?_parentJson (p : Option Int) : parentOf? (parentJson p) = some p := by
  cases p <;> rfl

theorem stateOf?_name (s : IterationState) : Tables.stateOf? s.name = some s := by
  cases s <;> decide

/-- The row of an iteration comes back as it was. -/
theorem iterationOf?_iterationJson (e : Int × IterationRow) :
    iterationOf? (iterationJson e) = some e := by
  simp only [iterationJson, iterationOf?, Json.int, optionalOf?_optionalJson,
    parentOf?_parentJson, stateOf?_name]

/-- The row of an item whose document reads back comes back as it was. -/
theorem itemOf?_itemJson {e : Int × ItemRow}
    (h : StoredDocument.read? (documentText e.2.fields) = some e.2.fields) :
    itemOf? (itemJson e) = some e := by
  simp only [itemJson, itemOf?, Json.int, Json.nat, h, Option.map_some, Int.toNat_natCast]

end Backlog.Snapshot
