import Backlog.Store.Limit

/-!
# A store of tables

Types, items and iterations are rows. Fields and declarations are documents, instants are texts,
and everything is decoded when it is read: the fields of an item by the declarations that its type
has at that moment. Rows are checked when they are written: an item has a known type and a version
within 63 bits, an iteration has a name and a parent that exists. A filter is prepared as a clause
before any row is looked at, and rows are gone through in their order until enough are found.

## Main statements

* `Tables.item?_deleteItem` — a removed row holds nothing, and every other row keeps its item;
* `Tables.scan_sublist` — rows that are found keep their order.
-/

namespace Backlog

/-- A row of an item. -/
structure ItemRow where
  typeName : String
  version : Nat
  fields : StoredDocument
  deriving Inhabited

/-- A row of an iteration. -/
structure IterationRow where
  space : String
  parent : Option Int
  name : String
  description : Option String
  startAt : Option String
  endAt : Option String
  state : IterationState
  deriving Inhabited

/-- The declarations of types by name, items and iterations by row, and the rows that were handed
out last. -/
structure Tables where
  types : SortedMap String StoredDocument
  items : SortedMap Int ItemRow
  iterations : SortedMap Int IterationRow
  lastItem : Int
  lastIteration : Int

namespace Tables

/-- The document of the declarations of a type. -/
def definitionsOf (t : ItemType) : StoredDocument := .ofTree (Document.ofDefinitions t.fields)

/-- Add the types of a list that are not there yet. -/
def seed (types : SortedMap String StoredDocument) (ts : List ItemType) :
    SortedMap String StoredDocument :=
  ts.foldl (fun m t => if m.contains t.name then m else m.insert t.name (definitionsOf t)) types

/-- Tables that hold the system types and nothing else. -/
def new : Tables := ⟨seed ∅ ItemType.system, ∅, ∅, 0, 0⟩

instance : Inhabited Tables := ⟨new⟩

/-- The tables as they are found when they are opened: system types that are not there are added. -/
def opened (t : Tables) : Tables := { t with types := seed t.types ItemType.system }

/-! ## Checks -/

/-- A name that a row may have: not only spaces, and not empty up to the character zero. -/
def isName (s : String) : Bool :=
  match s.toList.dropWhile (· = ' ') with
  | [] => false
  | c :: _ => c != '\x00'

/-- The greatest version that a row can hold. -/
def greatestVersion : Nat := 9223372036854775807

/-- The failure of a version that no row can hold. -/
def versionFault (version : Nat) : StoreFault :=
  .during ("version " ++ Text.natural version ++ " out of range")

/-! ## Types -/

/-- Decode the declarations of a type. -/
def decodeType (name : String) (definitions : StoredDocument) : Except StoreFault ItemType :=
  match Document.definitions? definitions with
  | some fields => .ok ⟨name, fields⟩
  | none => .error (.during ("decode fields of work item type '" ++ name ++ "'"))

/-- The type of a name. -/
def type? (t : Tables) (name : String) : Except StoreFault (Option ItemType) :=
  match t.types.get? name with
  | none => .ok none
  | some definitions => (decodeType name definitions).map some

/-- Decode types in order, up to the first that fails. -/
def decodeTypes : List (String × StoredDocument) → Except StoreFault (List ItemType)
  | [] => .ok []
  | (name, definitions) :: rest =>
    match decodeType name definitions with
    | .error fault => .error fault
    | .ok t => (decodeTypes rest).map (t :: ·)

/-- Take in a type; a name that is taken, or that no row may have, is refused. -/
def insertType (t : Tables) (type : ItemType) : Bool × Tables :=
  if t.types.contains type.name || !isName type.name then (false, t)
  else (true, { t with types := t.types.insert type.name (definitionsOf type) })

/-- Take in types in order, each in place of the one with its name, up to the first that no row
may hold. -/
def replaceTypes (t : Tables) : List ItemType → Except StoreFault Unit × Tables
  | [] => (.ok (), t)
  | type :: rest =>
    if isName type.name then
      replaceTypes { t with types := t.types.insert type.name (definitionsOf type) } rest
    else (.error (.during ("replace work item type '" ++ type.name ++ "'")), t)

/-! ## Items -/

/-- Decode an item: first its type, then its fields by the declarations of the type. -/
def decodeItem (t : Tables) (row : Int) (r : ItemRow) : Except StoreFault WorkItem :=
  match t.type? r.typeName with
  | .error fault => .error fault
  | .ok type =>
    match Document.payload? r.fields with
    | some stored => .ok ⟨.ofRow row, r.typeName, r.version, decodeFields type stored⟩
    | none => .error (.during ("decode fields of work item " ++ Text.decimal row))

/-- Decode items in order, up to the first that fails. -/
def decodeItems (t : Tables) : List (Int × ItemRow) → Except StoreFault (List WorkItem)
  | [] => .ok []
  | (row, r) :: rest =>
    match t.decodeItem row r with
    | .error fault => .error fault
    | .ok item => (t.decodeItems rest).map (item :: ·)

/-- The item of a row. -/
def item? (t : Tables) (row : Int) : Except StoreFault (Option WorkItem) :=
  match t.items.get? row with
  | none => .ok none
  | some r => (t.decodeItem row r).map some

/-- What a clause sees of a row. -/
def viewOf (t : Tables) (r : ItemRow) : RowView :=
  ⟨r.fields.tree, ((t.types.get? r.typeName).map StoredDocument.tree).getD .null⟩

/-- Go through rows in order: leave out the first ones that a clause selects, as many as are to be
left out, and take as many of the others as are wanted. The rows after those are not looked at. No
answer when the clause fails on a row. -/
def scan (t : Tables) (c : Clause) : Nat → Nat → List (Int × ItemRow) →
    Option (List (Int × ItemRow))
  | _, _, [] => some []
  | _, 0, _ => some []
  | out, wanted + 1, e :: rest =>
    match c.outcome (t.viewOf e.2), out with
    | .fault, _ => none
    | .yes, 0 => (t.scan c 0 wanted rest).map (e :: ·)
    | .yes, out + 1 => t.scan c out (wanted + 1) rest
    | _, _ => t.scan c out (wanted + 1) rest

/-- The clause of a filter, if the engine accepts it next to a number of other operands. -/
def prepare (f : Filter) (others : Nat) (purpose : String) : Except StoreFault Clause :=
  if Clause.isPreparable f others then .ok (.ofFilter f)
  else .error (.during ("prepare " ++ purpose))

/-- How many items a filter holds for. -/
def countItems (t : Tables) (f : Filter) : Except StoreFault Nat :=
  match prepare f 0 "count_items" with
  | .error fault => .error fault
  | .ok c =>
    match t.scan c 0 t.items.toList.length t.items.toList with
    | some rows => .ok rows.length
    | none => .error (.during "execute count_items")

/-- The items that a filter holds for, from an offset on and as many as a limit allows. -/
def fetchItems (t : Tables) (f : Filter) (offset limit : UInt64) :
    Except StoreFault (List WorkItem) :=
  -- the offset and the limit are operands too
  match prepare f 2 "fetch_items" with
  | .error fault => .error fault
  | .ok c =>
    match t.scan c offset.toNat limit.toNat t.items.toList with
    | some rows => t.decodeItems rows
    | none => .error (.during "read work item rows")

/-- Take in an item in a new row. -/
def insertItem (t : Tables) (typeName : String) (version : Nat) (fields : Fields) :
    Except StoreFault WorkItem × Tables :=
  -- the version is checked before the type
  if greatestVersion < version then (.error (versionFault version), t)
  else if !t.types.contains typeName then
    (.error (.during ("insert work item of type '" ++ typeName ++ "'")), t)
  else
    -- a row that was handed out once is not handed out again
    let row := t.lastItem + 1
    (.ok ⟨.ofRow row, typeName, version, fields⟩,
      { t with
        items := t.items.insert row ⟨typeName, version, .ofTree (Document.ofFields fields)⟩
        lastItem := row })

/-- Change an item that still has the expected version. -/
def updateItem (t : Tables) (item : WorkItem) (expected : Nat) : Except StoreFault Bool × Tables :=
  match item.id.row? with
  | none => (.ok false, t)
  | some row =>
    -- versions are checked before the row is looked up
    if greatestVersion < item.version then (.error (versionFault item.version), t)
    else if greatestVersion < expected then (.error (versionFault expected), t)
    else
      match t.items.get? row with
      | none => (.ok false, t)
      | some r =>
        if r.version = expected then
          let fields := StoredDocument.ofTree (Document.ofFields item.fields)
          let next := { r with version := item.version, fields }
          (.ok true, { t with items := t.items.insert row next })
        else (.ok false, t)

/-- Remove the item of a row. -/
def deleteItem (t : Tables) (row : Int) : Bool × Tables :=
  if t.items.contains row then (true, { t with items := t.items.erase row }) else (false, t)

/-! ## Iterations -/

/-- Decode an instant, if there is one. -/
def decodeTime (text : Option String) : Option (Option Timestamp) :=
  match text with
  | none => some none
  | some s =>
    match Timestamp.read s with
    | .ok t => some (some t)
    | .error _ => none

/-- Decode an iteration. -/
def decodeIteration (row : Int) (r : IterationRow) : Option Iteration :=
  match decodeTime r.startAt, decodeTime r.endAt with
  | some startAt, some endAt =>
    some ⟨.ofRow row, r.space, r.parent.map .ofRow, r.name, r.description, startAt, endAt, r.state⟩
  | _, _ => none

/-- Decode iterations, all of them or none. -/
def decodeIterations : List (Int × IterationRow) → Option (List Iteration)
  | [] => some []
  | (row, r) :: rest =>
    match decodeIteration row r, decodeIterations rest with
    | some i, some is => some (i :: is)
    | _, _ => none

/-- The iteration of a row. -/
def iteration? (t : Tables) (row : Int) : Except StoreFault (Option Iteration) :=
  match t.iterations.get? row with
  | none => .ok none
  | some r =>
    match decodeIteration row r with
    | some i => .ok (some i)
    | none => .error (.during ("get iteration " ++ Text.decimal row))

/-- The rows of the iterations of a space, in order. -/
def iterationRows (t : Tables) (space : String) : List (Int × IterationRow) :=
  t.iterations.toList.filter fun e => e.2.space = space

/-- The row of an iteration. -/
def iterationRow (i : Iteration) : IterationRow :=
  ⟨i.space, i.parent.bind IterationId.row?, i.name, i.description, i.startAt.map Timestamp.text,
    i.endAt.map Timestamp.text, i.state⟩

/-- Whether a row may be the parent of a row: it is there, or it is the row itself. -/
def isParent (t : Tables) (row : Int) : Option Int → Bool
  | none => true
  | some p => p == row || t.iterations.contains p

/-- Take in an iteration in a new row. -/
def insertIteration (t : Tables) (i : Iteration) : Except StoreFault Iteration × Tables :=
  let row := t.lastIteration + 1
  let r := iterationRow i
  if isName r.name && t.isParent row r.parent then
    (.ok { i with id := .ofRow row },
      { t with iterations := t.iterations.insert row r, lastIteration := row })
  else (.error (.during ("insert iteration '" ++ i.name ++ "'")), t)

/-- Change an iteration; its space and its parent stay. -/
def updateIteration (t : Tables) (i : Iteration) : Except StoreFault Bool × Tables :=
  match i.id.row? with
  | none => (.ok false, t)
  | some row =>
    match t.iterations.get? row with
    | none => (.ok false, t)
    | some stored =>
      if isName i.name then
        let next := { iterationRow i with space := stored.space, parent := stored.parent }
        (.ok true, { t with iterations := t.iterations.insert row next })
      else (.error (.during ("update iteration " ++ Text.decimal row)), t)

/-- The cell of a field of a row. -/
def cell? (field : String) (r : ItemRow) : Option Cell :=
  (r.fields.tree.labelled? field.toList).map Cell.ofTree

/-- Whether a row is planned into an iteration: what it holds, as a text, is the row number. -/
def isPlanned (row : Int) (r : ItemRow) : Bool :=
  (cell? SystemField.iteration r).bind Cell.rowText? == some (rowText row)

/-- Whether a row is closed. -/
def isClosed (r : ItemRow) : Bool :=
  cell? SystemField.state r == some (.text (some StateName.closed))

/-- How many rows are planned into an iteration, and how many of them are closed. -/
def countsOf (t : Tables) (row : Int) : IterationCounts :=
  let planned := t.items.values.filter (isPlanned row)
  ⟨planned.length, (planned.filter isClosed).length⟩

instance : Store Tables where
  type? := type?
  types t := decodeTypes t.types.toList
  insertType t type := let r := t.insertType type; (.ok r.1, r.2)
  replaceTypes := replaceTypes
  item? := item?
  countItems := countItems
  fetchItems := fetchItems
  insertItem := insertItem
  updateItem := updateItem
  deleteItem t row := let r := t.deleteItem row; (.ok r.1, r.2)
  iteration? := iteration?
  insertIteration := insertIteration
  updateIteration := updateIteration
  iterations t space :=
    match decodeIterations (t.iterationRows space) with
    | some is => .ok is
    | none => .error (.during "read iteration rows")
  iterationCounts t space :=
    .ok ((t.iterationRows space).map fun e => (.ofRow e.1, t.countsOf e.1))

/-! ## Rows from elsewhere -/

/-- Add the row of a type. -/
def addType (t : Tables) (name definitions : String) : Option Tables :=
  match StoredDocument.read? definitions with
  | some doc =>
    if isName name && !t.types.contains name then
      some { t with types := t.types.insert name doc }
    else none
  | none => none

/-- Add the row of an item. -/
def addItem (t : Tables) (typeName : String) (version : Int) (fields : String) : Option Tables :=
  match StoredDocument.read? fields with
  | some doc =>
    if 0 ≤ version ∧ t.types.contains typeName then
      let row := t.lastItem + 1
      some { t with
        items := t.items.insert row ⟨typeName, version.toNat, doc⟩
        lastItem := row }
    else none
  | none => none

/-- Change the fields of the row of an item; the number of rows that were changed comes along. -/
def setFields (t : Tables) (row : Int) (fields : String) : Option (Nat × Tables) :=
  match t.items.get? row with
  | none => some (0, t)
  | some r =>
    match StoredDocument.read? fields with
    | some doc => some (1, { t with items := t.items.insert row { r with fields := doc } })
    | none => none

/-- The state that a row may have. -/
def stateOf? (name : String) : Option IterationState :=
  IterationState.all.find? fun s => s.name = name

/-- Add the row of an iteration without a parent. -/
def addIteration (t : Tables) (space name state : String) (startAt endAt : Option String) :
    Option Tables :=
  match stateOf? state with
  | some s =>
    if isName name then
      let row := t.lastIteration + 1
      some { t with
        iterations := t.iterations.insert row ⟨space, none, name, none, startAt, endAt, s⟩
        lastIteration := row }
    else none
  | none => none

/-- The version of the layout of the tables. -/
def layoutVersion : Nat := 2

/-! ## Laws -/

/-- A removed row holds nothing, and every other row keeps its item. -/
theorem item?_deleteItem (t : Tables) (row row' : Int) :
    (t.deleteItem row).2.items.get? row' = if row' = row then none else t.items.get? row' := by
  unfold deleteItem
  split
  · exact SortedMap.get?_erase t.items row row'
  · next h =>
    -- nothing was there to remove
    split
    · next he =>
      subst he
      exact SortedMap.contains_eq_false_iff.mp (Bool.not_eq_true _ ▸ h)
    · rfl

/-- Rows that are found keep their order. -/
theorem scan_sublist {t : Tables} {c : Clause} {out wanted : Nat}
    {rows found : List (Int × ItemRow)} (h : t.scan c out wanted rows = some found) :
    found.Sublist rows := by
  fun_induction scan t c out wanted rows generalizing found with
  | case1 => simp_all
  | case2 => simp_all
  | case3 => simp at h
  | case4 wanted e rest _ ih =>
    obtain ⟨found', hf, rfl⟩ := Option.map_eq_some_iff.mp h
    exact (ih hf).cons_cons e
  | case5 _ e rest _ _ ih => exact (ih h).cons e
  | case6 _ _ e rest _ _ _ ih => exact (ih h).cons e

end Tables

end Backlog
