import Backlog.Store

/-!
# A store in memory

Records are kept as they are, in maps. Nothing can fail, migrations do not touch the items, and a
filter is decided record by record.

## Main statements

* `Memory.item?_insertItem` — a new item is found in its row, and every other row keeps its item;
* `Memory.matching_sublist` — matching items keep the order of their rows.
-/

namespace Backlog

/-- Types by name, items and iterations by row, and the rows that were handed out last. Every record
is kept under the name or the row that it bears. -/
structure Memory where
  types : SortedMap String ItemType
  items : SortedMap Int WorkItem
  iterations : SortedMap Int Iteration
  lastItem : Int
  lastIteration : Int
  named : ∀ name t, types.get? name = some t → t.name = name
  itemsNumbered : ∀ row i, items.get? row = some i → i.id = .ofRow row
  iterationsNumbered : ∀ row i, iterations.get? row = some i → i.id = .ofRow row
  deriving DecidableEq

namespace Memory

/-- A store that holds nothing at all. -/
def empty : Memory where
  types := ∅
  items := ∅
  iterations := ∅
  lastItem := 0
  lastIteration := 0
  named _ _ h := by simp at h
  itemsNumbered _ _ h := by simp at h
  iterationsNumbered _ _ h := by simp at h

/-! ## Types -/

/-- Keep a type in place of the one with its name. -/
def keepType (m : Memory) (t : ItemType) : Memory :=
  { m with
    types := m.types.insert t.name t
    named := SortedMap.forall_get?_insert m.named rfl }

/-- Take in a type; a name that is taken is refused. -/
def insertType (m : Memory) (t : ItemType) : Bool × Memory :=
  if m.types.contains t.name then (false, m) else (true, m.keepType t)

/-- Take in types, each in place of the one with its name. -/
def replaceTypes (m : Memory) (ts : List ItemType) : Memory := ts.foldl keepType m

/-- A store that knows the system types and nothing else. -/
def new : Memory := empty.replaceTypes ItemType.system

instance : Inhabited Memory := ⟨new⟩

/-! ## Items -/

/-- The items that a filter holds for, in the order of their rows. -/
def matching (m : Memory) (f : Filter) : List WorkItem :=
  m.items.values.filter fun i => f.holdsFor i

/-- Take in an item in a new row. -/
def insertItem (m : Memory) (typeName : String) (version : Nat) (fields : Fields) :
    WorkItem × Memory :=
  let row := m.lastItem + 1
  let item : WorkItem := ⟨.ofRow row, typeName, version, fields⟩
  (item,
    { m with
      items := m.items.insert row item
      lastItem := row
      itemsNumbered := SortedMap.forall_get?_insert m.itemsNumbered rfl })

/-- Change an item that still has the expected version. -/
def updateItem (m : Memory) (item : WorkItem) (expected : Nat) : Bool × Memory :=
  match item.id.row? with
  | none => (false, m)
  | some row =>
    match h : m.items.get? row with
    | none => (false, m)
    | some stored =>
      if stored.version = expected then
        let next := { stored with version := item.version, fields := item.fields }
        (true,
          { m with
            items := m.items.insert row next
            itemsNumbered :=
              SortedMap.forall_get?_insert m.itemsNumbered (m.itemsNumbered row stored h) })
      else (false, m)

/-- Remove the item of a row. -/
def deleteItem (m : Memory) (row : Int) : Bool × Memory :=
  if m.items.contains row then
    (true,
      { m with
        items := m.items.erase row
        itemsNumbered := SortedMap.forall_get?_erase m.itemsNumbered })
  else (false, m)

/-! ## Iterations -/

/-- Take in an iteration in a new row. -/
def insertIteration (m : Memory) (i : Iteration) : Iteration × Memory :=
  let row := m.lastIteration + 1
  let stored := { i with id := .ofRow row }
  (stored,
    { m with
      iterations := m.iterations.insert row stored
      lastIteration := row
      iterationsNumbered := SortedMap.forall_get?_insert m.iterationsNumbered rfl })

/-- Change an iteration; its id, its space and its parent stay. -/
def updateIteration (m : Memory) (i : Iteration) : Bool × Memory :=
  match i.id.row? with
  | none => (false, m)
  | some row =>
    match h : m.iterations.get? row with
    | none => (false, m)
    | some stored =>
      let next := { i with id := stored.id, space := stored.space, parent := stored.parent }
      (true,
        { m with
          iterations := m.iterations.insert row next
          iterationsNumbered :=
            SortedMap.forall_get?_insert m.iterationsNumbered
              (m.iterationsNumbered row stored h) })

/-- The iterations of a space, in the order of their rows. -/
def iterationsOf (m : Memory) (space : String) : List Iteration :=
  m.iterations.values.filter fun i => i.space = space

/-- Whether an item is planned into an iteration. -/
def isPlanned (id : IterationId) (item : WorkItem) : Bool :=
  item.field? SystemField.iteration == some (.identifier id.text)

/-- Whether an item is closed. -/
def isClosed (item : WorkItem) : Bool :=
  (item.field? SystemField.state).bind FieldValue.text? == some StateName.closed

/-- How many items are planned into an iteration, and how many of them are closed. -/
def countsOf (m : Memory) (id : IterationId) : IterationCounts :=
  let planned := m.items.values.filter (isPlanned id)
  ⟨planned.length, (planned.filter isClosed).length⟩

instance : Store Memory where
  type? m name := .ok (m.types.get? name)
  types m := .ok m.types.values
  insertType m t := let r := m.insertType t; (.ok r.1, r.2)
  replaceTypes m ts := (.ok (), m.replaceTypes ts)
  item? m row := .ok (m.items.get? row)
  countItems m f := .ok (m.matching f).length
  fetchItems m f offset limit := .ok (((m.matching f).drop offset.toNat).take limit.toNat)
  insertItem m typeName version fields :=
    let r := m.insertItem typeName version fields; (.ok r.1, r.2)
  updateItem m item expected := let r := m.updateItem item expected; (.ok r.1, r.2)
  deleteItem m row := let r := m.deleteItem row; (.ok r.1, r.2)
  iteration? m row := .ok (m.iterations.get? row)
  insertIteration m i := let r := m.insertIteration i; (.ok r.1, r.2)
  updateIteration m i := let r := m.updateIteration i; (.ok r.1, r.2)
  iterations m space := .ok (m.iterationsOf space)
  iterationCounts m space := .ok ((m.iterationsOf space).map fun i => (i.id, m.countsOf i.id))

/-! ## Laws -/

/-- A new item is found in its row, and every other row keeps its item. -/
theorem item?_insertItem (m : Memory) (typeName : String) (version : Nat) (fields : Fields)
    (row : Int) :
    (m.insertItem typeName version fields).2.items.get? row =
      if row = m.lastItem + 1 then some ⟨.ofRow row, typeName, version, fields⟩
      else m.items.get? row := by
  unfold insertItem
  simp only [SortedMap.get?_insert]
  split
  · next h => rw [h]
  · rfl

/-- Matching items keep the order of their rows. -/
theorem matching_sublist (m : Memory) (f : Filter) : (m.matching f).Sublist m.items.values :=
  List.filter_sublist

end Memory

end Backlog
