import Backlog.Filter.Document
import Backlog.Identity
import Backlog.Transaction
import Backlog.View

/-!
# Working with items and types

Items are created, read, listed, saved and deleted. A save names the version it is based on and
goes through only if that is still the version of the item; then the next version follows. Types
are looked up among those that the transaction staged, then in the shared cache, then in the store.

## Main statements

* `WorkItems.stale_of_ne` — a save that is based on another version is refused;
* `WorkItems.type_staged` — a staged type is found without asking the store.
-/

namespace Backlog.WorkItems

variable {σ : Type} [Store σ]

/-! ## Types -/

/-- A type that is known without asking the store: a staged one, or one of the shared cache unless
types were migrated since. -/
def knownType? (o : Open σ) (name : String) : Option ItemType :=
  (o.effects.staged.get? name).or (if o.effects.migrated then none else o.cache.get? name)

/-- Stage a type. -/
def stage (t : ItemType) : Tx σ ItemType := do
  Tx.update fun o => { o with effects := o.effects.stage t }
  return t

/-- The type of a name. -/
def type (name : String) : Tx σ ItemType := do
  match ← Tx.look fun o => knownType? o name with
  | some t => return t
  | none =>
    match ← Tx.ask fun s => Store.type? s name with
    | some t => stage t
    | none =>
      throw (.badParameter "type" ("unknown work item type '" ++ name ++ "'"))

/-- Every type. -/
def types : Tx σ (List ItemType) := do
  Tx.proceed
  let ts ← Tx.ask Store.types
  Tx.update fun o => { o with effects := o.effects.stageAll ts }
  return ts

/-- The failure of a schema that is checked. -/
def checkSchema (t : ItemType) : Except AccessError Unit :=
  match t.validate with
  | .ok () => .ok ()
  | .error fault => .error fault.toError

/-- Check schemas in order, up to the first that is wrong. -/
def checkSchemas : List ItemType → Except AccessError Unit
  | [] => .ok ()
  | t :: rest =>
    match checkSchema t with
    | .ok () => checkSchemas rest
    | .error e => .error e

/-- Publish a new type. -/
def publish (t : ItemType) : Tx σ ItemType := do
  Tx.proceed
  Tx.ofExcept (checkSchema t)
  if ← Tx.change fun s => Store.insertType s t then stage t
  else throw (.badParameter "name" ("work item type '" ++ t.name ++ "' already exists"))

/-- Replace types by name; what is cached does not count any more. -/
def migrate (ts : List ItemType) : Tx σ Unit := do
  Tx.proceed
  Tx.ofExcept (checkSchemas ts)
  Tx.change fun s => Store.replaceTypes s ts
  Tx.update fun o => { o with effects := o.effects.migrate }

/-! ## Items -/

/-- The failure of an id that names no item. -/
def missing (id : ItemId) : AccessError := .notFound .workItem id.text

/-- The row of an id. -/
def rowOf (id : ItemId) : Except AccessError Int :=
  match id.row? with
  | some row => .ok row
  | none => .error (missing id)

/-- The item of a row that an id names. -/
def fetch (row : Int) (id : ItemId) : Tx σ WorkItem := do
  match ← Tx.ask fun s => Store.item? s row with
  | some item => return item
  | none => throw (missing id)

/-- The payload with the creator in its place, for types that keep one. -/
def withCreator (t : ItemType) (payload : Payload) (creator : Identity) : Payload :=
  if (t.field? SystemField.creator).isSome then
    payload.insert SystemField.creator (.string creator.name)
  else payload

/-- Create an item of a type. -/
def create (typeName : String) (payload : Payload) (creator : Identity) : Tx σ WorkItem := do
  Tx.proceed
  let t ← type typeName
  let fields ← Tx.ofExcept (t.convertFields (withCreator t payload creator))
  Tx.change fun s => Store.insertItem s t.name initialVersion fields

/-- The item of an id. -/
def load (id : ItemId) : Tx σ WorkItem := do
  Tx.proceed
  let row ← Tx.ofExcept (rowOf id)
  fetch row id

/-- Check that a save is based on the version of the item. -/
def checkVersion (stored : WorkItem) (expected : Nat) : Except AccessError Unit :=
  if expected = stored.version then .ok ()
  else .error (.versionConflict stored.id.text expected stored.version)

/-- Change the fields of an item that still has the version the change is based on. -/
def save (change : WorkItemUpdate) : Tx σ WorkItem := do
  Tx.proceed
  let row ← Tx.ofExcept (rowOf change.id)
  let stored ← fetch row change.id
  Tx.ofExcept (checkVersion stored change.version)
  let t ← type stored.typeName
  let fields ← Tx.ofExcept (t.mergeFields stored.fields change.fields)
  let next := { stored with version := nextVersion stored.version, fields }
  -- nothing was written so far; from here on the item may change under our hands
  Tx.proceed
  if ← Tx.change fun s => Store.updateItem s next change.version then return next
  else
    -- someone else was faster: tell the version that is there now
    let actual ← fetch row change.id
    throw (.versionConflict change.id.text change.version actual.version)

/-- Remove an item. -/
def delete (id : ItemId) : Tx σ Unit := do
  Tx.proceed
  let row ← Tx.ofExcept (rowOf id)
  if ← Tx.change fun s => Store.deleteItem s row then return ()
  else throw (missing id)

/-! ## Lists -/

/-- A count as a word; what does not fit is the greatest word. -/
def countWord (n : Nat) : UInt64 := UInt64.ofNat (min n 18446744073709551615)

/-- The part of the items a filter holds for that a request asks for. -/
def listFiltered (filter : Filter) (request : PageRequest) : Tx σ ItemPage := do
  Tx.proceed
  let total ← Tx.ask fun s => Store.countItems s filter
  let items ← Tx.ask fun s => Store.fetchItems s filter request.offset request.limit
  return ⟨items, countWord total, request, .compute request (countWord total)⟩

/-- A filter that is read from its text. -/
def readFilter (catalog : Catalog) (text : String) : Except AccessError Filter :=
  match Filter.read catalog text with
  | .ok f => .ok f
  | .error fault => .error fault.toError

/-- A page of the items that the text of a filter asks for. -/
def list (paging : PagingConfig) (text : String) (offset : Option String) (limit : Option Int64) :
    Tx σ ItemPage := do
  Tx.proceed
  -- the declared kinds decide what the literals of the filter mean
  let ts ← Tx.ask Store.types
  let filter ← Tx.ofExcept (readFilter (Catalog.ofTypes ts) text)
  listFiltered filter (.normalize paging offset limit)

/-! ## Laws -/

/-- A save that is based on another version is refused. -/
theorem stale_of_ne {stored : WorkItem} {expected : Nat} (h : expected ≠ stored.version) :
    checkVersion stored expected =
      .error (.versionConflict stored.id.text expected stored.version) := by
  simp [checkVersion, h]

/-- A staged type is found without asking the store. -/
theorem type_staged {o : Open σ} {name : String} {t : ItemType}
    (h : o.effects.staged.get? name = some t) : (type name).steps o = (.ok t, o) := by
  have hk : knownType? o name = some t := by simp [knownType?, h]
  simp only [Tx.steps, type, bind, ExceptT.bind, ExceptT.mk, ExceptT.bindCont, StateT.bind,
    Tx.look, hk]
  rfl

end Backlog.WorkItems
