import Backlog.Store

/-!
# A store with a rival

Someone else may change a record between the moment it is read and the moment it is written. The
rival of a contested store does so just before every write of an item: it raises the version of the
item, or removes it. One that makes iterations vanish raises versions too, and no iteration that is
written is there any more.

## Main statements

* `Contested.interfere_absent` — a rival does nothing to an item that is not there.
-/

namespace Backlog

/-- What a rival does just before a write. -/
inductive Rival
  | bump
  | delete
  | vanish
  deriving DecidableEq, Repr, Inhabited

/-- A store with a rival. -/
structure Contested (σ : Type) where
  store : σ
  rival : Rival

namespace Contested

variable {σ : Type} [Store σ]

/-- Put the store that an answer came with in place of the present one. -/
def returning {α : Type} (c : Contested σ) (r : Except StoreFault α × σ) :
    Except StoreFault α × Contested σ :=
  (r.1, { c with store := r.2 })

/-- What the rival does to an item just before it is written. -/
def interfere (c : Contested σ) (item : WorkItem) (expected : Nat) : Except StoreFault Unit × σ :=
  match item.id.row? with
  | none => (.ok (), c.store)
  | some row =>
    match Store.item? c.store row with
    | .error fault => (.error fault, c.store)
    | .ok none => (.ok (), c.store)
    | .ok (some stored) =>
      if c.rival = .delete then
        let r := Store.deleteItem c.store row
        (r.1.map fun _ => (), r.2)
      else
        let next := { stored with version := nextVersion stored.version }
        let r := Store.updateItem c.store next expected
        (r.1.map fun _ => (), r.2)

instance : Store (Contested σ) where
  type? c := Store.type? c.store
  types c := Store.types c.store
  insertType c t := c.returning (Store.insertType c.store t)
  replaceTypes c ts := c.returning (Store.replaceTypes c.store ts)
  item? c := Store.item? c.store
  countItems c := Store.countItems c.store
  fetchItems c := Store.fetchItems c.store
  insertItem c typeName version fields :=
    c.returning (Store.insertItem c.store typeName version fields)
  updateItem c item expected :=
    match c.interfere item expected with
    | (.error fault, store) => (.error fault, { c with store := store })
    | (.ok (), store) => c.returning (Store.updateItem store item expected)
  deleteItem c row := c.returning (Store.deleteItem c.store row)
  iteration? c := Store.iteration? c.store
  insertIteration c i := c.returning (Store.insertIteration c.store i)
  updateIteration c i :=
    if c.rival = .vanish then (.ok false, c) else c.returning (Store.updateIteration c.store i)
  iterations c := Store.iterations c.store
  iterationCounts c := Store.iterationCounts c.store

/-- A rival does nothing to an item that is not there. -/
theorem interfere_absent (c : Contested σ) (item : WorkItem) (expected : Nat) {row : Int}
    (hr : item.id.row? = some row) (h : Store.item? c.store row = .ok none) :
    c.interfere item expected = (.ok (), c.store) := by
  unfold interfere
  simp only [hr, h]

end Contested

end Backlog
