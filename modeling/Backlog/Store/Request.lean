import Backlog.Transaction

/-!
# Requests to a store

Everything that can be asked of a store within a transaction, as a value.

## Main statements

* `StoreRequest.perform_refuse` — a refused request fails and changes nothing.
-/

namespace Backlog

/-- A request to a store. -/
inductive StoreRequest
  | type (name : String)
  | types
  | insertType (t : ItemType)
  | replaceTypes (ts : List ItemType)
  | item (row : Int)
  | count (filter : Filter)
  | fetch (filter : Filter) (offset limit : UInt64)
  | insertItem (typeName : String) (version : Nat) (fields : Fields)
  | updateItem (item : WorkItem) (expected : Nat)
  | deleteItem (row : Int)
  | iteration (row : Int)
  | insertIteration (i : Iteration)
  | updateIteration (i : Iteration)
  | iterations (space : String)
  | counts (space : String)
  | withdraw
  | refuse (e : AccessError)

/-- The answer of a store. -/
inductive StoreReply
  | done
  | flag (b : Bool)
  | number (n : Nat)
  | type (t : Option ItemType)
  | types (ts : List ItemType)
  | item (i : Option WorkItem)
  | items (is : List WorkItem)
  | iteration (i : Option Iteration)
  | iterations (is : List Iteration)
  | counts (planned : List (IterationId × IterationCounts))

namespace StoreRequest

variable {σ : Type} [Store σ]

/-- Do what a request asks for. -/
def perform : StoreRequest → Tx σ StoreReply
  | .type name => return .type (← Tx.ask fun s => Store.type? s name)
  | .types => return .types (← Tx.ask Store.types)
  | .insertType t => return .flag (← Tx.change fun s => Store.insertType s t)
  | .replaceTypes ts => do
    Tx.change fun s => Store.replaceTypes s ts
    return .done
  | .item row => return .item (← Tx.ask fun s => Store.item? s row)
  | .count filter => return .number (← Tx.ask fun s => Store.countItems s filter)
  | .fetch filter offset limit =>
    return .items (← Tx.ask fun s => Store.fetchItems s filter offset limit)
  | .insertItem typeName version fields =>
    return .item (some (← Tx.change fun s => Store.insertItem s typeName version fields))
  | .updateItem i expected =>
    return .flag (← Tx.change fun s => Store.updateItem s i expected)
  | .deleteItem row => return .flag (← Tx.change fun s => Store.deleteItem s row)
  | .iteration row => return .iteration (← Tx.ask fun s => Store.iteration? s row)
  | .insertIteration i =>
    return .iteration (some (← Tx.change fun s => Store.insertIteration s i))
  | .updateIteration i => return .flag (← Tx.change fun s => Store.updateIteration s i)
  | .iterations space => return .iterations (← Tx.ask fun s => Store.iterations s space)
  | .counts space => return .counts (← Tx.ask fun s => Store.iterationCounts s space)
  | .withdraw => do
    Tx.update fun o => { o with request := o.request.cancel }
    return .done
  | .refuse e => throw e

/-- A refused request fails and changes nothing. -/
theorem perform_refuse (e : AccessError) (o : Open σ) :
    (perform (.refuse e)).steps o = (.error e, o) := rfl

end StoreRequest

end Backlog
