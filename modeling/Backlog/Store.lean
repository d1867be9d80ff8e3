import Backlog.Filter.Basic
import Backlog.Iteration
import Backlog.ItemType

/-!
# Stores

A store keeps types, items and iterations. It hands out ids in ascending order, changes an item
only from the version it was read at, and tells failures of its own apart from answers. What a
store can do is an interface; a store in memory and tables of a database are two of its kinds.

## Main statements

* `decodeFields_get?` — decoding goes field by field.
-/

namespace Backlog

/-- What a store can do. A failing change may leave a part of itself behind, so every change
returns the store. -/
class Store (σ : Type) where
  /-- The type of a name. -/
  type? : σ → String → Except StoreFault (Option ItemType)
  /-- Every type, in the order of their names. -/
  types : σ → Except StoreFault (List ItemType)
  /-- Take in a type; a name that is taken is refused. -/
  insertType : σ → ItemType → Except StoreFault Bool × σ
  /-- Take in types, each in place of the one with its name. -/
  replaceTypes : σ → List ItemType → Except StoreFault Unit × σ
  /-- The item of a row. -/
  item? : σ → Int → Except StoreFault (Option WorkItem)
  /-- How many items a filter holds for. -/
  countItems : σ → Filter → Except StoreFault Nat
  /-- The items that a filter holds for, in the order of their rows, from an offset on and as many
  as a limit allows. -/
  fetchItems : σ → Filter → UInt64 → UInt64 → Except StoreFault (List WorkItem)
  /-- Take in an item in a new row. -/
  insertItem : σ → String → Nat → Fields → Except StoreFault WorkItem × σ
  /-- Change an item that still has the expected version. -/
  updateItem : σ → WorkItem → Nat → Except StoreFault Bool × σ
  /-- Remove the item of a row. -/
  deleteItem : σ → Int → Except StoreFault Bool × σ
  /-- The iteration of a row. -/
  iteration? : σ → Int → Except StoreFault (Option Iteration)
  /-- Take in an iteration in a new row. -/
  insertIteration : σ → Iteration → Except StoreFault Iteration × σ
  /-- Change an iteration; its space and its parent stay. -/
  updateIteration : σ → Iteration → Except StoreFault Bool × σ
  /-- The iterations of a space, in the order of their rows. -/
  iterations : σ → String → Except StoreFault (List Iteration)
  /-- How many items are planned into each iteration of a space. -/
  iterationCounts : σ → String → Except StoreFault (List (IterationId × IterationCounts))

/-! ## Stored fields -/

/-- The value of a stored literal: in the declared kind if it converts, otherwise what it looks
like. -/
def decodeField (t : Option ItemType) (name : String) (literal : Json) : Option FieldValue :=
  let declared := (t.bind fun t => t.field? name).bind fun d => FieldValue.ofJson? d.kind literal
  declared.or (FieldValue.infer literal)

/-- The fields of stored literals; what looks like nothing is left out. -/
def decodeFields (t : Option ItemType) (stored : Payload) : Fields :=
  stored.filterMap (decodeField t)

theorem SortedMap.find_filterMap {α β : Type} (f : String → α → Option β) (k : String) :
    ∀ {l : List (String × α)}, l.Pairwise (fun a b => compare a.1 b.1 = .lt) →
      find k (l.filterMap fun e => (f e.1 e.2).map fun b => (e.1, b)) =
        (find k l).bind (f k)
  | [], _ => rfl
  | (k', a) :: rest, h => by
    obtain ⟨hlow, hrest⟩ := List.pairwise_cons.mp h
    rw [List.filterMap_cons, find_cons]
    by_cases hk : k = k'
    · subst hk
      rw [if_pos rfl, Option.bind_some]
      cases hf : f k a with
      | some b => simp [find_cons]
      | none =>
        simp only [Option.map_none]
        rw [find_filterMap f k hrest]
        cases hr : find k rest with
        | none => rfl
        | some c =>
          exact absurd (hlow _ ((find_eq_some_iff hrest).mp hr)) (compare_self_ne_lt k)
    · rw [if_neg hk]
      cases hf : f k' a with
      | some b => simp [find_cons, hk, find_filterMap f k hrest]
      | none => simp [find_filterMap f k hrest]

/-- Decoding goes field by field. -/
theorem decodeFields_get? (t : Option ItemType) (stored : Payload) (name : String) :
    (decodeFields t stored).get? name = (stored.get? name).bind (decodeField t name) :=
  SortedMap.find_filterMap (decodeField t) name stored.sorted

end Backlog
