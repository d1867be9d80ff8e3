import Backlog.Transaction
import Backlog.View

/-!
# Working with iterations

Iterations are created, read, listed and saved. A child lands in the space of its parent, and a
space has at most one iteration that is started.

## Main statements

* `Iterations.checkStart_eq_ok_iff` — an iteration may start exactly when no other one is started.
-/

namespace Backlog.Iterations

variable {σ : Type} [Store σ]

/-- The failure of an id that names no iteration. -/
def missing (id : IterationId) : AccessError := .notFound .iteration id.text

/-- The failure that a wrong iteration is. -/
def faultError : Iteration.Fault → AccessError
  | .nameless => .badParameter "name" "iteration name must not be empty"
  | .spaceless => .badParameter "space_id" "iteration needs a space"
  | .endsBeforeStart => .badParameter "end_at" "iteration ends before it starts"

/-- The outcome of checking an iteration. -/
def check (i : Iteration) : Except AccessError Unit :=
  match i.validate with
  | .ok () => .ok ()
  | .error fault => .error (faultError fault)

/-- The row of an id. -/
def rowOf (id : IterationId) : Except AccessError Int :=
  match id.row? with
  | some row => .ok row
  | none => .error (missing id)

/-- The iteration of an id. -/
def load (id : IterationId) : Tx σ Iteration := do
  Tx.proceed
  let row ← Tx.ofExcept (rowOf id)
  match ← Tx.ask fun s => Store.iteration? s row with
  | some i => return i
  | none => throw (missing id)

/-- The iterations of a space. -/
def list (space : String) : Tx σ (List Iteration) := do
  Tx.proceed
  Tx.ask fun s => Store.iterations s space

/-- Whether another iteration is started. -/
def blocks (i other : Iteration) : Bool := other.id != i.id && other.state == .start

/-- Check that an iteration may start among those of its space. -/
def checkStart (i : Iteration) (others : List Iteration) : Except AccessError Unit :=
  match others.find? (blocks i) with
  | some other =>
    .error (.badParameter "state" ("iteration '" ++ other.name ++ "' (" ++ other.id.text
      ++ ") is already started in space '" ++ i.space ++ "'"))
  | none => .ok ()

/-- Check that an iteration may start. -/
def canStart (i : Iteration) : Tx σ Unit := do
  Tx.proceed
  let others ← Tx.ask fun s => Store.iterations s i.space
  Tx.ofExcept (checkStart i others)

/-- The iteration in the space where it belongs: that of its parent, if it has one. -/
def placed (i : Iteration) : Tx σ Iteration := do
  match i.parent with
  | none => return i
  | some id =>
    let parent ← load id
    return { i with space := parent.space }

/-- Create an iteration. -/
def create (i : Iteration) : Tx σ Iteration := do
  Tx.proceed
  let i ← placed i
  Tx.ofExcept (check i)
  if i.state = .start then canStart i
  Tx.change fun s => Store.insertIteration s i

/-- Create a part of an iteration. -/
def createChild (parent : IterationId) (name : String) (startAt endAt : Option Timestamp) :
    Tx σ Iteration :=
  create { Iteration.partOf parent name with startAt, endAt }

/-- Change an iteration; its space and its parent stay. -/
def save (i : Iteration) : Tx σ Iteration := do
  let stored ← load i.id
  -- an iteration does not move to another place
  let next := { i with id := stored.id, space := stored.space, parent := stored.parent }
  Tx.ofExcept (check next)
  -- one that is started already does not stand in its own way
  if next.state = .start ∧ stored.state ≠ .start then canStart next
  Tx.proceed
  if ← Tx.change fun s => Store.updateIteration s next then return next
  else throw (missing next.id)

/-- How many items are planned into each iteration of a space. -/
def counts (space : String) : Tx σ (List (IterationId × IterationCounts)) := do
  Tx.proceed
  Tx.ask fun s => Store.iterationCounts s space

/-- The views of the iterations of a space, with what is planned into them. -/
def views (api : ApiConfig) (space : String) : Tx σ (List ResourceView) := do
  let planned ← counts space
  let is ← list space
  return is.map (.ofIteration api [.withCounts planned])

/-- The view of an iteration, with what is planned into it. -/
def view (api : ApiConfig) (i : Iteration) : Tx σ ResourceView := do
  let planned ← counts i.space
  return .ofIteration api [.withCounts planned] i

/-! ## Laws -/

/-- An iteration may start exactly when no other one is started. -/
theorem checkStart_eq_ok_iff {i : Iteration} {others : List Iteration} :
    checkStart i others = .ok () ↔ ∀ other ∈ others, other.id ≠ i.id → other.state ≠ .start := by
  unfold checkStart
  cases h : others.find? (blocks i) with
  | none =>
    rw [List.find?_eq_none] at h
    simp only [true_iff]
    intro other hm hne hs
    exact h other hm (by simp [blocks, hne, hs])
  | some other =>
    have hb := List.find?_some h
    simp only [blocks, Bool.and_eq_true, bne_iff_ne, beq_iff_eq] at hb
    simp only [reduceCtorEq, false_iff]
    exact fun hall => hall other (List.mem_of_find?_eq_some h) hb.1 hb.2

end Backlog.Iterations
