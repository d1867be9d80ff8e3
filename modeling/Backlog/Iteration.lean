import Backlog.Item

/-!
# Iterations

An iteration is a time box in a space. It may have a parent, is new, started or closed, and may
have dates; it needs a name and a space, and does not end before it starts.

## Main statements

* `IterationState.read_name` — the name of a state is read as that state;
* `Iteration.validate_eq_ok_iff` — the check passes exactly for a named iteration in a space with
  dates in order.
-/

namespace Backlog

/-- The life of an iteration. -/
inductive IterationState
  | new
  | start
  | close
  deriving DecidableEq, Repr, Inhabited

namespace IterationState

/-- Every state. -/
def all : List IterationState := [.new, .start, .close]

/-- The name of a state. -/
def name : IterationState → String
  | .new => "new"
  | .start => "start"
  | .close => "close"

/-- The other words for a state. -/
def aliases : IterationState → List String
  | .new => []
  | .start => ["started"]
  | .close => ["closed"]

/-- Read a state as people write it: in any case, with blanks around it, by any of its words. -/
def read (s : String) : Except UnknownWord IterationState :=
  let word := Text.asciiLower (Text.trim s)
  match all.find? fun k => word ∈ k.name :: k.aliases with
  | some k => .ok k
  | none => .error ⟨"iteration state", s⟩

/-- The name of a state is read as that state. -/
theorem read_name (k : IterationState) : read k.name = .ok k := by
  cases k <;> rfl

end IterationState

/-- The id of an iteration. -/
structure IterationId where
  text : String
  deriving DecidableEq, Repr, Inhabited

namespace IterationId

/-- The id of a row. -/
def ofRow (row : Int) : IterationId := ⟨rowText row⟩

/-- The row that an id names, if it names one. -/
def row? (id : IterationId) : Option Int := rowOf? id.text

end IterationId

/-- An iteration. -/
structure Iteration where
  id : IterationId
  space : String
  parent : Option IterationId
  name : String
  description : Option String
  startAt : Option Timestamp
  endAt : Option Timestamp
  state : IterationState
  deriving DecidableEq, Inhabited

/-- How many items are planned into an iteration, and how many of them are closed. -/
structure IterationCounts where
  total : Nat
  closed : Nat
  deriving DecidableEq, Repr, Inhabited

namespace Iteration

/-- A new iteration of a space, with nothing but a name. -/
def named (space name : String) : Iteration :=
  { id := ⟨""⟩, space, parent := none, name, description := none,
    startAt := none, endAt := none, state := .new }

/-- A new part of an iteration; the space is that of the iteration it is part of. -/
def partOf (parent : IterationId) (name : String) : Iteration :=
  { named "" name with parent := some parent }

/-- What is wrong with an iteration. -/
inductive Fault
  | nameless
  | spaceless
  | endsBeforeStart
  deriving DecidableEq, Repr

/-- Whether an iteration ends before it starts. -/
def endsBeforeStart (i : Iteration) : Bool :=
  match i.startAt, i.endAt with
  | some s, some e => e.before s
  | _, _ => false

/-- Check the name, the space and the dates. -/
def validate (i : Iteration) : Except Fault Unit :=
  if Text.blank i.name then .error .nameless
  else if Text.blank i.space then .error .spaceless
  else if i.endsBeforeStart then .error .endsBeforeStart
  else .ok ()

/-- The check passes exactly for a named iteration in a space with dates in order. -/
theorem validate_eq_ok_iff {i : Iteration} :
    i.validate = .ok () ↔
      Text.blank i.name = false ∧ Text.blank i.space = false ∧ i.endsBeforeStart = false := by
  unfold validate
  repeat' split
  all_goals simp_all

end Iteration

end Backlog
