/-!
# Truth values of conditions

A condition on a row is true, or it is not, or it stays open because there is nothing to compare. It
may also fail. Groups are evaluated from left to right: a member that does not hold ends a group of
which every member has to hold, a member that holds ends one of which one member has to, and what is
not evaluated any more does not fail.

## Main statements

* `Truth.both_eq_yes_iff`, `Truth.either_eq_yes_iff` — groups are true when every member is, or one
  is and nothing failed before.
-/

namespace Backlog

/-- The outcome of a clause: a truth value of three, or a failure. -/
inductive Truth
  | yes
  | no
  | unknown
  | fault
  deriving DecidableEq, Repr, Inhabited

namespace Truth

/-- The outcome of a test. -/
def ofBool (b : Bool) : Truth := if b then .yes else .no

/-- Both hold. The second one is not asked where the first one does not hold. -/
def both : Truth → Truth → Truth
  | .no, _ => .no
  | .fault, _ => .fault
  | .yes, b => b
  | .unknown, .no => .no
  | .unknown, _ => .unknown

/-- One of both holds. The second one is not asked where the first one holds. -/
def either : Truth → Truth → Truth
  | .yes, _ => .yes
  | .fault, _ => .fault
  | .no, b => b
  | .unknown, .yes => .yes
  | .unknown, .fault => .fault
  | .unknown, _ => .unknown

theorem both_eq_yes_iff {a b : Truth} : both a b = .yes ↔ a = .yes ∧ b = .yes := by
  cases a <;> cases b <;> simp [both]

theorem either_eq_yes_iff {a b : Truth} :
    either a b = .yes ↔ a = .yes ∨ a ≠ .fault ∧ b = .yes := by
  cases a <;> cases b <;> simp [either]

theorem either_no {a : Truth} : either a .no = a := by
  cases a <;> rfl

theorem ofBool_eq_yes_iff {b : Bool} : ofBool b = .yes ↔ b = true := by
  cases b <;> simp [ofBool]

theorem ofBool_ne_fault (b : Bool) : ofBool b ≠ .fault := by
  cases b <;> simp [ofBool]

end Truth

end Backlog
