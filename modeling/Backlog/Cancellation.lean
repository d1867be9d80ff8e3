import Backlog.Error

/-!
# Cancellation

Whoever asked for an operation may withdraw the request. Nothing that looks at the request after
that goes on.

## Main statements

* `Cancellation.check_eq_ok_iff` — an operation goes on exactly while the request stands.
-/

namespace Backlog

/-- Whether a request was withdrawn. -/
structure Cancellation where
  isCancelled : Bool
  deriving DecidableEq, Repr

namespace Cancellation

/-- A request that stands. -/
def new : Cancellation := ⟨false⟩

instance : Inhabited Cancellation := ⟨new⟩

/-- Withdraw a request. -/
def cancel (_ : Cancellation) : Cancellation := ⟨true⟩

/-- Go on only while the request stands. -/
def check (c : Cancellation) : Except AccessError Unit :=
  if c.isCancelled then .error .cancelled else .ok ()

/-- An operation goes on exactly while the request stands. -/
theorem check_eq_ok_iff (c : Cancellation) : c.check = .ok () ↔ c.isCancelled = false := by
  unfold check
  cases c.isCancelled <;> simp

end Cancellation

end Backlog
