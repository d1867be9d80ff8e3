import Backlog.Text.Integer

/-!
# Errors of the access layer

An operation that fails says what kind of failure it was: callers decide by the kind, people
read the message. Every kind has a stable code with a status, a summary and perhaps a hint.

## Main statements

* `ErrorCode.text_injective` — no two codes share their text;
* `AccessError.isClientError_iff` — only a failing store is not the caller's to mend.
-/

namespace Backlog

/-! ## Codes -/

/-- The codes, in the order they are listed. -/
inductive ErrorCode
  | configParseError
  | itemNotFound
  | iterationNotFound
  | malformedFilter
  | fieldConversion
  | versionConflict
  | badParameter
  | unauthorized
  | cancelled
  | storeFailure
  deriving DecidableEq, Repr

namespace ErrorCode

/-- Every code. -/
def all : List ErrorCode :=
  [.configParseError, .itemNotFound, .iterationNotFound, .malformedFilter, .fieldConversion,
   .versionConflict, .badParameter, .unauthorized, .cancelled, .storeFailure]

/-- The stable text of a code. -/
def text : ErrorCode → String
  | .configParseError => "E1002"
  | .itemNotFound => "E2001"
  | .iterationNotFound => "E2002"
  | .malformedFilter => "E2101"
  | .fieldConversion => "E2102"
  | .versionConflict => "E2201"
  | .badParameter => "E2301"
  | .unauthorized => "E4001"
  | .cancelled => "E5001"
  | .storeFailure => "E9001"

/-- A summary for people. -/
def summary : ErrorCode → String
  | .configParseError => "Config file parse error"
  | .itemNotFound => "Work item not found"
  | .iterationNotFound => "Iteration not found"
  | .malformedFilter => "Filter could not be parsed"
  | .fieldConversion => "Field value does not match its declared kind"
  | .versionConflict => "Work item was modified concurrently"
  | .badParameter => "Bad parameter"
  | .unauthorized => "Caller identity required"
  | .cancelled => "Request cancelled"
  | .storeFailure => "Backing store failure"

/-- What a caller may do about it. -/
def hint : ErrorCode → Option String
  | .configParseError => some "Fix syntax in .worktrack/config.toml and retry."
  | .itemNotFound | .iterationNotFound | .badParameter => none
  | .malformedFilter =>
    some "Pass a JSON object of field/value pairs, e.g. \x7b\"system.state\":\"open\"\x7d."
  | .fieldConversion =>
    some "Check the work item type for the field's kind and send a matching value."
  | .versionConflict => some "Reload the work item and retry with its current version."
  | .unauthorized => some "Set --as or WORKTRACK_IDENTITY."
  | .cancelled => some "Retry the request; nothing was committed."
  | .storeFailure => some "Retry once. If persistent, report a bug with logs."

/-- The status that a server answers with. -/
def status : ErrorCode → Nat
  | .itemNotFound | .iterationNotFound => 404
  | .malformedFilter | .fieldConversion | .badParameter => 400
  | .versionConflict => 409
  | .unauthorized => 401
  | .cancelled => 499
  | .configParseError | .storeFailure => 500

/-- No two codes share their text. -/
theorem text_injective {a b : ErrorCode} (h : a.text = b.text) : a = b := by
  cases a <;> cases b <;> first | rfl | (exact absurd h (by decide))

end ErrorCode

/-! ## Failures -/

/-- What a look-up was for. -/
inductive Entity
  | workItem
  | iteration
  deriving DecidableEq, Repr

/-- The words for what was looked up. -/
def Entity.name : Entity → String
  | .workItem => "work item"
  | .iteration => "iteration"

/-- What a failing store was doing, outermost first. The store's own words are not part of it. -/
structure StoreFault where
  trace : List String
  deriving DecidableEq, Repr

/-- A failure of one step of the store. -/
def StoreFault.during (doing : String) : StoreFault := ⟨[doing]⟩

/-- A failure of the access layer. -/
inductive AccessError
  | notFound (entity : Entity) (id : String)
  | malformedFilter (reason : String)
  | fieldConversion (field reason : String)
  | versionConflict (id : String) (expected actual : Nat)
  | badParameter (parameter reason : String)
  | unauthorized (reason : String)
  | cancelled
  | internal (fault : StoreFault)
  deriving DecidableEq, Repr

namespace AccessError

/-- The message of a failure. -/
def message : AccessError → String
  | .notFound entity id => entity.name ++ " with id '" ++ id ++ "' not found"
  | .malformedFilter reason => "could not parse filter: " ++ reason
  | .fieldConversion field reason => "field '" ++ field ++ "': " ++ reason
  | .versionConflict id expected actual =>
    "version conflict on work item '" ++ id ++ "': expected " ++ Text.natural expected
      ++ ", stored " ++ Text.natural actual
  | .badParameter parameter reason => "bad parameter '" ++ parameter ++ "': " ++ reason
  | .unauthorized reason => "unauthorized: " ++ reason
  | .cancelled => "operation cancelled"
  | .internal fault => "internal error: " ++ ": ".intercalate fault.trace

/-- The code of a failure. -/
def code : AccessError → ErrorCode
  | .notFound .workItem _ => .itemNotFound
  | .notFound .iteration _ => .iterationNotFound
  | .malformedFilter _ => .malformedFilter
  | .fieldConversion _ _ => .fieldConversion
  | .versionConflict _ _ _ => .versionConflict
  | .badParameter _ _ => .badParameter
  | .unauthorized _ => .unauthorized
  | .cancelled => .cancelled
  | .internal _ => .storeFailure

/-- What a caller may do about a failure. -/
def hint (e : AccessError) : Option String := e.code.hint

/-- Whether the failure is the caller's to mend. -/
def isClientError (e : AccessError) : Bool := 400 ≤ e.code.status && e.code.status < 500

/-- Only a failing store is not the caller's to mend. -/
theorem isClientError_iff (e : AccessError) : e.isClientError = true ↔ ∀ f, e ≠ .internal f := by
  cases e with
  | notFound entity id => cases entity <;> simp [isClientError, code, ErrorCode.status]
  | _ => simp [isClientError, code, ErrorCode.status]

end AccessError

end Backlog
