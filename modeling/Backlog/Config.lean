import Backlog.Path
import Backlog.Text.Integer
import Backlog.Text.Blank

/-!
# Configuration

How long pages are, where the database is, and under which address the collections are served.

## Main statements

* `ServiceConfig.validate_eq_ok_iff` — the settings work exactly when the default limit lies
  between one and the greatest limit.
-/

namespace Backlog

/-- How long pages are. -/
structure PagingConfig where
  defaultLimit : UInt64
  maxLimit : UInt64
  deriving DecidableEq, Repr

/-- Where the database is, and how many milliseconds to wait for it. -/
structure DatabaseConfig where
  path : String
  busyTimeout : UInt64
  deriving DecidableEq, Repr

/-- Under which address the collections are served. -/
structure ApiConfig where
  baseUrl : String
  deriving DecidableEq, Repr

/-- All settings. -/
structure ServiceConfig where
  paging : PagingConfig
  database : DatabaseConfig
  api : ApiConfig
  deriving DecidableEq, Repr

/-! ## Defaults -/

/-- Twenty items to a page, a hundred at most. -/
def PagingConfig.default : PagingConfig := ⟨20, 100⟩

/-- A database in the project, and five seconds to wait for it. -/
def DatabaseConfig.default : DatabaseConfig := ⟨".worktrack/worktrack.sqlite3", 5000⟩

/-- The address of a service on the same machine. -/
def ApiConfig.default : ApiConfig := ⟨"http://localhost:8080/api"⟩

/-- The settings that hold where nothing is said. -/
def ServiceConfig.default : ServiceConfig := ⟨.default, .default, .default⟩

instance : Inhabited ServiceConfig := ⟨.default⟩

/-! ## Addresses -/

namespace ApiConfig

/-- The base without slashes at its end. -/
def base (api : ApiConfig) : String :=
  String.ofList (api.baseUrl.toList.reverse.dropWhile (· = '/')).reverse

/-- The address of a resource. -/
def under (api : ApiConfig) (path : String) : String := api.base ++ "/" ++ path

/-- The address of the work items. -/
def workItemsUrl (api : ApiConfig) : String := api.under "workitems"

/-- The address of the iterations. -/
def iterationsUrl (api : ApiConfig) : String := api.under "iterations"

end ApiConfig

namespace ServiceConfig

/-- The path of the database, seen from the root of the project. -/
def databasePath (c : ServiceConfig) (root : String) : String := Path.join root c.database.path

/-- The settings with another database: a blank text changes nothing. -/
def withDatabase (c : ServiceConfig) (path : Option String) : ServiceConfig :=
  match path with
  | some p => if Text.blank p then c else { c with database.path := Text.trim p }
  | none => c

/-! ## Checks -/

/-- What is wrong with settings. -/
inductive Fault
  | noDefaultLimit
  | defaultAboveMax (defaultLimit maxLimit : UInt64)
  deriving DecidableEq, Repr

/-- The words for a fault. -/
def Fault.message : Fault → String
  | .noDefaultLimit => "paging.default_limit must be at least 1"
  | .defaultAboveMax d m =>
    "paging.default_limit (" ++ Text.natural d.toNat ++ ") exceeds paging.max_limit ("
      ++ Text.natural m.toNat ++ ")"

/-- Check that pages can be made with the settings. -/
def validate (c : ServiceConfig) : Except Fault Unit :=
  if c.paging.defaultLimit = 0 then .error .noDefaultLimit
  else if c.paging.maxLimit < c.paging.defaultLimit then
    .error (.defaultAboveMax c.paging.defaultLimit c.paging.maxLimit)
  else .ok ()

/-- The settings work exactly when the default limit lies between one and the greatest limit. -/
theorem validate_eq_ok_iff {c : ServiceConfig} :
    c.validate = .ok () ↔
      c.paging.defaultLimit ≠ 0 ∧ c.paging.defaultLimit ≤ c.paging.maxLimit := by
  unfold validate
  by_cases h : c.paging.defaultLimit = 0
  · simp [h]
  · by_cases h' : c.paging.maxLimit < c.paging.defaultLimit
    · simp [h, h']
    · simp [h, h', UInt64.not_lt.mp h']

end ServiceConfig

end Backlog
