import Backlog.Config
import Backlog.Json.Basic
import Backlog.Toml.Reader

/-!
# Settings in a file

Settings are read from the file of the project, or from the file of the user when the project has
none. What a file does not say has its default, and what it says beyond the settings is ignored.
The parts of a group may also stand in an array in their order. The environment decides about the
database.

## Main statements

* `ServiceConfig.load_absent` — without files the defaults hold;
* `ServiceConfig.load_project` — the file of the project decides alone.
-/

namespace Backlog

open Toml (Node Entries)

/-! ## Decoding -/

/-- The parts of a group of settings, by name or by place. -/
inductive Toml.Parts
  | named (entries : Entries)
  | placed (items : List Node)

namespace Toml

/-- The parts that a value has; a moment has none that a setting could be. -/
def Node.parts? : Node → Option Parts
  | .table _ es => some (.named es)
  | .array items => some (.placed items)
  | .tables done last => some (.placed ((done ++ [last]).map (.table .header)))
  | .leaf .moment => some (.named [])
  | .leaf _ => none

/-- The part with a name or at a place. -/
def Parts.part? (ps : Parts) (name : String) (place : Nat) : Option Node :=
  match ps with
  | .named es => find? name es
  | .placed items => items[place]?

/-- The word that a value is. -/
def Node.word? : Node → Option UInt64
  | .leaf (.integer n) => Text.exactUInt64? n
  | _ => none

/-- The text that a value is. -/
def Node.text? : Node → Option String
  | .leaf (.text s) => some s
  | _ => none

/-- The meaning of a part, or a default where there is none. -/
def Parts.orDefault {α : Type} (ps : Parts) (name : String) (place : Nat) (f : Node → Option α)
    (d : α) : Option α :=
  match ps.part? name place with
  | none => some d
  | some n => f n

end Toml

open Toml (Parts)

/-- Decode how long pages are. -/
def PagingConfig.ofParts? (ps : Parts) : Option PagingConfig :=
  match ps.orDefault "default_limit" 0 Node.word? PagingConfig.default.defaultLimit,
    ps.orDefault "max_limit" 1 Node.word? PagingConfig.default.maxLimit with
  | some d, some m => some ⟨d, m⟩
  | _, _ => none

/-- Decode where the database is. -/
def DatabaseConfig.ofParts? (ps : Parts) : Option DatabaseConfig :=
  match ps.orDefault "path" 0 Node.text? DatabaseConfig.default.path,
    ps.orDefault "busy_timeout_ms" 1 Node.word? DatabaseConfig.default.busyTimeout with
  | some p, some t => some ⟨p, t⟩
  | _, _ => none

/-- Decode under which address the collections are served. -/
def ApiConfig.ofParts? (ps : Parts) : Option ApiConfig :=
  (ps.orDefault "base_url" 0 Node.text? ApiConfig.default.baseUrl).map ApiConfig.mk

/-- Decode a group of settings. -/
def Toml.group? {α : Type} (f : Parts → Option α) (n : Node) : Option α := n.parts?.bind f

namespace ServiceConfig

/-- Decode all settings. -/
def ofParts? (ps : Parts) : Option ServiceConfig :=
  match ps.orDefault "paging" 0 (Toml.group? PagingConfig.ofParts?) .default,
    ps.orDefault "database" 1 (Toml.group? DatabaseConfig.ofParts?) .default,
    ps.orDefault "api" 2 (Toml.group? ApiConfig.ofParts?) .default with
  | some paging, some database, some api => some ⟨paging, database, api⟩
  | _, _, _ => none

/-- Read the text of a file. -/
def read? (s : String) : Option ServiceConfig := (Toml.read? s).bind fun es => ofParts? (.named es)

/-! ## Files -/

/-- What is found where a file of settings may be. -/
inductive Source
  | absent
  | unreadable
  | text (s : String)
  deriving DecidableEq, Repr

/-- Why settings do not load. -/
inductive LoadFault
  | unreadable (path : String)
  | malformed (path : String)
  | invalid (fault : Fault)
  deriving DecidableEq, Repr

/-- The words for a failure to load. -/
def LoadFault.message : LoadFault → String
  | .unreadable path => "Failed to read " ++ path
  | .malformed path => "Failed to parse " ++ path
  | .invalid fault => fault.message

/-- The path of the file of settings of a project. -/
def projectPath (root : String) : String := Path.join root ".worktrack/config.toml"

/-- The path of the file of settings of a user. -/
def userPath (directory : String) : String := Path.join directory "worktrack/config.toml"

/-- The settings of a file, if it is there. -/
def ofSource (path : String) : Source → Except LoadFault (Option ServiceConfig)
  | .absent => .ok none
  | .unreadable => .error (.unreadable path)
  | .text s =>
    match read? s with
    | some c => .ok (some c)
    | none => .error (.malformed path)

/-- The settings of the files: those of the project, otherwise those of the user, otherwise the
defaults. -/
def ofFiles (root directory : String) (project user : Source) : Except LoadFault ServiceConfig :=
  match ofSource (projectPath root) project with
  | .error fault => .error fault
  | .ok (some c) => .ok c
  | .ok none => (ofSource (userPath directory) user).map fun o => o.getD .default

/-- Load the settings: read the files, let the environment decide about the database, and check the
outcome. -/
def load (root directory : String) (project user : Source) (database : Option String) :
    Except LoadFault ServiceConfig :=
  match ofFiles root directory project user with
  | .error fault => .error fault
  | .ok c =>
    let c := c.withDatabase database
    match c.validate with
    | .ok () => .ok c
    | .error fault => .error (.invalid fault)

/-- Without files the defaults hold. -/
theorem load_absent (root directory : String) :
    load root directory .absent .absent none = .ok .default := rfl

/-- The file of the project decides alone. -/
theorem load_project (root directory s : String) (user user' : Source) (database : Option String) :
    load root directory (.text s) user database = load root directory (.text s) user' database := by
  unfold load ofFiles ofSource
  simp only
  cases read? s <;> rfl

/-! ## Writing -/

/-- Settings as a document. -/
def toJson (c : ServiceConfig) : Json :=
  .object
    [("paging", .object [("default_limit", .nat c.paging.defaultLimit.toNat),
      ("max_limit", .nat c.paging.maxLimit.toNat)]),
     ("database", .object [("path", .string c.database.path),
      ("busy_timeout_ms", .nat c.database.busyTimeout.toNat)]),
     ("api", .object [("base_url", .string c.api.baseUrl)])]

end ServiceConfig

end Backlog
