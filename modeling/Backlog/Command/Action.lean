import Backlog.Command.Line
import Backlog.Command.Report
import Backlog.Disk
import Backlog.Iterations
import Backlog.WorkItems

/-!
# Carrying out commands

A command line is carried out on a disk: the settings are loaded, the database is opened, and the
command runs at most one transaction. A command that changes something needs a caller, and that is
checked first. The outcome is an exit status and what the command prints.

## Main statements

* `CommandLine.carryOut_unsettled` — settings that do not load leave the disk as it is;
* `CommandLine.run_stop` — so does a command line that is not understood.
-/

namespace Backlog

/-- What a command answers. -/
inductive Answer
  | view (v : ResourceView)
  | views (vs : List ResourceView)
  | list (d : ListDocument)
  | types (ts : List ItemType)
  | deleted (id : ItemId)

namespace Answer

/-- An answer as a document. -/
def toJson : Answer → Json
  | .view v => v.toJson
  | .views vs => (Json.object [("data", .array (vs.map ResourceView.toJson))]).ordered
  | .list d => d.toJson
  | .types ts => .object [("data", .array (ts.map ItemType.toJson))]
  | .deleted id => .object [("id", .string id.text), ("deleted", .bool true)]

/-- An answer as people read it. -/
def plain : Answer → String
  | .view v => Report.viewText v
  | .views vs => Report.viewsText vs
  | .list d => Report.listText d
  | .types ts => Report.typesText ts
  | .deleted id => Report.line ("deleted work item " ++ id.text)

/-- The text of an answer. -/
def text (mode : OutputMode) (a : Answer) : String :=
  match mode with
  | .human => a.plain
  | .json => Report.line a.toJson.pretty

end Answer

/-- Why a command is not carried out. -/
inductive Refusal
  | access (e : AccessError)
  | settings (fault : ServiceConfig.LoadFault)
  | database (path : String)
  | unreadableTypes (path : String)
  | malformedTypes (path : String)

namespace Refusal

/-- What went wrong when settings did not load, the outermost first. -/
def trace (fault : ServiceConfig.LoadFault) : List String :=
  match fault with
  | .unreadable _ => [fault.message, "Is a directory (os error 21)"]
  | .malformed _ => [fault.message, "invalid TOML"]
  | .invalid _ => [fault.message]

/-- The report of a refusal, where there is one. -/
def failure? : Refusal → Option Report.Failure
  | .access e => some (.ofError e)
  | .settings fault => some (.ofConfig (trace fault))
  | _ => none

/-- What was refused, in words. -/
def message : Refusal → String
  | .access e => e.message
  | .settings fault => fault.message
  | .database path => "open work item database " ++ path
  | .unreadableTypes path => "read type schema " ++ path
  | .malformedTypes path => "parse type schema " ++ path

/-- Whether another failure lies behind a refusal, so that the message does not tell everything. -/
def hasCause : Refusal → Bool
  | .access (.internal _) => true
  | .access _ => false
  | .settings (.invalid _) => false
  | _ => true

/-- The last line about a refusal. The line stays open where a cause would follow. -/
def lastLine (r : Refusal) : String :=
  "Error: " ++ r.message ++ (if r.hasCause then "" else "\n")

/-- The text of a refusal. -/
def text (mode : OutputMode) (r : Refusal) : String :=
  (match r.failure? with
    | some f => f.text mode
    | none => "") ++ r.lastLine

end Refusal

/-- What a command knows besides its words: the directory of the user's settings, and what the
environment says about the caller and the database. -/
structure Surroundings where
  settings : String
  caller : Option String
  database : Option String

/-! ## Steps of a command -/

/-- Steps of a command on a service. -/
abbrev Action (σ : Type) := ExceptT Refusal (StateM (Service σ))

namespace Action

variable {σ α : Type}

/-- Take the outcome of a check. -/
def ofExcept (r : Except AccessError α) : Action σ α := fun s => (r.mapError .access, s)

/-- Run a transaction. -/
def transact (body : Tx σ α) : Action σ α := fun s =>
  let r := s.transactional .new body
  (r.1.mapError .access, r.2)

/-- The settings of the service. -/
def config : Action σ ServiceConfig := fun s => (.ok s.config, s)

/-- The payload of a draft. -/
def payload (draft : Draft) : Action σ Payload :=
  ofExcept ((Argument.payload draft.pairs draft.json).mapError Argument.PayloadFault.toError)

variable [Store σ]

/-- Show an item. -/
def showItem (body : Tx σ WorkItem) : Action σ Answer := do
  let item ← transact body
  let c ← config
  return .view (.ofItem c.api [] item)

/-- Show an iteration with what is planned into it. -/
def showIteration (body : Tx σ Iteration) : Action σ Answer := do
  let c ← config
  return .view (← transact (body >>= Iterations.view c.api))

end Action

/-! ## Commands -/

namespace Payload

/-- Set a text, if there is one. -/
def setText (p : Payload) (name : String) (value : Option String) : Payload :=
  match value with
  | some s => p.insert name (.string s)
  | none => p

/-- The payload of a new item: a state that the payload does not have is added. -/
def forNew (p : Payload) (state : String) (title description : Option String) : Payload :=
  let p := if p.contains SystemField.state then p else p.insert SystemField.state (.string state)
  (p.setText SystemField.title title).setText SystemField.description description

/-- The payload of a change: what is removed has no value. -/
def forChange (p : Payload) (title state : Option String) (removed : List String) : Payload :=
  removed.foldl (fun p name => p.insert name .null)
    ((p.setText SystemField.title title).setText SystemField.state state)

end Payload

namespace Schedule

/-- Give an iteration what a schedule says. -/
def applyTo (s : Schedule) (i : Iteration) : Iteration :=
  { i with
    description := s.description.or i.description
    startAt := s.startAt.or i.startAt
    endAt := s.endAt.or i.endAt }

end Schedule

namespace Command

open Backlog.Action

variable {σ : Type} [Store σ]

/-- The text of a file of types. -/
def textOf (d : Disk) (file : String) : Action σ String := do
  match d.text? file with
  | some s => return s
  | none => throw (.unreadableTypes file)

/-- The meaning of a file of types. -/
def typesOf {α : Type} (read? : String → Option α) (d : Disk) (file : String) : Action σ α := do
  match read? (← textOf d file) with
  | some a => return a
  | none => throw (.malformedTypes file)

/-- Migrate types, and list all types then. -/
def migrated (ts : List ItemType) : Tx σ (List ItemType) := do
  WorkItems.migrate ts
  WorkItems.types

/-- Change an iteration. -/
def changed (id : IterationId) (f : Iteration → Iteration) : Tx σ Iteration := do
  let i ← Iterations.load id
  Iterations.save (f i)

/-- Carry out a command. One that changes something needs a caller before anything else. -/
def carryOut (d : Disk) (caller : Except AccessError Identity) : Command → Action σ Answer
  | .create typeName state description draft => do
    let creator ← ofExcept caller
    let p ← payload draft
    showItem (WorkItems.create typeName (p.forNew state draft.title description) creator)
  | .read id => showItem (WorkItems.load id)
  | .list filter offset limit => do
    let c ← config
    let page ← transact (WorkItems.list c.paging filter offset limit)
    return .list (.ofPage c.api [] page)
  | .update id version state removed draft => do
    let _ ← ofExcept caller
    let p ← payload draft
    showItem (WorkItems.save ⟨id, version.toNat, p.forChange draft.title state removed⟩)
  | .delete id => do
    let _ ← ofExcept caller
    transact (WorkItems.delete id)
    return .deleted id
  | .types => return .types (← transact WorkItems.types)
  | .publish file => do
    let _ ← ofExcept caller
    let t ← typesOf ItemType.read? d file
    return .types [← transact (WorkItems.publish t)]
  | .migrate file => do
    let _ ← ofExcept caller
    let ts ← typesOf ItemType.readList? d file
    return .types (← transact (migrated ts))
  | .createIteration space name schedule => do
    let _ ← ofExcept caller
    showIteration (Iterations.create (schedule.applyTo (.named space name)))
  | .createChild parent name schedule => do
    let _ ← ofExcept caller
    showIteration (Iterations.create (schedule.applyTo (.partOf parent name)))
  | .readIteration id => showIteration (Iterations.load id)
  | .listIterations space => do
    let c ← config
    return .views (← transact (Iterations.views c.api space))
  | .updateIteration id name schedule => do
    let _ ← ofExcept caller
    showIteration (changed id fun i => schedule.applyTo { i with name := name.getD i.name })
  | .moveIteration id state => do
    let _ ← ofExcept caller
    showIteration (changed id fun i => { i with state := state })

end Command

/-! ## Command lines -/

/-- The exit status of a command and what it prints. -/
structure Outcome where
  status : Nat
  output : String
  errors : String
  deriving DecidableEq, Repr

namespace Stop

/-- The name and the version of the program. -/
def versionLine : String := "worktrack-cli 0.4.1"

/-- How the program is used. -/
def usageLine : String := "Usage: wt [OPTIONS] <COMMAND>"

/-- The outcome of a command line that names no command. -/
def outcome : Stop → Outcome
  | .usage => ⟨2, "", ""⟩
  | .help => ⟨0, Report.line usageLine, ""⟩
  | .version => ⟨0, Report.line versionLine, ""⟩

end Stop

namespace CommandLine

/-- The form in which a command line is answered. -/
def mode (line : CommandLine) : OutputMode := if line.json then .json else .human

/-- The directory of the project. -/
def projectRoot (line : CommandLine) (d : Disk) : String := line.project.getD d.workingDirectory

/-- Load the settings. -/
def settings (s : Surroundings) (d : Disk) (line : CommandLine) :
    Except ServiceConfig.LoadFault ServiceConfig :=
  let root := line.projectRoot d
  ServiceConfig.load root s.settings (d.source (ServiceConfig.projectPath root))
    (d.source (ServiceConfig.userPath s.settings)) s.database

/-- Carry out a command line: load the settings, which say where the database is, and open it. -/
def carryOut (s : Surroundings) (d : Disk) (line : CommandLine) : Except Refusal Answer × Disk :=
  match line.settings s d with
  | .error fault => (.error (.settings fault), d)
  | .ok config =>
    let path := config.databasePath (line.projectRoot d)
    match d.openAt path with
    | (none, d) => (.error (.database path), d)
    | (some tables, d) =>
      let r := line.command.carryOut d (Argument.callerOf line.caller s.caller)
        (.onStore tables config)
      -- a command that failed left the store as it was, but the database is there now
      (r.1, d.save path (.database r.2.store))

/-- The outcome of a command line. -/
def outcome (line : CommandLine) (r : Except Refusal Answer) : Outcome :=
  match r with
  | .ok a => ⟨0, a.text line.mode, ""⟩
  | .error r => ⟨1, "", r.text line.mode⟩

/-- Read a command line and carry it out. -/
def run (s : Surroundings) (d : Disk) (words : List String) : Outcome × Disk :=
  match read words with
  | .error reason => (reason.outcome, d)
  | .ok line =>
    let r := line.carryOut s d
    (line.outcome r.1, r.2)

/-! ## Laws -/

/-- Settings that do not load leave the disk as it is. -/
theorem carryOut_unsettled {s : Surroundings} {d : Disk} {line : CommandLine}
    {fault : ServiceConfig.LoadFault} (h : line.settings s d = .error fault) :
    line.carryOut s d = (.error (.settings fault), d) := by
  unfold carryOut
  simp only [h]

/-- A command line that is not understood leaves the disk as it is. -/
theorem run_stop (s : Surroundings) (d : Disk) {words : List String} {reason : Stop}
    (h : read words = .error reason) : run s d words = (reason.outcome, d) := by
  rw [run, h]

end CommandLine

end Backlog
