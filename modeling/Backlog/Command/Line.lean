import Backlog.Command.Grammar
import Backlog.Iteration
import Backlog.ItemType

/-!
# Commands

What a command line asks for, as a value. Every command may be given the form of its answer, the
caller and the project, on any level. Values that have to be numbers, instants or paths are checked
while the command line is read.

## Main statements

* `CommandLine.read_nil` — a command line without a command is not carried out.
-/

namespace Backlog

/-- What a command says about an iteration besides its name. -/
structure Schedule where
  description : Option String
  startAt : Option Timestamp
  endAt : Option Timestamp
  deriving DecidableEq

/-- What a command sets in an item. -/
structure Draft where
  title : Option String
  pairs : List String
  json : Option String
  deriving DecidableEq, Repr

/-- A command. -/
inductive Command
  | create (typeName state : String) (description : Option String) (draft : Draft)
  | read (id : ItemId)
  | list (filter : String) (offset : Option String) (limit : Option Int64)
  | update (id : ItemId) (version : UInt64) (state : Option String) (removed : List String)
    (draft : Draft)
  | delete (id : ItemId)
  | types
  | publish (file : String)
  | migrate (file : String)
  | createIteration (space name : String) (schedule : Schedule)
  | createChild (parent : IterationId) (name : String) (schedule : Schedule)
  | readIteration (id : IterationId)
  | listIterations (space : String)
  | updateIteration (id : IterationId) (name : Option String) (schedule : Schedule)
  | moveIteration (id : IterationId) (state : IterationState)
  deriving DecidableEq

/-- A command, the form of its answer, the caller and the root of the project. -/
structure CommandLine where
  json : Bool
  caller : Option String
  project : Option String
  command : Command
  deriving DecidableEq

namespace CommandLine

/-! ## Levels -/

/-- Whether a text is anything at all. -/
def isAny (_ : String) : Bool := true

/-- Whether a text may be a path. -/
def isPath (s : String) : Bool := !s.isEmpty

/-- Whether a text is an instant. -/
def isTime (s : String) : Bool := (Argument.timestamp s).isOk

/-- An option with a value. -/
def valued (name : String) (letter : Option Char) (accepts : String → Bool) : OptionForm :=
  ⟨name, letter, .value accepts false false⟩

/-- An option that may be given several times. -/
def repeated (name : String) (letter : Option Char) : OptionForm :=
  ⟨name, letter, .value isAny true false⟩

/-- The options that hold on every level. -/
def everywhere : List OptionForm :=
  [⟨"verbose", some 'v', .flag⟩, ⟨"json", none, .flag⟩, valued "as" none isAny,
    valued "project" none isPath, ⟨"help", some 'h', .stop .help⟩]

/-- A level without commands below it. -/
def leaf (options : List OptionForm) (words : List (String → Bool)) : Level :=
  .mk (everywhere ++ options) words []

/-- The options of fields. -/
def fieldOptions : List OptionForm := [repeated "field" (some 'f'), valued "fields" none isAny]

/-- The options of a schedule. -/
def scheduleOptions : List OptionForm :=
  [valued "description" none isAny, valued "start-at" none isTime, valued "end-at" none isTime]

/-- The commands for types. -/
def typeCommands : List (String × Level) :=
  [("list", leaf [] []), ("publish", leaf [] [isPath]), ("migrate", leaf [] [isPath])]

/-- The commands for iterations. -/
def iterationCommands : List (String × Level) :=
  [("create", leaf ([valued "space" none isAny, valued "name" none isAny] ++ scheduleOptions) []),
    ("child", leaf (valued "name" none isAny :: scheduleOptions) [isAny]),
    ("show", leaf [] [isAny]),
    ("list", leaf [valued "space" none isAny] []),
    ("update", leaf (valued "name" none isAny :: scheduleOptions) [isAny]),
    ("start", leaf [] [isAny]),
    ("close", leaf [] [isAny])]

/-- All commands. -/
def commands : List (String × Level) :=
  [("create", leaf ([valued "type" (some 't') isAny, valued "title" none isAny,
      valued "state" none isAny, valued "description" none isAny] ++ fieldOptions) []),
    ("show", leaf [] [isAny]),
    ("list", leaf [valued "filter" (some 'F') isAny, valued "offset" none isAny,
      ⟨"limit", some 'n', .value (fun s => (Text.int64? s).isSome) false true⟩] []),
    ("update", leaf ([valued "version" (some 'V') fun s => (Text.uint64? s).isSome,
      valued "title" none isAny, valued "state" none isAny, repeated "unset" none]
      ++ fieldOptions) [isAny]),
    ("delete", leaf [] [isAny]),
    ("types", .mk everywhere [] typeCommands),
    ("iteration", .mk everywhere [] iterationCommands)]

/-- The level where a command line starts. -/
def root : Level := .mk (everywhere ++ [⟨"version", some 'V', .stop .version⟩]) [] commands

/-! ## Meaning -/

/-- What a command sets in an item. -/
def draftOf (s : Scan) : Draft := ⟨s.value? "title", s.values "field", s.value? "fields"⟩

/-- The instant of an option. -/
def timeOf (s : Scan) (name : String) : Option Timestamp :=
  (s.value? name).bind fun t => (Argument.timestamp t).toOption

/-- What a command says about an iteration. -/
def scheduleOf (s : Scan) : Schedule :=
  ⟨s.value? "description", timeOf s "start-at", timeOf s "end-at"⟩

/-- The update that a command asks for, if it says which version it is based on. -/
def updateOf? (s : Scan) (id : String) : Option Command :=
  ((s.value? "version").bind Text.uint64?).map fun version =>
    .update (.ofInput id) version (s.value? "state") (s.values "unset") (draftOf s)

/-- The command for items or types that a command line asks for. -/
def itemCommand? (s : Scan) : Option Command :=
  match s.path, s.words with
  | ["create"], _ =>
    some (.create ((s.value? "type").getD SystemType.userStory)
      ((s.value? "state").getD StateName.new) (s.value? "description") (draftOf s))
  | ["show"], [id] => some (.read (.ofInput id))
  | ["list"], _ =>
    some (.list ((s.value? "filter").getD "") (s.value? "offset")
      ((s.value? "limit").bind Text.int64?))
  | ["update"], [id] => updateOf? s id
  | ["delete"], [id] => some (.delete (.ofInput id))
  | ["types"], _ => some .types
  | ["types", "list"], _ => some .types
  | ["types", "publish"], [file] => some (.publish file)
  | ["types", "migrate"], [file] => some (.migrate file)
  | _, _ => none

/-- The command for iterations that a command line asks for. -/
def iterationCommand? (s : Scan) : Option Command :=
  match s.path, s.words with
  | ["iteration", "create"], _ =>
    match s.value? "space", s.value? "name" with
    | some space, some name => some (.createIteration space name (scheduleOf s))
    | _, _ => none
  | ["iteration", "child"], [parent] =>
    (s.value? "name").map fun name => .createChild ⟨parent⟩ name (scheduleOf s)
  | ["iteration", "show"], [id] => some (.readIteration ⟨id⟩)
  | ["iteration", "list"], _ => (s.value? "space").map .listIterations
  | ["iteration", "update"], [id] =>
    some (.updateIteration ⟨id⟩ (s.value? "name") (scheduleOf s))
  | ["iteration", "start"], [id] => some (.moveIteration ⟨id⟩ .start)
  | ["iteration", "close"], [id] => some (.moveIteration ⟨id⟩ .close)
  | _, _ => none

/-- The command line that was read, if it names a command and gives what the command needs. -/
def ofScan? (s : Scan) : Option CommandLine :=
  ((itemCommand? s).or (iterationCommand? s)).map fun command =>
    ⟨s.isSet "json", s.value? "as", s.value? "project", command⟩

/-- Read a command line. -/
def read (line : List String) : Except Stop CommandLine :=
  match Scan.read root line with
  | .error reason => .error reason
  | .ok s =>
    match ofScan? s with
    | some c => .ok c
    | none => .error .usage

/-- A command line without a command is not carried out. -/
theorem read_nil : read [] = .error .usage := rfl

end CommandLine

end Backlog
