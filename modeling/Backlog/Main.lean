import Backlog.Command.Action
import Backlog.Store.Snapshot

/-!
# The command

The outer layer: it fetches the files that a command line touches, runs the command line on them,
prints the outcome and writes the database back.
-/

namespace Backlog.Shell

/-- Whether a path leads to a directory: only then it goes on with a dot. -/
def isDirectory (path : String) : IO Bool := do
  try
    let _ ← IO.FS.Handle.mk (path ++ "/.") .read
    return true
  catch _ => return false

/-- Read a file, if there is one. -/
def readFile? (path : String) : IO (Option StoredFile) := do
  try
    let s ← IO.FS.readFile path
    match Snapshot.read? s with
    | some t => return some (.database t)
    | none => return some (.text s)
  catch _ => return none

/-- Take note of the directories on the way through the parts of a path, and of the file where they
end. -/
def survey (d : Disk) (place : List (List Char)) : List (List Char) → IO Disk
  | [] => return d
  | part :: rest => do
    let place := Path.walk place part
    let path := Path.ofPlace place
    if ← isDirectory path then
      survey { d with directories := path :: d.directories } place rest
    else
      match ← readFile? path with
      | some f => return d.save path f
      | none => return d

/-- Fetch what is found under a path and on the way to it. -/
def fetch (d : Disk) (path : String) : IO Disk := do
  let d ← survey d [] (Path.steps (d.absolute path))
  let place := d.place path
  -- the way may have to be made first, but what is at its end is there
  if ← isDirectory place then return { d with directories := place :: d.directories }
  match ← readFile? place with
  | some f => return d.save path f
  | none => return d

/-- The file of types that a command reads. -/
def typeFile? : Command → Option String
  | .publish file => some file
  | .migrate file => some file
  | _ => none

/-- Fetch the files that a command line touches. The database is the last one, since the settings
tell where it is; its path comes along if the settings load. -/
def fetchAll (s : Surroundings) (d : Disk) (line : CommandLine) : IO (Disk × Option String) := do
  let root := line.projectRoot d
  let d ← fetch d (ServiceConfig.projectPath root)
  let d ← fetch d (ServiceConfig.userPath s.settings)
  let d ← match typeFile? line.command with
    | some file => fetch d file
    | none => pure d
  match line.settings s d with
  | .error _ => return (d, none)
  | .ok config =>
    let path := config.databasePath root
    return (← fetch d path, some path)

/-- Make the directories that are new, and write the database back. -/
def writeBack (before after : Disk) (path : String) : IO Unit := do
  for directory in after.directories.reverse do
    if !before.directories.contains directory then IO.FS.createDirAll directory
  match after.stored? path with
  | some (.database t) => IO.FS.writeFile (after.place path) (Snapshot.toJson t).write
  | _ => pure ()

/-- Who calls by default: the variable decides, and then the user at a terminal. -/
def callerOf : IO (Option String) := do
  match Argument.nonEmpty (← IO.getEnv Argument.identityVariable) with
  | some s => return some s
  | none => if ← (← IO.getStdin).isTty then IO.getEnv "USER" else return none

/-- The directory of the user's settings. -/
def settingsDirectory : IO String := do
  match ← IO.getEnv "XDG_CONFIG_HOME" with
  | some path => if Path.isAbsolute path then return path
  | none => pure ()
  return Path.join ((← IO.getEnv "HOME").getD "/") ".config"

/-- Print an outcome and give its status. -/
def report (o : Outcome) : IO UInt32 := do
  (← IO.getStdout).putStr o.output
  (← IO.getStderr).putStr o.errors
  return UInt32.ofNat o.status

/-- Run a command line on the files of this machine. -/
def run (words : List String) : IO UInt32 := do
  let s : Surroundings :=
    ⟨← settingsDirectory, ← callerOf, ← IO.getEnv "WORKTRACK_DB"⟩
  let d : Disk := ⟨(← IO.currentDir).toString, [], ∅⟩
  match CommandLine.read words with
  | .error _ => report (CommandLine.run s d words).1
  | .ok line =>
    let (d, path) ← fetchAll s d line
    let r := CommandLine.run s d words
    match path with
    | some path => writeBack d r.2 path
    | none => pure ()
    report r.1

end Backlog.Shell

def main (words : List String) : IO UInt32 := Backlog.Shell.run words
