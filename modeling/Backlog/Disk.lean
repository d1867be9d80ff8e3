import Backlog.Config.Document
import Backlog.Store.Tables

/-!
# Files and databases

A disk holds texts and databases at places. A relative path starts in the working directory. To
read a file every part of its path is followed, and each needs the directory before it to be there.
To open a database the directories on the way are made. A directory is there when something lies in
it or when it is known to be there.

## Main statements

* `Disk.stored?_save` — what is saved under a path is stored there, and nothing else changes;
* `Disk.databaseAt?_save` — a saved database opens as it was saved, with the system types added;
* `Disk.makeWay_files` — making directories leaves every file as it is.
-/

namespace Backlog

/-- What is stored at a place. -/
inductive StoredFile
  | text (s : String)
  | database (t : Tables)

/-- The working directory, the directories that are known to be there, and what is stored. -/
structure Disk where
  workingDirectory : String
  directories : List String
  files : SortedMap String StoredFile

namespace Disk

/-! ## Places -/

/-- A path seen from the working directory. -/
def absolute (d : Disk) (path : String) : String := Path.join d.workingDirectory path

/-- The place that a path names, whatever is there. -/
def place (d : Disk) (path : String) : String := Path.normal (d.absolute path)

/-- What is stored at the place that a path names. -/
def stored? (d : Disk) (path : String) : Option StoredFile := d.files.get? (d.place path)

/-- Store a file. -/
def save (d : Disk) (path : String) (f : StoredFile) : Disk :=
  { d with files := d.files.insert (d.place path) f }

/-- Whether a place is a directory. -/
def isDirectory (d : Disk) (place : String) : Bool :=
  d.directories.contains place
    || (d.directories ++ d.files.keys).any fun p => Path.isBelow p place

/-! ## Reading -/

/-- Follow parts from a place. Every part needs a directory to start from, also one that leads
nowhere. -/
def follow (d : Disk) (place : List (List Char)) : List (List Char) → Option (List (List Char))
  | [] => some place
  | part :: rest =>
    if d.isDirectory (Path.ofPlace place) && Path.isPossible part then
      d.follow (Path.walk place part) rest
    else none

/-- The place that a path leads to, part by part. -/
def locate? (d : Disk) (path : String) : Option String :=
  let path := d.absolute path
  if path.utf8ByteSize ≤ Path.greatestLength then
    (d.follow [] (Path.parts path.toList)).map Path.ofPlace
  else none

/-- What a path leads to. -/
def find? (d : Disk) (path : String) : Option StoredFile := (d.locate? path).bind d.files.get?

/-- The text under a path, if there is one. -/
def text? (d : Disk) (path : String) : Option String :=
  match d.find? path with
  | some (.text s) => some s
  | _ => none

/-- What is found where a file of settings may be. -/
def source (d : Disk) (path : String) : ServiceConfig.Source :=
  match d.locate? path with
  | none => .absent
  | some place =>
    match d.files.get? place with
    | some (.text s) => .text s
    | some (.database _) => .unreadable
    | none => if d.isDirectory place then .unreadable else .absent

/-! ## Opening -/

/-- Make the directories on a way, as far as they are not there. It ends where a file stands in the
way, or a part is not possible. -/
def makeWay (d : Disk) (place : List (List Char)) : List (List Char) → Bool × Disk
  | [] => (true, d)
  | part :: rest =>
    let next := Path.walk place part
    if !Path.isPossible part then (false, d)
    else if d.isDirectory (Path.ofPlace next) then d.makeWay next rest
    else if d.files.contains (Path.ofPlace next) then (false, d)
    else { d with directories := Path.ofPlace next :: d.directories }.makeWay next rest

/-- How many octets a database needs behind its name, for the files beside it. -/
def besideSize : Nat := 8

/-- How many octets the path of a file beside a database may take. -/
def greatestDatabasePath : Nat := 512

/-- Whether a database may be at a place: its name leaves room for the names of the files beside
it. -/
def isRoomy (place : String) : Bool :=
  let name := (Path.steps place).getLast?.getD []
  Path.sizeOf name + besideSize ≤ Path.greatestPart && !name.contains '\x00'
    && place.utf8ByteSize + besideSize ≤ greatestDatabasePath

/-- The database at a place. Where nothing is, or a file of no more than one octet, a new one is
made. -/
def databaseAt? (d : Disk) (place : String) : Option Tables :=
  if isRoomy place then
    match d.files.get? place with
    | some (.database t) => some t.opened
    | some (.text s) => if s.utf8ByteSize ≤ 1 then some .new else none
    | none => if d.isDirectory place then none else some .new
  else none

/-- Open the database under a path, and make the directories on the way to it. -/
def openAt (d : Disk) (path : String) : Option Tables × Disk :=
  let full := d.absolute path
  if Path.greatestLength < full.utf8ByteSize then (none, d)
  else
    match d.makeWay [] (Path.steps full).dropLast with
    -- the directories that were made so far stay
    | (false, d) => (none, d)
    | (true, d) => (d.databaseAt? (Path.normal full), d)

/-! ## Laws -/

/-- What is saved under a path is stored there, and nothing else changes. -/
theorem stored?_save (d : Disk) (path path' : String) (f : StoredFile) :
    (d.save path f).stored? path' =
      if d.place path' = d.place path then some f else d.stored? path' :=
  SortedMap.get?_insert d.files (d.place path) (d.place path') f

/-- A saved database opens as it was saved, with the system types added. -/
theorem databaseAt?_save {d : Disk} {path : String} (h : isRoomy (d.place path) = true)
    (t : Tables) : (d.save path (.database t)).databaseAt? (d.place path) = some t.opened := by
  have hs := stored?_save d path path (.database t)
  rw [if_pos rfl, stored?] at hs
  rw [databaseAt?, if_pos h]
  rw [show (d.save path (.database t)).place path = d.place path from rfl] at hs
  rw [hs]

/-- Making directories leaves every file as it is. -/
theorem makeWay_files (d : Disk) (place : List (List Char)) (way : List (List Char)) :
    (d.makeWay place way).2.files = d.files := by
  induction way generalizing d place with
  | nil => rfl
  | cons part rest ih =>
    rw [makeWay]
    split
    · rfl
    split
    · exact ih _ _
    split
    · rfl
    · exact ih _ _

end Disk

end Backlog
