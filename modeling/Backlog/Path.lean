/-!
# Paths

A path is a text of parts between slashes. Empty parts and single dots lead nowhere, two dots lead
up, and every other part is a name. A walk through a path keeps the names on the way, last first.

## Main statements

* `walk_of_isIdle` — what leads nowhere leaves a walk where it is;
* `ofPlace_cons` — a step further adds a slash and a name.
-/

namespace Backlog.Path

/-- Whether a path starts at the root. -/
def isAbsolute (path : String) : Bool := path.toList.head? == some '/'

/-- A path seen from a directory: what starts at the root stays as it is. -/
def join (root path : String) : String :=
  if isAbsolute path || root.isEmpty then path
  else if root.toList.getLast? = some '/' then root ++ path
  else root ++ "/" ++ path

/-- The parts of a path between slashes. -/
def parts : List Char → List (List Char)
  | [] => [[]]
  | c :: cs =>
    if c = '/' then [] :: parts cs
    else
      match parts cs with
      | [] => [[c]]
      | p :: ps => (c :: p) :: ps

/-- Whether a part leads nowhere. -/
def isIdle (part : List Char) : Bool := part = [] || part = ['.']

/-- Walk one part from a place; two dots go up. -/
def walk (place : List (List Char)) (part : List Char) : List (List Char) :=
  if isIdle part then place
  else if part = ['.', '.'] then place.tail
  else part :: place

/-- The path of a place. -/
def ofPlace (place : List (List Char)) : String :=
  String.ofList (place.reverse.flatMap fun p => '/' :: p)

/-- The path with plain names only. -/
def normal (path : String) : String := ofPlace ((parts path.toList).foldl walk [])

/-- The parts of a path that lead somewhere. -/
def steps (path : String) : List (List Char) :=
  (parts path.toList).filter fun part => !isIdle part

/-- Whether a path lies below a directory. -/
def isBelow (path directory : String) : Bool := (directory ++ "/").toList.isPrefixOf path.toList

/-! ## Sizes -/

/-- How many octets a part may take. -/
def greatestPart : Nat := 255

/-- How many octets a path may take. -/
def greatestLength : Nat := 4095

/-- The octets that a part takes. -/
def sizeOf (part : List Char) : Nat := (String.ofList part).utf8ByteSize

/-- Whether a part may stand in a path of a disk: it is not too long, and the character zero is not
in it. -/
def isPossible (part : List Char) : Bool :=
  sizeOf part ≤ greatestPart && !part.contains '\x00'

/-! ## Laws -/

/-- What leads nowhere leaves a walk where it is. -/
theorem walk_of_isIdle {place : List (List Char)} {part : List Char} (h : isIdle part = true) :
    walk place part = place := by
  rw [walk, if_pos h]

/-- A step further adds a slash and a name. -/
theorem ofPlace_cons (part : List Char) (place : List (List Char)) :
    ofPlace (part :: place) = ofPlace place ++ String.ofList ('/' :: part) := by
  simp [ofPlace]

end Backlog.Path
