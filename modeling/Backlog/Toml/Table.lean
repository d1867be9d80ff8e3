import Backlog.Toml.Scalar

/-!
# Tables of a TOML file

A file fills tables. How a table came about decides what may still be added to it: one with a
header or in braces is complete, one that only stands on the way to others may get its header
later, and one that dotted keys made may be added to by dotted keys. Nothing is defined twice.

## Main statements

* `addPair_present` — a key that is there is not defined again.
-/

namespace Backlog.Toml

/-- How a table came about. -/
inductive Origin
  | header
  | braces
  | implied
  | dotted
  deriving DecidableEq, Repr

/-- A value of a file. -/
inductive Node
  | leaf (l : Leaf)
  | array (items : List Node)
  | table (origin : Origin) (entries : List (String × Node))
  | tables (done : List (List (String × Node))) (last : List (String × Node))
  deriving Inhabited

/-- The entries of a table. -/
abbrev Entries := List (String × Node)

/-- The value of a key. -/
def find? (k : String) (es : Entries) : Option Node := (es.find? fun e => e.1 = k).map Prod.snd

/-- Replace the value of a key, or add the key. -/
def put (k : String) (n : Node) : Entries → Entries
  | [] => [(k, n)]
  | e :: rest => if e.1 = k then (k, n) :: rest else e :: put k n rest

/-! ## Pairs -/

/-- Add a pair below a path of dotted keys. The tables on the way are made by dotted keys, or were
implied; the table that takes the pair is the present one or made by dotted keys. -/
def addPair (key : String) (value : Node) : List String → Bool → Entries → Option Entries
  | [], takes, es => if takes && (find? key es).isNone then some (put key value es) else none
  | k :: path, _, es =>
    match find? k es with
    | none => (addPair key value path true []).map fun inner => put k (.table .dotted inner) es
    -- dotted keys may add to what dotted keys made
    | some (.table .dotted inner) =>
      (addPair key value path true inner).map fun inner => put k (.table .dotted inner) es
    -- they may pass through what was implied, but not add to it directly
    | some (.table .implied inner) =>
      (addPair key value path false inner).map fun inner => put k (.table .implied inner) es
    | some (.tables done last) =>
      (addPair key value path false last).map fun last => put k (.tables done last) es
    | some _ => none

/-- A pair of a path of keys and a value. -/
structure Pair where
  path : List String
  key : String
  value : Node

/-- Add pairs in order. -/
def addPairs (es : Entries) : List Pair → Option Entries
  | [] => some es
  | p :: rest => (addPair p.key p.value p.path true es).bind fun es => addPairs es rest

/-! ## Headers -/

/-- Change the table that a path of headers leads to; tables on the way that are not there are
implied. -/
def below (f : Entries → Option Entries) : List String → Entries → Option Entries
  | [], es => f es
  | k :: path, es =>
    match find? k es with
    | none => (below f path []).map fun inner => put k (.table .implied inner) es
    | some (.table origin inner) =>
      -- a table in braces is complete
      if origin = .braces then none
      else (below f path inner).map fun inner => put k (.table origin inner) es
    | some (.tables done last) =>
      (below f path last).map fun last => put k (.tables done last) es
    | some _ => none

/-- A header with the pairs below it. -/
structure Section where
  path : List String
  key : String
  repeated : Bool
  pairs : List Pair

/-- Add a table with its pairs. Only a table that was implied may be there already. -/
def addTable (key : String) (pairs : List Pair) (es : Entries) : Option Entries :=
  match find? key es with
  | none => (addPairs [] pairs).map fun inner => put key (.table .header inner) es
  | some (.table .implied inner) =>
    (addPairs inner pairs).map fun inner => put key (.table .header inner) es
  | some _ => none

/-- Add one more table to a list of tables. -/
def addElement (key : String) (pairs : List Pair) (es : Entries) : Option Entries :=
  match find? key es with
  | none => (addPairs [] pairs).map fun inner => put key (.tables [] inner) es
  | some (.tables done last) =>
    (addPairs [] pairs).map fun inner => put key (.tables (done ++ [last]) inner) es
  | some _ => none

/-- Add sections in order. -/
def addSections (es : Entries) : List Section → Option Entries
  | [] => some es
  | s :: rest =>
    let add := if s.repeated then addElement s.key s.pairs else addTable s.key s.pairs
    (below add s.path es).bind fun es => addSections es rest

/-- A file: the pairs in front of the first header, and the sections. -/
structure File where
  pairs : List Pair
  sections : List Section

/-- The table that a file fills. -/
def File.entries? (f : File) : Option Entries :=
  (addPairs [] f.pairs).bind fun es => addSections es f.sections

/-! ## Laws -/

/-- A key that is there is not defined again. -/
theorem addPair_present {key : String} {es : Entries} {n : Node} (h : find? key es = some n)
    (value : Node) (takes : Bool) : addPair key value [] takes es = none := by
  simp [addPair, h]

end Backlog.Toml
