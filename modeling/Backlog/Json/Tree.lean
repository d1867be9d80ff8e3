import Backlog.Json.Token

/-!
# JSON documents as written

A `Tree` is a document with its numerals, its quoted texts and all its members, in the order of
the text and with repeated names. What a reader makes of it is a second step:

* `Tree.value?` is the strict reader: numbers have to have a value, quoted texts have to be
  whole, of repeated names the last one counts and members are listed in key order;
* `Tree.labelled?` looks a member up by a label, which is compared with names as they are written,
  and takes the first one.

The document is built by a machine that reads one token at a time and keeps the open containers
on a stack. `Json.read?` joins the steps and refuses documents that nest deeper than 127 levels.

## Main statements

* `run_append` — reading two lists of tokens in a row is reading them one after the other.
-/

namespace Backlog.Json

/-- A JSON document as written. -/
inductive Tree
  | null
  | bool (b : Bool)
  | number (n : Numeral)
  | string (s : Literal)
  | array (items : List Tree)
  | object (members : List (Literal × Tree))
  deriving Inhabited

/-! ## The machine -/

/-- An open container: what it holds so far, last first. -/
inductive Frame
  | items (done : List Tree)
  | members (done : List (Literal × Tree))
  | member (done : List (Literal × Tree)) (key : Literal)

/-- What the machine accepts next. -/
inductive Want
  | value
  | valueOrClose
  | key
  | keyOrClose
  | colon
  | commaOrClose
  deriving DecidableEq, Repr

/-- A state of the machine. -/
inductive State
  | reading (stack : List Frame) (want : Want)
  | finished (t : Tree)

/-- Hand a completed document part to the container that waits for it. -/
def deliver (t : Tree) : List Frame → Option State
  | [] => some (.finished t)
  | .items done :: stack => some (.reading (.items (t :: done) :: stack) .commaOrClose)
  | .member done key :: stack =>
    some (.reading (.members ((key, t) :: done) :: stack) .commaOrClose)
  -- a value without a name has no place in an object
  | .members _ :: _ => none

/-- A token where a value may start. -/
def startValue (stack : List Frame) : Token → Option State
  | .null => deliver .null stack
  | .bool b => deliver (.bool b) stack
  | .number n => deliver (.number n) stack
  | .string s => deliver (.string s) stack
  | .openArray => some (.reading (.items [] :: stack) .valueOrClose)
  | .openObject => some (.reading (.members [] :: stack) .keyOrClose)
  | _ => none

/-- A token where the name of a member may start. -/
def startMember : List Frame → Token → Option State
  | .members done :: stack, .string key => some (.reading (.member done key :: stack) .colon)
  | _, _ => none

/-- A closing bracket. -/
def close : List Frame → Token → Option State
  | .items done :: stack, .closeArray => deliver (.array done.reverse) stack
  | .members done :: stack, .closeObject => deliver (.object done.reverse) stack
  | _, _ => none

/-- A comma between items or members. -/
def separate : List Frame → Option State
  | .items done :: stack => some (.reading (.items done :: stack) .value)
  | .members done :: stack => some (.reading (.members done :: stack) .key)
  | _ => none

/-- Read one token. -/
def step : State → Token → Option State
  | .finished _, _ => none
  | .reading stack .value, t => startValue stack t
  | .reading stack .valueOrClose, t =>
    if t = .closeArray then close stack t else startValue stack t
  | .reading stack .key, t => startMember stack t
  | .reading stack .keyOrClose, t =>
    if t = .closeObject then close stack t else startMember stack t
  | .reading stack .colon, t => if t = .colon then some (.reading stack .value) else none
  | .reading stack .commaOrClose, t => if t = .comma then separate stack else close stack t

/-- Read tokens in order. -/
def run : State → List Token → Option State
  | s, [] => some s
  | s, t :: ts =>
    match step s t with
    | some s' => run s' ts
    | none => none

/-- Reading two lists in a row is reading them one after the other. -/
theorem run_append (s : State) (ts ts' : List Token) :
    run s (ts ++ ts') = (run s ts).bind fun s' => run s' ts' := by
  induction ts generalizing s with
  | nil => rfl
  | cons t ts ih =>
    rw [List.cons_append, run, run]
    split
    · exact ih _
    · rfl

/-- The document of a list of tokens. -/
def ofTokens? (ts : List Token) : Option Tree :=
  match run (.reading [] .value) ts with
  | some (.finished t) => some t
  | _ => none

namespace Tree

/-- Read a text as a document. -/
def read? (s : String) : Option Tree := (tokens s.toList).bind ofTokens?

/-! ## Depth -/

mutual

/-- How deep containers nest. -/
def depth : Tree → Nat
  | .array items => depthItems items + 1
  | .object members => depthMembers members + 1
  | _ => 0

/-- The greatest depth among items. -/
def depthItems : List Tree → Nat
  | [] => 0
  | t :: rest => max (depth t) (depthItems rest)

/-- The greatest depth among members. -/
def depthMembers : List (Literal × Tree) → Nat
  | [] => 0
  | e :: rest => max (depth e.2) (depthMembers rest)

end

/-! ## The strict value -/

mutual

/-- The value of a document. -/
def value? : Tree → Option Json
  | .null => some .null
  | .bool b => some (.bool b)
  | .number n => n.number?.map .number
  | .string s => s.text?.map .string
  | .array items => (values? items).map .array
  | .object members => (entries? members).map fun es => .ofMap (.ofList es)

/-- The values of items. -/
def values? : List Tree → Option (List Json)
  | [] => some []
  | t :: rest =>
    match value? t, values? rest with
    | some j, some js => some (j :: js)
    | _, _ => none

/-- The names and values of members, in the order of the text. -/
def entries? : List (Literal × Tree) → Option (List (String × Json))
  | [] => some []
  | e :: rest =>
    match e.1.text?, value? e.2, entries? rest with
    | some k, some j, some es => some ((k, j) :: es)
    | _, _, _ => none

end

/-! ## Parts -/

/-- The first member whose name is written like a label. -/
def labelledIn? (label : List Char) : List (Literal × Tree) → Option Tree
  | [] => none
  | e :: rest => if e.1.written = label then some e.2 else labelledIn? label rest

/-- The member of an object whose name is written like a label. -/
def labelled? (label : List Char) : Tree → Option Tree
  | .object members => labelledIn? label members
  | _ => none

/-- Whether a document is an object. -/
def isObject : Tree → Bool
  | .object _ => true
  | _ => false

/-- The items of an array. -/
def items? : Tree → Option (List Tree)
  | .array items => some items
  | _ => none

/-- The parts of a container in order; a value that is no container is its own only part. -/
def parts : Tree → List Tree
  | .array items => items
  | .object members => members.map Prod.snd
  | t => [t]

/-! ## Writing out -/

mutual

/-- A document as it was written, without blanks, if no quoted text occurs in it. -/
def written? : Tree → Option (List Char)
  | .null => some ['n', 'u', 'l', 'l']
  | .bool true => some ['t', 'r', 'u', 'e']
  | .bool false => some ['f', 'a', 'l', 's', 'e']
  | .number n => some n.written
  | .string _ => none
  | .array items => (writtenItems? items).map ('[' :: ·)
  | .object [] => some ['{', '}']
  | .object _ => none

/-- Items, the commas between them and the closing bracket. -/
def writtenItems? : List Tree → Option (List Char)
  | [] => some [']']
  | [t] => (written? t).map (· ++ [']'])
  | t :: rest =>
    match written? t, writtenItems? rest with
    | some cs, some cs' => some (cs ++ ',' :: cs')
    | _, _ => none

end

end Tree

/-! ## Reading a value -/

/-- The greatest depth of a document that is read. -/
def greatestDepth : Nat := 127

/-- Read a text as a value. -/
def read? (s : String) : Option Json :=
  match Tree.read? s with
  | some t => if t.depth ≤ greatestDepth then t.value? else none
  | none => none

end Backlog.Json
