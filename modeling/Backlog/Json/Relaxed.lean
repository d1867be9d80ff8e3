import Backlog.Json.Relaxed.Lexeme

/-!
# Relaxed documents

The reader of relaxed documents is a machine that takes one lexeme at a time and keeps the open
containers on a stack. It stops behind the first value: what follows it is not read, but it is
noticed. Of an object the first member of a name counts, and names are compared as they are written.

## Main statements

* `Relaxed.member?_cons` — the first member of a name counts;
* `Relaxed.read_nil` — an empty text is malformed.
-/

namespace Backlog.Json

/-- A relaxed document. Quoted texts, of which the inside is kept, and numerals and words are kept
as they are written. -/
inductive Relaxed
  | text (inside : List Char)
  | bare (written : List Char)
  | array (items : List Relaxed)
  | object (members : List (List Char × Relaxed))
  deriving Inhabited

namespace Relaxed

/-! ## The machine -/

/-- An open container: what it holds so far, last first. -/
inductive Frame
  | items (done : List Relaxed)
  | members (done : List (List Char × Relaxed))
  | member (done : List (List Char × Relaxed)) (name : List Char)

/-- What comes next. -/
inductive Want
  | value
  | item
  | name
  | colon
  | separator
  deriving DecidableEq, Repr

/-- A state of the machine. -/
inductive State
  | reading (stack : List Frame) (want : Want)
  | finished (r : Relaxed)

/-- The greatest depth of a document. -/
def greatestDepth : Nat := 1000

/-- Hand a complete part to the container that waits for it. -/
def deliver (r : Relaxed) : List Frame → Option State
  | [] => some (.finished r)
  | .items done :: stack => some (.reading (.items (r :: done) :: stack) .separator)
  | .member done name :: stack =>
    some (.reading (.members ((name, r) :: done) :: stack) .separator)
  -- a value without a name has no place in an object
  | .members _ :: _ => none

/-- Open a container. -/
def openFrame (frame : Frame) (want : Want) (stack : List Frame) : Option State :=
  if stack.length < greatestDepth then some (.reading (frame :: stack) want) else none

/-- Close a container. -/
def close (c : Char) : List Frame → Option State
  | .items done :: stack => if c = ']' then deliver (.array done.reverse) stack else none
  | .members done :: stack => if c = '}' then deliver (.object done.reverse) stack else none
  | _ => none

/-- A value at the front. -/
def stepValue (stack : List Frame) : List Char → Option (State × List Char)
  | [] => none
  | c :: rest =>
    if c = '[' then (openFrame (.items []) .item stack).map fun s => (s, rest)
    else if c = '{' then (openFrame (.members []) .name stack).map fun s => (s, rest)
    else if c = '"' ∨ c = '\'' then
      (quoted? c rest).bind fun r => (deliver (.text r.1) stack).map fun s => (s, r.2)
    else
      ((word? (c :: rest)).or (numeral? (c :: rest))).bind fun after =>
        let written := (c :: rest).take (rest.length + 1 - after.length)
        (deliver (.bare written) stack).map fun s => (s, after)

/-- The name of a member at the front. -/
def stepName (stack : List Frame) (cs : List Char) : Option (State × List Char) :=
  let name :=
    match cs with
    | '"' :: rest => quoted? '"' rest
    | '\'' :: rest => quoted? '\'' rest
    | _ => name? cs
  match stack, name with
  | .members done :: stack, some (name, rest) =>
    some (.reading (.member done name :: stack) .colon, rest)
  | _, _ => none

/-- A comma or a closing bracket at the front. -/
def stepSeparator (stack : List Frame) : List Char → Option (State × List Char)
  | [] => none
  | c :: rest =>
    if c = ',' then
      match stack with
      | .items done :: stack => some (.reading (.items done :: stack) .item, rest)
      | .members done :: stack => some (.reading (.members done :: stack) .name, rest)
      | _ => none
    else (close c stack).map fun s => (s, rest)

/-- Take one lexeme. A bracket may close a container right away or behind a comma. -/
def step (stack : List Frame) (want : Want) (cs : List Char) : Option (State × List Char) :=
  match want with
  | .value => stepValue stack cs
  | .item =>
    match cs with
    | ']' :: rest => (close ']' stack).map fun s => (s, rest)
    | _ => stepValue stack cs
  | .name =>
    match cs with
    | '}' :: rest => (close '}' stack).map fun s => (s, rest)
    | _ => stepName stack cs
  | .colon =>
    match cs with
    | ':' :: rest => some (.reading stack .value, rest)
    | _ => none
  | .separator => stepSeparator stack cs

/-! ## Reading -/

/-- What comes of reading a text. -/
inductive Reading
  | malformed
  /-- Something follows the document. -/
  | surplus
  | document (r : Relaxed)

/-- Run the machine. -/
def run (s : State) (cs : List Char) : Reading :=
  match s with
  | .finished r => if (skip cs).isEmpty then .document r else .surplus
  | .reading stack want =>
    match step stack want (skip cs) with
    | none => .malformed
    -- a lexeme takes at least one octet
    | some (s, rest) => if rest.length < cs.length then run s rest else .malformed
termination_by cs.length

/-- Read the octets of a text; the character zero ends it. -/
def read (cs : List Char) : Reading :=
  run (.reading [] .value) (cs.takeWhile fun c => !(c == '\x00'))

/-- An empty text is malformed. -/
theorem read_nil : read [] = .malformed := by
  rw [read, List.takeWhile_nil, run, skip_of_blank?_eq_none (by decide)]
  rfl

/-! ## Parts -/

/-- The first member of a name. -/
def memberIn? (name : List Char) : List (List Char × Relaxed) → Option Relaxed
  | [] => none
  | e :: rest => if e.1 = name then some e.2 else memberIn? name rest

/-- The member of a name. -/
def member? (name : List Char) : Relaxed → Option Relaxed
  | .object members => memberIn? name members
  | _ => none

/-- The first member of a name counts. -/
theorem member?_cons (name : List Char) (r : Relaxed) (members : List (List Char × Relaxed)) :
    (Relaxed.object ((name, r) :: members)).member? name = some r := by
  rw [member?, memberIn?, if_pos rfl]

mutual

/-- A document as it was written, without blanks, if no quoted text occurs in it. -/
def written? : Relaxed → Option (List Char)
  | .text _ => none
  | .bare written => some written
  | .array items => (writtenItems? items).map ('[' :: ·)
  | .object [] => some ['{', '}']
  | .object _ => none

/-- Items, the commas between them and the closing bracket. -/
def writtenItems? : List Relaxed → Option (List Char)
  | [] => some [']']
  | [r] => (written? r).map (· ++ [']'])
  | r :: rest =>
    match written? r, writtenItems? rest with
    | some cs, some cs' => some (cs ++ ',' :: cs')
    | _, _ => none

end

/-- The octets of a text, or of a container as it is written out. -/
def octets? : Relaxed → Option (List Char)
  | .text inside => some (Chunk.join (chunks inside))
  | .bare _ => none
  | .array items => (Relaxed.array items).written?
  | .object members => (Relaxed.object members).written?

end Relaxed

end Backlog.Json
