import Backlog.Toml.Table

/-!
# Reading a TOML file

A file is a list of lines: pairs, headers, comments and empty lines. A value may run over several
lines inside brackets, a table in braces stays on one line. Values nest less than eighty levels.

Every step takes at least one character, so the length of the text bounds the number of steps.

## Main statements

* `dropComment_noMark` — what does not start with a number sign is no comment.
-/

namespace Backlog.Toml

/-- Values nest less deep than this. -/
def depthLimit : Nat := 80

/-! ## Blanks and comments -/

/-- The rest behind blanks within a line. -/
def dropSpaces (cs : List Char) : List Char := cs.dropWhile isSpace

/-- The rest behind a comment, if one starts here. -/
def dropComment : List Char → List Char
  | '#' :: cs => cs.dropWhile isOrdinary
  | cs => cs

theorem dropComment_noMark {c : Char} (h : c ≠ '#') (cs : List Char) :
    dropComment (c :: cs) = c :: cs := by
  unfold dropComment
  split
  · simp_all
  · rfl

/-- The rest behind the end of a line: blanks, a comment, and a line break or the end. -/
def endLine? (cs : List Char) : Option (List Char) :=
  match dropComment (dropSpaces cs) with
  | [] => some []
  | cs => lineBreak? cs

/-- The rest behind blanks, comments and line breaks. -/
def dropBlank : Nat → List Char → Option (List Char)
  | 0, _ => none
  | fuel + 1, cs =>
    match dropSpaces cs with
    | '#' :: rest => (lineBreak? (dropComment ('#' :: rest))).bind (dropBlank fuel)
    | '\n' :: rest => dropBlank fuel rest
    | '\r' :: '\n' :: rest => dropBlank fuel rest
    | rest => some rest

/-! ## Keys -/

/-- A character of a key without quotes. -/
def isKeyChar (c : Char) : Bool := c.isAlphanum || c = '_' || c = '-'

/-- One key. -/
def simpleKey? : List Char → Option (String × List Char)
  | '"' :: cs => (basic cs).map fun r => (String.ofList r.1, r.2)
  | '\'' :: cs => (literal cs).map fun r => (String.ofList r.1, r.2)
  | cs =>
    let name := cs.takeWhile isKeyChar
    if name.isEmpty then none else some (String.ofList name, cs.dropWhile isKeyChar)

/-- Keys with dots between them. -/
def keys? : Nat → List Char → Option (List String × List Char)
  | 0, _ => none
  | fuel + 1, cs =>
    match simpleKey? (dropSpaces cs) with
    | none => none
    | some (k, rest) =>
      match dropSpaces rest with
      | '.' :: rest => (keys? fuel rest).map fun r => (k :: r.1, r.2)
      | rest => some ([k], rest)

/-- Keys with dots between them: the path, and the last key. -/
def path? (fuel : Nat) (cs : List Char) : Option ((List String × String) × List Char) :=
  match keys? fuel cs with
  | some (ks, rest) =>
    match ks.getLast? with
    | some k => if ks.length < depthLimit then some ((ks.dropLast, k), rest) else none
    | none => none
  | none => none

/-! ## Values -/

/-- A value without parts. -/
def leaf? (cs : List Char) : Option (Node × List Char) :=
  match quoted? cs with
  | some (s, rest) => some (.leaf (.text (String.ofList s)), rest)
  | none => (bare? cs).map fun r => (.leaf r.1, r.2)

/-- The table of the pairs between braces. -/
def bracesTable? (pairs : List Pair) : Option Node := (addPairs [] pairs).map (.table .braces)

mutual

/-- A value at a depth. -/
def value? : Nat → Nat → List Char → Option (Node × List Char)
  | 0, _, _ => none
  -- an array
  | fuel + 1, depth, '[' :: cs =>
    if depth + 1 < depthLimit then
      (elements? fuel (depth + 1) cs).map fun r => (.array r.1, r.2)
    else none
  -- a table in braces
  | fuel + 1, depth, '{' :: cs =>
    if depth + 1 < depthLimit then
      match dropSpaces cs with
      | '}' :: rest => some (.table .braces [], rest)
      | cs => (pairs? fuel (depth + 1) cs).bind fun r => (bracesTable? r.1).map fun t => (t, r.2)
    else none
  | _ + 1, _, cs => leaf? cs

/-- The elements of an array, up to the closing bracket; a comma may stand behind the last one. -/
def elements? : Nat → Nat → List Char → Option (List Node × List Char)
  | 0, _, _ => none
  | fuel + 1, depth, cs =>
    match dropBlank (fuel + 1) cs with
    | none => none
    | some (']' :: rest) => some ([], rest)
    | some cs =>
      match value? fuel depth cs with
      | none => none
      | some (n, rest) =>
        match dropBlank (fuel + 1) rest with
        | some (',' :: rest) => (elements? fuel depth rest).map fun r => (n :: r.1, r.2)
        | some (']' :: rest) => some ([n], rest)
        | _ => none

/-- The pairs between braces, up to the closing one. -/
def pairs? : Nat → Nat → List Char → Option (List Pair × List Char)
  | 0, _, _ => none
  | fuel + 1, depth, cs =>
    match path? (fuel + 1) cs with
    | some ((path, key), '=' :: rest) =>
      match value? fuel depth (dropSpaces rest) with
      | none => none
      | some (n, rest) =>
        match dropSpaces rest with
        | ',' :: rest => (pairs? fuel depth rest).map fun r => (⟨path, key, n⟩ :: r.1, r.2)
        | '}' :: rest => some ([⟨path, key, n⟩], rest)
        | _ => none
    | _ => none

end

/-! ## Lines -/

/-- What a line says. -/
inductive Line
  | nothing
  | pair (p : Pair)
  | header (path : List String) (key : String) (repeated : Bool)

/-- A header, behind the opening bracket. -/
def header? (fuel : Nat) (cs : List Char) : Option (Line × List Char) :=
  match path? fuel cs with
  | some ((path, key), ']' :: rest) =>
    (endLine? rest).map fun rest => (.header path key false, rest)
  | _ => none

/-- A header of a list of tables, behind the opening brackets. -/
def repeatedHeader? (fuel : Nat) (cs : List Char) : Option (Line × List Char) :=
  match path? fuel cs with
  | some ((path, key), ']' :: ']' :: rest) =>
    (endLine? rest).map fun rest => (.header path key true, rest)
  | _ => none

/-- A pair on a line of its own. -/
def pairLine? (fuel : Nat) (cs : List Char) : Option (Line × List Char) :=
  match path? fuel cs with
  | some ((path, key), '=' :: rest) =>
    match value? fuel 0 (dropSpaces rest) with
    | some (n, rest) => (endLine? rest).map fun rest => (.pair ⟨path, key, n⟩, rest)
    | none => none
  | _ => none

/-- One line. -/
def line? (fuel : Nat) (cs : List Char) : Option (Line × List Char) :=
  match cs with
  | '[' :: '[' :: rest => repeatedHeader? fuel rest
  | '[' :: rest => header? fuel rest
  | '#' :: _ => (endLine? cs).map fun rest => (.nothing, rest)
  | '\n' :: _ => (endLine? cs).map fun rest => (.nothing, rest)
  | '\r' :: _ => (endLine? cs).map fun rest => (.nothing, rest)
  | _ => pairLine? fuel cs

/-- All lines. -/
def lines? (steps : Nat) : Nat → List Char → Option (List Line)
  | 0, _ => none
  | fuel + 1, cs =>
    match dropSpaces cs with
    | [] => some []
    | cs =>
      match line? steps cs with
      | some (l, rest) => (lines? steps fuel rest).map (l :: ·)
      | none => none

/-- Group lines: pairs belong to the header above them. -/
def fileOf : List Line → File
  | [] => ⟨[], []⟩
  | l :: rest =>
    let f := fileOf rest
    match l with
    | .nothing => f
    | .pair p => { f with pairs := p :: f.pairs }
    | .header path key again => ⟨[], ⟨path, key, again, f.pairs⟩ :: f.sections⟩

/-- The text without a byte order mark. -/
def withoutMark : List Char → List Char
  | '\uFEFF' :: cs => cs
  | cs => cs

/-- Read the text of a file. -/
def read? (s : String) : Option Entries :=
  let cs := withoutMark s.toList
  let steps := cs.length + 2
  (lines? steps steps cs).bind fun ls => (fileOf ls).entries?

end Backlog.Toml
