import Backlog.Identity
import Backlog.Item

/-!
# Arguments with a meaning

Values on the command line stand for payloads, instants and callers.

## Main statements

* `splitFirst_eq_none_iff` — a text splits exactly when the character occurs in it;
* `callerOf_flag` — a flag that is not empty decides who calls.
-/

namespace Backlog.Argument

/-! ## Payloads -/

/-- What stands before and behind the first occurrence of a character. -/
def splitFirst (sep : Char) : List Char → Option (List Char × List Char)
  | [] => none
  | c :: cs =>
    if c = sep then some ([], cs) else (splitFirst sep cs).map fun p => (c :: p.1, p.2)

/-- What is wrong with a payload. -/
inductive PayloadFault
  | invalidJson
  | noObject
  | noPair (text : String)
  deriving DecidableEq, Repr

/-- The failure that a fault is. -/
def PayloadFault.toError : PayloadFault → AccessError
  | .invalidJson => .badParameter "fields" "invalid JSON"
  | .noObject => .badParameter "fields" "expected a JSON object"
  | .noPair text => .badParameter "field" ("expected key=value, got '" ++ text ++ "'")

/-- The payload that an object makes. -/
def payloadOf (json : Option String) : Except PayloadFault Payload :=
  match json with
  | none => .ok ∅
  | some s =>
    match Json.read? s with
    | some (.object members) => .ok (.ofList members)
    | some _ => .error .noObject
    | none => .error .invalidJson

/-- The name and the literal of a pair; the text `null` stands for the absence of a value. -/
def pairOf (s : String) : Except PayloadFault (String × Json) :=
  match splitFirst '=' s.toList with
  | some (key, value) =>
    let name := Text.trimChars key
    if name.isEmpty then .error (.noPair s)
    else .ok (String.ofList name,
      if value = ['n', 'u', 'l', 'l'] then .null else .string (String.ofList value))
  | none => .error (.noPair s)

/-- Put pairs into a payload, in their order. -/
def addPairs (payload : Payload) : List String → Except PayloadFault Payload
  | [] => .ok payload
  | s :: rest =>
    match pairOf s with
    | .ok (name, literal) => addPairs (payload.insert name literal) rest
    | .error fault => .error fault

/-- The payload of an object and of pairs; the pairs win. -/
def payload (pairs : List String) (json : Option String) : Except PayloadFault Payload :=
  match payloadOf json with
  | .ok p => addPairs p pairs
  | .error fault => .error fault

/-! ## Instants -/

/-- The instant of an argument. -/
def timestamp (s : String) : Except Timestamp.Fault Timestamp := Timestamp.read (Text.trim s)

/-- The words for an argument that is no instant. -/
def timestampMessage (fault : Timestamp.Fault) : String :=
  "expected an RFC 3339 timestamp: " ++ fault.message

/-! ## Callers -/

/-- The variable that names the caller. -/
def identityVariable : String := "WORKTRACK_IDENTITY"

/-- A text that is not empty. -/
def nonEmpty (s : Option String) : Option String := s.filter fun t => !t.isEmpty

/-- The caller: the flag decides, then the environment. -/
def callerOf (flag env : Option String) : Except AccessError Identity :=
  match (nonEmpty flag).or (nonEmpty env) with
  | some s =>
    match Identity.ofText s with
    | .ok i => .ok i
    | .error fault => .error fault.toError
  | none => .error (.unauthorized ("no identity; pass --as <name> or set " ++ identityVariable))

/-! ## Laws -/

theorem splitFirst_eq_none_iff {sep : Char} {cs : List Char} :
    splitFirst sep cs = none ↔ sep ∉ cs := by
  induction cs with
  | nil => simp [splitFirst]
  | cons c cs ih =>
    unfold splitFirst
    split
    · next h => simp [h]
    · next h => simp [ih, Ne.symm h]

/-- A flag that is not empty decides who calls. -/
theorem callerOf_flag {flag : String} (h : flag ≠ "") (env : Option String) :
    callerOf (some flag) env = callerOf (some flag) none := by
  have hn : nonEmpty (some flag) = some flag := by
    simp [nonEmpty, Option.filter, h]
  simp [callerOf, hn]

end Backlog.Argument
