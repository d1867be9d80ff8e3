import Backlog.Command.Argument

/-!
# The grammar of a command line

A command line is a list of words. Options start with dashes: two in front of a name, one in front
of a row of letters. An option that takes a value finds it attached, or in the next word; a value
that is a word of its own does not start with a dash, unless the option takes negative numbers.
Behind two dashes nothing is an option. A word that names a command moves one level down, where
other options hold; some options hold on every level, and there the deepest one counts.

The words are read one at a time, and the first one that does not fit decides.

## Main statements

* `Scan.takeAll_append` — reading words in two parts is reading them at once;
* `Scan.take_escaped` — behind two dashes every word stands for itself.
-/

namespace Backlog

/-- Why a command line names no command. -/
inductive Stop
  | usage
  | help
  | version
  deriving DecidableEq, Repr

/-- What an option does. -/
inductive OptionSort
  | flag
  | stop (s : Stop)
  | value (accepts : String → Bool) (repeats negative : Bool)

/-- An option of a level: its name, its letter if it has one, and what it does. -/
structure OptionForm where
  name : String
  letter : Option Char
  sort : OptionSort

/-- A level of commands: its options, its words, and the commands one level down. -/
inductive Level
  | mk (options : List OptionForm) (words : List (String → Bool)) (commands : List (String × Level))

namespace Level

/-- The options of a level. -/
def options : Level → List OptionForm
  | mk options _ _ => options

/-- What the words of a level have to be. -/
def words : Level → List (String → Bool)
  | mk _ words _ => words

/-- The commands one level down. -/
def commands : Level → List (String × Level)
  | mk _ _ commands => commands

/-- The level of a command. -/
def command? (l : Level) (name : String) : Option Level :=
  (l.commands.find? fun c => c.1 = name).map Prod.snd

end Level

/-- What the next word is taken for. -/
inductive Expected
  | anything
  | value (o : OptionForm)
  | word
  | topic

/-- How far a command line was read: the level, the commands that led to it, the options given
above it and on it, and its words. -/
structure Scan where
  level : Level
  path : List String
  above : List (String × String)
  given : List (String × String)
  words : List String
  expected : Expected

namespace Scan

/-- The start of a command line. -/
def start (l : Level) : Scan := ⟨l, [], [], [], [], .anything⟩

/-! ## Options -/

/-- Whether an option was given on this level. -/
def has (s : Scan) (name : String) : Bool := s.given.any fun e => e.1 = name

/-- Note an option with its value. -/
def note (s : Scan) (name value : String) : Scan :=
  { s with given := s.given ++ [(name, value)], expected := .anything }

/-- An option without a value. -/
def flag (s : Scan) (o : OptionForm) : Except Stop Scan :=
  match o.sort with
  | .flag => if s.has o.name then .error .usage else .ok (s.note o.name "")
  | .stop reason => .error reason
  | .value _ _ _ => .ok { s with expected := .value o }

/-- An option with its value. -/
def value (s : Scan) (o : OptionForm) (v : String) : Except Stop Scan :=
  match o.sort with
  | .value accepts repeats _ =>
    if (!repeats && s.has o.name) || !accepts v then .error .usage else .ok (s.note o.name v)
  | _ => .error .usage

/-- A word behind two dashes: the name of an option, and its value behind an equals sign. -/
def named (s : Scan) (cs : List Char) : Except Stop Scan :=
  let parts := (Argument.splitFirst '=' cs).getD (cs, [])
  match s.level.options.find? fun o => o.name.toList = parts.1 with
  | none => .error .usage
  | some o => if '=' ∈ cs then s.value o (String.ofList parts.2) else s.flag o

/-- A word behind one dash: letters of options, the last one with its value attached. -/
def lettered (s : Scan) : List Char → Except Stop Scan
  | [] => .ok s
  | c :: cs =>
    match s.level.options.find? fun o => o.letter = some c with
    | none => .error .usage
    | some o =>
      match o.sort, cs with
      -- the value is what stands behind the letter, with or without an equals sign
      | .value _ _ _, '=' :: rest => s.value o (String.ofList rest)
      | .value _ _ _, d :: rest => s.value o (String.ofList (d :: rest))
      | _, _ =>
        match s.flag o with
        | .ok s => lettered s cs
        | .error reason => .error reason

/-- Whether a word may be the value of an option. -/
def isValue (negative : Bool) (word : String) : Bool :=
  match word.toList with
  -- a lone dash is an ordinary word
  | ['-'] => true
  | '-' :: cs => negative && cs.all Char.isDigit
  | _ => true

/-! ## Words -/

/-- A word that is no option. -/
def word (s : Scan) (w : String) : Except Stop Scan :=
  match s.level.words[s.words.length]? with
  | some accepts => if accepts w then .ok { s with words := s.words ++ [w] } else .error .usage
  | none => .error .usage

/-- Move down to a command. -/
def enter (s : Scan) (name : String) (l : Level) : Scan :=
  ⟨l, s.path ++ [name], s.above ++ s.given, [], [], .anything⟩

/-- A word that may name a command. -/
def wordOrCommand (s : Scan) (w : String) : Except Stop Scan :=
  match s.level.command? w with
  | some l => .ok (s.enter w l)
  | none =>
    -- where commands are, one may ask for help on them
    if w = "help" && !s.level.commands.isEmpty then .ok { s with expected := .topic } else s.word w

/-- A word where anything may stand. -/
def anything (s : Scan) (w : String) : Except Stop Scan :=
  match w.toList with
  | ['-', '-'] => .ok { s with expected := .word }
  | '-' :: '-' :: cs => s.named cs
  | '-' :: c :: cs => s.lettered (c :: cs)
  | _ => s.wordOrCommand w

/-- A word that is the value of an option. -/
def pending (s : Scan) (o : OptionForm) (w : String) : Except Stop Scan :=
  match o.sort with
  | .value _ _ negative => if isValue negative w then s.value o w else .error .usage
  | _ => .error .usage

/-- Take one word. -/
def take (s : Scan) (w : String) : Except Stop Scan :=
  match s.expected with
  | .anything => s.anything w
  | .value o => s.pending o w
  | .word => s.word w
  | .topic =>
    match s.level.command? w with
    | some l => .ok { s with level := l }
    | none => .error .usage

/-- Take words in order. -/
def takeAll (s : Scan) : List String → Except Stop Scan
  | [] => .ok s
  | w :: rest =>
    match s.take w with
    | .ok s => takeAll s rest
    | .error reason => .error reason

/-- The end of a command line. -/
def finish (s : Scan) : Except Stop Scan :=
  match s.expected with
  | .topic => .error .help
  | .value _ => .error .usage
  | _ => if s.words.length = s.level.words.length then .ok s else .error .usage

/-- Read a command line. -/
def read (l : Level) (line : List String) : Except Stop Scan :=
  match (start l).takeAll line with
  | .ok s => s.finish
  | .error reason => .error reason

/-! ## What was given -/

/-- All values of an option, in order. -/
def values (s : Scan) (name : String) : List String :=
  ((s.above ++ s.given).filter fun e => e.1 = name).map Prod.snd

/-- The value of an option; the deepest level counts. -/
def value? (s : Scan) (name : String) : Option String := (s.values name).getLast?

/-- Whether a flag is given on any level. -/
def isSet (s : Scan) (name : String) : Bool := (s.value? name).isSome

/-! ## Laws -/

/-- Reading words in two parts is reading them at once. -/
theorem takeAll_append (s : Scan) (as bs : List String) :
    s.takeAll (as ++ bs) = (s.takeAll as).bind fun s' => s'.takeAll bs := by
  induction as generalizing s with
  | nil => rfl
  | cons w as ih =>
    rw [List.cons_append, takeAll, takeAll]
    split
    · exact ih _
    · rfl

/-- Behind two dashes every word stands for itself. -/
theorem take_escaped {s : Scan} (h : s.expected = .word) (w : String) : s.take w = s.word w := by
  rw [take, h]

end Scan

end Backlog
