import Backlog.Json.Octets

/-!
# Lexemes of a relaxed document

A relaxed document says what a strict one says and allows more: comments and further blanks between
lexemes, single quotes and more escapes, names without quotes, numerals with a plus sign, without
digits on one side of the point or with hexadecimal digits, and words for what is no number. Its
text is a list of octets. Every reader takes one lexeme from the front of a text and gives what
follows.

## Main statements

* `skip_of_blank?_eq_none` — a text that starts with no blank is left as it is;
* `join_chunks_plain` — what holds no escape stands for itself.
-/

namespace Backlog.Json.Relaxed

/-! ## Blanks -/

/-- The code points of blanks. -/
def blankCodes : List Nat :=
  [0x09, 0x0A, 0x0B, 0x0C, 0x0D, 0x20, 0xA0, 0x1680, 0x2000, 0x2001, 0x2002, 0x2003, 0x2004, 0x2005,
    0x2006, 0x2007, 0x2008, 0x2009, 0x200A, 0x2028, 0x2029, 0x202F, 0x205F, 0x3000, 0xFEFF]

/-- What follows a comment that is closed by a star and a slash. -/
def closeComment : List Char → Option (List Char)
  | [] => none
  | '*' :: '/' :: rest => some rest
  | _ :: rest => closeComment rest

/-- What follows a line. -/
def endLine : List Char → List Char
  | [] => []
  | '\n' :: rest => rest
  | '\r' :: rest => rest
  -- the separators of lines and of paragraphs end a line too
  | '\xe2' :: '\x80' :: '\xa8' :: rest => rest
  | '\xe2' :: '\x80' :: '\xa9' :: rest => rest
  | _ :: rest => endLine rest

/-- What follows a blank or a comment. -/
def blank? : List Char → Option (List Char)
  | '/' :: '*' :: rest => closeComment rest
  | '/' :: '/' :: rest => some (endLine rest)
  | cs => blankCodes.findSome? fun n => (Text.octetsOfCode n).isPrefixOf? cs

/-- What follows all blanks and comments in front. -/
def skip (cs : List Char) : List Char :=
  match blank? cs with
  | none => cs
  -- a blank takes at least one octet
  | some rest => if rest.length < cs.length then skip rest else cs
termination_by cs.length

/-- A text that starts with no blank is left as it is. -/
theorem skip_of_blank?_eq_none {cs : List Char} (h : blank? cs = none) : skip cs = cs := by
  rw [skip, h]

/-! ## Quoted texts -/

/-- Whether two hexadecimal digits come first. -/
def startsHexPair : List Char → Bool
  | a :: b :: _ => (hexValue? a).isSome && (hexValue? b).isSome
  | _ => false

/-- Whether four hexadecimal digits come first. -/
def startsHexUnit : List Char → Bool
  | a :: b :: c :: d :: _ => (hexUnit? a b c d).isSome
  | _ => false

/-- Whether what follows the first octet of a separator of lines or of paragraphs comes first. -/
def startsSeparator : List Char → Bool
  | '\x80' :: '\xa8' :: _ => true
  | '\x80' :: '\xa9' :: _ => true
  | _ => false

/-- Whether an octet with the given text behind it may follow a backslash. -/
def isEscape (e : Char) (rest : List Char) : Bool :=
  if e = 'u' then startsHexUnit rest
  else if e = 'x' then startsHexPair rest
  -- a line may be broken behind a backslash
  else if e = '\xe2' then startsSeparator rest
  else "\"\\/bfnrtv0'\n\r".toList.contains e

/-- The inside of a quoted text as it is written, up to the closing quote, and what follows. -/
def quoted? (quote : Char) : List Char → Option (List Char × List Char)
  | [] => none
  | '\\' :: '\r' :: '\n' :: rest =>
    (quoted? quote rest).map fun r => ('\\' :: '\r' :: '\n' :: r.1, r.2)
  | '\\' :: e :: rest =>
    if isEscape e rest then (quoted? quote rest).map fun r => ('\\' :: e :: r.1, r.2) else none
  | c :: rest =>
    if c = quote then some ([], rest)
    else if c.toNat < 0x20 then none
    else (quoted? quote rest).map fun r => (c :: r.1, r.2)

/-- What a one-letter escape stands for; a broken line stands for nothing. -/
def escaped (e : Char) : Chunk :=
  if e = 'v' then .octets ['\x0b']
  else if e = '0' then .octets ['\x00']
  else if e = '\'' then .octets [e]
  else
    match escapeUnit? e with
    | some u => .unit u
    | none => .octets []

/-- The parts of the inside of a quoted text. -/
def chunks : List Char → List Chunk
  | [] => []
  | '\\' :: 'u' :: a :: b :: c :: d :: rest =>
    .unit ((hexUnit? a b c d).getD 0) :: chunks rest
  | '\\' :: 'x' :: a :: b :: rest =>
    -- two digits name an octet, whatever it is
    .octets [Text.octet ((hexValue? a).getD 0 * 16 + (hexValue? b).getD 0)] :: chunks rest
  | '\\' :: '\r' :: '\n' :: rest => chunks rest
  | '\\' :: '\xe2' :: _ :: _ :: rest => chunks rest
  | '\\' :: e :: rest => escaped e :: chunks rest
  | c :: rest => .octets [c] :: chunks rest

/-- What holds no escape stands for itself. -/
theorem join_chunks_plain {cs : List Char} (h : '\\' ∉ cs) : Chunk.join (chunks cs) = cs := by
  induction cs with
  | nil => rfl
  | cons c cs ih =>
    rw [List.mem_cons, not_or] at h
    have hc : chunks (c :: cs) = .octets [c] :: chunks cs := by
      rw [chunks.eq_def]
      split <;> simp_all
    rw [hc, Chunk.join, Chunk.joinAfter]
    exact congrArg (c :: ·) (ih h.2)

/-! ## Words -/

/-- Whether a word stands for a value. Some words do so in letters of any case. -/
def isValueWord (word : List Char) : Bool :=
  ["true", "false", "null"].contains (String.ofList word)
    || ["nan", "qnan", "snan", "inf", "infinity"].contains
      (String.ofList (word.map Char.toLower))

/-- What follows a word that stands for a value. -/
def word? (cs : List Char) : Option (List Char) :=
  if isValueWord (cs.takeWhile Char.isAlphanum) then some (cs.dropWhile Char.isAlphanum) else none

/-! ## Numerals -/

/-- What follows the exponent of a numeral, from its mark on, if there is one. Neither a point nor a
second exponent follows an exponent. -/
def exponent? : List Char → Option (List Char)
  | [] => some []
  | c :: rest =>
    if c = 'e' ∨ c = 'E' then
      let digits :=
        match rest with
        | '+' :: r => r
        | '-' :: r => r
        | r => r
      match digits.takeWhile Char.isDigit, digits.dropWhile Char.isDigit with
      | [], _ => none
      | _, [] => some []
      | _, d :: r => if d = '.' ∨ d = 'e' ∨ d = 'E' then none else some (d :: r)
    else if c = '.' then none
    else some (c :: rest)

/-- What follows digits with or without a point among them, and an exponent. -/
def decimal? (cs : List Char) : Option (List Char) :=
  match cs.dropWhile Char.isDigit with
  | '.' :: rest =>
    -- one side of the point may be empty, but not both
    if (cs.takeWhile Char.isDigit).isEmpty && (rest.takeWhile Char.isDigit).isEmpty then none
    else exponent? (rest.dropWhile Char.isDigit)
  | rest => if (cs.takeWhile Char.isDigit).isEmpty then none else exponent? rest

/-- What follows a numeral without a sign that starts with a digit. -/
def unsigned? : List Char → Option (List Char)
  | '0' :: x :: h :: rest =>
    if (x = 'x' ∨ x = 'X') ∧ (hexValue? h).isSome then
      some (rest.dropWhile fun c => (hexValue? c).isSome)
    else if x.isDigit then none
    else decimal? ('0' :: x :: h :: rest)
  | ['0', x] => if x.isDigit then none else decimal? ['0', x]
  | cs => decimal? cs

/-- What follows the word for an infinite number behind a sign. -/
def infinite? (cs : List Char) : Option (List Char) :=
  let small := cs.map Char.toLower
  if "infinity".toList.isPrefixOf small then some (cs.drop 8)
  else if "inf".toList.isPrefixOf small then some (cs.drop 3)
  else none

/-- What follows a numeral. -/
def numeral? (cs : List Char) : Option (List Char) :=
  match cs with
  | [] => none
  | c :: rest =>
    if c = '+' ∨ c = '-' then
      match rest with
      | [] => none
      | d :: _ => if d.isDigit then unsigned? rest else (infinite? rest).or (decimal? rest)
    else if c.isDigit then unsigned? cs
    else if c = '.' then decimal? cs
    else none

/-! ## Names -/

/-- Whether an octet may start a name that stands without quotes. -/
def isNameStart (c : Char) : Bool := c.isAlpha || c = '_' || c = '$' || 0x80 ≤ c.toNat

/-- Whether an octet may stand in such a name. -/
def isNamePart (c : Char) : Bool := isNameStart c || c.isDigit

/-- Whether an escape of a unit comes first. -/
def startsUnit : List Char → Bool
  | '\\' :: 'u' :: rest => startsHexUnit rest
  | _ => false

/-- The octets of a name after its first one, as they are written, and what follows. -/
def nameTail : List Char → List Char × List Char
  | [] => ([], [])
  | c :: rest =>
    -- a blank ends a name even where its first octet would do
    if isNamePart c && (blank? (c :: rest)).isNone || startsUnit (c :: rest) then
      let r := nameTail rest
      (c :: r.1, r.2)
    else ([], c :: rest)

/-- A name without quotes, as it is written, and what follows. A word for a value is no name. -/
def name? (cs : List Char) : Option (List Char × List Char) :=
  match cs with
  | [] => none
  | c :: rest =>
    if (isNameStart c || startsUnit cs) && (word? cs).isNone then
      let r := nameTail rest
      some (c :: r.1, r.2)
    else none

end Backlog.Json.Relaxed
