/-!
# Quoted texts of a TOML file

There are four kinds. Texts in double quotes know escapes, texts in single quotes stand for
themselves; three quotes open a text of several lines, which may hold one or two quotes and loses
a line break at its start. A backslash at the end of a line joins the lines. Line breaks count as a
line feed however they are written.

## Main statements

* `literal_length`, `basic_length` — a scanned text takes at least its closing quote.
-/

namespace Backlog.Toml

/-- A blank within a line. -/
def isSpace (c : Char) : Bool := c = ' ' || c = '\t'

/-- A character that may stand in a text or a comment: no control character but the tabulator. -/
def isOrdinary (c : Char) : Bool := c = '\t' || (0x20 ≤ c.toNat && c.toNat ≠ 0x7F)

/-- Put a character in front of a scanned text. -/
def push (c : Char) : Option (List Char × List Char) → Option (List Char × List Char)
  | some (cs, rest) => some (c :: cs, rest)
  | none => none

/-! ## Escapes -/

/-- The value of a hexadecimal digit of either case. -/
def hexValue? (c : Char) : Option Nat :=
  if '0' ≤ c ∧ c ≤ '9' then some (c.toNat - 48)
  else if 'a' ≤ c ∧ c ≤ 'f' then some (c.toNat - 87)
  else if 'A' ≤ c ∧ c ≤ 'F' then some (c.toNat - 55)
  else none

/-- The value of hexadecimal digits, appended to a value. -/
def hexNumber? (acc : Nat) : List Char → Option Nat
  | [] => some acc
  | c :: cs => (hexValue? c).bind fun v => hexNumber? (acc * 16 + v) cs

/-- The character with a code point in hexadecimal digits. -/
def codePoint? (ds : List Char) : Option Char :=
  match hexNumber? 0 ds with
  | some n => if n.isValidChar then some (Char.ofNat n) else none
  | none => none

/-- The character of a one-letter escape. -/
def escape? (c : Char) : Option Char :=
  if c = 'b' then some '\x08'
  else if c = 't' then some '\t'
  else if c = 'n' then some '\n'
  else if c = 'f' then some '\x0c'
  else if c = 'r' then some '\r'
  else if c = '"' then some '"'
  else if c = '\\' then some '\\'
  else none

/-! ## On one line -/

/-- A text in single quotes, behind the opening one. -/
def literal : List Char → Option (List Char × List Char)
  | [] => none
  | c :: rest =>
    if c = '\'' then some ([], rest) else if isOrdinary c then push c (literal rest) else none

/-- A text in double quotes, behind the opening one. -/
def basic : List Char → Option (List Char × List Char)
  | [] => none
  | '"' :: rest => some ([], rest)
  | '\\' :: 'u' :: a :: b :: c :: d :: rest =>
    match codePoint? [a, b, c, d] with
    | some x => push x (basic rest)
    | none => none
  | '\\' :: 'U' :: a :: b :: c :: d :: e :: f :: g :: h :: rest =>
    match codePoint? [a, b, c, d, e, f, g, h] with
    | some x => push x (basic rest)
    | none => none
  | '\\' :: e :: rest =>
    match escape? e with
    | some x => push x (basic rest)
    | none => none
  | '\\' :: [] => none
  | c :: rest => if isOrdinary c then push c (basic rest) else none

/-! ## On several lines -/

/-- The rest behind a line break. -/
def lineBreak? : List Char → Option (List Char)
  | '\n' :: rest => some rest
  | '\r' :: '\n' :: rest => some rest
  | _ => none

/-- The rest behind a line break, if there is one here. -/
def afterLineBreak (cs : List Char) : List Char := (lineBreak? cs).getD cs

/-- Whether nothing but blanks stands before the end of the line. -/
def endsLine (cs : List Char) : Bool := (lineBreak? (cs.dropWhile isSpace)).isSome

/-- A text in three single quotes, behind the opening ones and a line break. -/
def multiLiteral : List Char → Option (List Char × List Char)
  | [] => none
  -- up to two quotes in front of the closing ones belong to the text
  | '\'' :: '\'' :: '\'' :: '\'' :: '\'' :: rest => some (['\'', '\''], rest)
  | '\'' :: '\'' :: '\'' :: '\'' :: rest => some (['\''], rest)
  | '\'' :: '\'' :: '\'' :: rest => some ([], rest)
  | '\r' :: '\n' :: rest => push '\n' (multiLiteral rest)
  | c :: rest => if c = '\n' || isOrdinary c then push c (multiLiteral rest) else none

/-- A text in three double quotes, behind the opening ones and a line break. Behind a backslash at
the end of a line, blanks and line breaks are skipped. -/
def multiBasic (skip : Bool) : List Char → Option (List Char × List Char)
  | [] => none
  | '"' :: '"' :: '"' :: '"' :: '"' :: rest => some (['"', '"'], rest)
  | '"' :: '"' :: '"' :: '"' :: rest => some (['"'], rest)
  | '"' :: '"' :: '"' :: rest => some ([], rest)
  | '\\' :: 'u' :: a :: b :: c :: d :: rest =>
    match codePoint? [a, b, c, d] with
    | some x => push x (multiBasic false rest)
    | none => none
  | '\\' :: 'U' :: a :: b :: c :: d :: e :: f :: g :: h :: rest =>
    match codePoint? [a, b, c, d, e, f, g, h] with
    | some x => push x (multiBasic false rest)
    | none => none
  | '\\' :: e :: rest =>
    match escape? e with
    | some x => push x (multiBasic false rest)
    -- no escape: then only the end of the line may follow
    | none => if endsLine (e :: rest) then multiBasic true rest else none
  | '\\' :: [] => none
  | '\r' :: '\n' :: rest => if skip then multiBasic true rest else push '\n' (multiBasic false rest)
  | c :: rest =>
    if skip && (c = '\n' || isSpace c) then multiBasic true rest
    else if c = '\n' || isOrdinary c then push c (multiBasic false rest)
    else none

/-- A text in quotes of any kind. -/
def quoted? : List Char → Option (List Char × List Char)
  | '"' :: '"' :: '"' :: rest => multiBasic false (afterLineBreak rest)
  | '"' :: rest => basic rest
  | '\'' :: '\'' :: '\'' :: rest => multiLiteral (afterLineBreak rest)
  | '\'' :: rest => literal rest
  | _ => none

/-! ## Lengths -/

theorem eq_of_push {c : Char} {o : Option (List Char × List Char)} {l r : List Char}
    (h : push c o = some (l, r)) : ∃ l', o = some (l', r) ∧ l = c :: l' := by
  match o, h with
  | some (l', r'), h =>
    simp only [push, Option.some.injEq, Prod.mk.injEq] at h
    exact ⟨l', by rw [h.2], h.1.symm⟩

/-- A scanned text takes at least its closing quote. -/
theorem literal_length {cs l r : List Char} (h : literal cs = some (l, r)) :
    r.length < cs.length := by
  fun_induction literal cs generalizing l with
  | case1 => simp at h
  | case2 rest =>
    simp only [Option.some.injEq, Prod.mk.injEq] at h
    simp [h.2]
  | case3 c rest _ _ ih =>
    obtain ⟨l', hl, -⟩ := eq_of_push h
    have := ih hl
    simp only [List.length_cons]
    omega
  | case4 => simp at h

/-- A scanned text takes at least its closing quote. -/
theorem basic_length {cs l r : List Char} (h : basic cs = some (l, r)) :
    r.length < cs.length := by
  fun_induction basic cs generalizing l with
  | case1 => simp at h
  | case2 rest =>
    simp only [Option.some.injEq, Prod.mk.injEq] at h
    simp [h.2]
  | case3 a b c d rest x hx ih =>
    obtain ⟨l', hl, -⟩ := eq_of_push h
    have := ih hl
    simp only [List.length_cons]
    omega
  | case4 => simp at h
  | case5 a b c d e f g i rest x hx ih =>
    obtain ⟨l', hl, -⟩ := eq_of_push h
    have := ih hl
    simp only [List.length_cons]
    omega
  | case6 => simp at h
  | case7 e rest _ _ x hx ih =>
    obtain ⟨l', hl, -⟩ := eq_of_push h
    have := ih hl
    simp only [List.length_cons]
    omega
  | case8 => simp at h
  | case9 => simp at h
  | case10 c rest _ _ _ _ _ _ ih =>
    obtain ⟨l', hl, -⟩ := eq_of_push h
    have := ih hl
    simp only [List.length_cons]
    omega
  | case11 => simp at h

end Backlog.Toml
