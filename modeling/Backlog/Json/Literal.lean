/-!
# Quoted texts

Inside quotes a character stands for itself, or an escape names a UTF-16 code unit. A `Literal`
keeps that difference, and how an escape is spelled, because readers disagree about it: a strict
reader pairs the units of characters beyond U+FFFF and refuses a unit that stands alone, while a
label that is compared as it is written is another one for every spelling.

## Main statements

* `Literal.scan_quote` — the scanner takes back what the writer quotes, whatever follows;
* `Literal.chars?_quote` — the quoted form of a text stands for that text;
* `Literal.written_ofChars` — and it is written as the writer quotes it;
* `Literal.length_scan` — the scanner consumes at least the closing quote.
-/

namespace Backlog.Json

/-- A part of a quoted text: a character, or an escape that names a UTF-16 code unit, with what
stands behind its backslash. -/
inductive Piece
  | plain (c : Char)
  | code (unit : Nat) (spelled : List Char)
  deriving DecidableEq, Repr

/-- A quoted text as written, without the quotes. -/
abbrev Literal := List Piece

/-! ## Scanning -/

/-- The value of a hexadecimal digit of either case. -/
def hexValue? (c : Char) : Option Nat :=
  if '0' ≤ c ∧ c ≤ '9' then some (c.toNat - 48)
  else if 'a' ≤ c ∧ c ≤ 'f' then some (c.toNat - 87)
  else if 'A' ≤ c ∧ c ≤ 'F' then some (c.toNat - 55)
  else none

/-- The value of four hexadecimal digits. -/
def hexUnit? (a b c d : Char) : Option Nat :=
  match hexValue? a, hexValue? b, hexValue? c, hexValue? d with
  | some a, some b, some c, some d => some (((a * 16 + b) * 16 + c) * 16 + d)
  | _, _, _, _ => none

/-- The code unit of a one-letter escape. -/
def escapeUnit? (c : Char) : Option Nat :=
  if c = '"' then some 0x22
  else if c = '\\' then some 0x5C
  else if c = '/' then some 0x2F
  else if c = 'b' then some 0x08
  else if c = 'f' then some 0x0C
  else if c = 'n' then some 0x0A
  else if c = 'r' then some 0x0D
  else if c = 't' then some 0x09
  else none

namespace Literal

/-- Put a piece in front of a scanned rest. -/
def push (p : Piece) : Option (Literal × List Char) → Option (Literal × List Char)
  | some (ps, rest) => some (p :: ps, rest)
  | none => none

/-- Read up to the closing quote. Control characters have to be escaped. -/
def scan : List Char → Option (Literal × List Char)
  | [] => none
  | '"' :: rest => some ([], rest)
  | '\\' :: 'u' :: a :: b :: c :: d :: rest =>
    match hexUnit? a b c d with
    | some u => push (.code u ['u', a, b, c, d]) (scan rest)
    | none => none
  | '\\' :: e :: rest =>
    match escapeUnit? e with
    | some u => push (.code u [e]) (scan rest)
    | none => none
  | '\\' :: [] => none
  | c :: rest => if c.toNat < 0x20 then none else push (.plain c) (scan rest)

theorem eq_of_push {p : Piece} {o : Option (Literal × List Char)} {l : Literal} {r : List Char}
    (h : push p o = some (l, r)) : ∃ l', o = some (l', r) ∧ l = p :: l' := by
  match o, h with
  | some (l', r'), h =>
    simp only [push, Option.some.injEq, Prod.mk.injEq] at h
    exact ⟨l', by rw [h.2], h.1.symm⟩

/-- The scanner consumes at least the closing quote. -/
theorem length_scan {cs : List Char} {l : Literal} {r : List Char}
    (h : scan cs = some (l, r)) : r.length < cs.length := by
  fun_induction scan cs generalizing l with
  | case1 => simp at h
  | case2 rest =>
    simp only [Option.some.injEq, Prod.mk.injEq] at h
    simp [h.2]
  | case3 a b c d rest u hu ih =>
    obtain ⟨l', hl, -⟩ := eq_of_push h
    have := ih hl
    simp only [List.length_cons]
    omega
  | case4 => simp at h
  | case5 e rest _ _ _ ih =>
    obtain ⟨l', hl, -⟩ := eq_of_push h
    have := ih hl
    simp only [List.length_cons]
    omega
  | case6 => simp at h
  | case7 => simp at h
  | case8 => simp at h
  | case9 c rest _ _ _ _ _ ih =>
    obtain ⟨l', hl, -⟩ := eq_of_push h
    have := ih hl
    simp only [List.length_cons]
    omega

/-! ## Meaning -/

/-- The first unit of a pair. -/
def isHigh (u : Nat) : Bool := 0xD800 ≤ u && u < 0xDC00

/-- The second unit of a pair. -/
def isLow (u : Nat) : Bool := 0xDC00 ≤ u && u < 0xE000

/-- The character of a pair of units. -/
def joined (high low : Nat) : Char :=
  Char.ofNat (0x10000 + (high - 0xD800) * 0x400 + (low - 0xDC00))

/-- The characters of pieces, after a first unit that still waits for its second. -/
def charsAfter : Option Nat → Literal → Option (List Char)
  | none, [] => some []
  | some _, [] => none
  | none, .plain c :: ps => (charsAfter none ps).map (c :: ·)
  | some _, .plain _ :: _ => none
  | none, .code u _ :: ps =>
    if isHigh u then charsAfter (some u) ps
    else if isLow u then none
    else (charsAfter none ps).map (Char.ofNat u :: ·)
  | some h, .code u _ :: ps =>
    if isLow u then (charsAfter none ps).map (joined h u :: ·) else none

/-- The characters that a quoted text stands for; `none` when half of a pair stands alone. -/
def chars? (l : Literal) : Option (List Char) := charsAfter none l

/-- The text that a quoted text stands for. -/
def text? (l : Literal) : Option String := l.chars?.map String.ofList

/-- A part of a quoted text as it is written. -/
def writtenPiece : Piece → List Char
  | .plain c => [c]
  | .code _ spelled => '\\' :: spelled

/-- A quoted text as it is written. -/
def written (l : Literal) : List Char := l.flatMap writtenPiece

/-! ## Quoting -/

/-- The small hexadecimal digit of a value below sixteen. -/
def hexDigit (n : Nat) : Char := if n < 10 then Char.ofNat (48 + n) else Char.ofNat (87 + n)

/-- What stands behind the backslash of a character that is escaped: the quote, the backslash and
control characters are. -/
def escape? (c : Char) : Option (List Char) :=
  if c = '"' then some ['"']
  else if c = '\\' then some ['\\']
  else if c = '\x08' then some ['b']
  else if c = '\x0c' then some ['f']
  else if c = '\n' then some ['n']
  else if c = '\r' then some ['r']
  else if c = '\t' then some ['t']
  else if c.toNat < 0x20 then
    some ['u', '0', '0', hexDigit (c.toNat / 16), hexDigit (c.toNat % 16)]
  else none

/-- A character inside quotes. -/
def quoteChar (c : Char) : List Char :=
  match escape? c with
  | some spelled => '\\' :: spelled
  | none => [c]

/-- The piece that a written character reads as. -/
def pieceOf (c : Char) : Piece :=
  match escape? c with
  | some spelled => .code c.toNat spelled
  | none => .plain c

/-- The literal that a written text reads as. -/
def ofChars (cs : List Char) : Literal := cs.map pieceOf

/-- The inside of a quoted text. -/
def quote (cs : List Char) : List Char := cs.flatMap quoteChar

theorem escape?_eq_none_iff {c : Char} :
    escape? c = none ↔ c ≠ '"' ∧ c ≠ '\\' ∧ 0x20 ≤ c.toNat := by
  constructor
  · intro h
    refine ⟨?_, ?_, Nat.le_of_not_lt fun hlow => ?_⟩
    · rintro rfl
      exact absurd h (by decide)
    · rintro rfl
      exact absurd h (by decide)
    · -- a control character has one of the escapes
      unfold escape? at h
      rw [if_pos hlow] at h
      repeat' split at h
      all_goals simp at h
  · rintro ⟨hquote, hback, hlow⟩
    have hne : ∀ d : Char, d.toNat < 0x20 → c ≠ d := by
      rintro d hd rfl
      omega
    rw [escape?, if_neg hquote, if_neg hback, if_neg (hne _ (by decide)),
      if_neg (hne _ (by decide)), if_neg (hne _ (by decide)), if_neg (hne _ (by decide)),
      if_neg (hne _ (by decide)), if_neg (by omega)]

/-- What is escaped is no half of a pair. -/
theorem toNat_lt_of_escape? {c : Char} {spelled : List Char} (h : escape? c = some spelled) :
    c.toNat < 0x80 := by
  refine Nat.lt_of_not_le fun hlarge => ?_
  have hnone : escape? c = none := by
    refine escape?_eq_none_iff.mpr ⟨?_, ?_, by omega⟩
    · rintro rfl
      exact absurd hlarge (by decide)
    · rintro rfl
      exact absurd hlarge (by decide)
  exact absurd (h.symm.trans hnone) (by simp)

theorem hexValue?_hexDigit : ∀ n, n < 16 → hexValue? (hexDigit n) = some n := by decide

/-- An escape is read as it is spelled. -/
theorem scan_escape {c : Char} {spelled : List Char} (h : escape? c = some spelled)
    (rest : List Char) :
    scan ('\\' :: spelled ++ rest) = push (.code c.toNat spelled) (scan rest) := by
  unfold escape? at h
  split at h
  · next hc => subst hc; cases h; rfl
  split at h
  · next hc => subst hc; cases h; rfl
  split at h
  · next hc => subst hc; cases h; rfl
  split at h
  · next hc => subst hc; cases h; rfl
  split at h
  · next hc => subst hc; cases h; rfl
  split at h
  · next hc => subst hc; cases h; rfl
  split at h
  · next hc => subst hc; cases h; rfl
  split at h
  · next hc =>
    -- a control character in four digits: two zeros and its own two
    have h0 : hexValue? '0' = some 0 := by decide
    have h1 := hexValue?_hexDigit (c.toNat / 16) (by omega)
    have h2 := hexValue?_hexDigit (c.toNat % 16) (by omega)
    obtain rfl := Option.some.inj h
    simp only [List.cons_append, List.nil_append]
    rw [scan, hexUnit?, h0, h1, h2]
    simp only
    congr 2
    omega
  · exact nomatch h

/-- What is not escaped stands for itself. -/
theorem scan_plain {c : Char} (h : escape? c = none) (rest : List Char) :
    scan (c :: rest) = push (.plain c) (scan rest) := by
  obtain ⟨hquote, hback, hlow⟩ := escape?_eq_none_iff.mp h
  rw [scan]
  · exact if_neg (by omega)
  · exact hquote
  · rintro _ _ _ _ _ rfl
    exact absurd rfl hback
  · rintro _ _ rfl
    exact absurd rfl hback
  · rintro rfl
    exact absurd rfl hback

theorem scan_quoteChar (c : Char) (rest : List Char) :
    scan (quoteChar c ++ rest) = push (pieceOf c) (scan rest) := by
  unfold quoteChar pieceOf
  split
  · next h => exact scan_escape h rest
  · next h => exact scan_plain h rest

/-- The scanner takes back what the writer quotes, whatever follows. -/
theorem scan_quote (cs rest : List Char) :
    scan (quote cs ++ '"' :: rest) = some (ofChars cs, rest) := by
  induction cs with
  | nil => simp [quote, ofChars, scan]
  | cons c cs ih =>
    rw [quote, List.flatMap_cons, List.append_assoc, scan_quoteChar]
    rw [quote] at ih
    rw [ih]
    rfl

/-- The quoted form of a text stands for that text. -/
theorem chars?_quote (cs : List Char) : chars? (ofChars cs) = some cs := by
  induction cs with
  | nil => rfl
  | cons c cs ih =>
    unfold chars? ofChars at *
    rw [List.map_cons, pieceOf]
    split
    · next h =>
      have hlow := toNat_lt_of_escape? h
      rw [charsAfter, if_neg (by simp [isHigh]; omega), if_neg (by simp [isLow]; omega), ih]
      simp
    · rw [charsAfter, ih]
      rfl

theorem writtenPiece_pieceOf (c : Char) : writtenPiece (pieceOf c) = quoteChar c := by
  unfold pieceOf quoteChar
  cases escape? c <;> rfl

/-- A text that was read from what the writer quotes is written as it was. -/
theorem written_ofChars (cs : List Char) : written (ofChars cs) = quote cs := by
  rw [written, ofChars, List.flatMap_map, quote]
  exact congrArg (cs.flatMap ·) (funext writtenPiece_pieceOf)

end Literal

end Backlog.Json
