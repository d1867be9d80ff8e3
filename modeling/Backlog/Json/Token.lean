import Backlog.Json.Literal
import Backlog.Json.Numeral

/-!
# Tokens of a JSON text

A text is cut into brackets, commas, colons, words, numerals and quoted texts; space, tab, line
feed and carriage return between them are skipped. Any other character outside quotes is
refused. Two numerals or words without a separator come out as two tokens, which no value allows.

## Main statements

* `length_token?` — a token takes at least one character;
* `tokens_cons_of_token?`, `tokens_cons_of_space` — how the token list unfolds.
-/

namespace Backlog.Json

/-- A token of a JSON text. -/
inductive Token
  | openObject
  | closeObject
  | openArray
  | closeArray
  | comma
  | colon
  | null
  | bool (b : Bool)
  | number (n : Numeral)
  | string (s : Literal)
  deriving DecidableEq, Repr

/-- The characters between tokens. -/
def isSpace (c : Char) : Bool := c = ' ' || c = '\t' || c = '\n' || c = '\r'

/-! ## Numerals -/

/-- At least one digit. -/
def scanDigits? (cs : List Char) : Option (List Char × List Char) :=
  match cs.takeWhile Char.isDigit with
  | [] => none
  | d :: ds => some (d :: ds, cs.dropWhile Char.isDigit)

/-- A fraction, if one starts here. -/
def scanFraction? : List Char → Option (Option (List Char) × List Char)
  | '.' :: rest =>
    match scanDigits? rest with
    | some (ds, rest) => some (some ds, rest)
    | none => none
  | cs => some (none, cs)

/-- The sign of an exponent and the characters after it. -/
def scanSign : List Char → Bool × List Char
  | '-' :: rest => (true, rest)
  | '+' :: rest => (false, rest)
  | cs => (false, cs)

/-- The digits of an exponent after its mark. -/
def scanExponentBody? (cs : List Char) : Option (Option Numeral.Exponent × List Char) :=
  match scanDigits? (scanSign cs).2 with
  | some (ds, rest) => some (some ⟨(scanSign cs).1, ds⟩, rest)
  | none => none

/-- An exponent, if one starts here. -/
def scanExponent? : List Char → Option (Option Numeral.Exponent × List Char)
  | 'e' :: rest => scanExponentBody? rest
  | 'E' :: rest => scanExponentBody? rest
  | cs => some (none, cs)

/-- Digits without a needless zero in front, a fraction and an exponent. -/
def scanUnsigned? (negative : Bool) (cs : List Char) : Option (Numeral × List Char) :=
  match scanDigits? cs with
  | some (whole, rest) =>
    -- a zero in front is the only digit
    if whole.head? = some '0' ∧ whole ≠ ['0'] then none
    else
      match scanFraction? rest with
      | some (fraction, rest) =>
        match scanExponent? rest with
        | some (exponent, rest) => some (⟨negative, whole, fraction, exponent⟩, rest)
        | none => none
      | none => none
  | none => none

/-- A numeral. -/
def scanNumeral? : List Char → Option (Numeral × List Char)
  | '-' :: rest => scanUnsigned? true rest
  | cs => scanUnsigned? false cs

/-! ### The scanners consume what they read -/

theorem length_scanDigits? {cs ds r : List Char} (h : scanDigits? cs = some (ds, r)) :
    r.length < cs.length := by
  unfold scanDigits? at h
  split at h
  · simp at h
  · next d ds' ht =>
    simp only [Option.some.injEq, Prod.mk.injEq] at h
    -- the digits and the rest make up the input, and there is one digit at least
    have hl := congrArg List.length (List.takeWhile_append_dropWhile (p := Char.isDigit) (l := cs))
    rw [List.length_append, ht] at hl
    rw [← h.2]
    simp only [List.length_cons] at hl
    omega

theorem length_scanFraction? {cs r : List Char} {f : Option (List Char)}
    (h : scanFraction? cs = some (f, r)) : r.length ≤ cs.length := by
  unfold scanFraction? at h
  split at h
  · split at h
    · next hd =>
      have := length_scanDigits? hd
      simp only [Option.some.injEq, Prod.mk.injEq] at h
      rw [← h.2, List.length_cons]
      omega
    · simp at h
  · simp only [Option.some.injEq, Prod.mk.injEq] at h
    exact h.2 ▸ Nat.le_refl _

theorem length_scanSign (cs : List Char) : (scanSign cs).2.length ≤ cs.length := by
  unfold scanSign
  split <;> simp

theorem length_scanExponentBody? {cs r : List Char} {e : Option Numeral.Exponent}
    (h : scanExponentBody? cs = some (e, r)) : r.length ≤ cs.length := by
  unfold scanExponentBody? at h
  split at h
  · next hd =>
    have := length_scanDigits? hd
    have := length_scanSign cs
    simp only [Option.some.injEq, Prod.mk.injEq] at h
    rw [← h.2]
    omega
  · simp at h

theorem length_scanExponent? {cs r : List Char} {e : Option Numeral.Exponent}
    (h : scanExponent? cs = some (e, r)) : r.length ≤ cs.length := by
  unfold scanExponent? at h
  split at h
  · have := length_scanExponentBody? h
    simp only [List.length_cons]
    omega
  · have := length_scanExponentBody? h
    simp only [List.length_cons]
    omega
  · simp only [Option.some.injEq, Prod.mk.injEq] at h
    exact h.2 ▸ Nat.le_refl _

theorem length_scanUnsigned? {neg : Bool} {cs r : List Char} {n : Numeral}
    (h : scanUnsigned? neg cs = some (n, r)) : r.length < cs.length := by
  unfold scanUnsigned? at h
  split at h
  · next hd =>
    split at h
    · simp at h
    · split at h
      · next hf =>
        split at h
        · next he =>
          have := length_scanDigits? hd
          have := length_scanFraction? hf
          have := length_scanExponent? he
          simp only [Option.some.injEq, Prod.mk.injEq] at h
          rw [← h.2]
          omega
        · simp at h
      · simp at h
  · simp at h

theorem length_scanNumeral? {cs r : List Char} {n : Numeral}
    (h : scanNumeral? cs = some (n, r)) : r.length < cs.length := by
  unfold scanNumeral? at h
  split at h
  · have := length_scanUnsigned? h
    simp only [List.length_cons]
    omega
  · exact length_scanUnsigned? h

/-! ## The token at the front -/

/-- Pair a scanned numeral or literal with its token. -/
def tokenOf {α : Type} (f : α → Token) : Option (α × List Char) → Option (Token × List Char)
  | some (a, rest) => some (f a, rest)
  | none => none

/-- The token that starts with the given character. -/
def token? (c : Char) (rest : List Char) : Option (Token × List Char) :=
  if c = '{' then some (.openObject, rest)
  else if c = '}' then some (.closeObject, rest)
  else if c = '[' then some (.openArray, rest)
  else if c = ']' then some (.closeArray, rest)
  else if c = ',' then some (.comma, rest)
  else if c = ':' then some (.colon, rest)
  else if c = '"' then tokenOf .string (Literal.scan rest)
  else if c = 'n' then
    match rest with
    | 'u' :: 'l' :: 'l' :: r => some (.null, r)
    | _ => none
  else if c = 't' then
    match rest with
    | 'r' :: 'u' :: 'e' :: r => some (.bool true, r)
    | _ => none
  else if c = 'f' then
    match rest with
    | 'a' :: 'l' :: 's' :: 'e' :: r => some (.bool false, r)
    | _ => none
  else tokenOf .number (scanNumeral? (c :: rest))

theorem eq_of_tokenOf {α : Type} {f : α → Token} {o : Option (α × List Char)} {t : Token}
    {r : List Char} (h : tokenOf f o = some (t, r)) : ∃ a, o = some (a, r) ∧ t = f a := by
  match o, h with
  | some (a, r'), h =>
    simp only [tokenOf, Option.some.injEq, Prod.mk.injEq] at h
    exact ⟨a, by rw [h.2], h.1.symm⟩

/-- A token takes at least one character. -/
theorem length_token? {c : Char} {rest r : List Char} {t : Token}
    (h : token? c rest = some (t, r)) : r.length ≤ rest.length := by
  unfold token? at h
  repeat' split at h
  all_goals first
    | (obtain ⟨-, rfl⟩ := Prod.mk.inj (Option.some.inj h)
       first
         | exact Nat.le_refl _
         | (simp only [List.length_cons]; omega))
    | (obtain ⟨a, ha, -⟩ := eq_of_tokenOf h
       first
         | (have hl := Literal.length_scan ha; omega)
         | (have hl := length_scanNumeral? ha; simp only [List.length_cons] at hl; omega))
    | simp at h

/-! ## All tokens -/

/-- Cut a text into tokens. -/
def tokens : List Char → Option (List Token)
  | [] => some []
  | c :: rest =>
    if isSpace c then tokens rest
    else
      match _h : token? c rest with
      | some (t, rest') => (tokens rest').map (t :: ·)
      | none => none
termination_by cs => cs.length
decreasing_by
  · simp
  · have := length_token? _h
    simp only [List.length_cons]
    omega

@[simp] theorem tokens_nil : tokens [] = some [] := by rw [tokens]

/-- A space between tokens is skipped. -/
theorem tokens_cons_of_space {c : Char} {rest : List Char} (h : isSpace c = true) :
    tokens (c :: rest) = tokens rest := by
  rw [tokens, if_pos h]

/-- The first token stands in front of the tokens of the rest. -/
theorem tokens_cons_of_token? {c : Char} {rest r : List Char} {t : Token}
    (hs : isSpace c = false) (h : token? c rest = some (t, r)) :
    tokens (c :: rest) = (tokens r).map (t :: ·) := by
  rw [tokens, if_neg (by simp [hs])]
  split
  · next t' r' h' =>
    rw [h] at h'
    simp only [Option.some.injEq, Prod.mk.injEq] at h'
    rw [h'.1, h'.2]
  · next h' =>
    rw [h] at h'
    simp at h'

end Backlog.Json
