import Backlog.Json.Basic

/-!
# Numerals of a JSON text

A numeral is what stands in the text: a sign, digits, perhaps a fraction, perhaps an exponent.
Its value is found in one of two ways.

* Digits alone whose value fits 64 bits (unsigned, or signed below zero) are an exact integer; a
  zero with a sign is not.
* Any other numeral is a floating-point number: as many digits as fit 64 bits are the
  significand, digits beyond them only move the point, and the significand is multiplied or
  divided once by a power of ten (repeatedly below `10 ^ -308`). So the last bit may differ from
  the nearest number of the text; a value beyond the largest number is no number at all.

## Main statements

* `Numeral.number?_ofInt` — the numeral of an integer in range has that integer as its value.
-/

namespace Backlog

/-- An exponent as written: its sign and digits. -/
structure Numeral.Exponent where
  negative : Bool
  digits : List Char
  deriving DecidableEq, Repr

/-- A number as written. -/
structure Numeral where
  negative : Bool
  whole : List Char
  fraction : Option (List Char)
  exponent : Option Numeral.Exponent
  deriving DecidableEq, Repr

namespace Numeral

/-- The greatest significand. -/
def greatestSignificand : Nat := 18446744073709551615

/-- Append digits to a significand while it fits; also the count of digits left over. -/
def gather (s : Nat) : List Char → Nat × Nat
  | [] => (s, 0)
  | d :: ds =>
    let next := s * 10 + (d.toNat - '0'.toNat)
    if next ≤ greatestSignificand then gather next ds else (s, ds.length + 1)

/-- Whether the numeral has neither fraction nor exponent. -/
def isPlain (n : Numeral) : Bool := n.fraction.isNone && n.exponent.isNone

/-- The numeral as it stands in a text, with a small exponent mark. -/
def written (n : Numeral) : List Char :=
  let sign (negative : Bool) : List Char := if negative then ['-'] else []
  let fraction := (n.fraction.map ('.' :: ·)).getD []
  let exponent := (n.exponent.map fun e => 'e' :: sign e.negative ++ e.digits).getD []
  sign n.negative ++ n.whole ++ fraction ++ exponent

/-! ## Floating-point values -/

/-- The greatest power of ten that is used in one step. -/
def greatestStep : Nat := 308

theorem greatestStep_pos : 0 < greatestStep := by decide

/-- The number next to a power of ten. -/
def powerOfTen? (k : Nat) : Option Magnitude := Magnitude.ofNat? (tenTo k)

/-- Multiply by a power of ten; refused when the result or the power is too large. -/
def scaleUp? (x : Magnitude) (k : Nat) : Option Magnitude :=
  if k ≤ greatestStep then (powerOfTen? k).bind x.mul?
  else if x.mantissa = 0 then some x else none

/-- Divide by a power of ten, in steps. -/
def scaleDown? (x : Magnitude) (k : Nat) : Option Magnitude :=
  if _h : k ≤ greatestStep then (powerOfTen? k).bind x.div?
  else if x.mantissa = 0 then some x
  else ((powerOfTen? greatestStep).bind x.div?).bind fun y => scaleDown? y (k - greatestStep)
termination_by k
decreasing_by
  have := greatestStep_pos
  omega

/-- A significand times a power of ten. -/
def scaled? (significand : Nat) (exponent : Int) : Option Magnitude := do
  let x ← Magnitude.ofNat? significand
  if 0 ≤ exponent then scaleUp? x exponent.toNat else scaleDown? x (-exponent).toNat

/-- The greatest exponent that is computed with. -/
def greatestExponent : Int := 2147483647

/-- The magnitude of a numeral that is not a plain integer in range. -/
def magnitude? (n : Numeral) : Option Magnitude :=
  -- digits that do not fit any more move the point instead
  let (high, dropped) := gather 0 n.whole
  let fraction := n.fraction.getD []
  let (significand, left) := gather high fraction
  let point : Int := (dropped : Int) - (fraction.length - left : Nat)
  match n.exponent with
  | none => scaled? significand point
  | some e =>
    let size : Int := Nat.ofDigitChars 10 e.digits 0
    if greatestExponent < size then
      -- zero stays zero, and so does what is far too small
      if significand ≠ 0 ∧ !e.negative then none else some Magnitude.zero
    else
      let moved := if e.negative then point - size else point + size
      scaled? significand (max (-greatestExponent - 1) (min greatestExponent moved))

/-- The value of a numeral; `none` for one beyond the largest number. -/
def number? (n : Numeral) : Option JsonNumber :=
  let value := Nat.ofDigitChars 10 n.whole 0
  if n.isPlain ∧ !n.negative ∧ value ≤ greatestSignificand then some (.integer value)
  else if n.isPlain ∧ n.negative ∧ value ≠ 0 ∧ value ≤ 9223372036854775808 then
    some (.integer (-(value : Int)))
  else n.magnitude?.map fun m => .real ⟨n.negative, m⟩

/-- The plain numeral of an integer. -/
def ofInt (n : Int) : Numeral := ⟨n < 0, Nat.toDigits 10 n.natAbs, none, none⟩

/-- The numeral of an integer in range has that integer as its value. -/
theorem number?_ofInt {n : Int} (low : -9223372036854775808 ≤ n)
    (high : n < 18446744073709551616) :
    (ofInt n).number? = some (.integer n) := by
  have hv : Nat.ofDigitChars 10 (Nat.toDigits 10 n.natAbs) 0 = n.natAbs :=
    Nat.ofDigitChars_toDigits (by decide) (by decide)
  unfold number? ofInt isPlain greatestSignificand
  simp only [hv, Option.isNone_none, Bool.and_self, true_and]
  by_cases hn : n < 0
  · have h1 : ¬ ((!decide (n < 0)) = true ∧ n.natAbs ≤ 18446744073709551615) := by simp [hn]
    rw [if_neg h1, if_pos ⟨by simpa using hn, by omega, by omega⟩]
    congr 2
    omega
  · rw [if_pos ⟨by simpa using hn, by omega⟩]
    congr 2
    omega

end Numeral

end Backlog
