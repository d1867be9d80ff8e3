/-!
# Binary floating-point numbers of 64 bits

A number is a sign, a mantissa below `2 ^ 53` and a power of two. Arithmetic is exact on
natural numbers and rounded once, to the nearest number and to an even mantissa on a tie. A
result beyond the largest number is refused, never turned into an infinity.

## Main statements

* `roundHalfEven_exact` — a quotient without remainder is not changed by rounding;
* `two_mul_roundHalfEven_le`, `le_two_mul_roundHalfEven` — rounding moves by half a unit at most.
-/

namespace Backlog

/-- A power of two. -/
def twoTo (k : Nat) : Nat := Nat.pow 2 k

/-- A power of ten. -/
def tenTo (k : Nat) : Nat := Nat.pow 10 k

theorem tenTo_succ (k : Nat) : tenTo (k + 1) = tenTo k * 10 := rfl

/-- A magnitude `mantissa * 2 ^ exponent`. -/
structure Magnitude where
  mantissa : Nat
  exponent : Int
  deriving DecidableEq, Repr, Inhabited

/-- A floating-point number: a sign and a magnitude. -/
structure Binary64 where
  negative : Bool
  magnitude : Magnitude
  deriving DecidableEq, Repr, Inhabited

/-! ## Rounding -/

/-- The natural number next to `num / den`; the even one on a tie. -/
def roundHalfEven (num den : Nat) : Nat :=
  let q := num / den
  let r := num % den
  if 2 * r < den then q else if den < 2 * r then q + 1 else q + q % 2

theorem roundHalfEven_exact (q den : Nat) (h : 0 < den) : roundHalfEven (q * den) den = q := by
  simp [roundHalfEven, Nat.mul_div_cancel q h, h]

/-- Rounding up moves by half a unit at most. -/
theorem two_mul_roundHalfEven_le (num den : Nat) :
    2 * (roundHalfEven num den * den) ≤ 2 * num + den := by
  have hdiv := Nat.div_add_mod num den
  unfold roundHalfEven
  simp only
  generalize num / den = q at *
  generalize num % den = r at *
  rw [Nat.mul_comm den q] at hdiv
  split
  · omega
  · split
    · rw [Nat.add_mul]; omega
    · rcases Nat.mod_two_eq_zero_or_one q with h | h <;> rw [h, Nat.add_mul] <;> omega

/-- Rounding down moves by half a unit at most. -/
theorem le_two_mul_roundHalfEven (num den : Nat) (h : 0 < den) :
    2 * num ≤ 2 * (roundHalfEven num den * den) + den := by
  have hdiv := Nat.div_add_mod num den
  have hmod := Nat.mod_lt num h
  unfold roundHalfEven
  simp only
  generalize num / den = q at *
  generalize num % den = r at *
  rw [Nat.mul_comm den q] at hdiv
  split
  · omega
  · split
    · rw [Nat.add_mul]; omega
    · rcases Nat.mod_two_eq_zero_or_one q with h | h <;> rw [h, Nat.add_mul] <;> omega

namespace Magnitude

/-- The exponent of the smallest positive magnitude. -/
def leastExponent : Int := -1074

/-- The exponent of the largest magnitudes. -/
def greatestExponent : Int := 971

/-- Nothing. -/
def zero : Magnitude := ⟨0, leastExponent⟩

/-- The magnitude next to `num / den` for a positive `den`; `none` beyond the largest one. -/
def ofRatio? (num den : Nat) : Option Magnitude :=
  if num = 0 then some zero
  else
    let a := num.log2
    let b := den.log2
    -- the exponent for which the quotient has 53 digits, give or take one
    let low : Int := (a : Int) - b - 53
    let tight : Int := if den * twoTo (a - b) ≤ num * twoTo (b - a) then low + 1 else low
    -- below the least exponent digits are lost instead
    let e : Int := max tight leastExponent
    let q := roundHalfEven (num * twoTo (-e).toNat) (den * twoTo e.toNat)
    -- rounding up may need one more digit
    let fitted : Magnitude := if q = twoTo 53 then ⟨twoTo 52, e + 1⟩ else ⟨q, e⟩
    if greatestExponent < fitted.exponent then none else some fitted

/-- The numerator of the exact value. -/
def numerator (x : Magnitude) : Nat := x.mantissa * twoTo x.exponent.toNat

/-- The denominator of the exact value, a power of two. -/
def denominator (x : Magnitude) : Nat := twoTo (-x.exponent).toNat

/-- The magnitude next to a natural number. -/
def ofNat? (n : Nat) : Option Magnitude := ofRatio? n 1

/-- Product, rounded once. -/
def mul? (x y : Magnitude) : Option Magnitude :=
  ofRatio? (x.numerator * y.numerator) (x.denominator * y.denominator)

/-- Quotient by a magnitude that is not zero, rounded once. -/
def div? (x y : Magnitude) : Option Magnitude :=
  ofRatio? (x.numerator * y.denominator) (x.denominator * y.numerator)

end Magnitude

end Backlog
