import Backlog.Number.Binary64

/-!
# The shortest decimal form of a floating-point number

The numbers that round to a given magnitude form an interval around it. For one digit, two
digits and so on up to seventeen, the two decimals next to the value are tried; the first
count of digits with one inside the interval wins, and of two the nearer one; a value halfway
between them goes to the even digit. So the form reads back as the same number, and no form with
fewer digits does.

A layout then decides where the point stands: positional within a range of exponents, with an
exponent mark outside.

## Main statements

* `stripZeros_eq` — dropping zeros at the end changes the digits by a power of ten only.
-/

namespace Backlog

namespace Magnitude

/-! ## The interval of a value -/

/-- Whether an exact ratio rounds to the magnitude. The bounds lie halfway to the neighbours
and belong to the interval exactly when the mantissa is even. -/
def roundsFrom (x : Magnitude) (num den : Nat) : Bool :=
  -- in quarters of a unit; below a power of two the neighbour is only half as far
  let m := 4 * x.mantissa
  let low := if x.mantissa = twoTo 52 ∧ leastExponent < x.exponent then m - 1 else m - 2
  let up := twoTo (x.exponent - 2).toNat
  let down := twoTo (2 - x.exponent).toNat
  let lower := low * up * den
  let upper := (m + 2) * up * den
  let middle := num * down
  if x.mantissa % 2 = 0 then lower ≤ middle && middle ≤ upper else lower < middle && middle < upper

/-- The exponent of the first decimal digit of a positive magnitude. -/
def decimalExponent (x : Magnitude) : Int :=
  let n := x.numerator
  let d := x.denominator
  if d ≤ n then ((Nat.toDigits 10 (n / d)).length : Int) - 1
  else
    let len := (Nat.toDigits 10 (d / n)).length
    if d ≤ n * tenTo (len - 1) then -((len : Int) - 1) else -(len : Int)

/-- The best decimal with the given count of digits that rounds to the magnitude: the digits as
a number and the power of ten of the last one. -/
def decimalOfLength? (x : Magnitude) (digits : Nat) : Option (Nat × Int) :=
  let k : Int := x.decimalExponent - digits + 1
  let up := tenTo k.toNat
  let down := tenTo (-k).toNat
  let num := x.numerator * down
  let den := x.denominator * up
  let below := num / den
  let inside (c : Nat) : Bool := x.roundsFrom (c * up) down
  -- of two candidates the nearer one, and the even one on a tie
  match inside below, inside (below + 1) with
  | true, true => some (roundHalfEven num den, k)
  | true, false => some (below, k)
  | false, true => some (below + 1, k)
  | false, false => none

end Magnitude

/-- Drop the zeros at the end of a number's digits and count them in the exponent. -/
def stripZeros : Nat → Nat → Int → Nat × Int
  | 0, c, k => (c, k)
  | fuel + 1, c, k => if c ≠ 0 ∧ c % 10 = 0 then stripZeros fuel (c / 10) (k + 1) else (c, k)

/-- Dropping zeros only moves a power of ten from the digits to the exponent. -/
theorem stripZeros_eq : ∀ (fuel c : Nat) (k : Int),
    ∃ j : Nat, c = (stripZeros fuel c k).1 * tenTo j ∧ (stripZeros fuel c k).2 = k + j
  | 0, c, k => ⟨0, by simp [stripZeros, tenTo]⟩
  | fuel + 1, c, k => by
    unfold stripZeros
    split
    · next h =>
      obtain ⟨j, hc, hk⟩ := stripZeros_eq fuel (c / 10) (k + 1)
      refine ⟨j + 1, ?_, by rw [hk]; omega⟩
      have h10 : c = c / 10 * 10 := by omega
      rw [tenTo_succ, ← Nat.mul_assoc, ← hc]
      exact h10
    · exact ⟨0, by simp [tenTo]⟩

/-- The shortest decimal that reads back: its digits as a number without zeros at the end, and
the power of ten of the last digit. -/
def Magnitude.shortest (x : Magnitude) : Nat × Int :=
  if x.mantissa = 0 then (0, 0)
  else
    let found := (List.range 17).findSome? fun i => x.decimalOfLength? (i + 1)
    let (c, k) := found.getD (x.numerator, 0)
    stripZeros 20 c k

/-- Where a decimal text stops being positional: the least and greatest exponents of the first
digit that are written without an exponent mark. -/
structure DecimalLayout where
  least : Int
  greatest : Int

/-- The text of a floating-point number in a layout. Positional forms keep a digit after the
point; the exponent always carries its sign. -/
def Binary64.text (layout : DecimalLayout) (x : Binary64) : String :=
  let (c, k) := x.magnitude.shortest
  let ds := Nat.toDigits 10 c
  let e : Int := k + ds.length - 1
  let zeros (n : Nat) : List Char := List.replicate n '0'
  let body : List Char :=
    if layout.least ≤ e ∧ e ≤ layout.greatest then
      if e < 0 then '0' :: '.' :: zeros (-e - 1).toNat ++ ds
      else
        let whole := (e + 1).toNat
        if ds.length ≤ whole then ds ++ zeros (whole - ds.length) ++ ['.', '0']
        else ds.take whole ++ '.' :: ds.drop whole
    else
      -- one digit, the others behind a point, and the exponent
      let mark := if e < 0 then ['e', '-'] else ['e', '+']
      let fraction := if ds.length = 1 then [] else '.' :: ds.drop 1
      ds.take 1 ++ fraction ++ mark ++ Nat.toDigits 10 e.natAbs
  String.ofList (if x.negative then '-' :: body else body)

end Backlog
