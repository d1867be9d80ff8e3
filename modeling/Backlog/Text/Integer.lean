/-!
# Integers in decimal

The reader takes an optional sign and at least one ASCII digit, and nothing else: no blanks,
no separators. The writer uses the shortest decimal form. 64-bit readers add the range check.

## Main statements

* `integer?_decimalChars` — what the writer gives, the reader takes back;
* `exactInt64?_toInt` — every word is read back from its value.
-/

namespace Backlog.Text

/-! ## Words and their values -/

/-- The signed 64-bit word with the given value, if there is one. -/
def exactInt64? (n : Int) : Option Int64 :=
  if -9223372036854775808 ≤ n ∧ n < 9223372036854775808 then some (Int64.ofInt n) else none

/-- The unsigned 64-bit word with the given value, if there is one. -/
def exactUInt64? (n : Int) : Option UInt64 :=
  if 0 ≤ n ∧ n < 18446744073709551616 then some (UInt64.ofNat n.toNat) else none

theorem exactInt64?_toInt (w : Int64) : exactInt64? w.toInt = some w := by
  have low := Int64.le_toInt w
  have high := Int64.toInt_lt w
  unfold exactInt64?
  rw [if_pos ⟨by omega, by omega⟩, Int64.ofInt_toInt]

theorem toInt_of_exactInt64? {n : Int} {w : Int64} (h : exactInt64? n = some w) : w.toInt = n := by
  unfold exactInt64? at h
  split at h
  · next hr =>
    rw [← Option.some.inj h]
    exact Int64.toInt_ofInt_of_le (by omega) (by omega)
  · exact absurd h (by simp)

/-! ## Reading -/

/-- The value of a non-empty list of ASCII digits. -/
def natural? (ds : List Char) : Option Nat :=
  if ds ≠ [] ∧ ds.all Char.isDigit then some (Nat.ofDigitChars 10 ds 0) else none

/-- Read an optional sign and at least one digit. -/
def integer? : List Char → Option Int
  | '+' :: ds => (natural? ds).map Int.ofNat
  | '-' :: ds => (natural? ds).map fun (n : Nat) => -(n : Int)
  | ds => (natural? ds).map Int.ofNat

/-- Read a signed 64-bit word. -/
def int64? (s : String) : Option Int64 := (integer? s.toList).bind exactInt64?

/-- Read an unsigned 64-bit word; a minus sign is not taken, a plus sign is. -/
def uint64? (s : String) : Option UInt64 :=
  match s.toList with
  | '-' :: _ => none
  | cs => (integer? cs).bind exactUInt64?

/-! ## Writing -/

/-- The digits of an integer, with a minus sign in front of a negative one. -/
def decimalChars (n : Int) : List Char :=
  if n < 0 then '-' :: Nat.toDigits 10 n.natAbs else Nat.toDigits 10 n.natAbs

/-- The decimal text of an integer. -/
def decimal (n : Int) : String := String.ofList (decimalChars n)

/-- The decimal text of a natural number. -/
def natural (n : Nat) : String := String.ofList (Nat.toDigits 10 n)

/-- The digits of a number, filled up with zeros on the left to a width. -/
def zeroPadded (width n : Nat) : List Char :=
  let ds := Nat.toDigits 10 n
  List.replicate (width - ds.length) '0' ++ ds

/-! ## Reading back -/

theorem natural?_toDigits (n : Nat) : natural? (Nat.toDigits 10 n) = some n := by
  unfold natural?
  rw [if_pos]
  · rw [Nat.ofDigitChars_toDigits (by decide) (by decide)]
  · refine ⟨Nat.toDigits_ne_nil, ?_⟩
    rw [List.all_eq_true]
    intro c hc
    exact Nat.isDigit_of_mem_toDigits (by decide) (by decide) hc

theorem integer?_toDigits (n : Nat) : integer? (Nat.toDigits 10 n) = some (n : Int) := by
  have hd : ∀ c ∈ Nat.toDigits 10 n, c.isDigit = true := fun c hc =>
    Nat.isDigit_of_mem_toDigits (by decide) (by decide) hc
  unfold integer?
  split
  · next ds h =>
    have := hd '+' (h ▸ List.mem_cons_self)
    exact absurd this (by decide)
  · next ds h =>
    have := hd '-' (h ▸ List.mem_cons_self)
    exact absurd this (by decide)
  · rw [natural?_toDigits]
    rfl

/-- What the writer gives, the reader takes back. -/
theorem integer?_decimalChars (n : Int) : integer? (decimalChars n) = some n := by
  by_cases h : n < 0
  · rw [decimalChars, if_pos h, integer?, natural?_toDigits]
    simp only [Option.map_some, Option.some.injEq]
    omega
  · rw [decimalChars, if_neg h, integer?_toDigits]
    simp only [Option.some.injEq]
    omega

end Backlog.Text
