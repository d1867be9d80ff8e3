import Backlog.Calendar
import Backlog.Number.Binary64
import Backlog.Text.Integer
import Backlog.Toml.Quoted

/-!
# Scalars of a TOML file

A scalar without quotes is a run of letters, digits and marks: a truth value, an integer within
64 bits, a floating-point number, a date, a time or both. Settings are texts and integers; of
numbers with a point and of instants only their form is checked.

## Main statements

* `joined?_digits` — digits without separators stand for themselves.
-/

namespace Backlog.Toml

/-- A value without parts. -/
inductive Leaf
  | text (s : String)
  | integer (n : Int)
  | float
  | truth (b : Bool)
  | moment
  deriving DecidableEq, Repr

/-! ## Digits -/

/-- Digits of a kind with single separators between them; the separators are left out. -/
def joined? (isDigit : Char → Bool) : List Char → Option (List Char)
  | [] => none
  | [c] => if isDigit c then some [c] else none
  | c :: '_' :: rest => if isDigit c then (joined? isDigit rest).map (c :: ·) else none
  | c :: d :: rest => if isDigit c then (joined? isDigit (d :: rest)).map (c :: ·) else none

theorem joined?_digits {isDigit : Char → Bool} (hu : isDigit '_' = false) {cs : List Char}
    (hne : cs ≠ []) (h : ∀ c ∈ cs, isDigit c = true) : joined? isDigit cs = some cs := by
  induction cs with
  | nil => exact absurd rfl hne
  | cons c rest ih =>
    have hc := h c List.mem_cons_self
    match rest, ih, h with
    | [], _, _ => simp [joined?, hc]
    | d :: rest, ih, h =>
      have hd : d ≠ '_' := fun e => by
        have := h d (by simp)
        rw [e, hu] at this
        exact Bool.noConfusion this
      rw [joined?.eq_def]
      split
      · simp_all
      · simp_all
      · simp_all
      · next e =>
        obtain ⟨e₁, e⟩ := List.cons.inj e
        obtain ⟨rfl, rfl⟩ := List.cons.inj e
        rw [← e₁, if_pos hc, ih (by simp) fun x hx => h x (List.mem_cons_of_mem _ hx)]
        rfl

/-- The value of digits in a base. -/
def valueOf (base : Nat) (ds : List Char) : Nat :=
  ds.foldl (fun acc c => acc * base + (hexValue? c).getD 0) 0

/-- A sign, if there is one, and the rest. -/
def signed : List Char → Bool × List Char
  | '-' :: rest => (true, rest)
  | '+' :: rest => (false, rest)
  | cs => (false, cs)

/-- The digits of a decimal integer: no zero in front. -/
def decimal? (cs : List Char) : Option (List Char) :=
  match joined? Char.isDigit cs with
  | some ('0' :: _ :: _) => none
  | o => o

/-! ## Numbers -/

/-- Whether a number fits 64 bits with a sign. -/
def within (n : Int) : Option Leaf :=
  if -9223372036854775808 ≤ n ∧ n < 9223372036854775808 then some (.integer n) else none

/-- An integer. -/
def integer? : List Char → Option Leaf
  | '0' :: 'x' :: ds =>
    (joined? (fun c => (hexValue? c).isSome) ds).bind fun ds => within (valueOf 16 ds)
  | '0' :: 'o' :: ds =>
    (joined? (fun c => '0' ≤ c && c ≤ '7') ds).bind fun ds => within (valueOf 8 ds)
  | '0' :: 'b' :: ds =>
    (joined? (fun c => c = '0' || c = '1') ds).bind fun ds => within (valueOf 2 ds)
  | cs =>
    let (negative, ds) := signed cs
    (decimal? ds).bind fun ds =>
      within (if negative then -(valueOf 10 ds : Int) else valueOf 10 ds)

/-- What stands before a mark, and what stands behind it if there is one. -/
def splitMark (isMark : Char → Bool) (cs : List Char) : List Char × Option (List Char) :=
  match cs.dropWhile fun c => !isMark c with
  | [] => (cs, none)
  | _ :: rest => (cs.takeWhile fun c => !isMark c, some rest)

/-- Whether digits times a power of ten are too large for a floating-point number. -/
def overflows (digits : List Char) (exponent : Int) : Bool :=
  let significand := valueOf 10 digits
  let size : Int := (Nat.toDigits 10 significand).length + exponent
  -- far from the limit the count of digits decides, so that no huge power is computed
  if significand = 0 ∨ size < -400 then false
  else if 400 < size then true
  else (Magnitude.ofRatio? (significand * tenTo exponent.toNat) (tenTo (-exponent).toNat)).isNone

/-- The exponent of a number; a number without one has the exponent zero. -/
def exponent? : Option (List Char) → Option Int
  | none => some 0
  | some cs =>
    let (negative, ds) := signed cs
    (joined? Char.isDigit ds).map fun ds =>
      if negative then -(valueOf 10 ds : Int) else valueOf 10 ds

/-- The fraction of a number; a number without one has no digits there. -/
def fraction? : Option (List Char) → Option (List Char)
  | none => some []
  | some cs => joined? Char.isDigit cs

/-- A floating-point number; a positive one beyond the largest is refused. -/
def float? (cs : List Char) : Option Leaf :=
  let (negative, body) := signed cs
  if body = ['i', 'n', 'f'] ∨ body = ['n', 'a', 'n'] then some .float
  else
    let (mantissa, exponent) := splitMark (fun c => c = 'e' || c = 'E') body
    let (whole, fraction) := splitMark (· = '.') mantissa
    if exponent.isNone ∧ fraction.isNone then none
    else
      match decimal? whole, fraction? fraction, exponent? exponent with
      | some ds, some fs, some e =>
        if !negative && overflows (ds ++ fs) (e - fs.length) then none else some .float
      | _, _, _ => none

/-! ## Dates and times -/

/-- A number of exactly so many digits, and the rest. -/
def fixed? (n : Nat) (cs : List Char) : Option (Nat × List Char) :=
  let ds := cs.take n
  if ds.length = n ∧ ds.all Char.isDigit then some (valueOf 10 ds, cs.drop n) else none

/-- The rest behind a character. -/
def after? (c : Char) : List Char → Option (List Char)
  | d :: rest => if d = c then some rest else none
  | [] => none

/-- The rest behind a date that exists. -/
def date? (cs : List Char) : Option (List Char) := do
  let (year, cs) ← fixed? 4 cs
  let cs ← after? '-' cs
  let (month, cs) ← fixed? 2 cs
  let cs ← after? '-' cs
  let (day, cs) ← fixed? 2 cs
  let date : CivilDate := ⟨year, month, day⟩
  if date.Exists then some cs else none

/-- The rest behind a fraction of a second, if there is one. -/
def secondFraction? : List Char → Option (List Char)
  | '.' :: cs =>
    if (cs.takeWhile Char.isDigit).isEmpty then none else some (cs.dropWhile Char.isDigit)
  | cs => some cs

/-- The rest behind a time of day. -/
def time? (cs : List Char) : Option (List Char) := do
  let (hour, cs) ← fixed? 2 cs
  let cs ← after? ':' cs
  let (minute, cs) ← fixed? 2 cs
  let cs ← after? ':' cs
  let (second, cs) ← fixed? 2 cs
  if hour ≤ 23 ∧ minute ≤ 59 ∧ second ≤ 60 then secondFraction? cs else none

/-- Whether characters are an offset, or nothing. -/
def isOffset : List Char → Bool
  | [] => true
  | ['Z'] => true
  | ['z'] => true
  | c :: cs =>
    if c = '+' ∨ c = '-' then
      match fixed? 2 cs with
      | some (hour, ':' :: rest) =>
        match fixed? 2 rest with
        | some (minute, []) => hour ≤ 23 && minute ≤ 59
        | _ => false
      | _ => false
    else false

/-- Whether characters are a time of day with or without an offset. -/
def isTimeWithOffset (cs : List Char) : Bool := (time? cs).any isOffset

/-- A date, a time, or both with the letter `T` between them. -/
def moment? (cs : List Char) : Option Leaf :=
  match date? cs with
  | some [] => some .moment
  | some (c :: rest) => if (c = 'T' ∨ c = 't') ∧ isTimeWithOffset rest then some .moment else none
  | none => if time? cs = some [] then some .moment else none

/-! ## Any of them -/

/-- A scalar without quotes. -/
def scalar? (cs : List Char) : Option Leaf :=
  if cs = ['t', 'r', 'u', 'e'] then some (.truth true)
  else if cs = ['f', 'a', 'l', 's', 'e'] then some (.truth false)
  else (moment? cs).or ((integer? cs).or (float? cs))

/-- A character of a scalar without quotes. -/
def isScalarChar (c : Char) : Bool :=
  c.isAlphanum || c = '+' || c = '-' || c = '_' || c = '.' || c = ':'

/-- A scalar without quotes, and the rest. A blank may stand between a date and a time. -/
def bare? (cs : List Char) : Option (Leaf × List Char) :=
  let run := cs.takeWhile isScalarChar
  let rest := cs.dropWhile isScalarChar
  match scalar? run with
  | none => none
  | some leaf =>
    match date? run, rest with
    -- a date, and perhaps a time behind a blank
    | some [], ' ' :: more =>
      let clock := more.takeWhile isScalarChar
      if isTimeWithOffset clock then some (.moment, more.dropWhile isScalarChar)
      else some (leaf, rest)
    | _, _ => some (leaf, rest)

end Backlog.Toml
