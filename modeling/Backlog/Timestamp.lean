import Backlog.Calendar
import Backlog.Text.Integer

/-!
# Instants

A `Timestamp` is a UTC second and a count of nanoseconds in it. A leap second is kept as more
than a second's worth of nanoseconds after second 59 of a minute. Reading takes an RFC 3339 text
with any offset; writing always gives UTC, microseconds and the letter `Z`, and writes a leap
second as second 60. Years outside 0 to 9999 are written with a sign, which no reader takes back.

## Main statements

* `Timestamp.compare_eq_iff` — the order of instants is the order of second and nanoseconds;
* `Timestamp.truncated_truncated` — cutting an instant to microseconds is done once and for all.
-/

namespace Backlog

/-- An instant: UTC seconds since 1970-01-01T00:00:00Z and nanoseconds in the second. -/
structure Timestamp where
  seconds : Int
  nanos : Nat
  nanos_lt : nanos < 2000000000
  leap : 1000000000 ≤ nanos → seconds % 60 = 59
  deriving DecidableEq

namespace Timestamp

instance : Inhabited Timestamp := ⟨⟨0, 0, by decide, by decide⟩⟩

instance : Repr Timestamp := ⟨fun t _ => repr (t.seconds, t.nanos)⟩

/-- The instant with the given parts, if they make one. -/
def ofParts? (seconds : Int) (nanos : Nat) : Option Timestamp :=
  if h : nanos < 2000000000 ∧ (1000000000 ≤ nanos → seconds % 60 = 59) then
    some ⟨seconds, nanos, h.1, h.2⟩
  else none

/-- The order of instants. -/
def compare (a b : Timestamp) : Ordering :=
  match Ord.compare a.seconds b.seconds with
  | .eq => Ord.compare a.nanos b.nanos
  | o => o

/-- Whether an instant lies before another. -/
def before (a b : Timestamp) : Bool := a.compare b == .lt

theorem compare_eq_iff {a b : Timestamp} : a.compare b = .eq ↔ a = b := by
  unfold compare
  constructor
  · intro h
    split at h
    · next hs =>
      cases a
      cases b
      simp only [mk.injEq]
      exact ⟨Std.LawfulEqCmp.eq_of_compare hs, Std.LawfulEqCmp.eq_of_compare h⟩
    · next hs => exact absurd h hs
  · intro h
    subst h
    simp [Std.ReflCmp.compare_self]

/-! ## Microseconds -/

/-- The instant cut to whole microseconds. -/
def truncated (t : Timestamp) : Timestamp :=
  ⟨t.seconds, t.nanos - t.nanos % 1000, by have := t.nanos_lt; omega,
    fun h => t.leap (by omega)⟩

theorem truncated_truncated (t : Timestamp) : t.truncated.truncated = t.truncated := by
  unfold truncated
  congr 1
  simp only
  omega

/-- The first second of the range of instants. -/
def leastSecond : Int := (CivilDate.dayNumber ⟨-262143, 1, 1⟩) * 86400

/-- The last second of the range of instants. -/
def greatestSecond : Int := (CivilDate.dayNumber ⟨262142, 12, 31⟩) * 86400 + 86399

/-- The instant a number of microseconds after 1970-01-01T00:00:00Z, if it is in range. -/
def ofMicros? (micros : Int) : Option Timestamp :=
  let seconds := micros / 1000000
  if leastSecond ≤ seconds ∧ seconds ≤ greatestSecond then
    ofParts? seconds (micros % 1000000 * 1000).toNat
  else none

/-! ## Writing -/

/-- The calendar date of an instant. -/
def date (t : Timestamp) : CivilDate := .ofDayNumber (t.seconds / 86400)

/-- The year of an instant. -/
def year (t : Timestamp) : Int := t.date.year

/-- A year in at least four digits; outside 0 to 9999 with its sign. -/
def yearChars (y : Int) : List Char :=
  if 0 ≤ y ∧ y ≤ 9999 then Text.zeroPadded 4 y.toNat
  else (if y < 0 then '-' else '+') :: Text.zeroPadded 4 y.natAbs

/-- The characters of an instant in UTC with microseconds. -/
def chars (t : Timestamp) : List Char :=
  -- a leap second shows as second 60: the nanoseconds beyond a second count
  let inDay := (t.seconds % 86400).toNat
  let second := inDay % 60 + t.nanos / 1000000000
  yearChars t.date.year ++ '-' :: Text.zeroPadded 2 t.date.month
    ++ '-' :: Text.zeroPadded 2 t.date.day
    ++ 'T' :: Text.zeroPadded 2 (inDay / 3600) ++ ':' :: Text.zeroPadded 2 (inDay / 60 % 60)
    ++ ':' :: Text.zeroPadded 2 second
    ++ '.' :: Text.zeroPadded 6 (t.nanos % 1000000000 / 1000) ++ ['Z']

/-- The text of an instant in UTC with microseconds. -/
def text (t : Timestamp) : String := String.ofList t.chars

/-! ## Reading -/

/-- Why a text is no instant. -/
inductive Fault
  | tooShort
  | invalid
  | outOfRange
  | tooLong
  deriving DecidableEq, Repr

/-- The words for a fault. -/
def Fault.message : Fault → String
  | .tooShort => "premature end of input"
  | .invalid => "input contains invalid characters"
  | .outOfRange => "input is out of range"
  | .tooLong => "trailing input"

/-- Exactly as many digits as asked for; their value is appended to `acc`. -/
def digits : Nat → Nat → List Char → Except Fault (Nat × List Char)
  | 0, acc, cs => .ok (acc, cs)
  | _ + 1, _, [] => .error .invalid
  | n + 1, acc, c :: cs =>
    if c.isDigit then digits n (acc * 10 + (c.toNat - '0'.toNat)) cs else .error .invalid

/-- One character out of a list of them. -/
def mark (allowed : List Char) : List Char → Except Fault (List Char)
  | [] => .error .invalid
  | c :: cs => if c ∈ allowed then .ok cs else .error .invalid

/-- A date that exists. -/
def readDate (cs : List Char) : Except Fault (CivilDate × List Char) := do
  let (year, cs) ← digits 4 0 cs
  let cs ← mark ['-'] cs
  let (month, cs) ← digits 2 0 cs
  let cs ← mark ['-'] cs
  let (day, cs) ← digits 2 0 cs
  let date : CivilDate := ⟨year, month, day⟩
  if date.Exists then .ok (date, cs) else .error .outOfRange

/-- The nanoseconds of a fraction of a second: its first nine digits. -/
def fractionNanos (ds : List Char) : Nat :=
  Nat.ofDigitChars 10 ((ds ++ List.replicate 9 '0').take 9) 0

/-- A fraction, if a point stands here. -/
def readFraction : List Char → Except Fault (Nat × List Char)
  | '.' :: cs =>
    match cs.takeWhile Char.isDigit, cs.dropWhile Char.isDigit with
    | [], [] => .error .tooShort
    | [], _ => .error .invalid
    | ds, rest => .ok (fractionNanos ds, rest)
  | cs => .ok (0, cs)

/-- A time of day: seconds since midnight, and nanoseconds. Second 60 is a leap second. -/
def readTime (cs : List Char) : Except Fault ((Nat × Nat) × List Char) := do
  let (hour, cs) ← digits 2 0 cs
  let cs ← mark [':'] cs
  let (minute, cs) ← digits 2 0 cs
  let cs ← mark [':'] cs
  let (second, cs) ← digits 2 0 cs
  let (nanos, cs) ← readFraction cs
  -- second 60 is the end of second 59, with a second more of nanoseconds
  let (second, nanos) := if second = 60 then (59, nanos + 1000000000) else (second, nanos)
  if hour ≤ 23 ∧ minute ≤ 59 ∧ second ≤ 59 then
    .ok ((hour * 3600 + minute * 60 + second, nanos), cs)
  else .error .outOfRange

/-- The fault of a place where two characters were needed and at most one is left: a character
that takes several bytes counts as two that are wrong. -/
def shortFault : List Char → Fault
  | c :: _ => if c.utf8Size < 2 then .tooShort else .invalid
  | [] => .tooShort

/-- The minutes of an offset. -/
def readOffsetMinutes : List Char → Except Fault (Nat × List Char)
  | a :: b :: cs =>
    if '0' ≤ a ∧ a ≤ '5' ∧ b.isDigit then
      .ok ((a.toNat - '0'.toNat) * 10 + (b.toNat - '0'.toNat), cs)
    else if '6' ≤ a ∧ a ≤ '9' ∧ b.isDigit then .error .outOfRange
    else .error .invalid
  | cs => .error (shortFault cs)

/-- The hours and minutes of an offset, in minutes. -/
def readOffsetSize : List Char → Except Fault (Nat × List Char)
  | a :: b :: cs =>
    if a.isDigit ∧ b.isDigit then
      let hours := (a.toNat - '0'.toNat) * 10 + (b.toNat - '0'.toNat)
      match cs with
      | ':' :: cs => do
        let (minutes, cs) ← readOffsetMinutes cs
        .ok (hours * 60 + minutes, cs)
      | [] => .error .tooShort
      | _ => .error .invalid
    else .error .invalid
  | cs => .error (shortFault cs)

/-- An offset in minutes east of UTC. -/
def readOffset : List Char → Except Fault (Int × List Char)
  | [] => .error .tooShort
  | c :: cs =>
    if c = 'Z' ∨ c = 'z' then .ok (0, cs)
    else if c = '+' then (readOffsetSize cs).map fun r => ((r.1 : Int), r.2)
    else if c = '-' ∨ c = '−' then (readOffsetSize cs).map fun r => (-(r.1 : Int), r.2)
    else .error .invalid

/-- The number of bytes that characters take. -/
def byteCount (cs : List Char) : Nat := cs.foldl (fun n c => n + c.utf8Size) 0

/-- Read characters as an instant. -/
def readChars (cs : List Char) : Except Fault Timestamp := do
  -- a text that is too short is not looked at any further
  if byteCount cs < 19 then .error .tooShort
  let (date, cs) ← readDate cs
  let cs ← mark ['T', 't', ' '] cs
  let ((inDay, nanos), cs) ← readTime cs
  let (offset, cs) ← readOffset cs
  -- what is left over counts before an offset that is too large
  if cs ≠ [] then .error .tooLong
  if 24 * 60 ≤ offset.natAbs then .error .outOfRange
  match ofParts? (date.dayNumber * 86400 + inDay - offset * 60) nanos with
  | some t => .ok t
  | none => .error .outOfRange

/-- Read a text as an instant. -/
def read (s : String) : Except Fault Timestamp := readChars s.toList

end Timestamp

end Backlog
