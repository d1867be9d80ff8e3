import Backlog.Text.Blank
import Backlog.Timestamp

/-!
# The text of an instant

An instant is written with a year of four digits as long as its year has no sign, and what is
written then reads back as the instant cut to microseconds, leap seconds included. An instant of any
other year is written with a sign in front, and no reader takes that back. So the text of an instant
that is *plain* stands for that instant and for no other one, whichever instant it is compared with.

## Main results

* `Timestamp.read_text` — the text of an instant of a year without a sign reads back;
* `Timestamp.read_text_of_signed` — the text of any other instant does not;
* `Timestamp.eq_of_text_eq` — a plain instant shares its text with no other instant that is given to
  the microsecond.
-/

namespace Backlog

-- ---------------------------------------------------------------------------
-- Digits
-- ---------------------------------------------------------------------------

namespace Text

theorem length_zeroPadded {width n : Nat} (hpos : 0 < width) (h : n < Nat.pow 10 width) :
    (zeroPadded width n).length = width := by
  have hlen : (Nat.toDigits 10 n).length ≤ width :=
    (Nat.length_toDigits_le_iff (by decide) hpos).mpr h
  rw [zeroPadded, List.length_append, List.length_replicate]
  omega

theorem le_length_zeroPadded (width n : Nat) : width ≤ (zeroPadded width n).length := by
  rw [zeroPadded, List.length_append, List.length_replicate]
  omega

theorem isDigit_of_mem_zeroPadded {width n : Nat} {c : Char} (h : c ∈ zeroPadded width n) :
    c.isDigit = true := by
  rcases List.mem_append.mp h with h | h
  · rw [(List.mem_replicate.mp h).2]
    decide
  · exact Nat.isDigit_of_mem_toDigits (by decide) (by decide) h

theorem ofDigitChars_zeroPadded (width n : Nat) :
    Nat.ofDigitChars 10 (zeroPadded width n) 0 = n := by
  rw [zeroPadded, Nat.ofDigitChars_append, Nat.ofDigitChars_replicate_zero, Nat.mul_zero,
    Nat.ofDigitChars_ten_toDigits]

theorem isBlank_of_isDigit {c : Char} (h : c.isDigit = true) : isBlank c = false := by
  simp only [Char.isDigit, Bool.and_eq_true, decide_eq_true_eq, ge_iff_le,
    UInt32.le_iff_toNat_le] at h
  have hlow : 48 ≤ c.toNat := h.1
  have hhigh : c.toNat ≤ 57 := h.2
  simp [isBlank, blankRanges]
  omega

/-- A text that begins and ends with characters that are not blank has no blanks around it. -/
theorem trimChars_of_not_blank {c d : Char} {cs : List Char} (hc : isBlank c = false)
    (hd : isBlank d = false) : trimChars (c :: (cs ++ [d])) = c :: (cs ++ [d]) := by
  rw [trimChars, List.dropWhile_cons_of_neg (by simp [hc]), ← List.cons_append,
    List.reverse_append, List.reverse_singleton, List.singleton_append,
    List.dropWhile_cons_of_neg (by simp [hd])]
  simp

/-- A text without blanks has none around it. -/
theorem trim_of_not_blank {s : String} (h : ∀ c ∈ s.toList, isBlank c = false) : trim s = s := by
  have hkeep : ∀ {cs : List Char}, (∀ c ∈ cs, isBlank c = false) → cs.dropWhile isBlank = cs := by
    intro cs hcs
    cases cs with
    | nil => rfl
    | cons c rest => rw [List.dropWhile_cons_of_neg (by simp [hcs c List.mem_cons_self])]
  rw [trim, trimChars, hkeep h, hkeep fun c hc => h c (List.mem_reverse.mp hc),
    List.reverse_reverse, String.ofList_toList]

theorem natural?_of_mem {c : Char} {cs : List Char} (h : c ∈ cs) (hc : c.isDigit = false) :
    natural? cs = none := by
  refine if_neg fun hall => ?_
  have := List.all_eq_true.mp hall.2 c h
  rw [hc] at this
  exact Bool.noConfusion this

/-- An integer is written with digits behind its sign. -/
theorem integer?_of_mem {c : Char} {cs : List Char} (h : c ∈ cs) (hc : c.isDigit = false)
    (hplus : c ≠ '+') (hminus : c ≠ '-') : integer? cs = none := by
  unfold integer?
  split
  · rw [natural?_of_mem ((List.mem_cons.mp h).resolve_left hplus) hc]
    rfl
  · rw [natural?_of_mem ((List.mem_cons.mp h).resolve_left hminus) hc]
    rfl
  · rw [natural?_of_mem h hc]
    rfl

/-- Whether a text begins with a sign. -/
def isSigned (s : String) : Bool :=
  match s.toList with
  | c :: _ => c == '+' || c == '-'
  | [] => false

end Text

namespace Timestamp

open Text (zeroPadded)

/-- As many digits as asked for are read as their value. -/
theorem digits_append (ds rest : List Char) (acc : Nat) (h : ∀ c ∈ ds, c.isDigit = true) :
    digits ds.length acc (ds ++ rest) = .ok (Nat.ofDigitChars 10 ds acc, rest) := by
  induction ds generalizing acc with
  | nil => rfl
  | cons d ds ih =>
    have hd : d.isDigit = true := h d List.mem_cons_self
    have hrest := ih (acc * 10 + (d.toNat - '0'.toNat)) fun c hc => h c (List.mem_cons_of_mem d hc)
    rw [List.length_cons, List.cons_append, digits, if_pos hd, hrest, Nat.ofDigitChars_cons,
      Nat.mul_comm]

/-- A number in its width is read back. -/
theorem digits_zeroPadded (width : Nat) {n : Nat} (rest : List Char) (hpos : 0 < width)
    (h : n < Nat.pow 10 width) : digits width 0 (zeroPadded width n ++ rest) = .ok (n, rest) := by
  have hread := digits_append (zeroPadded width n) rest 0 fun c => Text.isDigit_of_mem_zeroPadded
  rwa [Text.length_zeroPadded hpos h, Text.ofDigitChars_zeroPadded] at hread

theorem mark_cons {c : Char} {allowed : List Char} (rest : List Char) (h : c ∈ allowed) :
    mark allowed (c :: rest) = .ok rest := if_pos h

-- ---------------------------------------------------------------------------
-- The parts of an instant
-- ---------------------------------------------------------------------------

/-- A date that exists is read back, if its year needs no sign. -/
theorem readDate_append {d : CivilDate} (rest : List Char) (hlow : 0 ≤ d.year)
    (hhigh : d.year ≤ 9999) (hexists : d.Exists) :
    readDate (yearChars d.year ++ ('-' :: zeroPadded 2 d.month ++
      ('-' :: zeroPadded 2 d.day ++ rest))) = .ok (d, rest) := by
  obtain ⟨hm, hm', hd, hd'⟩ := hexists
  have hday : d.day < 100 := by
    have : CivilDate.monthLength d.year d.month ≤ 31 := by
      unfold CivilDate.monthLength
      split
      · split <;> omega
      · split <;> omega
    omega
  have hyear : (d.year.toNat : Int) = d.year := by omega
  have hfour := fun rest =>
    digits_zeroPadded 4 rest (by decide) (show d.year.toNat < 10000 by omega)
  have hmonth := fun rest => digits_zeroPadded 2 rest (by decide) (show d.month < 100 by omega)
  have htwo := fun rest => digits_zeroPadded 2 rest (by decide) hday
  have hdash : ∀ rest, mark ['-'] ('-' :: rest) = .ok rest := fun rest =>
    mark_cons rest List.mem_cons_self
  unfold readDate
  rw [yearChars, if_pos ⟨hlow, hhigh⟩]
  simp only [List.cons_append, bind, Except.bind, hfour, hmonth, htwo, hdash, hyear]
  exact if_pos ⟨hm, hm', hd, hd'⟩

/-- A fraction of six digits before the letter of an offset is read as microseconds. -/
theorem readFraction_cons {micros : Nat} (rest : List Char) (h : micros < 1000000) :
    readFraction ('.' :: zeroPadded 6 micros ++ 'Z' :: rest) =
      .ok (micros * 1000, 'Z' :: rest) := by
  have hlen : (zeroPadded 6 micros).length = 6 := Text.length_zeroPadded (by decide) h
  have hall : ∀ c ∈ zeroPadded 6 micros, c.isDigit = true := fun c => Text.isDigit_of_mem_zeroPadded
  have htake : (zeroPadded 6 micros ++ 'Z' :: rest).takeWhile Char.isDigit =
      zeroPadded 6 micros := by
    rw [List.takeWhile_append_of_pos hall]
    simp
  have hdrop : (zeroPadded 6 micros ++ 'Z' :: rest).dropWhile Char.isDigit = 'Z' :: rest := by
    rw [List.dropWhile_append_of_pos hall]
    rfl
  have hnanos : fractionNanos (zeroPadded 6 micros) = micros * 1000 := by
    have hcut : (zeroPadded 6 micros ++ List.replicate 9 '0').take 9 =
        zeroPadded 6 micros ++ List.replicate 3 '0' := by
      rw [List.take_append, hlen, List.take_of_length_le (by omega)]
      rfl
    rw [fractionNanos, hcut, Nat.ofDigitChars_append, Text.ofDigitChars_zeroPadded,
      Nat.ofDigitChars_replicate_zero]
    omega
  rw [List.cons_append, readFraction, htake, hdrop]
  cases hds : zeroPadded 6 micros with
  | nil =>
    rw [hds] at hlen
    simp at hlen
  | cons d ds =>
    rw [hds] at hnanos
    simp only [hnanos]

theorem clock_eq (inDay : Nat) :
    inDay / 3600 * 3600 + inDay / 60 % 60 * 60 + inDay % 60 = inDay := by
  omega

theorem micros_eq (nanos : Nat) :
    nanos % 1000000000 / 1000 * 1000 + nanos / 1000000000 * 1000000000 = nanos - nanos % 1000 := by
  omega

/-- A time of day is read back; nanoseconds beyond a second are written as second 60. -/
theorem readTime_append {inDay nanos : Nat} (rest : List Char) (hday : inDay < 86400)
    (hnanos : nanos < 2000000000) (hleap : 1000000000 ≤ nanos → inDay % 60 = 59) :
    readTime (zeroPadded 2 (inDay / 3600) ++ (':' :: zeroPadded 2 (inDay / 60 % 60) ++
      (':' :: zeroPadded 2 (inDay % 60 + nanos / 1000000000) ++
        ('.' :: zeroPadded 6 (nanos % 1000000000 / 1000) ++ 'Z' :: rest)))) =
      .ok ((inDay, nanos - nanos % 1000), 'Z' :: rest) := by
  have hclock := clock_eq inDay
  have hhours : inDay / 3600 ≤ 23 := by omega
  have hhour := fun rest =>
    digits_zeroPadded 2 rest (by decide) (show inDay / 3600 < 100 by omega)
  have hminute := fun rest =>
    digits_zeroPadded 2 rest (by decide) (show inDay / 60 % 60 < 100 by omega)
  have hsecond := fun rest =>
    digits_zeroPadded 2 rest (by decide) (show inDay % 60 + nanos / 1000000000 < 100 by omega)
  have hcolon : ∀ rest, mark [':'] (':' :: rest) = .ok rest := fun rest =>
    mark_cons rest List.mem_cons_self
  have hfraction := readFraction_cons rest (show nanos % 1000000000 / 1000 < 1000000 by omega)
  rw [List.cons_append] at hfraction
  unfold readTime
  simp only [List.cons_append, bind, Except.bind, hhour, hminute, hsecond, hcolon, hfraction]
  have hmicros := micros_eq nanos
  by_cases hover : 1000000000 ≤ nanos
  · -- a leap second stays in the second before
    have hover' : nanos / 1000000000 = 1 := by omega
    rw [hover', Nat.one_mul] at hmicros
    rw [hleap hover] at hclock
    simp only [hover', hleap hover, if_true, hclock, hmicros]
    exact if_pos ⟨hhours, by omega, by omega⟩
  · have hunder : nanos / 1000000000 = 0 := by omega
    have hplain : ¬ inDay % 60 = 60 := by omega
    rw [hunder, Nat.zero_mul, Nat.add_zero] at hmicros
    simp only [hunder, Nat.add_zero, hplain, if_false, hclock, hmicros]
    exact if_pos ⟨hhours, by omega, by omega⟩

-- ---------------------------------------------------------------------------
-- Whole texts
-- ---------------------------------------------------------------------------

/-- The characters of an instant, one part after the other. -/
theorem chars_eq (t : Timestamp) :
    t.chars = yearChars t.date.year ++ ('-' :: zeroPadded 2 t.date.month ++
      ('-' :: zeroPadded 2 t.date.day ++
        ('T' :: (zeroPadded 2 ((t.seconds % 86400).toNat / 3600) ++
          (':' :: zeroPadded 2 ((t.seconds % 86400).toNat / 60 % 60) ++
            (':' :: zeroPadded 2 ((t.seconds % 86400).toNat % 60 + t.nanos / 1000000000) ++
              ('.' :: zeroPadded 6 (t.nanos % 1000000000 / 1000) ++ 'Z' :: []))))))) := by
  unfold chars
  simp only [List.append_assoc, List.cons_append]

theorem four_le_length_yearChars (y : Int) : 4 ≤ (yearChars y).length := by
  unfold yearChars
  split
  · exact Text.le_length_zeroPadded 4 y.toNat
  · exact Nat.le_succ_of_le (Text.le_length_zeroPadded 4 y.natAbs)

theorem length_le_byteCount (cs : List Char) : cs.length ≤ byteCount cs := by
  have hfold : ∀ (cs : List Char) (n : Nat),
      n + cs.length ≤ cs.foldl (fun n c => n + c.utf8Size) n := by
    intro cs
    induction cs with
    | nil => intro n; exact Nat.le_refl n
    | cons c cs ih =>
      intro n
      have hc := c.utf8Size_pos
      have hrest := ih (n + c.utf8Size)
      rw [List.foldl_cons, List.length_cons]
      omega
  have h := hfold cs 0
  rwa [Nat.zero_add] at h

/-- The characters of an instant are more than a reader wants at least. -/
theorem byteCount_chars (t : Timestamp) : 19 ≤ byteCount t.chars := by
  have hyear := four_le_length_yearChars t.date.year
  have hmonth := Text.le_length_zeroPadded 2 t.date.month
  have hmicros := Text.le_length_zeroPadded 6 (t.nanos % 1000000000 / 1000)
  refine Nat.le_trans ?_ (length_le_byteCount t.chars)
  rw [chars_eq]
  simp only [List.length_append, List.length_cons, List.length_nil]
  omega

/-- **The text of an instant of a year without a sign reads back as the instant cut to
microseconds.** -/
theorem read_text {t : Timestamp} (hlow : 0 ≤ t.year) (hhigh : t.year ≤ 9999) :
    read t.text = .ok t.truncated := by
  have hexists : t.date.Exists := CivilDate.exists_ofDayNumber _
  have hnumber : t.date.dayNumber = t.seconds / 86400 := CivilDate.dayNumber_ofDayNumber _
  have hday : (t.seconds % 86400).toNat < 86400 := by omega
  have hleap : 1000000000 ≤ t.nanos → (t.seconds % 86400).toNat % 60 = 59 := by
    intro h
    have := t.leap h
    omega
  have hsum : t.date.dayNumber * 86400 + ((t.seconds % 86400).toNat : Int) - 0 * 60 =
      t.seconds := by
    rw [hnumber]
    omega
  have hbytes : ¬ byteCount t.chars < 19 := Nat.not_lt.mpr (byteCount_chars t)
  have hmark : ∀ rest, mark ['T', 't', ' '] ('T' :: rest) = .ok rest := fun rest =>
    mark_cons rest List.mem_cons_self
  have hoffset : readOffset ['Z'] = .ok (0, []) := rfl
  have hparts : ofParts? t.seconds (t.nanos - t.nanos % 1000) = some t.truncated := by
    refine dif_pos ⟨?_, fun h => t.leap (by omega)⟩
    have := t.nanos_lt
    omega
  unfold read text readChars
  rw [String.toList_ofList]
  simp only [hbytes, if_false]
  rw [chars_eq]
  simp only [bind, Except.bind, readDate_append _ hlow hhigh hexists, hmark,
    readTime_append [] hday t.nanos_lt hleap, hoffset, hsum, hparts]
  rfl

/-- A reader that looks for the digits of a year does not find them in a sign. -/
theorem read_signed {s : String} (h : Text.isSigned s = true) (hbytes : 19 ≤ byteCount s.toList) :
    read s = .error .invalid := by
  unfold read readChars
  cases hchars : s.toList with
  | nil =>
    rw [hchars] at hbytes
    exact absurd hbytes (by decide)
  | cons c rest =>
    have hc : c.isDigit = false := by
      unfold Text.isSigned at h
      simp only [hchars, Bool.or_eq_true, beq_iff_eq] at h
      rcases h with rfl | rfl
      · decide
      · decide
    have hdigits : digits 4 0 (c :: rest) = .error .invalid := by
      rw [digits, hc]
      rfl
    rw [hchars] at hbytes
    simp only [Nat.not_lt.mpr hbytes, if_false]
    unfold readDate
    simp only [bind, Except.bind, hdigits]

/-- A text that begins with a sign is no instant to a reader. -/
theorem read_of_isSigned {s : String} (h : Text.isSigned s = true) :
    ∃ fault, read s = .error fault := by
  by_cases hbytes : byteCount s.toList < 19
  · refine ⟨.tooShort, ?_⟩
    unfold read readChars
    simp only [hbytes, if_true]
    rfl
  · exact ⟨.invalid, read_signed h (Nat.not_lt.mp hbytes)⟩

/-- The text of an instant of any other year begins with the sign of the year. -/
theorem isSigned_text {t : Timestamp} (h : ¬ (0 ≤ t.year ∧ t.year ≤ 9999)) :
    Text.isSigned t.text = true := by
  have h : ¬ (0 ≤ t.date.year ∧ t.date.year ≤ 9999) := h
  rw [Text.isSigned, text, String.toList_ofList, chars_eq, yearChars, if_neg h]
  by_cases hneg : t.date.year < 0
  · rw [if_pos hneg]
    rfl
  · rw [if_neg hneg]
    rfl

/-- Such a text does not read back. -/
theorem read_text_of_signed {t : Timestamp} (h : ¬ (0 ≤ t.year ∧ t.year ≤ 9999)) :
    ∃ fault, read t.text = .error fault :=
  read_of_isSigned (isSigned_text h)

-- ---------------------------------------------------------------------------
-- Plain instants
-- ---------------------------------------------------------------------------

/-- Whether an instant is given to the microsecond. -/
def isMicros (t : Timestamp) : Bool := t.nanos % 1000 == 0

/-- Whether an instant is given to the microsecond and lies in a year without a sign. -/
def isPlain (t : Timestamp) : Bool := t.isMicros && 0 ≤ t.year && t.year ≤ 9999

theorem isPlain_iff {t : Timestamp} :
    t.isPlain = true ↔ t.isMicros = true ∧ 0 ≤ t.year ∧ t.year ≤ 9999 := by
  simp [isPlain, and_assoc]

theorem truncated_of_isMicros {t : Timestamp} (h : t.isMicros = true) : t.truncated = t := by
  have hmicros : t.nanos % 1000 = 0 := by simpa [isMicros] using h
  cases t
  simp only [truncated, mk.injEq, true_and] at hmicros ⊢
  omega

/-- What is cut off is not written. -/
theorem text_truncated (t : Timestamp) : t.truncated.text = t.text := by
  have hover : (t.nanos - t.nanos % 1000) / 1000000000 = t.nanos / 1000000000 := by omega
  have hmicros : (t.nanos - t.nanos % 1000) % 1000000000 / 1000 =
      t.nanos % 1000000000 / 1000 := by omega
  have hdate : t.truncated.date = t.date := rfl
  rw [text, text, chars_eq, chars_eq, hdate]
  simp only [truncated, hover, hmicros]

theorem before_iff {a b : Timestamp} :
    a.before b = true ↔ a.seconds < b.seconds ∨ a.seconds = b.seconds ∧ a.nanos < b.nanos := by
  unfold before compare
  rw [beq_iff_eq]
  rcases Int.lt_trichotomy a.seconds b.seconds with hlt | heq | hgt
  · have hcompare : Ord.compare a.seconds b.seconds = .lt := Int.compare_eq_lt.mpr hlt
    simp [hcompare, hlt]
  · simp [heq, Nat.compare_eq_lt]
  · have hcompare : Ord.compare a.seconds b.seconds = .gt := Int.compare_eq_gt.mpr hgt
    simp only [hcompare, reduceCtorEq, false_iff]
    omega

/-- Instants that are cut do not change places. -/
theorem before_truncated {a b : Timestamp} (h : a.before b = false) :
    a.truncated.before b.truncated = false := by
  rw [Bool.eq_false_iff, ne_eq, before_iff] at h ⊢
  simp only [truncated] at h ⊢
  omega

/-- Instants that are given in microseconds are. -/
theorem isMicros_of_ofMicros? {micros : Int} {t : Timestamp} (h : ofMicros? micros = some t) :
    t.isMicros = true := by
  unfold ofMicros? at h
  simp only at h
  split at h
  · unfold ofParts? at h
    split at h
    · rw [← Option.some.inj h]
      have hnanos : (micros % 1000000 * 1000).toNat % 1000 = 0 := by omega
      simpa [isMicros] using hnanos
    · simp at h
  · simp at h

/-- The text of a plain instant stands for it. -/
theorem read_text_of_isPlain {t : Timestamp} (h : t.isPlain = true) : read t.text = .ok t := by
  obtain ⟨hmicros, hlow, hhigh⟩ := isPlain_iff.mp h
  rw [read_text hlow hhigh, truncated_of_isMicros hmicros]

/-- **A plain instant shares its text with no other instant that is given to the microsecond.** -/
theorem eq_of_text_eq {t u : Timestamp} (ht : t.isPlain = true) (hu : u.isMicros = true)
    (h : t.text = u.text) : t = u := by
  have hread := read_text_of_isPlain ht
  rw [h] at hread
  by_cases hyear : 0 ≤ u.year ∧ u.year ≤ 9999
  · rw [read_text hyear.1 hyear.2, truncated_of_isMicros hu] at hread
    exact (Except.ok.inj hread).symm
  · obtain ⟨fault, hfault⟩ := read_text_of_signed hyear
    rw [hfault] at hread
    simp at hread

-- ---------------------------------------------------------------------------
-- What else a text of an instant is not
-- ---------------------------------------------------------------------------

/-- The characters of an instant begin with one that is not blank and end with a letter. -/
theorem exists_chars (t : Timestamp) :
    ∃ c mid, t.chars = c :: (mid ++ ['Z']) ∧ Text.isBlank c = false := by
  have hyear : ∃ c rest, yearChars t.date.year = c :: rest ∧ Text.isBlank c = false := by
    unfold yearChars
    split
    · cases hds : zeroPadded 4 t.date.year.toNat with
      | nil =>
        have := Text.le_length_zeroPadded 4 t.date.year.toNat
        rw [hds] at this
        simp at this
      | cons c rest =>
        have hc : c ∈ zeroPadded 4 t.date.year.toNat := hds ▸ List.mem_cons_self
        exact ⟨c, rest, rfl, Text.isBlank_of_isDigit (Text.isDigit_of_mem_zeroPadded hc)⟩
    · refine ⟨_, _, rfl, ?_⟩
      split <;> decide
  obtain ⟨c, rest, hyear, hc⟩ := hyear
  obtain ⟨front, hfront, mid, rfl⟩ :
      ∃ front, t.chars = front ++ ['Z'] ∧ ∃ mid, front = c :: mid := by
    refine ⟨_, rfl, ?_⟩
    rw [hyear]
    exact ⟨_, rfl⟩
  exact ⟨c, mid, hfront, hc⟩

/-- The text of an instant has no blanks around it. -/
theorem trim_text (t : Timestamp) : Text.trim t.text = t.text := by
  obtain ⟨c, mid, hchars, hc⟩ := exists_chars t
  rw [Text.trim, text, String.toList_ofList, hchars,
    Text.trimChars_of_not_blank hc (show Text.isBlank 'Z' = false by decide)]

/-- The text of an instant is no integer. -/
theorem int64?_text (t : Timestamp) : Text.int64? t.text = none := by
  obtain ⟨c, mid, hchars, -⟩ := exists_chars t
  have hletter : 'Z' ∈ t.chars := by
    rw [hchars]
    simp
  rw [Text.int64?, text, String.toList_ofList,
    Text.integer?_of_mem hletter (by decide) (by decide) (by decide), Option.bind_none]

/-- The text of an instant is written with printed characters. -/
theorem not_mem_chars {c : Char} (h : c.toNat < 0x20) (t : Timestamp) : c ∉ t.chars := by
  have hdigits : ∀ width n, c ∉ zeroPadded width n := fun width n hc => by
    have hdigit := Text.isDigit_of_mem_zeroPadded hc
    simp only [Char.isDigit, Bool.and_eq_true, decide_eq_true_eq, ge_iff_le,
      UInt32.le_iff_toNat_le] at hdigit
    have hlow : 48 ≤ c.toNat := hdigit.1
    omega
  have hne : ∀ d : Char, 0x20 ≤ d.toNat → c ≠ d := fun d hd e => by
    rw [e] at h
    omega
  have hyear : c ∉ yearChars t.date.year := by
    unfold yearChars
    split
    · exact hdigits _ _
    · rw [List.mem_cons, not_or]
      refine ⟨?_, hdigits _ _⟩
      split
      · exact hne _ (by decide)
      · exact hne _ (by decide)
  rw [chars_eq]
  simp [hdigits, hyear, hne '-' (by decide), hne 'T' (by decide), hne ':' (by decide),
    hne '.' (by decide), hne 'Z' (by decide)]

/-- The text of an instant is no truth value. -/
theorem text_ne {t : Timestamp} {s : String} (h : 'Z' ∉ s.toList) : t.text ≠ s := by
  obtain ⟨c, mid, hchars, -⟩ := exists_chars t
  intro e
  refine h ?_
  rw [← e, text, String.toList_ofList, hchars]
  simp

end Timestamp

end Backlog
