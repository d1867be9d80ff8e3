import Backlog.Proofs.ReadBack

/-!
# What a stored form loses

A literal becomes a value of a kind in many ways: a number in a text with blanks around it, an
instant with any offset and any fraction of a second, a number where an identifier is asked for. The
stored form of the value is one of them, the same for all, and what is read from it is the value
again. Only instants have more to them than their form: of a fraction of a second it has the
microseconds, and if the year of the instant in UTC has a sign no reader takes the form back. What
was read once from a stored form is lost no more.

## Main results

* `FieldValue.ofJson_toJson_of_signed` — an instant in a year with a sign is refused, as a text with
  characters that are no digits;
* `FieldValue.ofJson_toJson_eq_ok_iff` — which values come back as they are;
* `FieldValue.ofJson_stored` — what is read from the stored form of a value that was read;
* `FieldValue.ofJson_stored_twice` — the second reading gives what the first one gave.
-/

namespace Backlog

namespace Timestamp

/-- The text of an instant in a year with a sign has a sign where a reader wants a digit. -/
theorem IsSigned.read_text {t : Timestamp} (h : t.IsSigned) : read t.text = .error .invalid :=
  read_signed (isSigned_text h) <| by
    rw [text, String.toList_ofList]
    exact byteCount_chars t

theorem nanos_truncated (t : Timestamp) : t.truncated.nanos = t.nanos / 1000 * 1000 := by
  simp only [truncated]
  omega

end Timestamp

namespace FieldValue

variable {kind : FieldKind} {literal : Json} {v w : FieldValue}

theorem truncated_truncated (v : FieldValue) : v.truncated.truncated = v.truncated := by
  cases v with
  | timestamp t => exact congrArg timestamp t.truncated_truncated
  | _ => rfl

/-- A value that is cut has the form it had. -/
theorem toJson_truncated (v : FieldValue) : v.truncated.toJson = v.toJson := by
  cases v with
  | timestamp t => exact congrArg Json.string t.text_truncated
  | _ => rfl

/-- An instant in a year with a sign is not read from its form, for the sign. -/
theorem ofJson_toJson_of_signed {t : Timestamp} (h : t.IsSigned) :
    ofJson .timestamp (toJson (.timestamp t)) = .error (.unreadable t.text .invalid) := by
  simp only [ofJson, toJson, timestampOf, Timestamp.trim_text, h.read_text]
  rfl

/-- What is read from the form of a value that was read, if it is read at all, is the value cut to
microseconds. -/
theorem ofJson_toJson_cases (h : ofJson kind literal = .ok v) :
    (¬ v.IsSigned ∧ ofJson kind v.toJson = .ok v.truncated) ∨
      ∃ t, v = .timestamp t ∧ t.IsSigned ∧
        ofJson kind v.toJson = .error (.unreadable t.text .invalid) := by
  by_cases hsigned : v.IsSigned
  · obtain ⟨t, rfl, ht⟩ := hsigned
    obtain rfl : FieldKind.timestamp = kind := ofJson_kind h
    exact .inr ⟨t, rfl, ht, ofJson_toJson_of_signed ht⟩
  · exact .inl ⟨hsigned, ofJson_toJson h hsigned⟩

/-- A value comes back as it is unless it is an instant that is finer than a microsecond or lies in
a year with a sign. -/
theorem ofJson_toJson_eq_ok_iff (h : ofJson kind literal = .ok v) :
    ofJson kind v.toJson = .ok v ↔ ¬ v.IsSigned ∧ v.truncated = v := by
  rcases ofJson_toJson_cases h with ⟨hunsigned, hread⟩ | ⟨t, rfl, ht, hread⟩
  · rw [hread, Except.ok.injEq]
    exact ⟨fun hcut => ⟨hunsigned, hcut⟩, And.right⟩
  · rw [hread]
    exact iff_of_false (fun e => nomatch e) fun hboth => hboth.1 ⟨t, rfl, ht⟩

/-- **What a stored form loses.** Whatever the literal was that a value was read from: from the form
it is stored in the value is read again as it is, if it is no instant; an instant is read again in
its second with its fraction cut to whole microseconds, if its year in UTC is written without a
sign; and reading fails just for instants of all other years. -/
theorem ofJson_stored (h : ofJson kind literal = .ok v) :
    ((∀ t, v ≠ .timestamp t) → ofJson kind v.toJson = .ok v) ∧
      (∀ t, v = .timestamp t → 0 ≤ t.year → t.year ≤ 9999 →
        ∃ u, ofJson kind v.toJson = .ok (.timestamp u) ∧ u.seconds = t.seconds ∧
          u.nanos = t.nanos / 1000 * 1000) ∧
      ((∃ fault, ofJson kind v.toJson = .error fault) ↔
        ∃ t, v = .timestamp t ∧ ¬ (0 ≤ t.year ∧ t.year ≤ 9999)) := by
  refine ⟨fun hplain => ?_, fun t ht hlow hhigh => ?_, ?_⟩
  · have hcut : v.truncated = v := by
      cases v with
      | timestamp t => exact absurd rfl (hplain t)
      | _ => rfl
    exact (ofJson_toJson_eq_ok_iff h).mpr ⟨fun ⟨t, ht, _⟩ => hplain t ht, hcut⟩
  · subst ht
    rcases ofJson_toJson_cases h with ⟨-, hread⟩ | ⟨u, hu, hsigned, -⟩
    · exact ⟨t.truncated, hread, rfl, t.nanos_truncated⟩
    · obtain rfl := timestamp.inj hu
      exact absurd ⟨hlow, hhigh⟩ hsigned
  · rcases ofJson_toJson_cases h with ⟨hunsigned, hread⟩ | ⟨t, ht, hsigned, hread⟩
    · rw [hread]
      exact iff_of_false (fun ⟨_, e⟩ => nomatch e) hunsigned
    · rw [hread]
      exact iff_of_true ⟨_, rfl⟩ ⟨t, ht, hsigned⟩

/-- A leap second that its offset moves into the next year, with a fraction of ten digits. -/
def leapSecond : Timestamp := ⟨946693799, 1123456789, by decide, by decide⟩

/-- The instant an eighth of a second into the last minute before the year 0. -/
def beforeYears : Timestamp :=
  ⟨CivilDate.dayNumber ⟨0, 1, 1⟩ * 86400 - 60, 125000000, by decide, by decide⟩

/-- The leap second comes back in its second and cut to microseconds, and the instant before the
year 0 does not come back. -/
theorem ofJson_stored_leapSecond :
    (∃ u, ofJson .timestamp (toJson (.timestamp leapSecond)) = .ok (.timestamp u) ∧
        u.seconds = 946693799 ∧ u.nanos = 1123456000) ∧
      ∃ fault, ofJson .timestamp (toJson (.timestamp beforeYears)) = .error fault := by
  have hleap : ofJson .timestamp (.string " 1999-12-31T23:29:60.1234567891-03:00 ") =
      .ok (.timestamp leapSecond) := ofJson?_eq_some_iff.mp (by decide +kernel)
  have hbefore : ofJson .timestamp (.string "0000-01-01T00:00:00.125+00:01") =
      .ok (.timestamp beforeYears) := ofJson?_eq_some_iff.mp (by decide +kernel)
  exact ⟨(ofJson_stored hleap).2.1 leapSecond rfl (by decide +kernel) (by decide +kernel),
    (ofJson_stored hbefore).2.2.mpr ⟨beforeYears, rfl, by decide +kernel⟩⟩

/-- What was read from a stored form once is read from its own form as it is. -/
theorem ofJson_stored_twice (h : ofJson kind literal = .ok v)
    (hread : ofJson kind v.toJson = .ok w) : ofJson kind w.toJson = .ok w := by
  rcases ofJson_toJson_cases h with ⟨-, hcut⟩ | ⟨t, -, -, hfails⟩
  · obtain rfl := Except.ok.inj (hread.symm.trans hcut)
    rw [toJson_truncated, hread]
  · rw [hread] at hfails
    exact nomatch hfails

end FieldValue

end Backlog
