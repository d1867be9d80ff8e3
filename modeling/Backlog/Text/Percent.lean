/-!
# Percent encoding

A text in a query keeps its unreserved characters and writes every other byte of its UTF-8 form
as a percent sign and two hexadecimal digits.

## Main statements

* `decode?_encode` — decoding gives back the bytes that were encoded;
* `encode_injective` — texts with the same encoding are the same.
-/

namespace Backlog.Text.Percent

/-- The bytes that stand for themselves: letters, digits, hyphen, dot, underscore and tilde. -/
def isUnreserved (b : UInt8) : Bool :=
  (48 ≤ b && b ≤ 57) || (65 ≤ b && b ≤ 90) || (97 ≤ b && b ≤ 122) ||
    b == 45 || b == 46 || b == 95 || b == 126

/-- The capital hexadecimal digit of a value below sixteen. -/
def hexDigit (n : Nat) : Char := if n < 10 then Char.ofNat (48 + n) else Char.ofNat (55 + n)

/-- A byte in a query. -/
def encodeByte (b : UInt8) : List Char :=
  if isUnreserved b then [Char.ofNat b.toNat]
  else ['%', hexDigit (b.toNat / 16), hexDigit (b.toNat % 16)]

/-- Bytes in a query. -/
def encodeBytes (bs : List UInt8) : List Char := bs.flatMap encodeByte

/-- A text in a query. -/
def encode (s : String) : String := String.ofList (encodeBytes s.toUTF8.data.toList)

/-! ## Decoding -/

/-- The value of a capital hexadecimal digit. -/
def hexValue? (c : Char) : Option Nat :=
  if '0' ≤ c ∧ c ≤ '9' then some (c.toNat - 48)
  else if 'A' ≤ c ∧ c ≤ 'F' then some (c.toNat - 55)
  else none

/-- The bytes that a part of a query stands for. -/
def decode? : List Char → Option (List UInt8)
  | [] => some []
  | '%' :: a :: b :: rest =>
    match hexValue? a, hexValue? b, decode? rest with
    | some x, some y, some bs => some (UInt8.ofNat (x * 16 + y) :: bs)
    | _, _, _ => none
  | c :: rest =>
    if c.toNat < 128 ∧ isUnreserved (UInt8.ofNat c.toNat) then
      (decode? rest).map (UInt8.ofNat c.toNat :: ·)
    else none

theorem hexValue?_hexDigit : ∀ n, n < 16 → hexValue? (hexDigit n) = some n := by decide

theorem toNat_lt_of_isUnreserved {b : UInt8} (h : isUnreserved b = true) : b.toNat < 128 := by
  simp only [isUnreserved, Bool.or_eq_true, Bool.and_eq_true, decide_eq_true_eq,
    UInt8.le_iff_toNat_le, beq_iff_eq] at h
  rcases h with (((((h | h) | h) | h) | h) | h) | h
  · exact Nat.lt_of_le_of_lt h.2 (by decide)
  · exact Nat.lt_of_le_of_lt h.2 (by decide)
  · exact Nat.lt_of_le_of_lt h.2 (by decide)
  all_goals subst h; decide

theorem toNat_ofNat_byte {b : UInt8} (h : b.toNat < 128) :
    (Char.ofNat b.toNat).toNat = b.toNat := by
  have hv : b.toNat.isValidChar := Or.inl (by omega)
  rw [Char.ofNat, dif_pos hv]
  rfl

theorem decode?_encodeByte (b : UInt8) (rest : List Char) :
    decode? (encodeByte b ++ rest) = (decode? rest).map (b :: ·) := by
  unfold encodeByte
  split
  -- the byte stands for itself, and it is no percent sign
  · next h =>
    have hb := toNat_lt_of_isUnreserved h
    have hc : Char.ofNat b.toNat ≠ '%' := fun he => by
      have : b.toNat = 37 := by rw [← toNat_ofNat_byte hb, he]; decide
      have hb' : b = 37 := UInt8.toNat_inj.mp (by rw [this]; decide)
      subst hb'
      exact absurd h (by decide)
    rw [List.singleton_append]
    rw [decode?.eq_def]
    split
    · next he => exact absurd he (by simp)
    · next he => exact absurd (List.cons.inj he).1 hc
    · next he =>
      obtain ⟨h1, h2⟩ := List.cons.inj he
      subst h1 h2
      rw [toNat_ofNat_byte hb, if_pos ⟨hb, by simpa using h⟩]
      simp
  -- two digits make up the byte
  · have h1 : b.toNat / 16 < 16 := by have := b.toNat_lt; omega
    have h2 : b.toNat % 16 < 16 := by omega
    have hb : b.toNat / 16 * 16 + b.toNat % 16 = b.toNat := by omega
    simp only [List.cons_append, List.nil_append, decode?, hexValue?_hexDigit _ h1,
      hexValue?_hexDigit _ h2]
    cases decode? rest <;> simp [hb]

/-- Decoding gives back the bytes that were encoded. -/
theorem decode?_encode (bs : List UInt8) : decode? (encodeBytes bs) = some bs := by
  induction bs with
  | nil => rfl
  | cons b bs ih =>
    rw [encodeBytes, List.flatMap_cons, decode?_encodeByte, ← encodeBytes, ih]
    rfl

/-- Texts with the same encoding are the same. -/
theorem encode_injective {s t : String} (h : encode s = encode t) : s = t := by
  have hl : encodeBytes s.toUTF8.data.toList = encodeBytes t.toUTF8.data.toList := by
    simpa [encode] using congrArg String.toList h
  have hb : s.toUTF8.data.toList = t.toUTF8.data.toList := by
    have := congrArg decode? hl
    rwa [decode?_encode, decode?_encode, Option.some.injEq] at this
  exact String.toByteArray_inj.mp (ByteArray.ext (Array.toList_inj.mp hb))

end Backlog.Text.Percent
