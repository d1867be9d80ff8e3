/-!
# Blank characters

A character is blank when it has the Unicode property `White_Space`. Names, identities and
identifiers are judged by this property: a name made of blank characters counts as empty,
and an identifier holds none of them. Zero-width characters without the property (U+200B,
U+FEFF) are ordinary characters.

## Main statements

* `trimChars_eq_nil_iff` — trimming leaves nothing exactly when every character is blank;
* `isBlank_of_isWhitespace` — the ASCII class of the core library is part of the property.
-/

namespace Backlog.Text

/-- The code points with the property `White_Space`, as closed ranges. -/
def blankRanges : List (Nat × Nat) :=
  [(0x09, 0x0D), (0x20, 0x20), (0x85, 0x85), (0xA0, 0xA0), (0x1680, 0x1680), (0x2000, 0x200A),
   (0x2028, 0x2029), (0x202F, 0x202F), (0x205F, 0x205F), (0x3000, 0x3000)]

/-- Whether a character has the property `White_Space`. -/
def isBlank (c : Char) : Bool := blankRanges.any fun r => r.1 ≤ c.toNat && c.toNat ≤ r.2

/-- Drop the blank characters at both ends. -/
def trimChars (cs : List Char) : List Char :=
  ((cs.dropWhile isBlank).reverse.dropWhile isBlank).reverse

/-- Drop the blank characters at both ends. -/
def trim (s : String) : String := String.ofList (trimChars s.toList)

/-- Whether a text holds nothing but blank characters. -/
def blank (s : String) : Bool := s.toList.all isBlank

/-- ASCII capitals become small letters; every other character stays. -/
def asciiLower (s : String) : String := String.ofList (s.toList.map Char.toLower)

/-- Fill up with spaces on the right to a width counted in characters. -/
def padRight (width : Nat) (s : String) : String :=
  s ++ String.ofList (List.replicate (width - s.toList.length) ' ')

/-! ## Small laws -/

theorem isBlank_of_isWhitespace {c : Char} (h : c.isWhitespace = true) : isBlank c = true := by
  simp only [Char.isWhitespace, Bool.or_eq_true, decide_eq_true_eq] at h
  rcases h with ((h | h) | h) | h <;> subst h <;> decide

theorem dropWhile_eq_nil_iff {p : Char → Bool} : ∀ {cs : List Char},
    cs.dropWhile p = [] ↔ ∀ c ∈ cs, p c = true
  | [] => by simp
  | c :: cs => by
    rw [List.dropWhile_cons]
    split
    · next h => rw [dropWhile_eq_nil_iff]; simp [h]
    · next h => simp [h]

/-- Trimming leaves nothing exactly when every character is blank. -/
theorem trimChars_eq_nil_iff {cs : List Char} :
    trimChars cs = [] ↔ ∀ c ∈ cs, isBlank c = true := by
  unfold trimChars
  rw [List.reverse_eq_nil_iff, dropWhile_eq_nil_iff]
  constructor
  · intro h
    -- the first character that is left would not be blank
    match hd : cs.dropWhile isBlank with
    | [] => exact dropWhile_eq_nil_iff.mp hd
    | c :: rest =>
      have hc : isBlank c = true := h c (by simp [hd])
      have hn := List.head?_dropWhile_not isBlank cs
      rw [hd] at hn
      simp [hc] at hn
  · intro h c hc
    rw [dropWhile_eq_nil_iff.mpr h] at hc
    simp at hc

end Backlog.Text
