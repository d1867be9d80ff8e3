/-!
# Octets of a text

The UTF-8 form of a text as a list of octets. An octet is written as the character with its number,
so every one of them lies below U+0100 and the octets of ASCII are ASCII. Half of a pair of UTF-16
units is no character, but it has octets too.

## Main statements

* `octets_append` — the octets of two texts in a row are those of one after those of the other;
* `octetsOfCode_ascii` — an ASCII character is its own octet.
-/

namespace Backlog.Text

/-- The octet with a number. -/
def octet (n : Nat) : Char := Char.ofNat (n % 256)

/-- The octets of a code point. -/
def octetsOfCode (n : Nat) : List Char :=
  if n < 0x80 then [octet n]
  else if n < 0x800 then [octet (0xC0 + n / 64), octet (0x80 + n % 64)]
  else if n < 0x10000 then
    [octet (0xE0 + n / 4096), octet (0x80 + n / 64 % 64), octet (0x80 + n % 64)]
  else
    [octet (0xF0 + n / 262144), octet (0x80 + n / 4096 % 64), octet (0x80 + n / 64 % 64),
      octet (0x80 + n % 64)]

/-- The octets of characters. -/
def octets (cs : List Char) : List Char := cs.flatMap fun c => octetsOfCode c.toNat

/-- The octets of two texts in a row are those of one after those of the other. -/
theorem octets_append (cs cs' : List Char) : octets (cs ++ cs') = octets cs ++ octets cs' :=
  List.flatMap_append

/-- An ASCII character is its own octet. -/
theorem octetsOfCode_ascii {c : Char} (h : c.toNat < 0x80) : octetsOfCode c.toNat = [c] := by
  rw [octetsOfCode, if_pos h, octet, Nat.mod_eq_of_lt (by omega), Char.ofNat_toNat]

end Backlog.Text
