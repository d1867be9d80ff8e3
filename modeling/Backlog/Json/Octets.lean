import Backlog.Json.Literal
import Backlog.Text.Octets

/-!
# Octets of a quoted text

What a quoted text stands for when nobody insists on characters: two units of a pair make one
character, half of a pair stands for its own octets, and the unit zero ends the text.

## Main statements

* `Literal.octets_ofChars` — the quoted form of a text without the character zero stands for the
  octets of that text.
-/

namespace Backlog.Json

/-- A part of a text that is put together: octets, or a UTF-16 code unit. -/
inductive Chunk
  | octets (os : List Char)
  | unit (u : Nat)
  deriving DecidableEq, Repr

namespace Chunk

/-- The octets of half of a pair that found no other half. -/
def halfOctets : Option Nat → List Char
  | none => []
  | some u => Text.octetsOfCode u

/-- Put parts together, after half of a pair that may be waiting for its other half. -/
def joinAfter : Option Nat → List Chunk → List Char
  | half, [] => halfOctets half
  | half, .octets os :: rest => halfOctets half ++ os ++ joinAfter none rest
  | half, .unit u :: rest =>
    if u = 0 then halfOctets half
    else
      match half with
      | some h =>
        if Literal.isLow u then
          Text.octetsOfCode (Literal.joined h u).toNat ++ joinAfter none rest
        else if Literal.isHigh u then Text.octetsOfCode h ++ joinAfter (some u) rest
        else Text.octetsOfCode h ++ Text.octetsOfCode u ++ joinAfter none rest
      | none =>
        if Literal.isHigh u then joinAfter (some u) rest
        else Text.octetsOfCode u ++ joinAfter none rest

/-- Put parts together. -/
def join (cs : List Chunk) : List Char := joinAfter none cs

end Chunk

namespace Literal

/-- A piece as a part of a text. -/
def chunkOf : Piece → Chunk
  | .plain c => .octets (Text.octetsOfCode c.toNat)
  | .code u _ => .unit u

/-- The octets that a quoted text stands for. -/
def octets (l : Literal) : List Char := Chunk.join (l.map chunkOf)

/-- The quoted form of a text without the character zero stands for the octets of that text. -/
theorem octets_ofChars {cs : List Char} (h : ∀ c ∈ cs, c.toNat ≠ 0) :
    octets (ofChars cs) = Text.octets cs := by
  unfold octets Chunk.join ofChars
  induction cs with
  | nil => rfl
  | cons c cs ih =>
    have ih := ih fun d hd => h d (List.mem_cons_of_mem c hd)
    have h0 := h c List.mem_cons_self
    simp only [List.map_cons, Text.octets, List.flatMap_cons]
    rw [pieceOf]
    split
    · next hq =>
      have hlow := toNat_lt_of_escape? hq
      rw [chunkOf, Chunk.joinAfter, if_neg h0, if_neg (by simp [isHigh]; omega), ih]
      rfl
    · rw [chunkOf, Chunk.joinAfter, ih]
      rfl

end Literal

end Backlog.Json
