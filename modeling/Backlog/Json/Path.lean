import Backlog.Json.Tree

/-!
# Paths into documents

A path leads from a document to one of its parts, leg by leg: into the member with a label, which
stands in quotes or bare behind a dot, or to an item of an array, which is counted from the front or
from the end. A label is compared with names as they are written, and it holds no escapes of its
own: the first quote ends it.

A path is read while it is followed. What is wrong with it is noticed where it is met, and some of
it only in a document of the kind that the leg would lead into; a path that leads nowhere before is
never found to be wrong.

## Main statements

* `Path.follow_ofName` — a label in quotes leads to the member with that label.
-/

namespace Backlog.Json

/-- Where a path leads: to a part of a document, nowhere, or as far as it is wrong. -/
inductive Spot
  | part (t : Tree)
  | nowhere
  | broken
  deriving Inhabited

namespace Spot

/-- The part that a path leads to. -/
def part? : Spot → Option Tree
  | .part t => some t
  | _ => none

/-- Whether a path was found to be wrong. -/
def isBroken : Spot → Bool
  | .broken => true
  | _ => false

end Spot

namespace Path

/-! ## Legs -/

/-- A leg of a path. -/
inductive Leg
  | member (label : List Char)
  | item (place : Nat)
  /-- The item that stands a number of places before the end. -/
  | back (places : Nat)
  deriving DecidableEq, Repr

/-- What is wrong with a leg, and where it is noticed. -/
inductive Flaw
  /-- A member without a label, or with a quote that is not closed. -/
  | member
  /-- An item that is counted from the end, not closed, a number of places before it. -/
  | back (places : Nat)
  | other
  deriving DecidableEq, Repr

/-- Whether a character ends a bare label. -/
def endsBare (c : Char) : Bool := c == '.' || c == '['

/-- The number of an item. It is counted in a word of 32 bits. -/
def place (digits : List Char) : Nat := Nat.ofDigitChars 10 digits 0 % 4294967296

/-- The leg at the front of a path, and what is behind it. -/
def leg : List Char → Except Flaw (Leg × List Char)
  | '.' :: '"' :: cs =>
    match cs.dropWhile (· != '"') with
    | _ :: rest => .ok (.member (cs.takeWhile (· != '"')), rest)
    | [] => .error .member
  | '.' :: cs =>
    match cs.takeWhile (!endsBare ·) with
    | [] => .error .member
    | label => .ok (.member label, cs.dropWhile (!endsBare ·))
  | '[' :: '#' :: '-' :: cs =>
    match cs.takeWhile Char.isDigit, cs.dropWhile Char.isDigit with
    | [], _ => .error (.back 0)
    | digits, ']' :: rest => .ok (.back (place digits), rest)
    | digits, _ => .error (.back (place digits))
  | '[' :: '#' :: ']' :: rest => .ok (.back 0, rest)
  | '[' :: '#' :: _ => .error (.back 0)
  | '[' :: cs =>
    match cs.takeWhile Char.isDigit, cs.dropWhile Char.isDigit with
    | d :: ds, ']' :: rest => .ok (.item (place (d :: ds)), rest)
    | _, _ => .error .other
  | _ => .error .other

/-- Take a leg. -/
def Leg.of? (t : Tree) : Leg → Option Tree
  | .member label => t.labelled? label
  | .item place => t.items?.bind (·[place]?)
  | .back places =>
    t.items?.bind fun items => if places ≤ items.length then items[items.length - places]? else none

/-- Whether a flaw is noticed in a document. -/
def Flaw.shows (t : Tree) : Flaw → Bool
  | .member => t.isObject
  | .back places => t.items?.any fun items => places ≤ items.length
  | .other => true

/-- What stands from some character on is shorter with that character taken off. -/
theorem length_behind {p : Char → Bool} {c : Char} {cs rest : List Char}
    (h : cs.dropWhile p = c :: rest) : rest.length < cs.length := by
  have hle := (List.dropWhile_sublist (l := cs) p).length_le
  rw [h, List.length_cons] at hle
  exact hle

/-- A leg takes at least one character. -/
theorem length_leg {cs rest : List Char} {l : Leg} (h : leg cs = .ok (l, rest)) :
    rest.length < cs.length := by
  unfold leg at h
  split at h
  · next ds =>
    split at h
    · next hds =>
      obtain ⟨-, rfl⟩ := Prod.mk.inj (Except.ok.inj h)
      have := length_behind hds
      simp only [List.length_cons]
      omega
    · exact nomatch h
  · next ds _ =>
    split at h
    · exact nomatch h
    · obtain ⟨-, rfl⟩ := Prod.mk.inj (Except.ok.inj h)
      exact Nat.lt_succ_of_le (List.dropWhile_sublist _).length_le
  · next ds =>
    split at h
    · exact nomatch h
    · next hds _ =>
      obtain ⟨-, rfl⟩ := Prod.mk.inj (Except.ok.inj h)
      have := length_behind hds
      simp only [List.length_cons]
      omega
    · exact nomatch h
  · obtain ⟨-, rfl⟩ := Prod.mk.inj (Except.ok.inj h)
    simp only [List.length_cons]
    omega
  · exact nomatch h
  · next ds _ _ _ =>
    split at h
    · next hds =>
      obtain ⟨-, rfl⟩ := Prod.mk.inj (Except.ok.inj h)
      exact Nat.lt_succ_of_lt (length_behind hds)
    · exact nomatch h
  · exact nomatch h

/-! ## Following a path -/

/-- Follow a path into a document. -/
def follow (cs : List Char) (t : Tree) : Spot :=
  match cs with
  | [] => .part t
  | c :: cs =>
    match _h : leg (c :: cs) with
    | .error flaw => if flaw.shows t then .broken else .nowhere
    | .ok (l, rest) =>
      match l.of? t with
      | some part => follow rest part
      | none => .nowhere
termination_by cs.length
decreasing_by exact length_leg _h

/-- The path to the member of a name, which is put in quotes as it is. The character zero ends what
is read of a path. -/
def ofName (name : List Char) : List Char :=
  ('.' :: '"' :: (name ++ ['"'])).takeWhile (· != '\x00')

/-- What stands before a character that does not occur in it. -/
theorem span_append {c : Char} {cs : List Char} (h : c ∉ cs) (rest : List Char) :
    (cs ++ c :: rest).takeWhile (· != c) = cs ∧
      (cs ++ c :: rest).dropWhile (· != c) = c :: rest := by
  have hcs : ∀ d ∈ cs, (d != c) = true := fun d hd => bne_iff_ne.mpr fun e => h (e ▸ hd)
  constructor
  · rw [List.takeWhile_append_of_pos hcs, List.takeWhile_cons_of_neg (by simp), List.append_nil]
  · rw [List.dropWhile_append_of_pos hcs, List.dropWhile_cons_of_neg (by simp)]

/-- The path to a member of a name without quotes, which is not broken off, is one leg. -/
theorem leg_ofName {name : List Char} (hquote : '"' ∉ name) (hzero : '\x00' ∉ name) :
    leg (ofName name) = .ok (.member name, []) := by
  have hpos : ∀ c ∈ '.' :: '"' :: (name ++ ['"']), (c != '\x00') = true := by
    intro c hc
    refine bne_iff_ne.mpr ?_
    rintro rfl
    simp [hzero] at hc
  have hwhole : ofName name = '.' :: '"' :: (name ++ ['"']) := by
    have htake := @List.takeWhile_append_of_pos _ (· != '\x00') _ [] hpos
    rwa [List.append_nil, List.takeWhile_nil, List.append_nil] at htake
  obtain ⟨htake, hdrop⟩ := span_append hquote []
  rw [hwhole, leg, htake, hdrop]

/-- A label in quotes leads to the member with that label, if it holds no quote and is not broken
off. -/
theorem follow_ofName {name : List Char} (hquote : '"' ∉ name) (hzero : '\x00' ∉ name) (t : Tree) :
    follow (ofName name) t = ((t.labelled? name).map Spot.part).getD .nowhere := by
  have hleg := leg_ofName hquote hzero
  unfold follow
  split
  · next hnil =>
    rw [hnil] at hleg
    exact nomatch hleg
  · next c cs hcons =>
    rw [hcons] at hleg
    split
    · next hflaw => exact nomatch hflaw.symm.trans hleg
    · next hok =>
      obtain ⟨rfl, rfl⟩ := Prod.mk.inj (Except.ok.inj (hok.symm.trans hleg))
      cases hpart : t.labelled? name with
      | none => simp only [Leg.of?, hpart, Option.map_none, Option.getD_none]
      | some part =>
        simp only [Leg.of?, hpart, Option.map_some, Option.getD_some]
        rw [follow]

end Path

end Backlog.Json
