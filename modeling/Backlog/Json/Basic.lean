import Backlog.SortedMap
import Backlog.Number.Binary64

/-!
# JSON values

Numbers keep apart integers, which are exact and fit 64 bits signed or unsigned, and
floating-point numbers; how a number was written decides which one it is. The members of an
object are a list: a document that was read lists them in key order, a document that is built
lists them in the order of the structure it shows.

## Main statements

* `Json.depth_object`, `Json.depth_array` — containers add one level to their deepest member;
* `Json.members_ofMap` — a map becomes an object with the same members.
-/

namespace Backlog

/-- A JSON number. -/
inductive JsonNumber
  | integer (n : Int)
  | real (x : Binary64)
  deriving DecidableEq, Repr, Inhabited

/-- A JSON value. -/
inductive Json
  | null
  | bool (b : Bool)
  | number (n : JsonNumber)
  | string (s : String)
  | array (items : List Json)
  | object (members : List (String × Json))
  deriving Inhabited

namespace Json

/-- An integer as a JSON value. -/
def int (n : Int) : Json := .number (.integer n)

/-- A natural number as a JSON value. -/
def nat (n : Nat) : Json := .number (.integer n)

/-! ## Equality -/

mutual

/-- Whether two values are the same, members in the same order. -/
def same : Json → Json → Bool
  | .null, .null => true
  | .bool a, .bool b => a == b
  | .number a, .number b => a == b
  | .string a, .string b => a == b
  | .array a, .array b => sameItems a b
  | .object a, .object b => sameMembers a b
  | _, _ => false

/-- Whether two lists of values are the same. -/
def sameItems : List Json → List Json → Bool
  | [], [] => true
  | a :: as, b :: bs => same a b && sameItems as bs
  | _, _ => false

/-- Whether two lists of members are the same. -/
def sameMembers : List (String × Json) → List (String × Json) → Bool
  | [], [] => true
  | a :: as, b :: bs => a.1 == b.1 && same a.2 b.2 && sameMembers as bs
  | _, _ => false

end

mutual

theorem eq_of_same : ∀ {a b : Json}, same a b = true → a = b
  | .null, b, h => by cases b <;> simp_all [same]
  | .bool _, b, h => by cases b <;> simp_all [same]
  | .number _, b, h => by cases b <;> simp_all [same]
  | .string _, b, h => by cases b <;> simp_all [same]
  | .array as, b, h => by
    cases b with
    | array bs =>
      rw [same] at h
      rw [eq_of_sameItems h]
    | _ => simp [same] at h
  | .object as, b, h => by
    cases b with
    | object bs =>
      rw [same] at h
      rw [eq_of_sameMembers h]
    | _ => simp [same] at h

theorem eq_of_sameItems : ∀ {as bs : List Json}, sameItems as bs = true → as = bs
  | [], bs, h => by cases bs <;> simp_all [sameItems]
  | a :: as, bs, h => by
    cases bs with
    | nil => simp [sameItems] at h
    | cons b bs =>
      rw [sameItems, Bool.and_eq_true] at h
      rw [eq_of_same h.1, eq_of_sameItems h.2]

theorem eq_of_sameMembers : ∀ {as bs : List (String × Json)}, sameMembers as bs = true → as = bs
  | [], bs, h => by cases bs <;> simp_all [sameMembers]
  | (k, a) :: as, bs, h => by
    cases bs with
    | nil => simp [sameMembers] at h
    | cons b bs =>
      obtain ⟨k', b⟩ := b
      simp only [sameMembers, Bool.and_eq_true, beq_iff_eq] at h
      rw [h.1.1, eq_of_same h.1.2, eq_of_sameMembers h.2]

end

mutual

theorem same_self : ∀ a : Json, same a a = true
  | .null => by simp [same]
  | .bool _ => by simp [same]
  | .number _ => by simp [same]
  | .string _ => by simp [same]
  | .array as => by rw [same]; exact sameItems_self as
  | .object as => by rw [same]; exact sameMembers_self as

theorem sameItems_self : ∀ as : List Json, sameItems as as = true
  | [] => by simp [sameItems]
  | a :: as => by rw [sameItems, same_self a, sameItems_self as]; rfl

theorem sameMembers_self : ∀ as : List (String × Json), sameMembers as as = true
  | [] => by simp [sameMembers]
  | (k, a) :: as => by
    simp only [sameMembers, beq_self_eq_true, same_self a, sameMembers_self as, Bool.and_self]

end

instance : DecidableEq Json := fun a b =>
  decidable_of_iff (same a b = true) ⟨eq_of_same, fun h => h ▸ same_self a⟩

/-! ## Parts -/

/-- The integer that a value is, if it is one. -/
def integer? : Json → Option Int
  | .number (.integer n) => some n
  | _ => none

/-- The text that a value is, if it is one. -/
def text? : Json → Option String
  | .string s => some s
  | _ => none

/-- Whether a value is `null`. -/
def isNull : Json → Bool
  | .null => true
  | _ => false

/-- Whether a value is a text, a number or a truth value. -/
def isScalar : Json → Bool
  | .string _ | .number _ | .bool _ => true
  | _ => false

/-- The word for the sort of a value. -/
def sort : Json → String
  | .null => "null"
  | .bool _ => "bool"
  | .number _ => "number"
  | .string _ => "string"
  | .array _ => "array"
  | .object _ => "object"

/-- An object with the entries of a map, in key order. -/
def ofMap (m : SortedMap String Json) : Json := .object m.entries

/-- The member of a list with the given name. -/
def member? (k : String) : List (String × Json) → Option Json
  | [] => none
  | (k', j) :: rest => if k = k' then some j else member? k rest

/-- The member of an object with the given name. -/
def get? (j : Json) (k : String) : Option Json :=
  match j with
  | .object members => member? k members
  | _ => none

/-! ## Depth -/

mutual

/-- How deep containers nest; a value that is no container has depth zero. -/
def depth : Json → Nat
  | .array items => depthItems items + 1
  | .object members => depthMembers members + 1
  | _ => 0

/-- The greatest depth among values. -/
def depthItems : List Json → Nat
  | [] => 0
  | j :: rest => max (depth j) (depthItems rest)

/-- The greatest depth among members. -/
def depthMembers : List (String × Json) → Nat
  | [] => 0
  | e :: rest => max (depth e.2) (depthMembers rest)

end

@[simp] theorem depth_array (items : List Json) : depth (.array items) = depthItems items + 1 := by
  rw [depth]

@[simp] theorem depth_object (members : List (String × Json)) :
    depth (.object members) = depthMembers members + 1 := by
  rw [depth]

/-! ## Key order -/

mutual

/-- The value with the members of every object in key order. -/
def ordered : Json → Json
  | .array items => .array (orderedItems items)
  | .object members => ofMap (.ofList (orderedMembers members))
  | j => j

/-- Values with their members in key order. -/
def orderedItems : List Json → List Json
  | [] => []
  | j :: rest => ordered j :: orderedItems rest

/-- Members with the members of their values in key order. -/
def orderedMembers : List (String × Json) → List (String × Json)
  | [] => []
  | e :: rest => (e.1, ordered e.2) :: orderedMembers rest

end

theorem members_ofMap (m : SortedMap String Json) : ofMap m = .object m.toList := rfl

end Json

end Backlog
