import Backlog.Store.Clause

/-!
# Limits of an engine

An engine reads a clause as a text with parentheses around every group. Nothing may not stand in
parentheses, so a group needs a member. An engine keeps what is open on a stack, it refuses a
condition that is too high as a tree, and it knows a limited number of operands. A clause beyond one
of these limits is refused before any row is looked at.
-/

namespace Backlog

/-- How many equalities a filter holds. -/
def Filter.equalityCount : Filter → Nat
  | .all => 0
  | .equals _ _ => 1
  | .and children => equalityCounts children
  | .or children => equalityCounts children
where
  /-- How many equalities filters hold. -/
  equalityCounts : List Filter → Nat
    | [] => 0
    | f :: rest => equalityCount f + equalityCounts rest

/-- Whether every group of a filter has a member. -/
def Filter.isGrouped : Filter → Bool
  | .all => true
  | .equals _ _ => true
  | .and children => !children.isEmpty && areGrouped children
  | .or children => !children.isEmpty && areGrouped children
where
  /-- Whether every group of the filters has a member. -/
  areGrouped : List Filter → Bool
    | [] => true
    | f :: rest => isGrouped f && areGrouped rest

namespace Clause

/-! ## The stack -/

mutual

/-- How many entries of the stack reading a clause takes: three for a comparison of constants, six
for that of a call with its arguments, and more for a query within a query. -/
def stackDepth : Clause → Nat
  | .always => 3
  | .declared _ _ => 15
  | .and children => firstDepth children
  | .or children => firstDepth children
  | _ => 6

/-- The entries for the members of a group. The first one finds an open parenthesis. -/
def firstDepth : List Clause → Nat
  | [] => 0
  | c :: rest => max (stackDepth c + 1) (laterDepth rest)

/-- The entries for later members, which also find the members before them. -/
def laterDepth : List Clause → Nat
  | [] => 0
  | c :: rest => max (stackDepth c + 3) (laterDepth rest)

end

/-- The greatest number of entries that a clause may take: the stack has a hundred, and what stands
around a clause needs the others. -/
def greatestStackDepth : Nat := 94

/-! ## The tree -/

mutual

/-- The height of a clause as a tree: two for a comparison of constants, three for that of a call.
A declaration is asked for by a whole query. -/
def height : Clause → Nat
  | .always => 2
  | .declared _ _ => 7
  | .and children => firstHeight children
  | .or children => firstHeight children
  | _ => 3

/-- The height of a group. -/
def firstHeight : List Clause → Nat
  | [] => 0
  | c :: rest => laterHeight (height c) rest

/-- The height of a group of which the members so far have a height. Every further member puts an
operator on top. -/
def laterHeight (above : Nat) : List Clause → Nat
  | [] => above
  | c :: rest => laterHeight (max above (height c) + 1) rest

end

/-- The height that a query within a clause adds. -/
def queryHeight (c : Clause) : Nat := if asksDeclaration c then 6 else 0

/-- The greatest height of a clause. -/
def greatestHeight : Nat := 1000

/-! ## Operands -/

mutual

/-- How many operands a clause has besides the paths to fields. -/
def operandCount : Clause → Nat
  | .isText _ _ => 1
  | .isInteger _ _ => 1
  | .declared _ _ => 1
  | .and children => operandCounts children
  | .or children => operandCounts children
  | _ => 0

/-- How many operands clauses have. -/
def operandCounts : List Clause → Nat
  | [] => 0
  | c :: rest => operandCount c + operandCounts rest

end

/-- The greatest number of operands. -/
def greatestOperandCount : Nat := 32766

/-! ## All limits -/

/-- Whether the clause of a filter lies within the limits, next to a number of other operands. The
arms of an equality share one path. -/
def fits (f : Filter) (others : Nat) : Bool :=
  let c := ofFilter f
  c.stackDepth ≤ greatestStackDepth && c.height + c.queryHeight ≤ greatestHeight
    && f.equalityCount + c.operandCount + others ≤ greatestOperandCount

/-- Whether an engine accepts the clause of a filter, next to a number of other operands. -/
def isPreparable (f : Filter) (others : Nat) : Bool := f.isGrouped && fits f others

end Clause

end Backlog
