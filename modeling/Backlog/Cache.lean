import Backlog.ItemType

/-!
# The cache of types

Types that were read are remembered across transactions. Every clearing starts a new generation,
and types that were read in an older generation are not taken in any more. Within a transaction
types are staged, and reach the cache when the transaction is committed.

## Main statements

* `TypeCache.get?_fill` — after filling, a type that was filled in is found;
* `TypeCache.fill_stale` — types of an older generation change nothing.
-/

namespace Backlog

/-- The remembered types by name, and how often they were forgotten. -/
structure TypeCache where
  types : SortedMap String ItemType
  generation : Nat
  deriving DecidableEq

namespace TypeCache

/-- The cache that knows nothing. -/
def empty : TypeCache := ⟨∅, 0⟩

instance : EmptyCollection TypeCache := ⟨empty⟩
instance : Inhabited TypeCache := ⟨empty⟩

/-- The remembered type of a name. -/
def get? (c : TypeCache) (name : String) : Option ItemType := c.types.get? name

/-- The number of remembered types. -/
def size (c : TypeCache) : Nat := c.types.size

/-- Whether nothing is remembered. -/
def isEmpty (c : TypeCache) : Bool := c.types.isEmpty

/-- Remember a type. -/
def put (c : TypeCache) (t : ItemType) : TypeCache := { c with types := c.types.insert t.name t }

/-- Remember types in their order. -/
def putAll (c : TypeCache) (ts : List ItemType) : TypeCache := ts.foldl put c

/-- Remember types that were read in a generation, if that is still the present one. The number
of types that were taken in comes along. -/
def fill (c : TypeCache) (generation : Nat) (ts : List ItemType) : Nat × TypeCache :=
  if c.generation = generation then (ts.length, c.putAll ts) else (0, c)

/-- Forget everything and start a new generation. -/
def clear (c : TypeCache) : TypeCache := ⟨∅, c.generation + 1⟩

/-! ## Laws -/

theorem get?_put (c : TypeCache) (t : ItemType) (name : String) :
    (c.put t).get? name = if name = t.name then some t else c.get? name :=
  SortedMap.get?_insert c.types t.name name t

theorem generation_putAll (ts : List ItemType) (c : TypeCache) :
    (c.putAll ts).generation = c.generation := by
  induction ts generalizing c with
  | nil => rfl
  | cons t ts ih => exact ih (c.put t)

/-- The last type of a name is the one that is remembered. -/
theorem get?_putAll (ts : List ItemType) (c : TypeCache) (name : String) :
    (c.putAll ts).get? name = ((ts.reverse.find? fun t => t.name = name).or (c.get? name)) := by
  induction ts generalizing c with
  | nil => rfl
  | cons t ts ih =>
    -- the types behind the first one are put later, so they win
    rw [putAll, List.foldl_cons, ← putAll, ih, get?_put, List.reverse_cons, List.find?_append]
    by_cases h : t.name = name
    · simp [h]
    · simp [h, Ne.symm h]

/-- After filling, the last type of a name is found. -/
theorem get?_fill (c : TypeCache) (ts : List ItemType) (name : String) :
    (c.fill c.generation ts).2.get? name =
      ((ts.reverse.find? fun t => t.name = name).or (c.get? name)) := by
  rw [fill, if_pos rfl]
  exact get?_putAll ts c name

/-- Types of an older generation change nothing. -/
theorem fill_stale {c : TypeCache} {generation : Nat} (h : c.generation ≠ generation)
    (ts : List ItemType) : c.fill generation ts = (0, c) := by
  rw [fill, if_neg h]

end TypeCache

/-! ## What a transaction does to the cache -/

/-- The types that a transaction has staged, and whether it has migrated types. -/
structure CacheEffects where
  staged : SortedMap String ItemType
  migrated : Bool
  deriving DecidableEq

namespace CacheEffects

/-- A transaction that has not looked at types. -/
def none : CacheEffects := ⟨∅, false⟩

instance : Inhabited CacheEffects := ⟨none⟩

/-- Stage a type. -/
def stage (e : CacheEffects) (t : ItemType) : CacheEffects :=
  { e with staged := e.staged.insert t.name t }

/-- Stage types in their order. -/
def stageAll (e : CacheEffects) (ts : List ItemType) : CacheEffects := ts.foldl stage e

/-- Note a migration: what was staged before it does not count any more. -/
def migrate (_ : CacheEffects) : CacheEffects := ⟨∅, true⟩

/-- Settle the effects of a committed transaction that began in a generation. -/
def settle (e : CacheEffects) (generation : Nat) (c : TypeCache) : TypeCache :=
  if e.migrated then c.clear else (c.fill generation e.staged.values).2

end CacheEffects

end Backlog
