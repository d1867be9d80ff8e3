import Backlog.ItemType

/-!
# The catalog of field kinds

Types share field names. The catalog answers which kind a field has across all types: one that
is declared with different kinds has none, so its literals are taken for what they look like.

## Main statements

* `Catalog.get?_declare` — a declaration shows in the entry of its own field and in no other;
* `Catalog.get?_declareAll` — the entry of a field is made by the declarations of that field.
-/

namespace Backlog

/-- For each declared field its kind, or nothing when its declarations disagree. -/
structure Catalog where
  kinds : SortedMap String (Option FieldKind)

namespace Catalog

/-- The catalog of no types. -/
def empty : Catalog := ⟨∅⟩

instance : EmptyCollection Catalog := ⟨empty⟩
instance : Inhabited Catalog := ⟨empty⟩

/-- What is known of a field after one more declaration of it. -/
def noted (known : Option (Option FieldKind)) (kind : FieldKind) : Option FieldKind :=
  match known with
  | none => some kind
  | some k => if k = some kind then k else none

/-- Take note of a declaration. -/
def declare (c : Catalog) (d : FieldDefinition) : Catalog :=
  ⟨c.kinds.insert d.name (noted (c.kinds.get? d.name) d.kind)⟩

/-- The catalog of declarations. -/
def declareAll (c : Catalog) (ds : List FieldDefinition) : Catalog := ds.foldl declare c

/-- The catalog of types. -/
def ofTypes (ts : List ItemType) : Catalog := empty.declareAll (ts.flatMap ItemType.fields)

/-- The kind of a field, if all its declarations agree on one. -/
def kind? (c : Catalog) (name : String) : Option FieldKind := (c.kinds.get? name).join

@[simp] theorem kind?_empty (name : String) : kind? ∅ name = none := rfl

/-! ## What the catalog says -/

/-- A declaration shows in the entry of its own field and in no other. -/
theorem get?_declare (c : Catalog) (d : FieldDefinition) (name : String) :
    (c.declare d).kinds.get? name =
      if name = d.name then some (noted (c.kinds.get? name) d.kind) else c.kinds.get? name := by
  unfold declare
  rw [SortedMap.get?_insert]
  split
  · next h => rw [h]
  · rfl

/-- The entry of a field is made by the declarations of that field, in their order. -/
theorem get?_declareAll (ds : List FieldDefinition) (c : Catalog) (name : String) :
    (c.declareAll ds).kinds.get? name =
      (ds.filter fun d => d.name = name).foldl
        (fun known d => some (noted known d.kind)) (c.kinds.get? name) := by
  induction ds generalizing c with
  | nil => rfl
  | cons d ds ih =>
    rw [declareAll, List.foldl_cons, ← declareAll, ih, get?_declare, List.filter_cons]
    by_cases h : d.name = name
    · rw [if_pos h.symm, if_pos (by simp [h]), List.foldl_cons]
    · rw [if_neg (fun e => h e.symm), if_neg (by simp [h])]

end Catalog

end Backlog
