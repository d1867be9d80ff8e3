import Backlog.Item

/-!
# Filters

A filter is a tree of equalities. An equality holds for an item that has the field, with the
value that the literal is in the kind of the stored value; so the text `3` finds the number 3.

## Main statements

* `Filter.holdsFor_all_iff`, `Filter.holdsFor_and_iff`, `Filter.holdsFor_or_iff` — groups ask for
  every member or for one;
* `Filter.holdsFor_joinAll` — joining filters asks for all of them.
-/

namespace Backlog

/-- A condition on work items. -/
inductive Filter
  | all
  | equals (field : String) (value : FieldValue)
  | and (children : List Filter)
  | or (children : List Filter)
  deriving Inhabited

namespace Filter

/-! ## Equality -/

mutual

/-- Whether two trees are the same. -/
def same : Filter → Filter → Bool
  | .all, .all => true
  | .equals f v, .equals g w => f == g && v == w
  | .and cs, .and ds => sameList cs ds
  | .or cs, .or ds => sameList cs ds
  | _, _ => false

/-- Whether two lists of trees are the same. -/
def sameList : List Filter → List Filter → Bool
  | [], [] => true
  | c :: cs, d :: ds => same c d && sameList cs ds
  | _, _ => false

end

mutual

theorem eq_of_same : ∀ {a b : Filter}, same a b = true → a = b
  | .all, b, h => by cases b <;> simp_all [same]
  | .equals _ _, b, h => by cases b <;> simp_all [same]
  | .and cs, b, h => by
    cases b with
    | and ds =>
      rw [same] at h
      rw [eq_of_sameList h]
    | _ => simp [same] at h
  | .or cs, b, h => by
    cases b with
    | or ds =>
      rw [same] at h
      rw [eq_of_sameList h]
    | _ => simp [same] at h

theorem eq_of_sameList : ∀ {cs ds : List Filter}, sameList cs ds = true → cs = ds
  | [], ds, h => by cases ds <;> simp_all [sameList]
  | c :: cs, ds, h => by
    cases ds with
    | nil => simp [sameList] at h
    | cons d ds =>
      rw [sameList, Bool.and_eq_true] at h
      rw [eq_of_same h.1, eq_of_sameList h.2]

end

mutual

theorem same_self : ∀ a : Filter, same a a = true
  | .all => by simp [same]
  | .equals _ _ => by simp [same]
  | .and cs => by rw [same]; exact sameList_self cs
  | .or cs => by rw [same]; exact sameList_self cs

theorem sameList_self : ∀ cs : List Filter, sameList cs cs = true
  | [] => by simp [sameList]
  | c :: cs => by rw [sameList, same_self c, sameList_self cs]; rfl

end

instance : DecidableEq Filter := fun a b =>
  decidable_of_iff (same a b = true) ⟨eq_of_same, fun h => h ▸ same_self a⟩

/-! ## Meaning -/

/-- Whether a literal is the stored value, expressed in the kind of that value. -/
def equalsStored (literal stored : FieldValue) : Bool := literal.coerceTo stored.kind == some stored

/-- Whether an item has a field with the value of a literal. -/
def holdsField (item : WorkItem) (field : String) (literal : FieldValue) : Bool :=
  match item.field? field with
  | some stored => equalsStored literal stored
  | none => false

mutual

/-- Whether a filter holds for an item. -/
def accepts (item : WorkItem) : Filter → Bool
  | .all => true
  | .equals field value => holdsField item field value
  | .and children => acceptsEvery item children
  | .or children => acceptsSome item children

/-- Whether every filter holds for an item. -/
def acceptsEvery (item : WorkItem) : List Filter → Bool
  | [] => true
  | f :: rest => accepts item f && acceptsEvery item rest

/-- Whether one of the filters holds for an item. -/
def acceptsSome (item : WorkItem) : List Filter → Bool
  | [] => false
  | f :: rest => accepts item f || acceptsSome item rest

end

/-- Whether a filter holds for an item. -/
def holdsFor (f : Filter) (item : WorkItem) : Bool := accepts item f

/-! ## Building -/

/-- Whether a filter is the one that asks for nothing. -/
def isAll : Filter → Bool
  | .all => true
  | _ => false

/-- The filter that asks for every member of a group, without a group where none is needed. -/
def joinAll (children : List Filter) : Filter :=
  match children.filter fun f => !f.isAll with
  | [] => .all
  | [f] => f
  | fs => .and fs

/-- The filter that asks for one member of a group, without a group where none is needed. -/
def joinAny (children : List Filter) : Filter :=
  match children with
  | [f] => f
  | fs => .or fs

/-- The filter that asks for every one of some equalities. -/
def equalities (pairs : List (String × FieldValue)) : Filter :=
  joinAll (pairs.map fun e => .equals e.1 e.2)

/-! ## Laws -/

theorem acceptsEvery_iff {item : WorkItem} : ∀ {fs : List Filter},
    acceptsEvery item fs = true ↔ ∀ f ∈ fs, f.holdsFor item = true
  | [] => by simp [acceptsEvery]
  | f :: rest => by
    rw [acceptsEvery, Bool.and_eq_true, acceptsEvery_iff]
    simp [holdsFor]

theorem acceptsSome_iff {item : WorkItem} : ∀ {fs : List Filter},
    acceptsSome item fs = true ↔ ∃ f ∈ fs, f.holdsFor item = true
  | [] => by simp [acceptsSome]
  | f :: rest => by
    rw [acceptsSome, Bool.or_eq_true, acceptsSome_iff]
    simp [holdsFor]

theorem holdsFor_all_iff (item : WorkItem) : (Filter.all).holdsFor item = true := by
  simp [holdsFor, accepts]

theorem holdsFor_equals (item : WorkItem) (field : String) (value : FieldValue) :
    (Filter.equals field value).holdsFor item = holdsField item field value := by
  simp [holdsFor, accepts]

theorem holdsFor_and_iff {item : WorkItem} {fs : List Filter} :
    (Filter.and fs).holdsFor item = true ↔ ∀ f ∈ fs, f.holdsFor item = true := by
  rw [holdsFor, accepts, acceptsEvery_iff]

theorem holdsFor_or_iff {item : WorkItem} {fs : List Filter} :
    (Filter.or fs).holdsFor item = true ↔ ∃ f ∈ fs, f.holdsFor item = true := by
  rw [holdsFor, accepts, acceptsSome_iff]

theorem holdsFor_of_isAll {f : Filter} (h : f.isAll = true) (item : WorkItem) :
    f.holdsFor item = true := by
  cases f with
  | all => exact holdsFor_all_iff item
  | _ => simp [isAll] at h

/-- Joining filters asks for all of them. -/
theorem holdsFor_joinAll {item : WorkItem} {fs : List Filter} :
    (joinAll fs).holdsFor item = true ↔ ∀ f ∈ fs, f.holdsFor item = true := by
  -- what asks for nothing may be left out
  have hf : (∀ f ∈ fs.filter fun f => !f.isAll, f.holdsFor item = true) ↔
      ∀ f ∈ fs, f.holdsFor item = true := by
    constructor
    · intro h f hm
      cases ha : f.isAll with
      | true => exact holdsFor_of_isAll ha item
      | false => exact h f (List.mem_filter.mpr ⟨hm, by simp [ha]⟩)
    · intro h f hm
      exact h f (List.mem_filter.mp hm).1
  rw [← hf]
  unfold joinAll
  split
  · next h => simp [h, holdsFor_all_iff]
  · next f h => simp [h]
  · next => rw [holdsFor_and_iff]

/-- Joining filters by choice asks for one of them. -/
theorem holdsFor_joinAny {item : WorkItem} {fs : List Filter} :
    (joinAny fs).holdsFor item = true ↔ ∃ f ∈ fs, f.holdsFor item = true := by
  unfold joinAny
  split
  · simp
  · rw [holdsFor_or_iff]

end Filter

end Backlog
