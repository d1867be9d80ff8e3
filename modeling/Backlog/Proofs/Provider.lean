import Backlog.Store.Memory
import Backlog.Store.Tables

/-!
# What both kinds of store keep to

A store in memory and a store of tables differ in what they can refuse and in how they keep their
records. They agree in what a transaction relies on: a change of a single record that is refused or
that fails leaves the whole store as it was, a type is found under its own name, and no change of
an item, of an iteration or of another type shows in the look-up of a type. `LawfulStore` collects
these laws; `Backend` names the two kinds, so that a statement can be made for either.

Replacing types is left out on purpose: an engine that refuses the second of three types has
replaced the first one already.

## Main results

* `LawfulStore Memory`, `LawfulStore Tables` and `LawfulStore b.State` for either backend `b`.
-/

namespace Backlog

/-- What a store promises to the transactions that work on it. -/
class LawfulStore (σ : Type) [Store σ] : Prop where
  insertType_refused : ∀ {s s' : σ} {t r}, Store.insertType s t = (r, s') → r ≠ .ok true → s' = s
  insertItem_failed : ∀ {s s' : σ} {name version fields fault},
    Store.insertItem s name version fields = (.error fault, s') → s' = s
  updateItem_refused : ∀ {s s' : σ} {item expected r},
    Store.updateItem s item expected = (r, s') → r ≠ .ok true → s' = s
  deleteItem_refused : ∀ {s s' : σ} {row r},
    Store.deleteItem s row = (r, s') → r ≠ .ok true → s' = s
  insertIteration_failed : ∀ {s s' : σ} {i fault},
    Store.insertIteration s i = (.error fault, s') → s' = s
  updateIteration_refused : ∀ {s s' : σ} {i r},
    Store.updateIteration s i = (r, s') → r ≠ .ok true → s' = s
  /-- A type is found under its own name. -/
  name_type? : ∀ {s : σ} {name t}, Store.type? s name = .ok (some t) → t.name = name
  type?_insertType : ∀ {s s' : σ} {t r name}, Store.insertType s t = (r, s') → name ≠ t.name →
    Store.type? s' name = Store.type? s name
  type?_insertItem : ∀ {s s' : σ} {n version fields r name},
    Store.insertItem s n version fields = (r, s') → Store.type? s' name = Store.type? s name
  type?_updateItem : ∀ {s s' : σ} {item expected r name},
    Store.updateItem s item expected = (r, s') → Store.type? s' name = Store.type? s name
  type?_deleteItem : ∀ {s s' : σ} {row r name},
    Store.deleteItem s row = (r, s') → Store.type? s' name = Store.type? s name
  type?_insertIteration : ∀ {s s' : σ} {i r name},
    Store.insertIteration s i = (r, s') → Store.type? s' name = Store.type? s name
  type?_updateIteration : ∀ {s s' : σ} {i r name},
    Store.updateIteration s i = (r, s') → Store.type? s' name = Store.type? s name

-- ---------------------------------------------------------------------------
-- The store in memory
-- ---------------------------------------------------------------------------

namespace Memory

/-- Updating an item was refused and did nothing, or put the new version and the new fields into the
row that the id names, where an item of the expected version stood. -/
theorem updateItem_cases (m : Memory) (item : WorkItem) (expected : Nat) :
    m.updateItem item expected = (false, m) ∨
      ∃ row stored, item.id.row? = some row ∧ m.items.get? row = some stored ∧
        stored.version = expected ∧ (m.updateItem item expected).1 = true ∧
        (m.updateItem item expected).2.items =
          m.items.insert row { stored with version := item.version, fields := item.fields } ∧
        (m.updateItem item expected).2.lastItem = m.lastItem ∧
        (m.updateItem item expected).2.types = m.types ∧
        (m.updateItem item expected).2.iterations = m.iterations ∧
        (m.updateItem item expected).2.lastIteration = m.lastIteration := by
  unfold updateItem
  split
  · exact .inl rfl
  · next row hrow =>
    split
    · exact .inl rfl
    · next stored hstored =>
      split
      · next hv => exact .inr ⟨row, stored, hrow, hstored, hv, rfl, rfl, rfl, rfl, rfl, rfl⟩
      · exact .inl rfl

/-- Updating an iteration was refused and did nothing, or put the new attributes into the row that
the id names; the id, the space and the parent of what stood there stay. -/
theorem updateIteration_cases (m : Memory) (i : Iteration) :
    m.updateIteration i = (false, m) ∨
      ∃ row stored, i.id.row? = some row ∧ m.iterations.get? row = some stored ∧
        (m.updateIteration i).1 = true ∧
        (m.updateIteration i).2.iterations =
          m.iterations.insert row
            { i with id := stored.id, space := stored.space, parent := stored.parent } ∧
        (m.updateIteration i).2.lastIteration = m.lastIteration ∧
        (m.updateIteration i).2.types = m.types := by
  unfold updateIteration
  split
  · exact .inl rfl
  · next row hrow =>
    split
    · exact .inl rfl
    · next stored hstored => exact .inr ⟨row, stored, hrow, hstored, rfl, rfl, rfl, rfl⟩

instance : LawfulStore Memory where
  insertType_refused := by
    intro m m' t r h hr
    obtain ⟨rfl, rfl⟩ := Prod.mk.inj h
    unfold insertType at hr ⊢
    split at hr
    · next hc => rw [if_pos hc]
    · exact absurd rfl hr
  insertItem_failed := by
    intro m m' name version fields fault h
    exact absurd (Prod.mk.inj h).1 (by simp)
  updateItem_refused := by
    intro m m' item expected r h hr
    obtain ⟨rfl, rfl⟩ := Prod.mk.inj h
    rcases m.updateItem_cases item expected with hno | ⟨_, _, -, -, -, hyes, -⟩
    · rw [hno]
    · exact absurd (congrArg Except.ok hyes) hr
  deleteItem_refused := by
    intro m m' row r h hr
    obtain ⟨rfl, rfl⟩ := Prod.mk.inj h
    unfold deleteItem at hr ⊢
    split at hr
    · exact absurd rfl hr
    · next hc => rw [if_neg hc]
  insertIteration_failed := by
    intro m m' i fault h
    exact absurd (Prod.mk.inj h).1 (by simp)
  updateIteration_refused := by
    intro m m' i r h hr
    obtain ⟨rfl, rfl⟩ := Prod.mk.inj h
    rcases m.updateIteration_cases i with hno | ⟨_, _, -, -, hyes, -⟩
    · rw [hno]
    · exact absurd (congrArg Except.ok hyes) hr
  name_type? := by
    intro m name t h
    exact m.named name t (Except.ok.inj h)
  type?_insertType := by
    intro m m' t r name h hne
    obtain ⟨-, rfl⟩ := Prod.mk.inj h
    show Except.ok ((m.insertType t).2.types.get? name) = .ok (m.types.get? name)
    unfold insertType
    split
    · rfl
    · rw [keepType, SortedMap.get?_insert, if_neg hne]
  type?_insertItem := by
    intro m m' n version fields r name h
    obtain ⟨-, rfl⟩ := Prod.mk.inj h
    rfl
  type?_updateItem := by
    intro m m' item expected r name h
    obtain ⟨-, rfl⟩ := Prod.mk.inj h
    show Except.ok ((m.updateItem item expected).2.types.get? name) = .ok (m.types.get? name)
    rcases m.updateItem_cases item expected with hno | ⟨_, _, -, -, -, -, -, -, ht, -⟩
    · rw [hno]
    · rw [ht]
  type?_deleteItem := by
    intro m m' row r name h
    obtain ⟨-, rfl⟩ := Prod.mk.inj h
    show Except.ok ((m.deleteItem row).2.types.get? name) = .ok (m.types.get? name)
    unfold deleteItem
    split <;> rfl
  type?_insertIteration := by
    intro m m' i r name h
    obtain ⟨-, rfl⟩ := Prod.mk.inj h
    rfl
  type?_updateIteration := by
    intro m m' i r name h
    obtain ⟨-, rfl⟩ := Prod.mk.inj h
    show Except.ok ((m.updateIteration i).2.types.get? name) = .ok (m.types.get? name)
    rcases m.updateIteration_cases i with hno | ⟨_, _, -, -, -, -, -, ht⟩
    · rw [hno]
    · rw [ht]

end Memory

-- ---------------------------------------------------------------------------
-- The store of tables
-- ---------------------------------------------------------------------------

namespace Tables

/-- Inserting an item failed and did nothing, or wrote the next row. -/
theorem insertItem_cases (t : Tables) (name : String) (version : Nat) (fields : Fields) :
    (∃ fault, t.insertItem name version fields = (.error fault, t)) ∨
      (version ≤ greatestVersion ∧ t.types.contains name = true ∧
        t.insertItem name version fields =
          (.ok ⟨.ofRow (t.lastItem + 1), name, version, fields⟩,
            { t with
              items := t.items.insert (t.lastItem + 1)
                ⟨name, version, .ofTree (Document.ofFields fields)⟩
              lastItem := t.lastItem + 1 })) := by
  unfold insertItem
  split
  · exact .inl ⟨_, rfl⟩
  · next hv =>
    split
    · exact .inl ⟨_, rfl⟩
    · next ht => exact .inr ⟨by omega, by simpa using ht, rfl⟩

/-- Updating an item was refused or failed and did nothing, or put the new version and the new
fields into the row that the id names, where an item of the expected version stood. -/
theorem updateItem_cases (t : Tables) (item : WorkItem) (expected : Nat) :
    (∃ r, r ≠ .ok true ∧ t.updateItem item expected = (r, t)) ∨
      ∃ row r, item.id.row? = some row ∧ t.items.get? row = some r ∧ r.version = expected ∧
        t.updateItem item expected =
          (.ok true,
            { t with
              items := t.items.insert row
                { r with
                  version := item.version
                  fields := .ofTree (Document.ofFields item.fields) } }) := by
  unfold updateItem
  split
  · exact .inl ⟨_, by simp, rfl⟩
  · next row hrow =>
    split
    · exact .inl ⟨_, by simp, rfl⟩
    · split
      · exact .inl ⟨_, by simp, rfl⟩
      · split
        · exact .inl ⟨_, by simp, rfl⟩
        · next r hr =>
          split
          · next hv => exact .inr ⟨row, r, hrow, hr, hv, rfl⟩
          · exact .inl ⟨_, by simp, rfl⟩

/-- Inserting an iteration failed and did nothing, or wrote the next row. -/
theorem insertIteration_cases (t : Tables) (i : Iteration) :
    (∃ fault, t.insertIteration i = (.error fault, t)) ∨
      t.insertIteration i =
        (.ok { i with id := .ofRow (t.lastIteration + 1) },
          { t with
            iterations := t.iterations.insert (t.lastIteration + 1) (iterationRow i)
            lastIteration := t.lastIteration + 1 }) := by
  unfold insertIteration
  simp only
  split
  · exact .inr rfl
  · exact .inl ⟨_, rfl⟩

/-- Updating an iteration was refused or failed and did nothing, or put the new attributes into the
row that the id names; the space and the parent of what stood there stay. -/
theorem updateIteration_cases (t : Tables) (i : Iteration) :
    (∃ r, r ≠ .ok true ∧ t.updateIteration i = (r, t)) ∨
      ∃ row stored, i.id.row? = some row ∧ t.iterations.get? row = some stored ∧
        t.updateIteration i =
          (.ok true,
            { t with
              iterations := t.iterations.insert row
                { iterationRow i with space := stored.space, parent := stored.parent } }) := by
  unfold updateIteration
  split
  · exact .inl ⟨_, by simp, rfl⟩
  · next row hrow =>
    split
    · exact .inl ⟨_, by simp, rfl⟩
    · next stored hstored =>
      split
      · exact .inr ⟨row, stored, hrow, hstored, rfl⟩
      · exact .inl ⟨_, by simp, rfl⟩

/-- Decoding gives a type the name that it is asked for. -/
theorem name_of_type? {t : Tables} {name : String} {type : ItemType}
    (h : t.type? name = .ok (some type)) : type.name = name := by
  unfold type? at h
  split at h
  · simp at h
  · next definitions _ =>
    unfold decodeType at h
    split at h
    · next fields _ =>
      have hs : some (⟨name, fields⟩ : ItemType) = some type := Except.ok.inj h
      rw [← Option.some.inj hs]
    · simp [Except.map] at h

/-- Look-ups of types see nothing but the rows of types. -/
theorem type?_congr {t t' : Tables} {name : String}
    (h : t'.types.get? name = t.types.get? name) : t'.type? name = t.type? name := by
  unfold type?
  rw [h]

instance : LawfulStore Tables where
  insertType_refused := by
    intro t t' type r h hr
    obtain ⟨rfl, rfl⟩ := Prod.mk.inj h
    unfold insertType at hr ⊢
    split at hr
    · next hc => rw [if_pos hc]
    · exact absurd rfl hr
  insertItem_failed := by
    intro t t' name version fields fault h
    change t.insertItem name version fields = _ at h
    rcases t.insertItem_cases name version fields with ⟨_, hno⟩ | ⟨-, -, hyes⟩
    · exact (Prod.mk.inj (hno.symm.trans h)).2.symm
    · exact absurd (Prod.mk.inj (hyes.symm.trans h)).1 (by simp)
  updateItem_refused := by
    intro t t' item expected r h hr
    change t.updateItem item expected = _ at h
    rcases t.updateItem_cases item expected with ⟨_, -, hno⟩ | ⟨_, _, -, -, -, hyes⟩
    · exact (Prod.mk.inj (hno.symm.trans h)).2.symm
    · exact absurd (Prod.mk.inj (hyes.symm.trans h)).1.symm hr
  deleteItem_refused := by
    intro t t' row r h hr
    obtain ⟨rfl, rfl⟩ := Prod.mk.inj h
    unfold deleteItem at hr ⊢
    split at hr
    · exact absurd rfl hr
    · next hc => rw [if_neg hc]
  insertIteration_failed := by
    intro t t' i fault h
    change t.insertIteration i = _ at h
    rcases t.insertIteration_cases i with ⟨_, hno⟩ | hyes
    · exact (Prod.mk.inj (hno.symm.trans h)).2.symm
    · exact absurd (Prod.mk.inj (hyes.symm.trans h)).1 (by simp)
  updateIteration_refused := by
    intro t t' i r h hr
    change t.updateIteration i = _ at h
    rcases t.updateIteration_cases i with ⟨_, -, hno⟩ | ⟨_, _, -, -, hyes⟩
    · exact (Prod.mk.inj (hno.symm.trans h)).2.symm
    · exact absurd (Prod.mk.inj (hyes.symm.trans h)).1.symm hr
  name_type? := name_of_type?
  type?_insertType := by
    intro t t' type r name h hne
    obtain ⟨-, rfl⟩ := Prod.mk.inj h
    refine type?_congr ?_
    unfold insertType
    split
    · rfl
    · rw [SortedMap.get?_insert, if_neg hne]
  type?_insertItem := by
    intro t t' n version fields r name h
    change t.insertItem n version fields = _ at h
    refine type?_congr ?_
    rcases t.insertItem_cases n version fields with ⟨_, hno⟩ | ⟨-, -, hyes⟩
    · rw [← (Prod.mk.inj (hno.symm.trans h)).2]
    · rw [← (Prod.mk.inj (hyes.symm.trans h)).2]
  type?_updateItem := by
    intro t t' item expected r name h
    change t.updateItem item expected = _ at h
    refine type?_congr ?_
    rcases t.updateItem_cases item expected with ⟨_, -, hno⟩ | ⟨_, _, -, -, -, hyes⟩
    · rw [← (Prod.mk.inj (hno.symm.trans h)).2]
    · rw [← (Prod.mk.inj (hyes.symm.trans h)).2]
  type?_deleteItem := by
    intro t t' row r name h
    obtain ⟨-, rfl⟩ := Prod.mk.inj h
    refine type?_congr ?_
    unfold deleteItem
    split <;> rfl
  type?_insertIteration := by
    intro t t' i r name h
    change t.insertIteration i = _ at h
    refine type?_congr ?_
    rcases t.insertIteration_cases i with ⟨_, hno⟩ | hyes
    · rw [← (Prod.mk.inj (hno.symm.trans h)).2]
    · rw [← (Prod.mk.inj (hyes.symm.trans h)).2]
  type?_updateIteration := by
    intro t t' i r name h
    change t.updateIteration i = _ at h
    refine type?_congr ?_
    rcases t.updateIteration_cases i with ⟨_, -, hno⟩ | ⟨_, _, -, -, hyes⟩
    · rw [← (Prod.mk.inj (hno.symm.trans h)).2]
    · rw [← (Prod.mk.inj (hyes.symm.trans h)).2]

end Tables

-- ---------------------------------------------------------------------------
-- Either of them
-- ---------------------------------------------------------------------------

/-- The two kinds of store. -/
inductive Backend
  | memory
  | tables
  deriving DecidableEq, Repr

namespace Backend

/-- The stores of a kind. -/
def State : Backend → Type
  | memory => Memory
  | tables => Tables

instance : (b : Backend) → Store b.State
  | memory => inferInstanceAs (Store Memory)
  | tables => inferInstanceAs (Store Tables)

instance : (b : Backend) → LawfulStore b.State
  | memory => inferInstanceAs (LawfulStore Memory)
  | tables => inferInstanceAs (LawfulStore Tables)

/-- A store of a kind that knows the system types and nothing else. -/
def new : (b : Backend) → b.State
  | memory => Memory.new
  | tables => Tables.new

end Backend

end Backlog
