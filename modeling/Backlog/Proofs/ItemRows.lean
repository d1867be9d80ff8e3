import Backlog.Proofs.Documents
import Backlog.Proofs.Provider
import Backlog.Proofs.Writes

/-!
# Rows of items

A store hands out rows in ascending order and never a second time, keeps every item in the row that
its id names, and can always read back what it holds. `ItemStore` says what a sound store is and
what each change does to the rows: it writes a new row, puts another version into one that is held,
empties one, or leaves them all alone. Both kinds of store are item stores. For tables this needs
that a row is read by declarations which are there and stay: an item has a known type, and taking in
another type does not touch that one.

`Request.itemStep` carries this over to calls: a call that does not migrate types did exactly one of
the four.

## Main results

* `ItemStore Memory`, `ItemStore Tables`, `ItemStore b.State`;
* `Request.itemStep` — what a call makes of the rows of a sound store.
-/

namespace Backlog

section Rows

variable {σ : Type} [Store σ]

/-- All rows hold what they held. -/
def SameRows (s s' : σ) : Prop := ∀ row, Store.item? s' row = Store.item? s row

/-- All rows but one hold what they held. -/
def SameRowsBut (row : Int) (s s' : σ) : Prop :=
  ∀ row', row' ≠ row → Store.item? s' row' = Store.item? s row'

end Rows

/-- A store that knows which row it handed out last, and what its changes do to the rows. -/
class ItemStore (σ : Type) [Store σ] where
  lastItem : σ → Int
  Sound : σ → Prop
  lastItem_nonneg : ∀ {s : σ}, Sound s → 0 ≤ lastItem s
  /-- Nothing that is held is unreadable. -/
  item?_readable : ∀ {s : σ}, Sound s → ∀ row, ∃ found, Store.item? s row = .ok found
  /-- An item stands in the row that its id names, and that row was handed out. -/
  item?_placed : ∀ {s : σ} {row i}, Sound s → Store.item? s row = .ok (some i) →
    i.id = .ofRow row ∧ 0 < row ∧ row ≤ lastItem s
  insertItem_ok : ∀ {s s' : σ} {name version fields i}, Sound s →
    Store.insertItem s name version fields = (.ok i, s') →
      Sound s' ∧ lastItem s' = lastItem s + 1 ∧ SameRowsBut (lastItem s + 1) s s' ∧
        i = ⟨.ofRow (lastItem s + 1), name, version, fields⟩ ∧
        ∃ j, Store.item? s' (lastItem s + 1) = .ok (some j) ∧ j.typeName = name ∧
          j.version = version
  updateItem_ok : ∀ {s s' : σ} {item expected}, Sound s →
    Store.updateItem s item expected = (.ok true, s') →
      ∃ row old new, item.id.row? = some row ∧ Sound s' ∧ lastItem s' = lastItem s ∧
        SameRowsBut row s s' ∧ Store.item? s row = .ok (some old) ∧ old.version = expected ∧
        Store.item? s' row = .ok (some new) ∧ new.typeName = old.typeName ∧
        new.version = item.version
  deleteItem_ok : ∀ {s s' : σ} {row}, Sound s → Store.deleteItem s row = (.ok true, s') →
    Sound s' ∧ lastItem s' = lastItem s ∧ SameRowsBut row s s' ∧
      (∃ i, Store.item? s row = .ok (some i)) ∧ Store.item? s' row = .ok none
  insertType_ok : ∀ {s s' : σ} {t}, Sound s → Store.insertType s t = (.ok true, s') →
    Sound s' ∧ lastItem s' = lastItem s ∧ SameRows s s'
  insertIteration_ok : ∀ {s s' : σ} {i j}, Sound s → Store.insertIteration s i = (.ok j, s') →
    Sound s' ∧ lastItem s' = lastItem s ∧ SameRows s s'
  updateIteration_ok : ∀ {s s' : σ} {i}, Sound s → Store.updateIteration s i = (.ok true, s') →
    Sound s' ∧ lastItem s' = lastItem s ∧ SameRows s s'

-- ---------------------------------------------------------------------------
-- The store in memory
-- ---------------------------------------------------------------------------

namespace Memory

/-- Every row that is held was handed out. -/
structure Sound (m : Memory) : Prop where
  last : 0 ≤ m.lastItem
  placed : ∀ row i, m.items.get? row = some i → 0 < row ∧ row ≤ m.lastItem

instance : ItemStore Memory where
  lastItem := lastItem
  Sound := Sound
  lastItem_nonneg h := h.last
  item?_readable _ row := ⟨_, rfl⟩
  item?_placed := by
    intro m row i hm h
    have h : m.items.get? row = some i := Except.ok.inj h
    exact ⟨m.itemsNumbered row i h, hm.placed row i h⟩
  insertItem_ok := by
    intro m m' name version fields i hm h
    obtain ⟨hi, rfl⟩ := Prod.mk.inj h
    obtain rfl := Except.ok.inj hi
    refine ⟨⟨by have := hm.last; show 0 ≤ m.lastItem + 1; omega, ?_⟩, rfl, ?_, rfl, ?_⟩
    · refine SortedMap.forall_get?_insert (fun row i h => ?_) ?_
      · have := hm.placed row i h
        show 0 < row ∧ row ≤ m.lastItem + 1
        omega
      · have := hm.last
        show 0 < m.lastItem + 1 ∧ m.lastItem + 1 ≤ m.lastItem + 1
        omega
    · intro row hne
      show Except.ok ((m.insertItem name version fields).2.items.get? row) = .ok (m.items.get? row)
      rw [item?_insertItem, if_neg hne]
    · refine ⟨⟨.ofRow (m.lastItem + 1), name, version, fields⟩, ?_, rfl, rfl⟩
      show Except.ok ((m.insertItem name version fields).2.items.get? (m.lastItem + 1)) = _
      rw [item?_insertItem, if_pos rfl]
  updateItem_ok := by
    intro m m' item expected hm h
    obtain ⟨hi, rfl⟩ := Prod.mk.inj h
    rcases m.updateItem_cases item expected with
      hno | ⟨row, stored, hrow, hstored, hv, -, hitems, hlast, -, -⟩
    · rw [hno] at hi
      simp at hi
    · refine ⟨row, stored, { stored with version := item.version, fields := item.fields }, hrow,
        ⟨hlast ▸ hm.last, ?_⟩, hlast, ?_, congrArg Except.ok hstored, hv, ?_, rfl, rfl⟩
      · rw [hitems, hlast]
        exact SortedMap.forall_get?_insert hm.placed (hm.placed row stored hstored)
      · intro row' hne
        show Except.ok ((m.updateItem item expected).2.items.get? row') = _
        rw [hitems, SortedMap.get?_insert, if_neg hne]
        rfl
      · show Except.ok ((m.updateItem item expected).2.items.get? row) = _
        rw [hitems, SortedMap.get?_insert_self]
  deleteItem_ok := by
    intro m m' row hm h
    obtain ⟨hi, rfl⟩ := Prod.mk.inj h
    cases hc : m.items.contains row with
    | false =>
      simp only [deleteItem, hc] at hi
      simp at hi
    | true =>
      simp only [deleteItem, hc]
      obtain ⟨i, hheld⟩ := Option.isSome_iff_exists.mp hc
      refine ⟨⟨hm.last, SortedMap.forall_get?_erase hm.placed⟩, rfl, ?_,
        ⟨i, congrArg Except.ok hheld⟩, ?_⟩
      · intro row' hne
        show Except.ok ((m.items.erase row).get? row') = _
        rw [SortedMap.get?_erase, if_neg hne]
        rfl
      · show Except.ok ((m.items.erase row).get? row) = _
        rw [SortedMap.get?_erase, if_pos rfl]
  insertType_ok := by
    intro m m' t hm h
    obtain ⟨-, rfl⟩ := Prod.mk.inj h
    unfold insertType
    split
    · exact ⟨hm, rfl, fun _ => rfl⟩
    · exact ⟨⟨hm.last, hm.placed⟩, rfl, fun _ => rfl⟩
  insertIteration_ok := by
    intro m m' i j hm h
    obtain ⟨-, rfl⟩ := Prod.mk.inj h
    exact ⟨⟨hm.last, hm.placed⟩, rfl, fun _ => rfl⟩
  updateIteration_ok := by
    intro m m' i hm h
    obtain ⟨-, rfl⟩ := Prod.mk.inj h
    show Sound (m.updateIteration i).2 ∧ (m.updateIteration i).2.lastItem = m.lastItem ∧
      SameRows m (m.updateIteration i).2
    unfold updateIteration
    split
    · exact ⟨hm, rfl, fun _ => rfl⟩
    · split
      · exact ⟨hm, rfl, fun _ => rfl⟩
      · exact ⟨⟨hm.last, hm.placed⟩, rfl, fun _ => rfl⟩

end Memory

-- ---------------------------------------------------------------------------
-- The store of tables
-- ---------------------------------------------------------------------------

namespace Tables

/-- What a row of items needs to be read back: its number was handed out, its type is known, and its
document is one of fields. -/
structure SoundRow (t : Tables) (row : Int) (r : ItemRow) : Prop where
  low : 0 < row
  high : row ≤ t.lastItem
  typed : t.types.contains r.typeName = true
  fields : ∃ stored, Document.payload? r.fields = some stored

/-- Every type and every row of items can be read back. -/
structure Sound (t : Tables) : Prop where
  last : 0 ≤ t.lastItem
  types : ∀ name doc, t.types.get? name = some doc → ∃ ds, Document.definitions? doc = some ds
  rows : ∀ row r, t.items.get? row = some r → t.SoundRow row r

variable {t t' : Tables}

theorem Sound.type?_ok (h : t.Sound) {name : String} (hknown : t.types.contains name = true) :
    ∃ type, t.type? name = .ok (some type) := by
  obtain ⟨doc, hdoc⟩ := Option.isSome_iff_exists.mp hknown
  obtain ⟨ds, hds⟩ := h.types name doc hdoc
  refine ⟨⟨name, ds⟩, ?_⟩
  unfold type? decodeType
  simp only [hdoc, hds]
  rfl

theorem Sound.decodeItem_ok (h : t.Sound) {row : Int} {r : ItemRow} (hr : t.SoundRow row r) :
    ∃ fields, t.decodeItem row r = .ok ⟨.ofRow row, r.typeName, r.version, fields⟩ := by
  obtain ⟨type, htype⟩ := h.type?_ok hr.typed
  obtain ⟨stored, hstored⟩ := hr.fields
  refine ⟨decodeFields (some type) stored, ?_⟩
  unfold decodeItem
  simp only [htype, hstored]

theorem item?_of_row {row : Int} {r : ItemRow} (hr : t.items.get? row = some r) :
    t.item? row = (t.decodeItem row r).map some := by
  unfold item?
  rw [hr]

theorem item?_of_none {row : Int} (hr : t.items.get? row = none) : t.item? row = .ok none := by
  unfold item?
  rw [hr]

/-- A sound row that is held is answered with its number, the name of its type and its version. -/
theorem Sound.item?_held (h : t.Sound) {row : Int} {r : ItemRow} (hr : t.items.get? row = some r) :
    ∃ fields, t.item? row = .ok (some ⟨.ofRow row, r.typeName, r.version, fields⟩) := by
  obtain ⟨fields, hdecode⟩ := h.decodeItem_ok (h.rows row r hr)
  refine ⟨fields, ?_⟩
  rw [item?_of_row hr, hdecode]
  rfl

/-- What is answered for a row depends on that row and on what its type reads as. -/
theorem item?_eq {row : Int} (hrow : t'.items.get? row = t.items.get? row)
    (htype : ∀ r, t.items.get? row = some r → t'.type? r.typeName = t.type? r.typeName) :
    t'.item? row = t.item? row := by
  unfold item?
  rw [hrow]
  cases hr : t.items.get? row with
  | none => rfl
  | some r =>
    show (t'.decodeItem row r).map some = (t.decodeItem row r).map some
    unfold decodeItem
    rw [htype r hr]

/-- What is answered for a row depends on that row and on the declarations of its type. -/
theorem item?_congr {row : Int} (hrow : t'.items.get? row = t.items.get? row)
    (htype : ∀ r, t.items.get? row = some r →
      t'.types.get? r.typeName = t.types.get? r.typeName) : t'.item? row = t.item? row :=
  item?_eq hrow fun r hr => type?_congr (htype r hr)

/-- Replacing types leaves the rows of items alone. -/
theorem items_replaceTypes (t : Tables) (ts : List ItemType) :
    (t.replaceTypes ts).2.items = t.items := by
  induction ts generalizing t with
  | nil => rfl
  | cons type rest ih =>
    rw [replaceTypes]
    split
    · exact ih _
    · rfl

/-- A row that is written over the tables keeps them sound if it is sound itself. -/
theorem Sound.insert (h : t.Sound) (row last : Int) (r : ItemRow) (hlast : t.lastItem ≤ last)
    (hr : { t with lastItem := last }.SoundRow row r) :
    { t with items := t.items.insert row r, lastItem := last }.Sound where
  last := by have := h.last; show 0 ≤ last; omega
  types := h.types
  rows := by
    refine SortedMap.forall_get?_insert (fun row' r' hr' => ?_) ?_
    · obtain ⟨hlow, hhigh, htyped, hfields⟩ := h.rows row' r' hr'
      exact ⟨hlow, by show row' ≤ last; omega, htyped, hfields⟩
    · exact ⟨hr.low, hr.high, hr.typed, hr.fields⟩

theorem Sound.insertItem (h : t.Sound) {name : String} {version : Nat} {fields : Fields}
    {i : WorkItem} (hw : t.insertItem name version fields = (.ok i, t')) :
    t'.Sound ∧ t'.lastItem = t.lastItem + 1 ∧ SameRowsBut (t.lastItem + 1) t t' ∧
      i = ⟨.ofRow (t.lastItem + 1), name, version, fields⟩ ∧
      ∃ j, t'.item? (t.lastItem + 1) = .ok (some j) ∧ j.typeName = name ∧
        j.version = version := by
  rcases t.insertItem_cases name version fields with ⟨_, hno⟩ | ⟨-, htyped, hyes⟩
  · exact absurd (Prod.mk.inj (hno.symm.trans hw)).1 (by simp)
  · obtain ⟨hi, rfl⟩ := Prod.mk.inj (hyes.symm.trans hw)
    have hlast := h.last
    have hsound := h.insert (t.lastItem + 1) (t.lastItem + 1)
      ⟨name, version, .ofTree (Document.ofFields fields)⟩ (by omega)
      ⟨by omega, Int.le_refl _, htyped, _, Document.payload?_ofFields fields⟩
    refine ⟨hsound, rfl, ?_, (Except.ok.inj hi).symm, ?_⟩
    · intro row hne
      exact item?_congr (by simp only [SortedMap.get?_insert, if_neg hne]) fun _ _ => rfl
    · obtain ⟨fields', hitem⟩ := hsound.item?_held
        (SortedMap.get?_insert_self t.items (t.lastItem + 1) _)
      exact ⟨_, hitem, rfl, rfl⟩

theorem Sound.updateItem (h : t.Sound) {item : WorkItem} {expected : Nat}
    (hw : t.updateItem item expected = (.ok true, t')) :
    ∃ row old new, item.id.row? = some row ∧ t'.Sound ∧ t'.lastItem = t.lastItem ∧
      SameRowsBut row t t' ∧ t.item? row = .ok (some old) ∧ old.version = expected ∧
      t'.item? row = .ok (some new) ∧ new.typeName = old.typeName ∧
      new.version = item.version := by
  rcases t.updateItem_cases item expected with ⟨_, hne, hno⟩ | ⟨row, r, hrow, hr, hv, hyes⟩
  · exact absurd (Prod.mk.inj (hno.symm.trans hw)).1 hne
  · obtain ⟨-, rfl⟩ := Prod.mk.inj (hyes.symm.trans hw)
    obtain ⟨hlow, hhigh, htyped, -⟩ := h.rows row r hr
    have hsound := h.insert row t.lastItem
      { r with version := item.version, fields := .ofTree (Document.ofFields item.fields) }
      (Int.le_refl _) ⟨hlow, hhigh, htyped, _, Document.payload?_ofFields item.fields⟩
    obtain ⟨fields, hold⟩ := h.item?_held hr
    obtain ⟨fields', hnew⟩ := hsound.item?_held (SortedMap.get?_insert_self t.items row _)
    refine ⟨row, _, _, hrow, hsound, rfl, ?_, hold, hv, hnew, rfl, rfl⟩
    intro row' hne
    exact item?_congr (by simp only [SortedMap.get?_insert, if_neg hne]) fun _ _ => rfl

theorem Sound.deleteItem (h : t.Sound) {row : Int} (hc : t.items.contains row = true) :
    (t.deleteItem row).2.Sound ∧ (t.deleteItem row).2.lastItem = t.lastItem ∧
      SameRowsBut row t (t.deleteItem row).2 ∧ (∃ i, t.item? row = .ok (some i)) ∧
      (t.deleteItem row).2.item? row = .ok none := by
  have hw : t.deleteItem row = (true, { t with items := t.items.erase row }) := if_pos hc
  rw [hw]
  obtain ⟨r, hr⟩ := Option.isSome_iff_exists.mp hc
  obtain ⟨fields, hitem⟩ := h.item?_held hr
  refine ⟨⟨h.last, h.types, SortedMap.forall_get?_erase fun row' r' hr' => ?_⟩, rfl, ?_,
    ⟨_, hitem⟩, item?_of_none ?_⟩
  · obtain ⟨hlow, hhigh, htyped, hfields⟩ := h.rows row' r' hr'
    exact ⟨hlow, hhigh, htyped, hfields⟩
  · intro row' hne
    exact item?_congr (by simp only [SortedMap.get?_erase, if_neg hne]) fun _ _ => rfl
  · simp only [SortedMap.get?_erase, if_true]

theorem Sound.insertType (h : t.Sound) {type : ItemType} (hw : (t.insertType type).1 = true) :
    (t.insertType type).2.Sound ∧ (t.insertType type).2.lastItem = t.lastItem ∧
      SameRows t (t.insertType type).2 := by
  cases hc : t.types.contains type.name || !isName type.name with
  | true =>
    simp only [Tables.insertType, hc] at hw
    simp at hw
  | false =>
    have hyes : t.insertType type =
        (true, { t with types := t.types.insert type.name (definitionsOf type) }) :=
      if_neg (by simp [hc])
    rw [hyes]
    have hnew : t.types.contains type.name = false := (Bool.or_eq_false_iff.mp hc).1
    refine ⟨⟨h.last, SortedMap.forall_get?_insert h.types
      ⟨_, Document.definitions?_ofDefinitions type.fields⟩, fun row r hr => ?_⟩, rfl, fun row => ?_⟩
    · obtain ⟨hlow, hhigh, htyped, hfields⟩ := h.rows row r hr
      exact ⟨hlow, hhigh, SortedMap.contains_insert_iff.mpr (.inr htyped), hfields⟩
    · refine item?_congr rfl fun r hr => ?_
      -- the type of a row that is held is not the one that is taken in
      have hne : r.typeName ≠ type.name := fun e => by
        have := (h.rows row r hr).typed
        rw [e, hnew] at this
        exact Bool.noConfusion this
      simp only [SortedMap.get?_insert, if_neg hne]

instance : ItemStore Tables where
  lastItem := lastItem
  Sound := Sound
  lastItem_nonneg h := h.last
  item?_readable := by
    intro t h row
    cases hr : t.items.get? row with
    | none => exact ⟨none, item?_of_none hr⟩
    | some r =>
      obtain ⟨fields, hitem⟩ := h.item?_held hr
      exact ⟨_, hitem⟩
  item?_placed := by
    intro t row i h hi
    cases hr : t.items.get? row with
    | none =>
      have : Except.ok none = Except.ok (some i) := (item?_of_none hr).symm.trans hi
      simp at this
    | some r =>
      obtain ⟨fields, hitem⟩ := h.item?_held hr
      obtain rfl := Option.some.inj (Except.ok.inj (hitem.symm.trans hi))
      exact ⟨rfl, (h.rows row r hr).low, (h.rows row r hr).high⟩
  insertItem_ok := by
    intro t t' name version fields i h hw
    exact h.insertItem hw
  updateItem_ok := by
    intro t t' item expected h hw
    exact h.updateItem hw
  deleteItem_ok := by
    intro t t' row h hw
    obtain ⟨hi, rfl⟩ := Prod.mk.inj hw
    cases hc : t.items.contains row with
    | false =>
      simp only [deleteItem, hc] at hi
      simp at hi
    | true => exact h.deleteItem hc
  insertType_ok := by
    intro t t' type h hw
    obtain ⟨hi, rfl⟩ := Prod.mk.inj hw
    exact h.insertType (Except.ok.inj hi)
  insertIteration_ok := by
    intro t t' i j h hw
    change t.insertIteration i = _ at hw
    rcases t.insertIteration_cases i with ⟨_, hno⟩ | hyes
    · exact absurd (Prod.mk.inj (hno.symm.trans hw)).1 (by simp)
    · obtain ⟨-, rfl⟩ := Prod.mk.inj (hyes.symm.trans hw)
      refine ⟨⟨h.last, h.types, fun row r hr => ?_⟩, rfl, fun _ => rfl⟩
      obtain ⟨hlow, hhigh, htyped, hfields⟩ := h.rows row r hr
      exact ⟨hlow, hhigh, htyped, hfields⟩
  updateIteration_ok := by
    intro t t' i h hw
    change t.updateIteration i = _ at hw
    rcases t.updateIteration_cases i with ⟨_, hne, hno⟩ | ⟨_, _, -, -, hyes⟩
    · exact absurd (Prod.mk.inj (hno.symm.trans hw)).1 hne
    · obtain ⟨-, rfl⟩ := Prod.mk.inj (hyes.symm.trans hw)
      refine ⟨⟨h.last, h.types, fun row r hr => ?_⟩, rfl, fun _ => rfl⟩
      obtain ⟨hlow, hhigh, htyped, hfields⟩ := h.rows row r hr
      exact ⟨hlow, hhigh, htyped, hfields⟩

end Tables

instance : (b : Backend) → ItemStore b.State
  | .memory => inferInstanceAs (ItemStore Memory)
  | .tables => inferInstanceAs (ItemStore Tables)

-- ---------------------------------------------------------------------------
-- What calls do to the rows
-- ---------------------------------------------------------------------------

section Steps

open ItemStore

variable {σ : Type} [Store σ] [ItemStore σ]

/-- Whether a call asks for a change of an item. -/
def Request.isItemWrite : Request → Bool
  | .create .. | .save _ | .delete _ => true
  | _ => false

/-- What a call made of the rows of the store it found. -/
inductive ItemStep (s s' : σ) : Request → Except AccessError Reply → Prop
  /-- Nothing happened to the rows, and nothing was claimed to. -/
  | kept {q r} (hlast : lastItem s' = lastItem s) (hrows : SameRows s s')
      (hquiet : r.isOk = true → q.isItemWrite = false) : ItemStep s s' q r
  | created {name payload creator typeName fields j} (hlast : lastItem s' = lastItem s + 1)
      (hrows : SameRowsBut (lastItem s + 1) s s')
      (hnew : Store.item? s' (lastItem s + 1) = .ok (some j)) (htype : j.typeName = typeName)
      (hversion : j.version = initialVersion) :
      ItemStep s s' (.create name payload creator)
        (.ok (.item ⟨.ofRow (lastItem s + 1), typeName, initialVersion, fields⟩))
  | saved {u row old new fields} (hlast : lastItem s' = lastItem s) (hrows : SameRowsBut row s s')
      (hrow : u.id.row? = some row) (hold : Store.item? s row = .ok (some old))
      (hexpected : old.version = u.version) (hnew : Store.item? s' row = .ok (some new))
      (htype : new.typeName = old.typeName) (hversion : new.version = nextVersion old.version) :
      ItemStep s s' (.save u)
        (.ok (.item { old with version := nextVersion old.version, fields }))
  | deleted {id row old} (hlast : lastItem s' = lastItem s) (hrows : SameRowsBut row s s')
      (hrow : id.row? = some row) (hold : Store.item? s row = .ok (some old))
      (hgone : Store.item? s' row = .ok none) : ItemStep s s' (.delete id) (.ok .done)

variable {s s' : σ} {q : Request} {r : Except AccessError Reply}

/-- The row that an item's own id names is the row it stands in, as long as rows fit a word. -/
theorem row?_of_placed {row : Int} {i : WorkItem} (hs : Sound s)
    (hshort : lastItem s < 9223372036854775808) (hi : Store.item? s row = .ok (some i)) :
    i.id.row? = some row := by
  obtain ⟨hid, hlow, hhigh⟩ := item?_placed hs hi
  rw [hid]
  exact rowOf?_rowText hlow (by omega)

/-- **A call that does not migrate types created an item, saved one, removed one, or left all rows
alone**, and the store stays sound. -/
theorem Request.itemStep (hw : Writes s q r s') (hq : ∀ ts, q ≠ .migrate ts) (hs : Sound s)
    (hshort : lastItem s < 9223372036854775808) : Sound s' ∧ ItemStep s s' q r := by
  cases hw with
  | failed q e =>
    exact ⟨hs, .kept rfl (fun _ => rfl) fun h => by simp [Except.isOk, Except.toBool] at h⟩
  | read b hread =>
    refine ⟨hs, .kept rfl (fun _ => rfl) fun _ => ?_⟩
    cases q <;> first | rfl | simp [isWrite] at hread
  | create hw =>
    obtain ⟨hs', hlast, hrows, rfl, j, hj, htype, hversion⟩ := insertItem_ok hs hw
    exact ⟨hs', .created hlast hrows hj htype hversion⟩
  | @save u row stored fields _ hrow hstored hversion hw =>
    obtain ⟨row', old, new, hrow', hs', hlast, hrows, hold, hexpected, hnew, htype, hv⟩ :=
      updateItem_ok hs hw
    -- the item that was read carries the row it was read from
    have hplaced : stored.id.row? = some row := row?_of_placed hs hshort hstored
    obtain rfl : row = row' := Option.some.inj (hplaced.symm.trans hrow')
    obtain rfl : stored = old := Option.some.inj (Except.ok.inj (hstored.symm.trans hold))
    exact ⟨hs', .saved hlast hrows hrow hstored hversion hnew htype hv⟩
  | delete hrow hw =>
    obtain ⟨hs', hlast, hrows, ⟨i, hi⟩, hgone⟩ := deleteItem_ok hs hw
    exact ⟨hs', .deleted hlast hrows hrow hi hgone⟩
  | publish hw =>
    obtain ⟨hs', hlast, hrows⟩ := insertType_ok hs hw
    exact ⟨hs', .kept hlast hrows fun _ => rfl⟩
  | migrate hw => exact absurd rfl (hq _)
  | halfMigrated hw => exact absurd rfl (hq _)
  | createIteration hnew hstart hw =>
    obtain ⟨hs', hlast, hrows⟩ := insertIteration_ok hs hw
    refine ⟨hs', .kept hlast hrows fun _ => ?_⟩
    cases q <;> first | rfl | simp [newIteration?] at hnew
  | saveIteration hrow hstored hstart hw =>
    obtain ⟨hs', hlast, hrows⟩ := updateIteration_ok hs hw
    exact ⟨hs', .kept hlast hrows fun _ => rfl⟩

end Steps

end Backlog
