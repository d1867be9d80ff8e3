import Backlog.Proofs.ItemRows

/-!
# Items in rows of their own

What a store holds is what each row of an item holds, and the rest. A change of an item looks at one
row and at the rest, writes that row and nothing else. So it does the same in stores that agree on
the row and on the rest, whatever other rows hold, and it leaves all other rows as they were.

Two stores are compared on some rows at a time. A store of tables is compared by what is written in
its rows, not by what is decoded from them, so that stores which agree on all rows are the same.

## Main results

* `RowWrite` — what a change of one row keeps to;
* `SeparateRows Memory`, `SeparateRows Tables` and `SeparateRows b.State` — changes of items are
  changes of one row, and reading a row looks at nothing but that row and the rest.
-/

namespace Backlog

/-- Stores that are made of rows of items and of a rest. -/
class Rows (σ : Type) where
  /-- What a row of an item holds. -/
  Held : Type
  /-- What a row holds, if it holds something. -/
  held : σ → Int → Option Held
  /-- A store without its items. -/
  rest : σ → σ

open Rows (held rest)

-- ---------------------------------------------------------------------------
-- Stores that agree on some rows
-- ---------------------------------------------------------------------------

section Agreement

variable {σ : Type} [Rows σ] {P Q R : Int → Prop} {s s' s'' : σ}

/-- Two stores have the same rest, and hold the same in some rows. -/
structure AgreeOn (P : Int → Prop) (s s' : σ) : Prop where
  rest : Rows.rest s' = Rows.rest s
  held : ∀ row, P row → Rows.held s' row = Rows.held s row

namespace AgreeOn

theorem refl (P : Int → Prop) (s : σ) : AgreeOn P s s := ⟨rfl, fun _ _ => rfl⟩

theorem symm (h : AgreeOn P s s') : AgreeOn P s' s :=
  ⟨h.rest.symm, fun row hrow => (h.held row hrow).symm⟩

theorem trans (h : AgreeOn P s s') (h' : AgreeOn P s' s'') : AgreeOn P s s'' :=
  ⟨h'.rest.trans h.rest, fun row hrow => (h'.held row hrow).trans (h.held row hrow)⟩

theorem mono (h : AgreeOn P s s') (hQ : ∀ row, Q row → P row) : AgreeOn Q s s' :=
  ⟨h.rest, fun row hrow => h.held row (hQ row hrow)⟩

/-- Stores that agree on some rows and on others agree on all rows that are among them. -/
theorem join (h : AgreeOn P s s') (h' : AgreeOn Q s s') (hR : ∀ row, R row → P row ∨ Q row) :
    AgreeOn R s s' :=
  ⟨h.rest, fun row hrow => (hR row hrow).elim (h.held row) (h'.held row)⟩

end AgreeOn

/-- A change of one row: it answers by what is in the row and in the rest, and changes nothing but
the row. -/
structure RowWrite {α : Type} (row : Int) (w : σ → Except StoreFault α × σ) : Prop where
  spares : ∀ s, AgreeOn (fun row' => row' ≠ row) s (w s).2
  answer : ∀ {s s'}, AgreeOn (fun row' => row' = row) s s' → (w s').1 = (w s).1
  written : ∀ {s s'}, AgreeOn (fun row' => row' = row) s s' →
    held (w s').2 row = held (w s).2 row

/-- A change that spares the other rows, and whose answer and effect are read off its own row. -/
theorem RowWrite.of_held {α : Type} {row : Int} {w : σ → Except StoreFault α × σ}
    (f : Option (Rows.Held σ) → Except StoreFault α × Option (Rows.Held σ))
    (hspares : ∀ s, AgreeOn (fun row' => row' ≠ row) s (w s).2)
    (hf : ∀ s, ((w s).1, held (w s).2 row) = f (held s row)) : RowWrite row w where
  spares := hspares
  answer {s s'} h := by
    have hsame := (hf s').trans ((congrArg f (h.held row rfl)).trans (hf s).symm)
    exact (Prod.mk.inj hsame).1
  written {s s'} h := by
    have hsame := (hf s').trans ((congrArg f (h.held row rfl)).trans (hf s).symm)
    exact (Prod.mk.inj hsame).2

/-- Where stores agree on the row that is changed, they agree on as many rows afterwards. -/
theorem RowWrite.agreeOn {α : Type} {row : Int} {w : σ → Except StoreFault α × σ}
    (h : RowWrite row w) (hrow : P row) (hs : AgreeOn P s s') :
    AgreeOn P (w s).2 (w s').2 where
  rest := (h.spares s').rest.trans (hs.rest.trans (h.spares s).rest.symm)
  held row' hrow' := by
    by_cases hsame : row' = row
    · rw [hsame]
      exact h.written (hs.mono fun _ e => e ▸ hrow)
    · rw [(h.spares s').held row' hsame, (h.spares s).held row' hsame]
      exact hs.held row' hrow'

end Agreement

-- ---------------------------------------------------------------------------
-- Stores that change row by row
-- ---------------------------------------------------------------------------

/-- What the rows and the rest of a store promise to its readers and writers. -/
class SeparateRows (σ : Type) [Store σ] extends Rows σ where
  /-- A store is nothing but its rows and the rest. -/
  ext : ∀ {s s' : σ}, AgreeOn (fun _ => True) s s' → s' = s
  item?_congr : ∀ {s s' : σ} {row}, AgreeOn (fun row' => row' = row) s s' →
    Store.item? s' row = Store.item? s row
  type?_congr : ∀ {s s' : σ}, Rows.rest s' = Rows.rest s →
    ∀ name, Store.type? s' name = Store.type? s name
  types_congr : ∀ {s s' : σ}, Rows.rest s' = Rows.rest s → Store.types s' = Store.types s
  iteration?_congr : ∀ {s s' : σ}, Rows.rest s' = Rows.rest s →
    ∀ row, Store.iteration? s' row = Store.iteration? s row
  iterations_congr : ∀ {s s' : σ}, Rows.rest s' = Rows.rest s →
    ∀ space, Store.iterations s' space = Store.iterations s space
  /-- An item that is read bears the row it is read from. -/
  id_item? : ∀ {s : σ} {row i}, Store.item? s row = .ok (some i) → i.id = .ofRow row
  updateItem : ∀ {row} {item : WorkItem}, item.id.row? = some row →
    ∀ expected, RowWrite row fun s : σ => Store.updateItem s item expected
  deleteItem : ∀ row, RowWrite row fun s : σ => Store.deleteItem s row

-- ---------------------------------------------------------------------------
-- The store in memory
-- ---------------------------------------------------------------------------

namespace Memory

/-- A store without its items. -/
def withoutItems (m : Memory) : Memory :=
  { m with items := ∅, itemsNumbered := empty.itemsNumbered }

instance : Rows Memory where
  Held := WorkItem
  held m row := m.items.get? row
  rest := withoutItems

theorem rest_updateItem (m : Memory) (item : WorkItem) (expected : Nat) :
    rest (m.updateItem item expected).2 = rest m := by
  rcases m.updateItem_cases item expected with
    hno | ⟨_, _, -, -, -, -, -, hlast, htypes, hiterations, hlast'⟩
  · rw [hno]
  · simp only [Rows.rest, withoutItems, hlast, htypes, hiterations, hlast']

/-- A change of an item puts the new version and the new fields over what its row holds. -/
theorem rowWrite_updateItem {item : WorkItem} {row : Int} (hrow : item.id.row? = some row)
    (expected : Nat) : RowWrite row fun m : Memory => Store.updateItem m item expected := by
  refine .of_held
    (fun
      | none => (.ok false, none)
      | some stored =>
        if stored.version = expected then
          (.ok true, some { stored with version := item.version, fields := item.fields })
        else (.ok false, some stored))
    (fun m => ⟨rest_updateItem m item expected, fun row' hne => ?_⟩) fun m => ?_
  · change (m.updateItem item expected).2.items.get? row' = m.items.get? row'
    rcases m.updateItem_cases item expected with hno | ⟨_, _, hrow', -, -, -, hitems, -⟩
    · rw [hno]
    · obtain rfl := Option.some.inj (hrow.symm.trans hrow')
      rw [hitems, SortedMap.get?_insert, if_neg hne]
  · change (Except.ok (m.updateItem item expected).1,
      (m.updateItem item expected).2.items.get? row) = _
    unfold updateItem
    split
    · next hnone => exact absurd (hrow.symm.trans hnone) (by simp)
    · next row' hrow' =>
      obtain rfl := Option.some.inj (hrow.symm.trans hrow')
      split
      · next hget => simp only [Rows.held, hget]
      · next stored hget =>
        simp only [Rows.held, hget]
        split
        · rw [SortedMap.get?_insert_self]
        · rw [hget]

/-- A removal empties its row. -/
theorem rowWrite_deleteItem (row : Int) :
    RowWrite row fun m : Memory => Store.deleteItem m row := by
  refine .of_held (fun stored => (.ok stored.isSome, none)) (fun m => ⟨?_, fun row' hne => ?_⟩)
    fun m => ?_
  · change rest (m.deleteItem row).2 = rest m
    unfold deleteItem
    split <;> rfl
  · change (m.deleteItem row).2.items.get? row' = m.items.get? row'
    unfold deleteItem
    split
    · exact (SortedMap.get?_erase _ _ _).trans (if_neg hne)
    · rfl
  · change (Except.ok (m.deleteItem row).1, (m.deleteItem row).2.items.get? row) =
      (Except.ok (m.items.contains row), none)
    unfold deleteItem
    split
    · next hheld =>
      rw [hheld, SortedMap.get?_erase, if_pos rfl]
    · next hempty =>
      rw [Bool.not_eq_true] at hempty
      rw [hempty, SortedMap.contains_eq_false_iff.mp hempty]

instance : SeparateRows Memory where
  ext {m m'} h := by
    obtain ⟨types, _, iterations, last, last', _, _, _⟩ := m
    obtain ⟨types', _, iterations', last₂, last₂', _, _, _⟩ := m'
    obtain ⟨rfl, -, rfl, rfl, rfl⟩ := Memory.mk.inj h.rest
    obtain rfl := SortedMap.ext_get? fun row => h.held row trivial
    rfl
  item?_congr h := congrArg Except.ok (h.held _ rfl)
  type?_congr h name := by
    have htypes := congrArg Memory.types h
    exact congrArg (fun types => Except.ok (SortedMap.get? types name)) htypes
  types_congr h := by
    have htypes := congrArg Memory.types h
    exact congrArg (fun types => Except.ok (SortedMap.values types)) htypes
  iteration?_congr h row := by
    have hiterations := congrArg Memory.iterations h
    exact congrArg (fun is => Except.ok (SortedMap.get? is row)) hiterations
  iterations_congr h space := by
    have hiterations := congrArg Memory.iterations h
    exact congrArg (fun is : SortedMap Int Iteration =>
      Except.ok (is.values.filter fun i => i.space = space)) hiterations
  id_item? {m row i} h := m.itemsNumbered row i (Except.ok.inj h)
  updateItem := rowWrite_updateItem
  deleteItem := rowWrite_deleteItem

end Memory

-- ---------------------------------------------------------------------------
-- The store of tables
-- ---------------------------------------------------------------------------

namespace Tables

instance : Rows Tables where
  Held := ItemRow
  held t row := t.items.get? row
  rest t := { t with items := ∅ }

/-- A change of an item checks the versions, and then puts the new version and the new fields over
what its row holds. -/
theorem rowWrite_updateItem {item : WorkItem} {row : Int} (hrow : item.id.row? = some row)
    (expected : Nat) : RowWrite row fun t : Tables => Store.updateItem t item expected := by
  refine .of_held
    (fun held =>
      if greatestVersion < item.version then (.error (versionFault item.version), held)
      else if greatestVersion < expected then (.error (versionFault expected), held)
      else
        match held with
        | none => (.ok false, none)
        | some r =>
          if r.version = expected then
            (.ok true, some
              { r with
                version := item.version
                fields := .ofTree (Document.ofFields item.fields) })
          else (.ok false, some r))
    (fun t => ?_) fun t => ?_
  · change AgreeOn _ t (t.updateItem item expected).2
    rcases t.updateItem_cases item expected with ⟨_, -, hno⟩ | ⟨_, _, hrow', -, -, hyes⟩
    · rw [hno]
      exact .refl _ t
    · obtain rfl := Option.some.inj (hrow.symm.trans hrow')
      rw [hyes]
      exact ⟨rfl, fun row' hne => (SortedMap.get?_insert _ _ _ _).trans (if_neg hne)⟩
  · change ((t.updateItem item expected).1, (t.updateItem item expected).2.items.get? row) = _
    unfold updateItem
    split
    · next hnone => exact absurd (hrow.symm.trans hnone) (by simp)
    · next row' hrow' =>
      obtain rfl := Option.some.inj (hrow.symm.trans hrow')
      split
      · rfl
      · split
        · rfl
        · split
          · next hget => simp only [Rows.held, hget]
          · next r hget =>
            simp only [Rows.held, hget]
            split
            · rw [SortedMap.get?_insert_self]
            · rw [hget]

/-- A removal empties its row. -/
theorem rowWrite_deleteItem (row : Int) :
    RowWrite row fun t : Tables => Store.deleteItem t row := by
  refine .of_held (fun held => (.ok held.isSome, none)) (fun t => ⟨?_, fun row' hne => ?_⟩)
    fun t => ?_
  · change rest (t.deleteItem row).2 = rest t
    unfold deleteItem
    split <;> rfl
  · exact (t.item?_deleteItem row row').trans (if_neg hne)
  · refine Prod.ext ?_ ((t.item?_deleteItem row row).trans (if_pos rfl))
    change Except.ok (t.deleteItem row).1 = .ok (t.items.contains row)
    unfold deleteItem
    split
    · next hheld => rw [hheld]
    · next hempty => rw [Bool.eq_false_iff.mpr hempty]

/-- An item that is decoded bears the row it is decoded from. -/
theorem id_of_item? {t : Tables} {row : Int} {i : WorkItem} (h : t.item? row = .ok (some i)) :
    i.id = .ofRow row := by
  cases hr : t.items.get? row with
  | none =>
    rw [item?_of_none hr] at h
    exact nomatch h
  | some r =>
    rw [item?_of_row hr] at h
    unfold decodeItem at h
    split at h
    · exact nomatch h
    · split at h
      · rw [← Option.some.inj (Except.ok.inj h)]
      · exact nomatch h

instance : SeparateRows Tables where
  ext {t t'} h := by
    obtain ⟨types, _, iterations, last, last'⟩ := t
    obtain ⟨types', _, iterations', last₂, last₂'⟩ := t'
    obtain ⟨rfl, -, rfl, rfl, rfl⟩ := Tables.mk.inj h.rest
    obtain rfl := SortedMap.ext_get? fun row => h.held row trivial
    rfl
  item?_congr h := by
    have htypes := congrArg Tables.types h.rest
    exact item?_congr (h.held _ rfl) fun r _ =>
      congrArg (fun types => SortedMap.get? types r.typeName) htypes
  type?_congr h name := by
    have htypes := congrArg Tables.types h
    exact type?_congr (congrArg (fun types => SortedMap.get? types name) htypes)
  types_congr h := by
    have htypes := congrArg Tables.types h
    exact congrArg (fun types => decodeTypes (SortedMap.toList types)) htypes
  iteration?_congr {t t'} h row := by
    have hiterations : t'.iterations.get? row = t.iterations.get? row := by
      have hsame := congrArg Tables.iterations h
      exact congrArg (SortedMap.get? · row) hsame
    change t'.iteration? row = t.iteration? row
    unfold iteration?
    rw [hiterations]
  iterations_congr {t t'} h space := by
    have hrows : t'.iterationRows space = t.iterationRows space := by
      have hsame := congrArg Tables.iterations h
      exact congrArg (fun is : SortedMap Int IterationRow =>
        is.toList.filter fun e => e.2.space = space) hsame
    simp only [Store.iterations, hrows]
  id_item? := id_of_item?
  updateItem := rowWrite_updateItem
  deleteItem := rowWrite_deleteItem

end Tables

-- ---------------------------------------------------------------------------
-- Either of them
-- ---------------------------------------------------------------------------

instance : (b : Backend) → SeparateRows b.State
  | .memory => inferInstanceAs (SeparateRows Memory)
  | .tables => inferInstanceAs (SeparateRows Tables)

end Backlog
