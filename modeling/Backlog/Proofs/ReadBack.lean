import Backlog.Proofs.Frames

/-!
# What was written is read

A call that creates or saves a record answers with the record. After its transaction was committed,
everyone who loads the record gets it as the store kept it. A store in memory keeps what it was
given. Tables write instants as texts with whole microseconds, and of the parent of an iteration
they keep the row, so what they give back has its instants cut to microseconds and names the parent
by the decimal number of its row, however the client had written it. In everything else the two are
the same, whatever kinds a type declares, and whatever the literals were that the client sent or
that another client had left in fields that this one did not touch.

It does not matter what became of types before: of a literal that was loaded in some way the stored
form of the result is loaded in the same way. Instants that are written with a sign are left out
here, and so are scripts that go on after half a migration.

## Main results

* `decodeField_toJson` — a value that was loaded is loaded again as it is, cut to microseconds;
* `Tables.keptItem_eq_self_iff`, `Tables.keptIteration_eq_self_iff` — when tables give back just
  what they were given;
* `Backend.item?_answered`, `Backend.iteration?_answered` — what a call answers and what its row
  gives back;
* `Service.load_written` — what is loaded of a record that was created or saved.
-/

namespace Backlog

open Tx WorkItems

-- ---------------------------------------------------------------------------
-- Values
-- ---------------------------------------------------------------------------

namespace FieldValue

/-- A value as it is read back: an instant is cut to whole microseconds. -/
def truncated : FieldValue → FieldValue
  | .timestamp t => .timestamp t.truncated
  | v => v

/-- An instant in a year that is written with a sign. -/
def IsSigned (v : FieldValue) : Prop := ∃ t, v = .timestamp t ∧ t.IsSigned

/-- What fits a kind and is of it is converted from its stored form. -/
theorem Fits.ofJson_toJson {kind : FieldKind} {v : FieldValue} (h : Fits kind v)
    (hkind : v.kind = kind) (hsigned : ¬ v.IsSigned) : ofJson kind v.toJson = .ok v.truncated := by
  cases h with
  | string s => rfl
  | integer n => exact ofJson_integer n
  | bool b => rfl
  | timestamp t =>
    have hyear : 0 ≤ t.year ∧ t.year ≤ 9999 :=
      Decidable.of_not_not fun hyear => hsigned ⟨t, rfl, hyear⟩
    refine ofJson_timestamp_iff.mpr ?_
    rw [Timestamp.trim_text, Timestamp.read_text hyear.1 hyear.2]
  | signed => exact absurd hkind (by simp [FieldValue.kind])
  | identifier hid => exact ofJson_identifier_iff.mpr ⟨hid, rfl⟩

/-- What a literal converts to is converted again from its stored form. -/
theorem ofJson_toJson {kind : FieldKind} {literal : Json} {v : FieldValue}
    (h : ofJson kind literal = .ok v) (hsigned : ¬ v.IsSigned) :
    ofJson kind v.toJson = .ok v.truncated :=
  (fits_of_ofJson h).ofJson_toJson (ofJson_kind h) hsigned

end FieldValue

/-- **A value that was loaded is loaded again from its stored form**, cut to microseconds. -/
theorem decodeField_toJson {type : ItemType} {name : String} {literal : Json} {v : FieldValue}
    (h : decodeField (some type) name literal = some v) (hsigned : ¬ v.IsSigned) :
    decodeField (some type) name v.toJson = some v.truncated := by
  rw [decodeField_eq] at h
  rcases FieldValue.loaded_cases h with ⟨kind, hkind, hconvert⟩ | ⟨-, hinfer⟩
  · have hagain := FieldValue.ofJson_toJson hconvert hsigned
    rw [decodeField_eq, hkind, Option.bind_some, FieldValue.ofJson?_eq_some_iff.mpr hagain]
    rfl
  · -- what a literal looks like is stored as that literal
    have hsame : v.truncated = v := by
      cases v with
      | timestamp t => exact absurd (FieldValue.infer_kind hinfer) (by simp [FieldValue.kind])
      | _ => rfl
    rw [FieldValue.toJson_of_infer hinfer, decodeField_eq, h, hsame]

/-- Fields as they are read back. -/
def Fields.truncated (fields : Fields) : Fields := fields.map fun _ v => v.truncated

namespace ItemType

/-- Every field holds what some literal is loaded as. -/
def Loads (type : ItemType) (fields : Fields) : Prop :=
  ∀ name v, fields.get? name = some v → ∃ literal, decodeField (some type) name literal = some v

namespace Loads

variable {type : ItemType} {fields fields' : Fields} {payload : Payload}

theorem of_convertValue {name : String} {literal : Json} {v : FieldValue}
    (hv : type.convertValue name literal = .ok v) :
    ∃ literal, Backlog.decodeField (some type) name literal = some v := by
  obtain ⟨d, hd, hconvert⟩ := convertValue_eq_ok_iff.mp hv
  refine ⟨literal, ?_⟩
  unfold Backlog.decodeField
  simp only [Option.bind_some, hd, FieldValue.ofJson?_eq_some_iff.mpr hconvert, Option.some_or]

theorem convertFields (hconvert : type.convertFields payload = .ok fields) : type.Loads fields :=
  forall_convertFields (fun _ _ _ hv => of_convertValue hv) hconvert

theorem mergeFields (h : type.Loads fields)
    (hmerge : type.mergeFields fields payload = .ok fields') : type.Loads fields' :=
  forall_mergeFields (fun _ _ _ hv => of_convertValue hv) h hmerge

theorem decodeFields (type : ItemType) (stored : Payload) :
    type.Loads (Backlog.decodeFields (some type) stored) := by
  intro name v hv
  rw [decodeFields_get?] at hv
  obtain ⟨literal, -, hloaded⟩ := Option.bind_eq_some_iff.mp hv
  exact ⟨literal, hloaded⟩

/-- Fields that were loaded are loaded again from their document. -/
theorem decode (h : type.Loads fields)
    (hsigned : ∀ name v, fields.get? name = some v → ¬ v.IsSigned) :
    Backlog.decodeFields (some type) fields.toPayload = fields.truncated := by
  refine SortedMap.ext_get? fun name => ?_
  rw [decodeFields_get?, Fields.toPayload, Fields.truncated, SortedMap.get?_map, SortedMap.get?_map]
  cases hv : fields.get? name with
  | none => rfl
  | some v =>
    obtain ⟨literal, hloaded⟩ := h name v hv
    exact decodeField_toJson hloaded (hsigned name v hv)

end Loads

end ItemType

-- ---------------------------------------------------------------------------
-- Records
-- ---------------------------------------------------------------------------

/-- An item with an instant in a year that is written with a sign. -/
def WorkItem.IsSigned (i : WorkItem) : Prop := ∃ name v, i.fields.get? name = some v ∧ v.IsSigned

/-- An id as a store spells it. -/
def IterationId.spelled (id : IterationId) : IterationId :=
  match id.row? with
  | some row => .ofRow row
  | none => id

theorem IterationId.spelled_of_row? {id : IterationId} {row : Int} (h : id.row? = some row) :
    id.spelled = .ofRow row := by
  rw [spelled, h]

theorem IterationId.spelled_ofRow (row : Int) : (ofRow row).spelled = ofRow row := by
  unfold spelled
  split
  · next row' h => rw [eq_of_rowOf?_rowText h]
  · rfl

namespace Tables

/-- An item as tables give it back. -/
def keptItem (i : WorkItem) : WorkItem := { i with fields := i.fields.truncated }

/-- An iteration as tables give it back. -/
def keptIteration (i : Iteration) : Iteration :=
  { i with
    parent := i.parent.map .spelled
    startAt := i.startAt.map .truncated
    endAt := i.endAt.map .truncated }

/-- An item comes back as it was exactly if all its instants are whole microseconds. -/
theorem keptItem_eq_self_iff {i : WorkItem} :
    keptItem i = i ↔ ∀ name v, i.fields.get? name = some v → v.truncated = v := by
  constructor
  · intro h name v hv
    have hfields : i.fields.truncated = i.fields := congrArg WorkItem.fields h
    have hboth : i.fields.truncated.get? name = some v.truncated := by
      rw [Fields.truncated, SortedMap.get?_map, hv]
      rfl
    rw [hfields, hv] at hboth
    exact (Option.some.inj hboth).symm
  · intro h
    have hfields : i.fields.truncated = i.fields := by
      refine SortedMap.ext_get? fun name => ?_
      rw [Fields.truncated, SortedMap.get?_map]
      cases hv : i.fields.get? name with
      | none => rfl
      | some v => exact congrArg some (h name v hv)
    unfold keptItem
    rw [hfields]

/-- An iteration comes back as it was exactly if its dates are whole microseconds and its parent is
named by the text of a row. -/
theorem keptIteration_eq_self_iff {i : Iteration} :
    keptIteration i = i ↔ i.parent.map .spelled = i.parent ∧
      i.startAt.map .truncated = i.startAt ∧ i.endAt.map .truncated = i.endAt := by
  constructor
  · intro h
    exact ⟨congrArg Iteration.parent h, congrArg Iteration.startAt h, congrArg Iteration.endAt h⟩
  · rintro ⟨hparent, hstart, hend⟩
    unfold keptIteration
    rw [hparent, hstart, hend]

variable {t : Tables} {row : Int}

/-- A row with the fields of an item is read as that item. -/
theorem item?_written {i : WorkItem} {type : ItemType}
    (hr : t.items.get? row = some ⟨i.typeName, i.version, .ofTree (Document.ofFields i.fields)⟩)
    (hid : i.id = .ofRow row) (htype : t.type? i.typeName = .ok (some type))
    (hloads : type.Loads i.fields) (hsigned : ¬ i.IsSigned) :
    t.item? row = .ok (some (keptItem i)) := by
  have hfields := hloads.decode fun name v hv hv' => hsigned ⟨name, v, hv, hv'⟩
  rw [item?_of_row hr]
  unfold decodeItem
  simp only [htype, Document.payload?_ofFields, hfields, ← hid]
  rfl

/-- An item that was decoded holds what its type loads. -/
theorem loads_of_decodeItem {r : ItemRow} {i : WorkItem} {type : ItemType}
    (h : t.decodeItem row r = .ok i) (htype : t.type? r.typeName = .ok (some type)) :
    type.Loads i.fields := by
  unfold decodeItem at h
  rw [htype] at h
  split at h
  · exact nomatch h
  · next type' htype' =>
    obtain rfl := Except.ok.inj htype'
    split at h
    · rw [← Except.ok.inj h]
      exact .decodeFields type _
    · exact nomatch h

/-- A row with the attributes of an iteration is read as that iteration. -/
theorem iteration?_written {i : Iteration} (parent : Option Int)
    (hr : t.iterations.get? row = some { iterationRow i with parent })
    (hid : i.id = .ofRow row) (hparent : parent.map IterationId.ofRow = i.parent.map .spelled)
    (hsigned : ¬ i.IsSigned) : t.iteration? row = .ok (some (keptIteration i)) := by
  have hstart : decodeTime (i.startAt.map Timestamp.text) = some (i.startAt.map .truncated) := by
    rcases decodeTime_text i.startAt with ⟨time, htime, hyear, -⟩ | ⟨-, hread⟩
    · exact absurd (.inl ⟨time, htime, hyear⟩) hsigned
    · exact hread
  have hend : decodeTime (i.endAt.map Timestamp.text) = some (i.endAt.map .truncated) := by
    rcases decodeTime_text i.endAt with ⟨time, htime, hyear, -⟩ | ⟨-, hread⟩
    · exact absurd (.inr ⟨time, htime, hyear⟩) hsigned
    · exact hread
  unfold iterationRow at hr
  unfold iteration? decodeIteration
  simp only [hr, hstart, hend, hparent, ← hid]
  rfl

/-- An iteration that was decoded has the space and the parent of its row. -/
theorem place_of_iteration? {i : Iteration} {r : IterationRow} (h : t.iteration? row = .ok (some i))
    (hr : t.iterations.get? row = some r) : i.space = r.space ∧ i.parent = r.parent.map .ofRow := by
  unfold iteration? decodeIteration at h
  rw [hr] at h
  split at h
  · simp at h
  · next r' hr' =>
    obtain rfl := Option.some.inj hr'
    split at h
    · next i' hi =>
      split at hi
      · rw [← Option.some.inj (Except.ok.inj h), ← Option.some.inj hi]
        exact ⟨rfl, rfl⟩
      · simp at hi
    · simp at h

end Tables

namespace Backend

/-- An item as a store of a kind gives it back. -/
def keptItem : Backend → WorkItem → WorkItem
  | .memory => id
  | .tables => Tables.keptItem

/-- An iteration as a store of a kind gives it back. -/
def keptIteration : Backend → Iteration → Iteration
  | .memory => id
  | .tables => Tables.keptIteration

end Backend

-- ---------------------------------------------------------------------------
-- Calls
-- ---------------------------------------------------------------------------

/-- A type that is looked up by a transaction that knows what its store holds is the one of the
store. -/
theorem Knowing.type_ok {σ : Type} [Store σ] [LawfulStore σ] {o o' : Open σ} (h : Knowing o)
    {name : String} {t : ItemType} (ht : (type name : Tx σ ItemType).steps o.looked = (.ok t, o')) :
    t.name = name ∧ Store.type? o.store name = .ok (some t) := by
  have hlooked : Knowing o.looked := h.of_kept (Sound.proceed o h.staged)
  have hheld : Store.type? o.store name = .ok (some t) := by
    rw [← Open.store_looked o]
    rcases type_cases ht with ⟨t', hr, hresolve, -⟩ | ⟨⟨e, he⟩, -⟩
    · obtain rfl := Except.ok.inj hr
      unfold resolve at hresolve
      cases hknown : knownType? o.looked name with
      | some t' =>
        rw [hknown] at hresolve
        obtain rfl := Option.some.inj (Except.ok.inj hresolve)
        exact hlooked.type? hknown
      | none =>
        rw [hknown] at hresolve
        exact hresolve
    · exact absurd he (by simp)
  exact ⟨LawfulStore.name_type? hheld, hheld⟩

/-- What a call answers that hands on what its work came to. -/
theorem Tx.steps_map_ok {σ α β : Type} {x : Tx σ α} {g : α → β} {o o' : Open σ} {r : β}
    (h : (do return g (← x) : Tx σ β).steps o = (.ok r, o')) :
    ∃ a, x.steps o = (.ok a, o') ∧ r = g a := by
  obtain ⟨v, hv, hr⟩ := steps_map_cases h
  cases v with
  | error e => exact absurd hr (by simp [Except.map])
  | ok a => exact ⟨a, hv, Except.ok.inj hr⟩

namespace Backend

variable {b : Backend} {o o' : Open b.State}

/-- What a creation answers is what its row gives back. -/
theorem item?_created (h : Knowing o) {name : String} {payload : Payload} {creator : Identity}
    {i : WorkItem} (hcreate : (WorkItems.create name payload creator).steps o = (.ok i, o'))
    (hsigned : b = .tables → ¬ i.IsSigned) :
    ∃ row, i.id = .ofRow row ∧ Store.item? o'.store row = .ok (some (b.keptItem i)) := by
  rcases WorkItems.create_cases hcreate with
    ⟨e, he, -⟩ | ⟨type, o₁, fields, j, s, htype, hconvert, hw, hj, rfl⟩
  · exact absurd he (by simp)
  obtain rfl := Except.ok.inj hj
  obtain ⟨rfl, hheld⟩ := h.type_ok htype
  have hstays : Store.type? s type.name = Store.type? o.store type.name :=
    LawfulStore.type?_insertItem hw
  cases b with
  | memory =>
    obtain ⟨hi, rfl⟩ := Prod.mk.inj hw
    obtain rfl := Except.ok.inj hi
    exact ⟨_, rfl, congrArg Except.ok (SortedMap.get?_insert_self _ _ _)⟩
  | tables =>
    rcases Tables.insertItem_cases o.store type.name initialVersion fields with
      ⟨_, hno⟩ | ⟨-, -, hyes⟩
    · exact absurd (Prod.mk.inj (hno.symm.trans hw)).1 (by simp)
    · obtain ⟨hi, rfl⟩ := Prod.mk.inj (hyes.symm.trans hw)
      obtain rfl := Except.ok.inj hi
      refine ⟨_, rfl, Tables.item?_written (SortedMap.get?_insert_self _ _ _) rfl
        (hstays.trans hheld) (.convertFields hconvert) (hsigned rfl)⟩

/-- What a save answers is what its row gives back. -/
theorem item?_saved (h : Knowing o) {u : WorkItemUpdate} {i : WorkItem}
    (hsave : (WorkItems.save u).steps o = (.ok i, o')) (hsigned : b = .tables → ¬ i.IsSigned) :
    ∃ row, i.id = .ofRow row ∧ Store.item? o'.store row = .ok (some (b.keptItem i)) := by
  rcases WorkItems.save_cases hsave with ⟨e, he, -⟩ |
    ⟨row, stored, type, o₁, fields, s, hrow, hstored, -, htype, hmerge, hw, hj, rfl⟩
  · exact absurd he (by simp)
  obtain rfl := Except.ok.inj hj
  obtain ⟨-, hheld⟩ := h.type_ok htype
  have hstays : Store.type? s stored.typeName = Store.type? o.store stored.typeName :=
    LawfulStore.type?_updateItem hw
  cases b with
  | memory =>
    obtain ⟨hyes, rfl⟩ := Prod.mk.inj hw
    rcases Memory.updateItem_cases o.store _ _ with
      hno | ⟨row', stored', hrow', hstored', -, -, hitems, -⟩
    · rw [hno] at hyes
      simp at hyes
    · have hid := Memory.itemsNumbered o.store row stored (Except.ok.inj hstored)
      obtain rfl := ItemId.eq_of_row? hid hrow'
      obtain rfl : stored = stored' := Option.some.inj ((Except.ok.inj hstored).symm.trans hstored')
      refine ⟨row', hid, congrArg Except.ok ?_⟩
      rw [hitems, SortedMap.get?_insert_self]
      rfl
  | tables =>
    obtain ⟨r, hr, hdecode⟩ := Tables.row_of_item? hstored
    have hid := Tables.id_decodeItem hdecode
    rcases Tables.updateItem_cases o.store _ _ with ⟨_, hne, hno⟩ | ⟨row', r', hrow', hr', -, hyes⟩
    · exact absurd (Prod.mk.inj (hno.symm.trans hw)).1 hne
    obtain ⟨-, rfl⟩ := Prod.mk.inj (hyes.symm.trans hw)
    obtain rfl := ItemId.eq_of_row? hid hrow'
    obtain rfl : r = r' := Option.some.inj (hr.symm.trans hr')
    have hname := Tables.typeName_decodeItem hdecode
    have hloads := Tables.loads_of_decodeItem hdecode (hname ▸ hheld)
    refine ⟨row', hid, Tables.item?_written ?_ hid (hstays.trans hheld) (hloads.mergeFields hmerge)
      (hsigned rfl)⟩
    rw [hname]
    exact SortedMap.get?_insert_self _ _ _

/-- What the creation of an iteration answers is what its row gives back. -/
theorem iteration?_created {i k : Iteration}
    (hcreate : (Iterations.create i).steps o = (.ok k, o')) (hsigned : b = .tables → ¬ k.IsSigned) :
    k.id = .ofRow (IterationStore.lastIteration o'.store) ∧
      IterationStore.lastIteration o'.store = IterationStore.lastIteration o.store + 1 ∧
      Store.iteration? o'.store (IterationStore.lastIteration o'.store) =
        .ok (some (b.keptIteration k)) := by
  rcases Iterations.create_cases hcreate with ⟨e, he, -⟩ | ⟨space, j, hfits, -, -, hw, hj⟩
  · exact absurd he (by simp)
  obtain rfl := Except.ok.inj hj
  obtain ⟨hk, hlast, -⟩ := IterationStore.insertIteration_ok hw
  refine ⟨by rw [hk, hlast], hlast, ?_⟩
  rw [hlast]
  cases b with
  | memory =>
    obtain ⟨hi, hstore⟩ := Prod.mk.inj hw
    rw [← hstore, ← Except.ok.inj hi]
    exact congrArg Except.ok (SortedMap.get?_insert_self _ _ _)
  | tables =>
    rcases Tables.insertIteration_cases o.store { i with space } with ⟨_, hno⟩ | hyes
    · exact absurd (Prod.mk.inj (hno.symm.trans hw)).1 (by simp)
    · have hstore := (Prod.mk.inj (hyes.symm.trans hw)).2
      rw [← hstore]
      refine Tables.iteration?_written (i.parent.bind IterationId.row?) ?_ (by rw [hk])
        ?_ (hsigned rfl)
      · rw [hk]
        exact SortedMap.get?_insert_self _ _ _
      · rw [hk]
        show (i.parent.bind IterationId.row?).map IterationId.ofRow = i.parent.map .spelled
        cases hparent : i.parent with
        | none => rfl
        | some id =>
          obtain ⟨row, -, hrow, -⟩ := hfits.of_parent hparent
          rw [Option.bind_some, hrow, Option.map_some, Option.map_some,
            IterationId.spelled_of_row? hrow]

/-- What the save of an iteration answers is what its row gives back. -/
theorem iteration?_saved {i k : Iteration} (hsave : (Iterations.save i).steps o = (.ok k, o'))
    (hsigned : b = .tables → ¬ k.IsSigned) :
    ∃ row, i.id.row? = some row ∧ k.id = .ofRow row ∧
      Store.iteration? o'.store row = .ok (some (b.keptIteration k)) := by
  rcases Iterations.save_cases hsave with ⟨e, he, -⟩ | ⟨row, stored, hrow, hstored, -, -, hw, hk⟩
  · exact absurd he (by simp)
  obtain rfl := Except.ok.inj hk
  obtain ⟨hid, -⟩ := IterationStore.iteration?_ok hstored
  refine ⟨row, hrow, hid, ?_⟩
  cases b with
  | memory =>
    obtain ⟨hyes, hstore⟩ := Prod.mk.inj hw
    rcases Memory.updateIteration_cases o.store _ with
      hno | ⟨row', stored', hrow', hstored', -, hiterations, -⟩
    · rw [hno] at hyes
      simp at hyes
    · obtain rfl := IterationId.eq_of_row? hid hrow'
      obtain rfl : stored = stored' := Option.some.inj ((Except.ok.inj hstored).symm.trans hstored')
      refine congrArg Except.ok ?_
      rw [← hstore, hiterations, SortedMap.get?_insert_self]
      rfl
  | tables =>
    rcases Tables.updateIteration_cases o.store _ with
      ⟨_, hne, hno⟩ | ⟨row', r, hrow', hr, hyes⟩
    · exact absurd (Prod.mk.inj (hno.symm.trans hw)).1 hne
    have hstore := (Prod.mk.inj (hyes.symm.trans hw)).2
    obtain rfl := IterationId.eq_of_row? hid hrow'
    obtain ⟨hspace, hparent⟩ := Tables.place_of_iteration? hstored hr
    rw [← hstore]
    refine Tables.iteration?_written r.parent ?_ hid ?_ (hsigned rfl)
    · simp only [hspace]
      exact SortedMap.get?_insert_self _ _ _
    · show r.parent.map IterationId.ofRow = stored.parent.map .spelled
      rw [hparent, Option.map_map]
      exact congrArg (Option.map · r.parent) (funext fun p => (IterationId.spelled_ofRow p).symm)

/-- An item that a call answers which creates or saves one is what its row gives back. -/
theorem item?_answered (h : Knowing o) {config : ServiceConfig} {q : Request} {i : WorkItem}
    (hs : (q.perform config).steps o = (.ok (.item i), o')) (hwrite : q.isWrite = true)
    (hsigned : b = .tables → ¬ i.IsSigned) :
    ∃ row, i.id = .ofRow row ∧ Store.item? o'.store row = .ok (some (b.keptItem i)) := by
  have hw := Request.writes config q hs
  generalize o.store = s at hw
  generalize hs' : o'.store = s' at hw ⊢
  cases hw with
  | read _ hread => exact absurd (hwrite.symm.trans hread) (by decide)
  | create =>
    unfold Request.perform at hs
    obtain ⟨j, hj, hr⟩ := steps_map_ok hs
    obtain rfl := Reply.item.inj hr
    exact hs' ▸ item?_created h hj hsigned
  | save =>
    unfold Request.perform at hs
    obtain ⟨j, hj, hr⟩ := steps_map_ok hs
    obtain rfl := Reply.item.inj hr
    exact hs' ▸ item?_saved h hj hsigned

/-- An iteration that a call answers which creates or saves one is what its row gives back. -/
theorem iteration?_answered (h : b.InOrder o.store) {config : ServiceConfig} {q : Request}
    {k : Iteration} (hs : (q.perform config).steps o = (.ok (.iteration k), o'))
    (hwrite : q.isWrite = true) (hsigned : b = .tables → ¬ k.IsSigned) :
    ∃ row, 0 < row ∧ k.id = .ofRow row ∧
      Store.iteration? o'.store row = .ok (some (b.keptIteration k)) := by
  have hcreated : ∀ {i : Iteration}, (Iterations.create i).steps o = (.ok k, o') →
      ∃ row, 0 < row ∧ k.id = .ofRow row ∧
        Store.iteration? o'.store row = .ok (some (b.keptIteration k)) := by
    intro i hi
    obtain ⟨hid, hlast, hread⟩ := iteration?_created hi hsigned
    have hnonneg := h.last
    exact ⟨_, by omega, hid, hread⟩
  have hw := Request.writes config q hs
  generalize o.store = s at hw
  generalize hs' : o'.store = s' at hw ⊢
  cases hw with
  | read _ hread => exact absurd (hwrite.symm.trans hread) (by decide)
  | createIteration hnew =>
    cases q with
    | createIteration i =>
      unfold Request.perform at hs
      obtain ⟨j, hj, hr⟩ := steps_map_ok hs
      obtain rfl := Reply.iteration.inj hr
      exact hs' ▸ hcreated hj
    | createChild parent name startAt endAt =>
      unfold Request.perform at hs
      obtain ⟨j, hj, hr⟩ := steps_map_ok hs
      obtain rfl := Reply.iteration.inj hr
      exact hs' ▸ hcreated hj
    | _ => simp [Request.newIteration?] at hnew
  | saveIteration =>
    unfold Request.perform at hs
    obtain ⟨j, hj, hr⟩ := steps_map_ok hs
    obtain rfl := Reply.iteration.inj hr
    obtain ⟨row, hrow, hid, hread⟩ := iteration?_saved hj hsigned
    exact ⟨row, rowOf?_pos hrow, hid, hs' ▸ hread⟩

end Backend

-- ---------------------------------------------------------------------------
-- Services
-- ---------------------------------------------------------------------------

namespace Moment

variable {σ : Type} {m : Moment σ Request Reply}

/-- The item that a call created or saved, as the call answered it. -/
def writtenItem? (m : Moment σ Request Reply) : Option WorkItem :=
  match m.call.isWrite, m.answer with
  | true, .ok (.item i) => some i
  | _, _ => none

/-- The iteration that a call created or saved, as the call answered it. -/
def writtenIteration? (m : Moment σ Request Reply) : Option Iteration :=
  match m.call.isWrite, m.answer with
  | true, .ok (.iteration i) => some i
  | _, _ => none

theorem writtenItem?_eq_some {i : WorkItem} (h : m.writtenItem? = some i) :
    m.call.isWrite = true ∧ m.answer = .ok (.item i) := by
  unfold writtenItem? at h
  split at h
  · next hwrite hanswer => exact ⟨hwrite, by rw [hanswer, Option.some.inj h]⟩
  · exact nomatch h

theorem writtenIteration?_eq_some {i : Iteration} (h : m.writtenIteration? = some i) :
    m.call.isWrite = true ∧ m.answer = .ok (.iteration i) := by
  unfold writtenIteration? at h
  split at h
  · next hwrite hanswer => exact ⟨hwrite, by rw [hanswer, Option.some.inj h]⟩
  · exact nomatch h

end Moment

/-- What spares an item spares it as a store keeps it. -/
theorem Backend.sparesItem_kept (b : Backend) (i : WorkItem) :
    b.sparesItem (b.keptItem i) = b.sparesItem i := by
  cases b <;> rfl

/-- What spares an iteration spares it as a store keeps it. -/
theorem Backend.sparesIteration_kept {σ : Type} (b : Backend) (i : Iteration) :
    (Moment.sparesIteration (b.keptIteration i) : Moment σ Request Reply → Bool) =
      Moment.sparesIteration i := by
  cases b <;> rfl

theorem Transcript.result_eq_ok {σ β : Type} {x : Transcript σ β} (h : x.result.isOk = true) :
    x.result = .ok () := by
  cases hr : x.result with
  | ok => rfl
  | error e => exact absurd h (by simp [hr, Except.isOk, Except.toBool])

namespace Service

/-- **What was written is read.** An item or an iteration that a call of a committed transaction
created or saved, and that the later calls of the transaction spared, is given to everyone who then
loads it, as the store keeps it. -/
theorem load_written (b : Backend) (config : ServiceConfig) (turns : List Turn) (t : Turn)
    {s p : Service b.State} (hs : s = (onStore b.new config).after turns)
    (hcommits : (s.turn t).result = .ok ()) (hp : p.store = (s.turn t).service.store)
    {before later : List (Moment b.State Request Reply)} {m : Moment b.State Request Reply}
    (hcalls : (s.turned t).calls t = before ++ m :: later) :
    (∀ i, m.writtenItem? = some i → (b = .tables → ¬ i.IsSigned) →
      (∀ u ∈ turns ++ [t], ∀ a ∈ u.calls, a.isWhole b = true) →
      later.all (b.sparesItem i) = true → ItemStore.lastItem p.store < 9223372036854775808 →
        p.transactional .new (WorkItems.load i.id) = (.ok (b.keptItem i), p)) ∧
    (∀ i, m.writtenIteration? = some i → (b = .tables → ¬ i.IsSigned) →
      later.all (Moment.sparesIteration i) = true →
      IterationStore.lastIteration p.store < 9223372036854775808 →
        p.transactional .new (Iterations.load i.id) = (.ok (b.keptIteration i), p)) := by
  have hstore : b.InOrder s.store :=
    hs ▸ inOrder_after (s := onStore b.new config) b.inOrder_new turns
  have hend := inOrder_turn hstore t
  obtain ⟨hbefore, hsteps, htrail⟩ := call_of_commits hstore hcommits hcalls
  have hafter := hbefore.writes (Request.writes _ _ hsteps)
  rw [← hp] at htrail hend
  constructor
  · intro i hi hsigned hwhole hspare hshort
    obtain ⟨hwrite, hi⟩ := Moment.writtenItem?_eq_some hi
    rw [List.forall_mem_append, List.forall_mem_singleton] at hwhole
    -- an item is written by what the cache says of its type, and read by what the store says
    have hcache : s.cache.Reflects s.store :=
      hs ▸ reflects_after (s := onStore b.new config) (.of_types_eq_empty rfl) hwhole.1
    obtain ⟨hknowing, -⟩ := knowing_turn hcache hwhole.2
    rw [hi] at hsteps
    obtain ⟨row, -, hread⟩ :=
      Backend.item?_answered (hknowing m (by simp [hcalls])) hsteps hwrite hsigned
    have hheld := htrail.item?_stays hafter hread (by rwa [b.sparesItem_kept])
    refine transactional_quiet (WorkItems.steps_load p.stands_opened ?_ hheld)
    have hrow := row?_of_placed hend.items hshort hheld
    cases b <;> exact hrow
  · intro i hi hsigned hspare hshort
    obtain ⟨hwrite, hi⟩ := Moment.writtenIteration?_eq_some hi
    rw [hi] at hsteps
    obtain ⟨row, hpos, hid, hread⟩ := Backend.iteration?_answered hbefore hsteps hwrite hsigned
    have hheld := htrail.iteration?_stays hafter hread (by rwa [b.sparesIteration_kept])
    have hhigh := hend.iterations row _ (IterationStore.iteration?_ok hheld).2
    refine transactional_quiet (Iterations.steps_load p.stands_opened ?_ hheld)
    rw [hid]
    exact rowOf?_rowText hpos (by omega)

/-- A client plans a task with an instant that is not a whole microsecond, and two iterations, the
second of which is a part of the first, named with a sign. -/
def planTurn : Turn :=
  let task : ItemType := ⟨"task", [⟨"due", .timestamp, false⟩, ⟨"points", .integer, true⟩]⟩
  let fields : Payload :=
    .ofList [("due", .string "2024-06-30T12:00:00.000000001Z"), ("points", .string "3")]
  ⟨false, .new,
    [⟨.publish task, false⟩, ⟨.create "task" fields ⟨"ann"⟩, false⟩,
     ⟨.createIteration (Iteration.named "s" "a"), false⟩,
     ⟨.createChild ⟨"+1"⟩ "b" none none, false⟩]⟩

/-- The tables after that. -/
def planned : Service Backend.tables.State :=
  ((onStore Backend.tables.new .default).turn planTurn).service

/-- The task, as the client was answered. -/
def plannedTask : WorkItem :=
  ⟨⟨"1"⟩, "task", 0, .ofList
    [("due", .timestamp ⟨1719748800, 1, by decide, by decide⟩), ("points", .integer 3)]⟩

/-- The second iteration, as the client was answered. -/
def plannedPart : Iteration :=
  { Iteration.partOf ⟨"+1"⟩ "b" with id := ⟨"2"⟩, space := "s" }

/-- The task is loaded with its instant cut, and the iteration with its parent spelled plainly. -/
theorem load_written_planned :
    planned.transactional .new (WorkItems.load plannedTask.id) =
        (.ok (Tables.keptItem plannedTask), planned) ∧
      planned.transactional .new (Iterations.load plannedPart.id) =
        (.ok (Tables.keptIteration plannedPart), planned) := by
  have hcommits : ((onStore Backend.tables.new .default).turn planTurn).result = .ok () :=
    Transcript.result_eq_ok (by decide +kernel)
  have hunsigned : ¬ plannedTask.IsSigned := by
    have hfields : ∀ name v, plannedTask.fields.get? name = some v → ¬ v.IsSigned := by
      refine SortedMap.forall_get?_insert
        (SortedMap.forall_get?_insert (fun _ _ h => nomatch h) ?_) ?_
      · rintro ⟨t, ht, hsigned⟩
        obtain rfl := FieldValue.timestamp.inj ht
        exact hsigned (by decide +kernel)
      · rintro ⟨t, ht, -⟩
        exact nomatch ht
    rintro ⟨name, v, hv, hsigned⟩
    exact hfields name v hv hsigned
  have hcalls : (((onStore Backend.tables.new .default).turned planTurn).calls planTurn).map
      (fun m => (m.writtenItem?, m.writtenIteration?, Backend.tables.sparesItem plannedTask m)) =
      [(none, none, true)] ++ (some plannedTask, none, true) ::
        [(none, some { Iteration.named "s" "a" with id := ⟨"1"⟩ }, true),
          (none, some plannedPart, true)] := by decide +kernel
  obtain ⟨published, rest, hcalls, -, hrest⟩ := List.map_eq_append_iff.mp hcalls
  obtain ⟨m, later, rfl, hm, hlater⟩ := List.map_eq_cons_iff.mp hrest
  obtain ⟨whole, rest, rfl, -, hpart⟩ := List.map_eq_cons_iff.mp hlater
  obtain ⟨n, rest, rfl, hn, hnil⟩ := List.map_eq_cons_iff.mp hpart
  obtain rfl := List.map_eq_nil_iff.mp hnil
  have hspare : [whole, n].all (Backend.tables.sparesItem plannedTask) = true := by
    have hall := congrArg (List.all · fun v => v.2.2) hlater
    rwa [List.all_map] at hall
  constructor
  · exact (load_written .tables .default [] planTurn rfl hcommits rfl hcalls).1 plannedTask
      (Prod.mk.inj hm).1 (fun _ => hunsigned) (by decide) hspare (by decide +kernel)
  · have hlast : ((onStore Backend.tables.new .default).turned planTurn).calls planTurn =
        (published ++ [m, whole]) ++ n :: [] := by
      rw [hcalls]
      simp
    exact (load_written .tables .default [] planTurn rfl hcommits rfl hlast).2 plannedPart
      (Prod.mk.inj (Prod.mk.inj hn).2).1
      (fun _ => by rintro (⟨t, ht, -⟩ | ⟨t, ht, -⟩) <;> exact nomatch ht) rfl (by decide +kernel)

/-- A client makes an iteration. -/
def makesWhole : Turn := ⟨false, .new, [⟨.createIteration (Iteration.named "s" "a"), false⟩]⟩

/-- A client makes a part of an iteration, which it names with a sign. -/
def makesPart : Turn := ⟨false, .new, [⟨.createChild ⟨"+1"⟩ "b" none none, false⟩]⟩

/-- The part is committed, and who loads it does not get what the client was answered. -/
theorem load_part_ne :
    (((onStore Backend.tables.new .default).after [makesWhole]).turn makesPart).result = .ok () ∧
      ((((onStore Backend.tables.new .default).after [makesWhole]).turned makesPart).calls
        makesPart).map Moment.writtenIteration? = [some plannedPart] ∧
      ((((onStore Backend.tables.new .default).after [makesWhole]).turn makesPart).service
        |>.transactional .new (Iterations.load plannedPart.id)).1.toOption =
          some { plannedPart with parent := some ⟨"1"⟩ } ∧
      { plannedPart with parent := some ⟨"1"⟩ } ≠ plannedPart :=
  ⟨Transcript.result_eq_ok (by decide +kernel), by decide +kernel, by decide +kernel,
    by decide +kernel⟩

end Service

end Backlog
