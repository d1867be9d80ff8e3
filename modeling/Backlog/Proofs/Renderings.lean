import Backlog.Proofs.ItemRows
import Backlog.Proofs.Search

/-!
# Tables that hold what a store in memory holds

A store in memory keeps records, tables keep documents. Tables are a *rendering* of a store in
memory when they hold a row for each of its types and items, in which the record is written down,
and have handed out the same rows. A record that is plain comes back from its row as it was, so a
rendering answers every question as the store in memory does: which type a name has, which item is
in a row, and which items a filter holds for, page by page. And it takes in the same changes: what
was a rendering is one again after the same write to both.

Versions of rows are bounded and versions of records are not. A rendering therefore counts: no
version in it exceeds the number of writes that may have been made.

## Main results

* `ItemType.HoldsPlain.decode` — plain fields are decoded to themselves;
* `Rendering.fetchItems_eq`, `Rendering.countItems_eq` — a filter is answered with the same items;
* `Rendering.insertItem`, `Rendering.updateItem`, `Rendering.deleteItem`, `Rendering.insertType` —
  the same write leads to a rendering again.
-/

namespace Backlog

namespace SortedMap

variable {κ α β : Type} [Ord κ] [Std.TransOrd κ] [Std.LawfulEqOrd κ] [DecidableEq κ]

theorem map_insert (f : κ → α → β) (m : SortedMap κ α) (k : κ) (a : α) :
    (m.insert k a).map f = (m.map f).insert k (f k a) := by
  refine ext_get? fun k' => ?_
  rw [get?_map, get?_insert, get?_insert, get?_map]
  split
  · next h => rw [h, Option.map_some]
  · rfl

theorem map_erase (f : κ → α → β) (m : SortedMap κ α) (k : κ) :
    (m.erase k).map f = (m.map f).erase k := by
  refine ext_get? fun k' => ?_
  rw [get?_map, get?_erase, get?_erase, get?_map]
  split
  · rfl
  · rfl

omit [Std.TransOrd κ] [DecidableEq κ] in
theorem contains_map (f : κ → α → β) (m : SortedMap κ α) (k : κ) :
    (m.map f).contains k = m.contains k := by
  rw [contains, get?_map, Option.isSome_map]
  rfl

end SortedMap

-- ---------------------------------------------------------------------------
-- Plain records
-- ---------------------------------------------------------------------------

/-- A plain value comes back from its stored literal. -/
theorem FieldValue.Plain.ofJson_toJson {kind : FieldKind} {v : FieldValue} (h : Plain kind v) :
    ofJson kind v.toJson = .ok v := by
  rw [← h.kind_eq]
  exact ofJson_toJson_of_comesBack h.comesBack

namespace ItemType

variable {type : ItemType} {fields fields' : Fields} {payload : Payload}

/-- Every field is declared and holds a plain value of its kind. -/
def HoldsPlain (type : ItemType) (fields : Fields) : Prop :=
  ∀ name v, fields.get? name = some v →
    ∃ d, type.field? name = some d ∧ FieldValue.Plain d.kind v

/-- Plain fields are decoded to themselves. -/
theorem HoldsPlain.decode (h : type.HoldsPlain fields) :
    decodeFields (some type) fields.toPayload = fields := by
  refine SortedMap.ext_get? fun name => ?_
  rw [decodeFields_get?, Fields.toPayload, SortedMap.get?_map]
  cases hv : fields.get? name with
  | none => rfl
  | some v =>
    obtain ⟨d, hd, hplain⟩ := h name v hv
    have hback := FieldValue.ofJson?_eq_some_iff.mpr hplain.ofJson_toJson
    simp only [Option.map_some, Option.bind_some, decodeField, hd, hback, Option.some_or]

/-- Whether what literals for the fields of a type convert to is plain. -/
def takesPlain (type : ItemType) (payload : Payload) : Bool :=
  payload.toList.all fun e =>
    match type.convertValue e.1 e.2 with
    | .ok v => v.isPlainIn v.kind
    | .error _ => true

theorem plain_of_takesPlain (h : type.takesPlain payload = true) {e : String × Json}
    (he : e ∈ payload.toList) {v : FieldValue} (hv : type.convertValue e.1 e.2 = .ok v) :
    ∃ d, type.field? e.1 = some d ∧ FieldValue.Plain d.kind v := by
  obtain ⟨d, hd, hconvert⟩ := convertValue_eq_ok_iff.mp hv
  have hplain := List.all_eq_true.mp h e he
  simp only [hv, FieldValue.ofJson_kind hconvert] at hplain
  exact ⟨d, hd, (FieldValue.fits_of_ofJson hconvert).plain hplain⟩

theorem HoldsPlain.convertFields (h : type.takesPlain payload = true)
    (hconvert : type.convertFields payload = .ok fields) : type.HoldsPlain fields :=
  forall_convertFields (fun _ he _ hv => plain_of_takesPlain h he hv) hconvert

theorem HoldsPlain.mergeFields (h : type.HoldsPlain fields)
    (hpayload : type.takesPlain payload = true)
    (hmerge : type.mergeFields fields payload = .ok fields') : type.HoldsPlain fields' :=
  forall_mergeFields (fun _ he _ hv => plain_of_takesPlain hpayload he hv) h hmerge

end ItemType

/-- A name that is not blank and holds no character zero is one that a row may have. -/
theorem Tables.isName_of_not_blank {s : String} (hblank : Text.blank s = false)
    (hbroken : Text.isUnbroken s = true) : isName s = true := by
  unfold isName
  split
  · next h =>
    -- nothing but spaces
    have hspaces := Text.dropWhile_eq_nil_iff.mp h
    have hall : Text.blank s = true := List.all_eq_true.mpr fun c hc => by
      rw [of_decide_eq_true (hspaces c hc)]
      decide
    rw [hall] at hblank
    exact absurd hblank (by decide)
  · next c rest h =>
    have hmem : c ∈ s.toList := (List.dropWhile_sublist _).subset (h ▸ List.mem_cons_self)
    rw [bne_iff_ne]
    rintro rfl
    exact Text.isUnbroken_iff.mp hbroken hmem

theorem ItemType.not_blank_of_checkSchema {type : ItemType}
    (h : WorkItems.checkSchema type = .ok ()) : Text.blank type.name = false := by
  unfold WorkItems.checkSchema validate at h
  by_cases hname : Text.blank type.name = true
  · simp [hname] at h
  · simpa using hname

theorem rowOf?_lt {text : String} {row : Int} (h : rowOf? text = some row) :
    row < 9223372036854775808 := by
  unfold rowOf? at h
  split at h
  · next w _ =>
    have hw := Int64.toInt_lt w
    split at h
    · rw [← Option.some.inj h]
      exact hw
    · simp at h
  · simp at h

/-- The row that an item is written to. -/
def WorkItem.row (i : WorkItem) : ItemRow :=
  ⟨i.typeName, i.version, .ofTree (Document.ofFields i.fields)⟩

-- ---------------------------------------------------------------------------
-- Renderings
-- ---------------------------------------------------------------------------

/-- Tables hold what a store in memory holds, all of it is plain, and no version exceeds a
number. -/
structure Rendering (n : Nat) (m : Memory) (t : Tables) : Prop where
  types : t.types = m.types.map fun _ type => Tables.definitionsOf type
  items : t.items = m.items.map fun _ i => i.row
  lastItem : t.lastItem = m.lastItem
  declared : ∀ name type, m.types.get? name = some type →
    type.IsDistinct ∧ type.hasPlainNames = true
  held : ∀ row i, m.items.get? row = some i →
    i.version ≤ n ∧ ∃ type, m.types.get? i.typeName = some type ∧ type.HoldsPlain i.fields

namespace Rendering

variable {n : Nat} {m m' : Memory} {t t' : Tables}

theorem mono (h : Rendering n m t) {k : Nat} (hk : n ≤ k) : Rendering k m t where
  types := h.types
  items := h.items
  lastItem := h.lastItem
  declared := h.declared
  held row i hi := ⟨Nat.le_trans (h.held row i hi).1 hk, (h.held row i hi).2⟩

-- ---------------------------------------------------------------------------
-- Questions
-- ---------------------------------------------------------------------------

theorem get?_types (h : Rendering n m t) (name : String) :
    t.types.get? name = (m.types.get? name).map Tables.definitionsOf := by
  rw [h.types, SortedMap.get?_map]

theorem get?_items (h : Rendering n m t) (row : Int) :
    t.items.get? row = (m.items.get? row).map WorkItem.row := by
  rw [h.items, SortedMap.get?_map]

theorem type?_eq (h : Rendering n m t) (name : String) :
    t.type? name = .ok (m.types.get? name) := by
  unfold Tables.type?
  rw [h.get?_types]
  cases htype : m.types.get? name with
  | none => rfl
  | some type =>
    have hdecode := Tables.decodeType_definitionsOf type
    rw [m.named name type htype] at hdecode
    simp only [Option.map_some, hdecode]
    rfl

theorem decodeTypes_map {l : List (String × ItemType)} (hl : ∀ e ∈ l, e.2.name = e.1) :
    Tables.decodeTypes (l.map fun e => (e.1, Tables.definitionsOf e.2)) = .ok (l.map Prod.snd) := by
  induction l with
  | nil => rfl
  | cons e rest ih =>
    have hdecode := Tables.decodeType_definitionsOf e.2
    rw [hl e List.mem_cons_self] at hdecode
    rw [List.map_cons, Tables.decodeTypes]
    simp only [hdecode, ih fun x hx => hl x (List.mem_cons_of_mem e hx)]
    rfl

theorem types_eq (h : Rendering n m t) :
    Tables.decodeTypes t.types.toList = .ok m.types.values := by
  rw [h.types]
  exact decodeTypes_map fun e he => m.named e.1 e.2 (SortedMap.mem_entries_iff.mp he)

theorem decodeItem_eq (h : Rendering n m t) {row : Int} {i : WorkItem}
    (hi : m.items.get? row = some i) : t.decodeItem row i.row = .ok i := by
  obtain ⟨-, type, htype, hplain⟩ := h.held row i hi
  have hheld : t.type? i.row.typeName = .ok (some type) := by
    rw [h.type?_eq]
    exact congrArg Except.ok htype
  unfold Tables.decodeItem
  rw [hheld]
  simp only [WorkItem.row, Document.payload?_ofFields, hplain.decode]
  rw [← m.itemsNumbered row i hi]

theorem item?_eq (h : Rendering n m t) (row : Int) : t.item? row = .ok (m.items.get? row) := by
  cases hi : m.items.get? row with
  | none => exact Tables.item?_of_none (by rw [h.get?_items, hi]; rfl)
  | some i =>
    rw [Tables.item?_of_row (r := i.row) (by rw [h.get?_items, hi]; rfl), h.decodeItem_eq hi]
    rfl

theorem mem_items (h : Rendering n m t) {e : Int × ItemRow} (he : e ∈ t.items.toList) :
    ∃ i, m.items.get? e.1 = some i ∧ e.2 = i.row := by
  have hrow := SortedMap.mem_entries_iff.mp (show (e.1, e.2) ∈ t.items.entries from he)
  rw [h.get?_items] at hrow
  obtain ⟨i, hi, hwritten⟩ := Option.map_eq_some_iff.mp hrow
  exact ⟨i, hi, hwritten.symm⟩

theorem decodeItems_map {l : List (Int × WorkItem)}
    (hl : ∀ e ∈ l, t.decodeItem e.1 e.2.row = .ok e.2) :
    t.decodeItems (l.map fun e => (e.1, e.2.row)) = .ok (l.map Prod.snd) := by
  induction l with
  | nil => rfl
  | cons e rest ih =>
    exact Tables.decodeItems_cons_ok (hl e List.mem_cons_self)
      (ih fun x hx => hl x (List.mem_cons_of_mem e hx))

theorem items_eq (h : Rendering n m t) : t.decodeItems t.items.toList = .ok m.items.values := by
  have hall : t.decodeItems (m.items.toList.map fun e => (e.1, e.2.row)) = .ok m.items.values :=
    decodeItems_map fun e he => h.decodeItem_eq (SortedMap.mem_entries_iff.mp he)
  rw [h.items]
  exact hall

/-- A row shows the fields of the item that is written in it. -/
theorem shows (h : Rendering n m t) {row : Int} {i : WorkItem} (hi : m.items.get? row = some i) :
    ∃ type, (t.viewOf i.row).Shows type i.fields := by
  obtain ⟨-, type, htype, hplain⟩ := h.held row i hi
  obtain ⟨hdistinct, hnames⟩ := h.declared i.typeName type htype
  refine ⟨type, rfl, ?_, hdistinct, List.all_eq_true.mp hnames, hplain⟩
  show ((t.types.get? i.typeName).map StoredDocument.tree).getD .null = _
  rw [h.get?_types, htype]
  rfl

theorem sees (h : Rendering n m t) {f : Filter} (hf : f.isExact = true) :
    t.Sees f m.items.values where
  all := h.items_eq
  safe := by
    rintro e he
    obtain ⟨i, hi, hrow⟩ := h.mem_items he
    obtain ⟨type, hshows⟩ := h.shows hi
    rw [hrow]
    exact Clause.outcome_ofFilter_ne_fault hshows hf
  selects := by
    rintro e he i hdecode
    obtain ⟨j, hj, hrow⟩ := h.mem_items he
    obtain ⟨type, hshows⟩ := h.shows hj
    rw [hrow, h.decodeItem_eq hj] at hdecode
    obtain rfl := Except.ok.inj hdecode
    rw [hrow, Clause.outcome_eq_yes_iff]
    exact Clause.eval_ofFilter_iff hshows f hf

/-- A filter is answered with the same items. -/
theorem fetchItems_eq (h : Rendering n m t) {f : Filter} (hf : f.isExact = true)
    (hready : Clause.isPreparable f 2 = true) (offset limit : UInt64) :
    t.fetchItems f offset limit =
      .ok (((m.matching f).drop offset.toNat).take limit.toNat) :=
  (h.sees hf).fetchItems hready offset limit

theorem countItems_eq (h : Rendering n m t) {f : Filter} (hf : f.isExact = true)
    (hready : Clause.isPreparable f 2 = true) :
    t.countItems f = .ok (m.matching f).length :=
  (h.sees hf).countItems (Clause.isPreparable_of_le (Nat.zero_le 2) hready)

-- ---------------------------------------------------------------------------
-- Changes
-- ---------------------------------------------------------------------------

theorem contains_types (h : Rendering n m t) (name : String) :
    t.types.contains name = m.types.contains name := by
  rw [h.types, SortedMap.contains_map]

/-- An item that is put into its row in both is written there. -/
theorem insert (h : Rendering n m t) {row last : Int} {i : WorkItem} (hnumber : i.id = .ofRow row)
    (hversion : i.version ≤ n) {type : ItemType} (htype : m.types.get? i.typeName = some type)
    (hplain : type.HoldsPlain i.fields)
    (hm : m' = { m with
      items := m.items.insert row i
      lastItem := last
      itemsNumbered := SortedMap.forall_get?_insert m.itemsNumbered hnumber })
    (ht : t' = { t with items := t.items.insert row i.row, lastItem := last }) :
    Rendering n m' t' := by
  subst hm ht
  refine ⟨h.types, ?_, rfl, h.declared, ?_⟩
  · show t.items.insert row i.row = _
    rw [SortedMap.map_insert, h.items]
  · exact SortedMap.forall_get?_insert h.held ⟨hversion, type, htype, hplain⟩

/-- A new item is put into the same row of both. -/
theorem insertItem (h : Rendering n m t) {type : ItemType} {fields : Fields}
    (htype : m.types.get? type.name = some type) (hplain : type.HoldsPlain fields) :
    ∃ t', t.insertItem type.name initialVersion fields =
        (.ok (m.insertItem type.name initialVersion fields).1, t') ∧
      Rendering n (m.insertItem type.name initialVersion fields).2 t' := by
  have hknown : t.types.contains type.name = true := by
    rw [h.contains_types, SortedMap.contains, htype]
    rfl
  have hwrite : t.insertItem type.name initialVersion fields =
      (.ok ⟨.ofRow (t.lastItem + 1), type.name, initialVersion, fields⟩,
        { t with
          items := t.items.insert (t.lastItem + 1)
            ⟨type.name, initialVersion, .ofTree (Document.ofFields fields)⟩
          lastItem := t.lastItem + 1 }) := by
    unfold Tables.insertItem
    rw [if_neg (by decide), hknown]
    rfl
  refine ⟨_, by rw [hwrite, h.lastItem]; rfl, ?_⟩
  exact h.insert (i := ⟨.ofRow (m.lastItem + 1), type.name, initialVersion, fields⟩) rfl
    (Nat.zero_le n) htype hplain rfl rfl

/-- An item that still has its version is changed in both. -/
theorem updateItem (h : Rendering n m t) {row : Int} {i : WorkItem} {version : Nat}
    {type : ItemType} {fields : Fields} (hi : m.items.get? row = some i)
    (hrow : i.id.row? = some row) (hversion : version ≤ n) (hbound : n ≤ Tables.greatestVersion)
    (htype : m.types.get? i.typeName = some type) (hplain : type.HoldsPlain fields) :
    ∃ m' t', m.updateItem { i with version, fields } i.version = (true, m') ∧
      t.updateItem { i with version, fields } i.version = (.ok true, t') ∧ Rendering n m' t' := by
  have hstored := h.get?_items row
  rw [hi, Option.map_some] at hstored
  refine ⟨_, { t with items := t.items.insert row (WorkItem.row { i with version, fields }) },
    ?_, ?_, h.insert (i := { i with version, fields }) (m.itemsNumbered row i hi) hversion htype
      hplain rfl (by rw [h.lastItem])⟩
  · unfold Memory.updateItem
    simp only [hrow]
    split
    · next hnone =>
      rw [hi] at hnone
      exact absurd hnone (by simp)
    · next stored hsome =>
      obtain rfl : i = stored := Option.some.inj (hi.symm.trans hsome)
      rw [if_pos rfl]
  · have hlow : i.version ≤ n := (h.held row i hi).1
    unfold Tables.updateItem
    simp only [hrow, hstored]
    rw [if_neg (by omega), if_neg (by omega), if_pos (show i.row.version = i.version from rfl)]
    rfl

/-- An item is removed from both, if it is there. -/
theorem deleteItem (h : Rendering n m t) (row : Int) :
    (t.deleteItem row).1 = (m.deleteItem row).1 ∧
      Rendering n (m.deleteItem row).2 (t.deleteItem row).2 := by
  have hcontains : t.items.contains row = m.items.contains row := by
    rw [h.items, SortedMap.contains_map]
  unfold Tables.deleteItem Memory.deleteItem
  rw [hcontains]
  by_cases hc : m.items.contains row = true
  · rw [if_pos hc, if_pos hc]
    refine ⟨rfl, h.types, ?_, h.lastItem, h.declared, SortedMap.forall_get?_erase h.held⟩
    show t.items.erase row = _
    rw [SortedMap.map_erase, h.items]
  · rw [if_neg hc, if_neg hc]
    exact ⟨rfl, h⟩

/-- A type is taken in by both or refused by both. -/
theorem insertType (h : Rendering n m t) {type : ItemType} (hname : Tables.isName type.name = true)
    (hdistinct : type.IsDistinct) (hnames : type.hasPlainNames = true) :
    (t.insertType type).1 = (m.insertType type).1 ∧
      Rendering n (m.insertType type).2 (t.insertType type).2 := by
  unfold Tables.insertType Memory.insertType
  rw [hname, h.contains_types, Bool.not_true, Bool.or_false]
  by_cases hc : m.types.contains type.name = true
  · rw [if_pos hc, if_pos hc]
    exact ⟨rfl, h⟩
  · rw [if_neg hc, if_neg hc]
    refine ⟨rfl, ?_, h.items, h.lastItem,
      SortedMap.forall_get?_insert h.declared ⟨hdistinct, hnames⟩, fun row i hi => ?_⟩
    · show t.types.insert type.name (Tables.definitionsOf type) = _
      rw [Memory.keepType, SortedMap.map_insert, h.types]
    · obtain ⟨hversion, type', htype', hplain⟩ := h.held row i hi
      refine ⟨hversion, type', ?_, hplain⟩
      -- the type of an item that is held is not the one that is taken in
      have hne : i.typeName ≠ type.name := by
        intro e
        rw [e] at htype'
        exact hc (by rw [SortedMap.contains, htype']; rfl)
      rw [Memory.keepType]
      simp only [SortedMap.get?_insert, if_neg hne, htype']

end Rendering

/-- New tables are a rendering of a new store in memory. -/
theorem rendering_new : Rendering 0 Memory.new Tables.new where
  types := by
    refine SortedMap.ext_entries ?_
    rfl
  items := rfl
  lastItem := rfl
  declared := by
    have hall : ∀ e ∈ Memory.new.types.toList, e.2.IsDistinct ∧ e.2.hasPlainNames = true := by
      decide +kernel
    exact fun name type htype => hall (name, type) (SortedMap.mem_entries_iff.mpr htype)
  held _ _ hi := nomatch hi

end Backlog
