import Backlog.Proofs.Conforming
import Backlog.View

/-!
# What the view of a work item keeps

A view shows the fields of an item as attributes, each under its own name, and puts the version of
the record among them. The name of that one attribute is not kept free: a type may declare a field
called `version`, and the version of the record takes its place. Everything else of the item is in
the view. The id is there as it is, the type in a relationship, and so is the iteration that the
item is planned into, which is a field of the item as well.

So two items have one view exactly if they differ in nothing but that field, and the views of items
tell them apart exactly as long as none of their types declares it.

## Main results

* `ResourceView.ofItem_eq_iff` — which items have one view;
* `ItemType.exists_conforms` — every type has an item;
* `ResourceView.faithful_iff` — for which types the view of an item loses nothing.
-/

namespace Backlog

-- ---------------------------------------------------------------------------
-- Items with one view
-- ---------------------------------------------------------------------------

/-- The iteration that an item says it is planned into. -/
def WorkItem.plannedInto? (i : WorkItem) : Option String :=
  match i.field? SystemField.iteration with
  | some (.identifier id) => some id
  | _ => none

namespace ResourceView

variable {api : ApiConfig} {a b : WorkItem}

/-- An item is related to its type, to the iteration it is planned into, and to nothing else. -/
theorem get?_itemRelationships (api : ApiConfig) (i : WorkItem) (name : String) :
    (itemRelationships api i).get? name =
      if name = "iteration" then
        i.plannedInto?.map fun id => .leadingTo "iterations" id (api.iterationsUrl ++ "/" ++ id)
      else if name = "baseType" then
        some (.leadingTo "workitemtypes" i.typeName (api.under ("workitemtypes/" ++ i.typeName)))
      else none := by
  have hbase : ∀ r : Relationship, (SortedMap.ofList [("baseType", r)]).get? name =
      if name = "baseType" then some r else none :=
    fun r => SortedMap.get?_insert ∅ "baseType" name r
  unfold itemRelationships
  split
  · next id hfield =>
    have hplanned : i.plannedInto? = some id := by rw [WorkItem.plannedInto?, hfield]
    rw [SortedMap.get?_insert, hbase, hplanned, Option.map_some]
  · next hfield =>
    have hplanned : i.plannedInto? = none := by
      unfold WorkItem.plannedInto?
      split
      · next id hid => exact absurd hid (hfield id)
      · rfl
    rw [hbase, hplanned, Option.map_none]
    split
    · next hname => rw [hname, if_neg (by decide)]
    · rw [ite_self]

/-- The relationships of an item are its type and the iteration it is planned into. -/
theorem itemRelationships_eq_iff :
    itemRelationships api a = itemRelationships api b ↔
      a.typeName = b.typeName ∧ a.plannedInto? = b.plannedInto? := by
  constructor
  · intro h
    constructor
    · have htype := get?_itemRelationships api a "baseType"
      rw [h, get?_itemRelationships, if_neg (by decide), if_pos rfl, if_neg (by decide), if_pos rfl,
        Option.some.injEq] at htype
      have hdata := Option.some.inj (Relationship.mk.inj htype).1
      exact (ResourceRef.mk.inj hdata).2.symm
    · have hplanned := get?_itemRelationships api a "iteration"
      rw [h, get?_itemRelationships, if_pos rfl, if_pos rfl] at hplanned
      refine (Option.map_injective (fun id id' e => ?_) hplanned).symm
      exact (ResourceRef.mk.inj (Option.some.inj (Relationship.mk.inj e).1)).2
  · rintro ⟨htype, hplanned⟩
    refine SortedMap.ext_get? fun name => ?_
    rw [get?_itemRelationships, get?_itemRelationships, htype, hplanned]

/-- The attributes of an item are its version and its fields, but for the one of that name. -/
theorem itemAttributes_eq_iff :
    itemAttributes a = itemAttributes b ↔
      a.version = b.version ∧
        ∀ name, name ≠ "version" → a.fieldsJson.get? name = b.fieldsJson.get? name := by
  have hshows : ∀ (i : WorkItem) (name : String), (itemAttributes i).get? name =
      if name = "version" then some (.nat i.version) else i.fieldsJson.get? name :=
    fun i name => SortedMap.get?_insert _ _ _ _
  constructor
  · intro h
    refine ⟨?_, fun name hname => ?_⟩
    · have hversion := hshows a "version"
      rw [h, hshows b, if_pos rfl, if_pos rfl] at hversion
      have hnumber := JsonNumber.integer.inj (Json.number.inj (Option.some.inj hversion))
      exact (Int.ofNat.inj hnumber).symm
    · have hfield := hshows a name
      rw [h, hshows b, if_neg hname, if_neg hname] at hfield
      exact hfield.symm
  · rintro ⟨hversion, hfields⟩
    refine SortedMap.ext_get? fun name => ?_
    rw [hshows, hshows, hversion]
    split
    · rfl
    · next hname => exact hfields name hname

/-- **Two items have one view exactly if they have the same id, type, version and planned iteration,
and the same stored form of every field that is not called `version`.** -/
theorem ofItem_eq_iff :
    ofItem api [] a = ofItem api [] b ↔
      a.id = b.id ∧ a.typeName = b.typeName ∧ a.version = b.version ∧
        a.plannedInto? = b.plannedInto? ∧
        ∀ name, name ≠ "version" → a.fieldsJson.get? name = b.fieldsJson.get? name := by
  constructor
  · intro h
    obtain ⟨-, hid, hattributes, hrelationships, -, -⟩ := ResourceView.mk.inj h
    obtain ⟨hversion, hfields⟩ := itemAttributes_eq_iff.mp hattributes
    obtain ⟨htype, hplanned⟩ := itemRelationships_eq_iff.mp hrelationships
    exact ⟨congrArg ItemId.mk hid, htype, hversion, hplanned, hfields⟩
  · rintro ⟨hid, htype, hversion, hplanned, hfields⟩
    have hattributes := itemAttributes_eq_iff.mpr ⟨hversion, hfields⟩
    have hrelationships : itemRelationships api a = itemRelationships api b :=
      itemRelationships_eq_iff.mpr ⟨htype, hplanned⟩
    simp only [ofItem, decorate, List.foldl_nil, hid, hattributes, hrelationships]

end ResourceView

-- ---------------------------------------------------------------------------
-- Items of every type
-- ---------------------------------------------------------------------------

/-- Values that are no identifiers are of their kind. -/
theorem FieldValue.isOf_kind {v : FieldValue} (h : v.kind ≠ .identifier) : v.IsOf v.kind :=
  ⟨rfl, fun _ hs => absurd (congrArg kind hs) h⟩

/-- Every kind has two values with different stored forms. -/
theorem FieldValue.exists_isOf_ne (kind : FieldKind) :
    ∃ v w : FieldValue, v.IsOf kind ∧ w.IsOf kind ∧ v.toJson ≠ w.toJson := by
  cases kind with
  | string =>
    exact ⟨.string "a", .string "b", isOf_kind (by decide), isOf_kind (by decide), by simp [toJson]⟩
  | integer =>
    exact ⟨.integer 0, .integer 1, isOf_kind (by decide), isOf_kind (by decide),
      by simp [toJson, Json.int]⟩
  | bool =>
    exact ⟨.bool true, .bool false, isOf_kind (by decide), isOf_kind (by decide), by simp [toJson]⟩
  | timestamp =>
    refine ⟨.timestamp ⟨0, 0, by decide, by decide⟩, .timestamp ⟨1, 0, by decide, by decide⟩,
      isOf_kind (by decide), isOf_kind (by decide), fun h => ?_⟩
    exact absurd (Json.string.inj h) (by decide +kernel)
  | identifier =>
    have hname : ∀ s, isIdentifier s = true → (FieldValue.identifier s).IsOf .identifier :=
      fun _ hs => isOf_of_ofJson (ofJson_identifier_iff.mpr ⟨hs, rfl⟩)
    exact ⟨.identifier "a", .identifier "b", hname "a" (by decide +kernel),
      hname "b" (by decide +kernel), by simp [toJson]⟩

namespace ItemType

variable {t : ItemType} {fields : Fields}

/-- Fields that conform to a type still do with another value of the right kind. -/
theorem Conforms.insert (h : t.Conforms fields) {d : FieldDefinition} (hd : d ∈ t.fields)
    {v : FieldValue} (hv : v.IsOf d.kind) : t.Conforms (fields.insert d.name v) where
  declared := SortedMap.forall_get?_insert h.declared ⟨d, hd, rfl, hv⟩
  required := fun e he hrequired =>
    SortedMap.contains_insert_iff.mpr (.inr (h.required e he hrequired))

/-- Some of the declared fields can all be there, with no field that is not declared. -/
theorem exists_filled {ds : List FieldDefinition} (hds : ∀ d ∈ ds, d ∈ t.fields) :
    ∃ fields : Fields,
      (∀ name v, fields.get? name = some v → ∃ d ∈ t.fields, d.name = name ∧ v.IsOf d.kind) ∧
        ∀ d ∈ ds, fields.contains d.name = true := by
  induction ds with
  | nil => exact ⟨∅, nofun, nofun⟩
  | cons d ds ih =>
    obtain ⟨hd, hds⟩ := List.forall_mem_cons.mp hds
    obtain ⟨fields, hdeclared, hfull⟩ := ih hds
    obtain ⟨v, -, hv, -, -⟩ := FieldValue.exists_isOf_ne d.kind
    refine ⟨fields.insert d.name v, SortedMap.forall_get?_insert hdeclared ⟨d, hd, rfl, hv⟩, ?_⟩
    refine List.forall_mem_cons.mpr ⟨?_, fun e he => ?_⟩
    · exact SortedMap.contains_insert_iff.mpr (.inl rfl)
    · exact SortedMap.contains_insert_iff.mpr (.inr (hfull e he))

/-- There are fields that conform to a type. -/
theorem exists_conforms (t : ItemType) : ∃ fields, t.Conforms fields := by
  obtain ⟨fields, hdeclared, hfull⟩ := exists_filled fun d (hd : d ∈ t.fields) => hd
  exact ⟨fields, hdeclared, fun d hd _ => hfull d hd⟩

end ItemType

/-- An item of one of the admitted types. -/
def WorkItem.IsAmong (admitted : ItemType → Prop) (i : WorkItem) : Prop :=
  ∃ t, admitted t ∧ i.typeName = t.name ∧ t.Conforms i.fields

/-- Where a type declares a field, two items differ in nothing but the stored form of that field. -/
theorem WorkItem.exists_isAmong_ne {admitted : ItemType → Prop} {t : ItemType} (ht : admitted t)
    {d : FieldDefinition} (hd : d ∈ t.fields) :
    ∃ (fields : Fields) (v w : FieldValue), v.toJson ≠ w.toJson ∧
      ∀ x, x = v ∨ x = w →
        WorkItem.IsAmong admitted ⟨.ofRow 1, t.name, initialVersion, fields.insert d.name x⟩ := by
  obtain ⟨fields, hfields⟩ := t.exists_conforms
  obtain ⟨v, w, hv, hw, hne⟩ := FieldValue.exists_isOf_ne d.kind
  refine ⟨fields, v, w, hne, fun x hx => ⟨t, ht, rfl, hfields.insert hd ?_⟩⟩
  rcases hx with rfl | rfl
  · exact hv
  · exact hw

-- ---------------------------------------------------------------------------
-- Views that lose nothing
-- ---------------------------------------------------------------------------

namespace ResourceView

variable {api : ApiConfig} {admitted : ItemType → Prop}

/-- No type declares a field called `version`. -/
def LeavesFree (admitted : ItemType → Prop) : Prop :=
  ∀ t, admitted t → ∀ d ∈ t.fields, d.name ≠ "version"

/-- Items with one view have the same id, type and version, and the same stored form of every
field. -/
def KeepsApart (api : ApiConfig) (admitted : ItemType → Prop) : Prop :=
  ∀ a b : WorkItem, a.IsAmong admitted → b.IsAmong admitted → ofItem api [] a = ofItem api [] b →
    a.id = b.id ∧ a.typeName = b.typeName ∧ a.version = b.version ∧ a.fieldsJson = b.fieldsJson

/-- Every field of an item shows under its own name in its own form, beside the version. -/
def ShowsFields (api : ApiConfig) (admitted : ItemType → Prop) : Prop :=
  ∀ i : WorkItem, i.IsAmong admitted →
    (∀ name v, i.field? name = some v →
      (ofItem api [] i).attributes.get? name = some v.toJson) ∧
    (ofItem api [] i).attributes.get? "version" = some (.nat i.version)

/-- An item has no field that its type does not declare. -/
theorem LeavesFree.field?_version (h : LeavesFree admitted) {i : WorkItem}
    (hi : i.IsAmong admitted) : i.field? "version" = none := by
  obtain ⟨t, ht, -, hconforms⟩ := hi
  refine Option.eq_none_iff_forall_ne_some.mpr fun v hv => ?_
  obtain ⟨d, hd, hname, -⟩ := hconforms.declared "version" v hv
  exact h t ht d hd hname

/-- A field called `version` leaves no trace in the view. -/
theorem ofItem_insert_version (api : ApiConfig) (id : ItemId) (name : String) (version : Nat)
    (fields : Fields) (v w : FieldValue) :
    ofItem api [] ⟨id, name, version, fields.insert "version" v⟩ =
      ofItem api [] ⟨id, name, version, fields.insert "version" w⟩ := by
  have hothers : ∀ name x, name ≠ "version" →
      (fields.insert "version" x).get? name = fields.get? name :=
    fun name x hname => (SortedMap.get?_insert _ _ _ _).trans (if_neg hname)
  have hplanned : SystemField.iteration ≠ "version" := by decide
  refine ofItem_eq_iff.mpr ⟨rfl, rfl, rfl, ?_, fun name hname => ?_⟩
  · simp only [WorkItem.plannedInto?, WorkItem.field?, hothers _ _ hplanned]
  · simp only [WorkItem.get?_fieldsJson, WorkItem.field?, hothers _ _ hname]

theorem keepsApart_iff : KeepsApart api admitted ↔ LeavesFree admitted := by
  constructor
  · -- two items that differ in the field only have one view
    intro h t ht d hd hname
    obtain ⟨fields, v, w, hne, hamong⟩ := WorkItem.exists_isAmong_ne ht hd
    rw [hname] at hamong
    obtain ⟨-, -, -, hforms⟩ := h _ _ (hamong v (.inl rfl)) (hamong w (.inr rfl))
      (ofItem_insert_version api _ _ _ _ _ _)
    have hform := congrArg (SortedMap.get? · "version") hforms
    simp only [WorkItem.get?_fieldsJson, WorkItem.field?, SortedMap.get?_insert_self,
      Option.map_some, Option.some.injEq] at hform
    exact hne hform
  · intro h a b ha hb hview
    obtain ⟨hid, htype, hversion, -, hfields⟩ := ofItem_eq_iff.mp hview
    refine ⟨hid, htype, hversion, SortedMap.ext_get? fun name => ?_⟩
    by_cases hname : name = "version"
    · rw [hname, WorkItem.get?_fieldsJson, WorkItem.get?_fieldsJson, h.field?_version ha,
        h.field?_version hb]
    · exact hfields name hname

theorem showsFields_iff : ShowsFields api admitted ↔ LeavesFree admitted := by
  constructor
  · -- the field would show its own form, whichever it is, where the version shows
    intro h t ht d hd hname
    obtain ⟨fields, v, w, hne, hamong⟩ := WorkItem.exists_isAmong_ne ht hd
    rw [hname] at hamong
    have hshown : ∀ x, x = v ∨ x = w → x.toJson = .nat initialVersion := by
      intro x hx
      obtain ⟨hfields, hversion⟩ := h _ (hamong x hx)
      have hfield := hfields "version" x (SortedMap.get?_insert_self _ _ _)
      exact Option.some.inj (hfield.symm.trans hversion)
    exact hne ((hshown v (.inl rfl)).trans (hshown w (.inr rfl)).symm)
  · intro h i hi
    constructor
    · intro name v hv
      have hname : name ≠ "version" := by
        rintro rfl
        exact absurd ((h.field?_version hi).symm.trans hv) (by simp)
      rw [get?_attributes_ofItem, if_neg hname, hv, Option.map_some]
    · rw [get?_attributes_ofItem, if_pos rfl]

/-- **The view of an item loses nothing exactly if no type declares a field called `version`.**
Equal views are always of items with the same id, type and version, and with the same stored form of
every other field. Among the items of some types, equal views have the same stored form of all
fields, and every field shows under its own name in its own form beside the version of the record,
exactly if none of these types declares a field of that name. -/
theorem faithful_iff (api : ApiConfig) (admitted : ItemType → Prop) :
    (∀ a b, ofItem api [] a = ofItem api [] b →
      a.id = b.id ∧ a.typeName = b.typeName ∧ a.version = b.version ∧
        ∀ name, name ≠ "version" → a.fieldsJson.get? name = b.fieldsJson.get? name) ∧
    (KeepsApart api admitted ↔ LeavesFree admitted) ∧
    (ShowsFields api admitted ↔ LeavesFree admitted) := by
  refine ⟨fun a b h => ?_, keepsApart_iff, showsFields_iff⟩
  obtain ⟨hid, htype, hversion, -, hfields⟩ := ofItem_eq_iff.mp h
  exact ⟨hid, htype, hversion, hfields⟩

/-- A note with a text called `version`. -/
def versioned (text : String) : WorkItem :=
  ⟨.ofRow 1, "note", initialVersion, SortedMap.insert ∅ "version" (.string text)⟩

/-- A type of notes with a text called `version` is valid, and two notes with different texts have
one view. -/
theorem not_faithful_versioned :
    let note : ItemType := ⟨"note", [⟨"version", .string, false⟩]⟩
    note.validate = .ok () ∧
      (∀ text, note.convertFields (SortedMap.insert ∅ "version" (.string text)) =
        .ok (versioned text).fields) ∧
      ofItem ⟨"http://localhost"⟩ [] (versioned "a") =
        ofItem ⟨"http://localhost"⟩ [] (versioned "b") ∧
      (versioned "a").fieldsJson ≠ (versioned "b").fieldsJson := by
  refine ⟨eq_ok_of_toOption (by decide +kernel), fun _ => rfl, by decide +kernel, fun h => ?_⟩
  have hform := congrArg (SortedMap.get? · "version") h
  exact absurd hform (by decide +kernel)

end ResourceView

end Backlog
