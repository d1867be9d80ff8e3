import Backlog.Proofs.DeclaredFields
import Backlog.Proofs.IterationCounts
import Backlog.Proofs.StoredForms
import Backlog.Proofs.UntypedFilters

/-!
# What is stored can be searched for

A client that has loaded an item may ask for all items with the same value in one of its fields, by
a filter of that field and the stored form of the value. The form passes through the catalog of the
day, which makes a value of the declared kind of it, or takes it for what it looks like when types
disagree; either way that value is written like the stored one. Tables compare what is written, so
they find the item. A store in memory compares values, and holds instants as they came: it finds the
item unless the value is an instant that is finer than a microsecond, of which the form is a part
only.

Two names are out of reach. Schemas may declare fields that are called as the keys of groups are,
but in a filter these names stand for groups, and a value is no group: such a filter is refused.

What is left open here: an instant in a year with a sign, which no reader takes back from its form,
and in tables names that are written with escapes and texts with the character zero, which queries
do not see as they are.

## Main results

* `Filter.exists_isLiteral_toJson` — the form of a value is a literal of its field, under any
  catalog that knows the field by its kind or by none;
* `Clause.eval_ofEquality_of_toJson` — the clause of a value selects whatever is written like it;
* `Service.searchable_reached` — what a client finds that asks for a value it has loaded.
-/

namespace Backlog

open Tx WorkItems

-- ---------------------------------------------------------------------------
-- Literals
-- ---------------------------------------------------------------------------

namespace FieldValue

/-- A value that is written like an instant in a year with a sign. -/
def HasSignedForm (v : FieldValue) : Prop := ∃ t : Timestamp, t.IsSigned ∧ v.toJson = .string t.text

theorem IsSigned.hasSignedForm {v : FieldValue} (h : v.IsSigned) : v.HasSignedForm := by
  obtain ⟨t, rfl, ht⟩ := h
  exact ⟨t, ht, rfl⟩

/-- What fits a kind is of it, unless it has the form of an instant that is not read back. -/
theorem Fits.kind_eq {kind : FieldKind} {v : FieldValue} (h : Fits kind v)
    (hsigned : kind = .timestamp → ¬ v.HasSignedForm) : v.kind = kind := by
  cases h with
  | @signed t ht => exact absurd ⟨t, ht, rfl⟩ (hsigned rfl)
  | _ => rfl

theorem IsSigned.kind_eq {v : FieldValue} (h : v.IsSigned) : v.kind = .timestamp := by
  obtain ⟨t, rfl, -⟩ := h
  rfl

theorem kind_truncated (v : FieldValue) : v.truncated.kind = v.kind := by
  cases v <;> rfl

end FieldValue

/-- **The form of a value is a literal of its field**, if the catalog knows the field by the kind of
the value or by none. What it stands for is written like the value, and is compared with it as the
value cut to microseconds. -/
theorem Filter.exists_isLiteral_toJson {catalog : Catalog} {field : String} {v : FieldValue}
    (hkind : catalog.kind? field = none ∨ catalog.kind? field = some v.kind)
    (hread : FieldValue.ofJson v.kind v.toJson = .ok v.truncated) :
    ∃ w, IsLiteral catalog field v.toJson w ∧ w.toJson = v.toJson ∧
      w.coerceTo v.kind = some v.truncated := by
  rcases hkind with hnone | hsome
  · obtain ⟨w, hw⟩ := v.infer_toJson
    refine ⟨w, (isLiteral_iff_infer hnone).mpr hw, FieldValue.toJson_of_infer hw, ?_⟩
    rw [FieldValue.coerceTo_of_infer hw, FieldValue.ofJson?_eq_some_iff, hread]
  · refine ⟨v.truncated, .converted hsome (isScalar_toJson v) hread, v.toJson_truncated, ?_⟩
    rw [← v.kind_truncated, FieldValue.coerceTo_self]

/-- What is compared with a value as the value cut to microseconds equals it if nothing is cut. -/
theorem Filter.equalsStored_truncated_iff {v w : FieldValue}
    (hw : w.coerceTo v.kind = some v.truncated) : equalsStored w v = true ↔ v.truncated = v := by
  rw [equalsStored, beq_iff_eq, hw, Option.some.injEq]

/-- A filter of a value under the key of a group is refused. -/
theorem Filter.read_text_of_key {catalog : Catalog} {key : String} {v : FieldValue}
    (hkey : key = andKey ∨ key = orKey) :
    read catalog (Filter.equals key v).text = .error (.noArray key v.toJson.sort) := by
  have hmember : ofMember catalog key v.toJson = .error (.noArray key v.toJson.sort) := by
    rcases hkey with rfl | rfl <;> cases v <;> rfl
  rw [read_text_equals, hmember]
  rfl

-- ---------------------------------------------------------------------------
-- Clauses
-- ---------------------------------------------------------------------------

namespace Clause

variable {r : RowView} {field : String} {v w : FieldValue}

/-- **The clause of an equality selects a row where the field holds what is written like its
literal**, whatever the kinds of the two are. -/
theorem eval_ofEquality_of_toJson {fields : Fields} (hfirm : Firm r (ofEquality field w))
    (hf : Json.isUnescaped field = true) (hfields : r.fields = Document.ofFields fields)
    (hv : fields.get? field = some v) (hw : w.toJson = v.toJson)
    (htext : ∀ s, v.toJson = .string s → Text.isUnbroken s = true) :
    eval r (ofEquality field w) = .yes := by
  have hbroken : r.isBroken field = false := isBroken_of_isUnescaped hf
  have hpart : r.part? field = some (Document.ofValue w) := by
    rw [part?_shown hfields hf, hv, Option.map_some, Document.ofValue_eq, Document.ofValue_eq, hw]
  have htextArm : ∀ s, w.toJson = .string s → Document.ofValue w = Document.ofText s →
      eval r (textArm field s) = .yes := by
    intro s hs hdoc
    rw [eval_textArm_cell hbroken, hpart, hdoc, Option.map_some,
      Document.cell_ofText (htext s (hw ▸ hs))]
  -- the first arm of the clause asks for the form of the literal
  cases w with
  | string s => exact (eval_or_iff hfirm).mpr ⟨_, List.mem_cons_self, htextArm s rfl rfl⟩
  | identifier s => exact (eval_or_iff hfirm).mpr ⟨_, List.mem_cons_self, htextArm s rfl rfl⟩
  | timestamp t => exact (eval_or_iff hfirm).mpr ⟨_, List.mem_cons_self, htextArm t.text rfl rfl⟩
  | integer n =>
    refine (eval_or_iff hfirm).mpr ⟨_, List.mem_cons_self, ?_⟩
    rw [eval_integerArm_cell hbroken, hpart, Option.map_some, Document.ofValue,
      Document.cell_ofInt]
  | bool b =>
    refine (eval_or_iff hfirm).mpr ⟨_, List.mem_cons_self, ?_⟩
    rw [boolArm, eval, test_eq hbroken, hpart, Option.map_some, Option.getD_some,
      Truth.ofBool_eq_yes_iff, FieldValue.isOfSort_ofValue]
    rfl

end Clause

-- ---------------------------------------------------------------------------
-- Stores
-- ---------------------------------------------------------------------------

namespace Tables.Typed

variable {t : Tables} {field : String}

theorem firm_equals (h : t.Typed) (hf : Json.isUnescaped field = true) (w : FieldValue) {row : Int}
    {r : ItemRow} (hr : t.items.get? row = some r) :
    Clause.Firm (t.viewOf r) (Clause.ofEquality field w) := by
  obtain ⟨type, -, htype, -⟩ := h.decodeItem_ok hr
  exact Clause.firm_ofEquality (h.types.definitions_viewOf htype)
    (Clause.isBroken_of_isUnescaped hf) w

/-- Typed tables take every equality of a field whose name is written without escapes. -/
theorem takes_equals (h : t.Typed) (hf : Json.isUnescaped field = true) (w : FieldValue) :
    t.Takes (.equals field w) where
  ready := Clause.isPreparable_equals field w
  safe e he := by
    rw [Clause.ofFilter]
    exact (h.firm_equals hf w (SortedMap.mem_entries_iff.mp he)).outcome_ne_fault

/-- A row is picked by an equality of what one of its fields is loaded as, however that is read. -/
theorem picks_equals (h : t.Typed) (hf : Json.isUnescaped field = true) {v w : FieldValue}
    {row : Int} {r : ItemRow} (hr : t.items.get? row = some r) {i : WorkItem}
    (hi : t.decodeItem row r = .ok i)
    (hv : i.fields.get? field = some v) (hw : w.toJson = v.toJson)
    (htext : ∀ s, v.toJson = .string s → Text.isUnbroken s = true) :
    t.Picks (.equals field w) r := by
  obtain ⟨_, fields, -, hdecode, -, hdoc⟩ := h.decodeItem_ok hr
  obtain rfl := Except.ok.inj (hi.symm.trans hdecode)
  rw [Picks, Clause.outcome_eq_yes_iff, Clause.ofFilter]
  exact Clause.eval_ofEquality_of_toJson (h.firm_equals hf w hr) hf (fields_viewOf hdoc) hv hw htext

end Tables.Typed

namespace Backend

/-- A store of a kind keeps a name and the form of a value in the spelling that it is asked for:
tables do if the name is written without escapes and the text without the character zero. -/
def Spells : Backend → String → FieldValue → Prop
  | memory, _, _ => True
  | tables, field, v =>
    Json.isUnescaped field = true ∧ ∀ s, v.toJson = .string s → Text.isUnbroken s = true

variable {b : Backend} {s : b.State} {field : String} {v : FieldValue}

/-- A store that keeps to its types takes every equality of a field that it spells. -/
theorem takes_equals (h : b.IsTyped s) (hspelled : b.Spells field v) (w : FieldValue) :
    b.Takes s (.equals field w) := by
  cases b with
  | memory => trivial
  | tables => exact Tables.Typed.takes_equals h hspelled.1 w

/-- A store that keeps to its types picks an item by a value that is written like the one of the
field: tables always, and a store in memory if nothing is cut of the value. -/
theorem picks_equals_iff (h : b.IsTyped s) (hspelled : b.Spells field v) {row : Int} {i : WorkItem}
    (hi : Store.item? s row = .ok (some i)) (hv : i.fields.get? field = some v) {w : FieldValue}
    (hw : w.toJson = v.toJson) (hcut : w.coerceTo v.kind = some v.truncated) :
    b.Picks s (.equals field w) row i ↔ (b = .memory → v.truncated = v) := by
  cases b with
  | memory =>
    show (Filter.equals field w).holdsFor i = true ↔ _
    rw [Filter.holdsFor_equals, Filter.holdsField, WorkItem.field?, hv]
    exact (Filter.equalsStored_truncated_iff hcut).trans ⟨fun e _ => e, fun e => e rfl⟩
  | tables =>
    obtain ⟨r, hr, hdecode⟩ := Tables.row_of_item? hi
    refine iff_of_true ⟨r, hr, ?_⟩ (by simp)
    exact Tables.Typed.picks_equals h hspelled.1 hr hdecode hv hw hspelled.2

end Backend

-- ---------------------------------------------------------------------------
-- Services
-- ---------------------------------------------------------------------------

namespace Service

section Requests

variable {σ : Type} [Store σ] {p : Service σ} {text : String}

/-- A text that is no filter is refused, whatever part of the list is asked for. -/
theorem list_refused {ts : List ItemType} (hts : Store.types p.store = .ok ts)
    {fault : Filter.Fault} (hread : Filter.read (Catalog.ofTypes ts) text = .error fault)
    (offset : Option String) (limit : Option Int64) :
    (p.transactional .new (WorkItems.list p.config.paging text offset limit)).1 =
      .error fault.toError := by
  have hfilter : (Tx.ofExcept (readFilter (Catalog.ofTypes ts) text) : Tx σ Filter).steps p.opened =
      (.error fault.toError, p.opened) := by
    rw [steps_ofExcept, readFilter, hread]
  have hlist : (WorkItems.list p.config.paging text offset limit : Tx σ ItemPage).steps p.opened =
      (.error fault.toError, p.opened) := by
    unfold WorkItems.list
    rw [steps_bind_ok (steps_proceed_of_stands p.stands_opened), steps_bind_ok (steps_ask_ok hts),
      steps_bind_error hfilter]
  show (p.finish p.cache.generation (Tx.steps _ p.opened).1 (Tx.steps _ p.opened).2).1 = _
  rw [hlist, finish_error]

/-- A service offers some items for a text: it shows every page of them that it is asked for, and a
client that follows the links of a page comes over all of them, if limits are set as they should. -/
structure Offers (p : Service σ) (text : String) (found : List WorkItem) : Prop where
  lists : p.Lists text found
  walks : 1 ≤ p.config.paging.defaultLimit.toNat →
    p.config.paging.defaultLimit.toNat ≤ p.config.paging.maxLimit.toNat →
    p.config.paging.maxLimit.toNat ≤ 9223372036854775807 → found.length ≤ 9223372036854775807 →
    ∀ offset limit, ∃ page, p.Paging text offset limit page found

/-- What a store finds is offered. -/
theorem offers_of_finds {ts : List ItemType} (hts : Store.types p.store = .ok ts) {f : Filter}
    (hread : Filter.read (Catalog.ofTypes ts) text = .ok f) {found : List WorkItem}
    (hfinds : Store.Finds p.store f found) : p.Offers text found where
  lists := shows_of_finds hts hread hfinds
  walks hdefault hle hmax hshort offset limit := by
    have hcuts : p.Cuts text found := ⟨shows_of_finds hts hread hfinds, by omega, by omega⟩
    exact ⟨_, hcuts.walks (PageRequest.limitOf_bounds hdefault hle limit) rfl⟩

end Requests

/-- **What is stored can be searched for.** In every state of a run of either kind of store that
migrates no types, a client that has loaded an item asks for the form of one of its fields. If the
field is called as a key of groups, every such request is refused. Otherwise the request is
answered, and all pages of the answer hold the item; only a store in memory lacks it if its value is
an instant that is finer than a microsecond. Left open are names and texts that tables do not see as
they are, and forms of instants that are not read back. -/
theorem searchable_reached (b : Backend) (config : ServiceConfig) {turns : List Turn}
    (hplain : ∀ t ∈ turns, ∀ a ∈ t.calls, a.request.IsPlain) {p : Service b.State}
    (hreached : p.store ∈ (onStore b.new config).reached turns) {id : ItemId} {i : WorkItem}
    (hload : (p.transactional .new (WorkItems.load id)).1 = .ok i) {field : String} {v : FieldValue}
    (hv : i.fields.get? field = some v) :
    (field = Filter.andKey ∨ field = Filter.orKey → ∀ offset limit,
      (p.transactional .new (WorkItems.list p.config.paging
        (Json.object [(field, v.toJson)]).write offset limit)).1 =
          .error (Filter.Fault.noArray field v.toJson.sort).toError) ∧
    (field ≠ Filter.andKey → field ≠ Filter.orKey → b.Spells field v →
      (DeclaresAs p.store i field .timestamp → ¬ v.HasSignedForm) →
        ∃ found, p.Offers (Json.object [(field, v.toJson)]).write found ∧
          (i ∈ found ↔ (b = .memory → v.truncated = v))) := by
  have hhistory := mem_reached_visits _ _ _ hreached
  obtain ⟨ts, hts⟩ := b.types_reached hhistory
  obtain ⟨_, hsteps⟩ := steps_of_transactional hload
  obtain ⟨row, -, hi⟩ := load_ok hsteps
  have htext : (Json.object [(field, v.toJson)]).write = (Filter.equals field v).text := by
    rw [Filter.text, Filter.toJson_equals]
  rw [htext]
  constructor
  · intro hkey offset limit
    exact list_refused hts (Filter.read_text_of_key hkey) offset limit
  · intro hand hor hspelled hsigned
    obtain ⟨hblank, kind, hdeclared, hfits⟩ := declared_reached hplain hreached hi hv
    have hkind : v.kind = kind := hfits.kind_eq fun e => hsigned (e ▸ hdeclared)
    subst hkind
    have hunsigned : ¬ v.IsSigned := fun h => hsigned (h.kind_eq ▸ hdeclared) h.hasSignedForm
    obtain ⟨w, hw, hform, hcut⟩ := Filter.exists_isLiteral_toJson (hdeclared.kind?_cases hts)
      (hfits.ofJson_toJson rfl hunsigned)
    have hname : field ≠ "" := by
      rintro rfl
      exact absurd hblank (by decide)
    have hread := Filter.read_text_of_isLiteral hand hor hname hw
    have htyped := isTyped_reached hplain hreached
    obtain ⟨found, hfinds, hmem⟩ := b.finds hhistory (Backend.takes_equals htyped hspelled w)
    refine ⟨found, offers_of_finds hts hread hfinds, ?_⟩
    rw [hmem]
    constructor
    · rintro ⟨_, hi', hpicks⟩
      exact (Backend.picks_equals_iff htyped hspelled hi' hv hform hcut).mp hpicks
    · intro hwhole
      exact ⟨row, hi, (Backend.picks_equals_iff htyped hspelled hi hv hform hcut).mpr hwhole⟩

/-- A type of notes with fields that are called as the key of a group and as a quotation mark, two
dates and a text. A note is created that is due at an instant in nanoseconds and counts since the
year before the year zero; its text holds the character zero. -/
def datedNotes : List Turn :=
  [⟨false, .new,
    [⟨.publish ⟨"note", [⟨"$and", .string, false⟩, ⟨"\"", .string, false⟩,
        ⟨"due", .timestamp, false⟩, ⟨"since", .timestamp, false⟩,
        ⟨"text", .string, false⟩]⟩, false⟩,
     ⟨.create "note" (.ofList [("$and", .string "x"), ("\"", .string "y"),
        ("due", .string "2024-02-29T12:00:00.123456789Z"),
        ("since", .string "0000-01-01T00:00:00.375+01:00"), ("text", .string "a\x00b")]) ⟨"ann"⟩,
        false⟩]⟩]

/-- The service that the note is created in. -/
def dated (b : Backend) : Service b.State := (onStore b.new .default).after datedNotes

/-- The instant that the note is due at. -/
def noteDue : Timestamp := ⟨1709208000, 123456789, by decide, by decide⟩

/-- The instant that the note counts since. -/
def noteSince : Timestamp := ⟨-62167222800, 375000000, by decide, by decide⟩

/-- The note, as it is loaded with its dates in some form. -/
def datedNote (due since : FieldValue) : WorkItem :=
  ⟨⟨"1"⟩, "note", 0, .ofList [("$and", .string "x"), ("\"", .string "y"), ("due", due),
    ("since", since), ("text", .string "a\x00b")]⟩

/-- The note as tables load it: one date is cut, the other one is the text that it is stored as. -/
def storedNote : WorkItem := datedNote (.timestamp noteDue.truncated) (.string noteSince.text)

/-- On tables the note is found by the date that it is due at, and the field that is called as the
key of a group cannot be asked for. -/
theorem searchable_reached_dated :
    (∀ t ∈ datedNotes, ∀ a ∈ t.calls, a.request.IsPlain) ∧
      ((dated .tables).transactional .new (WorkItems.load ⟨"1"⟩)).1 = .ok storedNote ∧
      (∃ found, (dated .tables).Offers "\x7b\"due\":\"2024-02-29T12:00:00.123456Z\"\x7d" found ∧
        storedNote ∈ found) ∧
      ∀ offset limit, ((dated .tables).transactional .new (WorkItems.list
        (dated .tables).config.paging "\x7b\"$and\":\"x\"\x7d" offset limit)).1 =
          .error (.malformedFilter "'$and' takes an array of filter objects, got string") := by
  have hplain : ∀ t ∈ datedNotes, ∀ a ∈ t.calls, a.request.IsPlain := by
    simp [datedNotes, Request.IsPlain]
  have hreached :
      (dated .tables).store ∈ (onStore Backend.tables.new .default).reached datedNotes :=
    store_after_mem_reached _ _
  have hload : ((dated .tables).transactional .new (WorkItems.load ⟨"1"⟩)).1 = .ok storedNote :=
    eq_ok_of_toOption (by decide +kernel)
  have hdue : storedNote.fields.get? "due" = some (.timestamp noteDue.truncated) := by
    decide +kernel
  have hand : storedNote.fields.get? "$and" = some (.string "x") := by decide +kernel
  have hspelled : Backend.tables.Spells "due" (.timestamp noteDue.truncated) :=
    ⟨by decide, fun s hs => Json.string.inj hs ▸ Text.isUnbroken_text _⟩
  have hunsigned : ¬ (FieldValue.timestamp noteDue.truncated).HasSignedForm := by
    rintro ⟨t, ht, hform⟩
    have hsigned := Timestamp.isSigned_text ht
    rw [← Json.string.inj hform] at hsigned
    exact absurd hsigned (by decide +kernel)
  obtain ⟨found, hoffers, hfound⟩ := (searchable_reached .tables .default hplain hreached hload
    hdue).2 (by decide) (by decide) hspelled fun _ => hunsigned
  have hrefused := (searchable_reached .tables .default hplain hreached hload hand).1 (.inl rfl)
  have htext : (Json.object [("due", FieldValue.toJson (.timestamp noteDue.truncated))]).write =
      "\x7b\"due\":\"2024-02-29T12:00:00.123456Z\"\x7d" := by decide +kernel
  have htext' : (Json.object [("$and", FieldValue.toJson (.string "x"))]).write =
      "\x7b\"$and\":\"x\"\x7d" := by decide +kernel
  rw [htext] at hoffers
  rw [htext'] at hrefused
  exact ⟨hplain, hload, ⟨found, hoffers, hfound.mpr (by simp)⟩, hrefused⟩

/-- What a service shows first of what it finds for the value of a field. -/
def firstFound {σ : Type} [Store σ] (p : Service σ) (field : String) (v : FieldValue) :
    Option (List WorkItem × UInt64) :=
  (p.transactional .new (WorkItems.list .default (Json.object [(field, v.toJson)]).write none
    none)).1.toOption.map fun page => (page.items, page.total)

/-- Nothing is found in either kind of store by a field that is called as the key of a group, and
nothing in memory by the form of an instant in nanoseconds. Nor do tables find the note by a name
with an escape or by a text with the character zero, and no store takes the form of an instant in a
year with a sign. -/
theorem not_searchable_dated :
    (∀ t ∈ datedNotes, ∀ a ∈ t.calls, a.request.IsPlain) ∧
      (((dated .memory).transactional .new (WorkItems.load ⟨"1"⟩)).1 =
          .ok (datedNote (.timestamp noteDue) (.timestamp noteSince)) ∧
        ((dated .tables).transactional .new (WorkItems.load ⟨"1"⟩)).1 = .ok storedNote) ∧
      (∀ b offset limit, ((dated b).transactional .new (WorkItems.list
        (dated b).config.paging (Json.object [("$and", .string "x")]).write offset limit)).1 =
          .error (.malformedFilter "'$and' takes an array of filter objects, got string")) ∧
      firstFound (dated .memory) "due" (.timestamp noteDue) = some ([], 0) ∧
      firstFound (dated .tables) "\"" (.string "y") = some ([], 0) ∧
      firstFound (dated .tables) "text" (.string "a\x00b") = some ([], 0) ∧
      firstFound (dated .memory) "since" (.timestamp noteSince) = none ∧
      firstFound (dated .tables) "since" (.string noteSince.text) = none := by
  refine ⟨by simp [datedNotes, Request.IsPlain], ⟨eq_ok_of_toOption (by decide +kernel),
    eq_ok_of_toOption (by decide +kernel)⟩, fun b offset limit => ?_, by decide +kernel⟩
  have hreached : (dated b).store ∈ (onStore b.new .default).reached datedNotes :=
    store_after_mem_reached _ _
  obtain ⟨ts, hts⟩ := b.types_reached (mem_reached_visits (onStore b.new .default) _ _ hreached)
  have htext : (Filter.equals "$and" (.string "x")).text =
      (Json.object [("$and", .string "x")]).write := by
    rw [Filter.text, Filter.toJson_equals]
    rfl
  rw [← htext]
  exact list_refused hts (Filter.read_text_of_key (.inl rfl)) offset limit

end Service

end Backlog
