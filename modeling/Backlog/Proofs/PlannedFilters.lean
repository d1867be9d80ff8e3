import Backlog.Proofs.CatalogKinds
import Backlog.Proofs.Paging
import Backlog.Proofs.WrittenFilters
import Backlog.View

/-!
# The filters of an iteration

Two filters belong to an iteration: one finds what is planned into it, the other one what of that is
closed. A view of the iteration links to the first one by its text, and a text means what the
catalog of the day makes of it. The system types are in every store from the start, and only a
migration can put another type in their place. So the catalog of a store that nobody migrated knows
the fields of the system types by their own kinds, or knows no kind for them, when other types
disagree; it never knows them by another kind. Both texts are filters then, and the number of the
iteration is a string or an identifier in both.

## Main results

* `Catalog.kind?_of_mem` — a declared field has the declared kind in the catalog, or none;
* `Backend.kinds_reached` — the kinds of the fields of the system types in a store nobody migrated;
* `Filter.read_ofIteration` — what the two texts are read as.
-/

namespace Backlog

-- ---------------------------------------------------------------------------
-- Kinds in the catalog
-- ---------------------------------------------------------------------------

namespace Catalog

/-- **A field that a type declares has the kind that is declared for it, or none.** -/
theorem kind?_of_mem {ts : List ItemType} {t : ItemType} {d : FieldDefinition} (ht : t ∈ ts)
    (hd : d ∈ t.fields) :
    (ofTypes ts).kind? d.name = none ∨ (ofTypes ts).kind? d.name = some d.kind := by
  cases hkind? : (ofTypes ts).kind? d.name with
  | none => exact .inl rfl
  | some kind =>
    obtain ⟨-, hall⟩ := kind?_ofTypes_eq_some_iff.mp hkind?
    exact .inr (congrArg some (hall d ⟨t, ht, hd⟩ rfl).symm)

end Catalog

-- ---------------------------------------------------------------------------
-- Stores that keep their types
-- ---------------------------------------------------------------------------

/-- A type whose row is decoded is among the types. -/
theorem Tables.mem_decodeTypes {rows : List (String × StoredDocument)} {ts : List ItemType}
    (h : decodeTypes rows = .ok ts) {e : String × StoredDocument} (he : e ∈ rows) {type : ItemType}
    (htype : decodeType e.1 e.2 = .ok type) : type ∈ ts := by
  induction rows generalizing ts with
  | nil => simp at he
  | cons e' rest ih =>
    obtain ⟨name, doc⟩ := e'
    rw [decodeTypes] at h
    split at h
    · simp at h
    · next type' htype' =>
      cases hrest : decodeTypes rest with
      | error fault => simp [hrest, Except.map] at h
      | ok ts' =>
        rw [hrest] at h
        obtain rfl := Except.ok.inj h
        rcases List.mem_cons.mp he with rfl | he
        · exact List.mem_cons.mpr (.inl (Except.ok.inj (htype.symm.trans htype')))
        · exact List.mem_cons_of_mem _ (ih hrest he)

namespace Backend

/-- A type that a store holds is among its types. -/
theorem mem_types {b : Backend} {s : b.State} {ts : List ItemType} {name : String} {t : ItemType}
    (hts : Store.types s = .ok ts) (ht : Store.type? s name = .ok (some t)) : t ∈ ts := by
  cases b with
  | memory =>
    have hheld : SortedMap.get? (Memory.types s) name = some t := Except.ok.inj ht
    rw [← (Except.ok.inj hts : (Memory.types s).values = ts)]
    exact List.mem_map.mpr ⟨(name, t), SortedMap.mem_entries_iff.mpr hheld, rfl⟩
  | tables =>
    change Tables.type? s name = _ at ht
    unfold Tables.type? at ht
    split at ht
    · simp at ht
    · next doc hdoc =>
      have hdecode : Tables.decodeType name doc = .ok t := by
        cases h : Tables.decodeType name doc with
        | error fault => simp [h, Except.map] at ht
        | ok type =>
          rw [h] at ht
          rw [Option.some.inj (Except.ok.inj ht)]
      exact Tables.mem_decodeTypes hts (SortedMap.mem_entries_iff.mpr hdoc) hdecode

/-- The type of bugs is in a new store. -/
theorem type?_bug (b : Backend) :
    Store.type? b.new SystemType.bug = .ok (some ⟨SystemType.bug, ItemType.systemFields⟩) := by
  cases b with
  | memory => rfl
  | tables => rfl

/-- **A store that was reached without migrations knows the fields of the system types by their own
kinds, or by none.** -/
theorem kinds_reached (b : Backend) {vs : List Visit} (hplain : ∀ v ∈ vs, v.IsPlain) {s : b.State}
    (hreached : s ∈ History.reached b.new vs) :
    ∃ ts, Store.types s = .ok ts ∧ ∀ d ∈ ItemType.systemFields,
      (Catalog.ofTypes ts).kind? d.name = none ∨
        (Catalog.ofTypes ts).kind? d.name = some d.kind := by
  obtain ⟨ts, hts⟩ := b.types_reached hreached
  have hgrows : Grows b.new s := History.kept_reached (P := Grows b.new)
    (fun hw hq h => h.trans (hw.grows hq)) hplain (.refl b.new) s hreached
  have hbug := mem_types hts (hgrows _ _ b.type?_bug)
  exact ⟨ts, hts, fun d hd => Catalog.kind?_of_mem hbug hd⟩

end Backend

-- ---------------------------------------------------------------------------
-- The two texts
-- ---------------------------------------------------------------------------

/-- A literal that is a name, as a string or as an identifier. -/
inductive FieldValue.IsName (s : String) : FieldValue → Prop
  | string : IsName s (.string s)
  | identifier : IsName s (.identifier s)

/-- The filter that finds what another one finds, as far as it is closed. -/
def Filter.andClosed (f : Filter) : Filter :=
  .and [f, .equals SystemField.state (.string StateName.closed)]

/-- The filter that finds what is planned into an iteration and closed. -/
def ResourceView.closedFilter (id : IterationId) : Filter := (plannedFilter id).andClosed

namespace Filter

open ResourceView (plannedFilter closedFilter)

theorem toJson_closedFilter (id : IterationId) :
    (closedFilter id).toJson = .object [(SystemField.iteration, .string id.text),
      (SystemField.state, .string StateName.closed)] := by
  have hparts : flatten ∅ [plannedFilter id, .equals SystemField.state (.string StateName.closed)] =
      ((SortedMap.insert ∅ SystemField.iteration (.string id.text)).insert SystemField.state
        (.string StateName.closed), []) := by
    have hfresh : ¬ (SortedMap.insert ∅ SystemField.iteration (Json.string id.text)).contains
        SystemField.state = true := by
      rw [SortedMap.contains, SortedMap.get?_insert, if_neg (by decide)]
      exact Bool.false_ne_true
    rw [plannedFilter, flatten, if_neg (by decide), flatten]
    exact if_neg hfresh
  rw [closedFilter, andClosed, toJson, hparts]
  rfl

theorem isExact_closedFilter (id : IterationId) : (closedFilter id).toJson.IsExact := by
  have hno : ∀ value, .equals andKey value ∉
      [plannedFilter id, .equals SystemField.state (.string StateName.closed)] := by
    simp [plannedFilter, andKey, SystemField.iteration, SystemField.state]
  refine (memberwise_isExact.and hno).mpr ?_
  rw [List.forall_mem_cons, List.forall_mem_singleton, plannedFilter, toJson_equals, toJson_equals,
    memberwise_isExact.single, memberwise_isExact.single]
  exact ⟨.string id.text, .string StateName.closed⟩

variable {catalog : Catalog}

/-- A text for a field of no kind is a string. -/
theorem isLiteral_string {field s : String}
    (h : catalog.kind? field = none ∨ catalog.kind? field = some .string) :
    IsLiteral catalog field (.string s) (.string s) := by
  rcases h with h | h
  · exact .string h s
  · exact .converted h rfl rfl

/-- A text without blanks for a field of no kind, or for identifiers, is a name. -/
theorem exists_isLiteral_isName {field s : String} (hs : FieldValue.isIdentifier s = true)
    (h : catalog.kind? field = none ∨ catalog.kind? field = some .identifier) :
    ∃ v, FieldValue.IsName s v ∧ IsLiteral catalog field (.string s) v := by
  rcases h with h | h
  · exact ⟨_, .string, .string h s⟩
  · exact ⟨_, .identifier, .converted h rfl (FieldValue.ofJson_identifier_iff.mpr ⟨hs, rfl⟩)⟩

/-- The text of one member is read as that member is. -/
theorem read_text_equals (field : String) (value : FieldValue) :
    read catalog (Filter.equals field value).text =
      (ofMember catalog field value.toJson).map fun f => joinAll [f] := by
  have hexact : (Json.object [(field, value.toJson)]).IsExact :=
    (memberwise_isExact.single _ _).mpr (isExact_toJson_value value)
  have hdepth : (Json.object [(field, value.toJson)]).depth ≤ Json.greatestDepth := by
    simp [Json.depth, Json.depthMembers, depth_toJson_value, Json.greatestDepth]
  rw [text, toJson_equals]
  refine (read_write hexact).trans ?_
  rw [if_pos hdepth, ofJson, ofObject, ofMembers]
  cases ofMember catalog field value.toJson <;> rfl

/-- The text of an equality is read as an equality of what its literal stands for. -/
theorem read_text_of_isLiteral {field : String} {value w : FieldValue} (hand : field ≠ andKey)
    (hor : field ≠ orKey) (hfield : field ≠ "") (hw : IsLiteral catalog field value.toJson w) :
    read catalog (Filter.equals field value).text = .ok (.equals field w) := by
  rw [read_text_equals, ofMember_of_isLiteral hand hor hfield hw]
  rfl

/-- The first text is read as the one condition that it is, on what its literal stands for. -/
theorem read_plannedFilter {id : IterationId} {v : FieldValue}
    (hv : IsLiteral catalog SystemField.iteration (.string id.text) v) :
    read catalog (plannedFilter id).text = .ok (.equals SystemField.iteration v) :=
  read_text_of_isLiteral (by decide) (by decide) (by decide) hv

/-- **The two texts of an iteration are read**, and its number is the same name in both. -/
theorem read_ofIteration {id : IterationId} (hid : FieldValue.isIdentifier id.text = true)
    (hkinds : ∀ d ∈ ItemType.systemFields,
      catalog.kind? d.name = none ∨ catalog.kind? d.name = some d.kind) :
    ∃ v, FieldValue.IsName id.text v ∧
      read catalog (plannedFilter id).text = .ok (.equals SystemField.iteration v) ∧
      read catalog (closedFilter id).text =
        .ok (Filter.equals SystemField.iteration v).andClosed := by
  obtain ⟨v, hname, hv⟩ := exists_isLiteral_isName hid
    (hkinds ⟨SystemField.iteration, .identifier, false⟩ (by decide))
  have hclosed := isLiteral_string (s := StateName.closed)
    (hkinds ⟨SystemField.state, .string, true⟩ (by decide))
  have hmember : ofMember catalog SystemField.iteration (.string id.text) =
      .ok (.equals SystemField.iteration v) :=
    ofMember_of_isLiteral (by decide) (by decide) (by decide) hv
  have hmember' : ofMember catalog SystemField.state (.string StateName.closed) =
      .ok (.equals SystemField.state (.string StateName.closed)) :=
    ofMember_of_isLiteral (by decide) (by decide) (by decide) hclosed
  refine ⟨v, hname, read_plannedFilter hv, ?_⟩
  have hexact := isExact_closedFilter id
  have hdepth : (Json.object [(SystemField.iteration, .string id.text),
      (SystemField.state, .string StateName.closed)]).depth ≤ Json.greatestDepth := by
    simp [Json.depth, Json.depthMembers, Json.greatestDepth]
  rw [toJson_closedFilter] at hexact
  rw [text, toJson_closedFilter, read_write hexact, if_pos hdepth, ofJson, ofObject, ofMembers,
    hmember, ofMembers, hmember']
  rfl

end Filter

end Backlog
