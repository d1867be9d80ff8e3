import Backlog.Proofs.Settled
import Backlog.Proofs.WrittenFilters

/-!
# Filters without kinds of fields

A catalog makes values of literals when a filter is read. Without a catalog a literal is taken for
what it looks like, and becomes a value of the kind of a field only when an item is looked at. What
it is compared as is then made of the literal itself, since a value that a literal looks like is
written as that literal. Where the catalog is right about the kind of a field, both ways meet: the
value that was made at once is the value that is made in the end. So the two filters that a text is
read as hold for the same items.

Documents of filters do not tell the kinds of their values. That is no loss either: a value that is
read back from its stored literal is expressed in every kind as the literal is. So the document of
any filter is read without a catalog as a filter for the same items, if its values are read back,
its fields are no keys of groups and it offers something in each choice.

## Main results

* `Filter.ReadAlike.meets` — a document says the same under two catalogs whose literals are compared
  with an item alike;
* `Filter.untyped_agrees` — a filter that is read with a catalog holds for the items of the filter
  that is read without one;
* `Filter.rereads_untyped` — the document of a filter is read as a filter for the same items.
-/

namespace Backlog

-- ---------------------------------------------------------------------------
-- Literals without a kind
-- ---------------------------------------------------------------------------

namespace FieldValue

variable {literal : Json} {v : FieldValue}

/-- What a literal looks like is expressed in every kind as the literal is. -/
theorem coerceTo_of_infer (h : infer literal = some v) (kind : FieldKind) :
    v.coerceTo kind = ofJson? kind literal := by
  have hback : v.comesBack = true := by
    rcases v with _ | _ | _ | t | s
    case timestamp => simpa [FieldValue.kind] using infer_kind h
    case identifier => simpa [FieldValue.kind] using infer_kind h
    all_goals rfl
  rw [coerceTo_of_comesBack hback, toJson_of_infer h]

end FieldValue

namespace Filter

variable {catalog other : Catalog} {item : WorkItem}

/-- A literal for a field of no kind stands for what it looks like. -/
theorem isLiteral_iff_infer {field : String} (h : catalog.kind? field = none) {j : Json}
    {v : FieldValue} : IsLiteral catalog field j v ↔ FieldValue.infer j = some v := by
  have hliteral : literal catalog field j = .ok v ↔ FieldValue.infer j = some v := by
    unfold literal
    rw [h, ite_self]
    cases FieldValue.infer j <;> simp
  rw [← literal_eq_ok_iff, hliteral]

-- ---------------------------------------------------------------------------
-- Two catalogs
-- ---------------------------------------------------------------------------

/-- Catalogs read literals alike for an item if what both take for a literal is the same value in
the kind of what the item has in the field. -/
def ReadAlike (catalog other : Catalog) (item : WorkItem) : Prop :=
  ∀ ⦃field j v w stored⦄, IsLiteral catalog field j v →
    IsLiteral other field j w → item.field? field = some stored →
      v.coerceTo stored.kind = w.coerceTo stored.kind

theorem ReadAlike.symm (h : ReadAlike catalog other item) : ReadAlike other catalog item :=
  fun _ _ _ _ _ hv hw hstored => (h hw hv hstored).symm

/-- What a document says of an item under one catalog it says under another one that reads literals
alike, if it is a filter there; so does every member. -/
theorem ReadAlike.meets (h : ReadAlike catalog other item) (j : Json) :
    (Meets catalog item j → IsFilter other j → Meets other item j) ∧
      ∀ key, MeetsCondition catalog item key j → IsCondition other key j →
        MeetsCondition other item key j := by
  have hequality : ∀ {key j v stored}, key ≠ andKey → key ≠ orKey → IsLiteral catalog key j v →
      item.field? key = some stored → v.coerceTo stored.kind = some stored →
      IsCondition other key j → MeetsCondition other item key j := by
    intro key j v stored hand hor hv hstored heq hcondition
    obtain ⟨-, w, hw⟩ := (isCondition_iff_isLiteral hand hor).mp hcondition
    exact .equality hand hor hw hstored ((h hv hw hstored).symm.trans heq)
  have hmember : ∀ j, (∀ items, j ≠ .array items) → ∀ key, MeetsCondition catalog item key j →
      IsCondition other key j → MeetsCondition other item key j := by
    intro j hj key hmeets hcondition
    cases hmeets with
    | equality hand hor hv hstored heq => exact hequality hand hor hv hstored heq hcondition
    | _ => exact absurd rfl (hj _)
  induction j using Json.induction with
  | array items ih =>
    refine ⟨fun hmeets => (nomatch hmeets), fun key hmeets hcondition => ?_⟩
    cases hmeets with
    | every hkey hitems =>
      cases hcondition with
      | group _ _ hfilters =>
        exact .every hkey fun j hj => (ih j hj).1 (hitems j hj) (hfilters j hj)
      | equality hand => exact absurd hkey hand
    | some hkey hj hmeets =>
      cases hcondition with
      | group _ _ hfilters => exact .some hkey hj ((ih _ hj).1 hmeets (hfilters _ hj))
      | equality _ hor => exact absurd hkey hor
    | equality hand hor hv hstored heq => exact hequality hand hor hv hstored heq hcondition
  | object members ih =>
    refine ⟨?_, hmember _ (by simp)⟩
    rintro ⟨hmeets⟩ ⟨hconditions⟩
    exact .object fun e he => (ih e he).2 e.1 (hmeets e he) (hconditions e he)
  | _ => exact ⟨fun hmeets => (nomatch hmeets), hmember _ (by simp)⟩

/-- What a document is read as under both catalogs holds for the item, or does not. -/
theorem ReadAlike.holdsFor_eq (h : ReadAlike catalog other item) {j : Json} {f g : Filter}
    (hf : ofJson catalog j = .ok f) (hg : ofJson other j = .ok g) :
    f.holdsFor item = g.holdsFor item := by
  have hfaithful := (faithful_ofJson catalog j).1
  have hfaithful' := (faithful_ofJson other j).1
  rw [Bool.eq_iff_iff, hfaithful.means f hf item, hfaithful'.means g hg item]
  constructor
  · intro hmeets
    exact (h.meets j).1 hmeets (hfaithful'.reads.mp ⟨g, hg⟩)
  · intro hmeets
    exact (h.symm.meets j).1 hmeets (hfaithful.reads.mp ⟨f, hf⟩)

end Filter

/-- A catalog is right about an item: what the item has in a field of a known kind is of that
kind. -/
def Catalog.Types (catalog : Catalog) (item : WorkItem) : Prop :=
  ∀ field kind stored, catalog.kind? field = some kind → item.field? field = some stored →
    stored.kind = kind

/-- Only the fields that an item has are looked at. -/
theorem Catalog.types_iff {catalog : Catalog} {item : WorkItem} :
    catalog.Types item ↔ ∀ e ∈ item.fields.entries,
      catalog.kind? e.1 = none ∨ catalog.kind? e.1 = some e.2.kind := by
  constructor
  · intro h e he
    cases hkind : catalog.kind? e.1 with
    | none => exact .inl rfl
    | some kind => exact .inr (by rw [h e.1 kind e.2 hkind (SortedMap.mem_entries_iff.mp he)])
  · intro h field kind stored hkind hstored
    have hentry := h (field, stored) (SortedMap.mem_entries_iff.mpr hstored)
    simpa [hkind, eq_comm] using hentry

instance (catalog : Catalog) (item : WorkItem) : Decidable (catalog.Types item) :=
  decidable_of_iff _ Catalog.types_iff.symm

namespace Filter

variable {catalog : Catalog} {item : WorkItem}

/-- A catalog that is right about an item reads literals for it as no catalog does. -/
theorem readAlike_empty (hitem : catalog.Types item) : ReadAlike ∅ catalog item := by
  intro field j u v stored hu hv hstored
  have hinfer := (isLiteral_iff_infer (Catalog.kind?_empty field)).mp hu
  cases hkind : catalog.kind? field with
  | none =>
    have hsame := (isLiteral_iff_infer hkind).mp hv
    rw [Option.some.inj (hinfer.symm.trans hsame)]
  | some kind =>
    obtain rfl := hitem field kind stored hkind hstored
    cases hv with
    | converted hkind' _ hconvert =>
      obtain rfl := Option.some.inj (hkind.symm.trans hkind')
      -- the value is of the stored kind, and the literal converts to it
      rw [FieldValue.coerceTo_of_infer hinfer, FieldValue.ofJson?_eq_some_iff.mpr hconvert,
        ← FieldValue.ofJson_kind hconvert, FieldValue.coerceTo_self]
    | _ hnone => exact absurd hkind (by simp [hnone])

/-- **A text that is a filter with and without a catalog is so for the same items**, as far as the
catalog is right about them. -/
theorem untyped_agrees {text : String} {f g : Filter} (hf : read ∅ text = .ok f)
    (hg : read catalog text = .ok g) (hitem : catalog.Types item) :
    f.holdsFor item = g.holdsFor item := by
  rcases read_eq_ok_iff.mp hf with ⟨hblank, rfl⟩ | ⟨hthere, j, hj, hf⟩
  · rcases read_eq_ok_iff.mp hg with ⟨-, rfl⟩ | ⟨hthere, -⟩
    · rfl
    · exact absurd hblank hthere
  · rcases read_eq_ok_iff.mp hg with ⟨hblank, -⟩ | ⟨-, j', hj', hg⟩
    · exact absurd hblank hthere
    · obtain rfl := Option.some.inj (hj.symm.trans hj')
      exact (readAlike_empty hitem).holdsFor_eq hf hg

/-- The catalog of a type with a number, a truth value and an instant. -/
def sprintCatalog : Catalog :=
  .ofTypes [⟨"task", [⟨"points", .integer, false⟩, ⟨"done", .bool, false⟩,
    ⟨"due", .timestamp, false⟩]⟩]

def sprintDue : Timestamp := ⟨1709208000, 250000000, by decide, by decide⟩

def sprintTask : WorkItem :=
  ⟨⟨"1"⟩, "task", 0, .ofList [("points", .integer 7), ("done", .bool true),
    ("due", .timestamp sprintDue), ("sort", .integer 2)]⟩

/-- A number with a zero in front, a truth value as text and an instant of another zone are found
with the catalog and without it. -/
theorem untyped_agrees_sprint :
    let text := "\x7b\"$or\":[\x7b\"points\":\" 07\",\"done\":\"true\"\x7d,\x7b\"sort\":3\x7d]," ++
      "\"due\":\"2024-02-29T13:00:00.25+01:00\"\x7d"
    ∃ f g, read ∅ text = .ok f ∧ read sprintCatalog text = .ok g ∧ f ≠ g ∧
      sprintCatalog.Types sprintTask ∧ g.holdsFor sprintTask = true ∧
        f.holdsFor sprintTask = g.holdsFor sprintTask := by
  intro text
  have hf : read ∅ text = .ok (.and [
      .or [.and [.equals "done" (.string "true"), .equals "points" (.string " 07")],
        .equals "sort" (.integer 3)],
      .equals "due" (.string "2024-02-29T13:00:00.25+01:00")]) :=
    eq_ok_of_toOption (by decide +kernel)
  have hg : read sprintCatalog text = .ok (.and [
      .or [.and [.equals "done" (.bool true), .equals "points" (.integer 7)],
        .equals "sort" (.integer 3)],
      .equals "due" (.timestamp sprintDue)]) := eq_ok_of_toOption (by decide +kernel)
  have htypes : sprintCatalog.Types sprintTask := by decide +kernel
  exact ⟨_, _, hf, hg, by decide +kernel, htypes, by decide +kernel, untyped_agrees hf hg htypes⟩

-- ---------------------------------------------------------------------------
-- Documents that are read without a catalog
-- ---------------------------------------------------------------------------

/-- A filter that can be written down: its fields have names and are no keys of groups, its values
are read back from their literals, and each choice offers something. -/
inductive IsWritable : Filter → Prop
  | all : IsWritable .all
  | equals {field : String} {value : FieldValue} (hname : field ≠ "") (hand : field ≠ andKey)
      (hor : field ≠ orKey) (hvalue : value.comesBack = true) : IsWritable (.equals field value)
  | and {fs : List Filter} (h : ∀ f ∈ fs, IsWritable f) : IsWritable (.and fs)
  | or {fs : List Filter} (hne : fs ≠ []) (h : ∀ f ∈ fs, IsWritable f) : IsWritable (.or fs)

theorem IsWritable.equals_andKey_notMem {fs : List Filter} (h : ∀ f ∈ fs, f.IsWritable)
    (value : FieldValue) : .equals andKey value ∉ fs := by
  intro hm
  cases h _ hm with
  | equals _ hand => exact hand rfl

/-- An equality asks for what its value is expressed as. -/
theorem holdsFor_equals_congr {v w : FieldValue} (h : ∀ kind, v.coerceTo kind = w.coerceTo kind)
    (field : String) :
    (Filter.equals field v).holdsFor item = (Filter.equals field w).holdsFor item := by
  simp only [holdsFor_equals, holdsField, equalsStored, h]

theorem IsWritable.isFilter_toJson {f : Filter} (h : f.IsWritable) : IsFilter ∅ f.toJson := by
  induction h with
  | all => exact .object nofun
  | @equals field value hname hand hor _ =>
    obtain ⟨u, hu⟩ := value.infer_toJson
    rw [toJson_equals, (memberwise_isFilter ∅).single, isCondition_iff_isLiteral hand hor]
    exact ⟨hname, u, (isLiteral_iff_infer (Catalog.kind?_empty field)).mpr hu⟩
  | and h ih => exact ((memberwise_isFilter ∅).and (equals_andKey_notMem h)).mpr ih
  | or hne _ ih => exact (isFilter_toJson_or_iff hne).mpr ih

/-- The document of a filter says without a catalog what the filter says. -/
theorem IsWritable.meets_toJson_iff {f : Filter} (h : f.IsWritable) :
    Meets ∅ item f.toJson ↔ f.holdsFor item = true := by
  induction h with
  | all => exact ⟨fun _ => holdsFor_all_iff item, fun _ => .object nofun⟩
  | @equals field value hname hand hor hvalue =>
    -- the literal looks like another value, which is compared as the literal is
    obtain ⟨u, hu⟩ := value.infer_toJson
    have hread : ofMember ∅ field value.toJson = .ok (.equals field u) :=
      ofMember_of_isLiteral hand hor hname
        ((isLiteral_iff_infer (Catalog.kind?_empty field)).mpr hu)
    have hsame : ∀ kind, u.coerceTo kind = value.coerceTo kind := fun kind => by
      rw [FieldValue.coerceTo_of_infer hu, FieldValue.coerceTo_of_comesBack hvalue]
    rw [toJson_equals, (memberwise_meets ∅ item).single, ← holdsFor_equals_congr hsame]
    exact ((faithful_equality hand hor value.toJson).means _ hread item).symm
  | and h ih =>
    rw [(memberwise_meets ∅ item).and (equals_andKey_notMem h), holdsFor_and_iff, forall₂_congr ih]
  | or _ _ ih =>
    rw [meets_toJson_or_iff, holdsFor_or_iff]
    exact exists_congr fun f => and_congr_right (ih f)

/-- **The document of a filter is read without a catalog as a filter for the same items**, whatever
the items have in the fields. -/
theorem rereads_untyped {f : Filter} (h : f.IsWritable) :
    ∃ members g, f.toJson = .object members ∧ ofObject ∅ members = .ok g ∧
      ∀ item, g.holdsFor item = f.holdsFor item := by
  have hfaithful := (faithful_ofJson ∅ f.toJson).1
  obtain ⟨members, hmembers⟩ := exists_toJson_eq f
  obtain ⟨g, hg⟩ := hfaithful.reads.mpr h.isFilter_toJson
  refine ⟨members, g, hmembers, ?_, fun item => ?_⟩
  · rw [hmembers] at hg
    exact hg
  · rw [Bool.eq_iff_iff, hfaithful.means g hg item, h.meets_toJson_iff]

/-- A filter with a field that is asked for twice, a member that asks for nothing, and a choice
between an owner and an instant. -/
def sprintFilter : Filter :=
  .and [.equals "points" (.integer 7), .equals "points" (.string "07"), .all,
    .or [.equals "owner" (.identifier "ann"), .and [.equals "due" (.timestamp sprintDue)]]]

/-- The document of the filter has texts in the place of the owner and of the instant. -/
theorem rereads_untyped_sprint :
    sprintFilter.toJson = .object [("$and", .array [.object [("points", .string "07")], .object [],
        .object [("$or", .array [.object [("owner", .string "ann")],
          .object [("due", .string "2024-02-29T12:00:00.250000Z")]])]]),
      ("points", .int 7)] ∧
      sprintFilter.IsWritable ∧ ∃ members g, sprintFilter.toJson = .object members ∧
        ofObject ∅ members = .ok g ∧ ∀ item, g.holdsFor item = sprintFilter.holdsFor item := by
  have hinstant : (Filter.and [.equals "due" (.timestamp sprintDue)]).IsWritable :=
    .and (List.forall_mem_singleton.mpr (.equals (by decide) (by decide) (by decide) (by decide)))
  have hchoice : (Filter.or [.equals "owner" (.identifier "ann"),
      .and [.equals "due" (.timestamp sprintDue)]]).IsWritable := by
    refine .or (by simp) (List.forall_mem_cons.mpr ⟨?_, List.forall_mem_singleton.mpr hinstant⟩)
    exact .equals (by decide) (by decide) (by decide) (by decide)
  have hpoints : ∀ {value : FieldValue}, value.comesBack = true →
      (Filter.equals "points" value).IsWritable :=
    .equals (by decide) (by decide) (by decide)
  have hwritable : sprintFilter.IsWritable :=
    .and (List.forall_mem_cons.mpr ⟨hpoints rfl, List.forall_mem_cons.mpr ⟨hpoints rfl,
      List.forall_mem_cons.mpr ⟨.all, List.forall_mem_singleton.mpr hchoice⟩⟩⟩)
  exact ⟨by decide +kernel, hwritable, rereads_untyped hwritable⟩

end Filter

end Backlog
