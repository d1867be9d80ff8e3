import Backlog.Proofs.CompactForm
import Backlog.Proofs.ReadBack

/-!
# Filters that are written and read again

The text of a filter is not the text it was read from. Equalities of different fields stand in the
open, all the rest of a group stands in a list under the key of groups, and an instant is written
with microseconds. So the text says of every item what the filter says, of instants up to
microseconds. It is read again as long as readers take it in: an instant of a year that is written
with a sign is no literal for its field any more, and a choice that stands beside an equality is
written two levels deeper than it was read from, so that a text which was not too deep may become
so.

Whether a document is a filter, what it says and whether it is exact are properties that pass from
the members of an object to the object and from the entries of a group to the group. For such a
property it makes no difference which members of a group are put in the open, and that is shown
once.

## Main results

* `Filter.Memberwise.and` — the document of a group has a property if those of its members have it;
* `Filter.isOf_of_read` — what was read asks for fields by literals of the catalog;
* `Filter.rereads` — when the text of a filter is read again, and what it is read as;
* `Filter.layered_unread` — a text that is read as a filter whose own text is refused.
-/

namespace Backlog

namespace SortedMap

variable {κ α : Type} [Ord κ] [Std.TransOrd κ] [Std.LawfulEqOrd κ] [DecidableEq κ]

/-- An entry under a new key is one more entry. -/
theorem forall_entries_insert_iff {m : SortedMap κ α} {k : κ} {a : α} {Q : κ → α → Prop}
    (h : m.get? k = none) :
    (∀ e ∈ (m.insert k a).entries, Q e.1 e.2) ↔ Q k a ∧ ∀ e ∈ m.entries, Q e.1 e.2 := by
  simp only [Prod.forall, mem_entries_iff, get?_insert]
  constructor
  · intro hall
    refine ⟨hall k a (if_pos rfl), fun k' a' hk' => hall k' a' ?_⟩
    have hne : k' ≠ k := fun e => absurd (e ▸ hk') (by simp [h])
    rw [if_neg hne, hk']
  · rintro ⟨hnew, hold⟩ k' a' hk'
    split at hk'
    · next e => exact e ▸ Option.some.inj hk' ▸ hnew
    · exact hold k' a' hk'

end SortedMap

namespace Filter

variable {catalog : Catalog} {item : WorkItem}

-- ---------------------------------------------------------------------------
-- Documents of groups
-- ---------------------------------------------------------------------------

/-- A property of documents that an object has if its members have one of theirs, and that the
group of some documents has if all of them have it. -/
structure Memberwise (P : Json → Prop) (Q : String → Json → Prop) : Prop where
  object : ∀ m : SortedMap String Json, P (.object m.entries) ↔ ∀ e ∈ m.entries, Q e.1 e.2
  group : ∀ items, items ≠ [] → (Q andKey (.array items) ↔ ∀ j ∈ items, P j)

theorem listToJson_eq_map (fs : List Filter) : listToJson fs = fs.map toJson := by
  induction fs with
  | nil => rfl
  | cons f rest ih => rw [listToJson, ih, List.map_cons]

/-- What is no equality is put in the list. -/
theorem flatten_cons_of_ne {f : Filter} (h : ∀ field value, f ≠ .equals field value)
    (flat : SortedMap String Json) (rest : List Filter) :
    flatten flat (f :: rest) =
      ((flatten flat rest).1, toJson f :: (flatten flat rest).2) := by
  cases f with
  | equals field value => exact absurd rfl (h field value)
  | _ => simp only [flatten]

/-- An equality is put in the open unless its field is there already. -/
theorem flatten_cons_equals (flat : SortedMap String Json) (field : String) (value : FieldValue)
    (rest : List Filter) :
    flatten flat (.equals field value :: rest) =
      if flat.contains field then
        ((flatten flat rest).1, (Filter.equals field value).toJson :: (flatten flat rest).2)
      else flatten (flat.insert field value.toJson) rest := by
  rw [flatten, toJson_equals]

section

variable {P : Json → Prop} {Q : String → Json → Prop}

/-- A document of one member. -/
theorem Memberwise.single (h : Memberwise P Q) (key : String) (j : Json) :
    P (.object [(key, j)]) ↔ Q key j := by
  have hentries : (SortedMap.ofList [(key, j)]).entries = [(key, j)] := rfl
  rw [← hentries, h.object, hentries, List.forall_mem_singleton]

/-- A group is split into parts that have a property together if all its members have it. -/
theorem flatten_iff (hsingle : ∀ key j, P (.object [(key, j)]) ↔ Q key j) (fs : List Filter)
    (flat : SortedMap String Json) :
    ((∀ e ∈ (flatten flat fs).1.entries, Q e.1 e.2) ∧ ∀ j ∈ (flatten flat fs).2, P j) ↔
      (∀ e ∈ flat.entries, Q e.1 e.2) ∧ ∀ f ∈ fs, P f.toJson := by
  induction fs generalizing flat with
  | nil => simp [flatten]
  | cons f rest ih =>
    have hnested : ((∀ e ∈ (flatten flat rest).1.entries, Q e.1 e.2) ∧
        ∀ j ∈ f.toJson :: (flatten flat rest).2, P j) ↔
        (∀ e ∈ flat.entries, Q e.1 e.2) ∧ ∀ g ∈ f :: rest, P g.toJson := by
      rw [List.forall_mem_cons, List.forall_mem_cons, and_left_comm, ih flat, and_left_comm]
    by_cases hf : ∀ field value, f ≠ .equals field value
    · rw [flatten_cons_of_ne hf]
      exact hnested
    · obtain ⟨field, value, rfl⟩ : ∃ field value, f = .equals field value := by
        simpa using hf
      rw [flatten_cons_equals]
      cases hget : flat.get? field with
      | some j =>
        rw [if_pos (by simp [SortedMap.contains, hget])]
        exact hnested
      | none =>
        rw [if_neg (by simp [SortedMap.contains, hget]), ih, List.forall_mem_cons, toJson_equals,
          hsingle, SortedMap.forall_entries_insert_iff hget, and_assoc, and_left_comm]

/-- What is put in the open are fields of the group. -/
theorem get?_flatten_eq_none {key : String} {fs : List Filter} {flat : SortedMap String Json}
    (hflat : flat.get? key = none) (hfs : ∀ value, .equals key value ∉ fs) :
    (flatten flat fs).1.get? key = none := by
  induction fs generalizing flat with
  | nil => simpa only [flatten] using hflat
  | cons f rest ih =>
    have hrest : ∀ value, .equals key value ∉ rest := fun value hm =>
      hfs value (List.mem_cons_of_mem f hm)
    by_cases hf : ∀ field value, f ≠ .equals field value
    · rw [flatten_cons_of_ne hf]
      exact ih hflat hrest
    · obtain ⟨field, value, rfl⟩ : ∃ field value, f = .equals field value := by
        simpa using hf
      have hne : key ≠ field := fun e => hfs value (e ▸ List.mem_cons_self)
      rw [flatten_cons_equals]
      split
      · exact ih hflat hrest
      · exact ih (by rw [SortedMap.get?_insert, if_neg hne, hflat]) hrest

/-- **The document of a group has a property if those of its members have it**, if no field has the
name of the key of groups. -/
theorem Memberwise.and (h : Memberwise P Q) {fs : List Filter}
    (hfs : ∀ value, .equals andKey value ∉ fs) :
    P (Filter.and fs).toJson ↔ ∀ f ∈ fs, P f.toJson := by
  have hflatten := flatten_iff h.single fs ∅
  have hempty : ∀ e ∈ (∅ : SortedMap String Json).entries, Q e.1 e.2 := fun e he => nomatch he
  rw [and_iff_right hempty] at hflatten
  rw [← hflatten, toJson, Json.ofMap, h.object]
  by_cases hnested : (flatten ∅ fs).2 = []
  · simp [hnested]
  · rw [if_neg hnested, SortedMap.forall_entries_insert_iff (get?_flatten_eq_none rfl hfs),
      h.group _ hnested, And.comm]

end

-- ---------------------------------------------------------------------------
-- Filters of a catalog
-- ---------------------------------------------------------------------------

/-- A filter that asks for fields by literals of a catalog, and that offers a choice only among some
members. -/
inductive IsOf (catalog : Catalog) : Filter → Prop
  | all : IsOf catalog .all
  | equals {field : String} {j : Json} {value : FieldValue} (hand : field ≠ andKey)
      (hor : field ≠ orKey) (hname : field ≠ "") (h : IsLiteral catalog field j value) :
      IsOf catalog (.equals field value)
  | and {fs : List Filter} (h : ∀ f ∈ fs, IsOf catalog f) : IsOf catalog (.and fs)
  | or {fs : List Filter} (hne : fs ≠ []) (h : ∀ f ∈ fs, IsOf catalog f) : IsOf catalog (.or fs)

theorem isOf_joinAll {fs : List Filter} (h : ∀ f ∈ fs, f.IsOf catalog) :
    (joinAll fs).IsOf catalog := by
  have hkept : ∀ f ∈ fs.filter fun f => !f.isAll, f.IsOf catalog := fun f hf =>
    h f (List.mem_filter.mp hf).1
  unfold joinAll
  split
  · exact .all
  · next f hf => exact hkept f (by simp [hf])
  · exact .and hkept

theorem isOf_joinAny {fs : List Filter} (hne : fs ≠ []) (h : ∀ f ∈ fs, f.IsOf catalog) :
    (joinAny fs).IsOf catalog := by
  unfold joinAny
  split
  · exact h _ List.mem_cons_self
  · exact .or hne h

/-- What holds of equalities and passes from the parts of a document to what they are joined to
holds of everything that is read. -/
theorem ofJson_induction {P : Json → Filter → Prop}
    (equality : ∀ {key j v}, key ≠ andKey → key ≠ orKey → key ≠ "" → IsLiteral catalog key j v →
      P j (.equals key v))
    (object : ∀ {members fs}, (∀ f ∈ fs, ∃ e ∈ members, P e.2 f) →
      P (.object members) (joinAll fs))
    (every : ∀ {items fs}, (∀ f ∈ fs, ∃ j ∈ items, P j f) → P (.array items) (joinAll fs))
    (some : ∀ {items fs}, fs ≠ [] → (∀ f ∈ fs, ∃ j ∈ items, P j f) →
      P (.array items) (joinAny fs)) (j : Json) :
    (∀ f, ofJson catalog j = .ok f → P j f) ∧ ∀ key f, ofMember catalog key j = .ok f → P j f := by
  have hequality : ∀ j key f, joinOf? key = none → ofMember catalog key j = .ok f → P j f := by
    intro j key f hkey hf
    obtain ⟨hand, hor⟩ := joinOf?_eq_none_iff.mp hkey
    rw [ofMember_of_joinOf?_none hkey] at hf
    obtain ⟨hname, v, hv, rfl⟩ := equality_eq_ok_iff.mp hf
    exact equality hand hor hname hv
  have hmember : ∀ j, (∀ items, j ≠ .array items) → ∀ key f, ofMember catalog key j = .ok f →
      P j f := by
    intro j hj key f hf
    cases hkey : joinOf? key with
    | none => exact hequality j key f hkey hf
    | some join =>
      obtain ⟨items, _, hitems, -⟩ := (ofMember_eq_ok_iff hkey).mp hf
      exact absurd hitems (hj items)
  induction j using Json.induction with
  | array items ih =>
    refine ⟨fun f hf => (nomatch hf), fun key f hf => ?_⟩
    cases hkey : joinOf? key with
    | none => exact hequality _ key f hkey hf
    | some join =>
      obtain ⟨fs, hne, hlist, rfl⟩ := (ofMember_array_eq_ok_iff hkey).mp hf
      have hfs : ∀ f ∈ fs, ∃ j ∈ items, P j f := by
        intro f hf
        obtain ⟨j, hj, hread⟩ := exists_of_map_eq hlist hf
        exact ⟨j, hj, (ih j hj).1 f hread⟩
      unfold joinOf? at hkey
      split at hkey
      · exact Option.some.inj hkey ▸ every hfs
      · split at hkey
        · exact Option.some.inj hkey ▸ some hne hfs
        · exact nomatch hkey
  | object members ih =>
    refine ⟨fun f hf => ?_, hmember _ (by simp)⟩
    obtain ⟨fs, hlist, rfl⟩ := ofJson_object_eq_ok_iff.mp hf
    refine object fun f hf => ?_
    obtain ⟨e, he, hread⟩ := exists_of_map_eq hlist hf
    exact ⟨e, he, (ih e he).2 e.1 f hread⟩
  | _ => exact ⟨fun f hf => (nomatch hf), hmember _ (by simp)⟩

/-- A document is read as a filter of the catalog. -/
theorem isOf_of_ofJson {j : Json} {f : Filter} (h : ofJson catalog j = .ok f) : f.IsOf catalog := by
  refine (ofJson_induction (P := fun _ f => f.IsOf catalog) .equals (fun hfs => isOf_joinAll ?_)
    (fun hfs => isOf_joinAll ?_) (fun hne hfs => isOf_joinAny hne ?_) j).1 f h
  all_goals
    intro f hf
    obtain ⟨_, _, hof⟩ := hfs f hf
    exact hof

/-- What is read asks for fields by literals of the catalog. -/
theorem isOf_of_read {text : String} {f : Filter} (h : read catalog text = .ok f) :
    f.IsOf catalog := by
  rcases read_eq_ok_iff.mp h with ⟨-, rfl⟩ | ⟨-, j, -, hj⟩
  · exact .all
  · exact isOf_of_ofJson hj

/-- No field of a filter has the name of the key of groups. -/
theorem IsOf.equals_andKey_notMem {fs : List Filter} (h : ∀ f ∈ fs, f.IsOf catalog)
    (value : FieldValue) : .equals andKey value ∉ fs := by
  intro hm
  cases h _ hm with
  | equals hand => exact hand rfl

-- ---------------------------------------------------------------------------
-- Literals that are written
-- ---------------------------------------------------------------------------

theorem isScalar_toJson (v : FieldValue) : v.toJson.isScalar = true := by
  cases v <;> rfl

/-- What a literal stands for is written as a literal again, cut to microseconds. -/
theorem IsLiteral.written {field : String} {j : Json} {v : FieldValue}
    (h : IsLiteral catalog field j v) (hsigned : ¬ v.IsSigned) :
    IsLiteral catalog field v.toJson v.truncated := by
  cases h with
  | converted hkind _ hv =>
    exact .converted hkind (isScalar_toJson v) (FieldValue.ofJson_toJson hv hsigned)
  | string hkind s => exact .string hkind s
  | integer hkind n => exact .integer hkind n
  | bool hkind b => exact .bool hkind b

/-- An instant that is written with a sign is no literal any more. -/
theorem IsLiteral.not_written {field : String} {j : Json} {v : FieldValue}
    (h : IsLiteral catalog field j v) (hsigned : v.IsSigned) (w : FieldValue) :
    ¬ IsLiteral catalog field v.toJson w := by
  obtain ⟨t, rfl, ht⟩ := hsigned
  obtain ⟨fault, hfault⟩ := Timestamp.read_text_of_signed ht
  cases h with
  | @converted kind _ _ hkind _ hv =>
    obtain rfl : FieldKind.timestamp = kind := FieldValue.ofJson_kind hv
    intro hw
    cases hw with
    | converted hkind' _ hw =>
      obtain rfl := Option.some.inj (hkind.symm.trans hkind')
      simp [FieldValue.ofJson, FieldValue.timestampOf, FieldValue.toJson, Timestamp.trim_text,
        hfault, Except.map] at hw
    | string hnone => exact absurd hkind (by simp [hnone])

-- ---------------------------------------------------------------------------
-- What the document of a filter says
-- ---------------------------------------------------------------------------

mutual

/-- The filter with every instant cut to microseconds. -/
def truncated : Filter → Filter
  | .all => .all
  | .equals field value => .equals field value.truncated
  | .and fs => .and (truncatedList fs)
  | .or fs => .or (truncatedList fs)

/-- The filters with every instant cut to microseconds. -/
def truncatedList : List Filter → List Filter
  | [] => []
  | f :: rest => truncated f :: truncatedList rest

end

theorem truncatedList_eq_map (fs : List Filter) : truncatedList fs = fs.map truncated := by
  induction fs with
  | nil => rfl
  | cons f rest ih => rw [truncatedList, ih, List.map_cons]

theorem mem_leavesOf_iff {fs : List Filter} {e : String × FieldValue} :
    e ∈ leavesOf fs ↔ ∃ f ∈ fs, e ∈ f.leaves := by
  induction fs with
  | nil => simp [leavesOf]
  | cons f rest ih => simp [leavesOf, ih]

/-- Under the name of a field only its literals are conditions. -/
theorem isCondition_iff_isLiteral {key : String} {j : Json} (hand : key ≠ andKey)
    (hor : key ≠ orKey) :
    IsCondition catalog key j ↔ key ≠ "" ∧ ∃ v, IsLiteral catalog key j v := by
  constructor
  · intro h
    cases h with
    | group hkey => exact absurd hkey (by simp [hand, hor])
    | equality _ _ hkey hv => exact ⟨hkey, _, hv⟩
  · rintro ⟨hkey, v, hv⟩
    exact .equality hand hor hkey hv

theorem memberwise_isFilter (catalog : Catalog) :
    Memberwise (IsFilter catalog) (IsCondition catalog) where
  object m := ⟨fun h => by cases h with | object hm => exact hm, .object⟩
  group items hne := by
    constructor
    · intro h
      cases h with
      | group _ _ hitems => exact hitems
      | equality hand => exact absurd rfl hand
    · exact .group (.inl rfl) hne

theorem memberwise_meets (catalog : Catalog) (item : WorkItem) :
    Memberwise (Meets catalog item) (MeetsCondition catalog item) where
  object m := ⟨fun h => by cases h with | object hm => exact hm, .object⟩
  group items _ := by
    constructor
    · intro h
      cases h with
      | every _ hitems => exact hitems
      | some hkey => exact absurd hkey (by decide)
      | equality hand => exact absurd rfl hand
    · exact .every rfl

theorem memberwise_isExact : Memberwise Json.IsExact fun _ => Json.IsExact where
  object m := by
    constructor
    · intro h
      generalize hm : m.entries = members at h
      cases h with
      | object h => exact h
    · exact .object
  group items _ := ⟨fun h => by cases h with | array hitems => exact hitems, .array⟩

theorem toJson_or (fs : List Filter) :
    (Filter.or fs).toJson = .object [(orKey, .array (fs.map toJson))] := by
  rw [toJson, listToJson_eq_map]

/-- The document of a choice is a filter if those of its members are. -/
theorem isFilter_toJson_or_iff {fs : List Filter} (hne : fs ≠ []) :
    IsFilter catalog (Filter.or fs).toJson ↔ ∀ f ∈ fs, IsFilter catalog f.toJson := by
  rw [toJson_or, (memberwise_isFilter catalog).single,
    ← List.forall_mem_map (P := IsFilter catalog)]
  constructor
  · intro h
    cases h with
    | group _ _ hitems => exact hitems
    | equality _ hor => exact absurd rfl hor
  · exact .group (.inr rfl) (by simpa using hne)

/-- The document of a choice says that of one of its members. -/
theorem meets_toJson_or_iff {fs : List Filter} :
    Meets catalog item (Filter.or fs).toJson ↔ ∃ f ∈ fs, Meets catalog item f.toJson := by
  rw [toJson_or, (memberwise_meets catalog item).single]
  constructor
  · intro h
    cases h with
    | every hkey => exact absurd hkey (by decide)
    | some _ hj hmeets =>
      obtain ⟨f, hf, rfl⟩ := List.mem_map.mp hj
      exact ⟨f, hf, hmeets⟩
    | equality _ hor => exact absurd rfl hor
  · rintro ⟨f, hf, hmeets⟩
    exact .some rfl (List.mem_map_of_mem hf) hmeets

/-- What a value is written as is exact. -/
theorem isExact_toJson_value (v : FieldValue) : v.toJson.IsExact := by
  cases v with
  | integer n =>
    have hlow := Int64.le_toInt n
    have hhigh := Int64.toInt_lt n
    exact .integer (by omega) (by omega)
  | bool b => exact .bool b
  | _ => exact .string _

/-- Whatever a filter asks for, its document is exact. -/
theorem IsOf.isExact_toJson {f : Filter} (h : f.IsOf catalog) : f.toJson.IsExact := by
  induction h with
  | all => exact .object (m := ∅) nofun
  | @equals field j v _ _ _ hv =>
    rw [toJson_equals, memberwise_isExact.single]
    exact isExact_toJson_value v
  | and h ih =>
    exact (memberwise_isExact.and (IsOf.equals_andKey_notMem h)).mpr ih
  | or _ _ ih =>
    rw [toJson_or, memberwise_isExact.single]
    exact .array (List.forall_mem_map.mpr ih)

/-- The document of a filter is a filter if no instant is written with a sign. -/
theorem IsOf.isFilter_toJson_iff {f : Filter} (h : f.IsOf catalog) :
    IsFilter catalog f.toJson ↔ ∀ e ∈ f.leaves, ¬ e.2.IsSigned := by
  induction h with
  | all => exact ⟨fun _ => nofun, fun _ => .object nofun⟩
  | @equals field j v hand hor hname hv =>
    rw [toJson_equals, (memberwise_isFilter catalog).single, leaves, List.forall_mem_singleton,
      isCondition_iff_isLiteral hand hor]
    constructor
    · rintro ⟨-, w, hw⟩ hsigned
      exact hv.not_written hsigned w hw
    · exact fun hsigned => ⟨hname, _, hv.written hsigned⟩
  | and h ih =>
    rw [(memberwise_isFilter catalog).and (IsOf.equals_andKey_notMem h), leaves,
      forall₂_congr ih]
    simp only [mem_leavesOf_iff, forall_exists_index, and_imp]
    exact ⟨fun hall e f hf he => hall f hf e he, fun hall f hf e he => hall e f hf he⟩
  | @or fs hne h ih =>
    rw [isFilter_toJson_or_iff hne, leaves, forall₂_congr ih]
    simp only [mem_leavesOf_iff, forall_exists_index, and_imp]
    exact ⟨fun hall e f hf he => hall f hf e he, fun hall f hf e he => hall e f hf he⟩

/-- The document of a filter says what the filter says, of instants up to microseconds. -/
theorem IsOf.meets_toJson_iff {f : Filter} (h : f.IsOf catalog)
    (hsigned : ∀ e ∈ f.leaves, ¬ e.2.IsSigned) :
    Meets catalog item f.toJson ↔ f.truncated.holdsFor item = true := by
  induction h with
  | all => exact ⟨fun _ => holdsFor_all_iff item, fun _ => .object nofun⟩
  | @equals field j v hand hor hname hv =>
    have hread : ofMember catalog field v.toJson = .ok (.equals field v.truncated) := by
      rw [ofMember_of_joinOf?_none (joinOf?_eq_none_iff.mpr ⟨hand, hor⟩)]
      exact equality_eq_ok_iff.mpr
        ⟨hname, _, hv.written (hsigned (field, v) List.mem_cons_self), rfl⟩
    rw [toJson_equals, (memberwise_meets catalog item).single, truncated]
    exact ((faithful_equality hand hor v.toJson).means _ hread item).symm
  | @and fs h ih =>
    have hfs : ∀ f ∈ fs, Meets catalog item f.toJson ↔ f.truncated.holdsFor item = true :=
      fun f hf => ih f hf fun e he => hsigned e (mem_leavesOf hf he)
    rw [(memberwise_meets catalog item).and (IsOf.equals_andKey_notMem h), truncated,
      truncatedList_eq_map, holdsFor_and_iff, List.forall_mem_map, forall₂_congr hfs]
  | @or fs hne h ih =>
    have hfs : ∀ f ∈ fs, Meets catalog item f.toJson ↔ f.truncated.holdsFor item = true :=
      fun f hf => ih f hf fun e he => hsigned e (mem_leavesOf hf he)
    rw [meets_toJson_or_iff, truncated, truncatedList_eq_map, holdsFor_or_iff]
    constructor
    · rintro ⟨f, hf, hmeets⟩
      exact ⟨f.truncated, List.mem_map_of_mem hf, (hfs f hf).mp hmeets⟩
    · rintro ⟨_, hg, hholds⟩
      obtain ⟨f, hf, rfl⟩ := List.mem_map.mp hg
      exact ⟨f, hf, (hfs f hf).mpr hholds⟩

-- ---------------------------------------------------------------------------
-- How deep documents of filters are
-- ---------------------------------------------------------------------------

theorem depth_toJson_value (v : FieldValue) : v.toJson.depth = 0 := by
  cases v <;> simp [FieldValue.toJson, Json.int, Json.depth]

theorem depthItems_le {items : List Json} {k : Nat} (h : ∀ j ∈ items, j.depth ≤ k) :
    Json.depthItems items ≤ k := by
  induction items with
  | nil => exact Nat.zero_le k
  | cons j rest ih =>
    rw [Json.depthItems]
    exact Nat.max_le.mpr ⟨h j List.mem_cons_self, ih fun i hi => h i (List.mem_cons_of_mem j hi)⟩

theorem le_depthItems {items : List Json} {j : Json} (h : j ∈ items) :
    j.depth ≤ Json.depthItems items := by
  induction items with
  | nil => exact nomatch h
  | cons i rest ih =>
    rw [Json.depthItems]
    rcases List.mem_cons.mp h with rfl | h
    · exact Nat.le_max_left _ _
    · exact Nat.le_trans (ih h) (Nat.le_max_right _ _)

theorem depthMembers_le {members : List (String × Json)} {k : Nat}
    (h : ∀ e ∈ members, e.2.depth ≤ k) : Json.depthMembers members ≤ k := by
  induction members with
  | nil => exact Nat.zero_le k
  | cons e rest ih =>
    rw [Json.depthMembers]
    exact Nat.max_le.mpr ⟨h e List.mem_cons_self, ih fun i hi => h i (List.mem_cons_of_mem e hi)⟩

theorem le_depthMembers {members : List (String × Json)} {e : String × Json} (h : e ∈ members) :
    e.2.depth ≤ Json.depthMembers members := by
  induction members with
  | nil => exact nomatch h
  | cons i rest ih =>
    rw [Json.depthMembers]
    rcases List.mem_cons.mp h with rfl | h
    · exact Nat.le_max_left _ _
    · exact Nat.le_trans (ih h) (Nat.le_max_right _ _)

section

variable {fs : List Filter} {k : Nat}

theorem depth_toJson_and_le (h : ∀ f ∈ fs, f.toJson.depth ≤ k) :
    (Filter.and fs).toJson.depth ≤ k + 2 := by
  have hflatten := (flatten_iff (P := fun j => j.depth ≤ k) (Q := fun _ j => j.depth + 1 ≤ k)
    (fun _ j => by simp [Json.depthMembers]) fs ∅).mpr ⟨nofun, h⟩
  have hopen : ∀ e ∈ (flatten ∅ fs).1.entries, e.2.depth ≤ k + 1 := fun e he =>
    Nat.le_trans (Nat.le_of_succ_le (hflatten.1 e he)) (Nat.le_succ k)
  rw [toJson, Json.ofMap, Json.depth_object]
  refine Nat.succ_le_succ (depthMembers_le fun e he => ?_)
  split at he
  · exact hopen e he
  · rw [SortedMap.mem_entries_iff (k := e.1), SortedMap.get?_insert] at he
    split at he
    · rw [← Option.some.inj he, Json.depth_array]
      exact Nat.succ_le_succ (depthItems_le hflatten.2)
    · exact hopen e (SortedMap.mem_entries_iff.mpr he)

theorem depth_toJson_or_le (h : ∀ f ∈ fs, f.toJson.depth ≤ k) :
    (Filter.or fs).toJson.depth ≤ k + 2 := by
  rw [toJson_or, Json.depth_object]
  refine Nat.succ_le_succ (depthMembers_le (List.forall_mem_singleton.mpr ?_))
  rw [Json.depth_array]
  exact Nat.succ_le_succ (depthItems_le (List.forall_mem_map.mpr h))

theorem depth_joinAll_le (h : ∀ f ∈ fs, f.toJson.depth ≤ k) :
    (joinAll fs).toJson.depth ≤ k + 2 := by
  have hkept : ∀ f ∈ fs.filter fun f => !f.isAll, f.toJson.depth ≤ k := fun f hf =>
    h f (List.mem_filter.mp hf).1
  unfold joinAll
  split
  · simp [toJson, Json.depthMembers]
  · next f hf => exact Nat.le_add_right_of_le (hkept f (by simp [hf]))
  · exact depth_toJson_and_le hkept

theorem depth_joinAny_le (h : ∀ f ∈ fs, f.toJson.depth ≤ k) :
    (joinAny fs).toJson.depth ≤ k + 2 := by
  unfold joinAny
  split
  · next f => exact Nat.le_add_right_of_le (h f List.mem_cons_self)
  · exact depth_toJson_or_le h

/-- A filter is written at most twice as deep as it was read. -/
theorem depth_toJson_le_of_ofJson {j : Json} {f : Filter} (h : ofJson catalog j = .ok f) :
    f.toJson.depth ≤ 2 * j.depth + 1 := by
  have hitems : ∀ {items : List Json} {fs : List Filter},
      (∀ f ∈ fs, ∃ j ∈ items, f.toJson.depth ≤ 2 * j.depth + 1) →
      ∀ f ∈ fs, f.toJson.depth ≤ 2 * Json.depthItems items + 1 := by
    intro items fs hfs f hf
    obtain ⟨j, hj, hle⟩ := hfs f hf
    have := le_depthItems hj
    omega
  refine (ofJson_induction (P := fun j f => f.toJson.depth ≤ 2 * j.depth + 1)
    (fun {key j v} _ _ _ _ => ?_) (fun {members fs} hfs => ?_) (fun {items fs} hfs => ?_)
    (fun {items fs} _ hfs => ?_) j).1 f h
  · rw [toJson_equals, Json.depth_object, Json.depthMembers, Json.depthMembers,
      depth_toJson_value]
    omega
  · have hle : ∀ f ∈ fs, f.toJson.depth ≤ 2 * Json.depthMembers members + 1 := by
      intro f hf
      obtain ⟨e, he, hle⟩ := hfs f hf
      have := le_depthMembers he
      omega
    have := depth_joinAll_le hle
    rw [Json.depth_object]
    omega
  · have := depth_joinAll_le (hitems hfs)
    rw [Json.depth_array]
    omega
  · have := depth_joinAny_le (hitems hfs)
    rw [Json.depth_array]
    omega

end

-- ---------------------------------------------------------------------------
-- The text of a filter
-- ---------------------------------------------------------------------------

theorem exists_memberChars (members : List (String × Json)) :
    ∃ cs, Json.memberChars members = cs ++ ['\x7d'] := by
  induction members with
  | nil => exact ⟨[], by rw [Json.memberChars]; rfl⟩
  | cons e rest ih =>
    obtain ⟨cs, hcs⟩ := ih
    cases rest with
    | nil => exact ⟨_, by rw [Json.memberChars]⟩
    | cons e' rest =>
      rw [Json.memberChars, hcs]
      · exact ⟨_, by rw [← List.cons_append, ← List.append_assoc]⟩
      · simp

/-- The text of an object has no blanks around it. -/
theorem trim_write_object (members : List (String × Json)) :
    Text.trim (Json.object members).write = (Json.object members).write := by
  obtain ⟨cs, hcs⟩ := exists_memberChars members
  rw [Text.trim, Json.toList_write, Json.write_object, hcs,
    Text.trimChars_of_not_blank (by decide) (by decide), Json.write, Json.write_object, hcs]

/-- The text of an exact object is read as the object, unless it is too deep. -/
theorem read_write {members : List (String × Json)} (h : (Json.object members).IsExact) :
    read catalog (Json.object members).write =
      if (Json.object members).depth ≤ Json.greatestDepth then ofJson catalog (.object members)
      else .error .invalidJson := by
  have hempty : ¬ (Json.object members).write.isEmpty = true := by
    intro hempty
    have hnil := congrArg String.toList (String.isEmpty_iff.mp hempty)
    rw [Json.toList_write, Json.write_object] at hnil
    exact nomatch hnil
  unfold read
  simp only [trim_write_object, if_neg hempty, Json.read?_write h]
  by_cases hdepth : (Json.object members).depth ≤ Json.greatestDepth
  · rw [if_pos hdepth, if_pos hdepth]
  · rw [if_neg hdepth, if_neg hdepth]

theorem exists_toJson_eq (f : Filter) : ∃ members, f.toJson = .object members := by
  cases f with
  | or fs => exact ⟨_, toJson_or fs⟩
  | _ => rw [toJson]; exact ⟨_, rfl⟩

/-- A filter without instants that are finer than microseconds loses nothing. -/
theorem truncated_eq_self {f : Filter} (h : ∀ e ∈ f.leaves, e.2.truncated = e.2) :
    f.truncated = f := by
  have hgroup : ∀ fs : List Filter,
      (∀ f ∈ fs, (∀ e ∈ f.leaves, e.2.truncated = e.2) → f.truncated = f) →
      (∀ e ∈ leavesOf fs, e.2.truncated = e.2) → truncatedList fs = fs := by
    intro fs ih hfs
    rw [truncatedList_eq_map]
    have hmap := List.map_congr_left fun f hf => ih f hf fun e he => hfs e (mem_leavesOf hf he)
    rw [hmap, List.map_id']
  induction f using Filter.induction with
  | all => rfl
  | equals field value => rw [truncated, h (field, value) List.mem_cons_self]
  | and fs ih => rw [truncated, hgroup fs ih h]
  | or fs ih => rw [truncated, hgroup fs ih h]

/-- The text of a filter is read as the document of the filter, unless it is too deep. -/
theorem IsOf.read_text {f : Filter} (h : f.IsOf catalog) :
    read catalog f.text =
      if f.toJson.depth ≤ Json.greatestDepth then ofJson catalog f.toJson
      else .error .invalidJson := by
  obtain ⟨members, hmembers⟩ := exists_toJson_eq f
  have hexact := h.isExact_toJson
  rw [hmembers] at hexact
  rw [text, hmembers]
  exact read_write hexact

/-- **The text of a filter that was read is read again if it is not too deep and no instant is
written with a sign.** A text of up to 63 levels leads to no filter that is too deep. What is read
again holds for the items that the filter with its instants cut to microseconds holds for; without
finer instants those are the items of the filter. -/
theorem rereads {s : String} {f : Filter} (h : read catalog s = .ok f) :
    ((∃ g, read catalog f.text = .ok g) ↔
      f.toJson.depth ≤ Json.greatestDepth ∧ ∀ e ∈ f.leaves, ¬ e.2.IsSigned) ∧
      (∀ j, Json.read? (Text.trim s) = some j → j.depth ≤ 63 →
        f.toJson.depth ≤ Json.greatestDepth) ∧
      ∀ g, read catalog f.text = .ok g →
        (∀ item, g.holdsFor item = f.truncated.holdsFor item) ∧
          ((∀ e ∈ f.leaves, e.2.truncated = e.2) →
            ∀ item, g.holdsFor item = f.holdsFor item) := by
  have hof := isOf_of_read h
  have hfaithful := (faithful_ofJson catalog f.toJson).1
  refine ⟨?_, fun j hj hshallow => ?_, fun g hg => ?_⟩
  · rw [hof.read_text, ← hof.isFilter_toJson_iff, ← hfaithful.reads]
    split
    · next hdepth => rw [and_iff_right hdepth]
    · next hdepth => exact ⟨fun ⟨_, hg⟩ => (nomatch hg), fun hboth => absurd hboth.1 hdepth⟩
  · by_cases hblank : (Text.trim s).isEmpty = true
    · simp only [read, if_pos hblank] at h
      rw [← Except.ok.inj h, toJson]
      decide
    · simp only [read, if_neg hblank, hj] at h
      have hle := depth_toJson_le_of_ofJson h
      show f.toJson.depth ≤ 127
      omega
  · rw [hof.read_text] at hg
    split at hg
    · have hsigned := hof.isFilter_toJson_iff.mp (hfaithful.reads.mp ⟨g, hg⟩)
      have hmeans : ∀ item, g.holdsFor item = f.truncated.holdsFor item := fun item => by
        rw [Bool.eq_iff_iff, hfaithful.means g hg item, hof.meets_toJson_iff hsigned]
      exact ⟨hmeans, fun hmicros item => by rw [hmeans, truncated_eq_self hmicros]⟩
    · exact nomatch hg

/-- The catalog of a type with a date. -/
def dueCatalog : Catalog := .ofTypes [⟨"task", [⟨"due", .timestamp, false⟩]⟩]

/-- Tasks that are due at an instant, of one of two sorts. -/
def dueFilter : Filter :=
  .and [.or [.equals "sort" (.string "bug"), .equals "sort" (.integer 2)],
    .equals "due" (.timestamp ⟨1709208000, 500000000, by decide, by decide⟩)]

/-- A filter with an instant and a choice is read again, and holds for the same items. -/
theorem rereads_due :
    read dueCatalog ("\x7b\"due\":\"2024-02-29T13:00:00.5+01:00\"," ++
      "\"$or\":[\x7b\"sort\":\"bug\"\x7d,\x7b\"sort\":2\x7d]\x7d") = .ok dueFilter ∧
      ∃ g, read dueCatalog dueFilter.text = .ok g ∧
        ∀ item, g.holdsFor item = dueFilter.holdsFor item := by
  have hread : read dueCatalog ("\x7b\"due\":\"2024-02-29T13:00:00.5+01:00\"," ++
      "\"$or\":[\x7b\"sort\":\"bug\"\x7d,\x7b\"sort\":2\x7d]\x7d") = .ok dueFilter := by
    have hoption : (read dueCatalog ("\x7b\"due\":\"2024-02-29T13:00:00.5+01:00\"," ++
        "\"$or\":[\x7b\"sort\":\"bug\"\x7d,\x7b\"sort\":2\x7d]\x7d")).toOption =
        some dueFilter := by decide +kernel
    revert hoption
    cases read dueCatalog _ <;> simp [Except.toOption]
  have hunsigned : ∀ e ∈ dueFilter.leaves, ¬ e.2.IsSigned := by
    have hyears : ∀ e ∈ dueFilter.leaves, ∀ t, e.2 = .timestamp t → 0 ≤ t.year ∧ t.year ≤ 9999 := by
      simp [dueFilter, leaves, leavesOf]
      decide
    rintro e he ⟨t, ht, hsigned⟩
    exact hsigned (hyears e he t ht)
  obtain ⟨hiff, -, hmeans⟩ := rereads hread
  obtain ⟨g, hg⟩ := hiff.mpr ⟨by decide +kernel, hunsigned⟩
  exact ⟨hread, g, hg, (hmeans g hg).2 (by decide +kernel)⟩

/-! ### Layers of choices -/

/-- An equality below layers of choices: of each layer one is asked for what is below or for another
equality, and for one equality more. -/
def layered : Nat → Json
  | 0 => .object [("c", .int 1)]
  | n + 1 => .object [(orKey, .array [layered n, .object [("b", .int 1)]]), ("a", .int 1)]

/-- What the layers are read as. -/
def layeredFilter : Nat → Filter
  | 0 => .equals "c" (.integer 1)
  | n + 1 => .and [.or [layeredFilter n, .equals "b" (.integer 1)], .equals "a" (.integer 1)]

theorem ofMember_one {field : String} (hand : field ≠ andKey) (hor : field ≠ orKey)
    (hname : field ≠ "") : ofMember ∅ field (.int 1) = .ok (.equals field (.integer 1)) :=
  ofMember_of_isLiteral hand hor hname (.integer rfl 1)

theorem ofJson_one {field : String} (hand : field ≠ andKey) (hor : field ≠ orKey)
    (hname : field ≠ "") :
    ofJson ∅ (.object [(field, .int 1)]) = .ok (.equals field (.integer 1)) :=
  ofJson_object_eq_ok_iff.mpr
    ⟨[.equals field (.integer 1)], by simp [ofMember_one hand hor hname], rfl⟩

theorem ofJson_layered (n : Nat) : ofJson ∅ (layered n) = .ok (layeredFilter n) := by
  induction n with
  | zero => exact ofJson_one (by decide) (by decide) (by decide)
  | succ n ih =>
    have hb : ofJson ∅ (.object [("b", .int 1)]) = .ok (.equals "b" (.integer 1)) :=
      ofJson_one (by decide) (by decide) (by decide)
    have hor : joinOf? orKey = some joinAny := by simp [joinOf?, show orKey ≠ andKey by decide]
    have hchoice : ofMember ∅ orKey (.array [layered n, .object [("b", .int 1)]]) =
        .ok (.or [layeredFilter n, .equals "b" (.integer 1)]) :=
      (ofMember_array_eq_ok_iff hor).mpr
        ⟨[layeredFilter n, .equals "b" (.integer 1)], by simp, by simp [ih, hb], rfl⟩
    have ha : ofMember ∅ "a" (.int 1) = .ok (.equals "a" (.integer 1)) :=
      ofMember_one (by decide) (by decide) (by decide)
    exact ofJson_object_eq_ok_iff.mpr
      ⟨[.or [layeredFilter n, .equals "b" (.integer 1)], .equals "a" (.integer 1)],
        by simp [hchoice, ha], rfl⟩

theorem isExact_layered (n : Nat) : (layered n).IsExact := by
  have hone : Json.IsExact (.int 1) := .integer (by decide) (by decide)
  have hequality : ∀ field, Json.IsExact (.object [(field, .int 1)]) := fun field =>
    (memberwise_isExact.single field _).mpr hone
  induction n with
  | zero => exact hequality "c"
  | succ n ih =>
    have hchoice : Json.IsExact (.array [layered n, .object [("b", .int 1)]]) :=
      .array (by simp [ih, hequality])
    exact .object (m := ⟨[(orKey, .array [layered n, .object [("b", .int 1)]]), ("a", .int 1)],
      List.pairwise_pair.mpr (show compare orKey "a" = .lt by decide)⟩) (by simp [hchoice, hone])

/-- Each layer is written four levels deeper. -/
theorem depth_toJson_layeredFilter (n : Nat) : (layeredFilter n).toJson.depth = 4 * n + 1 := by
  induction n with
  | zero => rfl
  | succ n ih =>
    have hdocument : (layeredFilter (n + 1)).toJson = .object [(andKey, .array
        [.object [(orKey, .array [(layeredFilter n).toJson, .object [("b", .int 1)]])]]),
        ("a", .int 1)] := by
      rfl
    rw [hdocument]
    have hone : (Json.int 1).depth = 0 := rfl
    simp only [Json.depth_object, Json.depth_array, Json.depthMembers, Json.depthItems, ih, hone]
    omega

/-- **A text of 65 levels is read as a filter whose own text is too deep to be read.** -/
theorem layered_unread :
    read ∅ (layered 32).write = .ok (layeredFilter 32) ∧
      ∀ g, read ∅ (layeredFilter 32).text ≠ .ok g := by
  have hread : read ∅ (layered 32).write = .ok (layeredFilter 32) := by
    have hexact := isExact_layered 32
    rw [layered] at hexact ⊢
    rw [read_write hexact, ← layered, ofJson_layered]
    exact if_pos (by decide +kernel)
  refine ⟨hread, fun g hg => ?_⟩
  rw [(isOf_of_read hread).read_text, depth_toJson_layeredFilter, if_neg (by decide)] at hg
  exact nomatch hg

end Filter

end Backlog
