import Backlog.Filter.Document

/-!
# The grammar of filters

A document is a filter if it is an object whose members are conditions: under the key of a group a
list of filters that is not empty, under any other key that is not empty a literal for that field.
An item meets a document if it meets every member, and so on down to the literals. Both are said
here of the document alone. The tree that a document is read as is smaller than the document:
groups of one member and members that ask for nothing are left out, at every level. It still says
the same.

Whether a document is a filter, what it means and how its tree looks are shown together, by
induction on the document: `Faithful` says what is shown of one document or member, and there is one
lemma for each way in which conditions are put together.

## Main results

* `Filter.faithful_ofJson` — a document is read if it is a filter, and its tree says what it says;
* `Filter.reads_grammar` — the same for texts.
-/

namespace Backlog

-- ---------------------------------------------------------------------------
-- Documents by their parts
-- ---------------------------------------------------------------------------

namespace Json

mutual

/-- What passes from the parts of a value to the value holds of every value. -/
theorem induction {P : Json → Prop} (null : P .null) (bool : ∀ b, P (.bool b))
    (number : ∀ n, P (.number n)) (string : ∀ s, P (.string s))
    (array : ∀ items, (∀ j ∈ items, P j) → P (.array items))
    (object : ∀ members, (∀ e ∈ members, P e.2) → P (.object members)) : ∀ j, P j
  | .null => null
  | .bool b => bool b
  | .number n => number n
  | .string s => string s
  | .array items => array items (inductionItems null bool number string array object items)
  | .object members =>
    object members (inductionMembers null bool number string array object members)

theorem inductionItems {P : Json → Prop} (null : P .null) (bool : ∀ b, P (.bool b))
    (number : ∀ n, P (.number n)) (string : ∀ s, P (.string s))
    (array : ∀ items, (∀ j ∈ items, P j) → P (.array items))
    (object : ∀ members, (∀ e ∈ members, P e.2) → P (.object members)) :
    ∀ items : List Json, ∀ j ∈ items, P j
  | [] => by simp
  | j :: rest =>
    List.forall_mem_cons.mpr ⟨induction null bool number string array object j,
      inductionItems null bool number string array object rest⟩

theorem inductionMembers {P : Json → Prop} (null : P .null) (bool : ∀ b, P (.bool b))
    (number : ∀ n, P (.number n)) (string : ∀ s, P (.string s))
    (array : ∀ items, (∀ j ∈ items, P j) → P (.array items))
    (object : ∀ members, (∀ e ∈ members, P e.2) → P (.object members)) :
    ∀ members : List (String × Json), ∀ e ∈ members, P e.2
  | [] => by simp
  | (_, j) :: rest =>
    List.forall_mem_cons.mpr ⟨induction null bool number string array object j,
      inductionMembers null bool number string array object rest⟩

end

end Json

namespace Filter

variable {catalog : Catalog} {item : WorkItem}

-- ---------------------------------------------------------------------------
-- Which documents are filters
-- ---------------------------------------------------------------------------

/-- A value is a literal for a field: a scalar that converts to the kind of the field, or, if the
kind is not known, a text, an integer of 64 bits or a truth value. -/
inductive IsLiteral (catalog : Catalog) (field : String) : Json → FieldValue → Prop
  | converted {kind : FieldKind} {j : Json} {v : FieldValue}
      (hkind : catalog.kind? field = some kind) (hscalar : j.isScalar = true)
      (hv : FieldValue.ofJson kind j = .ok v) :
      IsLiteral catalog field j v
  | string (hkind : catalog.kind? field = none) (s : String) :
      IsLiteral catalog field (.string s) (.string s)
  | integer (hkind : catalog.kind? field = none) (n : Int64) :
      IsLiteral catalog field (.int n.toInt) (.integer n)
  | bool (hkind : catalog.kind? field = none) (b : Bool) :
      IsLiteral catalog field (.bool b) (.bool b)

mutual

/-- A document is a filter. -/
inductive IsFilter (catalog : Catalog) : Json → Prop
  | object {members : List (String × Json)}
      (h : ∀ e ∈ members, IsCondition catalog e.1 e.2) : IsFilter catalog (.object members)

/-- A member of a document is a condition. -/
inductive IsCondition (catalog : Catalog) : String → Json → Prop
  | group {key : String} {items : List Json} (hkey : key = andKey ∨ key = orKey)
      (hitems : items ≠ []) (h : ∀ j ∈ items, IsFilter catalog j) :
      IsCondition catalog key (.array items)
  | equality {key : String} {j : Json} {v : FieldValue} (hand : key ≠ andKey) (hor : key ≠ orKey)
      (hkey : key ≠ "") (hv : IsLiteral catalog key j v) : IsCondition catalog key j

end

/-- A text is that of a filter: it is blank, or it is a document that is a filter. -/
def IsText (catalog : Catalog) (text : String) : Prop :=
  Text.trim text = "" ∨ ∃ j, Json.read? (Text.trim text) = some j ∧ IsFilter catalog j

-- ---------------------------------------------------------------------------
-- What documents say
-- ---------------------------------------------------------------------------

mutual

/-- An item is as a document says: it is as every member says. -/
inductive Meets (catalog : Catalog) (item : WorkItem) : Json → Prop
  | object {members : List (String × Json)}
      (h : ∀ e ∈ members, MeetsCondition catalog item e.1 e.2) :
      Meets catalog item (.object members)

/-- An item is as a member of a document says: as every entry says, as one entry says, or it has
the field, and the stored value is the literal in the kind of the stored value. -/
inductive MeetsCondition (catalog : Catalog) (item : WorkItem) : String → Json → Prop
  | every {key : String} {items : List Json} (hkey : key = andKey)
      (h : ∀ j ∈ items, Meets catalog item j) : MeetsCondition catalog item key (.array items)
  | some {key : String} {items : List Json} {j : Json} (hkey : key = orKey) (hj : j ∈ items)
      (h : Meets catalog item j) : MeetsCondition catalog item key (.array items)
  | equality {key : String} {j : Json} {v stored : FieldValue} (hand : key ≠ andKey)
      (hor : key ≠ orKey) (hv : IsLiteral catalog key j v)
      (hstored : item.field? key = .some stored)
      (heq : v.coerceTo stored.kind = .some stored) : MeetsCondition catalog item key j

end

/-- An item is as a text says: a blank text says nothing. -/
def MeetsText (catalog : Catalog) (text : String) (item : WorkItem) : Prop :=
  Text.trim text = "" ∨ ∃ j, Json.read? (Text.trim text) = some j ∧ Meets catalog item j

-- ---------------------------------------------------------------------------
-- Trees without idle groups
-- ---------------------------------------------------------------------------

/-- Every group of a tree has two members at least, and none that asks for nothing in a group of
which every member is asked for. -/
inductive IsReduced : Filter → Prop
  | all : IsReduced .all
  | equals (field : String) (value : FieldValue) : IsReduced (.equals field value)
  | and {children : List Filter} (hlength : 2 ≤ children.length) (hall : Filter.all ∉ children)
      (h : ∀ f ∈ children, IsReduced f) : IsReduced (.and children)
  | or {children : List Filter} (hlength : 2 ≤ children.length)
      (h : ∀ f ∈ children, IsReduced f) : IsReduced (.or children)

theorem isReduced_joinAll {fs : List Filter} (h : ∀ f ∈ fs, f.IsReduced) :
    (joinAll fs).IsReduced := by
  have hkept : ∀ f ∈ fs.filter fun f => !f.isAll, f.IsReduced := fun f hf =>
    h f (List.mem_filter.mp hf).1
  have hall : Filter.all ∉ fs.filter fun f => !f.isAll := by simp [isAll]
  unfold joinAll
  split
  · exact .all
  · next f hf => exact hkept f (by simp [hf])
  · next hnone hone =>
    refine .and ?_ hall hkept
    rcases hl : fs.filter fun f => !f.isAll with _ | ⟨f, _ | ⟨g, rest⟩⟩
    · exact absurd hl hnone
    · exact absurd hl (hone f)
    · rw [hl]
      exact Nat.le_add_left 2 rest.length

theorem isReduced_joinAny {fs : List Filter} (hne : fs ≠ []) (h : ∀ f ∈ fs, f.IsReduced) :
    (joinAny fs).IsReduced := by
  unfold joinAny
  split
  · exact h _ List.mem_cons_self
  · next hone =>
    refine .or ?_ h
    match fs, hne with
    | [f], _ => exact absurd rfl (hone f)
    | _ :: _ :: _, _ => simp

-- ---------------------------------------------------------------------------
-- Literals
-- ---------------------------------------------------------------------------

theorem literal_eq_ok_iff {field : String} {j : Json} {v : FieldValue} :
    literal catalog field j = .ok v ↔ IsLiteral catalog field j v := by
  unfold literal
  constructor
  · intro h
    split at h
    · next kind hkind =>
      split at hkind
      · next hscalar =>
        split at h
        · next v' hv =>
          rw [← Except.ok.inj h]
          exact .converted hkind hscalar hv
        · simp at h
      · simp at hkind
    · next hkind =>
      split at h
      · next v' hv =>
        rw [← Except.ok.inj h]
        -- only scalars look like something, so here the kind of the field is not known
        unfold FieldValue.infer at hv
        split at hv
        · rw [← Option.some.inj hv]
          exact .string (by simpa [Json.isScalar] using hkind) _
        · next n =>
          obtain ⟨w, hw, rfl⟩ := Option.map_eq_some_iff.mp hv
          rw [← Text.toInt_of_exactInt64? hw]
          exact .integer (by simpa [Json.isScalar] using hkind) w
        · rw [← Option.some.inj hv]
          exact .bool (by simpa [Json.isScalar] using hkind) _
        · simp at hv
      · simp at h
  · intro h
    cases h with
    | converted hkind hscalar hv => simp [hkind, hscalar, hv]
    | string hkind s => simp [hkind, FieldValue.infer]
    | integer hkind n => simp [hkind, FieldValue.infer, Json.int, Text.exactInt64?_toInt]
    | bool hkind b => simp [hkind, FieldValue.infer]

theorem IsLiteral.unique {field : String} {j : Json} {v w : FieldValue}
    (hv : IsLiteral catalog field j v) (hw : IsLiteral catalog field j w) : v = w :=
  Except.ok.inj ((literal_eq_ok_iff.mpr hv).symm.trans (literal_eq_ok_iff.mpr hw))

theorem equality_eq_ok_iff {field : String} {j : Json} {f : Filter} :
    equality catalog field j = .ok f ↔
      field ≠ "" ∧ ∃ v, IsLiteral catalog field j v ∧ f = .equals field v := by
  unfold equality
  by_cases hfield : field = ""
  · simp [hfield]
  · rw [if_neg hfield]
    cases hv : literal catalog field j with
    | error fault =>
      have hnone : ∀ v, ¬ IsLiteral catalog field j v := fun v h => by
        simp [literal_eq_ok_iff.mpr h] at hv
      simp [Except.map, hnone]
    | ok v =>
      have hl := literal_eq_ok_iff.mp hv
      constructor
      · intro h
        exact ⟨hfield, v, hl, (Except.ok.inj h).symm⟩
      · rintro ⟨-, w, hw, rfl⟩
        rw [hl.unique hw]
        rfl

-- ---------------------------------------------------------------------------
-- The reader part by part
-- ---------------------------------------------------------------------------

theorem joinOf?_eq_none_iff {key : String} : joinOf? key = none ↔ key ≠ andKey ∧ key ≠ orKey := by
  unfold joinOf?
  split <;> simp_all

theorem ofMember_of_joinOf?_none {key : String} (h : joinOf? key = none) (j : Json) :
    ofMember catalog key j = equality catalog key j := by
  cases j <;> simp [ofMember, h]

/-- A member with a literal of its field is an equality. -/
theorem ofMember_of_isLiteral {field : String} {j : Json} {v : FieldValue} (hand : field ≠ andKey)
    (hor : field ≠ orKey) (hfield : field ≠ "") (hv : IsLiteral catalog field j v) :
    ofMember catalog field j = .ok (.equals field v) := by
  rw [ofMember_of_joinOf?_none (joinOf?_eq_none_iff.mpr ⟨hand, hor⟩)]
  exact equality_eq_ok_iff.mpr ⟨hfield, v, hv, rfl⟩

/-- Under the key of a group only lists are read, and those by their entries. -/
theorem ofMember_eq_ok_iff {key : String} {join : List Filter → Filter}
    (h : joinOf? key = some join) {j : Json} {f : Filter} :
    ofMember catalog key j = .ok f ↔
      ∃ items fs, j = .array items ∧ items ≠ [] ∧ ofEntries catalog key items = .ok fs ∧
        f = join fs := by
  cases j with
  | array items =>
    by_cases hitems : items = []
    · simp [ofMember, h, hitems]
    · cases hfs : ofEntries catalog key items with
      | error fault => simp [ofMember, h, hitems, hfs]
      | ok fs => simp [ofMember, h, hitems, hfs, eq_comm]
  | _ => simp [ofMember, h]

/-- Members are read one by one. -/
theorem ofMembers_eq_ok_iff {members : List (String × Json)} {fs : List Filter} :
    ofMembers catalog members = .ok fs ↔
      members.map (fun e => ofMember catalog e.1 e.2) = fs.map .ok := by
  induction members generalizing fs with
  | nil => cases fs <;> simp [ofMembers]
  | cons e rest ih =>
    obtain ⟨key, j⟩ := e
    rw [ofMembers, List.map_cons]
    cases fs with
    | nil => cases ofMember catalog key j <;> cases ofMembers catalog rest <;> simp
    | cons f gs =>
      rw [List.map_cons, List.cons.injEq, ← ih]
      cases ofMember catalog key j <;> cases ofMembers catalog rest <;> simp

/-- Entries are read one by one, as documents. -/
theorem ofEntries_eq_ok_iff {key : String} {items : List Json} {fs : List Filter} :
    ofEntries catalog key items = .ok fs ↔ items.map (ofJson catalog) = fs.map .ok := by
  induction items generalizing fs with
  | nil => cases fs <;> simp [ofEntries]
  | cons j rest ih =>
    rw [List.map_cons]
    cases j with
    | object members =>
      rw [ofEntries, ofJson, ofObject]
      cases fs with
      | nil => cases ofMembers catalog members <;> cases ofEntries catalog key rest <;> simp
      | cons f gs =>
        rw [List.map_cons, List.cons.injEq, ← ih]
        cases ofMembers catalog members <;> cases ofEntries catalog key rest <;> simp [Except.map]
    | _ => cases fs <;> simp [ofEntries, ofJson]

/-- An object is read as all that its members are read as. -/
theorem ofJson_object_eq_ok_iff {members : List (String × Json)} {f : Filter} :
    ofJson catalog (.object members) = .ok f ↔
      ∃ fs, members.map (fun e => ofMember catalog e.1 e.2) = fs.map .ok ∧ f = joinAll fs := by
  simp only [← ofMembers_eq_ok_iff, ofJson, ofObject]
  cases ofMembers catalog members <;> simp [Except.map, eq_comm]

/-- A group is read as its entries are, joined. -/
theorem ofMember_array_eq_ok_iff {key : String} {join : List Filter → Filter}
    (h : joinOf? key = some join) {items : List Json} {f : Filter} :
    ofMember catalog key (.array items) = .ok f ↔
      ∃ fs, fs ≠ [] ∧ items.map (ofJson catalog) = fs.map .ok ∧ f = join fs := by
  rw [ofMember_eq_ok_iff h]
  constructor
  · rintro ⟨_, fs, hitems, hne, hfs, rfl⟩
    obtain rfl := Json.array.inj hitems
    have hlist := ofEntries_eq_ok_iff.mp hfs
    exact ⟨fs, fun hnil => hne (by simpa [hnil] using hlist), hlist, rfl⟩
  · rintro ⟨fs, hne, hlist, rfl⟩
    exact ⟨items, fs, rfl, fun hnil => hne (by simpa [hnil, eq_comm] using hlist),
      ofEntries_eq_ok_iff.mpr hlist, rfl⟩

/-- A blank text is read as the filter that asks for nothing, and another one as its document. -/
theorem read_eq_ok_iff {text : String} {f : Filter} :
    read catalog text = .ok f ↔ Text.trim text = "" ∧ f = .all ∨ Text.trim text ≠ "" ∧
      ∃ j, Json.read? (Text.trim text) = some j ∧ ofJson catalog j = .ok f := by
  by_cases hblank : Text.trim text = ""
  · rw [read_blank catalog hblank, Except.ok.injEq, eq_comm]
    simp [hblank]
  · have hempty : (Text.trim text).isEmpty = false := by simpa using hblank
    simp only [read, hempty, Bool.false_eq_true, if_false, hblank, false_and, false_or, ne_eq,
      not_false_eq_true, true_and]
    split
    · next j hj => simp [hj]
    · next hnone => simp [hnone]

/-- Everything in a list that parts are read as is what one of them is read as. -/
theorem exists_of_map_eq {α : Type} {xs : List α} {fs : List Filter}
    {result : α → Except Fault Filter} (hfs : xs.map result = fs.map .ok) {f : Filter}
    (hf : f ∈ fs) : ∃ x ∈ xs, result x = .ok f :=
  List.mem_map.mp (hfs ▸ List.mem_map_of_mem (f := Except.ok) hf)

-- ---------------------------------------------------------------------------
-- Reading is faithful
-- ---------------------------------------------------------------------------

/-- What is read is what is in the grammar, and the tree says the same without idle groups. -/
structure Faithful (inGrammar : Prop) (result : Except Fault Filter) (meaning : WorkItem → Prop) :
    Prop where
  reads : (∃ f, result = .ok f) ↔ inGrammar
  means : ∀ f, result = .ok f → ∀ item, f.holdsFor item = true ↔ meaning item
  reduced : ∀ f, result = .ok f → f.IsReduced

/-- What cannot be read is faithful to what is not in the grammar. -/
theorem Faithful.of_error {inGrammar : Prop} {result : Except Fault Filter}
    {meaning : WorkItem → Prop} {fault : Fault} (hresult : result = .error fault)
    (h : ¬ inGrammar) :
    Faithful inGrammar result meaning where
  reads := by simp [hresult, h]
  means := by simp [hresult]
  reduced := by simp [hresult]

section

variable {α : Type} {xs : List α} {fs : List Filter} {inGrammar : α → Prop}
  {result : α → Except Fault Filter} {meaning : α → WorkItem → Prop}

theorem exists_map_eq_ok_iff (h : ∀ x ∈ xs, Faithful (inGrammar x) (result x) (meaning x)) :
    (∃ fs : List Filter, xs.map result = fs.map .ok) ↔ ∀ x ∈ xs, inGrammar x := by
  induction xs with
  | nil => simp
  | cons x rest ih =>
    have hx := (h x List.mem_cons_self).reads
    have hrest := ih fun y hy => h y (List.mem_cons_of_mem _ hy)
    rw [List.forall_mem_cons, ← hx, ← hrest]
    constructor
    · rintro ⟨fs, hfs⟩
      cases fs with
      | nil => simp at hfs
      | cons f gs => exact ⟨⟨f, (List.cons.inj hfs).1⟩, gs, (List.cons.inj hfs).2⟩
    · rintro ⟨⟨f, hf⟩, gs, hgs⟩
      exact ⟨f :: gs, by rw [List.map_cons, List.map_cons, hf, hgs]⟩

/-- A list of parts and the trees that they are read as say the same, all together. -/
theorem forall_holdsFor_iff (h : ∀ x ∈ xs, Faithful (inGrammar x) (result x) (meaning x))
    (hfs : xs.map result = fs.map .ok) :
    (∀ f ∈ fs, f.holdsFor item = true) ↔ ∀ x ∈ xs, meaning x item := by
  induction xs generalizing fs with
  | nil => simp [List.map_eq_nil_iff.mp hfs.symm]
  | cons x rest ih =>
    obtain ⟨f, gs, rfl, hf, hgs⟩ := List.map_eq_cons_iff.mp hfs.symm
    have hx := (h x List.mem_cons_self).means f hf.symm item
    have hrest := ih (fun y hy => h y (List.mem_cons_of_mem _ hy)) hgs.symm
    rw [List.forall_mem_cons, List.forall_mem_cons, hx, hrest]

/-- A list of parts and the trees that they are read as say the same, one for another. -/
theorem exists_holdsFor_iff (h : ∀ x ∈ xs, Faithful (inGrammar x) (result x) (meaning x))
    (hfs : xs.map result = fs.map .ok) :
    (∃ f ∈ fs, f.holdsFor item = true) ↔ ∃ x ∈ xs, meaning x item := by
  induction xs generalizing fs with
  | nil => simp [List.map_eq_nil_iff.mp hfs.symm]
  | cons x rest ih =>
    obtain ⟨f, gs, rfl, hf, hgs⟩ := List.map_eq_cons_iff.mp hfs.symm
    have hx := (h x List.mem_cons_self).means f hf.symm item
    have hrest := ih (fun y hy => h y (List.mem_cons_of_mem _ hy)) hgs.symm
    simp only [List.mem_cons, exists_eq_or_imp, hx, hrest]

theorem forall_isReduced (h : ∀ x ∈ xs, Faithful (inGrammar x) (result x) (meaning x))
    (hfs : xs.map result = fs.map .ok) : ∀ f ∈ fs, f.IsReduced := by
  intro f hf
  obtain ⟨x, hx, hread⟩ := exists_of_map_eq hfs hf
  exact (h x hx).reduced f hread

end

/-- An object is read faithfully if its members are. -/
theorem faithful_object {members : List (String × Json)}
    (h : ∀ e ∈ members, Faithful (IsCondition catalog e.1 e.2) (ofMember catalog e.1 e.2)
      fun item => MeetsCondition catalog item e.1 e.2) :
    Faithful (IsFilter catalog (.object members)) (ofJson catalog (.object members))
      fun item => Meets catalog item (.object members) := by
  refine ⟨?_, fun f hf item => ?_, fun f hf => ?_⟩
  · have hmembers : IsFilter catalog (.object members) ↔
        ∀ e ∈ members, IsCondition catalog e.1 e.2 :=
      ⟨fun hfilter => by cases hfilter with | object hm => exact hm, .object⟩
    rw [hmembers, ← exists_map_eq_ok_iff h]
    constructor
    · rintro ⟨f, hf⟩
      obtain ⟨fs, hfs, -⟩ := ofJson_object_eq_ok_iff.mp hf
      exact ⟨fs, hfs⟩
    · rintro ⟨fs, hfs⟩
      exact ⟨joinAll fs, ofJson_object_eq_ok_iff.mpr ⟨fs, hfs, rfl⟩⟩
  · obtain ⟨fs, hfs, rfl⟩ := ofJson_object_eq_ok_iff.mp hf
    rw [holdsFor_joinAll, forall_holdsFor_iff h hfs]
    exact ⟨.object, fun hmeets => by cases hmeets with | object hm => exact hm⟩
  · obtain ⟨fs, hfs, rfl⟩ := ofJson_object_eq_ok_iff.mp hf
    exact isReduced_joinAll (forall_isReduced h hfs)

/-- A member under the name of a field is read faithfully. -/
theorem faithful_equality {key : String} (hand : key ≠ andKey) (hor : key ≠ orKey) (j : Json) :
    Faithful (IsCondition catalog key j) (ofMember catalog key j)
      fun item => MeetsCondition catalog item key j := by
  rw [ofMember_of_joinOf?_none (joinOf?_eq_none_iff.mpr ⟨hand, hor⟩)]
  refine ⟨?_, fun f hf item => ?_, fun f hf => ?_⟩
  · constructor
    · rintro ⟨f, hf⟩
      obtain ⟨hkey, v, hv, -⟩ := equality_eq_ok_iff.mp hf
      exact .equality hand hor hkey hv
    · intro h
      cases h with
      | group hkey => exact absurd hkey (by simp [hand, hor])
      | equality _ _ hkey hv => exact ⟨_, equality_eq_ok_iff.mpr ⟨hkey, _, hv, rfl⟩⟩
  · obtain ⟨-, v, hv, rfl⟩ := equality_eq_ok_iff.mp hf
    rw [holdsFor_equals, holdsField]
    constructor
    · intro h
      split at h
      · next stored hstored => exact .equality hand hor hv hstored (beq_iff_eq.mp h)
      · simp at h
    · intro h
      cases h with
      | every hkey => exact absurd hkey hand
      | some hkey => exact absurd hkey hor
      | equality _ _ hw hstored heq =>
        rw [hstored, hv.unique hw]
        exact beq_iff_eq.mpr heq
  · obtain ⟨-, v, -, rfl⟩ := equality_eq_ok_iff.mp hf
    exact .equals key v

/-- A group is read faithfully if its entries are. -/
theorem faithful_group {key : String} (hkey : key = andKey ∨ key = orKey) {items : List Json}
    (h : ∀ j ∈ items, Faithful (IsFilter catalog j) (ofJson catalog j)
      fun item => Meets catalog item j) :
    Faithful (IsCondition catalog key (.array items)) (ofMember catalog key (.array items))
      fun item => MeetsCondition catalog item key (.array items) := by
  have hreads : ∀ {join}, joinOf? key = some join →
      ((∃ f, ofMember catalog key (.array items) = .ok f) ↔
        IsCondition catalog key (.array items)) := by
    intro join hjoin
    constructor
    · rintro ⟨f, hf⟩
      obtain ⟨fs, hne, hlist, -⟩ := (ofMember_array_eq_ok_iff hjoin).mp hf
      exact .group hkey (fun hnil => hne (by simpa [hnil, eq_comm] using hlist))
        ((exists_map_eq_ok_iff h).mp ⟨fs, hlist⟩)
    · intro hgroup
      cases hgroup with
      | group _ hne hentries =>
        obtain ⟨fs, hlist⟩ := (exists_map_eq_ok_iff h).mpr hentries
        exact ⟨join fs, (ofMember_array_eq_ok_iff hjoin).mpr
          ⟨fs, fun hnil => hne (by simpa [hnil] using hlist), hlist, rfl⟩⟩
      | equality hand hor => exact absurd hkey (by simp [hand, hor])
  have hdistinct : orKey ≠ andKey := by decide
  rcases hkey with rfl | rfl
  · have hjoin : joinOf? andKey = some joinAll := by simp [joinOf?]
    refine ⟨hreads hjoin, fun f hf item => ?_, fun f hf => ?_⟩
    · obtain ⟨fs, -, hfs, rfl⟩ := (ofMember_array_eq_ok_iff hjoin).mp hf
      rw [holdsFor_joinAll, forall_holdsFor_iff h hfs]
      constructor
      · exact .every rfl
      · intro hmeets
        cases hmeets with
        | every _ hentries => exact hentries
        | some hkey => exact absurd hkey.symm hdistinct
        | equality hand => exact absurd rfl hand
    · obtain ⟨fs, -, hfs, rfl⟩ := (ofMember_array_eq_ok_iff hjoin).mp hf
      exact isReduced_joinAll (forall_isReduced h hfs)
  · have hjoin : joinOf? orKey = some joinAny := by simp [joinOf?, hdistinct]
    refine ⟨hreads hjoin, fun f hf item => ?_, fun f hf => ?_⟩
    · obtain ⟨fs, -, hfs, rfl⟩ := (ofMember_array_eq_ok_iff hjoin).mp hf
      rw [holdsFor_joinAny, exists_holdsFor_iff h hfs]
      constructor
      · rintro ⟨j, hj, hmeets⟩
        exact .some rfl hj hmeets
      · intro hmeets
        cases hmeets with
        | every hkey => exact absurd hkey hdistinct
        | some _ hj hentry => exact ⟨_, hj, hentry⟩
        | equality _ hor => exact absurd rfl hor
    · obtain ⟨fs, hne, hfs, rfl⟩ := (ofMember_array_eq_ok_iff hjoin).mp hf
      exact isReduced_joinAny hne (forall_isReduced h hfs)

/-- What is no list is no group. -/
theorem faithful_noArray {key : String} (hkey : key = andKey ∨ key = orKey) {j : Json}
    (hj : ∀ items, j ≠ .array items) :
    Faithful (IsCondition catalog key j) (ofMember catalog key j)
      fun item => MeetsCondition catalog item key j := by
  have hcondition : ¬ IsCondition catalog key j := by
    intro h
    cases h with
    | group => exact hj _ rfl
    | equality hand hor => exact absurd hkey (by simp [hand, hor])
  obtain ⟨join, hjoin⟩ : ∃ join, joinOf? key = some join :=
    Option.ne_none_iff_exists'.mp fun hnone => by
      have hkeys := joinOf?_eq_none_iff.mp hnone
      exact absurd hkey (by simp [hkeys])
  cases hf : ofMember catalog key j with
  | error fault => exact .of_error rfl hcondition
  | ok f =>
    obtain ⟨items, _, hitems, -⟩ := (ofMember_eq_ok_iff hjoin).mp hf
    exact absurd hitems (hj items)

/-- A document is read if it is a filter, and its tree says what it says; so is every member. -/
theorem faithful_ofJson (catalog : Catalog) (j : Json) :
    (Faithful (IsFilter catalog j) (ofJson catalog j) fun item => Meets catalog item j) ∧
      ∀ key, Faithful (IsCondition catalog key j) (ofMember catalog key j)
        fun item => MeetsCondition catalog item key j := by
  have hmember : ∀ j, (∀ items, j ≠ .array items) → ∀ key,
      Faithful (IsCondition catalog key j) (ofMember catalog key j)
        fun item => MeetsCondition catalog item key j := by
    intro j hj key
    by_cases hkey : key = andKey ∨ key = orKey
    · exact faithful_noArray hkey hj
    · exact faithful_equality (fun h => hkey (.inl h)) (fun h => hkey (.inr h)) j
  induction j using Json.induction with
  | array items ih =>
    refine ⟨.of_error rfl (fun h => nomatch h), fun key => ?_⟩
    by_cases hkey : key = andKey ∨ key = orKey
    · exact faithful_group hkey fun j hj => (ih j hj).1
    · exact faithful_equality (fun h => hkey (.inl h)) (fun h => hkey (.inr h)) _
  | object members ih =>
    exact ⟨faithful_object fun e he => (ih e he).2 e.1, hmember _ (by simp)⟩
  | _ => exact ⟨.of_error rfl (fun h => nomatch h), hmember _ (by simp)⟩

/-- What is read of a text has no idle groups. -/
theorem isReduced_of_read {catalog : Catalog} {text : String} {f : Filter}
    (h : read catalog text = .ok f) : f.IsReduced := by
  unfold read at h
  simp only at h
  split at h
  · exact Except.ok.inj h ▸ .all
  · split at h
    · next j _ => exact (faithful_ofJson catalog j).1.reduced f h
    · exact nomatch h

/-- A text is read if it is blank or a document that is a filter. What it is read as holds for an
item if the item is as the text says, and has no idle groups. -/
theorem reads_grammar (catalog : Catalog) (text : String) :
    ((∃ f, read catalog text = .ok f) ↔ IsText catalog text) ∧
      ∀ f, read catalog text = .ok f →
        (∀ item, f.holdsFor item = true ↔ MeetsText catalog text item) ∧ f.IsReduced := by
  unfold read IsText MeetsText
  by_cases hblank : Text.trim text = ""
  · simp only [hblank, true_or, iff_true]
    refine ⟨⟨.all, rfl⟩, fun f hf => ?_⟩
    rw [← Except.ok.inj hf]
    exact ⟨holdsFor_all_iff, .all⟩
  · have hempty : (Text.trim text).isEmpty = false := by simpa using hblank
    simp only [hblank, hempty, false_or, Bool.false_eq_true, if_false]
    cases Json.read? (Text.trim text) with
    | none => simp
    | some j =>
      have hj := (faithful_ofJson catalog j).1
      simp only [Option.some.injEq, exists_eq_left']
      exact ⟨hj.reads, fun f hf => ⟨hj.means f hf, hj.reduced f hf⟩⟩

end Filter

end Backlog
