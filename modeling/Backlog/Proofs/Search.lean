import Backlog.Proofs.BuiltTables
import Backlog.Proofs.Clauses

/-!
# Searching tables

A filter is answered by going through the rows with its clause and decoding what was found. Over
tables that calls without migrations built, and whose texts and instants are plain, that is the same
as decoding all rows and keeping the items that the filter holds for: every row shows the fields of
the item that it is decoded to, the clause does not fail on any row, and it selects a row if the
filter holds for its item.

## Main results

* `Clause.isPreparable_equals` — an engine accepts the clause of every single equality;
* `Tables.scan_eq` — rows are found as a filtered list is cut;
* `Tables.Built.answers_filter` — a filter is answered with the items that it holds for.
-/

namespace Backlog

-- ---------------------------------------------------------------------------
-- Filters that are read
-- ---------------------------------------------------------------------------

namespace Filter

variable {catalog : Catalog}

theorem areGrouped_iff {fs : List Filter} :
    isGrouped.areGrouped fs = true ↔ ∀ f ∈ fs, f.isGrouped = true := by
  induction fs with
  | nil => simp [isGrouped.areGrouped]
  | cons f rest ih => rw [isGrouped.areGrouped, Bool.and_eq_true, ih, List.forall_mem_cons]

theorem isGrouped_joinAll {fs : List Filter} (h : ∀ f ∈ fs, f.isGrouped = true) :
    (joinAll fs).isGrouped = true := by
  have hkept : ∀ f ∈ fs.filter fun f => !f.isAll, f.isGrouped = true := fun f hf =>
    h f (List.mem_filter.mp hf).1
  unfold joinAll
  split
  · simp [isGrouped]
  · next f hf => exact hkept f (by simp [hf])
  · next hne _ =>
    have hsome : (fs.filter fun f => !f.isAll) ≠ [] := hne
    rw [isGrouped, areGrouped_iff.mpr hkept, Bool.and_true, Bool.not_eq_true',
      List.isEmpty_eq_false_iff]
    exact hsome

theorem isGrouped_joinAny {fs : List Filter} (hne : fs ≠ []) (h : ∀ f ∈ fs, f.isGrouped = true) :
    (joinAny fs).isGrouped = true := by
  unfold joinAny
  split
  · exact h _ List.mem_cons_self
  · simp [isGrouped, areGrouped_iff.mpr h, hne]

theorem isGrouped_joinOf? {key : String} {join : List Filter → Filter} {fs : List Filter}
    (hjoin : joinOf? key = some join) (hne : fs ≠ []) (h : ∀ f ∈ fs, f.isGrouped = true) :
    (join fs).isGrouped = true := by
  unfold joinOf? at hjoin
  split at hjoin
  · rw [← Option.some.inj hjoin]
    exact isGrouped_joinAll h
  · split at hjoin
    · rw [← Option.some.inj hjoin]
      exact isGrouped_joinAny hne h
    · simp at hjoin

theorem isGrouped_equality {field : String} {j : Json} {f : Filter}
    (h : equality catalog field j = .ok f) : f.isGrouped = true := by
  unfold equality at h
  split at h
  · simp at h
  · cases hv : literal catalog field j with
    | error fault => simp [hv, Except.map] at h
    | ok v =>
      rw [hv] at h
      rw [← Except.ok.inj h]
      simp [isGrouped]

mutual

theorem isGrouped_ofMembers : ∀ {members : List (String × Json)} {fs : List Filter},
    ofMembers catalog members = .ok fs → ∀ f ∈ fs, f.isGrouped = true
  | [], fs, h => by
    rw [ofMembers] at h
    rw [← Except.ok.inj h]
    simp
  | (key, j) :: rest, fs, h => by
    rw [ofMembers] at h
    split at h
    · simp at h
    · next f hf =>
      split at h
      · simp at h
      · next gs hgs =>
        rw [← Except.ok.inj h]
        exact List.forall_mem_cons.mpr ⟨isGrouped_ofMember hf, isGrouped_ofMembers hgs⟩

theorem isGrouped_ofMember : ∀ {key : String} {j : Json} {f : Filter},
    ofMember catalog key j = .ok f → f.isGrouped = true
  | key, .array items, f, h => by
    rw [ofMember] at h
    split at h
    · exact isGrouped_equality h
    · next join hjoin =>
      split at h
      · simp at h
      · next hitems =>
        split at h
        · simp at h
        · next fs hfs =>
          obtain ⟨hgrouped, hlength⟩ := isGrouped_ofEntries hfs
          rw [← Except.ok.inj h]
          refine isGrouped_joinOf? hjoin (fun hnil => hitems ?_) hgrouped
          rw [← List.length_eq_zero_iff, ← hlength, hnil, List.length_nil]
  | key, .object members, f, h | key, .string s, f, h | key, .number n, f, h | key, .bool b, f, h
  | key, .null, f, h => by
    rw [ofMember] at h
    · split at h
      · exact isGrouped_equality h
      · simp at h
    · simp

/-- Every entry of a group is a filter whose groups have members. -/
theorem isGrouped_ofEntries : ∀ {key : String} {items : List Json} {fs : List Filter},
    ofEntries catalog key items = .ok fs →
      (∀ f ∈ fs, f.isGrouped = true) ∧ fs.length = items.length
  | key, [], fs, h => by
    rw [ofEntries] at h
    rw [← Except.ok.inj h]
    simp
  | key, .object members :: rest, fs, h => by
    rw [ofEntries] at h
    split at h
    · simp at h
    · next fs' hfs =>
      split at h
      · simp at h
      · next gs hgs =>
        obtain ⟨hgrouped, hlength⟩ := isGrouped_ofEntries hgs
        rw [← Except.ok.inj h]
        exact ⟨List.forall_mem_cons.mpr ⟨isGrouped_joinAll (isGrouped_ofMembers hfs), hgrouped⟩,
          congrArg (· + 1) hlength⟩
  | key, .array items :: rest, fs, h | key, .string s :: rest, fs, h
  | key, .number n :: rest, fs, h | key, .bool b :: rest, fs, h | key, .null :: rest, fs, h => by
    rw [ofEntries] at h
    · simp at h
    · simp

end

/-- The groups of a filter that is read have members. -/
theorem isGrouped_of_read {text : String} {f : Filter} (h : read catalog text = .ok f) :
    f.isGrouped = true := by
  unfold read at h
  simp only at h
  split at h
  · rw [← Except.ok.inj h]
    simp [isGrouped]
  · split at h
    · unfold ofJson at h
      split at h
      · next members _ =>
        unfold ofObject at h
        cases hms : ofMembers catalog members with
        | error fault => simp [hms, Except.map] at h
        | ok fs =>
          rw [hms] at h
          rw [← Except.ok.inj h]
          exact isGrouped_joinAll (isGrouped_ofMembers hms)
      · simp at h
    · simp at h

end Filter

-- ---------------------------------------------------------------------------
-- Clauses within limits
-- ---------------------------------------------------------------------------

namespace Clause

/-- A clause that is accepted next to some operands is accepted next to fewer. -/
theorem isPreparable_of_le {f : Filter} {others fewer : Nat} (hle : fewer ≤ others)
    (h : isPreparable f others = true) : isPreparable f fewer = true := by
  simp only [isPreparable, fits, Bool.and_eq_true, decide_eq_true_eq] at h ⊢
  obtain ⟨hgroups, hlimits, hcount⟩ := h
  exact ⟨hgroups, hlimits, by omega⟩

theorem timestampArms_cases (field s : String) :
    timestampArms field s = [] ∨ ∃ t : Timestamp,
      timestampArms field s = [declaredArm field t.text .timestamp] := by
  unfold timestampArms
  split
  · split
    · exact .inl rfl
    · exact .inr ⟨_, rfl⟩
  · exact .inl rfl

theorem integerArms_cases (field s : String) :
    integerArms field s = [] ∨ ∃ n : Int64, integerArms field s = [integerArm field n.toInt] := by
  unfold integerArms
  split
  · exact .inr ⟨_, rfl⟩
  · exact .inl rfl

theorem boolArms_cases (field s : String) :
    boolArms field s = [] ∨ ∃ b, boolArms field s = [boolArm field b] := by
  unfold boolArms
  split
  · exact .inr ⟨_, rfl⟩
  · split
    · exact .inr ⟨_, rfl⟩
    · exact .inl rfl

theorem microsArms_cases (field : String) (n : Int) :
    microsArms field n = [] ∨ ∃ t : Timestamp,
      microsArms field n = [declaredArm field t.text .timestamp] := by
  unfold microsArms
  split
  · exact .inr ⟨_, rfl⟩
  · exact .inl rfl

/-- Whether a clause of one equality lies within all limits. -/
def IsSmall (c : Clause) : Prop :=
  c.stackDepth ≤ greatestStackDepth ∧ c.height + c.queryHeight ≤ greatestHeight ∧
    1 + c.operandCount + 2 ≤ greatestOperandCount

instance (c : Clause) : Decidable c.IsSmall := inferInstanceAs (Decidable (_ ∧ _ ∧ _))

theorem isSmall_ofText (field s : String) : (ofText field s).IsSmall := by
  unfold ofText
  rcases timestampArms_cases field s with ht | ⟨t, ht⟩ <;>
    rcases integerArms_cases field s with hi | ⟨n, hi⟩ <;>
    rcases boolArms_cases field s with hb | ⟨b, hb⟩ <;>
    rw [ht, hi, hb] <;> exact of_decide_eq_true rfl

/-- **One equality lies within all limits of an engine**: its clause has four arms at most. -/
theorem isPreparable_equals (field : String) (w : FieldValue) :
    isPreparable (.equals field w) 2 = true := by
  have hsmall : (ofEquality field w).IsSmall := by
    cases w with
    | string s => exact isSmall_ofText field s
    | identifier s => exact isSmall_ofText field s
    | integer n =>
      rw [ofEquality]
      rcases microsArms_cases field n.toInt with hm | ⟨t, hm⟩ <;>
        rw [hm] <;> exact of_decide_eq_true rfl
    | bool b => exact of_decide_eq_true rfl
    | timestamp t => exact of_decide_eq_true rfl
  obtain ⟨hdepth, hheight, hcount⟩ := hsmall
  simp [isPreparable, fits, ofFilter, Filter.isGrouped, Filter.equalityCount, hdepth, hheight,
    hcount]

end Clause

-- ---------------------------------------------------------------------------
-- Plain tables
-- ---------------------------------------------------------------------------

/-- Whether what a field of a kind holds is plain: a text has no character zero, and in place of an
instant there is a plain one. -/
def FieldValue.isPlainIn (kind : FieldKind) : FieldValue → Bool
  | .string s | .identifier s => Text.isUnbroken s && kind != .timestamp
  | .timestamp t => t.isPlain
  | _ => true

theorem FieldValue.Fits.plain {kind : FieldKind} {v : FieldValue} (h : Fits kind v)
    (hv : v.isPlainIn kind = true) : Plain kind v := by
  cases h with
  | string s =>
    rw [isPlainIn, Bool.and_eq_true] at hv
    exact .string hv.1
  | integer n => exact .integer n
  | bool b => exact .bool b
  | timestamp t => exact .timestamp hv
  | signed h =>
    -- a text is in the place of an instant
    rw [isPlainIn, Bool.and_eq_true] at hv
    exact absurd hv.2 (by decide)
  | identifier h =>
    rw [isPlainIn, Bool.and_eq_true] at hv
    exact .identifier h hv.1

namespace ItemType

/-- Whether the names of the fields of a type hold no character zero. -/
def hasPlainNames (type : ItemType) : Bool := type.fields.all fun d => Text.isUnbroken d.name

/-- Whether what an item of a type holds is plain. -/
def hasPlainFields (type : ItemType) (fields : Fields) : Bool :=
  fields.toList.all fun e =>
    match type.field? e.1 with
    | some d => e.2.isPlainIn d.kind
    | none => true

end ItemType

namespace Tables

/-- Whether the names of declared fields and what the items hold is plain. -/
def isPlain (t : Tables) : Bool :=
  (t.types.toList.all fun e =>
    match decodeType e.1 e.2 with
    | .ok type => type.hasPlainNames
    | .error _ => true) &&
  t.items.toList.all fun e =>
    match t.type? e.2.typeName, t.decodeItem e.1 e.2 with
    | .ok (some type), .ok item => type.hasPlainFields item.fields
    | _, _ => true

variable {t : Tables}

/-- A row shows the document that it holds. -/
theorem fields_viewOf {r : ItemRow} {fields : Fields}
    (hdoc : r.fields = .ofTree (Document.ofFields fields)) :
    (t.viewOf r).fields = Document.ofFields fields := by
  show r.fields.tree = _
  rw [hdoc]
  rfl

/-- A row shows what its type declares. -/
theorem Declared.definitions_viewOf (h : t.Declared) {r : ItemRow} {type : ItemType}
    (htype : t.type? r.typeName = .ok (some type)) :
    (t.viewOf r).definitions = Document.ofDefinitions type.fields := by
  show ((t.types.get? r.typeName).map StoredDocument.tree).getD .null = _
  rw [(h.type?_held htype).1]
  rfl

/-- A row with the document of some fields shows these fields and what its type declares. -/
theorem Declared.view_written (h : t.Declared)
    (hplain : (t.types.toList.all fun e =>
      match decodeType e.1 e.2 with
      | .ok type => type.hasPlainNames
      | .error _ => true) = true)
    {r : ItemRow} {type : ItemType} {fields : Fields}
    (htype : t.type? r.typeName = .ok (some type))
    (hdoc : r.fields = .ofTree (Document.ofFields fields)) : (t.viewOf r).Written type fields := by
  obtain ⟨hheld, hname, hdistinct⟩ := h.type?_held htype
  refine ⟨fields_viewOf hdoc, h.definitions_viewOf htype, hdistinct, ?_⟩
  have hentry := List.all_eq_true.mp hplain _ (SortedMap.mem_entries_iff.mpr hheld)
  simp only [← hname, decodeType_definitionsOf] at hentry
  exact List.all_eq_true.mp hentry

/-- What a row of plain tables holds is plain in the kinds that its type declares. -/
theorem Typed.plainRow (h : t.Typed) (hplain : t.isPlain = true) {row : Int} {r : ItemRow}
    (hr : t.items.get? row = some r) :
    ∃ type fields, t.type? r.typeName = .ok (some type) ∧
      t.decodeItem row r = .ok ⟨.ofRow row, r.typeName, r.version, fields⟩ ∧
      r.fields = .ofTree (Document.ofFields fields) ∧
      ∀ name v, fields.get? name = some v →
        ∃ d, type.field? name = some d ∧ FieldValue.Plain d.kind v := by
  obtain ⟨type, fields, htype, hdecode, hholds, hdoc⟩ := h.decodeItem_ok hr
  refine ⟨type, fields, htype, hdecode, hdoc, fun name v hv => ?_⟩
  obtain ⟨d, hd, hfits⟩ := hholds name v hv
  have hentry := List.all_eq_true.mp (Bool.and_eq_true_iff.mp hplain).2 _
    (SortedMap.mem_entries_iff.mpr hr)
  simp only [htype, hdecode] at hentry
  have hvalue := List.all_eq_true.mp hentry _ (SortedMap.mem_entries_iff.mpr hv)
  simp only [hd] at hvalue
  exact ⟨d, hd, hfits.plain hvalue⟩

/-- A row of plain tables shows the fields of the item that it is decoded to. -/
theorem Typed.shows (h : t.Typed) (hplain : t.isPlain = true) {row : Int} {r : ItemRow}
    (hr : t.items.get? row = some r) :
    ∃ type fields, t.decodeItem row r = .ok ⟨.ofRow row, r.typeName, r.version, fields⟩ ∧
      (t.viewOf r).Shows type fields := by
  obtain ⟨type, fields, htype, hdecode, hdoc, hfields⟩ := h.plainRow hplain hr
  obtain ⟨hwritten, hdefinitions, hdistinct, hnames⟩ :=
    h.types.view_written (Bool.and_eq_true_iff.mp hplain).1 htype hdoc
  exact ⟨type, fields, hdecode, hwritten, hdefinitions, hdistinct, hnames, hfields⟩

-- ---------------------------------------------------------------------------
-- Going through rows
-- ---------------------------------------------------------------------------

/-- Rows are found as the list of those that the clause selects is cut. -/
theorem scan_eq {c : Clause} {rows : List (Int × ItemRow)} (out wanted : Nat)
    (h : ∀ e ∈ rows, c.outcome (t.viewOf e.2) ≠ .fault) :
    t.scan c out wanted rows =
      some (((rows.filter fun e => c.outcome (t.viewOf e.2) == .yes).drop out).take wanted) := by
  induction rows generalizing out wanted with
  | nil => simp [scan]
  | cons e rest ih =>
    have hsafe := h e List.mem_cons_self
    have hrest : ∀ x ∈ rest, c.outcome (t.viewOf x.2) ≠ .fault := by
      intro x hx
      exact h x (List.mem_cons_of_mem e hx)
    cases wanted with
    | zero => simp [scan]
    | succ wanted =>
      rw [List.filter_cons]
      unfold scan
      cases houtcome : c.outcome (t.viewOf e.2) with
      | fault => exact absurd houtcome hsafe
      | no => exact ih out (wanted + 1) hrest
      | unknown => exact ih out (wanted + 1) hrest
      | yes =>
        cases out with
        | zero =>
          simp only [ih 0 wanted hrest, Option.map_some]
          rfl
        | succ out => exact ih out (wanted + 1) hrest

theorem decodeItems_cons {e : Int × ItemRow} {rest : List (Int × ItemRow)} {items : List WorkItem}
    (h : t.decodeItems (e :: rest) = .ok items) :
    ∃ i is, t.decodeItem e.1 e.2 = .ok i ∧ t.decodeItems rest = .ok is ∧ items = i :: is := by
  rw [decodeItems] at h
  split at h
  · exact nomatch h
  · next i hi =>
    cases hrest : t.decodeItems rest with
    | error fault =>
      rw [hrest] at h
      exact nomatch h
    | ok is =>
      rw [hrest] at h
      exact ⟨i, is, hi, rfl, (Except.ok.inj h).symm⟩

theorem decodeItems_cons_ok {e : Int × ItemRow} {rest : List (Int × ItemRow)} {i : WorkItem}
    {is : List WorkItem} (hi : t.decodeItem e.1 e.2 = .ok i) (his : t.decodeItems rest = .ok is) :
    t.decodeItems (e :: rest) = .ok (i :: is) := by
  rw [decodeItems]
  simp only [hi, his]
  rfl

theorem decodeItems_nil {items : List WorkItem} (h : t.decodeItems [] = .ok items) :
    items = [] :=
  (Except.ok.inj h).symm

theorem decodeItems_ok {rows : List (Int × ItemRow)}
    (h : ∀ e ∈ rows, ∃ i, t.decodeItem e.1 e.2 = .ok i) :
    ∃ items, t.decodeItems rows = .ok items := by
  induction rows with
  | nil => exact ⟨[], rfl⟩
  | cons e rest ih =>
    obtain ⟨i, hi⟩ := h e List.mem_cons_self
    obtain ⟨is, his⟩ := ih fun x hx => h x (List.mem_cons_of_mem e hx)
    exact ⟨i :: is, decodeItems_cons_ok hi his⟩

section

variable {rows : List (Int × ItemRow)} {items : List WorkItem}

/-- Decoding the rows that are selected gives the items that are. -/
theorem decodeItems_filter {p : Int × ItemRow → Bool} {q : WorkItem → Bool}
    (h : t.decodeItems rows = .ok items)
    (hsame : ∀ e ∈ rows, ∀ i, t.decodeItem e.1 e.2 = .ok i → p e = q i) :
    t.decodeItems (rows.filter p) = .ok (items.filter q) := by
  induction rows generalizing items with
  | nil =>
    obtain rfl := decodeItems_nil h
    rfl
  | cons e rest ih =>
    obtain ⟨i, is, hi, his, rfl⟩ := decodeItems_cons h
    have hrest := ih his fun x hx => hsame x (List.mem_cons_of_mem e hx)
    rw [List.filter_cons, List.filter_cons, hsame e List.mem_cons_self i hi]
    split
    · exact decodeItems_cons_ok hi hrest
    · exact hrest

theorem decodeItems_drop (n : Nat) (h : t.decodeItems rows = .ok items) :
    t.decodeItems (rows.drop n) = .ok (items.drop n) := by
  induction n generalizing rows items with
  | zero => exact h
  | succ n ih =>
    cases rows with
    | nil =>
      obtain rfl := decodeItems_nil h
      rfl
    | cons e rest =>
      obtain ⟨i, is, -, his, rfl⟩ := decodeItems_cons h
      exact ih his

theorem decodeItems_take (n : Nat) (h : t.decodeItems rows = .ok items) :
    t.decodeItems (rows.take n) = .ok (items.take n) := by
  induction n generalizing rows items with
  | zero => simp [decodeItems]
  | succ n ih =>
    cases rows with
    | nil =>
      obtain rfl := decodeItems_nil h
      rfl
    | cons e rest =>
      obtain ⟨i, is, hi, his, rfl⟩ := decodeItems_cons h
      exact decodeItems_cons_ok hi (ih his)

theorem mem_of_decodeItem {e : Int × ItemRow} {i : WorkItem} (h : t.decodeItems rows = .ok items)
    (he : e ∈ rows) (hi : t.decodeItem e.1 e.2 = .ok i) : i ∈ items := by
  induction rows generalizing items with
  | nil => simp at he
  | cons x rest ih =>
    obtain ⟨j, is, hj, his, rfl⟩ := decodeItems_cons h
    rcases List.mem_cons.mp he with rfl | he
    · rw [hj] at hi
      rw [Except.ok.inj hi]
      exact List.mem_cons_self
    · exact List.mem_cons_of_mem j (ih his he)

/-- Items have the ids of their rows. -/
theorem id_decodeItem {row : Int} {r : ItemRow} {i : WorkItem} (h : t.decodeItem row r = .ok i) :
    i.id = .ofRow row := by
  unfold decodeItem at h
  split at h
  · exact nomatch h
  · split at h
    · rw [← Except.ok.inj h]
    · exact nomatch h

theorem ids_decodeItems (h : t.decodeItems rows = .ok items) :
    items.map WorkItem.id = rows.map fun e => .ofRow e.1 := by
  induction rows generalizing items with
  | nil =>
    obtain rfl := decodeItems_nil h
    rfl
  | cons e rest ih =>
    obtain ⟨i, is, hi, his, rfl⟩ := decodeItems_cons h
    rw [List.map_cons, List.map_cons, id_decodeItem hi, ih his]

/-- There are as many items as rows, each with the id of its row. -/
theorem length_decodeItems (h : t.decodeItems rows = .ok items) : items.length = rows.length := by
  have hids := congrArg List.length (ids_decodeItems h)
  rwa [List.length_map, List.length_map] at hids

end

/-- The clause of a filter does not fail on any row, and selects those of the items that the filter
holds for. -/
structure Sees (t : Tables) (f : Filter) (items : List WorkItem) : Prop where
  all : t.decodeItems t.items.toList = .ok items
  safe : ∀ e ∈ t.items.toList, (Clause.ofFilter f).outcome (t.viewOf e.2) ≠ .fault
  selects : ∀ e ∈ t.items.toList, ∀ i, t.decodeItem e.1 e.2 = .ok i →
    ((Clause.ofFilter f).outcome (t.viewOf e.2) = .yes ↔ f.holdsFor i = true)

namespace Sees

variable {f : Filter} {items : List WorkItem}

theorem found (h : t.Sees f items) :
    t.decodeItems (t.items.toList.filter fun e =>
        (Clause.ofFilter f).outcome (t.viewOf e.2) == .yes) =
      .ok (items.filter f.holdsFor) := by
  refine decodeItems_filter h.all fun e he i hi => ?_
  rw [Bool.eq_iff_iff, beq_iff_eq]
  exact h.selects e he i hi

theorem fetchItems (h : t.Sees f items) (hready : Clause.isPreparable f 2 = true)
    (offset limit : UInt64) :
    t.fetchItems f offset limit =
      .ok (((items.filter f.holdsFor).drop offset.toNat).take limit.toNat) := by
  unfold Tables.fetchItems prepare
  simp only [hready, if_true, scan_eq offset.toNat limit.toNat h.safe]
  exact decodeItems_take _ (decodeItems_drop _ h.found)

theorem countItems (h : t.Sees f items) (hready : Clause.isPreparable f 0 = true) :
    t.countItems f = .ok (items.filter f.holdsFor).length := by
  have hshort := List.length_filter_le
    (fun e : Int × ItemRow => (Clause.ofFilter f).outcome (t.viewOf e.2) == .yes) t.items.toList
  unfold Tables.countItems prepare
  simp only [hready, if_true, scan_eq 0 t.items.toList.length h.safe, List.drop_zero,
    List.take_of_length_le hshort, length_decodeItems h.found]

end Sees

-- ---------------------------------------------------------------------------
-- Answers
-- ---------------------------------------------------------------------------

/-- Tables with some items answer a filter with those that it holds for. -/
structure Answers (t : Tables) (f : Filter) (items : List WorkItem) : Prop where
  /-- The items are those of all rows. -/
  all : t.decodeItems t.items.toList = .ok items
  /-- Their ids name rows in ascending order. -/
  ascending : ∃ rows : List Int, rows.Pairwise (· < ·) ∧ items.map WorkItem.id = rows.map .ofRow
  /-- The clause of the filter selects the rows with items that the filter holds for. -/
  selected : ∀ row r, t.items.get? row = some r → ∃ i ∈ items, t.decodeItem row r = .ok i ∧
    ((Clause.ofFilter f).outcome (t.viewOf r) = .yes ↔ f.holdsFor i = true)
  /-- Fetching cuts the list of these items, -/
  fetched : Clause.fits f 2 = true → ∀ offset limit,
    t.fetchItems f offset limit =
      .ok (((items.filter f.holdsFor).drop offset.toNat).take limit.toNat)
  /-- and over the whole range it gives all of them. -/
  fetchedAll : Clause.fits f 2 = true → ∀ limit : UInt64, items.length ≤ limit.toNat →
    t.fetchItems f 0 limit = .ok (items.filter f.holdsFor)
  counted : Clause.fits f 0 = true → t.countItems f = .ok (items.filter f.holdsFor).length

/-- **Tables that calls without migrations built answer a filter with the items that it holds for**,
if what they hold is plain, the groups of the filter have members, its names are written without
escapes and its literals are exact. -/
theorem Built.answers_filter (hbuilt : t.Built) (hplain : t.isPlain = true) {f : Filter}
    (hgroups : f.isGrouped = true) (hf : f.isExact = true) : ∃ items, t.Answers f items := by
  have hshows : ∀ e ∈ t.items.toList, ∃ type i, t.decodeItem e.1 e.2 = .ok i ∧
      (t.viewOf e.2).Shows type i.fields := by
    rintro ⟨row, r⟩ he
    obtain ⟨type, fields, hdecode, hshown⟩ :=
      hbuilt.typed.shows hplain (SortedMap.mem_entries_iff.mp he)
    exact ⟨type, _, hdecode, hshown⟩
  obtain ⟨items, hitems⟩ := decodeItems_ok fun e he =>
    let ⟨_, i, hi, _⟩ := hshows e he
    ⟨i, hi⟩
  have hselected : ∀ e ∈ t.items.toList, ∀ i, t.decodeItem e.1 e.2 = .ok i →
      ((Clause.ofFilter f).outcome (t.viewOf e.2) == .yes) = f.holdsFor i := by
    intro e he i hi
    obtain ⟨type, i', hi', hshown⟩ := hshows e he
    rw [hi] at hi'
    obtain rfl := Except.ok.inj hi'
    rw [Bool.eq_iff_iff, beq_iff_eq, Clause.outcome_eq_yes_iff]
    exact Clause.eval_ofFilter_iff hshown f hf
  have hsafe : ∀ e ∈ t.items.toList, (Clause.ofFilter f).outcome (t.viewOf e.2) ≠ .fault := by
    intro e he
    obtain ⟨type, i, -, hshown⟩ := hshows e he
    exact Clause.outcome_ofFilter_ne_fault hshown hf
  have hfound := decodeItems_filter hitems hselected
  have hfetched : Clause.fits f 2 = true → ∀ offset limit,
      t.fetchItems f offset limit =
        .ok (((items.filter f.holdsFor).drop offset.toNat).take limit.toNat) := by
    intro hfits offset limit
    have hready : Clause.isPreparable f 2 = true := by rw [Clause.isPreparable, hgroups, hfits]; rfl
    unfold fetchItems prepare
    simp only [hready, if_true, scan_eq offset.toNat limit.toNat hsafe]
    exact decodeItems_take _ (decodeItems_drop _ hfound)
  refine ⟨items, hitems, ⟨t.items.keys, ?_, ?_⟩, ?_, hfetched, ?_, ?_⟩
  · rw [SortedMap.keys, List.pairwise_map]
    exact t.items.sorted.imp Int.compare_eq_lt.mp
  · rw [ids_decodeItems hitems, SortedMap.keys, List.map_map]
    rfl
  · intro row r hr
    have he : (row, r) ∈ t.items.toList := SortedMap.mem_entries_iff.mpr hr
    obtain ⟨-, i, hi, -⟩ := hshows _ he
    refine ⟨i, mem_of_decodeItem hitems he hi, hi, ?_⟩
    rw [← hselected _ he i hi, beq_iff_eq]
  · intro hfits limit hlimit
    have hlength := List.length_filter_le f.holdsFor items
    rw [hfetched hfits, show (0 : UInt64).toNat = 0 from rfl, List.drop_zero,
      List.take_of_length_le (by omega)]
  · intro hfits
    have hready : Clause.isPreparable f 0 = true := by rw [Clause.isPreparable, hgroups, hfits]; rfl
    have hcount := length_decodeItems hfound
    have hshort := List.length_filter_le
      (fun e : Int × ItemRow => (Clause.ofFilter f).outcome (t.viewOf e.2) == .yes) t.items.toList
    unfold countItems prepare
    simp only [hready, if_true, scan_eq 0 t.items.toList.length hsafe, List.drop_zero,
      List.take_of_length_le hshort, hcount]

/-- A client that publishes a type of tasks and makes three of them, one of which it changes and one
of which it removes again. -/
def taskPlanner : Visit :=
  let task : ItemType :=
    ⟨"task",
      [⟨"due", .timestamp, false⟩, ⟨"owner", .identifier, false⟩, ⟨"points", .integer, true⟩]⟩
  let fields (due : String) (points : Int) : Payload :=
    .ofList [("due", .string due), ("owner", .int 12), ("points", .int points)]
  ⟨∅, .default, .new,
    [⟨.publish task, false⟩,
     ⟨.create "task" (fields "2024-01-01T00:00:00Z" 3) ⟨"ann"⟩, false⟩,
     ⟨.create "task" (fields "2024-01-01T00:00:00Z" 5) ⟨"ann"⟩, false⟩,
     ⟨.create "task" (fields "2024-06-30T12:00:00Z" 3) ⟨"ann"⟩, false⟩,
     ⟨.save ⟨⟨"2"⟩, 0, .ofList [("points", .int 3)]⟩, false⟩,
     ⟨.delete ⟨"3"⟩, false⟩]⟩

/-- Tasks that are due at an instant, told in another zone, or that have no points, and that have a
number as their owner. -/
def dueTasks : Filter :=
  .and [.or [.equals "due" (.string "2024-01-01T01:00:00+01:00"), .equals "points" (.string "0")],
    .equals "owner" (.integer 12)]

/-- Both tasks that are left are found. -/
theorem answers_filter_dueTasks :
    (taskPlanner.after Tables.new).Built ∧ (taskPlanner.after Tables.new).isPlain = true ∧
      dueTasks.isGrouped = true ∧ dueTasks.isExact = true ∧ Clause.fits dueTasks 2 = true ∧
      ((taskPlanner.after Tables.new).fetchItems dueTasks 0 10).toOption.map
        (List.map WorkItem.id) = some [⟨"1"⟩, ⟨"2"⟩] ∧
      ∃ items, (taskPlanner.after Tables.new).Answers dueTasks items := by
  have hcalls : taskPlanner.IsPlain := by
    simp [Visit.IsPlain, Request.IsPlain, taskPlanner]
  have hbuilt : (taskPlanner.after Tables.new).Built := .left (.visit .new 0 taskPlanner rfl hcalls)
  have hplain : (taskPlanner.after Tables.new).isPlain = true := by decide +kernel
  have hgroups : dueTasks.isGrouped = true := by decide +kernel
  have hexact : dueTasks.isExact = true := by decide +kernel
  exact ⟨hbuilt, hplain, hgroups, hexact, by decide +kernel, by decide +kernel,
    hbuilt.answers_filter hplain hgroups hexact⟩

end Tables

end Backlog
