import Backlog.Proofs.StoredFields

/-!
# Clauses and the filters they come from

A clause looks at the document of a row, and a filter at the item that the row is decoded to. Both
meet in what is *written*: a literal is compared with a stored value by expressing the literal, as
it is written, in the kind of the value, and every arm of a clause asks for one way in which such a
value may be written. The value that the arms of a literal select in a field of some kind is
therefore the value that the literal converts to. For a text this needs that instants have one
writing only, so it is claimed for instants that are `isPlain` on both sides.

What a clause does not see is the kind of a value that is written as a text. It asks for the kind
that is declared. So a row may hold values of other kinds than declared, or of fields that are not
declared, as long as the declaration *tells* the texts of instants from instants, and those of
numbers from identifiers.

## Main results

* `Clause.eval_ofEquality_iff` — the clause of an equality holds if the field has the value of the
  literal;
* `Clause.eval_ofFilter_of_tells` — the clause of a filter holds if the filter does, where rows tell
  their fields;
* `Clause.eval_ofFilter_iff` — the same where rows show values of the declared kinds;
* `Clause.outcome_ofFilter_ne_fault` — and the clause does not fail.
-/

namespace Backlog

open Json (Tree)

-- ---------------------------------------------------------------------------
-- Filters as trees
-- ---------------------------------------------------------------------------

namespace Filter

mutual

/-- What holds of equalities and passes from members to groups holds of every filter. -/
theorem induction {P : Filter → Prop} (all : P .all)
    (equals : ∀ field value, P (.equals field value))
    (and : ∀ fs, (∀ f ∈ fs, P f) → P (.and fs)) (or : ∀ fs, (∀ f ∈ fs, P f) → P (.or fs)) :
    ∀ f, P f
  | .all => all
  | .equals field value => equals field value
  | .and fs => and fs (inductionList all equals and or fs)
  | .or fs => or fs (inductionList all equals and or fs)

theorem inductionList {P : Filter → Prop} (all : P .all)
    (equals : ∀ field value, P (.equals field value))
    (and : ∀ fs, (∀ f ∈ fs, P f) → P (.and fs)) (or : ∀ fs, (∀ f ∈ fs, P f) → P (.or fs)) :
    ∀ fs : List Filter, ∀ f ∈ fs, P f
  | [] => by simp
  | g :: rest => by
    have hg := induction all equals and or g
    have hrest := inductionList all equals and or rest
    intro f hf
    rcases List.mem_cons.mp hf with rfl | hf
    · exact hg
    · exact hrest f hf

end

mutual

/-- The equalities of a filter. -/
def leaves : Filter → List (String × FieldValue)
  | .all => []
  | .equals field value => [(field, value)]
  | .and fs => leavesOf fs
  | .or fs => leavesOf fs

/-- The equalities of filters. -/
def leavesOf : List Filter → List (String × FieldValue)
  | [] => []
  | f :: rest => leaves f ++ leavesOf rest

end

theorem mem_leavesOf {f : Filter} {fs : List Filter} {e : String × FieldValue} (hf : f ∈ fs)
    (he : e ∈ f.leaves) : e ∈ leavesOf fs := by
  induction fs with
  | nil => simp at hf
  | cons g rest ih =>
    rw [leavesOf, List.mem_append]
    rcases List.mem_cons.mp hf with rfl | hf
    · exact .inl he
    · exact .inr (ih hf)

end Filter

-- ---------------------------------------------------------------------------
-- Clauses that do not fail
-- ---------------------------------------------------------------------------

namespace Clause

variable {r : RowView} {c : Clause} {field : String}

/-- A clause of which no test can fail over a row. -/
inductive Firm (r : RowView) : Clause → Prop
  | always : Firm r .always
  | ofSort {field : String} {sort : CellSort} (h : r.isBroken field = false) :
      Firm r (.ofSort field sort)
  | isText {field text : String} (h : r.isBroken field = false) : Firm r (.isText field text)
  | isInteger {field : String} {n : Int} (h : r.isBroken field = false) :
      Firm r (.isInteger field n)
  | declared {field : String} {kind : FieldKind}
      (h : ∀ t ∈ r.definitions.parts, ∀ l, t ≠ .string l) : Firm r (.declared field kind)
  | and {cs : List Clause} (h : ∀ c ∈ cs, Firm r c) : Firm r (.and cs)
  | or {cs : List Clause} (h : ∀ c ∈ cs, Firm r c) : Firm r (.or cs)

theorem test_eq (h : r.isBroken field = false) (f : Tree → Truth) :
    r.test field f = ((r.part? field).map f).getD .unknown := by
  rw [RowView.test, h]
  rfl

theorem test_ne_fault (h : r.isBroken field = false) {f : Tree → Truth} (hf : ∀ t, f t ≠ .fault) :
    r.test field f ≠ .fault := by
  rw [test_eq h]
  cases r.part? field with
  | none => simp
  | some t => exact hf t

theorem evalAll_ne_fault {cs : List Clause} (h : ∀ c ∈ cs, eval r c ≠ .fault) :
    evalAll r cs ≠ .fault := by
  induction cs with
  | nil => simp [evalAll]
  | cons c rest ih =>
    have hc := h c List.mem_cons_self
    have hrest := ih fun d hd => h d (List.mem_cons_of_mem c hd)
    rw [evalAll]
    revert hc hrest
    cases eval r c <;> cases evalAll r rest <;> simp [Truth.both]

theorem evalAny_ne_fault {cs : List Clause} (h : ∀ c ∈ cs, eval r c ≠ .fault) :
    evalAny r cs ≠ .fault := by
  induction cs with
  | nil => simp [evalAny]
  | cons c rest ih =>
    have hc := h c List.mem_cons_self
    have hrest := ih fun d hd => h d (List.mem_cons_of_mem c hd)
    rw [evalAny]
    revert hc hrest
    cases eval r c <;> cases evalAny r rest <;> simp [Truth.either]

theorem cellIsText_ne_fault (text : String) (cell : Cell) : cellIsText text cell ≠ .fault := by
  cases cell <;> simp [cellIsText, Truth.ofBool_ne_fault]

theorem cellIsInteger_ne_fault (n : Int) (cell : Cell) : cellIsInteger n cell ≠ .fault := by
  cases cell <;> simp only [cellIsInteger] <;> first | exact Truth.ofBool_ne_fault _ | simp

namespace Firm

theorem eval_ne_fault (h : Firm r c) : eval r c ≠ .fault := by
  induction h with
  | always => simp [eval]
  | ofSort h =>
    rw [eval]
    exact test_ne_fault h fun t => Truth.ofBool_ne_fault _
  | isText h =>
    rw [eval]
    exact test_ne_fault h fun t => cellIsText_ne_fault _ _
  | isInteger h =>
    rw [eval]
    exact test_ne_fault h fun t => cellIsInteger_ne_fault _ _
  | declared h =>
    rw [eval]
    exact Declaration.declaredIn_ne_fault _ _ h
  | and _ ih =>
    rw [eval]
    exact evalAll_ne_fault ih
  | or _ ih =>
    rw [eval]
    exact evalAny_ne_fault ih

theorem mem_conditionsOf {d : Clause} {cs : List Clause} (h : d ∈ conditionsOf cs) :
    ∃ c ∈ cs, d ∈ conditions c := by
  induction cs with
  | nil => simp [conditionsOf] at h
  | cons c rest ih =>
    rw [conditionsOf, List.mem_append] at h
    rcases h with h | h
    · exact ⟨c, List.mem_cons_self, h⟩
    · obtain ⟨c', hc', hd⟩ := ih h
      exact ⟨c', List.mem_cons_of_mem c hc', hd⟩

theorem conditions (h : Firm r c) : ∀ d ∈ conditions c, Firm r d := by
  induction h with
  | always => simpa [Clause.conditions] using .always
  | ofSort h => simpa [Clause.conditions] using .ofSort h
  | isText h => simpa [Clause.conditions] using .isText h
  | isInteger h => simpa [Clause.conditions] using .isInteger h
  | declared h => simpa [Clause.conditions] using .declared h
  | and _ ih =>
    rw [Clause.conditions]
    intro d hd
    obtain ⟨c, hc, hd⟩ := mem_conditionsOf hd
    exact ih c hc d hd
  | @or cs h ih =>
    match cs with
    | [] => simpa [Clause.conditions] using .or h
    | [c] =>
      -- a group of one is its member
      rw [Clause.conditions]
      exact ih c List.mem_cons_self
    | _ :: _ :: _ => simpa [Clause.conditions] using .or h

/-- A clause of which no test can fail does not fail, in whatever order it is evaluated. -/
theorem outcome_ne_fault (h : Firm r c) : c.outcome r ≠ .fault := by
  refine evalAll_ne_fault fun d hd => ?_
  have hmem : d ∈ Clause.conditions c := by
    rcases List.mem_append.mp hd with hd | hd
    · exact (List.mem_filter.mp hd).1
    · exact (List.mem_filter.mp hd).1
  exact (h.conditions d hmem).eval_ne_fault

end Firm

end Clause

-- ---------------------------------------------------------------------------
-- Values and how they are written
-- ---------------------------------------------------------------------------

namespace FieldValue

/-- A value of a kind that has one writing only, and a writing that queries see as it is. -/
inductive Plain : FieldKind → FieldValue → Prop
  | string {s : String} (h : Text.isUnbroken s = true) : Plain .string (.string s)
  | integer (n : Int64) : Plain .integer (.integer n)
  | bool (b : Bool) : Plain .bool (.bool b)
  | timestamp {t : Timestamp} (h : t.isPlain = true) : Plain .timestamp (.timestamp t)
  | identifier {s : String} (h : isIdentifier s = true) (hs : Text.isUnbroken s = true) :
      Plain .identifier (.identifier s)

/-- The text that a value is written as. -/
def writtenText? : FieldValue → Option String
  | .string s => some s
  | .timestamp t => some t.text
  | .identifier s => some s
  | _ => none

/-- The sort of the cell that a value is written to. -/
def sort : FieldValue → CellSort
  | .string _ | .timestamp _ | .identifier _ => .text
  | .integer _ => .integer
  | .bool b => .truth b

/-- Whether the instant that a literal is, or that its text reads as, is a plain one. A literal that
is a text is asked for in the same way as a string and as an identifier. -/
def isExact : FieldValue → Bool
  | .timestamp t => t.isPlain
  | .string s | .identifier s =>
    match Timestamp.read (Text.trim s) with
    | .ok t => t.isPlain
    | .error _ => true
  | _ => true

/-- Whether a value is read back from its stored literal: an identifier that is not empty and has no
blanks, an instant of whole microseconds in a year of four digits, or any other value. -/
def comesBack : FieldValue → Bool
  | .identifier s => isIdentifier s
  | .timestamp t => t.isPlain
  | _ => true

variable {kind : FieldKind} {v literal : FieldValue}

theorem Plain.kind_eq (h : Plain kind v) : v.kind = kind := by
  cases h <;> rfl

theorem Plain.comesBack (h : Plain kind v) : v.comesBack = true := by
  cases h with
  | timestamp h => exact h
  | identifier h _ => exact h
  | _ => rfl

theorem Plain.isUnbroken (h : Plain kind v) {s : String} (hs : v.writtenText? = some s) :
    Text.isUnbroken s = true := by
  cases h with
  | string h => exact Option.some.inj hs ▸ h
  | integer n => exact nomatch hs
  | bool b => exact nomatch hs
  | timestamp h => exact Option.some.inj hs ▸ Text.isUnbroken_text _
  | identifier _ h => exact Option.some.inj hs ▸ h

theorem isOfSort_ofValue (v : FieldValue) (sort : CellSort) :
    Cell.isOfSort sort (Document.ofValue v) = true ↔ v.sort = sort := by
  have heq : Cell.isOfSort sort (Document.ofValue v) = (sort == v.sort) := by
    cases v <;> rfl
  rw [heq, beq_iff_eq]
  exact eq_comm

theorem sort_eq_truth_iff {b : Bool} : v.sort = .truth b ↔ v = .bool b := by
  cases v <;> simp [sort]

/-- The cell of a value without the character zero has the text that the value is written as. -/
theorem cell_eq_text_iff {s : String}
    (hbroken : ∀ s', v.writtenText? = some s' → Text.isUnbroken s' = true) :
    Cell.ofTree (Document.ofValue v) = .text (some s) ↔ v.writtenText? = some s := by
  cases v with
  | integer n => simp [Document.ofValue, Document.cell_ofInt, writtenText?]
  | bool b => simp [Document.ofValue, Cell.ofTree, writtenText?]
  | _ => simp [Document.ofValue, Document.cell_ofText (hbroken _ rfl), writtenText?]

theorem cell_eq_integer_iff {n : Int64} :
    Cell.ofTree (Document.ofValue v) = .integer n.toInt ↔ v = .integer n := by
  cases v with
  | integer m => simp [Document.ofValue, Document.cell_ofInt, Int64.toInt_inj]
  | _ => simp [Document.ofValue, Document.ofText, Cell.ofTree]

theorem ofJson_string_iff {s : String} {w : FieldValue} :
    ofJson .string (.string s) = .ok w ↔ w = .string s := by
  simp [ofJson, orMismatch, Json.text?, eq_comm]

theorem ofJson_timestamp_iff {s : String} {t : Timestamp} :
    ofJson .timestamp (.string s) = .ok (.timestamp t) ↔ Timestamp.read (Text.trim s) = .ok t := by
  simp only [ofJson, timestampOf]
  cases Timestamp.read (Text.trim s) <;> simp [Except.map]

theorem ofJson_identifier_iff {s s' : String} :
    ofJson .identifier (.string s) = .ok (.identifier s') ↔ isIdentifier s = true ∧ s = s' := by
  simp only [ofJson, orMismatch_eq_ok, identifierOf?]
  split <;> simp_all

theorem ofJson_toJson_of_comesBack (h : v.comesBack = true) : ofJson v.kind v.toJson = .ok v := by
  cases v with
  | string s => rfl
  | integer n => exact ofJson_integer n
  | bool b => rfl
  | timestamp t =>
    refine ofJson_timestamp_iff.mpr ?_
    rw [Timestamp.trim_text, Timestamp.read_text_of_isPlain h]
  | identifier s => exact ofJson_identifier_iff.mpr ⟨h, rfl⟩

/-- A value that is read back is expressed in every kind as its stored literal is. -/
theorem coerceTo_of_comesBack (h : v.comesBack = true) (kind : FieldKind) :
    v.coerceTo kind = ofJson? kind v.toJson := by
  rw [coerceTo]
  split
  · next hkind =>
    rw [← hkind]
    exact (ofJson?_eq_some_iff.mpr (ofJson_toJson_of_comesBack h)).symm
  · rfl

/-- A truth value converts to no value of another kind. -/
theorem ofJson_bool_iff {b : Bool} (hv : Plain kind v) :
    ofJson kind (.bool b) = .ok v ↔ v = .bool b := by
  cases hv with
  | bool b' =>
    show Except.ok (FieldValue.bool b) = .ok (FieldValue.bool b') ↔ _
    rw [Except.ok.injEq]
    exact eq_comm
  | timestamp h => simp [ofJson, timestampOf, Except.map]
  | _ => simp [ofJson, orMismatch, Json.text?, integerOf?, identifierOf?]

/-- A literal that is exact equals a plain value if it converts to that value. -/
theorem equalsStored_iff (hv : Plain kind v) (hl : literal.isExact = true) :
    Filter.equalsStored literal v = true ↔ ofJson kind literal.toJson = .ok v := by
  have hkind := hv.kind_eq
  rw [Filter.equalsStored, beq_iff_eq, coerceTo, hkind]
  by_cases hsame : literal.kind = kind
  · rw [if_pos hsame, Option.some.injEq]
    -- a literal of the kind of the value converts to itself
    cases hv with
    | string h =>
      cases literal with
      | string s =>
        rw [toJson, ofJson_string_iff]
        exact eq_comm
      | _ => simp [FieldValue.kind] at hsame
    | integer n =>
      cases literal with
      | integer m =>
        rw [ofJson_integer, Except.ok.injEq]
      | _ => simp [FieldValue.kind] at hsame
    | bool b =>
      cases literal with
      | bool b' =>
        show _ ↔ Except.ok (FieldValue.bool b') = .ok (FieldValue.bool b)
        rw [Except.ok.injEq]
      | _ => simp [FieldValue.kind] at hsame
    | timestamp h =>
      cases literal with
      | timestamp u =>
        rw [toJson, ofJson_timestamp_iff, Timestamp.trim_text, Timestamp.read_text_of_isPlain hl]
        simp
      | _ => simp [FieldValue.kind] at hsame
    | identifier h _ =>
      cases literal with
      | identifier s =>
        rw [toJson, ofJson_identifier_iff, FieldValue.identifier.injEq]
        exact ⟨fun e => ⟨e ▸ h, e⟩, And.right⟩
      | _ => simp [FieldValue.kind] at hsame
  · rw [if_neg hsame, ofJson?_eq_some_iff]

end FieldValue

-- ---------------------------------------------------------------------------
-- Cells
-- ---------------------------------------------------------------------------

namespace Cell

/-- A numeral with a value is written like an integer, and the value is a word. -/
theorem of_integerOf? {n : Numeral} {i : Int} (h : integerOf? n = some i) :
    n.isPlain = true ∧ ∃ w : Int64, w.toInt = i := by
  unfold integerOf? at h
  simp only [Option.ite_none_right_eq_some, Option.some.injEq] at h
  obtain ⟨⟨hplain, hlow, hhigh⟩, rfl⟩ := h
  have hleast : leastInteger = -9223372036854775808 := rfl
  exact ⟨hplain, Int64.ofInt _, Int64.toInt_ofInt_of_le (by omega) (by omega)⟩

/-- The integer of a cell is a word. -/
theorem exists_word {t : Json.Tree} {n : Int} (h : ofTree t = .integer n) :
    ∃ w : Int64, w.toInt = n := by
  cases t with
  | number numeral =>
    rw [ofTree] at h
    split at h
    · next i hi => exact Cell.integer.inj h ▸ (of_integerOf? hi).2
    · simp at h
  | _ => simp [ofTree] at h

end Cell

-- ---------------------------------------------------------------------------
-- Arms
-- ---------------------------------------------------------------------------

/-- A row shows the fields of an item of a type, and all of them are plain. -/
structure RowView.Shows (r : RowView) (type : ItemType) (fields : Fields) : Prop where
  written : r.fields = Document.ofFields fields
  definitions : r.definitions = Document.ofDefinitions type.fields
  distinct : type.IsDistinct
  names : ∀ d ∈ type.fields, Text.isUnbroken d.name = true
  plain : ∀ name v, fields.get? name = some v →
    ∃ d, type.field? name = some d ∧ FieldValue.Plain d.kind v

/-- A plain value in a field with some declaration, or with none: where what is written could be an
instant or a number, the declaration says whether it is an instant or an identifier. -/
structure FieldValue.Told (declared : Option FieldKind) (v : FieldValue) : Prop where
  plain : Plain v.kind v
  instant : ∀ t : Timestamp, v.writtenText? = some t.text →
    (declared = some .timestamp ↔ v.kind = .timestamp)
  number : ∀ n : Int, v.writtenText? = some (Text.decimal n) →
    (declared = some .identifier ↔ v.kind = .identifier)

theorem FieldValue.Plain.told {kind : FieldKind} {v : FieldValue} (h : Plain kind v) :
    Told (some kind) v := by
  obtain rfl := h.kind_eq
  refine ⟨h, fun _ _ => ?_, fun _ _ => ?_⟩
  · rw [Option.some.injEq]
  · rw [Option.some.injEq]

/-- The kind that a type declares for a field. -/
def ItemType.kind? (type : ItemType) (name : String) : Option FieldKind :=
  (type.field? name).map FieldDefinition.kind

/-- Fields and the declarations of a type are written in a row. -/
structure RowView.Written (r : RowView) (type : ItemType) (fields : Fields) : Prop where
  written : r.fields = Document.ofFields fields
  definitions : r.definitions = Document.ofDefinitions type.fields
  distinct : type.IsDistinct
  names : ∀ d ∈ type.fields, Text.isUnbroken d.name = true

/-- A row tells the fields of an item by the declarations of a type, also those fields that are not
of the kind that is declared for them. -/
structure RowView.Tells (r : RowView) (type : ItemType) (fields : Fields) : Prop
    extends r.Written type fields where
  told : ∀ name v, fields.get? name = some v → v.Told (type.kind? name)

theorem RowView.Tells.isUnbroken {r : RowView} {type : ItemType} {fields : Fields}
    (h : r.Tells type fields) {name : String} {v : FieldValue} {s : String}
    (hv : fields.get? name = some v) (hs : v.writtenText? = some s) : Text.isUnbroken s = true :=
  (h.told name v hv).plain.isUnbroken hs

theorem RowView.Shows.tells {r : RowView} {type : ItemType} {fields : Fields}
    (h : r.Shows type fields) : r.Tells type fields where
  written := h.written
  definitions := h.definitions
  distinct := h.distinct
  names := h.names
  told name v hv := by
    obtain ⟨d, hd, hplain⟩ := h.plain name v hv
    rw [ItemType.kind?, hd]
    exact hplain.told

namespace Clause

variable {r : RowView} {type : ItemType} {fields : Fields} {field : String} {v : FieldValue}

theorem isBroken_of_isUnescaped (hf : Json.isUnescaped field = true) : r.isBroken field = false :=
  RowView.isBroken_eq_false (Json.quote_notMem_of_isUnescaped hf)
    (Text.isUnbroken_iff.mp (Json.isUnbroken_of_isUnescaped hf))

theorem part?_of_isUnescaped (hf : Json.isUnescaped field = true) :
    r.part? field = r.fields.labelled? field.toList :=
  RowView.part?_eq (Json.quote_notMem_of_isUnescaped hf)
    (Text.isUnbroken_iff.mp (Json.isUnbroken_of_isUnescaped hf))

/-- The path to a name without escapes leads to what is written for the field of that name. -/
theorem part?_shown (h : r.fields = Document.ofFields fields) (hf : Json.isUnescaped field = true) :
    r.part? field = (fields.get? field).map Document.ofValue := by
  rw [part?_of_isUnescaped hf, h, Document.labelled?_ofFields hf]

/-- A test looks at what is written for the field, and stays open where nothing is. -/
theorem test_shown (h : r.Written type fields) (hf : Json.isUnescaped field = true)
    (g : Tree → Truth) :
    r.test field g = ((fields.get? field).map fun v => g (Document.ofValue v)).getD .unknown := by
  rw [test_eq (isBroken_of_isUnescaped hf), part?_shown h.written hf, Option.map_map]
  rfl

/-- The cell of a field is that of the value that is written for it. -/
theorem cell_shown (h : r.Written type fields) (hf : Json.isUnescaped field = true) :
    (r.part? field).map Cell.ofTree =
      (fields.get? field).map fun v => Cell.ofTree (Document.ofValue v) := by
  rw [part?_shown h.written hf, Option.map_map]
  rfl

theorem test_yes_iff (h : r.Written type fields) (hf : Json.isUnescaped field = true)
    (g : Tree → Truth) :
    r.test field g = .yes ↔ ∃ v, fields.get? field = some v ∧ g (Document.ofValue v) = .yes := by
  rw [test_shown h hf]
  cases fields.get? field <;> simp

/-- A declaration is found if the type declares that kind for the field. -/
theorem eval_declared_iff (h : r.Written type fields) (field : String) (kind : FieldKind) :
    eval r (.declared field kind) = .yes ↔ type.kind? field = some kind := by
  rw [eval, h.definitions, Declaration.declaredIn_ofDefinitions_iff h.names, ItemType.kind?,
    Option.map_eq_some_iff]
  constructor
  · rintro ⟨d, hmem, rfl, hkind⟩
    exact ⟨d, h.distinct.field?_of_mem hmem, hkind⟩
  · rintro ⟨d, hd, hkind⟩
    have hname : d.name = field := by simpa using List.find?_some hd
    exact ⟨d, List.mem_of_find?_eq_some hd, hname, hkind⟩

theorem eval_ofSort_iff (h : r.Written type fields) (hf : Json.isUnescaped field = true)
    (sort : CellSort) :
    eval r (.ofSort field sort) = .yes ↔ ∃ v, fields.get? field = some v ∧ v.sort = sort := by
  rw [eval, test_yes_iff h hf]
  refine exists_congr fun v => and_congr_right fun _ => ?_
  rw [Truth.ofBool_eq_yes_iff, FieldValue.isOfSort_ofValue]

theorem eval_pair_iff {c d : Clause} :
    eval r (.and [c, d]) = .yes ↔ eval r c = .yes ∧ eval r d = .yes := by
  rw [eval, evalAll_eq_yes_iff, List.forall_mem_cons, List.forall_mem_singleton]

/-- The arm of a text selects the cells with that text. -/
theorem eval_textArm_cell (h : r.isBroken field = false) (s : String) :
    eval r (textArm field s) = .yes ↔
      (r.part? field).map Cell.ofTree = some (.text (some s)) := by
  rw [textArm, eval_pair_iff, eval, eval, test_eq h, test_eq h]
  cases r.part? field with
  | none => simp
  | some t =>
    cases t with
    | number n =>
      have hno : ∀ s, Cell.ofTree (.number n) ≠ .text s := by
        intro s hcell
        rw [Cell.ofTree] at hcell
        split at hcell <;> simp at hcell
      simp [Cell.isOfSort, Truth.ofBool, hno]
    | _ => simp [Cell.isOfSort, Truth.ofBool, Cell.ofTree, cellIsText]

/-- The arm of an integer selects the cells with that integer. -/
theorem eval_integerArm_cell (h : r.isBroken field = false) (n : Int) :
    eval r (integerArm field n) = .yes ↔
      (r.part? field).map Cell.ofTree = some (.integer n) := by
  rw [integerArm, eval_pair_iff, eval, eval, test_eq h, test_eq h]
  cases r.part? field with
  | none => simp
  | some t =>
    cases t with
    | number numeral =>
      cases hi : Cell.integerOf? numeral with
      | none => simp [Cell.ofTree, hi, cellIsInteger]
      | some i =>
        have hplain := (Cell.of_integerOf? hi).1
        simp [Cell.ofTree, hi, cellIsInteger, Cell.isOfSort, Truth.ofBool, hplain]
    | _ => simp [Cell.isOfSort, Truth.ofBool, Cell.ofTree, cellIsInteger]

/-- The arm of a text holds for a field that is written as that text. -/
theorem eval_textArm_iff (h : r.Written type fields) (hf : Json.isUnescaped field = true)
    (hbroken : ∀ {v s}, fields.get? field = some v → v.writtenText? = some s →
      Text.isUnbroken s = true) (s : String) :
    eval r (textArm field s) = .yes ↔
      ∃ v, fields.get? field = some v ∧ v.writtenText? = some s := by
  rw [eval_textArm_cell (isBroken_of_isUnescaped hf), cell_shown h hf, Option.map_eq_some_iff]
  exact exists_congr fun v => and_congr_right fun hv =>
    FieldValue.cell_eq_text_iff fun _ hs => hbroken hv hs

theorem eval_integerArm_iff (h : r.Written type fields) (hf : Json.isUnescaped field = true)
    (n : Int64) :
    eval r (integerArm field n.toInt) = .yes ↔ fields.get? field = some (.integer n) := by
  rw [eval_integerArm_cell (isBroken_of_isUnescaped hf), cell_shown h hf, Option.map_eq_some_iff]
  simp only [FieldValue.cell_eq_integer_iff, exists_eq_right]

theorem eval_boolArm_iff (h : r.Written type fields) (hf : Json.isUnescaped field = true)
    (b : Bool) :
    eval r (boolArm field b) = .yes ↔ fields.get? field = some (.bool b) := by
  rw [boolArm, eval_ofSort_iff h hf]
  simp only [FieldValue.sort_eq_truth_iff, exists_eq_right]

theorem eval_declaredArm_iff (h : r.Tells type fields) (hf : Json.isUnescaped field = true)
    (s : String) (kind : FieldKind) :
    eval r (declaredArm field s kind) = .yes ↔
      ∃ v, fields.get? field = some v ∧ v.writtenText? = some s ∧ type.kind? field = some kind := by
  rw [declaredArm, eval_pair_iff, eval_textArm_iff h.toWritten hf h.isUnbroken,
    eval_declared_iff h.toWritten]
  constructor
  · rintro ⟨⟨v, hv, hs⟩, hkind⟩
    exact ⟨v, hv, hs, hkind⟩
  · rintro ⟨v, hv, hs, hkind⟩
    exact ⟨⟨v, hv, hs⟩, hkind⟩

/-- The arm of an instant holds for a field with an instant that is written like it. -/
theorem eval_instantArm_iff (h : r.Tells type fields) (hf : Json.isUnescaped field = true)
    (t : Timestamp) :
    eval r (declaredArm field t.text .timestamp) = .yes ↔
      ∃ v, fields.get? field = some v ∧ v.writtenText? = some t.text ∧ v.kind = .timestamp := by
  rw [eval_declaredArm_iff h hf]
  exact exists_congr fun v => and_congr_right fun hv => and_congr_right fun hs =>
    (h.told field v hv).instant t hs

/-- The arm of a number holds for a field with an identifier that is written like it. -/
theorem eval_numberArm_iff (h : r.Tells type fields) (hf : Json.isUnescaped field = true)
    (n : Int) :
    eval r (declaredArm field (Text.decimal n) .identifier) = .yes ↔
      ∃ v, fields.get? field = some v ∧ v.writtenText? = some (Text.decimal n) ∧
        v.kind = .identifier := by
  rw [eval_declaredArm_iff h hf]
  exact exists_congr fun v => and_congr_right fun hv => and_congr_right fun hs =>
    (h.told field v hv).number n hs

-- ---------------------------------------------------------------------------
-- The arms of a literal
-- ---------------------------------------------------------------------------

variable {c : Clause} {s : String}

theorem mem_timestampArms : c ∈ timestampArms field s ↔
    ∃ t, Timestamp.read (Text.trim s) = .ok t ∧ t.text ≠ s ∧
      c = declaredArm field t.text .timestamp := by
  unfold timestampArms
  cases Timestamp.read (Text.trim s) with
  | error fault => simp
  | ok t => by_cases ht : t.text = s <;> simp [ht]

theorem mem_integerArms : c ∈ integerArms field s ↔
    ∃ n, Text.int64? (Text.trim s) = some n ∧ c = integerArm field n.toInt := by
  unfold integerArms
  cases Text.int64? (Text.trim s) <;> simp

theorem mem_boolArms : c ∈ boolArms field s ↔
    ∃ b, FieldValue.boolOf? (.string s) = some b ∧ c = boolArm field b := by
  unfold boolArms FieldValue.boolOf?
  by_cases htrue : Text.trim s = "true"
  · simp [htrue]
  · by_cases hfalse : Text.trim s = "false"
    · simp [hfalse]
    · simp [htrue, hfalse]

theorem mem_microsArms {n : Int} : c ∈ microsArms field n ↔
    ∃ t, Timestamp.ofMicros? n = some t ∧ c = declaredArm field t.text .timestamp := by
  unfold microsArms
  cases Timestamp.ofMicros? n <;> simp

theorem Firm.pair {c d : Clause} (hc : Firm r c) (hd : Firm r d) : Firm r (.and [c, d]) :=
  .and (List.forall_mem_cons.mpr ⟨hc, List.forall_mem_singleton.mpr hd⟩)

theorem Firm.single {c : Clause} (hc : Firm r c) : Firm r (.or [c]) :=
  .or (List.forall_mem_singleton.mpr hc)

theorem firm_textArm (hf : r.isBroken field = false) (s : String) : Firm r (textArm field s) :=
  .pair (.ofSort hf) (.isText hf)

theorem firm_integerArm (hf : r.isBroken field = false) (n : Int) :
    Firm r (integerArm field n) :=
  .pair (.ofSort hf) (.isInteger hf)

theorem firm_declaredArm (h : r.definitions = Document.ofDefinitions type.fields)
    (hf : r.isBroken field = false) (s : String) (kind : FieldKind) :
    Firm r (declaredArm field s kind) := by
  refine .pair (firm_textArm hf s) (.declared ?_)
  rw [h]
  exact Declaration.ofDefinition_ne_string type.fields

theorem firm_boolArm (hf : r.isBroken field = false) (b : Bool) : Firm r (boolArm field b) :=
  .ofSort hf

theorem firm_ofText (h : r.definitions = Document.ofDefinitions type.fields)
    (hf : r.isBroken field = false) (s : String) : Firm r (ofText field s) := by
  refine .or fun c hc => ?_
  simp only [List.mem_cons, List.mem_append, mem_timestampArms, mem_integerArms, mem_boolArms] at hc
  rcases hc with rfl | (⟨t, -, -, rfl⟩ | ⟨n, -, rfl⟩) | ⟨b, -, rfl⟩
  · exact firm_textArm hf s
  · exact firm_declaredArm h hf _ _
  · exact firm_integerArm hf _
  · exact firm_boolArm hf b

/-- The clause of an equality does not fail over a row with the declarations of a type. -/
theorem firm_ofEquality (h : r.definitions = Document.ofDefinitions type.fields)
    (hf : r.isBroken field = false) (literal : FieldValue) :
    Firm r (ofEquality field literal) := by
  cases literal with
  | string s => exact firm_ofText h hf s
  | identifier s => exact firm_ofText h hf s
  | integer n =>
    refine .or fun c hc => ?_
    simp only [List.mem_cons, mem_microsArms] at hc
    rcases hc with rfl | rfl | ⟨t, -, rfl⟩
    · exact firm_integerArm hf _
    · exact firm_declaredArm h hf _ _
    · exact firm_declaredArm h hf _ _
  | bool b => exact .single (firm_boolArm hf b)
  | timestamp t => exact .single (firm_textArm hf t.text)

/-- Nor does it if the field is written as it is. -/
theorem firm_of_isUnescaped (h : r.definitions = Document.ofDefinitions type.fields)
    (hf : Json.isUnescaped field = true) (literal : FieldValue) :
    Firm r (ofEquality field literal) :=
  firm_ofEquality h (isBroken_of_isUnescaped hf) literal

theorem eval_or_iff {cs : List Clause} (h : Firm r (.or cs)) :
    eval r (.or cs) = .yes ↔ ∃ c ∈ cs, eval r c = .yes := by
  cases h with
  | or h =>
    rw [eval]
    exact evalAny_eq_yes_iff fun c hc => (h c hc).eval_ne_fault

/-- The clause of a text holds if one of the ways holds in which the text may be stored. -/
theorem eval_ofText_arms (h : r.Tells type fields) (hf : Json.isUnescaped field = true)
    (s : String) :
    eval r (ofText field s) = .yes ↔
      (∃ v, fields.get? field = some v ∧ v.writtenText? = some s) ∨
        (∃ t, Timestamp.read (Text.trim s) = .ok t ∧ t.text ≠ s ∧
          ∃ v, fields.get? field = some v ∧ v.writtenText? = some t.text ∧ v.kind = .timestamp) ∨
        (∃ n, Text.int64? (Text.trim s) = some n ∧ fields.get? field = some (.integer n)) ∨
        ∃ b, FieldValue.boolOf? (.string s) = some b ∧ fields.get? field = some (.bool b) := by
  rw [ofText, eval_or_iff (firm_ofText h.definitions (isBroken_of_isUnescaped hf) s)]
  simp only [List.mem_cons, List.mem_append, mem_timestampArms, mem_integerArms, mem_boolArms]
  constructor
  · rintro ⟨c, rfl | (⟨t, hread, hne, rfl⟩ | ⟨n, hread, rfl⟩) | ⟨b, hread, rfl⟩, hyes⟩
    · exact .inl ((eval_textArm_iff h.toWritten hf h.isUnbroken s).mp hyes)
    · exact .inr (.inl ⟨t, hread, hne, (eval_instantArm_iff h hf t).mp hyes⟩)
    · exact .inr (.inr (.inl ⟨n, hread, (eval_integerArm_iff h.toWritten hf n).mp hyes⟩))
    · exact .inr (.inr (.inr ⟨b, hread, (eval_boolArm_iff h.toWritten hf b).mp hyes⟩))
  · rintro (hyes | ⟨t, hread, hne, hyes⟩ | ⟨n, hread, hyes⟩ | ⟨b, hread, hyes⟩)
    · exact ⟨_, .inl rfl, (eval_textArm_iff h.toWritten hf h.isUnbroken s).mpr hyes⟩
    · exact ⟨_, .inr (.inl (.inl ⟨t, hread, hne, rfl⟩)), (eval_instantArm_iff h hf t).mpr hyes⟩
    · exact ⟨_, .inr (.inl (.inr ⟨n, hread, rfl⟩)), (eval_integerArm_iff h.toWritten hf n).mpr hyes⟩
    · exact ⟨_, .inr (.inr ⟨b, hread, rfl⟩), (eval_boolArm_iff h.toWritten hf b).mpr hyes⟩

/-- The clause of an integer holds if one of the ways holds in which the integer may be stored. -/
theorem eval_ofInteger_arms (h : r.Tells type fields) (hf : Json.isUnescaped field = true)
    (n : Int64) :
    eval r (ofEquality field (.integer n)) = .yes ↔
      fields.get? field = some (.integer n) ∨
        (∃ v, fields.get? field = some v ∧ v.writtenText? = some (Text.decimal n.toInt) ∧
          v.kind = .identifier) ∨
        ∃ t, Timestamp.ofMicros? n.toInt = some t ∧
          ∃ v, fields.get? field = some v ∧ v.writtenText? = some t.text ∧ v.kind = .timestamp := by
  rw [ofEquality, eval_or_iff (firm_of_isUnescaped h.definitions hf (.integer n))]
  simp only [List.mem_cons, mem_microsArms]
  constructor
  · rintro ⟨c, rfl | rfl | ⟨t, hread, rfl⟩, hyes⟩
    · exact .inl ((eval_integerArm_iff h.toWritten hf n).mp hyes)
    · exact .inr (.inl ((eval_numberArm_iff h hf _).mp hyes))
    · exact .inr (.inr ⟨t, hread, (eval_instantArm_iff h hf t).mp hyes⟩)
  · rintro (hyes | hyes | ⟨t, hread, hyes⟩)
    · exact ⟨_, .inl rfl, (eval_integerArm_iff h.toWritten hf n).mpr hyes⟩
    · exact ⟨_, .inr (.inl rfl), (eval_numberArm_iff h hf _).mpr hyes⟩
    · exact ⟨_, .inr (.inr ⟨t, hread, rfl⟩), (eval_instantArm_iff h hf t).mpr hyes⟩

/-- A text is compared with a stored instant by the instant it reads as: the arms ask for the text
itself, and for what that instant is written as. -/
theorem read_iff_of_isPlain {t : Timestamp} (ht : t.isPlain = true)
    (hs : (FieldValue.string s).isExact = true) :
    t.text = s ∨ (∃ u, Timestamp.read (Text.trim s) = .ok u ∧ u.text ≠ s ∧ t.text = u.text) ↔
      Timestamp.read (Text.trim s) = .ok t := by
  constructor
  · rintro (rfl | ⟨u, hread, -, htext⟩)
    · rw [Timestamp.trim_text, Timestamp.read_text_of_isPlain ht]
    · have hu : u.isPlain = true := by
        unfold FieldValue.isExact at hs
        simpa only [hread] using hs
      rw [hread, Timestamp.eq_of_text_eq ht (Timestamp.isPlain_iff.mp hu).1 htext]
  · intro hread
    by_cases htext : t.text = s
    · exact .inl htext
    · exact .inr ⟨t, hread, htext, rfl⟩

/-- The clause of a text holds for a field with the value that the text converts to. -/
theorem eval_ofText_iff (h : r.Tells type fields) (hf : Json.isUnescaped field = true)
    (hs : (FieldValue.string s).isExact = true) {kind : FieldKind}
    (hv : fields.get? field = some v) (hplain : FieldValue.Plain kind v) :
    eval r (ofText field s) = .yes ↔ FieldValue.ofJson kind (.string s) = .ok v := by
  rw [eval_ofText_arms h hf, hv]
  simp only [Option.some.injEq, exists_eq_left']
  cases hplain with
  | string _ =>
    rw [FieldValue.ofJson_string_iff]
    simp [FieldValue.writtenText?, FieldValue.kind]
  | integer n =>
    simp [FieldValue.writtenText?, FieldValue.ofJson, FieldValue.orMismatch_eq_ok,
      FieldValue.integerOf?]
  | bool b =>
    simp [FieldValue.writtenText?, FieldValue.ofJson, FieldValue.orMismatch_eq_ok]
  | timestamp ht =>
    rw [FieldValue.ofJson_timestamp_iff, ← read_iff_of_isPlain ht hs]
    simp [FieldValue.writtenText?, FieldValue.kind]
  | @identifier s' hid _ =>
    rw [FieldValue.ofJson_identifier_iff]
    simp only [FieldValue.writtenText?, FieldValue.kind, Option.some.injEq, reduceCtorEq, and_false,
      exists_false, or_false]
    exact ⟨fun e => ⟨e ▸ hid, e.symm⟩, fun e => e.2.symm⟩

/-- The clause of an integer holds for a field with the value that the integer converts to. -/
theorem eval_ofInteger_iff (h : r.Tells type fields) (hf : Json.isUnescaped field = true)
    (n : Int64) {kind : FieldKind} (hv : fields.get? field = some v)
    (hplain : FieldValue.Plain kind v) :
    eval r (ofEquality field (.integer n)) = .yes ↔
      FieldValue.ofJson kind (.int n.toInt) = .ok v := by
  rw [eval_ofInteger_arms h hf, hv]
  simp only [Option.some.injEq, exists_eq_left']
  cases hplain with
  | string _ =>
    simp [FieldValue.kind, FieldValue.ofJson, FieldValue.orMismatch_eq_ok, Json.int, Json.text?]
  | integer m =>
    rw [show Json.int n.toInt = (FieldValue.integer n).toJson from rfl, FieldValue.ofJson_integer]
    simp [FieldValue.kind, eq_comm]
  | bool b =>
    simp [FieldValue.kind, FieldValue.ofJson, FieldValue.orMismatch_eq_ok, Json.int,
      FieldValue.boolOf?]
  | @timestamp u hu =>
    have hconvert : FieldValue.ofJson .timestamp (.int n.toInt) = .ok (.timestamp u) ↔
        Timestamp.ofMicros? n.toInt = some u := by
      simp only [FieldValue.ofJson, FieldValue.timestampOf, Json.int, Text.exactInt64?_toInt,
        Option.bind_some]
      cases Timestamp.ofMicros? n.toInt <;> simp [Except.map]
    rw [hconvert]
    simp only [FieldValue.writtenText?, FieldValue.kind, reduceCtorEq, and_false, false_or,
      and_true, Option.some.injEq]
    constructor
    · rintro ⟨t, ht, htext⟩
      rw [Timestamp.eq_of_text_eq hu (Timestamp.isMicros_of_ofMicros? ht) htext]
      exact ht
    · exact fun ht => ⟨u, ht, rfl⟩
  | identifier _ _ =>
    simp [FieldValue.kind, FieldValue.writtenText?, FieldValue.ofJson, FieldValue.orMismatch,
      FieldValue.identifierOf?, Json.int, eq_comm]

/-- An instant that is plain is asked for as its text is. -/
theorem ofEquality_timestamp {t : Timestamp} (ht : t.isPlain = true) :
    ofEquality field (.timestamp t) = ofText field t.text := by
  have hread := Timestamp.read_text_of_isPlain ht
  have htrue : t.text ≠ "true" := Timestamp.text_ne (by decide)
  have hfalse : t.text ≠ "false" := Timestamp.text_ne (by decide)
  simp [ofEquality, ofText, timestampArms, integerArms, boolArms, Timestamp.trim_text, hread,
    Timestamp.int64?_text, htrue, hfalse]

/-- **The clause of an equality holds if the field has the value of the literal.** -/
theorem eval_ofEquality_iff (h : r.Tells type fields) (hf : Json.isUnescaped field = true)
    {literal : FieldValue} (hl : literal.isExact = true) :
    eval r (ofEquality field literal) = .yes ↔
      ∃ v, fields.get? field = some v ∧ Filter.equalsStored literal v = true := by
  cases hv : fields.get? field with
  | none =>
    -- every arm asks for something that is written
    have hno : ∀ s, eval r (ofText field s) ≠ .yes := fun s => by
      rw [ne_eq, eval_ofText_arms h hf, hv]
      simp
    refine iff_of_false ?_ (by simp)
    cases literal with
    | string s => exact hno s
    | identifier s => exact hno s
    | integer n =>
      rw [eval_ofInteger_arms h hf, hv]
      simp
    | bool b =>
      rw [ofEquality, eval_or_iff (firm_of_isUnescaped h.definitions hf (.bool b))]
      simp [eval_boolArm_iff h.toWritten hf, hv]
    | timestamp t =>
      rw [ofEquality_timestamp hl]
      exact hno t.text
  | some v =>
    have hplain := (h.told field v hv).plain
    simp only [Option.some.injEq, exists_eq_left', FieldValue.equalsStored_iff hplain hl]
    generalize v.kind = kind at hplain ⊢
    cases literal with
    | string s => exact eval_ofText_iff h hf hl hv hplain
    | identifier s =>
      have hs : (FieldValue.string s).isExact = true := by
        unfold FieldValue.isExact at hl ⊢
        exact hl
      exact eval_ofText_iff h hf hs hv hplain
    | integer n => exact eval_ofInteger_iff h hf n hv hplain
    | bool b =>
      rw [ofEquality, eval_or_iff (firm_of_isUnescaped h.definitions hf (.bool b))]
      simp only [List.mem_singleton, exists_eq_left, eval_boolArm_iff h.toWritten hf, hv,
        Option.some.injEq]
      exact (FieldValue.ofJson_bool_iff hplain).symm
    | timestamp t =>
      rw [ofEquality_timestamp hl]
      refine eval_ofText_iff h hf ?_ hv hplain
      have hread := Timestamp.read_text_of_isPlain hl
      simpa [FieldValue.isExact, Timestamp.trim_text, hread] using hl

end Clause

-- ---------------------------------------------------------------------------
-- Filters
-- ---------------------------------------------------------------------------

/-- Whether the names of a filter are written without escapes, and its literals are exact. -/
def Filter.isExact (f : Filter) : Bool := f.leaves.all fun e => Json.isUnescaped e.1 && e.2.isExact

theorem Filter.isExact_iff {f : Filter} : f.isExact = true ↔
    ∀ e ∈ f.leaves, Json.isUnescaped e.1 = true ∧ e.2.isExact = true := by
  simp [isExact]

theorem Filter.isExact_of_mem {fs : List Filter} {f : Filter} (hf : f ∈ fs)
    (h : ∀ e ∈ leavesOf fs, Json.isUnescaped e.1 = true ∧ e.2.isExact = true) :
    f.isExact = true :=
  isExact_iff.mpr fun e he => h e (mem_leavesOf hf he)

namespace Clause

variable {r : RowView} {type : ItemType} {fields : Fields}

/-- No test of the clause of a filter can fail, if no path to one of its names is wrong. -/
theorem firm_ofFilter (h : r.definitions = Document.ofDefinitions type.fields) (f : Filter)
    (hf : ∀ e ∈ f.leaves, r.isBroken e.1 = false) : Firm r (ofFilter f) := by
  induction f using Filter.induction with
  | all =>
    rw [ofFilter]
    exact .always
  | equals field value =>
    rw [ofFilter]
    exact firm_ofEquality h (hf (field, value) (by simp [Filter.leaves])) value
  | and fs ih =>
    rw [Filter.leaves] at hf
    rw [ofFilter, ofFilters_eq_map]
    refine .and fun c hc => ?_
    obtain ⟨f, hmem, rfl⟩ := List.mem_map.mp hc
    exact ih f hmem fun e he => hf e (Filter.mem_leavesOf hmem he)
  | or fs ih =>
    rw [Filter.leaves] at hf
    rw [ofFilter, ofFilters_eq_map]
    refine .or fun c hc => ?_
    obtain ⟨f, hmem, rfl⟩ := List.mem_map.mp hc
    exact ih f hmem fun e he => hf e (Filter.mem_leavesOf hmem he)

theorem firm_of_isExact (h : r.Written type fields) (f : Filter) (hf : f.isExact = true) :
    Firm r (ofFilter f) :=
  firm_ofFilter h.definitions f fun e he =>
    isBroken_of_isUnescaped (Filter.isExact_iff.mp hf e he).1

/-- The clause of a filter holds if the filter does, also for fields of other kinds than
declared. -/
theorem eval_ofFilter_of_tells {item : WorkItem} (h : r.Tells type item.fields) (f : Filter)
    (hf : f.isExact = true) : eval r (ofFilter f) = .yes ↔ f.holdsFor item = true := by
  induction f using Filter.induction with
  | all => simp [ofFilter, eval, Filter.holdsFor_all_iff]
  | equals field value =>
    obtain ⟨hname, hl⟩ := Filter.isExact_iff.mp hf (field, value) (by simp [Filter.leaves])
    rw [ofFilter, eval_ofEquality_iff h hname hl, Filter.holdsFor_equals, Filter.holdsField,
      WorkItem.field?]
    cases item.fields.get? field <;> simp
  | and fs ih =>
    have hleaves := Filter.isExact_iff.mp hf
    rw [Filter.leaves] at hleaves
    rw [eval_ofFilter_and, Filter.holdsFor_and_iff]
    exact forall₂_congr fun f hmem => ih f hmem (Filter.isExact_of_mem hmem hleaves)
  | or fs ih =>
    have hleaves := Filter.isExact_iff.mp hf
    rw [Filter.leaves] at hleaves
    rw [eval_ofFilter_or fun f hmem =>
        (firm_of_isExact h.toWritten f (Filter.isExact_of_mem hmem hleaves)).eval_ne_fault,
      Filter.holdsFor_or_iff]
    exact exists_congr fun f =>
      and_congr_right fun hmem => ih f hmem (Filter.isExact_of_mem hmem hleaves)

/-- The clause of a filter does not fail. -/
theorem outcome_ofFilter_ne_fault (h : r.Shows type fields) {f : Filter} (hf : f.isExact = true) :
    (ofFilter f).outcome r ≠ .fault :=
  (firm_of_isExact h.tells.toWritten f hf).outcome_ne_fault

/-- **The clause of a filter holds if the filter does.** -/
theorem eval_ofFilter_iff {item : WorkItem} (h : r.Shows type item.fields) (f : Filter)
    (hf : f.isExact = true) : eval r (ofFilter f) = .yes ↔ f.holdsFor item = true :=
  eval_ofFilter_of_tells h.tells f hf

end Clause

end Backlog
