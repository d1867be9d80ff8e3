import Backlog.Proofs.Coherence
import Backlog.Proofs.Instants

/-!
# Rows that keep to their types

What a client sends for a field is converted to the kind that the type of the item declares, so a
row holds values of the declared kinds and nothing else. With one exception: the text of an instant
of a year with a sign is no instant to a reader, so it comes back as a text, and a later save writes
it again as that text. `FieldValue.Fits` says what a field of a kind may hold with this exception,
and `ItemType.Holds` says it of all fields of an item.

Fields that fit are decoded to fields that fit, and those have the same document. So the document of
a row is the document of the item that the row is decoded to, and whatever is said about the rows of
`Typed` tables can be said about the decoded items.

## Main results

* `ItemType.Holds.decode` — fields that fit are decoded to fields that fit and have their document;
* `Tables.Typed.decodeItem_ok` — every row is decoded to an item whose fields fit its type;
* `Request.typed` — a call that migrates no types keeps tables typed.
-/

namespace Backlog

-- ---------------------------------------------------------------------------
-- Values that fit a kind
-- ---------------------------------------------------------------------------

namespace FieldValue

/-- What a field of a kind may hold: a value of the kind, or in place of an instant the text of one
that no reader takes back. -/
inductive Fits : FieldKind → FieldValue → Prop
  | string (s : String) : Fits .string (.string s)
  | integer (n : Int64) : Fits .integer (.integer n)
  | bool (b : Bool) : Fits .bool (.bool b)
  | timestamp (t : Timestamp) : Fits .timestamp (.timestamp t)
  | signed {t : Timestamp} (h : ¬ (0 ≤ t.year ∧ t.year ≤ 9999)) : Fits .timestamp (.string t.text)
  | identifier {s : String} (h : isIdentifier s = true) : Fits .identifier (.identifier s)

/-- The text of an integer is an identifier. -/
theorem isIdentifier_decimal (n : Int) : isIdentifier (Text.decimal n) = true := by
  have hne : Text.decimalChars n ≠ [] := by
    unfold Text.decimalChars
    split
    · exact List.cons_ne_nil _ _
    · exact Nat.toDigits_ne_nil
  have hblank : ∀ c ∈ Text.decimalChars n, Text.isBlank c = false := by
    have hdigits : ∀ c ∈ Nat.toDigits 10 n.natAbs, Text.isBlank c = false := fun c hc =>
      Text.isBlank_of_isDigit (Nat.isDigit_of_mem_toDigits (by decide) (by decide) hc)
    intro c hc
    unfold Text.decimalChars at hc
    split at hc
    · rcases List.mem_cons.mp hc with rfl | hc
      · decide
      · exact hdigits c hc
    · exact hdigits c hc
  rw [isIdentifier, Text.decimal, String.toList_ofList, Bool.and_eq_true, decide_eq_true_eq]
  refine ⟨hne, ?_⟩
  rw [Bool.not_eq_true', List.any_eq_false]
  exact fun c hc => by simp [hblank c hc]

theorem isIdentifier_of_identifierOf? {literal : Json} {s : String}
    (h : identifierOf? literal = some s) : isIdentifier s = true := by
  unfold identifierOf? at h
  split at h
  · split at h
    · next hs => rwa [← Option.some.inj h]
    · simp at h
  · rw [← Option.some.inj h]
    exact isIdentifier_decimal _
  · simp at h

/-- What a literal converts to fits. -/
theorem fits_of_ofJson {kind : FieldKind} {literal : Json} {v : FieldValue}
    (h : ofJson kind literal = .ok v) : Fits kind v := by
  have hkind := ofJson_kind h
  cases v with
  | string s => exact hkind ▸ .string s
  | integer n => exact hkind ▸ .integer n
  | bool b => exact hkind ▸ .bool b
  | timestamp t => exact hkind ▸ .timestamp t
  | identifier s =>
    obtain rfl : FieldKind.identifier = kind := hkind
    obtain ⟨s', hs, heq⟩ := Option.map_eq_some_iff.mp (orMismatch_eq_ok.mp h)
    obtain rfl := FieldValue.identifier.inj heq
    exact .identifier (isIdentifier_of_identifierOf? hs)

/-- The text of an instant of a year with a sign is taken for the text that it is. -/
theorem ofJson?_signed {t : Timestamp} (h : ¬ (0 ≤ t.year ∧ t.year ≤ 9999)) :
    ofJson? .timestamp (.string t.text) = none := by
  obtain ⟨fault, hfault⟩ := Timestamp.read_text_of_signed h
  have hconvert : ofJson .timestamp (.string t.text) = .error (.unreadable t.text fault) := by
    show (timestampOf (.string t.text)).map FieldValue.timestamp = _
    unfold timestampOf
    simp only [Timestamp.trim_text, hfault]
    rfl
  rw [ofJson?, hconvert]

/-- An integer comes back from its stored literal. -/
theorem ofJson_integer (n : Int64) : ofJson .integer (toJson (.integer n)) = .ok (.integer n) := by
  refine orMismatch_eq_ok.mpr ?_
  show (Text.exactInt64? n.toInt).map FieldValue.integer = some (.integer n)
  rw [Text.exactInt64?_toInt]
  rfl

/-- A value that fits comes back from its stored literal as a value that fits and is written in the
same way. -/
theorem Fits.decode {kind : FieldKind} {v : FieldValue} (h : Fits kind v) :
    ∃ w, (ofJson? kind v.toJson).or (infer v.toJson) = some w ∧ Fits kind w ∧
      Document.ofValue w = Document.ofValue v := by
  cases h with
  | string s => exact ⟨.string s, rfl, .string s, rfl⟩
  | integer n =>
    refine ⟨.integer n, ?_, .integer n, rfl⟩
    rw [ofJson?_eq_some_iff.mpr (ofJson_integer n)]
    rfl
  | bool b => exact ⟨.bool b, rfl, .bool b, rfl⟩
  | timestamp t =>
    by_cases hyear : 0 ≤ t.year ∧ t.year ≤ 9999
    · refine ⟨.timestamp t.truncated, ?_, .timestamp t.truncated, ?_⟩
      · have hconvert : ofJson? .timestamp (.string t.text) = some (.timestamp t.truncated) := by
          refine ofJson?_eq_some_iff.mpr ?_
          show (timestampOf (.string t.text)).map FieldValue.timestamp = _
          unfold timestampOf
          simp only [Timestamp.trim_text, Timestamp.read_text hyear.1 hyear.2]
          rfl
        rw [toJson, hconvert]
        rfl
      · rw [Document.ofValue, Document.ofValue, Timestamp.text_truncated]
    · refine ⟨.string t.text, ?_, .signed hyear, rfl⟩
      rw [toJson, ofJson?_signed hyear]
      rfl
  | @signed t hyear =>
    refine ⟨.string t.text, ?_, .signed hyear, rfl⟩
    rw [toJson, ofJson?_signed hyear]
    rfl
  | @identifier s hs =>
    refine ⟨.identifier s, ?_, .identifier hs, rfl⟩
    have hconvert : ofJson? .identifier (.string s) = some (.identifier s) :=
      ofJson?_eq_some_iff.mpr (orMismatch_eq_ok.mpr (by
        show (identifierOf? (.string s)).map FieldValue.identifier = _
        rw [identifierOf?, if_pos hs]
        rfl))
    rw [toJson, hconvert]
    rfl

end FieldValue

-- ---------------------------------------------------------------------------
-- Fields that a type holds
-- ---------------------------------------------------------------------------

namespace ItemType

/-- Every field is declared and holds what fits its kind. -/
def Holds (type : ItemType) (fields : Fields) : Prop :=
  ∀ name v, fields.get? name = some v → ∃ d, type.field? name = some d ∧ FieldValue.Fits d.kind v

variable {type : ItemType} {fields fields' : Fields} {name : String} {literal : Json}

section Converted

variable {P : String → FieldValue → Prop} {l : List (String × Json)} {payload : Payload}

theorem forall_convertEntries (hl : ∀ e ∈ l, ∀ v, type.convertValue e.1 e.2 = .ok v → P e.1 v)
    (h : ∀ name v, fields.get? name = some v → P name v)
    (hconvert : type.convertEntries fields l = .ok fields') :
    ∀ name v, fields'.get? name = some v → P name v := by
  induction l generalizing fields with
  | nil =>
    obtain rfl := Except.ok.inj hconvert
    exact h
  | cons e rest ih =>
    have hrest : ∀ x ∈ rest, ∀ v, type.convertValue x.1 x.2 = .ok v → P x.1 v := fun x hx =>
      hl x (List.mem_cons_of_mem e hx)
    rw [ItemType.convertEntries] at hconvert
    split at hconvert
    · -- nothing is put in for a field that is left out
      split at hconvert
      · simp at hconvert
      · exact ih hrest h hconvert
    · split at hconvert
      · next v hv =>
        exact ih hrest (SortedMap.forall_get?_insert h (hl e List.mem_cons_self v hv)) hconvert
      · simp at hconvert

/-- What holds of everything that the literals for a new item convert to holds of its fields. -/
theorem forall_convertFields
    (hl : ∀ e ∈ payload.toList, ∀ v, type.convertValue e.1 e.2 = .ok v → P e.1 v)
    (hconvert : type.convertFields payload = .ok fields) :
    ∀ name v, fields.get? name = some v → P name v := by
  unfold ItemType.convertFields at hconvert
  split at hconvert
  · simp at hconvert
  · next hentries =>
    split at hconvert
    · obtain rfl := Except.ok.inj hconvert
      exact forall_convertEntries hl (fun _ _ hv => absurd hv (by simp)) hentries
    · simp at hconvert

theorem forall_mergeEntry (hliteral : ∀ v, type.convertValue name literal = .ok v → P name v)
    (h : ∀ name v, fields.get? name = some v → P name v)
    (hmerge : type.mergeEntry fields name literal = .ok fields') :
    ∀ name v, fields'.get? name = some v → P name v := by
  unfold ItemType.mergeEntry at hmerge
  split at hmerge
  · split at hmerge
    · simp at hmerge
    · split at hmerge
      · simp at hmerge
      · obtain rfl := Except.ok.inj hmerge
        exact SortedMap.forall_get?_erase h
  · split at hmerge
    · next v hv =>
      obtain rfl := Except.ok.inj hmerge
      exact SortedMap.forall_get?_insert h (hliteral v hv)
    · simp at hmerge

theorem forall_mergeEntries (hl : ∀ e ∈ l, ∀ v, type.convertValue e.1 e.2 = .ok v → P e.1 v)
    (h : ∀ name v, fields.get? name = some v → P name v)
    (hmerge : type.mergeEntries fields l = .ok fields') :
    ∀ name v, fields'.get? name = some v → P name v := by
  induction l generalizing fields with
  | nil =>
    obtain rfl := Except.ok.inj hmerge
    exact h
  | cons e rest ih =>
    rw [ItemType.mergeEntries] at hmerge
    split at hmerge
    · next hentry =>
      exact ih (fun x hx => hl x (List.mem_cons_of_mem e hx))
        (forall_mergeEntry (hl e List.mem_cons_self) h hentry) hmerge
    · simp at hmerge

/-- What holds of the fields of an item and of everything that a payload converts to holds of the
fields when the payload is put over them. -/
theorem forall_mergeFields
    (hl : ∀ e ∈ payload.toList, ∀ v, type.convertValue e.1 e.2 = .ok v → P e.1 v)
    (h : ∀ name v, fields.get? name = some v → P name v)
    (hmerge : type.mergeFields fields payload = .ok fields') :
    ∀ name v, fields'.get? name = some v → P name v := by
  unfold ItemType.mergeFields at hmerge
  split at hmerge
  · simp at hmerge
  · next hentries =>
    split at hmerge
    · obtain rfl := Except.ok.inj hmerge
      exact forall_mergeEntries hl h hentries
    · simp at hmerge

end Converted

namespace Holds

theorem of_convertValue {v : FieldValue} (hv : type.convertValue name literal = .ok v) :
    ∃ d, type.field? name = some d ∧ FieldValue.Fits d.kind v := by
  obtain ⟨d, hd, hconvert⟩ := convertValue_eq_ok_iff.mp hv
  exact ⟨d, hd, FieldValue.fits_of_ofJson hconvert⟩

/-- The fields of a new item fit its type. -/
theorem convertFields {payload : Payload} (hconvert : type.convertFields payload = .ok fields) :
    type.Holds fields :=
  forall_convertFields (fun _ _ _ hv => of_convertValue hv) hconvert

/-- Fields that fit a type still do when a payload is put over them. -/
theorem mergeFields (h : type.Holds fields) {payload : Payload}
    (hmerge : type.mergeFields fields payload = .ok fields') : type.Holds fields' :=
  forall_mergeFields (fun _ _ _ hv => of_convertValue hv) h hmerge

/-- A field that fits is decoded to a value that fits and is written in the same way. -/
theorem decodeField (h : type.Holds fields) {v : FieldValue} (hv : fields.get? name = some v) :
    ∃ w d, Backlog.decodeField (some type) name v.toJson = some w ∧ type.field? name = some d ∧
      FieldValue.Fits d.kind w ∧ Document.ofValue w = Document.ofValue v := by
  obtain ⟨d, hd, hfits⟩ := h name v hv
  obtain ⟨w, hw, hfits, hwritten⟩ := hfits.decode
  refine ⟨w, d, ?_, hd, hfits, hwritten⟩
  unfold Backlog.decodeField
  simp only [Option.bind_some, hd]
  exact hw

end Holds

/-- Decoding entry by entry keeps a document if it keeps what is written of each entry. -/
theorem map_ofValue_filterMap {f : String → Json → Option FieldValue}
    {l : List (String × FieldValue)}
    (h : ∀ e ∈ l, ∃ w, f e.1 e.2.toJson = some w ∧ Document.ofValue w = Document.ofValue e.2) :
    (((l.map fun e => (e.1, e.2.toJson)).filterMap fun e =>
        (f e.1 e.2).map fun w => (e.1, w)).map fun e =>
          (Json.Literal.ofChars e.1.toList, Document.ofValue e.2)) =
      l.map fun e => (Json.Literal.ofChars e.1.toList, Document.ofValue e.2) := by
  induction l with
  | nil => rfl
  | cons e rest ih =>
    obtain ⟨w, hw, hwritten⟩ := h e List.mem_cons_self
    have hrest := ih fun x hx => h x (List.mem_cons_of_mem e hx)
    rw [List.map_cons, List.filterMap_cons, hw, Option.map_some, List.map_cons, List.map_cons,
      hrest, hwritten]

/-- **Fields that fit are decoded to fields that fit and have their document.** -/
theorem Holds.decode (h : type.Holds fields) :
    type.Holds (decodeFields (some type) fields.toPayload) ∧
      Document.ofFields (decodeFields (some type) fields.toPayload) = Document.ofFields fields := by
  constructor
  · intro name w hw
    rw [decodeFields_get?, Fields.toPayload, SortedMap.get?_map] at hw
    cases hv : fields.get? name with
    | none => simp [hv] at hw
    | some v =>
      obtain ⟨w', d, hw', hd, hfits, -⟩ := h.decodeField hv
      rw [hv, Option.map_some, Option.bind_some, hw'] at hw
      exact ⟨d, hd, Option.some.inj hw ▸ hfits⟩
  · refine congrArg Json.Tree.object (map_ofValue_filterMap fun e he => ?_)
    obtain ⟨w, d, hw, -, -, hwritten⟩ := h.decodeField (SortedMap.mem_entries_iff.mp he)
    exact ⟨w, hw, hwritten⟩

-- ---------------------------------------------------------------------------
-- Schemas that were checked
-- ---------------------------------------------------------------------------

/-- No field is declared twice. -/
def IsDistinct (type : ItemType) : Prop := type.fields.Pairwise fun d d' => d.name ≠ d'.name

instance (type : ItemType) : Decidable type.IsDistinct :=
  inferInstanceAs (Decidable (type.fields.Pairwise fun d d' => d.name ≠ d'.name))

theorem find?_of_mem {d : FieldDefinition} {ds : List FieldDefinition}
    (h : ds.Pairwise fun d d' => d.name ≠ d'.name) (hd : d ∈ ds) :
    (ds.find? fun d' => d'.name = d.name) = some d := by
  induction ds with
  | nil => simp at hd
  | cons e rest ih =>
    obtain ⟨hfirst, hrest⟩ := List.pairwise_cons.mp h
    rcases List.mem_cons.mp hd with rfl | hd
    · exact List.find?_cons_of_pos (by simp)
    · rw [List.find?_cons_of_neg (by simpa using hfirst d hd), ih hrest hd]

/-- A declaration is found by its name. -/
theorem IsDistinct.field?_of_mem (h : type.IsDistinct) {d : FieldDefinition}
    (hd : d ∈ type.fields) :
    type.field? d.name = some d :=
  find?_of_mem h hd

theorem pairwise_of_validateFields {ds : List FieldDefinition} {seen : List String}
    (h : validateFields seen ds = .ok ()) :
    ds.Pairwise (fun d d' => d.name ≠ d'.name) ∧ ∀ d ∈ ds, d.name ∉ seen := by
  induction ds generalizing seen with
  | nil => exact ⟨.nil, by simp⟩
  | cons d rest ih =>
    rw [validateFields] at h
    split at h
    · simp at h
    · split at h
      · simp at h
      · next hseen =>
        obtain ⟨hpairs, hnew⟩ := ih h
        refine ⟨List.pairwise_cons.mpr ⟨fun d' hd' e => ?_, hpairs⟩, fun d' hd' => ?_⟩
        · exact hnew d' hd' (e ▸ List.mem_cons_self)
        · rcases List.mem_cons.mp hd' with rfl | hd'
          · exact hseen
          · exact fun hmem => hnew d' hd' (List.mem_cons_of_mem d.name hmem)

/-- A schema that passes its check declares no field twice. -/
theorem isDistinct_of_checkSchema (h : WorkItems.checkSchema type = .ok ()) : type.IsDistinct := by
  unfold WorkItems.checkSchema validate at h
  by_cases hname : Text.blank type.name = true
  · simp [hname] at h
  · by_cases hempty : type.fields.isEmpty = true
    · simp [hname, hempty] at h
    · simp only [hname, hempty, if_false, Bool.false_eq_true] at h
      cases hfields : validateFields [] type.fields with
      | ok u => exact (pairwise_of_validateFields hfields).1
      | error fault => simp [hfields] at h

end ItemType

-- ---------------------------------------------------------------------------
-- Typed tables
-- ---------------------------------------------------------------------------

namespace Tables

/-- What a row holds fits the type that the tables have for it. -/
def TypedRow (t : Tables) (r : ItemRow) : Prop :=
  ∃ type fields, t.type? r.typeName = .ok (some type) ∧ type.Holds fields ∧
    r.fields = .ofTree (Document.ofFields fields)

/-- Types are written as the store writes them, and no field of them is declared twice. -/
def Declared (t : Tables) : Prop :=
  ∀ name doc, t.types.get? name = some doc →
    ∃ type : ItemType, type.name = name ∧ doc = definitionsOf type ∧ type.IsDistinct

/-- Types are written as the store writes them, and what rows hold fits them. -/
structure Typed (t : Tables) : Prop where
  types : t.Declared
  rows : ∀ row r, t.items.get? row = some r → t.TypedRow r

variable {t t' : Tables}

theorem Declared.congr (h : t.Declared) (htypes : t'.types = t.types) : t'.Declared :=
  fun name doc hdoc => h name doc (htypes ▸ hdoc)

/-- A type that declares no field twice may be put in. -/
theorem Declared.insert (h : t.Declared) {type : ItemType} (hdistinct : type.IsDistinct) :
    { t with types := t.types.insert type.name (definitionsOf type) }.Declared :=
  SortedMap.forall_get?_insert h ⟨type, rfl, rfl, hdistinct⟩

/-- A type with a row is found as it was written. -/
theorem Declared.type?_ok (h : t.Declared) {name : String} {doc : StoredDocument}
    (hdoc : t.types.get? name = some doc) :
    ∃ type : ItemType, t.type? name = .ok (some type) ∧ doc = definitionsOf type ∧
      type.name = name ∧ type.IsDistinct := by
  obtain ⟨type, rfl, rfl, hdistinct⟩ := h name doc hdoc
  refine ⟨type, ?_, rfl, rfl, hdistinct⟩
  unfold type?
  rw [hdoc]
  simp only [decodeType_definitionsOf]
  rfl

/-- A type that is found is the one that was written, and no field of it is declared twice. -/
theorem Declared.type?_held (h : t.Declared) {name : String} {type : ItemType}
    (htype : t.type? name = .ok (some type)) :
    t.types.get? name = some (definitionsOf type) ∧ type.name = name ∧ type.IsDistinct := by
  cases hdoc : t.types.get? name with
  | none =>
    unfold type? at htype
    simp [hdoc] at htype
  | some doc =>
    obtain ⟨type', hfound, rfl, hname, hdistinct⟩ := h.type?_ok hdoc
    rw [hfound] at htype
    obtain rfl := Option.some.inj (Except.ok.inj htype)
    exact ⟨rfl, hname, hdistinct⟩

/-- An item that is found was decoded from its row. -/
theorem row_of_item? {row : Int} {i : WorkItem} (h : t.item? row = .ok (some i)) :
    ∃ r, t.items.get? row = some r ∧ t.decodeItem row r = .ok i := by
  unfold item? at h
  cases hr : t.items.get? row with
  | none => simp [hr] at h
  | some r =>
    cases hdecode : t.decodeItem row r with
    | error fault => simp [hr, hdecode, Except.map] at h
    | ok j =>
      simp only [hr, hdecode, Except.map, Except.ok.injEq, Option.some.injEq] at h
      exact ⟨r, rfl, by rw [h] at hdecode; exact hdecode⟩

namespace Typed

/-- A type that is found is the one that was written, and no field of it is declared twice. -/
theorem type?_held (h : t.Typed) {name : String} {type : ItemType}
    (htype : t.type? name = .ok (some type)) :
    t.types.get? name = some (definitionsOf type) ∧ type.name = name ∧ type.IsDistinct :=
  h.types.type?_held htype

/-- **Every row is decoded to an item whose fields fit its type**, and the document of the row is
the document of these fields. -/
theorem decodeItem_ok (h : t.Typed) {row : Int} {r : ItemRow} (hr : t.items.get? row = some r) :
    ∃ type fields, t.type? r.typeName = .ok (some type) ∧
      t.decodeItem row r = .ok ⟨.ofRow row, r.typeName, r.version, fields⟩ ∧ type.Holds fields ∧
      r.fields = .ofTree (Document.ofFields fields) := by
  obtain ⟨type, fields, htype, hholds, hdoc⟩ := h.rows row r hr
  obtain ⟨hdecoded, hwritten⟩ := hholds.decode
  refine ⟨type, _, htype, ?_, hdecoded, by rw [hdoc, hwritten]⟩
  unfold decodeItem
  simp only [htype, hdoc, Document.payload?_ofFields]

/-- Tables with the same types and items are typed alike. -/
theorem congr (h : t.Typed) (htypes : t'.types = t.types) (hitems : t'.items = t.items) :
    t'.Typed where
  types := h.types.congr htypes
  rows row r hr := by
    obtain ⟨type, fields, htype, hholds, hdoc⟩ := h.rows row r (hitems ▸ hr)
    exact ⟨type, fields, (type?_congr (by rw [htypes])).trans htype, hholds, hdoc⟩

/-- A row that is written over typed tables keeps them typed if it is typed itself. -/
theorem insertRow (h : t.Typed) (row last : Int) {r : ItemRow} (hr : t.TypedRow r) :
    { t with items := t.items.insert row r, lastItem := last }.Typed where
  types := h.types
  rows := SortedMap.forall_get?_insert h.rows hr

theorem insertItem (h : t.Typed) {type : ItemType} {version : Nat} {fields : Fields} {i : WorkItem}
    (htype : t.type? type.name = .ok (some type)) (hholds : type.Holds fields)
    (hw : t.insertItem type.name version fields = (.ok i, t')) : t'.Typed := by
  rcases t.insertItem_cases type.name version fields with ⟨_, hno⟩ | ⟨-, -, hyes⟩
  · exact absurd (Prod.mk.inj (hno.symm.trans hw)).1 (by simp)
  · obtain ⟨-, rfl⟩ := Prod.mk.inj (hyes.symm.trans hw)
    exact h.insertRow _ _ ⟨type, fields, htype, hholds, rfl⟩

theorem updateItem (h : t.Typed) {item : WorkItem} {expected : Nat}
    (hholds : ∀ row r, item.id.row? = some row → t.items.get? row = some r →
      ∃ type, t.type? r.typeName = .ok (some type) ∧ type.Holds item.fields)
    (hw : t.updateItem item expected = (.ok true, t')) : t'.Typed := by
  rcases t.updateItem_cases item expected with ⟨_, hne, hno⟩ | ⟨row, r, hrow, hr, -, hyes⟩
  · exact absurd (Prod.mk.inj (hno.symm.trans hw)).1 hne
  · obtain ⟨-, rfl⟩ := Prod.mk.inj (hyes.symm.trans hw)
    obtain ⟨type, htype, hfields⟩ := hholds row r hrow hr
    exact h.insertRow row t.lastItem ⟨type, item.fields, htype, hfields, rfl⟩

theorem deleteItem (h : t.Typed) (row : Int) : (t.deleteItem row).2.Typed := by
  unfold Tables.deleteItem
  split
  · exact ⟨h.types, SortedMap.forall_get?_erase h.rows⟩
  · exact h

theorem insertType (h : t.Typed) {type : ItemType} (hdistinct : type.IsDistinct)
    (hw : t.insertType type = (true, t')) : t'.Typed := by
  obtain ⟨-, hkeeps⟩ := type?_insertType hw
  unfold Tables.insertType at hw
  split at hw
  · simp at hw
  · obtain ⟨-, rfl⟩ := Prod.mk.inj hw
    refine ⟨h.types.insert hdistinct, fun row r hr => ?_⟩
    obtain ⟨type', fields, htype, hholds, hdoc⟩ := h.rows row r hr
    exact ⟨type', fields, hkeeps _ _ htype, hholds, hdoc⟩

end Typed

/-- The types that new tables hold are written as they are. -/
theorem declared_new : Tables.new.Declared := by
  refine forall_get?_seed (fun _ _ h => nomatch h) fun type htype => ⟨type, rfl, rfl, ?_⟩
  obtain ⟨name, -, rfl⟩ := List.mem_map.mp htype
  show (ItemType.systemFields.Pairwise fun d d' => d.name ≠ d'.name)
  decide

/-- New tables are typed. -/
theorem typed_new : Tables.new.Typed where
  types := declared_new
  rows _ _ h := nomatch h

end Tables

-- ---------------------------------------------------------------------------
-- Every call
-- ---------------------------------------------------------------------------

open Tx WorkItems

variable {o o' : Open Tables}

/-- A type that a call looks up is the type that the tables hold. -/
theorem Coherent.type?_looked (h : Coherent o) {name : String} {type : ItemType}
    (hs : (WorkItems.type name : Tx Tables ItemType).steps o.looked = (.ok type, o')) :
    o.store.type? name = .ok (some type) := by
  have hlooked : Coherent o.looked := h.of_alike (.looked o)
  have hfound := hlooked.type_ok hs
  rwa [Open.store_looked] at hfound

theorem WorkItems.typed_create (h : Coherent o) (htyped : o.store.Typed) {name : String}
    {payload : Payload} {creator : Identity} {r : Except AccessError WorkItem}
    (hs : (create name payload creator : Tx Tables WorkItem).steps o = (r, o')) :
    o'.store.Typed := by
  rcases create_cases hs with ⟨_, -, hstore⟩ | ⟨type, o₁, fields, i, t, ht, hf, hw, -, rfl⟩
  · exact hstore ▸ htyped
  · have htype := h.type?_looked ht
    obtain rfl := Tables.name_of_type? htype
    exact htyped.insertItem htype (.convertFields hf) hw

theorem WorkItems.typed_save (h : Coherent o) (htyped : o.store.Typed) {u : WorkItemUpdate}
    {r : Except AccessError WorkItem}
    (hs : (save u : Tx Tables WorkItem).steps o = (r, o')) : o'.store.Typed := by
  rcases save_cases hs with
    ⟨_, -, hstore⟩ | ⟨row, stored, type, o₁, fields, t, -, hstored, -, ht, hf, hw, -, rfl⟩
  · exact hstore ▸ htyped
  · have htype := h.type?_looked ht
    refine htyped.updateItem (fun row' r' hrow' hr' => ?_) hw
    -- what was found is the item of the row, so the type that was looked up is that of the row
    obtain ⟨r, hr, hitem⟩ := Tables.row_of_item? hstored
    obtain ⟨type', held, htype', hdecode, hholds, -⟩ := htyped.decodeItem_ok hr
    rw [hdecode] at hitem
    obtain rfl := Except.ok.inj hitem
    obtain rfl := eq_of_rowOf?_rowText hrow'
    rw [hr] at hr'
    obtain rfl := Option.some.inj hr'
    rw [htype'] at htype
    obtain rfl := Option.some.inj (Except.ok.inj htype)
    exact ⟨type', htype', hholds.mergeFields hf⟩

theorem Tables.Typed.insertIteration {t t' : Tables} (h : t.Typed) {i j : Iteration}
    (hw : t.insertIteration i = (.ok j, t')) : t'.Typed := by
  rcases t.insertIteration_cases i with ⟨_, hno⟩ | hyes
  · exact absurd (Prod.mk.inj (hno.symm.trans hw)).1 (by simp)
  · obtain ⟨-, rfl⟩ := Prod.mk.inj (hyes.symm.trans hw)
    exact h.congr rfl rfl

theorem Tables.Typed.updateIteration {t t' : Tables} (h : t.Typed) {i : Iteration}
    (hw : t.updateIteration i = (.ok true, t')) : t'.Typed := by
  rcases t.updateIteration_cases i with ⟨_, hne, hno⟩ | ⟨_, _, -, -, hyes⟩
  · exact absurd (Prod.mk.inj (hno.symm.trans hw)).1 hne
  · obtain ⟨-, rfl⟩ := Prod.mk.inj (hyes.symm.trans hw)
    exact h.congr rfl rfl

/-- What a call makes of typed tables is typed, if the call writes no fields and migrates no types
and a type that it publishes was checked. -/
theorem Request.Writes.typed {t t' : Tables} {q : Request} {r : Except AccessError Reply}
    (hw : Request.Writes t q r t') (h : t.Typed)
    (hcreate : ∀ name payload creator, q ≠ .create name payload creator)
    (hsave : ∀ u, q ≠ .save u) (hmigrate : ∀ ts, q ≠ .migrate ts)
    (hpublish : ∀ type, q = .publish type → r.isOk = true → type.IsDistinct) : t'.Typed := by
  cases hw with
  | failed | read => exact h
  | create => exact absurd rfl (hcreate _ _ _)
  | save => exact absurd rfl (hsave _)
  | migrate | halfMigrated => exact absurd rfl (hmigrate _)
  | @delete id row s' hrow hw =>
    obtain ⟨-, rfl⟩ := Prod.mk.inj hw
    exact h.deleteItem row
  | @publish type s' hw =>
    obtain ⟨hyes, rfl⟩ := Prod.mk.inj hw
    exact h.insertType (hpublish type rfl rfl) (Prod.ext (Except.ok.inj hyes) rfl)
  | createIteration _ _ hw => exact h.insertIteration hw
  | saveIteration _ _ _ hw => exact h.updateIteration hw

/-- A type that was published declares no field twice. -/
theorem Request.isDistinct_of_publish (config : ServiceConfig) {type : ItemType}
    {r : Except AccessError Reply}
    (hs : (perform config (.publish type) : Tx Tables Reply).steps o = (r, o'))
    (hok : r.isOk = true) : type.IsDistinct := by
  obtain ⟨v, hv, hr⟩ := steps_map_cases hs
  rcases publish_cases hv with ⟨e, rfl, -⟩ | ⟨_, hcheck, -, -, -⟩
  · rw [hr] at hok
    simp [Except.map, Except.isOk, Except.toBool] at hok
  · exact ItemType.isDistinct_of_checkSchema hcheck

/-- **A call that migrates no types keeps tables typed.** -/
theorem Request.typed (config : ServiceConfig) {q : Request} (hq : ∀ ts, q ≠ .migrate ts)
    (h : Coherent o) (htyped : o.store.Typed) :
    ((perform config q : Tx Tables Reply).steps o).2.store.Typed := by
  have hs := (Prod.eta ((perform config q : Tx Tables Reply).steps o)).symm
  by_cases hcreate : ∃ name payload creator, q = .create name payload creator
  · obtain ⟨name, payload, creator, rfl⟩ := hcreate
    obtain ⟨v, hv, -⟩ := steps_map_cases hs
    exact typed_create h htyped hv
  by_cases hsave : ∃ u, q = .save u
  · obtain ⟨u, rfl⟩ := hsave
    obtain ⟨v, hv, -⟩ := steps_map_cases hs
    exact typed_save h htyped hv
  refine (Request.writes config q hs).typed htyped
    (fun name payload creator e => hcreate ⟨name, payload, creator, e⟩)
    (fun u e => hsave ⟨u, e⟩) hq ?_
  rintro type rfl hok
  exact Request.isDistinct_of_publish config hs hok

end Backlog
