import Backlog.Proofs.Pages

/-!
# Rows that outlive a schema

A row keeps the literals that were stored in it. Each of them is loaded in the kind that is declared
for its field by then, or else as what it looks like. When a type changes, what a field is loaded as
may be written in another form than it is stored: a text of digits is loaded as the number, where a
number is declared. A clause looks at what is stored, and a filter at what is loaded.

A row is *settled* when all of its fields are loaded in the form in which they are stored. It then
tells the fields of its item, also those of another kind than declared, so clauses select it when
their filters hold. And only then: for a field that is loaded in another form there is an equality
that shows the difference. That is the value that is loaded itself, with one exception. A number in
the place of an identifier is still found by the identifier that it is, but also by other texts that
read as the number.

## Main results

* `FieldValue.told_of_loaded` — a value that is loaded is told by the declaration of its field;
* `FieldKind.keepsForm_iff` — which kinds are loaded as they are stored when a declaration changes;
* `Clause.exists_missed` — a field that is loaded in another form than it is stored is missed;
* `Tables.Written.selects_iff` — clauses select what filters hold for if all rows are settled, and
  only then.
-/

namespace Backlog

open Json (Tree Literal)

-- ---------------------------------------------------------------------------
-- Numbers that are spelled differently
-- ---------------------------------------------------------------------------

/-- A number with a sign and a zero in front, which is an integer to a reader and not the way in
which the integer is written. -/
def Text.spelled (n : Int) : String :=
  String.ofList ((if n < 0 then '-' else '+') :: '0' :: Nat.toDigits 10 n.natAbs)

namespace Text

theorem isSigned_spelled (n : Int) : isSigned (spelled n) = true := by
  rw [isSigned, spelled, String.toList_ofList]
  by_cases h : n < 0
  · rw [if_pos h]
    rfl
  · rw [if_neg h]
    rfl

theorem trim_spelled (n : Int) : trim (spelled n) = spelled n := by
  have hsign : isBlank (if n < 0 then '-' else '+') = false := by
    split
    · decide
    · decide
  have hne : Nat.toDigits 10 n.natAbs ≠ [] := Nat.toDigits_ne_nil
  have hlast : isBlank ((Nat.toDigits 10 n.natAbs).getLast hne) = false :=
    isBlank_of_isDigit (Nat.isDigit_of_mem_toDigits (by decide) (by decide) (List.getLast_mem hne))
  have htrim :=
    @trimChars_of_not_blank _ _ ('0' :: (Nat.toDigits 10 n.natAbs).dropLast) hsign hlast
  rw [List.cons_append, List.dropLast_concat_getLast] at htrim
  rw [trim, spelled, String.toList_ofList, htrim]

theorem integer?_spelled (n : Int) : integer? (spelled n).toList = some n := by
  have hdigits : natural? ('0' :: Nat.toDigits 10 n.natAbs) = some n.natAbs := by
    unfold natural?
    rw [if_pos]
    · rw [Nat.ofDigitChars_cons]
      exact congrArg some (Nat.ofDigitChars_toDigits (by decide) (by decide))
    · refine ⟨List.cons_ne_nil _ _, List.all_eq_true.mpr fun c hc => ?_⟩
      rcases List.mem_cons.mp hc with rfl | hc
      · decide
      · exact Nat.isDigit_of_mem_toDigits (by decide) (by decide) hc
  rw [spelled, String.toList_ofList]
  by_cases h : n < 0
  · rw [if_pos h, integer?, hdigits]
    simp only [Option.map_some, Option.some.injEq]
    omega
  · rw [if_neg h, integer?, hdigits]
    exact congrArg some (Int.natAbs_of_nonneg (by omega))

theorem spelled_ne_decimal (n : Int) : spelled n ≠ decimal n := by
  intro h
  have hlength := congrArg (fun s => s.toList.length) h
  simp only [spelled, decimal, decimalChars, String.toList_ofList] at hlength
  split at hlength
  · simp at hlength
  · simp only [List.length_cons] at hlength
    omega

end Text

-- ---------------------------------------------------------------------------
-- Values that are loaded
-- ---------------------------------------------------------------------------

namespace FieldValue

variable {declared : Option FieldKind} {v w : FieldValue} {literal : Json}

/-- Whether a value that is loaded from a field with some declaration, or with none, is told as it
is: a text has no character zero and is not the text of an instant that no reader takes back, and an
instant is plain. -/
def isTold (declared : Option FieldKind) : FieldValue → Bool
  | .string s => Text.isUnbroken s && !(declared == some .timestamp && Text.isSigned s)
  | .identifier s => Text.isUnbroken s
  | .timestamp t => t.isPlain
  | _ => true

/-- What a literal looks like is stored as that literal. -/
theorem toJson_of_infer (h : infer literal = some v) : v.toJson = literal := by
  unfold infer at h
  split at h
  · rw [← Option.some.inj h]
    rfl
  · obtain ⟨n, hn, rfl⟩ := Option.map_eq_some_iff.mp h
    rw [toJson, Text.toInt_of_exactInt64? hn]
    rfl
  · rw [← Option.some.inj h]
    rfl
  · simp at h

theorem toJson_of_writtenText? {s : String} (h : w.writtenText? = some s) :
    w.toJson = .string s := by
  cases w with
  | integer n => simp [writtenText?] at h
  | bool b => simp [writtenText?] at h
  | _ => rw [← Option.some.inj h]; rfl

/-- A value is loaded in the declared kind, or it is what its literal looks like. -/
theorem loaded_cases
    (h : (declared.bind fun kind => ofJson? kind literal).or (infer literal) = some v) :
    (∃ kind, declared = some kind ∧ ofJson kind literal = .ok v) ∨
      (∀ kind, declared = some kind → ofJson? kind literal = none) ∧ infer literal = some v := by
  cases declared with
  | none => exact .inr ⟨by simp, by simpa using h⟩
  | some kind =>
    rcases Option.or_eq_some_iff.mp h with hkind | ⟨hkind, hinfer⟩
    · exact .inl ⟨kind, rfl, ofJson?_eq_some_iff.mp hkind⟩
    · exact .inr ⟨fun kind' hkind' => Option.some.inj hkind' ▸ hkind, hinfer⟩

/-- A value that is not written as a text is told by any declaration. -/
theorem Plain.told_of_unwritten (h : Plain v.kind v) (hwritten : v.writtenText? = none) :
    Told declared v := by
  refine ⟨h, fun t ht => ?_, fun n hn => ?_⟩
  · rw [hwritten] at ht
    simp at ht
  · rw [hwritten] at hn
    simp at hn

/-- A text that is no value of the declared kind is told by the declaration. -/
theorem told_of_not_read {s : String}
    (hnone : ∀ kind, declared = some kind → ofJson? kind (.string s) = none)
    (hs : (string s).isTold declared = true) : Told declared (.string s) := by
  obtain ⟨hbroken, hsigned⟩ := Bool.and_eq_true_iff.mp hs
  refine ⟨.string hbroken, fun t ht => iff_of_false ?_ (by simp [kind]),
    fun n hn => iff_of_false ?_ (by simp [kind])⟩
  · -- in place of an instant, the text of an instant is one that begins with a sign
    rintro rfl
    obtain rfl := Option.some.inj ht
    have hyear : ¬ (0 ≤ t.year ∧ t.year ≤ 9999) := by
      intro hyear
      have hread : ofJson .timestamp (.string t.text) = .ok (.timestamp t.truncated) := by
        rw [ofJson_timestamp_iff, Timestamp.trim_text, Timestamp.read_text hyear.1 hyear.2]
      have hno := hnone .timestamp rfl
      rw [ofJson?_eq_some_iff.mpr hread] at hno
      exact absurd hno (by simp)
    rw [Timestamp.isSigned_text hyear] at hsigned
    exact absurd hsigned (by decide)
  · -- a number is an identifier
    rintro rfl
    obtain rfl := Option.some.inj hn
    have hno := hnone .identifier rfl
    rw [ofJson?_eq_some_iff.mpr (ofJson_identifier_iff.mpr ⟨isIdentifier_decimal n, rfl⟩)] at hno
    exact absurd hno (by simp)

/-- A value that is loaded is told by the declaration of its field. -/
theorem told_of_loaded
    (h : (declared.bind fun kind => ofJson? kind literal).or (infer literal) = some v)
    (hv : v.isTold declared = true) : Told declared v := by
  rcases loaded_cases h with ⟨kind, rfl, hconvert⟩ | ⟨hnone, hinfer⟩
  · have hfits := fits_of_ofJson hconvert
    have hplain : v.isPlainIn kind = true := by
      have hkind := ofJson_kind hconvert
      subst hkind
      cases v with
      | string s => simpa [isPlainIn, isTold, kind] using hv
      | identifier s => simpa [isPlainIn, isTold, kind] using hv
      | timestamp t => exact hv
      | _ => rfl
    exact (hfits.plain hplain).told
  · cases v with
    | integer n => exact Plain.told_of_unwritten (v := .integer n) (.integer n) rfl
    | bool b => exact Plain.told_of_unwritten (v := .bool b) (.bool b) rfl
    | timestamp t => exact absurd (infer_kind hinfer) (by simp [kind])
    | identifier s => exact absurd (infer_kind hinfer) (by simp [kind])
    | string s =>
      obtain rfl := toJson_of_infer hinfer
      exact told_of_not_read hnone hv

theorem equalsStored_self (v : FieldValue) : Filter.equalsStored v v = true := by
  rw [Filter.equalsStored, coerceTo_self]
  exact beq_self_eq_true _

end FieldValue

theorem decodeField_eq (type : ItemType) (name : String) (literal : Json) :
    decodeField (some type) name literal =
      ((type.kind? name).bind fun kind => FieldValue.ofJson? kind literal).or
        (FieldValue.infer literal) := by
  rw [decodeField, ItemType.kind?, Option.bind_map]
  rfl

theorem Json.eq_string_of_text? {j : Json} {s : String} (h : j.text? = some s) : j = .string s := by
  unfold Json.text? at h
  split at h
  · rw [Option.some.inj h]
  · simp at h

-- ---------------------------------------------------------------------------
-- Kinds that are changed
-- ---------------------------------------------------------------------------

/-- Whether every value of a kind is loaded in the form in which it is stored when its field has a
new declaration, or is not declared any more. Texts may read as values of other kinds, and integers
may count microseconds or be identifiers. -/
def FieldKind.keepsForm : FieldKind → Option FieldKind → Bool
  | .string, some .integer | .string, some .bool | .string, some .timestamp => false
  | .identifier, some .integer | .identifier, some .bool | .identifier, some .timestamp => false
  | .integer, some .timestamp | .integer, some .identifier => false
  | _, _ => true

namespace FieldValue

/-- A text that is taken for a text or for an identifier is stored as it is. -/
theorem toJson_of_ofJson_text {new : FieldKind} {s : String} {w : FieldValue}
    (hnew : new = .string ∨ new = .identifier) (h : ofJson new (.string s) = .ok w) :
    w.toJson = .string s := by
  have hkind := ofJson_kind h
  rcases hnew with rfl | rfl
  · rw [ofJson_string_iff.mp h]
    rfl
  · cases w with
    | identifier s' =>
      rw [(ofJson_identifier_iff.mp h).2]
      rfl
    | _ => simp [kind] at hkind

/-- The text of a plain instant is stored as it is, whatever it is taken for. -/
theorem toJson_of_ofJson_instant {new : FieldKind} {t : Timestamp} {w : FieldValue}
    (ht : t.isPlain = true) (h : ofJson new (.string t.text) = .ok w) :
    w.toJson = .string t.text := by
  cases new with
  | string => exact toJson_of_ofJson_text (.inl rfl) h
  | identifier => exact toJson_of_ofJson_text (.inr rfl) h
  | timestamp =>
    have hkind := ofJson_kind h
    cases w with
    | timestamp u =>
      rw [ofJson_timestamp_iff, Timestamp.trim_text, Timestamp.read_text_of_isPlain ht] at h
      rw [Except.ok.inj h, toJson]
    | _ => simp [kind] at hkind
  | integer =>
    simp [ofJson, orMismatch_eq_ok, integerOf?, Timestamp.trim_text, Timestamp.int64?_text] at h
  | bool =>
    have htrue : t.text ≠ "true" := Timestamp.text_ne (by decide)
    have hfalse : t.text ≠ "false" := Timestamp.text_ne (by decide)
    simp [ofJson, orMismatch_eq_ok, boolOf?, Timestamp.trim_text, htrue, hfalse] at h

/-- A kind keeps its form if all of its values do. -/
theorem Plain.toJson_of_loaded {old : FieldKind} {v w : FieldValue} {declared : Option FieldKind}
    (h : Plain old v) (hkeeps : old.keepsForm declared = true)
    (hload : (declared.bind fun kind => ofJson? kind v.toJson).or (infer v.toJson) = some w) :
    w.toJson = v.toJson := by
  rcases loaded_cases hload with ⟨new, rfl, hconvert⟩ | ⟨-, hinfer⟩
  case inr => exact toJson_of_infer hinfer
  cases h with
  | string _ =>
    cases new with
    | string => exact toJson_of_ofJson_text (.inl rfl) hconvert
    | identifier => exact toJson_of_ofJson_text (.inr rfl) hconvert
    | _ => simp [FieldKind.keepsForm] at hkeeps
  | integer n =>
    cases new with
    | integer =>
      rw [ofJson_integer] at hconvert
      rw [Except.ok.inj hconvert]
    | string => simp [toJson, ofJson, orMismatch_eq_ok, Json.text?, Json.int] at hconvert
    | bool => simp [toJson, ofJson, orMismatch_eq_ok, boolOf?, Json.int] at hconvert
    | _ => simp [FieldKind.keepsForm] at hkeeps
  | bool b =>
    cases new with
    | bool => rw [← Except.ok.inj (show Except.ok (FieldValue.bool b) = .ok w from hconvert)]
    | timestamp => simp [toJson, ofJson, timestampOf, Except.map] at hconvert
    | _ =>
      simp [toJson, ofJson, orMismatch_eq_ok, Json.text?, integerOf?, identifierOf?] at hconvert
  | timestamp ht => exact toJson_of_ofJson_instant ht hconvert
  | identifier _ _ =>
    cases new with
    | string => exact toJson_of_ofJson_text (.inl rfl) hconvert
    | identifier => exact toJson_of_ofJson_text (.inr rfl) hconvert
    | _ => simp [FieldKind.keepsForm] at hkeeps

/-- A text that reads as a value of another kind has a value that is loaded in another form. -/
theorem exists_changed_of_text {old new : FieldKind} {s : String} {w : FieldValue}
    (hold : old = .string ∨ old = .identifier) (hs : Text.isUnbroken s = true)
    (hid : isIdentifier s = true) (hread : ofJson? new (.string s) = some w)
    (hne : w.toJson ≠ .string s) :
    ∃ v w, Plain old v ∧ ((some new).bind fun kind => ofJson? kind v.toJson).or (infer v.toJson) =
      some w ∧ w.toJson ≠ v.toJson := by
  rcases hold with rfl | rfl
  · exact ⟨.string s, w, .string hs, by simp [toJson, hread], hne⟩
  · exact ⟨.identifier s, w, .identifier hid hs, by simp [toJson, hread], hne⟩

/-- A kind that does not keep its form has a value that is loaded in another one. -/
theorem exists_changed_of_not_keepsForm {old : FieldKind} {declared : Option FieldKind}
    (h : old.keepsForm declared = false) :
    ∃ v w, Plain old v ∧ (declared.bind fun kind => ofJson? kind v.toJson).or (infer v.toJson) =
      some w ∧ w.toJson ≠ v.toJson := by
  unfold FieldKind.keepsForm at h
  split at h
  case h_1 | h_4 =>
    exact exists_changed_of_text (by simp) (s := "7") (w := .integer 7) (by decide) (by decide)
      (by decide +kernel) (by decide)
  case h_2 | h_5 =>
    exact exists_changed_of_text (by simp) (s := "true") (w := .bool true) (by decide) (by decide)
      (by decide +kernel) (by decide)
  case h_3 | h_6 =>
    exact exists_changed_of_text (by simp) (s := "1970-01-01T00:00:00Z") (w := .timestamp default)
      (by decide) (by decide) (by decide +kernel) (by decide +kernel)
  case h_7 =>
    exact ⟨.integer 0, .timestamp default, .integer 0, by decide +kernel, by decide⟩
  case h_8 =>
    exact ⟨.integer 0, .identifier "0", .integer 0, by decide +kernel, by decide⟩
  case h_9 => exact absurd h (by decide)

end FieldValue

/-- **A kind keeps its form under a new declaration if and only if all of its values are loaded in
the form in which they are stored.** -/
theorem FieldKind.keepsForm_iff {old : FieldKind} {declared : Option FieldKind} :
    old.keepsForm declared = true ↔ ∀ v w, FieldValue.Plain old v →
      (declared.bind fun kind => FieldValue.ofJson? kind v.toJson).or (FieldValue.infer v.toJson) =
        some w → w.toJson = v.toJson := by
  refine ⟨fun h v w hv => hv.toJson_of_loaded h, fun h => ?_⟩
  cases hkeeps : old.keepsForm declared with
  | true => rfl
  | false =>
    obtain ⟨v, w, hv, hload, hne⟩ := FieldValue.exists_changed_of_not_keepsForm hkeeps
    exact absurd (h v w hv hload) hne

-- ---------------------------------------------------------------------------
-- Literals that miss what is loaded
-- ---------------------------------------------------------------------------

/-- A number that is spelled differently is an exact literal, -/
theorem FieldValue.isExact_spelled (n : Int) :
    (FieldValue.string (Text.spelled n)).isExact = true := by
  obtain ⟨fault, hfault⟩ := Timestamp.read_of_isSigned (Text.isSigned_spelled n)
  rw [isExact, Text.trim_spelled, hfault]

/-- and it is not the identifier that the number is. -/
theorem FieldValue.not_equalsStored_spelled (n : Int) :
    Filter.equalsStored (.string (Text.spelled n)) (.identifier (Text.decimal n)) ≠ true := by
  rw [ne_eq, Filter.equalsStored, beq_iff_eq, coerceTo, if_neg (by simp [kind]),
    ofJson?_eq_some_iff]
  exact fun h => Text.spelled_ne_decimal n (ofJson_identifier_iff.mp h).2

namespace Clause

variable {r : RowView} {type : ItemType} {stored : Fields} {field : String} {v w : FieldValue}

section Stored

variable (h : r.Written type stored) (hf : Json.isUnescaped field = true)

include h hf

/-- Where integers are declared, an integer selects what is stored as that integer. -/
theorem stored_of_integer {n : Int64} (hkind : type.kind? field = some .integer)
    (hyes : eval r (ofEquality field (.integer n)) = .yes) :
    stored.get? field = some (.integer n) := by
  have hother : ∀ {s kind}, kind ≠ .integer → eval r (declaredArm field s kind) ≠ .yes := by
    intro s kind hne harm
    have hdeclared := (eval_declared_iff h _ _).mp (eval_pair_iff.mp harm).2
    rw [hkind] at hdeclared
    exact hne (Option.some.inj hdeclared).symm
  rw [ofEquality, eval_or_iff (firm_of_isUnescaped h.definitions hf (.integer n))] at hyes
  simp only [List.mem_cons, mem_microsArms] at hyes
  obtain ⟨c, rfl | rfl | ⟨t, -, rfl⟩, harm⟩ := hyes
  · exact (eval_integerArm_iff h hf n).mp harm
  · exact absurd harm (hother (by decide))
  · exact absurd harm (hother (by decide))

/-- A truth value selects what is stored as that truth value. -/
theorem stored_of_bool {b : Bool} (hyes : eval r (ofEquality field (.bool b)) = .yes) :
    stored.get? field = some (.bool b) := by
  rw [ofEquality, eval_or_iff (firm_of_isUnescaped h.definitions hf (.bool b))] at hyes
  simpa only [List.mem_singleton, exists_eq_left, eval_boolArm_iff h hf] using hyes

/-- An instant selects what is stored as its text. -/
theorem stored_of_timestamp {t : Timestamp} (hw : stored.get? field = some w)
    (hbroken : ∀ s, w.writtenText? = some s → Text.isUnbroken s = true)
    (hyes : eval r (ofEquality field (.timestamp t)) = .yes) : w.writtenText? = some t.text := by
  have harm : eval r (textArm field t.text) = .yes := by
    rw [ofEquality, eval_or_iff (firm_of_isUnescaped h.definitions hf (.timestamp t))] at hyes
    simpa only [List.mem_singleton, exists_eq_left] using hyes
  rw [eval_textArm_iff h hf fun hget hs => hbroken _ (Option.some.inj (hw.symm.trans hget) ▸ hs),
    hw] at harm
  obtain ⟨w', hget, hs⟩ := harm
  exact Option.some.inj hget ▸ hs

/-- A number selects what is stored as an integer, however the number is spelled. -/
theorem selects_spelled {n : Int64} (hw : stored.get? field = some (.integer n)) :
    eval r (ofEquality field (.string (Text.spelled n.toInt))) = .yes := by
  have hinteger : Text.int64? (Text.trim (Text.spelled n.toInt)) = some n := by
    rw [Text.trim_spelled, Text.int64?, Text.integer?_spelled, Option.bind_some,
      Text.exactInt64?_toInt]
  rw [ofEquality, ofText, eval_or_iff (firm_ofText h.definitions (isBroken_of_isUnescaped hf) _)]
  refine ⟨integerArm field n.toInt, ?_, (eval_integerArm_iff h hf n).mpr hw⟩
  simp only [List.mem_cons, List.mem_append, mem_integerArms]
  exact .inr (.inl (.inr ⟨n, hinteger, rfl⟩))

/-- **A field that is loaded in another form than it is stored is missed**: some literal selects the
row and is not the value that is loaded, or the other way round. -/
theorem exists_missed (hw : stored.get? field = some w)
    (hbroken : ∀ s, w.writtenText? = some s → Text.isUnbroken s = true)
    (hload : decodeField (some type) field w.toJson = some v)
    (hv : v.isTold (type.kind? field) = true) (hne : v.toJson ≠ w.toJson) :
    ∃ literal : FieldValue, literal.isExact = true ∧
      ¬ (eval r (ofEquality field literal) = .yes ↔ Filter.equalsStored literal v = true) := by
  rw [decodeField_eq] at hload
  rcases FieldValue.loaded_cases hload with ⟨kind, hkind, hconvert⟩ | ⟨-, hinfer⟩
  case inr => exact absurd (FieldValue.toJson_of_infer hinfer) hne
  obtain rfl := FieldValue.ofJson_kind hconvert
  -- the value that is loaded is a literal that holds for itself
  have hself := FieldValue.equalsStored_self v
  cases v with
  | string s =>
    obtain ⟨s', hs', heq⟩ := Option.map_eq_some_iff.mp (FieldValue.orMismatch_eq_ok.mp hconvert)
    obtain rfl := FieldValue.string.inj heq
    exact absurd (Json.eq_string_of_text? hs').symm hne
  | integer n =>
    refine ⟨.integer n, rfl, fun hiff => ?_⟩
    have hstored := stored_of_integer h hf hkind (hiff.mpr hself)
    exact hne (congrArg FieldValue.toJson (Option.some.inj (hw.symm.trans hstored))).symm
  | bool b =>
    refine ⟨.bool b, rfl, fun hiff => ?_⟩
    have hstored := stored_of_bool h hf (hiff.mpr hself)
    exact hne (congrArg FieldValue.toJson (Option.some.inj (hw.symm.trans hstored))).symm
  | timestamp t =>
    refine ⟨.timestamp t, hv, fun hiff => ?_⟩
    have hstored := stored_of_timestamp h hf hw hbroken (hiff.mpr hself)
    exact hne (FieldValue.toJson_of_writtenText? hstored).symm
  | identifier s =>
    cases w with
    | integer n =>
      have hvalue : FieldValue.identifier (Text.decimal n.toInt) = .identifier s :=
        Except.ok.inj hconvert
      rw [← hvalue]
      exact ⟨_, FieldValue.isExact_spelled n.toInt, fun hiff =>
        FieldValue.not_equalsStored_spelled n.toInt (hiff.mp (selects_spelled h hf hw))⟩
    | bool b =>
      exact absurd hconvert (by simp [FieldValue.kind, FieldValue.ofJson, FieldValue.toJson,
        FieldValue.identifierOf?, FieldValue.orMismatch])
    | _ =>
      exact absurd (congrArg Json.string (FieldValue.ofJson_identifier_iff.mp hconvert).2).symm hne

end Stored

end Clause

-- ---------------------------------------------------------------------------
-- Rows that are settled
-- ---------------------------------------------------------------------------

namespace Document

/-- A stored literal as it is written. -/
def ofLiteral : Json → Tree
  | .string s => ofText s
  | .number (.integer n) => .number (.ofInt n)
  | .bool b => .bool b
  | _ => .null

theorem ofValue_eq (v : FieldValue) : ofValue v = ofLiteral v.toJson := by
  cases v <;> rfl

/-- Fields with the same stored literals have the same document. -/
theorem ofFields_congr {fields fields' : Fields} (h : fields.toPayload = fields'.toPayload) :
    ofFields fields = ofFields fields' := by
  have hliterals : ∀ fields : Fields, ofFields fields =
      .object (fields.toPayload.entries.map fun e => (.ofChars e.1.toList, ofLiteral e.2)) := by
    intro fields
    rw [ofFields, Fields.toPayload, SortedMap.map, List.map_map]
    simp only [ofValue_eq]
    rfl
  rw [hliterals, hliterals, h]

end Document

/-- What is stored for a value looks like something. -/
theorem FieldValue.infer_toJson (v : FieldValue) : ∃ w, infer v.toJson = some w := by
  cases v with
  | integer n =>
    refine ⟨.integer n, ?_⟩
    show (Text.exactInt64? n.toInt).map FieldValue.integer = _
    rw [Text.exactInt64?_toInt]
    rfl
  | _ => exact ⟨_, rfl⟩

/-- Every stored value is loaded as something, by every type and without any. -/
theorem decodeField_isSome (type : Option ItemType) (name : String) (v : FieldValue) :
    (decodeField type name v.toJson).isSome = true := by
  obtain ⟨w, hw⟩ := v.infer_toJson
  unfold decodeField
  rw [hw]
  generalize (type.bind fun t => t.field? name).bind
    (fun d => FieldValue.ofJson? d.kind v.toJson) = declared
  cases declared <;> rfl

/-- Whether a literal is no text with the character zero. -/
def Json.isUnbroken : Json → Bool
  | .string s => Text.isUnbroken s
  | _ => true

/-- Whether stored literals are told as they are, and so is what they are loaded as by a type: names
are written without escapes. -/
def ItemType.tells (type : ItemType) (stored : Payload) : Bool :=
  stored.toList.all fun e =>
    Json.isUnescaped e.1 && e.2.isUnbroken &&
      ((decodeField (some type) e.1 e.2).map fun v => v.isTold (type.kind? e.1)).getD true

namespace ItemType

variable {type : ItemType} {stored : Fields} {name : String} {v w : FieldValue}

/-- What is stored of a field, and what it is loaded as, is told as it is. -/
theorem field_of_tells (h : type.tells stored.toPayload = true) (hw : stored.get? name = some w) :
    Json.isUnescaped name = true ∧ (∀ s, w.writtenText? = some s → Text.isUnbroken s = true) ∧
      ∀ v, decodeField (some type) name w.toJson = some v → v.isTold (type.kind? name) = true := by
  have hentry : (name, w.toJson) ∈ stored.toPayload.entries :=
    SortedMap.mem_entries_iff.mpr (by rw [Fields.toPayload, SortedMap.get?_map, hw]; rfl)
  have htold := List.all_eq_true.mp h _ hentry
  rw [Bool.and_eq_true, Bool.and_eq_true] at htold
  obtain ⟨⟨hname, hbroken⟩, hloaded⟩ := htold
  refine ⟨hname, fun s hs => ?_, fun v hv => ?_⟩
  · simp only [FieldValue.toJson_of_writtenText? hs] at hbroken
    exact hbroken
  · simpa only [hv, Option.map_some, Option.getD_some] using hloaded

/-- Fields that are loaded in another form than they are stored differ in one of them. -/
theorem exists_changed
    (hne : stored.toPayload ≠ (decodeFields (some type) stored.toPayload).toPayload) :
    ∃ name w v, stored.get? name = some w ∧ decodeField (some type) name w.toJson = some v ∧
      v.toJson ≠ w.toJson := by
  refine Classical.byContradiction fun hsame => hne (SortedMap.ext_get? fun name => ?_)
  rw [Fields.toPayload, Fields.toPayload, SortedMap.get?_map, SortedMap.get?_map,
    decodeFields_get?, SortedMap.get?_map]
  cases hw : stored.get? name with
  | none => rfl
  | some w =>
    obtain ⟨v, hv⟩ := Option.isSome_iff_exists.mp (decodeField_isSome (some type) name w)
    rw [Option.map_some, Option.bind_some, hv, Option.map_some, Option.some.injEq]
    exact Classical.byContradiction fun hliteral =>
      hsame ⟨name, w, v, hw, hv, fun e => hliteral e.symm⟩

end ItemType

/-- A row tells the fields that are loaded from it, if they are loaded in the form in which they are
stored. -/
theorem RowView.Written.tells {r : RowView} {type : ItemType} {stored : Fields}
    (h : r.Written type stored) (htells : type.tells stored.toPayload = true)
    (hsettled : stored.toPayload = (decodeFields (some type) stored.toPayload).toPayload) :
    r.Tells type (decodeFields (some type) stored.toPayload) where
  written := h.written.trans (Document.ofFields_congr hsettled)
  definitions := h.definitions
  distinct := h.distinct
  names := h.names
  told name v hv := by
    rw [decodeFields_get?, Fields.toPayload, SortedMap.get?_map] at hv
    obtain ⟨literal, hliteral, hload⟩ := Option.bind_eq_some_iff.mp hv
    obtain ⟨w, hw, rfl⟩ := Option.map_eq_some_iff.mp hliteral
    have htold := (ItemType.field_of_tells htells hw).2.2 v hload
    rw [decodeField_eq] at hload
    exact FieldValue.told_of_loaded hload htold

namespace Tables

/-- Whether what the tables hold is told as it is: the names of declared fields, and the fields of
items, as they are stored and as they are loaded. -/
def isTold (t : Tables) : Bool :=
  (t.types.toList.all fun e =>
    match decodeType e.1 e.2 with
    | .ok type => type.hasPlainNames
    | .error _ => true) &&
  t.items.toList.all fun e =>
    match t.type? e.2.typeName, Document.payload? e.2.fields with
    | .ok (some type), some stored => type.tells stored
    | _, _ => true

/-- Whether every item is stored in the form in which it is loaded. -/
def isSettled (t : Tables) : Bool :=
  t.items.toList.all fun e =>
    match t.decodeItem e.1 e.2 with
    | .ok item => decide (Document.payload? e.2.fields = some item.fieldsJson)
    | .error _ => true

/-- The clause of a filter selects the rows with items that the filter holds for. -/
def Selects (t : Tables) (f : Filter) : Prop :=
  ∀ row r i, t.items.get? row = some r → t.decodeItem row r = .ok i →
    ((Clause.ofFilter f).outcome (t.viewOf r) = .yes ↔ f.holdsFor i = true)

/-- Types are written as the store writes them, and rows hold the document of some fields for one of
these types. -/
structure Written (t : Tables) : Prop where
  types : t.Declared
  rows : ∀ row r, t.items.get? row = some r →
    t.types.contains r.typeName = true ∧ ∃ stored, r.fields = .ofTree (Document.ofFields stored)

namespace Written

variable {t : Tables}

/-- Every row has a type, and its literals are loaded by that type. -/
theorem type?_row (h : t.Written) {row : Int} {r : ItemRow} (hr : t.items.get? row = some r) :
    ∃ type stored, t.type? r.typeName = .ok (some type) ∧
      r.fields = .ofTree (Document.ofFields stored) ∧
      t.decodeItem row r =
        .ok ⟨.ofRow row, r.typeName, r.version, decodeFields (some type) stored.toPayload⟩ := by
  obtain ⟨hknown, stored, hdoc⟩ := h.rows row r hr
  obtain ⟨doc, hheld⟩ := Option.isSome_iff_exists.mp hknown
  obtain ⟨type, htype, -⟩ := h.types.type?_ok hheld
  refine ⟨type, stored, htype, hdoc, ?_⟩
  unfold decodeItem
  simp only [htype, hdoc, Document.payload?_ofFields]

/-- Every row is decoded, and shows what is stored and what its type declares. -/
theorem decodeItem_ok (h : t.Written) (htold : t.isTold = true) {row : Int} {r : ItemRow}
    (hr : t.items.get? row = some r) :
    ∃ type stored, t.decodeItem row r =
        .ok ⟨.ofRow row, r.typeName, r.version, decodeFields (some type) stored.toPayload⟩ ∧
      Document.payload? r.fields = some stored.toPayload ∧
      (t.viewOf r).Written type stored ∧ type.tells stored.toPayload = true := by
  obtain ⟨type, stored, htype, hdoc, hdecode⟩ := h.type?_row hr
  obtain ⟨hnames, hfields⟩ := Bool.and_eq_true_iff.mp htold
  have hpayload : Document.payload? r.fields = some stored.toPayload := by
    rw [hdoc, Document.payload?_ofFields]
  have hentry := List.all_eq_true.mp hfields _ (SortedMap.mem_entries_iff.mpr hr)
  simp only [htype, hpayload] at hentry
  exact ⟨type, stored, hdecode, hpayload, h.types.view_written hnames htype hdoc, hentry⟩

/-- A row of settled tables tells the fields of its item. -/
theorem tells (h : t.Written) (htold : t.isTold = true) (hsettled : t.isSettled = true) {row : Int}
    {r : ItemRow} (hr : t.items.get? row = some r) :
    ∃ type i, t.decodeItem row r = .ok i ∧ (t.viewOf r).Tells type i.fields := by
  obtain ⟨type, stored, hdecode, hpayload, hwritten, htells⟩ := h.decodeItem_ok htold hr
  have hentry := List.all_eq_true.mp hsettled _ (SortedMap.mem_entries_iff.mpr hr)
  simp only [hdecode, hpayload, decide_eq_true_eq, Option.some.injEq] at hentry
  exact ⟨type, _, hdecode, hwritten.tells htells hentry⟩

/-- Settled tables see which items a filter holds for. -/
theorem sees (h : t.Written) (htold : t.isTold = true) (hsettled : t.isSettled = true) {f : Filter}
    (hf : f.isExact = true) : ∃ items, t.Sees f items := by
  have htells : ∀ e ∈ t.items.toList, ∃ type i, t.decodeItem e.1 e.2 = .ok i ∧
      (t.viewOf e.2).Tells type i.fields := fun e he =>
    h.tells htold hsettled (SortedMap.mem_entries_iff.mp he)
  obtain ⟨items, hitems⟩ := decodeItems_ok fun e he =>
    let ⟨_, i, hi, _⟩ := htells e he
    ⟨i, hi⟩
  refine ⟨items, hitems, fun e he => ?_, fun e he i hi => ?_⟩
  · obtain ⟨type, i, -, hrow⟩ := htells e he
    exact (Clause.firm_of_isExact hrow.toWritten f hf).outcome_ne_fault
  · obtain ⟨type, j, hj, hrow⟩ := htells e he
    obtain rfl := Except.ok.inj (hi.symm.trans hj)
    rw [Clause.outcome_eq_yes_iff]
    exact Clause.eval_ofFilter_of_tells hrow f hf

/-- **The clauses of all filters select what the filters hold for, if and only if every item is
stored in the form in which it is loaded.** -/
theorem selects_iff (h : t.Written) (htold : t.isTold = true) :
    t.isSettled = true ↔ ∀ f : Filter, f.isExact = true → t.Selects f := by
  constructor
  · intro hsettled f hf row r i hr hi
    obtain ⟨type, j, hj, hrow⟩ := h.tells htold hsettled hr
    obtain rfl := Except.ok.inj (hi.symm.trans hj)
    rw [Clause.outcome_eq_yes_iff]
    exact Clause.eval_ofFilter_of_tells hrow f hf
  · intro hselects
    refine List.all_eq_true.mpr fun e he => ?_
    have hr := SortedMap.mem_entries_iff.mp (show (e.1, e.2) ∈ t.items.entries from he)
    obtain ⟨type, stored, hdecode, hpayload, hwritten, htells⟩ := h.decodeItem_ok htold hr
    simp only [hdecode, hpayload, decide_eq_true_eq, Option.some.injEq]
    refine Classical.byContradiction fun hne => ?_
    obtain ⟨name, w, v, hw, hload, hchanged⟩ := ItemType.exists_changed hne
    obtain ⟨hname, hbroken, htold⟩ := ItemType.field_of_tells htells hw
    obtain ⟨literal, hexact, hmissed⟩ :=
      Clause.exists_missed hwritten hname hw hbroken hload (htold v hload) hchanged
    have hleaf : (Filter.equals name literal).isExact = true := by
      rw [Filter.isExact_iff]
      simp [Filter.leaves, hname, hexact]
    have hfield : (decodeFields (some type) stored.toPayload).get? name = some v := by
      rw [decodeFields_get?, Fields.toPayload, SortedMap.get?_map, hw]
      exact hload
    have hselected := hselects _ hleaf e.1 e.2 _ hr hdecode
    rw [Clause.outcome_eq_yes_iff, Clause.ofFilter, Filter.holdsFor_equals, Filter.holdsField,
      WorkItem.field?, hfield] at hselected
    exact hmissed hselected

end Written

end Tables

end Backlog
