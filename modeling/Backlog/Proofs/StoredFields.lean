import Backlog.Proofs.TypedRows

/-!
# What a query sees of typed fields

A query finds a field by its name as it is written, takes its text up to the character zero, and
compares the names of declarations by their octets. For fields and declarations that the store wrote
itself none of this makes a difference: a name without escapes finds the field of that name, a text
without the character zero is seen as it is, and texts with the same octets are the same.

## Main results

* `Text.octets_injective` — texts are told apart by their octets;
* `Document.labelled?_ofFields` — a name without escapes finds the field of that name;
* `Declaration.declaredIn_ofDefinitions_iff` — a kind is found for a field if one of the
  declarations gives it that kind.
-/

namespace Backlog

open Json (Tree Literal)

-- ---------------------------------------------------------------------------
-- Octets
-- ---------------------------------------------------------------------------

namespace Text

/-- Read a number of octets that go on with a code point, and return the rest. -/
def readLater : Nat → Nat → List Char → Option (Nat × List Char)
  | 0, acc, cs => some (acc, cs)
  | k + 1, acc, c :: cs => readLater k (acc * 64 + (c.toNat - 0x80)) cs
  | _ + 1, _, [] => none

/-- Read the octets of one code point, and return the rest. -/
def readCode? : List Char → Option (Nat × List Char)
  | [] => none
  | a :: cs =>
    if a.toNat < 0x80 then some (a.toNat, cs)
    else if a.toNat < 0xE0 then readLater 1 (a.toNat - 0xC0) cs
    else if a.toNat < 0xF0 then readLater 2 (a.toNat - 0xE0) cs
    else readLater 3 (a.toNat - 0xF0) cs

theorem toNat_octet {n : Nat} (h : n < 256) : (octet n).toNat = n := by
  have hvalid : n.isValidChar := .inl (by omega)
  rw [octet, Nat.mod_eq_of_lt h, Char.ofNat, dif_pos hvalid]
  rfl

/-- The octets of a code point are read back, whatever follows. -/
theorem readCode?_octetsOfCode {n : Nat} (h : n < 0x110000) (rest : List Char) :
    readCode? (octetsOfCode n ++ rest) = some (n, rest) := by
  unfold octetsOfCode
  split
  · next h1 =>
    have ha := toNat_octet (n := n) (by omega)
    rw [List.singleton_append, readCode?, ha, if_pos h1]
  split
  · next h1 h2 =>
    have ha := toNat_octet (n := 0xC0 + n / 64) (by omega)
    have hb := toNat_octet (n := 0x80 + n % 64) (by omega)
    rw [List.cons_append, readCode?, if_neg (by omega), if_pos (by omega)]
    simp only [List.cons_append, List.nil_append, readLater, Option.some.injEq, Prod.mk.injEq,
      and_true]
    omega
  split
  · next h1 h2 h3 =>
    have ha := toNat_octet (n := 0xE0 + n / 4096) (by omega)
    have hb := toNat_octet (n := 0x80 + n / 64 % 64) (by omega)
    have hc := toNat_octet (n := 0x80 + n % 64) (by omega)
    rw [List.cons_append, readCode?, if_neg (by omega), if_neg (by omega), if_pos (by omega)]
    simp only [List.cons_append, List.nil_append, readLater, Option.some.injEq, Prod.mk.injEq,
      and_true]
    omega
  · next h1 h2 h3 =>
    have ha := toNat_octet (n := 0xF0 + n / 262144) (by omega)
    have hb := toNat_octet (n := 0x80 + n / 4096 % 64) (by omega)
    have hc := toNat_octet (n := 0x80 + n / 64 % 64) (by omega)
    have hd := toNat_octet (n := 0x80 + n % 64) (by omega)
    rw [List.cons_append, readCode?, if_neg (by omega), if_neg (by omega), if_neg (by omega)]
    simp only [List.cons_append, List.nil_append, readLater, Option.some.injEq, Prod.mk.injEq,
      and_true]
    omega

theorem toNat_lt (c : Char) : c.toNat < 0x110000 := by
  have hvalid : c.toNat.isValidChar := c.valid
  rcases hvalid with h | ⟨-, h⟩ <;> omega

theorem readCode?_octets_cons (c : Char) (cs : List Char) :
    readCode? (octets (c :: cs)) = some (c.toNat, octets cs) :=
  readCode?_octetsOfCode (toNat_lt c) (octets cs)

/-- Texts are told apart by their octets. -/
theorem octets_injective {cs ds : List Char} (h : octets cs = octets ds) : cs = ds := by
  induction cs generalizing ds with
  | nil =>
    cases ds with
    | nil => rfl
    | cons d ds =>
      have hread := readCode?_octets_cons d ds
      rw [← h] at hread
      simp [octets, readCode?] at hread
  | cons c cs ih =>
    have hread := readCode?_octets_cons c cs
    cases ds with
    | nil =>
      rw [h] at hread
      simp [octets, readCode?] at hread
    | cons d ds =>
      rw [h, readCode?_octets_cons d ds] at hread
      obtain ⟨hcode, hrest⟩ := Prod.mk.inj (Option.some.inj hread)
      rw [Char.toNat_inj.mp hcode, ih hrest.symm]

/-- Whether a text holds no character zero. -/
def isUnbroken (s : String) : Bool := !s.toList.contains '\x00'

theorem isUnbroken_iff {s : String} : isUnbroken s = true ↔ '\x00' ∉ s.toList := by
  simp [isUnbroken]

/-- The text of an instant holds no character zero. -/
theorem isUnbroken_text (t : Timestamp) : isUnbroken t.text = true := by
  rw [isUnbroken_iff, Timestamp.text, String.toList_ofList]
  exact Timestamp.not_mem_chars (by decide) t

theorem octets_ofChars {s : String} (h : isUnbroken s = true) :
    Literal.octets (.ofChars s.toList) = octets s.toList := by
  refine Literal.octets_ofChars fun c hc hzero => isUnbroken_iff.mp h ?_
  have : c = '\x00' := Char.toNat_inj.mp hzero
  exact this ▸ hc

end Text

-- ---------------------------------------------------------------------------
-- Names
-- ---------------------------------------------------------------------------

namespace Json

/-- Whether a name is written without escapes. -/
def isUnescaped (s : String) : Bool :=
  s.toList.all fun c => !(c == '"' || c == '\\' || decide (c.toNat < 0x20))

theorem isUnescaped_iff {s : String} :
    isUnescaped s = true ↔ ∀ c ∈ s.toList, Literal.escape? c = none := by
  simp [isUnescaped, Literal.escape?_eq_none_iff, and_assoc]

theorem isUnbroken_of_isUnescaped {s : String} (h : isUnescaped s = true) :
    Text.isUnbroken s = true :=
  Text.isUnbroken_iff.mpr fun hzero => absurd (isUnescaped_iff.mp h _ hzero) (by decide)

theorem quote_notMem_of_isUnescaped {s : String} (h : isUnescaped s = true) : '"' ∉ s.toList :=
  fun hquote => absurd (isUnescaped_iff.mp h _ hquote) (by decide)

namespace Literal

theorem quote_eq_self {cs : List Char} (h : ∀ c ∈ cs, escape? c = none) : quote cs = cs := by
  induction cs with
  | nil => rfl
  | cons c cs ih =>
    obtain ⟨hc, hcs⟩ := List.forall_mem_cons.mp h
    rw [quote, List.flatMap_cons, ← quote, ih hcs, quoteChar, hc]
    rfl

/-- What is quoted like something without escapes has none either. -/
theorem quote_eq_iff {cs label : List Char} (h : ∀ c ∈ label, escape? c = none) :
    quote cs = label ↔ cs = label := by
  constructor
  · intro hquote
    have hplain : ∀ c ∈ cs, escape? c = none := by
      intro c hc
      cases he : escape? c with
      | none => rfl
      | some spelled =>
        -- an escape would leave its backslash
        have hback : '\\' ∈ quote cs := List.mem_flatMap.mpr ⟨c, hc, by simp [quoteChar, he]⟩
        rw [hquote] at hback
        exact absurd (h _ hback) (by decide)
    rw [← hquote, quote_eq_self hplain]
  · rintro rfl
    exact quote_eq_self h

/-- A name is written like a label without escapes if it is that label. -/
theorem written_ofChars_iff {name label : String} (h : isUnescaped label = true) :
    written (ofChars name.toList) = label.toList ↔ label = name := by
  rw [written_ofChars, quote_eq_iff (isUnescaped_iff.mp h), String.toList_inj, eq_comm]

end Literal

end Json

-- ---------------------------------------------------------------------------
-- Fields
-- ---------------------------------------------------------------------------

namespace Document

theorem labelledIn?_map {label : String} (h : Json.isUnescaped label = true)
    (l : List (String × FieldValue)) :
    Tree.labelledIn? label.toList (l.map fun e => (Literal.ofChars e.1.toList, ofValue e.2)) =
      (SortedMap.find label l).map ofValue := by
  induction l with
  | nil => rfl
  | cons e rest ih =>
    obtain ⟨name, v⟩ := e
    rw [List.map_cons, Tree.labelledIn?, SortedMap.find_cons, ih]
    simp only [Literal.written_ofChars_iff h]
    split <;> rfl

/-- A name without escapes finds the field of that name. -/
theorem labelled?_ofFields {label : String} (h : Json.isUnescaped label = true) (fields : Fields) :
    (ofFields fields).labelled? label.toList = (fields.get? label).map ofValue :=
  labelledIn?_map h fields.entries

/-- A text without the character zero is seen as it is. -/
theorem cell_ofText {s : String} (h : Text.isUnbroken s = true) :
    Cell.ofTree (ofText s) = .text (some s) := by
  have hwhole : ∀ p ∈ Literal.ofChars s.toList, (!Cell.isZero p) = true := by
    intro p hp
    obtain ⟨c, hc, rfl⟩ := List.mem_map.mp hp
    have hne : c.toNat ≠ 0 := by
      intro hzero
      obtain rfl : c = '\x00' := Char.toNat_inj.mp hzero
      exact Text.isUnbroken_iff.mp h hc
    rw [Literal.pieceOf]
    split
    · simp [Cell.isZero, hne]
    · rfl
  have htake : (Literal.ofChars s.toList).takeWhile (fun p => !Cell.isZero p) =
      Literal.ofChars s.toList := by
    have hall := @List.takeWhile_append_of_pos _ _ _ [] hwhole
    simpa using hall
  rw [ofText, Cell.ofTree, Cell.textOf, htake, text?_ofChars]

/-- An integer is seen as it is. -/
theorem cell_ofInt (n : Int64) : Cell.ofTree (.number (.ofInt n.toInt)) = .integer n.toInt := by
  have hlow := Int64.le_toInt n
  have hhigh := Int64.toInt_lt n
  have hsize : Nat.ofDigitChars 10 (Nat.toDigits 10 n.toInt.natAbs) 0 = n.toInt.natAbs :=
    Nat.ofDigitChars_toDigits (by decide) (by decide)
  have hvalue : (if n.toInt < 0 then -(n.toInt.natAbs : Int) else (n.toInt.natAbs : Int)) =
      n.toInt := by
    split <;> omega
  have hinteger : Cell.integerOf? (.ofInt n.toInt) = some n.toInt := by
    unfold Cell.integerOf? Numeral.ofInt Numeral.isPlain Cell.leastInteger
    simp only [hsize, decide_eq_true_eq, hvalue]
    rw [if_pos ⟨rfl, by omega, by omega⟩, Int.max_eq_right (by omega)]
  simp only [Cell.ofTree, hinteger]

end Document

-- ---------------------------------------------------------------------------
-- Declarations
-- ---------------------------------------------------------------------------

namespace Declaration

theorem isUnbroken_name (kind : FieldKind) : Text.isUnbroken kind.name = true := by
  cases kind <;> decide

theorem eq_of_name_eq {kind kind' : FieldKind} (h : kind.name = kind'.name) : kind = kind' := by
  have hread := FieldKind.ofName?_name kind
  rw [h, FieldKind.ofName?_name] at hread
  exact (Option.some.inj hread).symm

theorem some_octets_eq_iff {s s' : String} :
    (some (Text.octets s.toList) == some (Text.octets s'.toList)) = true ↔ s = s' := by
  rw [beq_iff_eq, Option.some.injEq]
  exact ⟨fun h => String.toList_inj.mp (Text.octets_injective h), fun h => by rw [h]⟩

/-- A declaration gives its field its kind and nothing else. -/
theorem declares_ofDefinition_iff {field : String} {kind : FieldKind} {d : FieldDefinition}
    (h : Text.isUnbroken d.name = true) :
    declares field kind (Document.ofDefinition d) = .yes ↔ d.name = field ∧ d.kind = kind := by
  have hname : ((Document.ofDefinition d).labelled? "name".toList).bind octetsOf? =
      some (Text.octets d.name.toList) := by
    show some (Literal.octets (.ofChars d.name.toList)) = _
    rw [Text.octets_ofChars h]
  have hkind : ((Document.ofDefinition d).labelled? "kind".toList).bind octetsOf? =
      some (Text.octets d.kind.name.toList) := by
    show some (Literal.octets (.ofChars d.kind.name.toList)) = _
    rw [Text.octets_ofChars (isUnbroken_name d.kind)]
  have hdeclares : declares field kind (Document.ofDefinition d) =
      .ofBool (isOf field kind (some (Text.octets d.name.toList))
        (some (Text.octets d.kind.name.toList))) := by
    rw [← hname, ← hkind]
    rfl
  rw [hdeclares, Truth.ofBool_eq_yes_iff, isOf, Bool.and_eq_true, some_octets_eq_iff,
    some_octets_eq_iff]
  exact and_congr_right fun _ => ⟨eq_of_name_eq, fun e => by rw [e]⟩

theorem ofDefinition_ne_string (ds : List FieldDefinition) :
    ∀ t ∈ (Document.ofDefinitions ds).parts, ∀ l, t ≠ .string l := by
  intro t ht l
  obtain ⟨d, -, rfl⟩ := List.mem_map.mp (show t ∈ ds.map Document.ofDefinition from ht)
  exact nofun

/-- A kind is found for a field if one of the declarations gives it that kind. -/
theorem declaredIn_ofDefinitions_iff {field : String} {kind : FieldKind}
    {ds : List FieldDefinition} (h : ∀ d ∈ ds, Text.isUnbroken d.name = true) :
    declaredIn field kind (Document.ofDefinitions ds).parts = .yes ↔
      ∃ d ∈ ds, d.name = field ∧ d.kind = kind := by
  show declaredIn field kind (ds.map Document.ofDefinition) = .yes ↔ _
  induction ds with
  | nil => simp [declaredIn]
  | cons d rest ih =>
    have hfirst : declares field kind (Document.ofDefinition d) = .yes ↔
        d.name = field ∧ d.kind = kind := declares_ofDefinition_iff (h d List.mem_cons_self)
    have hrest := ih fun e he => h e (List.mem_cons_of_mem d he)
    have hsafe : declares field kind (Document.ofDefinition d) ≠ .fault :=
      declares_ne_fault field kind (ofDefinition_ne_string [d] _ List.mem_cons_self)
    have hexists : (∃ e ∈ d :: rest, e.name = field ∧ e.kind = kind) ↔
        declares field kind (Document.ofDefinition d) = .yes ∨
          declaredIn field kind (rest.map Document.ofDefinition) = .yes := by
      rw [hfirst, hrest]
      simp
    rw [List.map_cons, declaredIn, hexists]
    split
    · next hyes => simp [hyes]
    · next hfault => exact absurd hfault hsafe
    · next hno _ => rw [or_iff_right hno]

end Declaration

end Backlog
