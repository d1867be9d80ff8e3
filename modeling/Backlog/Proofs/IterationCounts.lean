import Backlog.Proofs.PlannedFilters

/-!
# Counts of iterations and lists of items

What is planned into an iteration is counted in one way and listed in another. A store in memory
counts the items that hold the number of the iteration as an identifier; tables join the numbers of
iterations, as texts, with what rows hold. A list goes by a filter, and the literal of a filter
takes on the kind of whatever value it is compared with. Published types give the field of the
iteration any kind, so the three do not always agree.

They do agree up to values that *stray*. A filter also finds the number where it is stored as a
string or as an integer; a store in memory does not count these, tables do. And tables compare a
truth value as the number that it is kept as, so the iteration with the number one gets what holds
the truth, and no filter finds that. Without such values the counts are the totals of the lists,
those of closed items too: what a state is compared with is the same everywhere.

## Main results

* `FieldValue.IsName.equalsStored_iff`, `Clause.eval_ofText_rowText` — what the number of an
  iteration finds in memory and in tables;
* `Memory.countsOf_eq_iff`, `Tables.countsOf_eq_iff` — when a store counts what it finds;
* `Service.counts_reached` — when counts are the totals of lists, in all states without migrations;
* `Service.miscounted_notes` — a note for each kind of store that it counts wrong.
-/

namespace Backlog

open Tx

-- ---------------------------------------------------------------------------
-- The texts of rows
-- ---------------------------------------------------------------------------

theorem Text.trim_decimal (n : Int) : trim (decimal n) = decimal n := by
  refine trim_of_not_blank fun c hc => ?_
  have hid := FieldValue.isIdentifier_decimal n
  rw [FieldValue.isIdentifier, Bool.and_eq_true, Bool.not_eq_true', List.any_eq_false] at hid
  exact Bool.eq_false_iff.mpr (hid.2 c hc)

/-- The text of an integer is read as the integer, if it is a word. -/
theorem Text.int64?_decimal_iff {n : Int} {w : Int64} :
    int64? (trim (decimal n)) = some w ↔ w.toInt = n := by
  rw [trim_decimal, int64?, decimal, String.toList_ofList, integer?_decimalChars, Option.bind_some]
  constructor
  · exact toInt_of_exactInt64?
  · rintro rfl
    exact exactInt64?_toInt w

namespace Timestamp

theorem mem_of_digits {n acc v : Nat} {cs rest : List Char} (h : digits n acc cs = .ok (v, rest)) :
    ∀ c ∈ rest, c ∈ cs := by
  induction n generalizing acc cs with
  | zero =>
    rw [digits] at h
    rw [(Prod.mk.inj (Except.ok.inj h)).2]
    exact fun c hc => hc
  | succ n ih =>
    cases cs with
    | nil => simp [digits] at h
    | cons c cs =>
      rw [digits] at h
      split at h
      · exact fun d hd => List.mem_cons_of_mem c (ih h d hd)
      · simp at h

/-- Digits are no date to a reader: they lack the mark behind the year. -/
theorem readDate_of_digits {cs : List Char} (h : ∀ c ∈ cs, c.isDigit = true) :
    ∃ fault, readDate cs = .error fault := by
  unfold readDate
  cases hyear : digits 4 0 cs with
  | error fault => exact ⟨fault, rfl⟩
  | ok r =>
    obtain ⟨year, rest⟩ := r
    have hmark : mark ['-'] rest = .error .invalid := by
      cases rest with
      | nil => rfl
      | cons c rest =>
        have hdigit := h c (mem_of_digits hyear c List.mem_cons_self)
        rw [mark, if_neg]
        simp only [List.mem_singleton]
        rintro rfl
        exact absurd hdigit (by decide)
    exact ⟨.invalid, by simp only [bind, Except.bind, hmark]⟩

theorem read_of_digits {s : String} (h : ∀ c ∈ s.toList, c.isDigit = true) :
    ∃ fault, read s = .error fault := by
  unfold read readChars
  by_cases hbytes : byteCount s.toList < 19
  · exact ⟨.tooShort, by simp only [hbytes, if_true]; rfl⟩
  · obtain ⟨fault, hdate⟩ := readDate_of_digits h
    exact ⟨fault, by simp only [hbytes, if_false, hdate]; rfl⟩

/-- The text of an integer is no instant to a reader. -/
theorem read_decimal (n : Int) : ∃ fault, read (Text.trim (Text.decimal n)) = .error fault := by
  rw [Text.trim_decimal]
  by_cases hn : n < 0
  · refine read_of_isSigned ?_
    simp [Text.isSigned, Text.decimal, Text.decimalChars, hn]
  · refine read_of_digits ?_
    rw [Text.decimal, String.toList_ofList, Text.decimalChars, if_neg hn]
    exact fun c hc => Nat.isDigit_of_mem_toDigits (by decide) (by decide) hc

end Timestamp

theorem Text.decimal_ne {s : String} (hs : integer? s.toList = none) (n : Int) : decimal n ≠ s := by
  rintro rfl
  rw [decimal, String.toList_ofList, integer?_decimalChars] at hs
  exact Option.some_ne_none n hs

theorem FieldValue.boolOf?_decimal (n : Int) : boolOf? (.string (Text.decimal n)) = none := by
  rw [boolOf?, Text.trim_decimal, if_neg (Text.decimal_ne (by decide) n),
    if_neg (Text.decimal_ne (by decide) n)]

-- ---------------------------------------------------------------------------
-- Values that a name finds
-- ---------------------------------------------------------------------------

namespace FieldValue

variable {s : String} {v stored : FieldValue} {row : Int}

/-- A name is compared as the text that it is. -/
theorem IsName.coerceTo_eq (hv : IsName s v) (hs : isIdentifier s = true) (kind : FieldKind) :
    v.coerceTo kind = ofJson? kind (.string s) := by
  cases hv with
  | string => exact coerceTo_of_comesBack rfl kind
  | identifier =>
    have hback : (FieldValue.identifier s).comesBack = true := hs
    exact coerceTo_of_comesBack hback kind

/-- **The number of a row finds the values that are written as it, and the integer that it is.** -/
theorem IsName.equalsStored_iff (hv : IsName (rowText row) v) :
    Filter.equalsStored v stored = true ↔
      stored = .identifier (rowText row) ∨ stored = .string (rowText row) ∨
        ∃ n, stored = .integer n ∧ n.toInt = row := by
  rw [Filter.equalsStored, beq_iff_eq, hv.coerceTo_eq (isIdentifier_decimal row),
    ofJson?_eq_some_iff]
  cases stored with
  | string s =>
    rw [kind, ofJson_string_iff]
    simp
  | identifier s =>
    rw [kind, ofJson_identifier_iff, rowText, and_iff_right (isIdentifier_decimal row)]
    simp [eq_comm]
  | integer n =>
    rw [kind, ofJson, orMismatch_eq_ok, integerOf?, rowText]
    simp [Text.int64?_decimal_iff]
  | bool b =>
    rw [kind, ofJson, rowText, boolOf?_decimal]
    simp [orMismatch]
  | timestamp t =>
    obtain ⟨fault, hread⟩ := Timestamp.read_decimal row
    rw [kind, ofJson_timestamp_iff, rowText, hread]
    simp

/-- What is found by the name of a state has that name as its text. -/
theorem equalsStored_closed_iff :
    Filter.equalsStored (.string StateName.closed) stored = true ↔
      stored.text? = some StateName.closed := by
  have hid : isIdentifier StateName.closed = true := by decide
  rw [Filter.equalsStored, beq_iff_eq, IsName.string.coerceTo_eq hid, ofJson?_eq_some_iff]
  cases stored with
  | string s =>
    rw [kind, ofJson_string_iff, text?]
    simp
  | identifier s =>
    rw [kind, ofJson_identifier_iff, and_iff_right hid, text?]
    simp [eq_comm]
  | integer n =>
    have hno : integerOf? (.string StateName.closed) = none := by decide
    rw [kind, ofJson, hno]
    simp [orMismatch, text?]
  | bool b =>
    have hno : boolOf? (.string StateName.closed) = none := by decide
    rw [kind, ofJson, hno]
    simp [orMismatch, text?]
  | timestamp t =>
    have hno : Timestamp.read (Text.trim StateName.closed) = .error .tooShort := by rfl
    rw [kind, ofJson_timestamp_iff, hno]
    simp [text?]

end FieldValue

-- ---------------------------------------------------------------------------
-- Counting and finding
-- ---------------------------------------------------------------------------

/-- Of two ways to pick records, where one picks whatever the other one does, both pick the same
number, and the same number of those that are closed, exactly if they pick the same. -/
theorem counts_eq_iff {α : Type} {l : List α} {p q : α → Bool} (closed : α → Bool)
    (h : ∀ x ∈ l, p x = true → q x = true) :
    (IterationCounts.mk (l.filter p).length ((l.filter p).filter closed).length =
        ⟨(l.filter q).length, ((l.filter q).filter closed).length⟩) ↔
      ∀ x ∈ l, q x = true → p x = true := by
  have hsub : l.filter p = (l.filter q).filter p := by
    rw [List.filter_filter]
    refine List.filter_congr fun x hx => ?_
    cases hp : p x with
    | true => simp [h x hx hp]
    | false => rfl
  constructor
  · intro hcounts x hx hq
    have hlength := congrArg IterationCounts.total hcounts
    dsimp only at hlength
    rw [hsub, List.length_filter_eq_length_iff] at hlength
    exact hlength x (List.mem_filter.mpr ⟨hx, hq⟩)
  · intro hback
    have hsame : l.filter p = l.filter q := by
      rw [hsub, List.filter_eq_self]
      exact fun x hx => hback x (List.mem_filter.mp hx).1 (List.mem_filter.mp hx).2
    rw [hsame]

-- ---------------------------------------------------------------------------
-- The store in memory
-- ---------------------------------------------------------------------------

namespace Memory

variable {m : Memory} {f : Filter} {i : WorkItem} {v : FieldValue} {row : Int}

/-- An item that holds the number of a row, but not as an identifier. -/
def Strays (row : Int) (i : WorkItem) : Prop :=
  i.field? SystemField.iteration = some (.string (rowText row)) ∨
    ∃ n, i.field? SystemField.iteration = some (.integer n) ∧ n.toInt = row

theorem holdsFor_planned_iff (hv : FieldValue.IsName (rowText row) v) :
    (Filter.equals SystemField.iteration v).holdsFor i = true ↔
      isPlanned (.ofRow row) i = true ∨ Strays row i := by
  rw [Filter.holdsFor_equals, Filter.holdsField, isPlanned, Strays, beq_iff_eq,
    show (IterationId.ofRow row).text = rowText row from rfl]
  cases i.field? SystemField.iteration with
  | none => simp
  | some stored => simp only [hv.equalsStored_iff, Option.some.injEq]

theorem holdsFor_closed_iff :
    (Filter.equals SystemField.state (.string StateName.closed)).holdsFor i = true ↔
      isClosed i = true := by
  rw [Filter.holdsFor_equals, Filter.holdsField, isClosed, beq_iff_eq]
  cases i.field? SystemField.state with
  | none => simp
  | some stored => rw [FieldValue.equalsStored_closed_iff, Option.bind_some]

theorem matching_andClosed : m.matching f.andClosed = (m.matching f).filter isClosed := by
  unfold matching
  rw [List.filter_filter]
  refine List.filter_congr fun i _ => ?_
  rw [Bool.eq_iff_iff, Filter.andClosed, Filter.holdsFor_and_iff, List.forall_mem_cons,
    List.forall_mem_singleton, holdsFor_closed_iff, Bool.and_eq_true, And.comm]

/-- **What a store in memory counts for an iteration is what it finds, exactly if no item holds the
number of the iteration in another form than as an identifier.** -/
theorem countsOf_eq_iff (hv : FieldValue.IsName (rowText row) v) :
    m.countsOf (.ofRow row) = ⟨(m.matching (.equals SystemField.iteration v)).length,
        (m.matching (Filter.equals SystemField.iteration v).andClosed).length⟩ ↔
      ∀ i ∈ m.items.values, ¬ Strays row i := by
  have hcounted : ∀ i ∈ m.items.values, isPlanned (.ofRow row) i = true →
      (Filter.equals SystemField.iteration v).holdsFor i = true :=
    fun i _ h => (holdsFor_planned_iff hv).mpr (.inl h)
  rw [matching_andClosed]
  unfold countsOf matching
  rw [counts_eq_iff isClosed hcounted]
  refine forall₂_congr fun i _ => ?_
  rw [holdsFor_planned_iff hv]
  constructor
  · intro h hstray
    have hplanned := h (.inr hstray)
    rw [isPlanned, beq_iff_eq] at hplanned
    unfold Strays at hstray
    simp [hplanned] at hstray
  · rintro h (hplanned | hstray)
    · exact hplanned
    · exact absurd hstray h

end Memory

-- ---------------------------------------------------------------------------
-- The store of tables
-- ---------------------------------------------------------------------------

namespace Clause

variable {r : RowView} {field : String}

/-- The number of a row is no instant and no truth value, so its clause has two arms at most. -/
theorem ofText_rowText (field : String) (row : Int) :
    ofText field (rowText row) =
      .or (textArm field (rowText row) :: integerArms field (rowText row)) := by
  obtain ⟨fault, hread⟩ := Timestamp.read_decimal row
  have htimes : timestampArms field (rowText row) = [] := by
    rw [timestampArms, rowText, hread]
  have hbools : boolArms field (rowText row) = [] := by
    rw [boolArms, rowText, Text.trim_decimal, if_neg (Text.decimal_ne (by decide) row),
      if_neg (Text.decimal_ne (by decide) row)]
  rw [ofText, htimes, hbools, List.nil_append, List.append_nil]

theorem ofText_closed (field : String) :
    ofText field StateName.closed = .or [textArm field StateName.closed] := by
  rfl

theorem firm_ofText_rowText (hf : r.isBroken field = false) (row : Int) :
    Firm r (ofText field (rowText row)) := by
  rw [ofText_rowText]
  refine .or (List.forall_mem_cons.mpr ⟨firm_textArm hf _, fun c hc => ?_⟩)
  obtain ⟨n, -, rfl⟩ := mem_integerArms.mp hc
  exact firm_integerArm hf n.toInt

/-- **The clause of the number of a row selects the texts that are that number, and the
integer.** -/
theorem eval_ofText_rowText (hf : Json.isUnescaped field = true) (row : Int) :
    eval r (ofText field (rowText row)) = .yes ↔
      (r.part? field).map Cell.ofTree = some (.text (some (rowText row))) ∨
        (r.part? field).map Cell.ofTree = some (.integer row) := by
  have hbroken : r.isBroken field = false := isBroken_of_isUnescaped hf
  have hfirm := firm_ofText_rowText hbroken row
  rw [ofText_rowText] at hfirm ⊢
  simp only [eval_or_iff hfirm, List.mem_cons, mem_integerArms]
  constructor
  · rintro ⟨c, rfl | ⟨n, hread, rfl⟩, hyes⟩
    · exact .inl ((eval_textArm_cell hbroken _).mp hyes)
    · rw [← Text.int64?_decimal_iff.mp hread]
      exact .inr ((eval_integerArm_cell hbroken _).mp hyes)
  · rintro (hcell | hcell)
    · exact ⟨_, .inl rfl, (eval_textArm_cell hbroken _).mpr hcell⟩
    · obtain ⟨t, -, ht⟩ := Option.map_eq_some_iff.mp hcell
      obtain ⟨n, rfl⟩ := Cell.exists_word ht
      exact ⟨_, .inr ⟨n, Text.int64?_decimal_iff.mpr rfl, rfl⟩,
        (eval_integerArm_cell hbroken _).mpr hcell⟩

theorem ofEquality_isName {s : String} {v : FieldValue} (hv : FieldValue.IsName s v) :
    ofEquality field v = ofText field s := by
  cases hv <;> rfl

end Clause

namespace Tables

variable {t : Tables} {f : Filter} {r : ItemRow} {v : FieldValue} {row : Int}

/-- The paths to the two fields that are counted by are never wrong. -/
theorem isBroken_iteration {r : RowView} : r.isBroken SystemField.iteration = false :=
  Clause.isBroken_of_isUnescaped (by decide)

theorem isBroken_state {r : RowView} : r.isBroken SystemField.state = false :=
  Clause.isBroken_of_isUnescaped (by decide)

/-- A row that holds the truth where the number of the first iteration should stand. -/
def Strays (row : Int) (r : ItemRow) : Prop :=
  row = 1 ∧ cell? SystemField.iteration r = some (.truth true)

/-- A row is counted if it holds the number as a text or as an integer, or if it strays. -/
theorem isPlanned_iff (hrow : 0 < row) :
    isPlanned row r = true ↔
      (cell? SystemField.iteration r = some (.text (some (rowText row))) ∨
        cell? SystemField.iteration r = some (.integer row)) ∨ Strays row r := by
  rw [isPlanned, beq_iff_eq, Strays]
  cases cell? SystemField.iteration r with
  | none => simp
  | some cell =>
    rw [Option.bind_some]
    cases cell with
    | integer n =>
      have hnumber : Text.decimal n = rowText row ↔ n = row :=
        ⟨fun h => rowText_injective h, congrArg rowText⟩
      simpa [Cell.rowText?] using hnumber
    | truth b =>
      -- truth values are compared as the numbers one and zero
      cases b with
      | true =>
        have hone : "1" = rowText row ↔ row = 1 :=
          ⟨fun h => (rowText_injective (a := 1) h).symm, fun h => congrArg rowText h.symm⟩
        simpa [Cell.rowText?] using hone
      | false =>
        have hzero : "0" ≠ rowText row := fun h => by
          have := rowText_injective (a := 0) h
          omega
        simpa [Cell.rowText?] using hzero
    | _ => simp [Cell.rowText?]

theorem picks_planned_iff (hv : FieldValue.IsName (rowText row) v) :
    t.Picks (.equals SystemField.iteration v) r ↔
      cell? SystemField.iteration r = some (.text (some (rowText row))) ∨
        cell? SystemField.iteration r = some (.integer row) := by
  have hname : Json.isUnescaped SystemField.iteration = true := by decide
  rw [Picks, Clause.outcome_eq_yes_iff, Clause.ofFilter, Clause.ofEquality_isName hv,
    Clause.eval_ofText_rowText hname, Clause.part?_of_isUnescaped hname]
  rfl

theorem picks_andClosed_iff : t.Picks f.andClosed r ↔ t.Picks f r ∧ isClosed r = true := by
  rw [Picks, Picks, Clause.outcome_eq_yes_iff, Clause.outcome_eq_yes_iff, Filter.andClosed,
    Clause.eval_ofFilter_and, List.forall_mem_cons, List.forall_mem_singleton]
  have hname : Json.isUnescaped SystemField.state = true := by decide
  refine and_congr_right fun _ => ?_
  rw [Clause.ofFilter, Clause.ofEquality, Clause.ofText_closed, Clause.eval_or_iff]
  · rw [isClosed, beq_iff_eq]
    simp only [List.mem_singleton, exists_eq_left]
    rw [Clause.eval_textArm_cell isBroken_state,
      Clause.part?_of_isUnescaped hname]
    rfl
  · exact .single (Clause.firm_textArm isBroken_state _)

/-- The second filter of an iteration is far below all limits of an engine, like any equality. -/
theorem isPreparable_andClosed (hv : FieldValue.IsName (rowText row) v) :
    Clause.isPreparable (Filter.equals SystemField.iteration v).andClosed 2 = true := by
  have hclause := (Clause.ofEquality_isName hv).trans
    (Clause.ofText_rowText SystemField.iteration row)
  have hclosed := Clause.ofText_closed SystemField.state
  rw [← Clause.ofEquality] at hclosed
  rcases Clause.integerArms_cases SystemField.iteration (rowText row) with harms | ⟨n, harms⟩ <;>
    rw [harms] at hclause <;>
    simp [Clause.isPreparable, Clause.fits, Filter.andClosed, Filter.isGrouped,
      Filter.isGrouped.areGrouped, Filter.equalityCount, Filter.equalityCount.equalityCounts,
      Clause.ofFilter, Clause.ofFilters, hclause, hclosed, Clause.textArm, Clause.integerArm,
      Clause.stackDepth, Clause.firstDepth, Clause.laterDepth, Clause.height, Clause.firstHeight,
      Clause.laterHeight, Clause.queryHeight, Clause.asksDeclaration, Clause.anyAsksDeclaration,
      Clause.operandCount, Clause.operandCounts, Clause.greatestStackDepth, Clause.greatestHeight,
      Clause.greatestOperandCount]

theorem takes_planned (hv : FieldValue.IsName (rowText row) v) :
    t.Takes (.equals SystemField.iteration v) where
  ready := Clause.isPreparable_equals _ v
  safe e _ := by
    rw [Clause.ofFilter, Clause.ofEquality_isName hv]
    have hfirm := Clause.firm_ofText_rowText (r := t.viewOf e.2) isBroken_iteration row
    exact hfirm.outcome_ne_fault

theorem takes_andClosed (hv : FieldValue.IsName (rowText row) v) :
    t.Takes (Filter.equals SystemField.iteration v).andClosed where
  ready := isPreparable_andClosed hv
  safe e _ := by
    have hplanned : Clause.Firm (t.viewOf e.2)
        (Clause.ofText SystemField.iteration (rowText row)) :=
      Clause.firm_ofText_rowText isBroken_iteration row
    have hclosed : Clause.Firm (t.viewOf e.2) (Clause.ofText SystemField.state StateName.closed) :=
      Clause.ofText_closed _ ▸ .single (Clause.firm_textArm isBroken_state _)
    rw [← Clause.ofEquality_isName hv] at hplanned
    exact (hplanned.pair hclosed).outcome_ne_fault

/-- The rows that the clause of a filter selects. -/
def picked (t : Tables) (f : Filter) : List ItemRow :=
  t.items.values.filter fun r => (Clause.ofFilter f).outcome (t.viewOf r) == .yes

theorem Takes.countItems_picked (ht : t.Takes f) : t.countItems f = .ok (t.picked f).length := by
  rw [ht.countItems_eq, picked, SortedMap.values, List.filter_map, List.length_map]
  rfl

theorem picked_andClosed : t.picked f.andClosed = (t.picked f).filter isClosed := by
  unfold picked
  rw [List.filter_filter]
  refine List.filter_congr fun r _ => ?_
  rw [Bool.eq_iff_iff, Bool.and_eq_true, beq_iff_eq, beq_iff_eq, And.comm]
  exact picks_andClosed_iff

/-- **What tables count for an iteration is what they find, exactly if no row holds a truth value
that is taken for the number of the iteration.** -/
theorem countsOf_eq_iff (hrow : 0 < row) (hv : FieldValue.IsName (rowText row) v) :
    t.countsOf row = ⟨(t.picked (.equals SystemField.iteration v)).length,
        (t.picked (Filter.equals SystemField.iteration v).andClosed).length⟩ ↔
      ∀ r ∈ t.items.values, ¬ Strays row r := by
  have hpicks : ∀ r, ((Clause.ofFilter (.equals SystemField.iteration v)).outcome
      (t.viewOf r) == .yes) = true ↔ t.Picks (.equals SystemField.iteration v) r :=
    fun r => beq_iff_eq
  have hcounted : ∀ r ∈ t.items.values, ((Clause.ofFilter (.equals SystemField.iteration v)).outcome
      (t.viewOf r) == .yes) = true → isPlanned row r = true := by
    intro r _ h
    rw [hpicks, picks_planned_iff hv] at h
    exact (isPlanned_iff hrow).mpr (.inl h)
  rw [picked_andClosed, eq_comm]
  unfold countsOf picked
  rw [counts_eq_iff isClosed hcounted]
  refine forall₂_congr fun r _ => ?_
  rw [hpicks, picks_planned_iff hv, isPlanned_iff hrow]
  constructor
  · rintro h ⟨hone, htruth⟩
    rcases h (.inr ⟨hone, htruth⟩) with hcell | hcell
    · simp [htruth] at hcell
    · simp [htruth] at hcell
  · rintro h (hplanned | hstray)
    · exact hplanned
    · exact absurd hstray h

end Tables

-- ---------------------------------------------------------------------------
-- Either kind of store
-- ---------------------------------------------------------------------------

open IterationStore in
/-- Iterations stand in rows with positive numbers. -/
theorem History.placed_reached (b : Backend) {vs : List Visit} (hplain : ∀ v ∈ vs, v.IsPlain)
    {s : b.State} (hreached : s ∈ reached b.new vs) {row : Int}
    {place : String × IterationState} (hplace : place? s row = some place) : 0 < row := by
  have hkept : ∀ s ∈ reached b.new vs,
      0 ≤ lastIteration s ∧ ∀ row place, place? s row = some place → 0 < row := by
    refine kept_reached ?_ hplain ⟨?_, ?_⟩
    · rintro s s' q r hw - ⟨hlast, hplaces⟩
      have hstep := Request.iterationStep hw
      have hle := hstep.lastIteration_le
      refine ⟨by omega, fun row place hplace => ?_⟩
      rcases hstep.place_cases hplace with ⟨old, hold⟩ | ⟨rfl, -⟩
      · exact hplaces row old hold
      · omega
    · cases b with
      | memory => exact Int.le_refl 0
      | tables => exact Int.le_refl 0
    · intro row place hplace
      rw [place?_new] at hplace
      simp at hplace
  exact (hkept s hreached).2 row place hplace

namespace Backend

/-- What a store counts for the iteration of a row. -/
def countsOf : (b : Backend) → b.State → Int → IterationCounts
  | memory, m, row => Memory.countsOf m (.ofRow row)
  | tables, t, row => Tables.countsOf t row

/-- A store holds the number of an iteration in a form that it finds and does not count, or
something that it counts as the number and does not find. -/
def Strays : (b : Backend) → b.State → Int → Prop
  | memory, m, row => ∃ i ∈ SortedMap.values (Memory.items m), Memory.Strays row i
  | tables, t, row => ∃ r ∈ SortedMap.values (Tables.items t), Tables.Strays row r

variable {b : Backend} {s : b.State} {row : Int}

/-- A store counts for every iteration of a space, whether or not its instants can be read. -/
theorem iterationCounts_ok (b : Backend) (s : b.State) (space : String) :
    ∃ counts, Store.iterationCounts s space = .ok counts ∧ ∀ row state,
      IterationStore.place? s row = some (space, state) →
        ∀ c, (IterationId.ofRow row, c) ∈ counts ↔ c = b.countsOf s row := by
  cases b with
  | memory =>
    refine ⟨_, rfl, fun row state hplace c => ?_⟩
    obtain ⟨i, hi, hstands⟩ := Option.map_eq_some_iff.mp hplace
    obtain ⟨hspace, -⟩ := Prod.mk.inj hstands
    have hid := Memory.iterationsNumbered s row i hi
    constructor
    · intro h
      obtain ⟨j, -, hj⟩ := List.mem_map.mp h
      obtain ⟨hnumber, rfl⟩ := Prod.mk.inj hj
      rw [hnumber]
      rfl
    · rintro rfl
      refine List.mem_map.mpr ⟨i, List.mem_filter.mpr ⟨?_, by simp [hspace]⟩, by rw [hid]; rfl⟩
      exact List.mem_map.mpr ⟨(row, i), SortedMap.mem_entries_iff.mpr hi, rfl⟩
  | tables =>
    refine ⟨_, rfl, fun row state hplace c => ?_⟩
    obtain ⟨r, hr, hstands⟩ := Option.map_eq_some_iff.mp hplace
    obtain ⟨hspace, -⟩ := Prod.mk.inj hstands
    constructor
    · intro h
      obtain ⟨e, -, he⟩ := List.mem_map.mp h
      obtain ⟨hnumber, rfl⟩ := Prod.mk.inj he
      rw [IterationId.ofRow_injective hnumber]
      rfl
    · rintro rfl
      refine List.mem_map.mpr ⟨(row, r), List.mem_filter.mpr ⟨?_, by simp [hspace]⟩, rfl⟩
      exact SortedMap.mem_entries_iff.mpr hr

/-- **What a store that was reached counts for an iteration is what it finds for the filters of the
iteration, exactly if nothing strays.** -/
theorem finds_planned (b : Backend) {vs : List Visit} {s : b.State}
    (hreached : s ∈ History.reached b.new vs) (hrow : 0 < row) {v : FieldValue}
    (hv : FieldValue.IsName (rowText row) v) :
    ∃ planned closed, Store.Finds s (.equals SystemField.iteration v) planned ∧
      Store.Finds s (Filter.equals SystemField.iteration v).andClosed closed ∧
      (b.countsOf s row = ⟨planned.length, closed.length⟩ ↔ ¬ b.Strays s row) := by
  cases b with
  | memory =>
    refine ⟨_, _, Memory.finds s _, Memory.finds s _, (Memory.countsOf_eq_iff hv).trans ?_⟩
    simp [Strays]
  | tables =>
    have hwritten := History.written_reached vs s hreached
    have htakes : Tables.Takes s (.equals SystemField.iteration v) := Tables.takes_planned hv
    have htakes' : Tables.Takes s (Filter.equals SystemField.iteration v).andClosed :=
      Tables.takes_andClosed hv
    obtain ⟨planned, hplanned, -⟩ := hwritten.finds htakes
    obtain ⟨closed, hclosed, -⟩ := hwritten.finds htakes'
    have hlength := Except.ok.inj (hplanned.counted.symm.trans htakes.countItems_picked)
    have hlength' := Except.ok.inj (hclosed.counted.symm.trans htakes'.countItems_picked)
    refine ⟨planned, closed, hplanned, hclosed, ?_⟩
    rw [hlength, hlength']
    refine (Tables.countsOf_eq_iff hrow hv).trans ?_
    simp [Strays]

end Backend

-- ---------------------------------------------------------------------------
-- Services
-- ---------------------------------------------------------------------------

namespace Service

open ResourceView (plannedFilter closedFilter)

variable {σ : Type} [Store σ]

/-- A service lists some items for a text: it shows every page of them that it is asked for. -/
def Lists (s : Service σ) (text : String) (found : List WorkItem) : Prop :=
  ∀ offset limit, s.Shows text offset limit (.cut found (.normalize s.config.paging offset limit))

/-- What a store counts is what a service answers. -/
theorem transactional_counts {s : Service σ} {space : String}
    {counts : List (IterationId × IterationCounts)}
    (h : Store.iterationCounts s.store space = .ok counts) :
    s.transactional .new (Iterations.counts space) = (.ok counts, s) := by
  refine transactional_quiet ?_
  unfold Iterations.counts
  rw [steps_bind_ok (WorkItems.steps_proceed_of_stands s.stands_opened)]
  exact steps_ask_ok h

/-- **The counts of an iteration are the totals of the lists for its filters, exactly if nothing
strays.** In all states that calls without migrations come to, whatever types they publish, both
filters are read, and the space has one entry for each of its iterations. -/
theorem counts_reached (b : Backend) {vs : List Visit} (hplain : ∀ v ∈ vs, v.IsPlain)
    {s : Service b.State} (hreached : s.store ∈ History.reached b.new vs) (space : String) :
    ∃ counts, s.transactional .new (Iterations.counts space) = (.ok counts, s) ∧ ∀ row state,
      IterationStore.place? s.store row = some (space, state) →
        ∃ c planned closed, (∀ c', (IterationId.ofRow row, c') ∈ counts ↔ c' = c) ∧
          s.Lists (plannedFilter (.ofRow row)).text planned ∧
          s.Lists (closedFilter (.ofRow row)).text closed ∧
          (c = ⟨planned.length, closed.length⟩ ↔ ¬ b.Strays s.store row) := by
  obtain ⟨counts, hcounts, hentries⟩ := b.iterationCounts_ok s.store space
  obtain ⟨ts, hts, hkinds⟩ := b.kinds_reached hplain hreached
  refine ⟨counts, transactional_counts hcounts, fun row state hplace => ?_⟩
  have hrow := History.placed_reached b hplain hreached hplace
  have hid : FieldValue.isIdentifier (IterationId.ofRow row).text = true :=
    FieldValue.isIdentifier_decimal row
  obtain ⟨v, hname, hread, hread'⟩ := Filter.read_ofIteration hid hkinds
  obtain ⟨planned, closed, hplanned, hclosed, hiff⟩ := b.finds_planned hreached hrow hname
  exact ⟨b.countsOf s.store row, planned, closed, hentries row state hplace,
    shows_of_finds hts hread hplanned, shows_of_finds hts hread' hclosed, hiff⟩

/-- A type of notes declares the iteration of its items with a kind of its own; an iteration is
created, and a note that is planned into it. -/
def notes (kind : FieldKind) (literal : Json) : List Visit :=
  [⟨∅, .default, .new,
    [⟨.publish ⟨"note", [⟨SystemField.iteration, kind, false⟩]⟩, false⟩,
     ⟨.createIteration (.named "s" "a"), false⟩,
     ⟨.create "note" (.ofList [(SystemField.iteration, literal)]) ⟨"ann"⟩, false⟩]⟩]

/-- The service that the notes leave. -/
def noted (b : Backend) (kind : FieldKind) (literal : Json) : Service b.State :=
  ⟨History.final b.new (notes kind literal), ∅, .default⟩

/-- Tables count a note that holds the number as a string, and list it. -/
theorem counts_reached_notes :
    let s := noted .tables .string (.string "1")
    (∀ v ∈ notes .string (.string "1"), v.IsPlain) ∧ ∃ counts planned closed,
      s.transactional .new (Iterations.counts "s") = (.ok counts, s) ∧
        s.Lists "\x7b\"system.iteration\":\"1\"\x7d" planned ∧
        s.Lists "\x7b\"system.iteration\":\"1\",\"system.state\":\"closed\"\x7d" closed ∧
        (⟨"1"⟩, ⟨planned.length, closed.length⟩) ∈ counts := by
  intro s
  have hplain : ∀ v ∈ notes .string (.string "1"), v.IsPlain := by
    simp [notes, Visit.IsPlain, Request.IsPlain]
  have hreached : s.store ∈ History.reached Backend.tables.new (notes .string (.string "1")) :=
    List.mem_append_left _ (History.final_mem_states _ _)
  have hplace : IterationStore.place? s.store 1 = some ("s", IterationState.new) := by
    decide +kernel
  have hstray : ¬ Backend.tables.Strays s.store 1 := by
    have hcells : (SortedMap.values (Tables.items s.store)).all (fun r =>
        Tables.cell? SystemField.iteration r != some (.truth true)) = true := by decide +kernel
    rintro ⟨r, hr, -, htruth⟩
    have hcell := List.all_eq_true.mp hcells r hr
    simp [htruth] at hcell
  obtain ⟨counts, hcounts, hall⟩ := counts_reached .tables hplain hreached "s"
  obtain ⟨c, planned, closed, hentry, hplanned, hclosed, hiff⟩ := hall 1 .new hplace
  have htext : (plannedFilter (.ofRow 1)).text = "\x7b\"system.iteration\":\"1\"\x7d" := by
    decide +kernel
  have htext' : (closedFilter (.ofRow 1)).text =
      "\x7b\"system.iteration\":\"1\",\"system.state\":\"closed\"\x7d" := by decide +kernel
  exact ⟨hplain, counts, planned, closed, hcounts, htext ▸ hplanned, htext' ▸ hclosed,
    (hentry _).mpr (hiff.mpr hstray).symm⟩

/-- A store in memory lists a note that holds the number as a string, and does not count it; tables
count a note that holds the truth, and do not list it. -/
theorem miscounted_notes :
    (((noted .memory .string (.string "1")).transactional .new
        (Iterations.counts "s")).1.toOption = some [(⟨"1"⟩, ⟨0, 0⟩)] ∧
      ((noted .memory .string (.string "1")).transactional .new
        (WorkItems.list .default "\x7b\"system.iteration\":\"1\"\x7d" none none)).1.toOption.map
          ItemPage.total = some 1) ∧
    ((noted .tables .bool (.bool true)).transactional .new
        (Iterations.counts "s")).1.toOption = some [(⟨"1"⟩, ⟨1, 0⟩)] ∧
      ((noted .tables .bool (.bool true)).transactional .new
        (WorkItems.list .default "\x7b\"system.iteration\":\"1\"\x7d" none none)).1.toOption.map
          ItemPage.total = some 0 := by
  decide +kernel

end Service

end Backlog
