import Backlog.Proofs.Frames

/-!
# Rows from elsewhere

Tables are shared: some other program may add the row of a type, of an item or of an iteration, or
write other fields into the row of an item, between any two transactions. The engine checks little
of such a row: that its name is one, that the type of an item is there, that its text is a document.
Whether the document can be decoded is another matter (`ForeignRow.isLegible`). A row of an item
that cannot be read fails whoever asks for it, and nobody else: every other row reads as before,
since no row from elsewhere replaces the declarations of a type.

A history of shared tables is a list of events, each of them a transaction or a row from elsewhere.
If the rows are legible, tables that were in order stay in order, so what is known of a store in
order is known of shared tables as well.

## Main results

* `Tables.item?_put`, `Tables.iteration?_put` — a row from elsewhere leaves what others read;
* `Tables.item?_put_written` — the row itself is read exactly if it is legible;
* `Shared.inOrder_final` — shared tables stay in order;
* `Shared.item?_lasts`, `Shared.iteration?_lasts` — a record stays what it is read as until a call
  or someone else changes it.
-/

namespace Backlog

/-- What some other program writes. -/
inductive ForeignRow
  | type (name definitions : String)
  | item (typeName : String) (version : Int) (fields : String)
  | overwrite (row : Int) (fields : String)
  | iteration (space name state : String) (startAt endAt : Option String)

namespace ForeignRow

/-- Whether what is written can be read back. -/
def isLegible : ForeignRow → Bool
  | .type _ definitions =>
    (StoredDocument.read? definitions).any fun doc => (Document.definitions? doc).isSome
  | .item _ _ fields | .overwrite _ fields =>
    (StoredDocument.read? fields).any fun doc => (Document.payload? doc).isSome
  | .iteration .. => true

theorem isLegible_type {name definitions : String} {doc : StoredDocument}
    (hread : StoredDocument.read? definitions = some doc) :
    (type name definitions).isLegible = (Document.definitions? doc).isSome := by
  rw [isLegible, hread]
  rfl

theorem isLegible_item {typeName fields : String} {version : Int} {doc : StoredDocument}
    (hread : StoredDocument.read? fields = some doc) :
    (item typeName version fields).isLegible = (Document.payload? doc).isSome := by
  rw [isLegible, hread]
  rfl

theorem isLegible_overwrite {row : Int} {fields : String} {doc : StoredDocument}
    (hread : StoredDocument.read? fields = some doc) :
    (overwrite row fields).isLegible = (Document.payload? doc).isSome := by
  rw [isLegible, hread]
  rfl

/-- The row of an item that is written over. -/
def changed? : ForeignRow → Option Int
  | .overwrite row _ => some row
  | _ => none

end ForeignRow

namespace Tables

/-- The tables with what some other program writes, unless the engine refuses it. -/
def put (t : Tables) : ForeignRow → Option Tables
  | .type name definitions => t.addType name definitions
  | .item typeName version fields => t.addItem typeName version fields
  | .overwrite row fields => (t.setFields row fields).map Prod.snd
  | .iteration space name state startAt endAt => t.addIteration space name state startAt endAt

/-- What became of tables by a row from elsewhere. -/
inductive Foreign (t : Tables) : ForeignRow → Tables → Prop
  | type {name definitions doc} (hread : StoredDocument.read? definitions = some doc)
      (hnew : t.types.contains name = false) :
      Foreign t (.type name definitions) { t with types := t.types.insert name doc }
  | item {typeName version fields doc} (hread : StoredDocument.read? fields = some doc)
      (htyped : t.types.contains typeName = true) :
      Foreign t (.item typeName version fields)
        { t with
          items := t.items.insert (t.lastItem + 1) ⟨typeName, version.toNat, doc⟩
          lastItem := t.lastItem + 1 }
  | overwrite {row r fields doc} (hread : StoredDocument.read? fields = some doc)
      (hr : t.items.get? row = some r) :
      Foreign t (.overwrite row fields)
        { t with items := t.items.insert row { r with fields := doc } }
  | nothing {row fields} (hr : t.items.get? row = none) : Foreign t (.overwrite row fields) t
  | iteration {space name state startAt endAt} (r : IterationRow) :
      Foreign t (.iteration space name state startAt endAt)
        { t with
          iterations := t.iterations.insert (t.lastIteration + 1) r
          lastIteration := t.lastIteration + 1 }

variable {t t' : Tables} {e : ForeignRow}

theorem foreign_of_put (h : t.put e = some t') : t.Foreign e t' := by
  cases e with
  | type name definitions =>
    change t.addType name definitions = some t' at h
    unfold addType at h
    split at h
    · next doc hread =>
      split at h
      · next hname =>
        obtain rfl := Option.some.inj h
        exact .type hread (by simpa using (Bool.and_eq_true_iff.mp hname).2)
      · exact nomatch h
    · exact nomatch h
  | item typeName version fields =>
    change t.addItem typeName version fields = some t' at h
    unfold addItem at h
    split at h
    · next doc hread =>
      split at h
      · next hchecked =>
        obtain rfl := Option.some.inj h
        exact .item hread hchecked.2
      · exact nomatch h
    · exact nomatch h
  | overwrite row fields =>
    obtain ⟨⟨n, t₁⟩, hset, rfl⟩ := Option.map_eq_some_iff.mp h
    unfold setFields at hset
    split at hset
    · next hr =>
      obtain ⟨-, rfl⟩ := Prod.mk.inj (Option.some.inj hset)
      exact .nothing hr
    · next r hr =>
      split at hset
      · next doc hread =>
        obtain ⟨-, rfl⟩ := Prod.mk.inj (Option.some.inj hset)
        exact .overwrite hread hr
      · exact nomatch hset
  | iteration space name state startAt endAt =>
    change t.addIteration space name state startAt endAt = some t' at h
    unfold addIteration at h
    split at h
    · split at h
      · obtain rfl := Option.some.inj h
        exact .iteration _
      · exact nomatch h
    · exact nomatch h

-- ---------------------------------------------------------------------------
-- Other rows
-- ---------------------------------------------------------------------------

/-- **A row from elsewhere leaves the items of other rows**, whatever it holds. -/
theorem item?_put (h : t.put e = some t') (ht : t.Sound) {row : Int} (hrow : row ≤ t.lastItem)
    (hother : e.changed? ≠ some row) : t'.item? row = t.item? row := by
  cases foreign_of_put h with
  | type hread hnew =>
    refine item?_congr rfl fun r hr => ?_
    -- the type of a row that is held is not the one that is added
    refine (SortedMap.get?_insert _ _ _ _).trans (if_neg ?_)
    rintro rfl
    exact absurd ((ht.rows row r hr).typed.symm.trans hnew) (by simp)
  | item =>
    exact item?_congr ((SortedMap.get?_insert _ _ _ _).trans (if_neg (by omega))) fun _ _ => rfl
  | overwrite =>
    refine item?_congr ((SortedMap.get?_insert _ _ _ _).trans (if_neg ?_)) fun _ _ => rfl
    rintro rfl
    exact hother rfl
  | nothing => rfl
  | iteration => rfl

/-- **A row from elsewhere leaves the iterations of other rows.** -/
theorem iteration?_put (h : t.put e = some t') {row : Int} (hrow : row ≤ t.lastIteration) :
    t'.iteration? row = t.iteration? row := by
  cases foreign_of_put h with
  | iteration r =>
    unfold iteration?
    rw [(SortedMap.get?_insert _ _ _ _).trans (if_neg (by omega))]
  | type | item | overwrite | nothing => rfl

-- ---------------------------------------------------------------------------
-- The row itself
-- ---------------------------------------------------------------------------

/-- The row of an item that is written. -/
def written? (t : Tables) : ForeignRow → Option Int
  | .item .. => some (t.lastItem + 1)
  | .overwrite row _ => if t.items.contains row then some row else none
  | _ => none

/-- A row whose type can be read is read exactly if its document is one of fields. -/
theorem item?_held_iff {row : Int} {r : ItemRow} (hr : t.items.get? row = some r)
    (htype : ∃ type, t.type? r.typeName = .ok type) :
    (∃ i, t.item? row = .ok (some i)) ↔ (Document.payload? r.fields).isSome = true := by
  obtain ⟨type, htype⟩ := htype
  unfold item? decodeItem
  simp only [hr, htype]
  cases Document.payload? r.fields with
  | some stored => exact ⟨fun _ => rfl, fun _ => ⟨_, rfl⟩⟩
  | none => exact iff_of_false (fun ⟨_, h⟩ => nomatch h) (by simp)

/-- **A row of an item that someone else wrote is read exactly if it is legible.** -/
theorem item?_put_written (h : t.put e = some t') (ht : t.Sound) {row : Int}
    (hrow : t.written? e = some row) :
    (∃ i, t'.item? row = .ok (some i)) ↔ e.isLegible = true := by
  cases foreign_of_put h with
  | @item typeName version fields doc hread htyped =>
    obtain rfl := Option.some.inj hrow
    obtain ⟨type, htype⟩ := ht.type?_ok htyped
    refine (item?_held_iff (SortedMap.get?_insert_self ..) ⟨_, htype⟩).trans ?_
    rw [ForeignRow.isLegible_item hread]
  | @overwrite row' r fields doc hread hr =>
    have hheld : t.items.contains row' = true := Option.isSome_iff_exists.mpr ⟨r, hr⟩
    obtain rfl := Option.some.inj ((if_pos hheld).symm.trans hrow)
    obtain ⟨type, htype⟩ := ht.type?_ok (ht.rows row' r hr).typed
    refine (item?_held_iff (t := { t with items := t.items.insert row' { r with fields := doc } })
      (SortedMap.get?_insert_self ..) ⟨_, htype⟩).trans ?_
    rw [ForeignRow.isLegible_overwrite hread]
  | @nothing row' fields hr =>
    have hempty : t.items.contains row' = false := SortedMap.contains_eq_false_iff.mpr hr
    simp [written?, hempty] at hrow
  | type | iteration => exact nomatch hrow

-- ---------------------------------------------------------------------------
-- Order
-- ---------------------------------------------------------------------------

/-- A legible row from elsewhere leaves tables sound. -/
theorem Sound.put (ht : t.Sound) (h : t.put e = some t') (hlegible : e.isLegible = true) :
    t'.Sound := by
  cases foreign_of_put h with
  | @type name definitions doc hread hnew =>
    have hds : ∃ ds, Document.definitions? doc = some ds :=
      Option.isSome_iff_exists.mp ((ForeignRow.isLegible_type hread).symm.trans hlegible)
    refine ⟨ht.last, SortedMap.forall_get?_insert ht.types hds, fun row r hr => ?_⟩
    obtain ⟨hlow, hhigh, htyped, hfields⟩ := ht.rows row r hr
    exact ⟨hlow, hhigh, SortedMap.contains_insert_iff.mpr (.inr htyped), hfields⟩
  | @item typeName version fields doc hread htyped =>
    have hstored : ∃ stored, Document.payload? doc = some stored :=
      Option.isSome_iff_exists.mp ((ForeignRow.isLegible_item hread).symm.trans hlegible)
    have := ht.last
    exact ht.insert (t.lastItem + 1) (t.lastItem + 1) _ (by omega)
      ⟨by omega, Int.le_refl _, htyped, hstored⟩
  | @overwrite row r fields doc hread hr =>
    have hstored : ∃ stored, Document.payload? doc = some stored :=
      Option.isSome_iff_exists.mp ((ForeignRow.isLegible_overwrite hread).symm.trans hlegible)
    obtain ⟨hlow, hhigh, htyped, -⟩ := ht.rows row r hr
    exact ht.insert row t.lastItem _ (Int.le_refl _) ⟨hlow, hhigh, htyped, hstored⟩
  | nothing => exact ht
  | iteration r =>
    refine ⟨ht.last, ht.types, fun row r hr => ?_⟩
    obtain ⟨hlow, hhigh, htyped, hfields⟩ := ht.rows row r hr
    exact ⟨hlow, hhigh, htyped, hfields⟩

end Tables

/-- A legible row from elsewhere leaves tables in order. -/
theorem Backend.InOrder.put {t t' : Tables} {e : ForeignRow} (ht : Backend.tables.InOrder t)
    (h : t.put e = some t') (hlegible : e.isLegible = true) : Backend.tables.InOrder t' := by
  refine ⟨Tables.Sound.put ht.items h hlegible, ?_, ?_⟩
  · intro row place hplace
    have hnumbered := ht.iterations row place
    cases Tables.foreign_of_put h with
    | iteration r =>
      have hrow : row = t.lastIteration + 1 ∨ row ≤ t.lastIteration := by
        change ((t.iterations.insert _ r).get? row).map _ = some place at hplace
        rw [Tables.place?_insert] at hplace
        split at hplace
        · next h => exact .inl h
        · exact .inr (hnumbered hplace)
      show row ≤ t.lastIteration + 1
      omega
    | type | item | overwrite | nothing => exact hnumbered hplace
  · have hlast := ht.last
    cases Tables.foreign_of_put h with
    | iteration r => exact Int.le_trans hlast (by show t.lastIteration ≤ t.lastIteration + 1; omega)
    | type | item | overwrite | nothing => exact hlast

-- ---------------------------------------------------------------------------
-- Histories of shared tables
-- ---------------------------------------------------------------------------

/-- What happens to shared tables: a transaction of some client, or a row from elsewhere. -/
inductive Event
  | visit (v : Visit)
  | row (e : ForeignRow)

namespace Shared

/-- The tables after an event. A row that the engine refuses changes nothing. -/
def next (t : Tables) : Event → Tables
  | .visit v => v.after t
  | .row e => (t.put e).getD t

/-- The tables after a history. -/
def final (t : Tables) (es : List Event) : Tables := es.foldl next t

/-- The calls that count: those of a transaction that is committed. -/
def made (t : Tables) : Event → List (Moment Tables Request Reply)
  | .visit v => if v.commits t then v.moments t else []
  | .row _ => []

/-- The calls of the transactions that were committed. -/
def committed : Tables → List Event → List (Moment Tables Request Reply)
  | _, [] => []
  | t, x :: rest => made t x ++ committed (next t x) rest

variable {t : Tables}

/-- An event is a trail of calls, or a row from elsewhere that was not refused. -/
theorem next_cases (t : Tables) (x : Event) :
    Trail t (made t x) (next t x) ∨ ∃ e, x = .row e ∧ t.put e = some (next t x) := by
  cases x with
  | visit v =>
    left
    obtain ⟨s', htrail, hcommits⟩ := v.trail t
    show Trail t (if v.commits t then v.moments t else []) (v.after t)
    cases hc : v.commits t with
    | true => rwa [if_pos rfl, hcommits hc]
    | false =>
      rw [Visit.after_eq_of_not_commits hc]
      exact .nil t
  | row e =>
    cases hput : t.put e with
    | some t' => exact .inr ⟨e, rfl, by simp [next, hput]⟩
    | none =>
      left
      simp only [made, next, hput]
      exact .nil t

/-- Shared tables stay in order as long as what comes from elsewhere is legible, and they keep what
committed calls of a kind keep and rows from elsewhere do not touch. -/
theorem kept_final {P : Tables → Prop} {Q : Moment Tables Request Reply → Prop} {es : List Event}
    (htrail : ∀ {t t' : Tables} {ms}, Backend.tables.InOrder t → Trail t ms t' →
      (∀ m ∈ ms, Q m) → P t → P t')
    (hput : ∀ {t t' : Tables} {e}, .row e ∈ es → Backend.tables.InOrder t → t.put e = some t' →
      P t → P t')
    (hlegible : ∀ e, .row e ∈ es → e.isLegible = true) (ht : Backend.tables.InOrder t)
    (hcalls : ∀ m ∈ committed t es, Q m) (h : P t) :
    Backend.tables.InOrder (final t es) ∧ P (final t es) := by
  induction es generalizing t with
  | nil => exact ⟨ht, h⟩
  | cons x rest ih =>
    rw [committed, List.forall_mem_append] at hcalls
    have hnext : Backend.tables.InOrder (next t x) ∧ P (next t x) := by
      rcases next_cases t x with hmade | ⟨e, rfl, he⟩
      · exact ⟨Trail.inOrder (b := .tables) hmade ht, htrail ht hmade hcalls.1 h⟩
      · exact ⟨ht.put he (hlegible e List.mem_cons_self), hput List.mem_cons_self ht he h⟩
    exact ih (fun hmem => hput (List.mem_cons_of_mem x hmem))
      (fun e he => hlegible e (List.mem_cons_of_mem x he)) hnext.1 hcalls.2 hnext.2

/-- **Shared tables stay in order**, as long as what comes from elsewhere is legible. -/
theorem inOrder_final {es : List Event} (ht : Backend.tables.InOrder t)
    (hlegible : ∀ e, .row e ∈ es → e.isLegible = true) : Backend.tables.InOrder (final t es) :=
  (kept_final (P := fun _ => True) (Q := fun _ => True) (fun _ _ _ _ => trivial)
    (fun _ _ _ _ => trivial) hlegible ht (fun _ _ => trivial) trivial).1

/-- **An item stays what it is read as**, until a committed call saves or removes it or changes its
type, or someone else writes over its row. -/
theorem item?_lasts {es : List Event} (ht : Backend.tables.InOrder t)
    (hlegible : ∀ e, .row e ∈ es → e.isLegible = true) {row : Int} {i : WorkItem}
    (hi : t.item? row = .ok (some i)) (hother : ∀ e, .row e ∈ es → e.changed? ≠ some row)
    (hspared : ∀ m ∈ committed t es, Backend.tables.sparesItem i m = true) :
    (final t es).item? row = .ok (some i) := by
  refine (kept_final (P := fun t => t.item? row = .ok (some i)) ?_ ?_ hlegible ht hspared hi).2
  · intro t t' ms ht hmade hspared hi
    exact Trail.item?_stays (b := .tables) hmade ht hi (List.all_eq_true.mpr hspared)
  · intro t t' e he ht hput hi
    obtain ⟨-, -, hhigh⟩ := ItemStore.item?_placed ht.items hi
    rw [Tables.item?_put hput ht.items hhigh (hother e he), hi]

/-- **An iteration stays what it is read as**, until a committed call saves it. -/
theorem iteration?_lasts {es : List Event} (ht : Backend.tables.InOrder t)
    (hlegible : ∀ e, .row e ∈ es → e.isLegible = true) {row : Int} {i : Iteration}
    (hi : t.iteration? row = .ok (some i))
    (hspared : ∀ m ∈ committed t es, m.sparesIteration i = true) :
    (final t es).iteration? row = .ok (some i) := by
  refine (kept_final (P := fun t => t.iteration? row = .ok (some i)) ?_ ?_ hlegible ht hspared
    hi).2
  · intro t t' ms ht hmade hspared hi
    exact Trail.iteration?_stays (b := .tables) hmade ht hi (List.all_eq_true.mpr hspared)
  · intro t t' e _ ht hput hi
    have hhigh := ht.iterations row _ (IterationStore.iteration?_ok (s := t) hi).2
    rw [Tables.iteration?_put hput hhigh, hi]

end Shared

end Backlog
