import Backlog.Proofs.Migrations
import Backlog.Proofs.StartedIterations

/-!
# What is written can be read

Tables decode what they hold whenever it is asked for, and a single row that cannot be decoded takes
the list of its whole space with it. So everything that a call may write has to be written in a form
that is read back. Types and items are, also after migrations: a type is read back as it was
written, and of an item there is something to read as long as its type is there. Iterations are,
except for one thing: an instant in a year before 0 or after 9999 is written with a sign in front of
the year, and no reader takes a sign. Nothing checks the dates of an iteration for that.

This module proves that there is no other exception. In all states of a history of new tables
everything can be read exactly as long as no call of it, a create or a save, puts an iteration with
such a date into its row.

## Main results

* `Tables.readable_iff` — everything can be read if the dates of all iterations can;
* `History.readable_reached_iff` — the histories in which everything can be read;
* `History.not_readable_ancient` — a history in which something cannot.
-/

namespace Backlog

open Tx

-- ---------------------------------------------------------------------------
-- What every call keeps
-- ---------------------------------------------------------------------------

section Kept

variable {σ : Type} [Store σ] [LawfulStore σ] {P : σ → Prop} {s : σ} {vs : List Visit}

/-- What each call of a history keeps holds of all its states, and of what its calls found. -/
theorem History.kept_calls (hstep : ∀ m ∈ calls s vs, P m.before.store → P m.after.store)
    (h : P s) : (∀ s' ∈ reached s vs, P s') ∧ ∀ m ∈ calls s vs, P m.before.store := by
  unfold reached
  rw [List.forall_mem_append, List.forall_mem_map]
  induction vs generalizing s with
  | nil => exact ⟨⟨by simpa [states] using h, by simp [calls]⟩, by simp [calls]⟩
  | cons v vs ih =>
    rw [calls, List.forall_mem_append] at hstep
    obtain ⟨hhere, hlater⟩ := hstep
    obtain ⟨hmoments, hend⟩ := Visit.kept h hhere
    obtain ⟨⟨hstates, hafter⟩, hbefore⟩ := ih hlater hend
    rw [states, calls, List.forall_mem_cons, List.forall_mem_append, List.forall_mem_append]
    exact ⟨⟨⟨h, hstates⟩, fun m hm => (hmoments m hm).2, hafter⟩, fun m hm => (hmoments m hm).1,
      hbefore⟩

/-- What every call keeps holds of all states of a history. -/
theorem History.forall_reached
    (hstep : ∀ (config : ServiceConfig) (q : Request) (o : Open σ), P o.store →
      P ((q.perform config).steps o).2.store) (h : P s) : ∀ s' ∈ reached s vs, P s' := by
  refine (kept_calls (fun m hm hbefore => ?_) h).1
  obtain ⟨config, hsteps⟩ := steps_of_mem_calls hm
  have hafter := hstep config m.call m.before hbefore
  rwa [hsteps] at hafter

end Kept

-- ---------------------------------------------------------------------------
-- Transactions of one call
-- ---------------------------------------------------------------------------

namespace Service

variable {σ α : Type} {s : Service σ} {body : Tx σ α} {a : α}

/-- The transaction that a service opens for a request that stands. -/
def opened (s : Service σ) : Open σ := ⟨s.store, .new, s.cache, .none, none⟩

theorem stands_opened (s : Service σ) : Stands s.opened := ⟨rfl, rfl⟩

/-- A call that leaves its transaction as it was leaves the service as it was. -/
theorem transactional_quiet (h : body.steps s.opened = (.ok a, s.opened)) :
    s.transactional .new body = (.ok a, s) := by
  have hsettled : CacheEffects.none.settle s.cache.generation s.cache = s.cache := by
    unfold CacheEffects.settle CacheEffects.none TypeCache.fill
    simp only [Bool.false_eq_true, if_false, if_true]
    rfl
  show s.finish s.cache.generation (body.steps s.opened).1 (body.steps s.opened).2 = _
  rw [h]
  show (_,
    ({ s with cache := CacheEffects.none.settle s.cache.generation s.cache } : Service σ)) = _
  rw [hsettled]

/-- A transaction that succeeds had a body that did, and keeps the store of that body. -/
theorem finish_ok {generation : Nat} {r : Except AccessError α} {o : Open σ}
    (h : (s.finish generation r o).1 = .ok a) :
    r = .ok a ∧ (s.finish generation r o).2.store = o.store := by
  unfold finish outcome at h ⊢
  cases r with
  | error e => exact nomatch h
  | ok b =>
    simp only at h ⊢
    split
    · next hcancelled =>
      rw [hcancelled] at h
      exact nomatch h
    · next hstands =>
      rw [hstands] at h
      split at hstands
      · simp at hstands
      · exact ⟨hstands.trans h, rfl⟩

/-- A transaction of one call that succeeds answers what the call does. -/
theorem steps_of_transactional (h : (s.transactional .new body).1 = .ok a) :
    ∃ o', body.steps s.opened = (.ok a, o') := by
  change (s.finish s.cache.generation (body.steps s.opened).1 (body.steps s.opened).2).1 = _ at h
  exact ⟨_, Prod.ext (finish_ok h).1 rfl⟩

end Service

-- ---------------------------------------------------------------------------
-- Records that are loaded
-- ---------------------------------------------------------------------------

section Loading

variable {σ : Type} [Store σ] {o : Open σ} {row : Int}

/-- The item of a row is loaded by every id that names the row. -/
theorem WorkItems.steps_load (hstands : Stands o) {id : ItemId} (hrow : id.row? = some row)
    {i : WorkItem} (hitem : Store.item? o.store row = .ok (some i)) :
    (load id : Tx σ WorkItem).steps o = (.ok i, o) := by
  have hid : (Tx.ofExcept (rowOf id) : Tx σ Int).steps o = (.ok row, o) := by
    rw [steps_ofExcept, rowOf, hrow]
  unfold load fetch
  rw [steps_bind_ok (steps_proceed_of_stands hstands), steps_bind_ok hid,
    steps_bind_ok (steps_ask_ok hitem)]
  rfl

/-- The iteration of a row is loaded by every id that names the row. -/
theorem Iterations.steps_load (hstands : Stands o) {id : IterationId} (hrow : id.row? = some row)
    {i : Iteration} (hiteration : Store.iteration? o.store row = .ok (some i)) :
    (load id : Tx σ Iteration).steps o = (.ok i, o) := by
  have hid : (Tx.ofExcept (rowOf id) : Tx σ Int).steps o = (.ok row, o) := by
    rw [steps_ofExcept, rowOf, hrow]
  unfold load
  rw [steps_bind_ok (WorkItems.steps_proceed_of_stands hstands), steps_bind_ok hid,
    steps_bind_ok (steps_ask_ok hiteration)]
  rfl

end Loading

-- ---------------------------------------------------------------------------
-- Dates
-- ---------------------------------------------------------------------------

/-- An instant in a year that is written with a sign. -/
def Timestamp.IsSigned (t : Timestamp) : Prop := ¬ (0 ≤ t.year ∧ t.year ≤ 9999)

instance (t : Timestamp) : Decidable t.IsSigned :=
  inferInstanceAs (Decidable (¬ (0 ≤ t.year ∧ t.year ≤ 9999)))

/-- An iteration that starts or ends in a year that is written with a sign. -/
def Iteration.IsSigned (i : Iteration) : Prop :=
  (∃ t, i.startAt = some t ∧ t.IsSigned) ∨ ∃ t, i.endAt = some t ∧ t.IsSigned

instance (i : Iteration) : Decidable i.IsSigned :=
  inferInstanceAs (Decidable ((∃ t ∈ i.startAt, t.IsSigned) ∨ ∃ t ∈ i.endAt, t.IsSigned))

namespace Tables

/-- An instant is read back from its text, cut to microseconds, unless it is signed. -/
theorem decodeTime_text (t : Option Timestamp) :
    (∃ t', t = some t' ∧ t'.IsSigned ∧ decodeTime (t.map Timestamp.text) = none) ∨
      ((¬ ∃ t', t = some t' ∧ t'.IsSigned) ∧
        decodeTime (t.map Timestamp.text) = some (t.map Timestamp.truncated)) := by
  cases t with
  | none => exact .inr ⟨by simp, rfl⟩
  | some t =>
    by_cases hyear : 0 ≤ t.year ∧ t.year ≤ 9999
    · refine .inr ⟨?_, ?_⟩
      · rintro ⟨t', ht, hsigned⟩
        obtain rfl := Option.some.inj ht
        exact hsigned hyear
      · simp only [decodeTime, Option.map_some, Timestamp.read_text hyear.1 hyear.2]
    · obtain ⟨fault, hfault⟩ := Timestamp.read_text_of_signed hyear
      refine .inl ⟨t, rfl, hyear, ?_⟩
      simp only [decodeTime, Option.map_some, hfault]

/-- A row with the attributes of an iteration is decoded exactly if none of its dates is signed. -/
theorem decodeIteration_iff {i : Iteration} (row : Int) {r : IterationRow}
    (hstart : r.startAt = i.startAt.map Timestamp.text)
    (hend : r.endAt = i.endAt.map Timestamp.text) :
    (∃ j, decodeIteration row r = some j) ↔ ¬ i.IsSigned := by
  unfold decodeIteration Iteration.IsSigned
  rw [hstart, hend]
  rcases decodeTime_text i.startAt with ⟨t, ht, hsigned, hnone⟩ | ⟨hunsigned, hsome⟩
  · rw [hnone]
    exact iff_of_false (by simp) fun h => h (.inl ⟨t, ht, hsigned⟩)
  · rcases decodeTime_text i.endAt with ⟨t, ht, hsigned, hnone⟩ | ⟨hunsigned', hsome'⟩
    · rw [hsome, hnone]
      exact iff_of_false (by simp) fun h => h (.inr ⟨t, ht, hsigned⟩)
    · rw [hsome, hsome']
      exact iff_of_true ⟨_, rfl⟩ fun h => h.elim hunsigned hunsigned'

-- ---------------------------------------------------------------------------
-- Legible tables
-- ---------------------------------------------------------------------------

/-- Every row of an iteration can be decoded. -/
def Legible (t : Tables) : Prop :=
  ∀ row r, t.iterations.get? row = some r → ∃ i, decodeIteration row r = some i

variable {t t' : Tables}

theorem Legible.congr (h : t.Legible) (hiterations : t'.iterations = t.iterations) :
    t'.Legible := by
  intro row r hr
  rw [hiterations] at hr
  exact h row r hr

/-- Legible tables with one more row, or another one, are legible exactly if that row can be
decoded. -/
theorem Legible.insert_iff (h : t.Legible) {row : Int} {r : IterationRow}
    (hiterations : t'.iterations = t.iterations.insert row r) :
    t'.Legible ↔ ∃ i, decodeIteration row r = some i := by
  constructor
  · intro h'
    refine h' row r ?_
    rw [hiterations, SortedMap.get?_insert_self]
  · intro hrow row' r' hr'
    rw [hiterations, SortedMap.get?_insert] at hr'
    split at hr'
    · next e =>
      obtain rfl := Option.some.inj hr'
      rw [e]
      exact hrow
    · exact h row' r' hr'

theorem decodeIterations_of_forall {rows : List (Int × IterationRow)}
    (h : ∀ e ∈ rows, ∃ i, decodeIteration e.1 e.2 = some i) :
    ∃ is, decodeIterations rows = some is := by
  induction rows with
  | nil => exact ⟨[], rfl⟩
  | cons e rest ih =>
    obtain ⟨i, hi⟩ := h e List.mem_cons_self
    obtain ⟨is, his⟩ := ih fun x hx => h x (List.mem_cons_of_mem e hx)
    refine ⟨i :: is, ?_⟩
    rw [decodeIterations]
    simp only [hi, his]

/-- Tables are legible exactly if the iterations of every space can be listed. -/
theorem legible_iff :
    t.Legible ↔ ∀ space, ∃ is, Store.iterations t space = .ok is := by
  have hlist : ∀ space, (∃ is, Store.iterations t space = .ok is) ↔
      ∃ is, decodeIterations (t.iterationRows space) = some is := by
    intro space
    simp only [Store.iterations]
    cases decodeIterations (t.iterationRows space) <;> simp
  constructor
  · intro h space
    refine (hlist space).mpr (decodeIterations_of_forall fun e he => ?_)
    exact h e.1 e.2 (SortedMap.mem_entries_iff.mp (List.mem_filter.mp he).1)
  · intro h row r hr
    obtain ⟨is, his⟩ := (hlist r.space).mp (h r.space)
    have hmem : (row, r) ∈ t.iterationRows r.space :=
      List.mem_filter.mpr ⟨SortedMap.mem_entries_iff.mpr hr, by simp⟩
    obtain ⟨i, -, hi⟩ := decodeIterations_ok his (row, r) hmem
    exact ⟨i, hi⟩

-- ---------------------------------------------------------------------------
-- Reading everything
-- ---------------------------------------------------------------------------

/-- A body succeeds in every transaction on some tables whose request stands. -/
def Answered {α : Type} (t : Tables) (body : Tx Tables α) : Prop :=
  ∀ o : Open Tables, o.store = t → Stands o → ∃ a o', body.steps o = (.ok a, o')

/-- Everything that tables hold can be read. -/
structure Readable (t : Tables) : Prop where
  /-- Every item can be loaded, by all ids that name its row, -/
  items : ∀ (id : ItemId) row, id.row? = some row → t.items.contains row = true →
    t.Answered (WorkItems.load id)
  /-- and so can every iteration. -/
  iterations : ∀ (id : IterationId) row, id.row? = some row → t.iterations.contains row = true →
    t.Answered (Iterations.load id)
  /-- The items can be listed without a filter, page by page. -/
  list : ∀ paging text offset limit, (∀ catalog, Filter.read catalog text = .ok .all) →
    t.Answered (WorkItems.list paging text offset limit)
  /-- The iterations of every space can be listed, -/
  spaces : ∀ space, t.Answered (Iterations.list space)
  /-- and what is planned into them can be counted. -/
  counts : ∀ space, t.Answered (Iterations.counts space)
  types : t.Answered WorkItems.types

/-- A filter that asks for nothing is seen by tables whose rows can be decoded. -/
theorem Written.sees_all (h : t.Written) : ∃ items, t.Sees .all items := by
  obtain ⟨items, hitems⟩ : ∃ items, t.decodeItems t.items.toList = .ok items := by
    refine decodeItems_ok fun e he => ?_
    obtain ⟨type, stored, -, -, hdecode⟩ := h.type?_row (SortedMap.mem_entries_iff.mp he)
    exact ⟨_, hdecode⟩
  have hyes : ∀ r : RowView, (Clause.ofFilter .all).outcome r = .yes := fun _ => rfl
  refine ⟨items, hitems, fun e _ => ?_, fun e _ i _ => ?_⟩
  · rw [hyes]
    decide
  · exact iff_of_true (hyes _) (Filter.holdsFor_all_iff i)

theorem Written.answered_load (h : t.Written) {id : ItemId} {row : Int} (hrow : id.row? = some row)
    (hheld : t.items.contains row = true) : t.Answered (WorkItems.load id) := by
  rintro o rfl hstands
  obtain ⟨r, hr⟩ := Option.isSome_iff_exists.mp hheld
  obtain ⟨type, stored, -, -, hdecode⟩ := h.type?_row hr
  have hitem := (item?_of_row hr).trans (congrArg (Except.map some) hdecode)
  exact ⟨_, o, WorkItems.steps_load hstands hrow hitem⟩

theorem Legible.answered_load (h : t.Legible) {id : IterationId} {row : Int}
    (hrow : id.row? = some row) (hheld : t.iterations.contains row = true) :
    t.Answered (Iterations.load id) := by
  rintro o rfl hstands
  obtain ⟨r, hr⟩ := Option.isSome_iff_exists.mp hheld
  obtain ⟨i, hi⟩ := h row r hr
  have hiteration : o.store.iteration? row = .ok (some i) := by
    unfold iteration?
    simp only [hr, hi]
  exact ⟨i, o, Iterations.steps_load hstands hrow hiteration⟩

/-- A look at the request and a question to the store succeed if the store has an answer. -/
theorem answered_ask {α : Type} {g : Tables → Except StoreFault α} {a : α} (h : g t = .ok a) :
    t.Answered (do Tx.proceed; Tx.ask g) := by
  rintro o rfl hstands
  rw [steps_bind_ok (WorkItems.steps_proceed_of_stands hstands), steps_ask_ok h]
  exact ⟨a, o, rfl⟩

/-- **Everything in tables that were written by calls can be read exactly if they are legible.** -/
theorem readable_iff (h : t.Written) : t.Readable ↔ t.Legible := by
  constructor
  · intro hreadable
    rw [legible_iff]
    intro space
    have hstands : Stands (⟨t, .new, ∅, .none, none⟩ : Open Tables) := ⟨rfl, rfl⟩
    obtain ⟨is, o', hlist⟩ := hreadable.spaces space _ rfl hstands
    rcases steps_proceed_bind_cases hlist with ⟨hr, -⟩ | hask
    · exact absurd hr (by simp)
    · obtain ⟨-, ⟨is', his, -⟩ | ⟨fault, -, hr⟩⟩ := steps_ask_cases hask
      · exact ⟨is', his⟩
      · exact absurd hr (by simp)
  · intro hlegible
    obtain ⟨ts, hts⟩ := h.types.types_ok
    obtain ⟨items, hsees⟩ := h.sees_all
    refine ⟨fun id row hrow hheld => h.answered_load hrow hheld,
      fun id row hrow hheld => hlegible.answered_load hrow hheld, ?_, fun space => ?_,
      fun space => answered_ask (g := fun s => Store.iterationCounts s space) rfl, ?_⟩
    · rintro paging text offset limit hread o rfl hstands
      have hready : Clause.isPreparable .all 2 = true := by decide
      rw [WorkItems.steps_list hstands hts (hread _) paging offset limit,
        (hsees.lists hstands hready).page]
      exact ⟨_, _, rfl⟩
    · obtain ⟨is, his⟩ := legible_iff.mp hlegible space
      exact answered_ask (g := fun s => Store.iterations s space) his
    · rintro o rfl hstands
      unfold WorkItems.types
      rw [steps_bind_ok (WorkItems.steps_proceed_of_stands hstands),
        steps_bind_ok (steps_ask_ok (g := Store.types) hts)]
      exact ⟨_, _, rfl⟩

end Tables

-- ---------------------------------------------------------------------------
-- Calls
-- ---------------------------------------------------------------------------

/-- A call that put an iteration with a signed date into its row. -/
def Moment.Signs {σ : Type} (m : Moment σ Request Reply) : Prop :=
  m.call.isWrite = true ∧ ∃ i, m.answer = .ok (.iteration i) ∧ i.IsSigned

namespace Tables

variable {t t' : Tables} {q : Request} {r : Except AccessError Reply}

/-- A call that answers with no iteration that it wrote leaves the rows of iterations alone. -/
theorem iterations_of_writes (hw : Request.Writes t q r t')
    (hquiet : ∀ i, q.isWrite = true → r ≠ .ok (.iteration i)) : t'.iterations = t.iterations := by
  cases hw with
  | failed | read => rfl
  | @create _ _ _ typeName fields _ _ hw =>
    rcases t.insertItem_cases typeName initialVersion fields with ⟨_, hno⟩ | ⟨-, -, hyes⟩
    · exact absurd (Prod.mk.inj (hno.symm.trans hw)).1 (by simp)
    · rw [← (Prod.mk.inj (hyes.symm.trans hw)).2]
  | save _ _ _ hw =>
    rcases t.updateItem_cases _ _ with ⟨_, hne, hno⟩ | ⟨_, _, -, -, -, hyes⟩
    · exact absurd (Prod.mk.inj (hno.symm.trans hw)).1 hne
    · rw [← (Prod.mk.inj (hyes.symm.trans hw)).2]
  | delete _ hw =>
    obtain ⟨-, rfl⟩ := Prod.mk.inj hw
    unfold deleteItem
    split <;> rfl
  | publish hw =>
    obtain ⟨-, rfl⟩ := Prod.mk.inj hw
    unfold insertType
    split <;> rfl
  | @migrate ts _ hw | @halfMigrated ts _ _ hw =>
    have hstays := (replaceTypes_stays ts t).2
    change t.replaceTypes ts = _ at hw
    rwa [hw] at hstays
  | @createIteration _ i space k _ hnew =>
    refine absurd rfl (hquiet k ?_)
    cases q <;> first | rfl | simp [Request.newIteration?] at hnew
  | saveIteration => exact absurd rfl (hquiet _ rfl)

/-- A call that answers with an iteration that it wrote put a row with the dates of this iteration
in its place. -/
theorem insert_of_writes (hw : Request.Writes t q r t') (hq : q.isWrite = true) {i : Iteration}
    (hr : r = .ok (.iteration i)) :
    ∃ row new, t'.iterations = t.iterations.insert row new ∧
      new.startAt = i.startAt.map Timestamp.text ∧ new.endAt = i.endAt.map Timestamp.text := by
  cases hw with
  | read b hread => exact absurd (hq.symm.trans hread) (by decide)
  | @createIteration _ j space k _ _ _ hw =>
    obtain rfl := Reply.iteration.inj (Except.ok.inj hr)
    rcases t.insertIteration_cases { j with space } with ⟨_, hno⟩ | hyes
    · exact absurd (Prod.mk.inj (hno.symm.trans hw)).1 (by simp)
    · obtain ⟨hk, rfl⟩ := Prod.mk.inj (hyes.symm.trans hw)
      obtain rfl := Except.ok.inj hk
      exact ⟨_, _, rfl, rfl, rfl⟩
  | @saveIteration j row stored _ _ _ _ hw =>
    obtain rfl := Reply.iteration.inj (Except.ok.inj hr)
    rcases t.updateIteration_cases _ with ⟨_, hne, hno⟩ | ⟨_, _, -, -, hyes⟩
    · exact absurd (Prod.mk.inj (hno.symm.trans hw)).1 hne
    · obtain ⟨-, rfl⟩ := Prod.mk.inj (hyes.symm.trans hw)
      exact ⟨_, _, rfl, rfl, rfl⟩
  | _ => simp at hr

end Tables

/-- **A call keeps tables legible exactly if it puts no iteration with a signed date into its
row.** -/
theorem Moment.legible_iff {m : Moment Tables Request Reply}
    (hw : Request.Writes m.before.store m.call m.answer m.after.store)
    (h : m.before.store.Legible) : m.after.store.Legible ↔ ¬ m.Signs := by
  by_cases hwrote : m.call.isWrite = true ∧ ∃ i, m.answer = .ok (.iteration i)
  · obtain ⟨hwrite, i, hanswer⟩ := hwrote
    obtain ⟨row, new, hiterations, hstart, hend⟩ := Tables.insert_of_writes hw hwrite hanswer
    have hsigns : m.Signs ↔ i.IsSigned := by
      constructor
      · rintro ⟨-, j, hj, hsigned⟩
        obtain rfl := Reply.iteration.inj (Except.ok.inj (hanswer.symm.trans hj))
        exact hsigned
      · intro hsigned
        exact ⟨hwrite, i, hanswer, hsigned⟩
    rw [h.insert_iff hiterations, Tables.decodeIteration_iff row hstart hend, hsigns]
  · have hquiet : ∀ i, m.call.isWrite = true → m.answer ≠ .ok (.iteration i) :=
      fun i hwrite hanswer => hwrote ⟨hwrite, i, hanswer⟩
    refine iff_of_true (h.congr (Tables.iterations_of_writes hw hquiet)) ?_
    rintro ⟨hwrite, i, hanswer, -⟩
    exact hquiet i hwrite hanswer

-- ---------------------------------------------------------------------------
-- Histories
-- ---------------------------------------------------------------------------

namespace History

/-- Tables of a history are written by its calls. -/
theorem written_reached (vs : List Visit) : ∀ t ∈ reached Tables.new vs, t.Written :=
  forall_reached (fun config q _ h => Request.written config q h) Tables.written_new

/-- **Everything can be read in all states of a history of new tables exactly if no call puts an
iteration with a signed date into its row**: whatever clients create, save, publish, migrate, remove
and try, in whatever order. -/
theorem readable_reached_iff (vs : List Visit) :
    (∀ t ∈ reached Tables.new vs, t.Readable) ↔ ∀ m ∈ calls Tables.new vs, ¬ m.Signs := by
  have hnew : Tables.new.Legible := fun _ _ h => nomatch h
  obtain ⟨hcalls, hstates⟩ := forall_calls_iff (fun _ => Moment.legible_iff) vs hnew
  have hlegible : (∀ t ∈ reached Tables.new vs, t.Readable) ↔
      ∀ t ∈ reached Tables.new vs, t.Legible :=
    forall₂_congr fun t ht => Tables.readable_iff (written_reached vs t ht)
  rw [hlegible, ← hcalls]
  unfold reached
  rw [List.forall_mem_append, List.forall_mem_map]
  exact and_iff_right_of_imp fun hall => hstates (hcalls.mp hall)

/-- An iteration that starts an hour before the year 0, as clocks in the zone of its client show the
first moment of that year. -/
def ancient : List Visit :=
  let begun : Option Timestamp := (Timestamp.read "0000-01-01T00:00:00+01:00").toOption
  [⟨∅, .default, .new,
    [⟨.createIteration { Iteration.named "s" "a" with startAt := begun }, false⟩]⟩]

/-- It is committed, and after that it cannot be loaded. -/
theorem not_readable_ancient : ¬ ∀ t ∈ reached Tables.new ancient, t.Readable := by
  intro h
  have hlast : final Tables.new ancient ∈ reached Tables.new ancient :=
    List.mem_append_left _ (final_mem_states _ _)
  have hfails : ((Iterations.load ⟨"1"⟩ : Tx Tables Iteration).steps
      ⟨final Tables.new ancient, .new, ∅, .none, none⟩).1.isOk = false := by decide +kernel
  obtain ⟨i, o', hload⟩ := (h _ hlast).iterations ⟨"1"⟩ 1 (by decide +kernel) (by decide +kernel)
    ⟨final Tables.new ancient, .new, ∅, .none, none⟩ rfl ⟨rfl, rfl⟩
  rw [hload] at hfails
  exact nomatch hfails

end History

end Backlog
