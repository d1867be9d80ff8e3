import Backlog.Proofs.ReadBack

/-!
# Iterations are a forest

A client may send an iteration with any id, any space and any parent. A new iteration gets a row of
its own; if it is to be a part of another one, that one has to be there, and the new one lands in
its space. A save keeps the id, the space and the parent that are stored, whatever the client sent.
So each iteration is a part of one that stood in an earlier row, and of no other one for as long as
it stands.

Rows go up, and a transaction that is withdrawn takes its rows with it, so the order of rows is
enough: who follows the parents of an iteration goes down through the rows and comes to an iteration
without a parent, in the same space. Tables keep dates as texts, which do not all come back;
therefore what is said about tables leaves out dates in years that are written with a sign.

## Main results

* `Backend.iteration?_cases` — a call leaves all iterations alone, or puts one where it belongs;
* `Forest.rooted` — the parents of an iteration lead to a root of its space;
* `History.forest_reached` — the iterations of all states of a history are a forest, and they keep
  their places.
-/

namespace Backlog

open Tx

-- ---------------------------------------------------------------------------
-- Forests
-- ---------------------------------------------------------------------------

/-- An iteration does not end before it starts if its dates, when it has both, are in order. -/
theorem Iteration.endsBeforeStart_eq_false_iff {i : Iteration} :
    i.endsBeforeStart = false ↔ ∀ start stop, i.startAt = some start → i.endAt = some stop →
      stop.before start = false := by
  unfold endsBeforeStart
  split
  · next start stop hstart hstop => simp [hstart, hstop]
  · next hnot => exact iff_of_true rfl fun start stop hstart hstop => absurd hstop (hnot _ _ hstart)

section Forests

variable {σ : Type} [Store σ] {s s' s'' : σ}

/-- The iteration that another one is a part of, as a store gives it back. -/
def wholeOf? (s : σ) (i : Iteration) : Option Iteration :=
  i.parent.bind fun id => id.row?.bind fun row => (Store.iteration? s row).toOption.join

/-- Where so many steps from parent to parent lead, if there are so many. -/
def climb (s : σ) : Nat → Iteration → Option Iteration
  | 0, i => some i
  | n + 1, i => (wholeOf? s i).bind (climb s n)

/-- An iteration that stands in a row with nothing wrong with it, as a part of one that stands in an
earlier row of the same space, or of none. -/
structure Planted (s : σ) (row : Int) (i : Iteration) : Prop where
  id : i.id = .ofRow row
  parent : ∀ id, i.parent = some id → ∃ row' whole, id.row? = some row' ∧ row' < row ∧
    Store.iteration? s row' = .ok (some whole) ∧ i.space = whole.space
  name : Text.blank i.name = false
  space : Text.blank i.space = false
  dates : ∀ start stop, i.startAt = some start → i.endAt = some stop → stop.before start = false

/-- Every row of iterations is given back, and what it holds is planted. -/
structure Forest (s : σ) : Prop where
  readable : ∀ row, ∃ found, Store.iteration? s row = .ok found
  planted : ∀ row i, Store.iteration? s row = .ok (some i) → Planted s row i

/-- Every iteration is still there, with its id, its space and its parent. -/
def Stays (s s' : σ) : Prop :=
  ∀ row i, Store.iteration? s row = .ok (some i) → ∃ j, Store.iteration? s' row = .ok (some j) ∧
    j.id = i.id ∧ j.space = i.space ∧ j.parent = i.parent

theorem Stays.refl (s : σ) : Stays s s := fun _ i hi => ⟨i, hi, rfl, rfl, rfl⟩

theorem Stays.trans (h : Stays s s') (h' : Stays s' s'') : Stays s s'' := by
  intro row i hi
  obtain ⟨j, hj, hid, hspace, hparent⟩ := h row i hi
  obtain ⟨k, hk, hid', hspace', hparent'⟩ := h' row j hj
  exact ⟨k, hk, hid'.trans hid, hspace'.trans hspace, hparent'.trans hparent⟩

/-- What is planted is planted as long as the others stay. -/
theorem Planted.mono {row : Int} {i : Iteration} (h : Planted s row i) (hstays : Stays s s') :
    Planted s' row i := by
  refine ⟨h.id, fun id hid => ?_, h.name, h.space, h.dates⟩
  obtain ⟨row', whole, hrow', hlt, hwhole, hspace⟩ := h.parent id hid
  obtain ⟨whole', hwhole', -, hspace', -⟩ := hstays row' whole hwhole
  exact ⟨row', whole', hrow', hlt, hwhole', hspace.trans hspace'.symm⟩

/-- The parent of a planted iteration is the iteration that it is a part of. -/
theorem Planted.wholeOf {row : Int} {i : Iteration} (h : Planted s row i) {id : IterationId}
    (hid : i.parent = some id) : ∃ row' whole, wholeOf? s i = some whole ∧ 0 < row' ∧ row' < row ∧
      Store.iteration? s row' = .ok (some whole) ∧ i.space = whole.space := by
  obtain ⟨row', whole, hrow', hlt, hwhole, hspace⟩ := h.parent id hid
  refine ⟨row', whole, ?_, rowOf?_pos hrow', hlt, hwhole, hspace⟩
  rw [wholeOf?, hid, Option.bind_some, hrow', Option.bind_some, hwhole]
  rfl

/-- **Whoever follows the parents of an iteration comes to one without a parent in the same space**,
in no more steps than its row tells. -/
theorem Forest.rooted (h : Forest s) {row : Int} {i : Iteration}
    (hi : Store.iteration? s row = .ok (some i)) :
    ∃ n root, n ≤ row.toNat ∧ climb s n i = some root ∧ root.parent = none ∧
      root.space = i.space := by
  induction hn : row.toNat using Nat.strongRecOn generalizing row i with
  | ind m ih =>
    subst hn
    cases hparent : i.parent with
    | none => exact ⟨0, i, Nat.zero_le _, rfl, hparent, rfl⟩
    | some id =>
      obtain ⟨row', whole, hwholeOf, hpos, hlt, hwhole, hspace⟩ :=
        (h.planted row i hi).wholeOf hparent
      obtain ⟨n, root, hle, hclimb, hroot, hspace'⟩ := ih row'.toNat (by omega) hwhole rfl
      refine ⟨n + 1, root, by omega, ?_, hroot, hspace'.trans hspace.symm⟩
      rw [climb, hwholeOf, Option.bind_some, hclimb]

-- ---------------------------------------------------------------------------
-- An iteration in a row
-- ---------------------------------------------------------------------------

/-- An iteration was put into a row: a new one that is a part of one in an earlier row, if of any,
or one in the place of another with the same space and the same parent. -/
structure Puts (s s' : σ) (row : Int) (k : Iteration) : Prop where
  id : k.id = .ofRow row
  valid : k.validate = .ok ()
  held : Store.iteration? s' row = .ok (some k)
  others : ∀ row', row' ≠ row → Store.iteration? s' row' = Store.iteration? s row'
  place :
    (Store.iteration? s row = .ok none ∧ ∀ id, k.parent = some id → ∃ row' whole,
      id.row? = some row' ∧ row' < row ∧ Store.iteration? s row' = .ok (some whole) ∧
        k.space = whole.space) ∨
    ∃ stored, Store.iteration? s row = .ok (some stored) ∧ k.space = stored.space ∧
      k.parent = stored.parent

variable {row : Int} {k : Iteration}

/-- The iterations of a forest stay where one is put into a row. -/
theorem Puts.stays (h : Puts s s' row k) (hs : Forest s) : Stays s s' := by
  intro row' i hi
  by_cases hrow : row' = row
  · subst hrow
    rcases h.place with ⟨hfresh, -⟩ | ⟨stored, hstored, hspace, hparent⟩
    · rw [hfresh] at hi
      exact absurd hi (by simp)
    · obtain rfl := Option.some.inj (Except.ok.inj (hstored.symm.trans hi))
      exact ⟨k, h.held, h.id.trans (hs.planted row' stored hi).id.symm, hspace, hparent⟩
  · exact ⟨i, (h.others row' hrow).trans hi, rfl, rfl, rfl⟩

/-- A forest is one where an iteration was put into a row. -/
theorem Puts.forest (h : Puts s s' row k) (hs : Forest s) : Forest s' := by
  have hstays := h.stays hs
  obtain ⟨hname, hspace, hdates⟩ := Iteration.validate_eq_ok_iff.mp h.valid
  have hplanted : Planted s row k := by
    refine ⟨h.id, ?_, hname, hspace, Iteration.endsBeforeStart_eq_false_iff.mp hdates⟩
    rcases h.place with ⟨-, hnew⟩ | ⟨stored, hstored, hspace, hparent⟩
    · exact hnew
    · rw [hspace, hparent]
      exact (hs.planted row stored hstored).parent
  constructor
  · intro row'
    by_cases hrow : row' = row
    · exact ⟨_, hrow ▸ h.held⟩
    · rw [h.others row' hrow]
      exact hs.readable row'
  · intro row' i hi
    by_cases hrow : row' = row
    · subst hrow
      obtain rfl := Option.some.inj (Except.ok.inj (h.held.symm.trans hi))
      exact hplanted.mono hstays
    · rw [h.others row' hrow] at hi
      exact (hs.planted row' i hi).mono hstays

end Forests

-- ---------------------------------------------------------------------------
-- Calls
-- ---------------------------------------------------------------------------

namespace Backend

variable {b : Backend}

/-- Nothing is wrong with what a store gives back if nothing was wrong with it before. -/
theorem validate_kept {i : Iteration} (h : i.validate = .ok ()) :
    (b.keptIteration i).validate = .ok () := by
  cases b with
  | memory => exact h
  | tables =>
    obtain ⟨hname, hspace, hdates⟩ := Iteration.validate_eq_ok_iff.mp h
    refine Iteration.validate_eq_ok_iff.mpr ⟨hname, hspace,
      Iteration.endsBeforeStart_eq_false_iff.mpr fun start' stop' hstart hstop => ?_⟩
    obtain ⟨start, hstart', rfl⟩ := Option.map_eq_some_iff.mp hstart
    obtain ⟨stop, hstop', rfl⟩ := Option.map_eq_some_iff.mp hstop
    exact Timestamp.before_truncated
      (Iteration.endsBeforeStart_eq_false_iff.mp hdates start stop hstart' hstop')

theorem id_kept (i : Iteration) : (b.keptIteration i).id = i.id := by
  cases b <;> rfl

theorem space_kept (i : Iteration) : (b.keptIteration i).space = i.space := by
  cases b <;> rfl

/-- The parent that a store gives back is named in another way at most. -/
theorem parent_kept {i : Iteration} {id : IterationId} (h : (b.keptIteration i).parent = some id) :
    ∃ id', i.parent = some id' ∧ ∀ row, id'.row? = some row → id.row? = some row := by
  cases b with
  | memory => exact ⟨id, h, fun _ hrow => hrow⟩
  | tables =>
    obtain ⟨id', hid', rfl⟩ := Option.map_eq_some_iff.mp h
    refine ⟨id', hid', fun row hrow => ?_⟩
    rw [IterationId.spelled_of_row? hrow]
    exact rowOf?_rowText_self hrow

/-- A parent that a store gave back is given back as it is. -/
theorem parent_kept_of_stored {s : b.State} {row : Int} {i stored : Iteration}
    (hstored : Store.iteration? s row = .ok (some stored)) (h : i.parent = stored.parent) :
    (b.keptIteration i).parent = stored.parent := by
  cases b with
  | memory => exact h
  | tables =>
    change Tables.iteration? s row = _ at hstored
    cases hr : s.iterations.get? row with
    | none =>
      unfold Tables.iteration? at hstored
      rw [hr] at hstored
      exact absurd hstored (by simp)
    | some r =>
      obtain ⟨-, hparent⟩ := Tables.place_of_iteration? hstored hr
      show i.parent.map .spelled = stored.parent
      rw [h, hparent, Option.map_map]
      exact congrArg (Option.map · r.parent) (funext IterationId.spelled_ofRow)

variable {o o' : Open b.State} {i k : Iteration}

/-- A creation puts the iteration into a new row. -/
theorem puts_created (hs : Numbered o.store)
    (hcreate : (Iterations.create i).steps o = (.ok k, o')) (hsigned : b = .tables → ¬ k.IsSigned) :
    ∃ row, Puts o.store o'.store row (b.keptIteration k) := by
  obtain ⟨hid, hlast, hheld⟩ := iteration?_created hcreate hsigned
  rcases Iterations.create_cases hcreate with
    ⟨e, he, -⟩ | ⟨space, j, hfits, hvalid, hstart, hw, hj⟩
  · exact absurd he (by simp)
  obtain rfl := Except.ok.inj hj
  obtain ⟨hk, -, -⟩ := IterationStore.insertIteration_ok hw
  refine ⟨IterationStore.lastIteration o'.store, (id_kept k).trans hid, validate_kept ?_, hheld,
    fun row hrow => ?_, .inl ⟨iteration?_beyond hs (by omega), fun id hparent => ?_⟩⟩
  · rw [hk]
    exact hvalid
  · have hwrites : Request.Writes o.store (.createIteration i) (.ok (.iteration k)) o'.store :=
      .createIteration rfl hstart hw
    exact iteration?_eq hwrites hs (by omega) (by simp)
  · obtain ⟨id', hparent', hnames⟩ := parent_kept hparent
    rw [hk] at hparent'
    obtain ⟨row, whole, hrow, hwhole, hspace⟩ := hfits.of_parent hparent'
    have hle := hs row _ (IterationStore.iteration?_ok hwhole).2
    refine ⟨row, whole, hnames row hrow, by omega, hwhole, ?_⟩
    rw [space_kept, hk]
    exact hspace

/-- A save puts the iteration into the place of the one that is stored. -/
theorem puts_saved (hs : Numbered o.store) (hsave : (Iterations.save i).steps o = (.ok k, o'))
    (hsigned : b = .tables → ¬ k.IsSigned) :
    ∃ row, Puts o.store o'.store row (b.keptIteration k) := by
  obtain ⟨row, hrow, hid, hheld⟩ := iteration?_saved hsave hsigned
  rcases Iterations.save_cases hsave with
    ⟨e, he, -⟩ | ⟨row', stored, hrow', hstored, hvalid, hstart, hw, hj⟩
  · exact absurd he (by simp)
  obtain rfl : row = row' := Option.some.inj (hrow.symm.trans hrow')
  obtain rfl := Except.ok.inj hj
  have hwrites := Request.Writes.saveIteration hrow hstored hstart hw
  obtain ⟨-, -, -, -, -, hlast, -⟩ := IterationStore.updateIteration_ok hw
  refine ⟨row, (id_kept _).trans hid, validate_kept hvalid, hheld, fun row' hne => ?_,
    .inr ⟨stored, hstored, space_kept _, parent_kept_of_stored hstored rfl⟩⟩
  refine iteration?_eq hwrites hs (by omega) fun j hj _ hrow'' => hne ?_
  obtain rfl := Request.saveIteration.inj hj
  exact Option.some.inj (hrow''.symm.trans hrow)

/-- **A call leaves all iterations alone, or puts one where it belongs**, unless it writes a date
that tables do not give back. -/
theorem iteration?_cases {m : Moment b.State Request Reply} {config : ServiceConfig}
    (hsteps : (m.call.perform config).steps m.before = (m.answer, m.after))
    (hs : Numbered m.before.store) (hdates : b = .tables → ¬ m.Signs) :
    (∀ row, Store.iteration? m.after.store row = Store.iteration? m.before.store row) ∨
      ∃ row k, Puts m.before.store m.after.store row k := by
  obtain ⟨o, q, r, o'⟩ := m
  simp only at hsteps hs ⊢
  by_cases hwrote : q.isWrite = true ∧ ∃ k, r = .ok (.iteration k)
  · obtain ⟨hwrite, k, rfl⟩ := hwrote
    have hsigned : b = .tables → ¬ k.IsSigned := fun hb hk => hdates hb ⟨hwrite, k, rfl, hk⟩
    have hcreated : ∀ {i : Iteration},
        (do return Reply.iteration (← Iterations.create i)).steps o = (.ok (.iteration k), o') →
        ∃ row k, Puts o.store o'.store row k := by
      intro i hi
      obtain ⟨j, hj, hr⟩ := steps_map_ok hi
      obtain rfl := Reply.iteration.inj hr
      obtain ⟨row, hputs⟩ := puts_created hs hj hsigned
      exact ⟨row, _, hputs⟩
    have hw := Request.writes config q hsteps
    generalize hs' : o'.store = s' at hw ⊢
    refine .inr ?_
    cases hw with
    | read _ hread => exact absurd (hwrite.symm.trans hread) (by decide)
    | createIteration hnew =>
      cases q with
      | createIteration i => exact hs' ▸ hcreated hsteps
      | createChild parent name startAt endAt => exact hs' ▸ hcreated hsteps
      | _ => simp [Request.newIteration?] at hnew
    | saveIteration =>
      unfold Request.perform at hsteps
      obtain ⟨j, hj, hr⟩ := steps_map_ok hsteps
      obtain rfl := Reply.iteration.inj hr
      obtain ⟨row, hputs⟩ := puts_saved hs hj hsigned
      exact ⟨row, _, hs' ▸ hputs⟩
  · have hw := Request.writes config q hsteps
    have hlast : IterationStore.lastIteration o'.store = IterationStore.lastIteration o.store := by
      cases Request.iterationStep hw with
      | kept hlast | saved hlast => exact hlast
      | created hnew =>
        refine absurd ⟨?_, _, rfl⟩ hwrote
        cases q <;> first | rfl | simp [Request.newIteration?] at hnew
    refine .inl fun row => iteration?_eq hw hs (by omega) ?_
    rintro i rfl hok -
    refine hwrote ⟨rfl, ?_⟩
    generalize o'.store = s' at hw
    cases hw with
    | failed => exact absurd hok Bool.false_ne_true
    | read b hread => exact absurd hread.symm Bool.false_ne_true
    | createIteration hnew => exact absurd hnew.symm (Option.some_ne_none _)
    | saveIteration => exact ⟨_, rfl⟩

/-- A call keeps a forest, and the iterations stay. -/
theorem forest_stays {m : Moment b.State Request Reply} {config : ServiceConfig}
    (hsteps : (m.call.perform config).steps m.before = (m.answer, m.after))
    (hs : Numbered m.before.store) (hdates : b = .tables → ¬ m.Signs)
    (h : Forest m.before.store) : Forest m.after.store ∧ Stays m.before.store m.after.store := by
  rcases iteration?_cases hsteps hs hdates with hsame | ⟨row, k, hputs⟩
  · have hstays : Stays m.before.store m.after.store :=
      fun row i hi => ⟨i, (hsame row).trans hi, rfl, rfl, rfl⟩
    refine ⟨⟨fun row => ?_, fun row i hi => ?_⟩, hstays⟩
    · rw [hsame row]
      exact h.readable row
    · rw [hsame row] at hi
      exact (h.planted row i hi).mono hstays
  · exact ⟨hputs.forest h, hputs.stays h⟩

/-- A new store has no iterations. -/
theorem forest_new (b : Backend) : Forest b.new := by
  have hnone : ∀ row, Store.iteration? b.new row = .ok none := by
    intro row
    cases b <;> rfl
  refine ⟨fun row => ⟨none, hnone row⟩, fun row i hi => ?_⟩
  exact absurd ((hnone row).symm.trans hi) (by simp)

end Backend

-- ---------------------------------------------------------------------------
-- Histories
-- ---------------------------------------------------------------------------

instance {σ : Type} (m : Moment σ Request Reply) : Decidable m.Signs :=
  decidable_of_iff (∃ i ∈ m.writtenIteration?, i.IsSigned) <| by
    constructor
    · rintro ⟨i, hi, hsigned⟩
      obtain ⟨hwrite, hanswer⟩ := Moment.writtenIteration?_eq_some hi
      exact ⟨hwrite, i, hanswer, hsigned⟩
    · rintro ⟨hwrite, i, hanswer, hsigned⟩
      refine ⟨i, ?_, hsigned⟩
      unfold Moment.writtenIteration?
      rw [hwrite, hanswer]
      rfl

namespace History

/-- **Iterations are a forest in all states of a history**, whatever ids, spaces and parents clients
send. Each has a name, a space and its dates in order, and is a part of one in an earlier row of its
space or of none, so that its parents lead to a root of the space; no call changes the id, the space
or the parent of an iteration, and the ones that were committed stay. -/
theorem forest_reached (b : Backend) (vs later : List Visit)
    (hdates : b = .tables → ∀ m ∈ calls b.new (vs ++ later), ¬ m.Signs) :
    (∀ s ∈ reached b.new (vs ++ later), Forest s ∧
      ∀ row i, Store.iteration? s row = .ok (some i) → ∃ n root, n ≤ row.toNat ∧
        climb s n i = some root ∧ root.parent = none ∧ root.space = i.space) ∧
    (∀ m ∈ calls b.new (vs ++ later), Stays m.before.store m.after.store) ∧
    Stays (final b.new vs) (final b.new (vs ++ later)) := by
  have hstep : ∀ m ∈ calls b.new (vs ++ later),
      b.InOrder m.before.store ∧ Forest m.before.store →
        b.InOrder m.after.store ∧ Forest m.after.store := by
    rintro m hm ⟨horder, hforest⟩
    obtain ⟨config, hsteps⟩ := steps_of_mem_calls hm
    exact ⟨horder.writes (Request.writes config m.call hsteps),
      (Backend.forest_stays hsteps horder.iterations (fun hb => hdates hb m hm) hforest).1⟩
  obtain ⟨hreached, hbefore⟩ := kept_calls (P := fun s => b.InOrder s ∧ Forest s) hstep
    ⟨b.inOrder_new, b.forest_new⟩
  have hstays : ∀ m ∈ calls b.new (vs ++ later), Stays m.before.store m.after.store := by
    intro m hm
    obtain ⟨config, hsteps⟩ := steps_of_mem_calls hm
    obtain ⟨horder, hforest⟩ := hbefore m hm
    exact (Backend.forest_stays hsteps horder.iterations (fun hb => hdates hb m hm) hforest).2
  refine ⟨fun s hs => ⟨(hreached s hs).2, fun row i hi => (hreached s hs).2.rooted hi⟩, hstays, ?_⟩
  rw [final_append]
  refine ((trail_committed _ later).kept (P := Stays (final b.new vs)) (.refl _) ?_).2
  intro m hm hbefore
  refine hbefore.trans (hstays m ?_)
  rw [calls_append]
  exact List.mem_append_right _ ((committed_sublist _ later).mem hm)

/-- A client plans a year and, as a part of it, a quarter, for which it names the year with a
sign. -/
def planning : List Visit :=
  let march : Option Timestamp := (Timestamp.read "2024-03-01T00:00:00Z").toOption
  let june : Option Timestamp := (Timestamp.read "2024-06-01T00:00:00.000000001Z").toOption
  [⟨∅, .default, .new,
    [⟨.createIteration (Iteration.named "s" "year"), false⟩,
     ⟨.createChild ⟨"+1"⟩ "spring" march june, false⟩]⟩]

/-- Another one wants to move the quarter to a place of its own, and a third one gives up a part of
it. -/
def replanning : List Visit :=
  [⟨∅, .default, .new,
    [⟨.saveIteration { Iteration.named "t" "summer" with id := ⟨"2"⟩ }, false⟩]⟩,
   ⟨∅, .default, .new,
    [⟨.createChild ⟨"2"⟩ "june" none none, false⟩, ⟨.refuse .cancelled, false⟩]⟩]

/-- The quarter stays where it is, a part of the year. -/
theorem forest_reached_planning :
    (∀ m ∈ calls Backend.tables.new (planning ++ replanning), ¬ m.Signs) ∧
      ∃ quarter year, Store.iteration? (final Backend.tables.new (planning ++ replanning)) 2 =
          .ok (some quarter) ∧
        quarter.name = "summer" ∧ quarter.space = "s" ∧ year.name = "year" ∧
        Planted (final Backend.tables.new (planning ++ replanning)) 2 quarter ∧
        climb (final Backend.tables.new (planning ++ replanning)) 1 quarter = some year ∧
        Stays (final Backend.tables.new planning)
          (final Backend.tables.new (planning ++ replanning)) := by
  have hdates : ∀ m ∈ calls Backend.tables.new (planning ++ replanning), ¬ m.Signs := by
    decide +kernel
  obtain ⟨hforest, -, hstays⟩ := forest_reached .tables planning replanning fun _ => hdates
  obtain ⟨hhere, -⟩ := hforest _ (List.mem_append_left _ (final_mem_states _ _))
  have hlast : (Store.iteration? (final Backend.tables.new (planning ++ replanning)) 2
      |>.toOption.join.map fun i => ((i.name, i.space),
        (climb (final Backend.tables.new (planning ++ replanning)) 1 i).map Iteration.name)) =
      some (("summer", "s"), some "year") := by decide +kernel
  obtain ⟨found, hfound⟩ := hhere.readable 2
  rw [hfound] at hlast
  obtain ⟨quarter, rfl, hnames⟩ := Option.map_eq_some_iff.mp hlast
  obtain ⟨hquarter, hclimb⟩ := Prod.mk.inj hnames
  obtain ⟨hname, hspace⟩ := Prod.mk.inj hquarter
  obtain ⟨year, hyear, hname'⟩ := Option.map_eq_some_iff.mp hclimb
  exact ⟨hdates, quarter, year, hfound, hname, hspace, hname', hhere.planted 2 quarter hfound,
    hyear, hstays⟩

end History

end Backlog
