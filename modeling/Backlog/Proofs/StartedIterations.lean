import Backlog.Proofs.History
import Backlog.Proofs.IterationRows

/-!
# One started iteration in a space

A space should have at most one iteration that is started. Nothing stores this: whoever creates a
started iteration, and whoever saves one that was not started before, looks at the others of its
space first, and leaves out the one with the id of the iteration itself. A save carries the id that
is stored, so it leaves out the row that it is about to write and no other one.

A new iteration has no row yet, and the id that it brings is the word of its client. If that id
happens to be the id of the started iteration of the space, the one iteration that stands in the way
is left out, and the space ends up with two. Such a call is a *clash*, and clashes are the only way
to come by a second started iteration: this module proves that the states that a history passes
through have at most one in every space exactly as long as no call clashes.

## Main results

* `IterationStep.oneStarted_iff` — a call keeps a space to one started iteration unless it clashes;
* `Moment.oneStarted_iff` — the same for the calls of clients;
* `History.oneStarted_reached_iff` — the same for the histories of a new store of either kind;
* `History.twiceStarted` — a history that clashes.
-/

namespace Backlog

open IterationStore

section Places

variable {σ : Type} [Store σ] [IterationStore σ] {s s' : σ}

/-- No space has two iterations that are started. -/
def OneStarted (s : σ) : Prop := ∀ row row' space, place? s row = some (space, .start) →
  place? s row' = some (space, .start) → row = row'

/-- A call that creates a started iteration under the id of the one that is started in the space
where it lands, and gets through with it. -/
def Clash (s : σ) (q : Request) (r : Except AccessError Reply) : Prop :=
  ∃ i k row, q.newIteration? = some i ∧ i.state = .start ∧ i.id = .ofRow row ∧
    r = .ok (.iteration k) ∧ place? s row = some (k.space, .start)

-- ---------------------------------------------------------------------------
-- One call
-- ---------------------------------------------------------------------------

/-- What the check of a start lets stand: started iterations of the space are the iteration that is
to be started, going by its id. -/
theorem id_of_mayStart {i : Iteration} (h : Iterations.MayStart s i) {row : Int}
    (hrow : place? s row = some (i.space, .start)) : i.id = .ofRow row := by
  obtain ⟨others, hothers, hcheck⟩ := h
  obtain ⟨other, hmem, hid, hstate⟩ := iterations_ok hothers row .start hrow
  by_cases hsame : other.id = i.id
  · exact hsame.symm.trans hid
  · exact absurd hstate (Iterations.checkStart_eq_ok_iff.mp hcheck other hmem hsame)

variable {q : Request} {r : Except AccessError Reply}

/-- No call hands a row of iterations out again. -/
theorem IterationStep.lastIteration_le (h : IterationStep s s' q r) :
    lastIteration s ≤ lastIteration s' := by
  cases h with
  | kept hlast => omega
  | created _ _ hlast => omega
  | saved hlast => omega

/-- An iteration stands where one stood before, or in the row that was handed out. -/
theorem IterationStep.place_cases (h : IterationStep s s' q r) {row : Int}
    {place : String × IterationState} (hplace : place? s' row = some place) :
    (∃ old, place? s row = some old) ∨
      row = lastIteration s + 1 ∧ lastIteration s' = lastIteration s + 1 := by
  cases h with
  | kept _ hplaces _ => exact .inl ⟨place, hplaces ▸ hplace⟩
  | created _ _ hlast hplaces =>
    rw [hplaces] at hplace
    split at hplace
    · next e => exact .inr ⟨e, hlast⟩
    · exact .inl ⟨place, hplace⟩
  | saved _ _ hheld _ hplaces =>
    rw [hplaces] at hplace
    split at hplace
    · next e => exact .inl ⟨_, e ▸ hheld⟩
    · exact .inl ⟨place, hplace⟩

/-- A call leaves rows that were handed out. -/
theorem IterationStep.numbered (h : IterationStep s s' q r) (hs : Numbered s) : Numbered s' := by
  intro row place hplace
  have hle := h.lastIteration_le
  rcases h.place_cases hplace with ⟨old, hold⟩ | ⟨rfl, hlast⟩
  · have := hs row old hold
    omega
  · omega

/-- **A call keeps every space to one started iteration exactly if it does not clash.** -/
theorem IterationStep.oneStarted_iff (h : IterationStep s s' q r) (hs : Numbered s)
    (hone : OneStarted s) : OneStarted s' ↔ ¬ Clash s q r := by
  cases h with
  | kept _ hplaces hquiet =>
    have hstays : OneStarted s' := by
      intro row row' space hrow hrow'
      rw [hplaces] at hrow hrow'
      exact hone row row' space hrow hrow'
    refine iff_of_true hstays ?_
    rintro ⟨i, k, row, hnew, -, -, rfl, -⟩
    exact absurd (hquiet i hnew) (by simp [Except.isOk, Except.toBool])
  | @created _ i space hnew hstart _ hplaces =>
    have hfresh : ∀ row, place? s row = some (space, .start) → row ≠ lastIteration s + 1 := by
      intro row hrow e
      have := hs row _ hrow
      omega
    constructor
    · -- a clash leaves the old one and the new one
      rintro hone' ⟨j, k, row, hnew', hstate, -, hk, hrow⟩
      obtain rfl : i = j := Option.some.inj (hnew.symm.trans hnew')
      obtain rfl := Reply.iteration.inj (Except.ok.inj hk)
      have hne := hfresh row hrow
      refine hne (hone' row (lastIteration s + 1) space ?_ ?_)
      · rw [hplaces, if_neg hne]
        exact hrow
      · rw [hplaces, if_pos rfl, hstate]
    · -- without a clash nothing is started in the space yet
      intro hclash
      have halone : i.state = .start → ∀ row, place? s row ≠ some (space, .start) := by
        intro hstate row hrow
        have hid : i.id = .ofRow row := id_of_mayStart (hstart hstate) hrow
        exact hclash ⟨i, _, row, hnew, hstate, hid, rfl, hrow⟩
      intro row row' space' hrow hrow'
      rw [hplaces] at hrow hrow'
      split at hrow
      · next e =>
        obtain ⟨rfl, hstate⟩ := Prod.mk.inj (Option.some.inj hrow)
        split at hrow'
        · next e' => exact e.trans e'.symm
        · exact absurd hrow' (halone hstate row')
      · split at hrow'
        · obtain ⟨rfl, hstate⟩ := Prod.mk.inj (Option.some.inj hrow')
          exact absurd hrow (halone hstate row)
        · exact hone row row' space' hrow hrow'
  | @saved i saved stored _ _ hid hheld hstart hplaces =>
    have hkeeps : ∀ row space, row ≠ saved → i.state = .start → stored.space = space →
        place? s row ≠ some (space, .start) := by
      rintro row space hne hstate rfl hrow
      by_cases hold : stored.state = .start
      · rw [hold] at hheld
        exact hne (hone row saved stored.space hrow hheld)
      · have hsame : stored.id = .ofRow row := id_of_mayStart (hstart hstate hold) hrow
        exact hne (IterationId.ofRow_injective (hsame.symm.trans hid))
    refine iff_of_true ?_ ?_
    · intro row row' space hrow hrow'
      rw [hplaces] at hrow hrow'
      split at hrow
      · next e =>
        obtain ⟨hspace, hstate⟩ := Prod.mk.inj (Option.some.inj hrow)
        split at hrow'
        · next e' => exact e.trans e'.symm
        · next hne => exact absurd hrow' (hkeeps row' space hne hstate hspace)
      · next hne =>
        split at hrow'
        · obtain ⟨hspace, hstate⟩ := Prod.mk.inj (Option.some.inj hrow')
          exact absurd hrow (hkeeps row space hne hstate hspace)
        · exact hone row row' space hrow hrow'
    · rintro ⟨j, -, -, hnew, -⟩
      simp [Request.newIteration?] at hnew

-- ---------------------------------------------------------------------------
-- Calls
-- ---------------------------------------------------------------------------

/-- A call that clashed. -/
def Moment.Clashed (m : Moment σ Request Reply) : Prop := Clash m.before.store m.call m.answer

/-- **A call keeps rows that were handed out, and every space to one started iteration exactly if it
does not clash.** -/
theorem Moment.oneStarted_iff {m : Moment σ Request Reply}
    (hw : Request.Writes m.before.store m.call m.answer m.after.store)
    (h : Numbered m.before.store ∧ OneStarted m.before.store) :
    (Numbered m.after.store ∧ OneStarted m.after.store) ↔ ¬ m.Clashed := by
  have hstep := Request.iterationStep hw
  rw [and_iff_right (hstep.numbered h.1)]
  exact hstep.oneStarted_iff h.1 h.2

end Places

-- ---------------------------------------------------------------------------
-- Histories
-- ---------------------------------------------------------------------------

namespace History

variable {σ : Type} [Store σ]

/-- The states that a history passes through: the committed ones, and those that a call of a
transaction leaves to the next one, whatever becomes of the transaction. -/
def reached (s : σ) (vs : List Visit) : List σ :=
  states s vs ++ (calls s vs).map fun m => m.after.store

variable [LawfulStore σ] [IterationStore σ]

/-- Calls leave rows that were handed out. -/
theorem numbered_calls {s : σ} {vs : List Visit} (hs : Numbered s) :
    ∀ m ∈ calls s vs, Numbered m.after.store := by
  have hstep : ∀ m : Moment σ Request Reply,
      Request.Writes m.before.store m.call m.answer m.after.store → Numbered m.before.store →
        (Numbered m.after.store ↔ ¬ False) :=
    fun m hw h => iff_of_true ((Request.iterationStep hw).numbered h) id
  exact (forall_calls_iff hstep vs hs).1.mpr fun _ _ => id

/-- The calls of a history keep every space to one started iteration exactly if none of them
clashes. -/
theorem oneStarted_calls_iff {s : σ} {vs : List Visit} (hs : Numbered s) (hone : OneStarted s) :
    (∀ m ∈ calls s vs, OneStarted m.after.store) ↔ ∀ m ∈ calls s vs, ¬ m.Clashed := by
  have hcalls := (forall_calls_iff (P := fun s => Numbered s ∧ OneStarted s)
    (fun _ => Moment.oneStarted_iff) vs ⟨hs, hone⟩).1
  rw [← hcalls]
  exact forall₂_congr fun m hm => (and_iff_right (numbered_calls hs m hm)).symm

theorem oneStarted_states {s : σ} {vs : List Visit} (hs : Numbered s) (hone : OneStarted s)
    (hclash : ∀ m ∈ calls s vs, ¬ m.Clashed) : ∀ s' ∈ states s vs, OneStarted s' := by
  have hstates := (forall_calls_iff (P := fun s => Numbered s ∧ OneStarted s)
    (fun _ => Moment.oneStarted_iff) vs ⟨hs, hone⟩).2 hclash
  exact fun s' hs' => (hstates s' hs').2

/-- A new store has no iterations. -/
theorem place?_new (b : Backend) (row : Int) : place? b.new row = none := by
  cases b with
  | memory =>
    show ((Memory.empty.replaceTypes ItemType.system).iterations.get? row).map
      (fun i => (i.space, i.state)) = none
    rw [(Memory.replaceTypes_stays ItemType.system Memory.empty).2]
    rfl
  | tables => rfl

/-- **A history of a new store keeps every space to one started iteration exactly if no call
clashes**: whatever clients create, save and try, in whatever order. -/
theorem oneStarted_reached_iff (b : Backend) (vs : List Visit) :
    (∀ s ∈ reached b.new vs, OneStarted s) ↔ ∀ m ∈ calls b.new vs, ¬ m.Clashed := by
  have hs : Numbered b.new := by
    intro row place hplace
    rw [place?_new] at hplace
    simp at hplace
  have hone : OneStarted b.new := by
    intro row row' space hrow
    rw [place?_new] at hrow
    simp at hrow
  have hcalls : (∀ m ∈ calls b.new vs, OneStarted m.after.store) ↔
      ∀ m ∈ calls b.new vs, ¬ m.Clashed := oneStarted_calls_iff hs hone
  unfold reached
  rw [List.forall_mem_append, List.forall_mem_map, hcalls]
  exact and_iff_right_of_imp (oneStarted_states hs hone)

/-- Two started iterations of one space; the second one is created under the id of the first. -/
def twiceStarted : List Visit :=
  let sprint : Iteration := { Iteration.named "s" "a" with state := .start }
  [⟨∅, .default, .new, [⟨.createIteration sprint, false⟩]⟩,
   ⟨∅, .default, .new, [⟨.createIteration { sprint with id := ⟨"1"⟩ }, false⟩]⟩]

/-- Both are committed, in a store of either kind. -/
theorem not_oneStarted_twiceStarted :
    ¬ (∀ s ∈ reached Backend.memory.new twiceStarted, OneStarted s) ∧
      ¬ ∀ s ∈ reached Backend.tables.new twiceStarted, OneStarted s := by
  constructor
  · intro h
    have hlast : final Backend.memory.new twiceStarted ∈ reached Backend.memory.new twiceStarted :=
      List.mem_append_left _ (final_mem_states _ _)
    exact absurd (h _ hlast 1 2 "s" (by decide +kernel) (by decide +kernel)) (by decide)
  · intro h
    have hlast : final Backend.tables.new twiceStarted ∈ reached Backend.tables.new twiceStarted :=
      List.mem_append_left _ (final_mem_states _ _)
    exact absurd (h _ hlast 1 2 "s" (by decide +kernel) (by decide +kernel)) (by decide)

end History

end Backlog
