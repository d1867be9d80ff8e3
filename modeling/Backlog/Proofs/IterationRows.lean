import Backlog.Proofs.Provider
import Backlog.Proofs.Writes

/-!
# Rows of iterations

What decides whether an iteration may start is where the others stand: the space and the state of
every row. `IterationStore` says what the changes of a store do to that. A new iteration stands in a
row that was not handed out before, a changed one stays in its space, and nothing else that a client
can do touches the rows of iterations. What a store lists of a space leaves nothing out, also where
an instant of a row cannot be read: then it lists nothing and fails.

## Main results

* `IterationStore Memory`, `IterationStore Tables`, `IterationStore b.State`;
* `Request.iterationStep` — what a call makes of the rows of iterations.
-/

namespace Backlog

theorem IterationId.ofRow_injective {a b : Int} (h : IterationId.ofRow a = IterationId.ofRow b) :
    a = b :=
  rowText_injective (IterationId.mk.inj h)

/-- A store that knows where its iterations stand, each with its space and its state, and which row
it handed out last. -/
class IterationStore (σ : Type) [Store σ] where
  place? : σ → Int → Option (String × IterationState)
  lastIteration : σ → Int
  iteration?_ok : ∀ {s : σ} {row i}, Store.iteration? s row = .ok (some i) →
    i.id = .ofRow row ∧ place? s row = some (i.space, i.state)
  /-- A list of a space leaves nothing out. -/
  iterations_ok : ∀ {s : σ} {space is}, Store.iterations s space = .ok is →
    ∀ row state, place? s row = some (space, state) → ∃ i ∈ is, i.id = .ofRow row ∧ i.state = state
  insertIteration_ok : ∀ {s s' : σ} {i k}, Store.insertIteration s i = (.ok k, s') →
    k = { i with id := .ofRow (lastIteration s + 1) } ∧ lastIteration s' = lastIteration s + 1 ∧
      ∀ row, place? s' row =
        if row = lastIteration s + 1 then some (i.space, i.state) else place? s row
  updateIteration_ok : ∀ {s s' : σ} {i}, Store.updateIteration s i = (.ok true, s') →
    ∃ row space state, i.id.row? = some row ∧ place? s row = some (space, state) ∧
      lastIteration s' = lastIteration s ∧
      ∀ row', place? s' row' = if row' = row then some (space, i.state) else place? s row'
  insertItem_stays : ∀ {s s' : σ} {name version fields r},
    Store.insertItem s name version fields = (r, s') →
      lastIteration s' = lastIteration s ∧ place? s' = place? s
  updateItem_stays : ∀ {s s' : σ} {item expected r}, Store.updateItem s item expected = (r, s') →
    lastIteration s' = lastIteration s ∧ place? s' = place? s
  deleteItem_stays : ∀ {s s' : σ} {row r}, Store.deleteItem s row = (r, s') →
    lastIteration s' = lastIteration s ∧ place? s' = place? s
  insertType_stays : ∀ {s s' : σ} {t r}, Store.insertType s t = (r, s') →
    lastIteration s' = lastIteration s ∧ place? s' = place? s
  replaceTypes_stays : ∀ {s s' : σ} {ts r}, Store.replaceTypes s ts = (r, s') →
    lastIteration s' = lastIteration s ∧ place? s' = place? s

-- ---------------------------------------------------------------------------
-- The store in memory
-- ---------------------------------------------------------------------------

namespace Memory

/-- Where an iteration stands. -/
def place? (m : Memory) (row : Int) : Option (String × IterationState) :=
  (m.iterations.get? row).map fun i => (i.space, i.state)

theorem place?_insert {iterations : SortedMap Int Iteration} (row row' : Int) (i : Iteration) :
    (((iterations.insert row i).get? row').map fun i => (i.space, i.state)) =
      if row' = row then some (i.space, i.state)
      else (iterations.get? row').map fun i => (i.space, i.state) := by
  rw [SortedMap.get?_insert]
  split <;> rfl

theorem replaceTypes_stays (ts : List ItemType) (m : Memory) :
    (m.replaceTypes ts).lastIteration = m.lastIteration ∧
      (m.replaceTypes ts).iterations = m.iterations := by
  induction ts generalizing m with
  | nil => exact ⟨rfl, rfl⟩
  | cons t rest ih => exact ih (m.keepType t)

instance : IterationStore Memory where
  place? := place?
  lastIteration := lastIteration
  iteration?_ok := by
    intro m row i h
    have hheld : m.iterations.get? row = some i := Except.ok.inj h
    refine ⟨m.iterationsNumbered row i hheld, ?_⟩
    show (m.iterations.get? row).map _ = _
    rw [hheld]
    rfl
  iterations_ok := by
    intro m space is h row state hplace
    have his : m.iterationsOf space = is := Except.ok.inj h
    obtain ⟨i, hheld, hi⟩ := Option.map_eq_some_iff.mp hplace
    obtain ⟨hspace, hstate⟩ := Prod.mk.inj hi
    refine ⟨i, ?_, m.iterationsNumbered row i hheld, hstate⟩
    rw [← his]
    refine List.mem_filter.mpr ⟨?_, by simp [hspace]⟩
    exact List.mem_map.mpr ⟨(row, i), SortedMap.mem_entries_iff.mpr hheld, rfl⟩
  insertIteration_ok := by
    intro m m' i k h
    obtain ⟨hk, rfl⟩ := Prod.mk.inj h
    exact ⟨(Except.ok.inj hk).symm, rfl, fun row => place?_insert _ row _⟩
  updateIteration_ok := by
    intro m m' i h
    obtain ⟨hi, rfl⟩ := Prod.mk.inj h
    rcases m.updateIteration_cases i with
      hno | ⟨row, stored, hrow, hstored, -, hiterations, hlast, -⟩
    · rw [hno] at hi
      simp at hi
    · refine ⟨row, stored.space, stored.state, hrow, ?_, hlast, fun row' => ?_⟩
      · show (m.iterations.get? row).map _ = _
        rw [hstored]
        rfl
      · show ((m.updateIteration i).2.iterations.get? row').map _ = _
        rw [hiterations]
        exact place?_insert row row' _
  insertItem_stays := by
    intro m m' name version fields r h
    obtain ⟨-, rfl⟩ := Prod.mk.inj h
    exact ⟨rfl, rfl⟩
  updateItem_stays := by
    intro m m' item expected r h
    obtain ⟨-, rfl⟩ := Prod.mk.inj h
    show (m.updateItem item expected).2.lastIteration = _ ∧
      (m.updateItem item expected).2.place? = _
    rcases m.updateItem_cases item expected with
      hno | ⟨_, _, -, -, -, -, -, -, -, hiterations, hlast⟩
    · rw [hno]
      exact ⟨rfl, rfl⟩
    · refine ⟨hlast, ?_⟩
      unfold place?
      rw [hiterations]
  deleteItem_stays := by
    intro m m' row r h
    obtain ⟨-, rfl⟩ := Prod.mk.inj h
    show (m.deleteItem row).2.lastIteration = _ ∧ (m.deleteItem row).2.place? = _
    unfold deleteItem
    split <;> exact ⟨rfl, rfl⟩
  insertType_stays := by
    intro m m' t r h
    obtain ⟨-, rfl⟩ := Prod.mk.inj h
    show (m.insertType t).2.lastIteration = _ ∧ (m.insertType t).2.place? = _
    unfold insertType
    split <;> exact ⟨rfl, rfl⟩
  replaceTypes_stays := by
    intro m m' ts r h
    obtain ⟨-, rfl⟩ := Prod.mk.inj h
    obtain ⟨hlast, hiterations⟩ := replaceTypes_stays ts m
    refine ⟨hlast, ?_⟩
    show (m.replaceTypes ts).place? = m.place?
    unfold place?
    rw [hiterations]

end Memory

-- ---------------------------------------------------------------------------
-- The store of tables
-- ---------------------------------------------------------------------------

namespace Tables

/-- Where an iteration stands, whether or not its instants can be read. -/
def place? (t : Tables) (row : Int) : Option (String × IterationState) :=
  (t.iterations.get? row).map fun r => (r.space, r.state)

theorem place?_insert {iterations : SortedMap Int IterationRow} (row row' : Int)
    (r : IterationRow) :
    (((iterations.insert row r).get? row').map fun r => (r.space, r.state)) =
      if row' = row then some (r.space, r.state)
      else (iterations.get? row').map fun r => (r.space, r.state) := by
  rw [SortedMap.get?_insert]
  split <;> rfl

theorem decodeIteration_ok {row : Int} {r : IterationRow} {i : Iteration}
    (h : decodeIteration row r = some i) :
    i.id = .ofRow row ∧ i.space = r.space ∧ i.state = r.state := by
  unfold decodeIteration at h
  split at h
  · obtain rfl := Option.some.inj h
    exact ⟨rfl, rfl, rfl⟩
  · simp at h

theorem decodeIterations_ok {rows : List (Int × IterationRow)} {is : List Iteration}
    (h : decodeIterations rows = some is) :
    ∀ e ∈ rows, ∃ i ∈ is, decodeIteration e.1 e.2 = some i := by
  induction rows generalizing is with
  | nil => simp
  | cons x rest ih =>
    obtain ⟨row, r⟩ := x
    intro e he
    rw [decodeIterations] at h
    split at h
    · next i is' hi his =>
      obtain rfl := Option.some.inj h
      rcases List.mem_cons.mp he with rfl | he
      · exact ⟨i, List.mem_cons_self, hi⟩
      · obtain ⟨j, hj, hdecode⟩ := ih his e he
        exact ⟨j, List.mem_cons_of_mem i hj, hdecode⟩
    · simp at h

theorem replaceTypes_stays (ts : List ItemType) (t : Tables) :
    (t.replaceTypes ts).2.lastIteration = t.lastIteration ∧
      (t.replaceTypes ts).2.iterations = t.iterations := by
  induction ts generalizing t with
  | nil => exact ⟨rfl, rfl⟩
  | cons type rest ih =>
    rw [replaceTypes]
    split
    · exact ih _
    · exact ⟨rfl, rfl⟩

instance : IterationStore Tables where
  place? := place?
  lastIteration := lastIteration
  iteration?_ok := by
    intro t row i h
    change t.iteration? row = _ at h
    unfold iteration? at h
    split at h
    · simp at h
    · next r hr =>
      split at h
      · next j hj =>
        obtain rfl := Option.some.inj (Except.ok.inj h)
        obtain ⟨hid, hspace, hstate⟩ := decodeIteration_ok hj
        refine ⟨hid, ?_⟩
        show (t.iterations.get? row).map _ = _
        rw [hr, hspace, hstate]
        rfl
      · simp at h
  iterations_ok := by
    intro t space is h row state hplace
    change (match decodeIterations (t.iterationRows space) with
      | some is => Except.ok is
      | none => .error (StoreFault.during "read iteration rows")) = _ at h
    split at h
    · next js hjs =>
      obtain rfl := Except.ok.inj h
      obtain ⟨r, hr, he⟩ := Option.map_eq_some_iff.mp hplace
      obtain ⟨hspace, hstate⟩ := Prod.mk.inj he
      have hmem : (row, r) ∈ t.iterationRows space :=
        List.mem_filter.mpr ⟨SortedMap.mem_entries_iff.mpr hr, by simp [hspace]⟩
      obtain ⟨i, hi, hdecode⟩ := decodeIterations_ok hjs (row, r) hmem
      obtain ⟨hid, -, hs⟩ := decodeIteration_ok hdecode
      exact ⟨i, hi, hid, hs.trans hstate⟩
    · simp at h
  insertIteration_ok := by
    intro t t' i k h
    change t.insertIteration i = _ at h
    rcases t.insertIteration_cases i with ⟨_, hno⟩ | hyes
    · exact absurd (Prod.mk.inj (hno.symm.trans h)).1 (by simp)
    · obtain ⟨hk, rfl⟩ := Prod.mk.inj (hyes.symm.trans h)
      exact ⟨(Except.ok.inj hk).symm, rfl, fun row => place?_insert _ row _⟩
  updateIteration_ok := by
    intro t t' i h
    change t.updateIteration i = _ at h
    rcases t.updateIteration_cases i with ⟨_, hne, hno⟩ | ⟨row, stored, hrow, hstored, hyes⟩
    · exact absurd (Prod.mk.inj (hno.symm.trans h)).1 hne
    · obtain ⟨-, rfl⟩ := Prod.mk.inj (hyes.symm.trans h)
      refine ⟨row, stored.space, stored.state, hrow, ?_, rfl, fun row' => place?_insert row row' _⟩
      show (t.iterations.get? row).map _ = _
      rw [hstored]
      rfl
  insertItem_stays := by
    intro t t' name version fields r h
    change t.insertItem name version fields = _ at h
    rcases t.insertItem_cases name version fields with ⟨_, hno⟩ | ⟨-, -, hyes⟩
    · rw [← (Prod.mk.inj (hno.symm.trans h)).2]
      exact ⟨rfl, rfl⟩
    · rw [← (Prod.mk.inj (hyes.symm.trans h)).2]
      exact ⟨rfl, rfl⟩
  updateItem_stays := by
    intro t t' item expected r h
    change t.updateItem item expected = _ at h
    rcases t.updateItem_cases item expected with ⟨_, -, hno⟩ | ⟨_, _, -, -, -, hyes⟩
    · rw [← (Prod.mk.inj (hno.symm.trans h)).2]
      exact ⟨rfl, rfl⟩
    · rw [← (Prod.mk.inj (hyes.symm.trans h)).2]
      exact ⟨rfl, rfl⟩
  deleteItem_stays := by
    intro t t' row r h
    obtain ⟨-, rfl⟩ := Prod.mk.inj h
    show (t.deleteItem row).2.lastIteration = _ ∧ (t.deleteItem row).2.place? = _
    unfold deleteItem
    split <;> exact ⟨rfl, rfl⟩
  insertType_stays := by
    intro t t' type r h
    obtain ⟨-, rfl⟩ := Prod.mk.inj h
    show (t.insertType type).2.lastIteration = _ ∧ (t.insertType type).2.place? = _
    unfold insertType
    split <;> exact ⟨rfl, rfl⟩
  replaceTypes_stays := by
    intro t t' ts r h
    obtain ⟨hlast, hiterations⟩ := replaceTypes_stays ts t
    change t.replaceTypes ts = _ at h
    rw [h] at hlast hiterations
    refine ⟨hlast, ?_⟩
    show t'.place? = t.place?
    unfold place?
    rw [hiterations]

end Tables

instance : (b : Backend) → IterationStore b.State
  | .memory => inferInstanceAs (IterationStore Memory)
  | .tables => inferInstanceAs (IterationStore Tables)

-- ---------------------------------------------------------------------------
-- What calls do to the rows
-- ---------------------------------------------------------------------------

section Steps

open IterationStore

variable {σ : Type} [Store σ] [IterationStore σ]

/-- Every row that is held was handed out. -/
def Numbered (s : σ) : Prop := ∀ row place, place? s row = some place → row ≤ lastIteration s

/-- What a call made of the rows of iterations of the store it found. -/
inductive IterationStep (s s' : σ) : Request → Except AccessError Reply → Prop
  | kept {q r} (hlast : lastIteration s' = lastIteration s) (hplaces : place? s' = place? s)
      (hquiet : ∀ i, q.newIteration? = some i → r.isOk = false) : IterationStep s s' q r
  | created {q i space} (hnew : q.newIteration? = some i)
      (hstart : i.state = .start → Iterations.MayStart s { i with space })
      (hlast : lastIteration s' = lastIteration s + 1)
      (hplaces : ∀ row, place? s' row =
        if row = lastIteration s + 1 then some (space, i.state) else place? s row) :
      IterationStep s s' q
        (.ok (.iteration { i with id := .ofRow (lastIteration s + 1), space }))
  | saved {i : Iteration} {row} {stored : Iteration} {r}
      (hlast : lastIteration s' = lastIteration s)
      (hid : stored.id = .ofRow row) (hheld : place? s row = some (stored.space, stored.state))
      (hstart : i.state = .start → stored.state ≠ .start → Iterations.MayStart s
        { i with id := stored.id, space := stored.space, parent := stored.parent })
      (hplaces : ∀ row', place? s' row' =
        if row' = row then some (stored.space, i.state) else place? s row') :
      IterationStep s s' (.saveIteration i) r

variable {s s' : σ} {q : Request} {r : Except AccessError Reply}

/-- **A call created an iteration, changed the state of one, or left all of them alone.** -/
theorem Request.iterationStep (hw : Writes s q r s') : IterationStep s s' q r := by
  cases hw with
  | failed q e => exact .kept rfl rfl fun _ _ => rfl
  | read b hread =>
    refine .kept rfl rfl fun i hi => ?_
    cases q <;> simp [isWrite, newIteration?] at hread hi
  | create hw =>
    obtain ⟨hlast, hplaces⟩ := insertItem_stays hw
    exact .kept hlast hplaces fun _ hi => by simp [newIteration?] at hi
  | save hrow hstored hversion hw =>
    obtain ⟨hlast, hplaces⟩ := updateItem_stays hw
    exact .kept hlast hplaces fun _ hi => by simp [newIteration?] at hi
  | delete hrow hw =>
    obtain ⟨hlast, hplaces⟩ := deleteItem_stays hw
    exact .kept hlast hplaces fun _ hi => by simp [newIteration?] at hi
  | publish hw =>
    obtain ⟨hlast, hplaces⟩ := insertType_stays hw
    exact .kept hlast hplaces fun _ hi => by simp [newIteration?] at hi
  | migrate hw | halfMigrated hw =>
    obtain ⟨hlast, hplaces⟩ := replaceTypes_stays hw
    exact .kept hlast hplaces fun _ hi => by simp [newIteration?] at hi
  | @createIteration _ i space _ _ hnew hstart hw =>
    obtain ⟨rfl, hlast, hplaces⟩ := insertIteration_ok hw
    exact .created (i := i) hnew hstart hlast hplaces
  | @saveIteration i row stored _ hrow hstored hstart hw =>
    obtain ⟨hid, hheld⟩ := iteration?_ok hstored
    obtain ⟨row', space, state, hrow', hplace, hlast, hplaces⟩ := updateIteration_ok hw
    -- the iteration that was read carries the row it was read from
    obtain rfl : row' = row := eq_of_rowOf?_rowText (by rw [hid] at hrow'; exact hrow')
    obtain ⟨rfl, -⟩ := Prod.mk.inj (Option.some.inj (hplace.symm.trans hheld))
    exact .saved hlast hid hheld hstart hplaces

end Steps

end Backlog
