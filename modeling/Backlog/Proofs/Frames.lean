import Backlog.Proofs.Legible
import Backlog.Proofs.NoLostUpdate
import Backlog.Proofs.Renderings

/-!
# What calls leave alone

A record stays as it is as long as no call is about it. Of the calls that follow in the same
transaction a new record takes a row of its own, a save or a removal touches one row, and a type
that is published is none that a row has already. A migration touches no rows, but it changes how
tables read the rows of items of the types that it replaces; it leaves the iterations alone.

This needs that rows were handed out in ascending order, and of tables that their types and rows can
be read back. All states that a service comes to are in such an order, also after migrations. What
the service remembers of types is then what its store holds, unless a script goes on after half a
migration.

## Main results

* `Trail.item?_stays`, `Trail.iteration?_stays` — records that calls spare;
* `History.kept_reached` — what calls keep that migrate no types holds of all states of a history;
* `Service.inOrder_after` — services that begin with a new store stay in order;
* `Service.reflects_after` — what their caches remember of types is what their stores hold.
-/

namespace Backlog

open Tx WorkItems

/-- A row that some text names is named by its own text. -/
theorem rowOf?_rowText_self {text : String} {row : Int} (h : rowOf? text = some row) :
    rowOf? (rowText row) = some row :=
  rowOf?_rowText (rowOf?_pos h) (rowOf?_lt h)

/-- An id that was made of a row names no other row. -/
theorem ItemId.eq_of_row? {id : ItemId} {row row' : Int} (hid : id = .ofRow row)
    (hrow : id.row? = some row') : row' = row := by
  rw [hid] at hrow
  exact eq_of_rowOf?_rowText hrow

/-- An id that was made of a row names no other row. -/
theorem IterationId.eq_of_row? {id : IterationId} {row row' : Int} (hid : id = .ofRow row)
    (hrow : id.row? = some row') : row' = row := by
  rw [hid] at hrow
  exact eq_of_rowOf?_rowText hrow

-- ---------------------------------------------------------------------------
-- Stores in order
-- ---------------------------------------------------------------------------

section Sound

variable {σ : Type} [Store σ] [ItemStore σ] {s s' : σ}

open ItemStore

/-- A call that migrates no types keeps a store sound. -/
theorem Request.Writes.sound {q : Request} {r : Except AccessError Reply} (hw : Writes s q r s')
    (hq : ∀ ts, q ≠ .migrate ts) (hs : ItemStore.Sound s) : ItemStore.Sound s' := by
  cases hw with
  | failed | read => exact hs
  | create hw => exact (insertItem_ok hs hw).1
  | save _ _ _ hw =>
    obtain ⟨_, _, _, -, hs', -⟩ := updateItem_ok hs hw
    exact hs'
  | delete _ hw => exact (deleteItem_ok hs hw).1
  | publish hw => exact (insertType_ok hs hw).1
  | migrate | halfMigrated => exact absurd rfl (hq _)
  | createIteration _ _ hw => exact (insertIteration_ok hs hw).1
  | saveIteration _ _ _ hw => exact (updateIteration_ok hs hw).1

end Sound

theorem Memory.Sound.replaceTypes {m : Memory} (h : m.Sound) (ts : List ItemType) :
    (m.replaceTypes ts).Sound := by
  induction ts generalizing m with
  | nil => exact h
  | cons t rest ih =>
    have hkept : (m.keepType t).Sound := ⟨h.last, h.placed⟩
    exact ih hkept

theorem Tables.Sound.replaceTypes {t : Tables} (h : t.Sound) (ts : List ItemType) :
    (t.replaceTypes ts).2.Sound := by
  induction ts generalizing t with
  | nil => exact h
  | cons type rest ih =>
    unfold Tables.replaceTypes
    split
    · refine ih ⟨h.last, SortedMap.forall_get?_insert h.types
        ⟨_, Document.definitions?_ofDefinitions type.fields⟩, fun row r hr => ?_⟩
      obtain ⟨hlow, hhigh, htyped, hfields⟩ := h.rows row r hr
      exact ⟨hlow, hhigh, SortedMap.contains_insert_iff.mpr (.inr htyped), hfields⟩
    · exact h

namespace Backend

theorem sound_replaceTypes (b : Backend) {s s' : b.State} {ts : List ItemType}
    {r : Except StoreFault Unit} (hw : Store.replaceTypes s ts = (r, s'))
    (h : ItemStore.Sound s) : ItemStore.Sound s' := by
  cases b with
  | memory =>
    obtain ⟨-, rfl⟩ := Prod.mk.inj hw
    exact Memory.Sound.replaceTypes h ts
  | tables =>
    change Tables.replaceTypes s ts = _ at hw
    have hsound := Tables.Sound.replaceTypes h ts
    rwa [hw] at hsound

/-- Rows were handed out in ascending order, and what stands in the rows of items can be read. -/
structure InOrder (b : Backend) (s : b.State) : Prop where
  items : ItemStore.Sound s
  iterations : Numbered s
  last : 0 ≤ IterationStore.lastIteration s

theorem inOrder_new (b : Backend) : b.InOrder b.new where
  items := (within_new b).1.sound
  iterations row place hplace := by simp [History.place?_new] at hplace
  last := by cases b <;> exact Int.le_refl 0

/-- Every call keeps a store in order, a migration too. -/
theorem InOrder.writes {b : Backend} {s s' : b.State} {q : Request} {r : Except AccessError Reply}
    (h : b.InOrder s) (hw : Request.Writes s q r s') : b.InOrder s' := by
  have hstep := Request.iterationStep hw
  refine ⟨?_, hstep.numbered h.iterations, Int.le_trans h.last hstep.lastIteration_le⟩
  by_cases hmigrate : ∃ ts, q = .migrate ts
  · obtain ⟨ts, rfl⟩ := hmigrate
    cases hw with
    | failed => exact h.items
    | read b hread => exact absurd hread (by simp [Request.isWrite])
    | migrate hw | halfMigrated hw => exact b.sound_replaceTypes hw h.items
    | createIteration hnew => simp [Request.newIteration?] at hnew
  · exact hw.sound (fun ts e => hmigrate ⟨ts, e⟩) h.items

theorem inOrder_perform {b : Backend} (config : ServiceConfig) (q : Request) (o : Open b.State)
    (h : b.InOrder o.store) : b.InOrder ((q.perform config).steps o).2.store :=
  h.writes (Request.writes config q (Prod.eta _).symm)

end Backend

-- ---------------------------------------------------------------------------
-- Stores that keep their types
-- ---------------------------------------------------------------------------

section Types

variable {σ : Type} [Store σ]

/-- A call that migrates no types leaves all of them. -/
theorem Request.Writes.grows [LawfulTypes σ] {s s' : σ} {q : Request}
    {r : Except AccessError Reply} (hw : Request.Writes s q r s') (hq : q.IsPlain) :
    Grows s s' := by
  cases hw with
  | failed | read => exact .refl s
  | migrate | halfMigrated => exact absurd rfl (hq _)
  | create hw => exact .of_type?_eq fun _ => LawfulStore.type?_insertItem hw
  | save _ _ _ hw => exact .of_type?_eq fun _ => LawfulStore.type?_updateItem hw
  | delete _ hw => exact .of_type?_eq fun _ => LawfulStore.type?_deleteItem hw
  | publish hw => exact .insertType hw
  | createIteration _ _ hw => exact .of_type?_eq fun _ => LawfulStore.type?_insertIteration hw
  | saveIteration _ _ _ hw => exact .of_type?_eq fun _ => LawfulStore.type?_updateIteration hw

/-- What every call keeps that migrates no types holds of all states of a history that migrates
none. -/
theorem History.kept_reached [LawfulStore σ] {P : σ → Prop}
    (hstep : ∀ {s s' : σ} {q r}, Request.Writes s q r s' → q.IsPlain → P s → P s') {s : σ}
    {vs : List Visit} (hplain : ∀ v ∈ vs, v.IsPlain) (h : P s) : ∀ s' ∈ reached s vs, P s' := by
  refine (kept_calls (fun m hm hbefore => ?_) h).1
  obtain ⟨v, hv, a, ha, hcall⟩ := call_mem hm
  obtain ⟨config, hsteps⟩ := steps_of_mem_calls hm
  exact hstep (Request.writes config m.call hsteps) (hcall ▸ hplain v hv a ha) hbefore

end Types

-- ---------------------------------------------------------------------------
-- Items
-- ---------------------------------------------------------------------------

/-- A migration leaves items in memory alone. -/
theorem Memory.items_replaceTypes (m : Memory) (ts : List ItemType) :
    (m.replaceTypes ts).items = m.items := by
  induction ts generalizing m with
  | nil => rfl
  | cons t rest ih => exact ih (m.keepType t)

namespace Tables

variable {t : Tables} {row : Int}

/-- An item that was decoded has the type of its row. -/
theorem typeName_decodeItem {r : ItemRow} {i : WorkItem} (h : t.decodeItem row r = .ok i) :
    i.typeName = r.typeName := by
  unfold decodeItem at h
  split at h
  · exact nomatch h
  · split at h
    · rw [← Except.ok.inj h]
    · exact nomatch h

/-- An item is decoded only if its type can be read. -/
theorem type?_of_decodeItem {r : ItemRow} {i : WorkItem} (h : t.decodeItem row r = .ok i) :
    ∃ type, t.type? r.typeName = .ok type := by
  unfold decodeItem at h
  split at h
  · exact nomatch h
  · next type htype => exact ⟨type, htype⟩

/-- A migration leaves an item in tables alone if its type reads as before. -/
theorem item?_replaceTypes {ts : List ItemType} {i : WorkItem} (h : t.item? row = .ok (some i))
    (htype : ((t.replaceTypes ts).2.type? i.typeName).toOption = (t.type? i.typeName).toOption) :
    (t.replaceTypes ts).2.item? row = .ok (some i) := by
  obtain ⟨r, hr, hdecode⟩ := row_of_item? h
  obtain ⟨type, hbefore⟩ := type?_of_decodeItem hdecode
  rw [typeName_decodeItem hdecode, hbefore] at htype
  rw [← h]
  refine item?_eq (congrArg (·.get? row) (items_replaceTypes t ts)) fun r' hr' => ?_
  obtain rfl := Option.some.inj (hr.symm.trans hr')
  rw [hbefore, eq_ok_of_toOption htype]

end Tables

namespace Backend

/-- Whether a call neither saved nor removed an item, nor, where the type of an item tells how the
item is read, left its type another than it found it. -/
def sparesItem (b : Backend) (i : WorkItem) (m : Moment b.State Request Reply) : Bool :=
  match m.call with
  | .save u => !m.answer.isOk || u.id.row? != i.id.row?
  | .delete id => !m.answer.isOk || id.row? != i.id.row?
  | .migrate _ =>
    b == .memory ||
      (Store.type? m.after.store i.typeName).toOption ==
        (Store.type? m.before.store i.typeName).toOption
  | _ => true

variable {b : Backend} {i : WorkItem} {row : Int}

theorem item?_replaceTypes {s s' : b.State} {ts : List ItemType} {r : Except StoreFault Unit}
    (hw : Store.replaceTypes s ts = (r, s')) (h : Store.item? s row = .ok (some i))
    (htype : (b == .memory || (Store.type? s' i.typeName).toOption ==
      (Store.type? s i.typeName).toOption) = true) : Store.item? s' row = .ok (some i) := by
  cases b with
  | memory =>
    obtain ⟨-, rfl⟩ := Prod.mk.inj hw
    rw [← h]
    exact congrArg (fun items => Except.ok (items.get? row)) (Memory.items_replaceTypes s ts)
  | tables =>
    change Tables.replaceTypes s ts = _ at hw
    obtain rfl : (Tables.replaceTypes s ts).2 = s' := congrArg Prod.snd hw
    exact Tables.item?_replaceTypes h (beq_iff_eq.mp htype)

open ItemStore in
/-- An item is in its row after a call that spares it. -/
theorem item?_stays {m : Moment b.State Request Reply}
    (hw : Request.Writes m.before.store m.call m.answer m.after.store)
    (hs : ItemStore.Sound m.before.store) (h : Store.item? m.before.store row = .ok (some i))
    (hspare : b.sparesItem i m = true) : Store.item? m.after.store row = .ok (some i) := by
  obtain ⟨hid, -, hhigh⟩ := item?_placed hs h
  -- the row of the item is none that a call names which spares it
  have hother : ∀ {id : ItemId} {row' : Int}, id.row? = some row' →
      (id.row? != i.id.row?) = true → row ≠ row' := by
    rintro id row' hrow' hne rfl
    refine bne_iff_ne.mp hne ?_
    rw [hrow', hid]
    exact (rowOf?_rowText_self hrow').symm
  obtain ⟨o, q, r, o'⟩ := m
  unfold sparesItem at hspare
  simp only at hw hs h hhigh hspare ⊢
  generalize o.store = s at hw hs h hhigh hspare ⊢
  generalize o'.store = s' at hw hspare ⊢
  cases hw with
  | failed | read => exact h
  | create hw =>
    obtain ⟨-, -, hrows, -⟩ := insertItem_ok hs hw
    rw [hrows row (by omega), h]
  | save hrow' hstored _ hw =>
    obtain ⟨row'', _, _, hrow'', -, -, hrows, -⟩ := updateItem_ok hs hw
    -- the item that was read carries the row it was read from
    obtain rfl := ItemId.eq_of_row? (item?_placed hs hstored).1 hrow''
    rw [hrows row (hother hrow' hspare), h]
  | delete hrow' hw =>
    obtain ⟨-, -, hrows, -⟩ := deleteItem_ok hs hw
    rw [hrows row (hother hrow' hspare), h]
  | publish hw => rw [(insertType_ok hs hw).2.2 row, h]
  | migrate hw | halfMigrated hw => exact item?_replaceTypes hw h hspare
  | createIteration _ _ hw => rw [(insertIteration_ok hs hw).2.2 row, h]
  | saveIteration _ _ _ hw => rw [(updateIteration_ok hs hw).2.2 row, h]

end Backend

/-- Calls that follow each other leave a store in order. -/
theorem Trail.inOrder {b : Backend} {s s' : b.State} {ms : List (Moment b.State Request Reply)}
    (h : Trail s ms s') (hs : b.InOrder s) : b.InOrder s' := by
  induction h with
  | nil s => exact hs
  | @cons s s' m ms hfrom hw _ ih =>
    subst hfrom
    exact ih (hs.writes hw)

/-- **An item is in its row after calls that spare it.** -/
theorem Trail.item?_stays {b : Backend} {s s' : b.State} {ms : List (Moment b.State Request Reply)}
    (h : Trail s ms s') (hs : b.InOrder s) {row : Int} {i : WorkItem}
    (hi : Store.item? s row = .ok (some i)) (hspare : ms.all (b.sparesItem i) = true) :
    Store.item? s' row = .ok (some i) := by
  induction h with
  | nil s => exact hi
  | @cons s s' m ms hfrom hw _ ih =>
    subst hfrom
    rw [List.all_cons, Bool.and_eq_true] at hspare
    obtain ⟨hhere, hlater⟩ := hspare
    exact ih (hs.writes hw) (Backend.item?_stays hw hs.items hi hhere) hlater

-- ---------------------------------------------------------------------------
-- Iterations
-- ---------------------------------------------------------------------------

/-- Whether a call did not save an iteration. -/
def Moment.sparesIteration {σ : Type} (i : Iteration) (m : Moment σ Request Reply) : Bool :=
  match m.call with
  | .saveIteration j => !m.answer.isOk || j.id.row? != i.id.row?
  | _ => true

/-- A row of iterations that was handed out holds what it held, in memory. -/
theorem Memory.iterations_stay {s s' : Memory} {q : Request} {r : Except AccessError Reply}
    (hw : Request.Writes s q r s') {row : Int} (hhigh : row ≤ s.lastIteration)
    (hspare : ∀ i, q = .saveIteration i → r.isOk = true → i.id.row? ≠ some row) :
    s'.iterations.get? row = s.iterations.get? row := by
  cases hw with
  | failed | read => rfl
  | create hw =>
    obtain ⟨-, rfl⟩ := Prod.mk.inj hw
    rfl
  | publish hw =>
    obtain ⟨-, rfl⟩ := Prod.mk.inj hw
    show (s.insertType _).2.iterations.get? row = _
    unfold insertType
    split <;> rfl
  | save _ _ _ hw =>
    obtain ⟨-, rfl⟩ := Prod.mk.inj hw
    show (s.updateItem _ _).2.iterations.get? row = _
    rcases s.updateItem_cases _ _ with hno | ⟨_, _, -, -, -, -, -, -, -, hiterations, -⟩
    · rw [hno]
    · rw [hiterations]
  | delete _ hw =>
    obtain ⟨-, rfl⟩ := Prod.mk.inj hw
    show (s.deleteItem _).2.iterations.get? row = _
    unfold deleteItem
    split <;> rfl
  | @migrate ts _ hw | @halfMigrated ts _ _ hw =>
    obtain ⟨-, rfl⟩ := Prod.mk.inj hw
    show (s.replaceTypes ts).iterations.get? row = _
    rw [(replaceTypes_stays ts s).2]
  | createIteration _ _ hw =>
    obtain ⟨-, rfl⟩ := Prod.mk.inj hw
    show (s.iterations.insert (s.lastIteration + 1) _).get? row = _
    rw [SortedMap.get?_insert, if_neg (by omega)]
  | @saveIteration i row' stored _ hrow hstored _ hw =>
    obtain ⟨-, rfl⟩ := Prod.mk.inj hw
    show (s.updateIteration _).2.iterations.get? row = _
    rcases s.updateIteration_cases _ with hno | ⟨row'', _, hrow'', -, -, hiterations, -⟩
    · rw [hno]
    · obtain rfl := IterationId.eq_of_row? (IterationStore.iteration?_ok hstored).1 hrow''
      rw [hiterations, SortedMap.get?_insert, if_neg]
      rintro rfl
      exact hspare i rfl rfl hrow

/-- A row of iterations that was handed out holds what it held, in tables. -/
theorem Tables.iterations_stay {t t' : Tables} {q : Request} {r : Except AccessError Reply}
    (hw : Request.Writes t q r t') {row : Int} (hhigh : row ≤ t.lastIteration)
    (hspare : ∀ i, q = .saveIteration i → r.isOk = true → i.id.row? ≠ some row) :
    t'.iterations.get? row = t.iterations.get? row := by
  by_cases hwrote : q.isWrite = true ∧ ∃ i, r = .ok (.iteration i)
  · obtain ⟨hwrite, i, rfl⟩ := hwrote
    cases hw with
    | read b hread => exact absurd (hwrite.symm.trans hread) (by decide)
    | @createIteration _ j space k _ _ _ hw =>
      rcases t.insertIteration_cases { j with space } with ⟨_, hno⟩ | hyes
      · exact absurd (Prod.mk.inj (hno.symm.trans hw)).1 (by simp)
      · obtain ⟨-, rfl⟩ := Prod.mk.inj (hyes.symm.trans hw)
        exact (SortedMap.get?_insert _ _ _ _).trans (if_neg (by omega))
    | @saveIteration j row' stored _ hrow hstored _ hw =>
      rcases t.updateIteration_cases _ with ⟨_, hne, hno⟩ | ⟨row'', _, hrow'', -, hyes⟩
      · exact absurd (Prod.mk.inj (hno.symm.trans hw)).1 hne
      · obtain ⟨-, rfl⟩ := Prod.mk.inj (hyes.symm.trans hw)
        obtain rfl := IterationId.eq_of_row? (IterationStore.iteration?_ok hstored).1 hrow''
        refine (SortedMap.get?_insert _ _ _ _).trans (if_neg ?_)
        rintro rfl
        exact hspare j rfl rfl hrow
  · rw [iterations_of_writes hw fun i hwrite hanswer => hwrote ⟨hwrite, i, hanswer⟩]

namespace Backend

/-- A row of iterations that was not handed out yet holds nothing. -/
theorem iteration?_beyond {b : Backend} {s : b.State} (hs : Numbered s) {row : Int}
    (hrow : IterationStore.lastIteration s < row) : Store.iteration? s row = .ok none := by
  have hplace : IterationStore.place? s row = none := by
    cases hplace : IterationStore.place? s row with
    | none => rfl
    | some place =>
      have := hs row place hplace
      omega
  cases b with
  | memory => exact congrArg Except.ok (Option.map_eq_none_iff.mp hplace)
  | tables =>
    show Tables.iteration? s row = .ok none
    unfold Tables.iteration?
    rw [Option.map_eq_none_iff.mp hplace]

/-- A store gives back of a row what it gave back before a call that neither handed out the row nor
saved its iteration. -/
theorem iteration?_eq {b : Backend} {s s' : b.State} {q : Request} {r : Except AccessError Reply}
    (hw : Request.Writes s q r s') (hs : Numbered s) {row : Int}
    (hrow : row ≤ IterationStore.lastIteration s ∨ IterationStore.lastIteration s' < row)
    (hspare : ∀ i, q = .saveIteration i → r.isOk = true → i.id.row? ≠ some row) :
    Store.iteration? s' row = Store.iteration? s row := by
  rcases hrow with hlow | hhigh
  · cases b with
    | memory => exact congrArg Except.ok (Memory.iterations_stay hw hlow hspare)
    | tables =>
      show Tables.iteration? _ row = Tables.iteration? _ row
      unfold Tables.iteration?
      rw [Tables.iterations_stay hw hlow hspare]
  · have hstep := Request.iterationStep hw
    have hle := hstep.lastIteration_le
    rw [iteration?_beyond (hstep.numbered hs) hhigh, iteration?_beyond hs (by omega)]

/-- An iteration is in its row after a call that spares it. -/
theorem iteration?_stays {b : Backend} {m : Moment b.State Request Reply}
    (hw : Request.Writes m.before.store m.call m.answer m.after.store)
    (hs : Numbered m.before.store) {row : Int} {i : Iteration}
    (h : Store.iteration? m.before.store row = .ok (some i)) (hspare : m.sparesIteration i = true) :
    Store.iteration? m.after.store row = .ok (some i) := by
  obtain ⟨hid, hplace⟩ := IterationStore.iteration?_ok h
  rw [iteration?_eq hw hs (.inl (hs row _ hplace)), h]
  intro j hj hok hrow
  unfold Moment.sparesIteration at hspare
  rw [hj, hok] at hspare
  refine bne_iff_ne.mp hspare ?_
  rw [hrow, hid]
  exact (rowOf?_rowText_self hrow).symm

end Backend

/-- **An iteration is in its row after calls that spare it.** -/
theorem Trail.iteration?_stays {b : Backend} {s s' : b.State}
    {ms : List (Moment b.State Request Reply)} (h : Trail s ms s') (hs : b.InOrder s) {row : Int}
    {i : Iteration} (hi : Store.iteration? s row = .ok (some i))
    (hspare : ms.all (Moment.sparesIteration i) = true) :
    Store.iteration? s' row = .ok (some i) := by
  induction h with
  | nil s => exact hi
  | @cons s s' m ms hfrom hw _ ih =>
    subst hfrom
    rw [List.all_cons, Bool.and_eq_true] at hspare
    obtain ⟨hhere, hlater⟩ := hspare
    exact ih (hs.writes hw) (Backend.iteration?_stays hw hs.iterations hi hhere) hlater

/-- A trail goes through each of its calls. -/
theorem Trail.split {σ : Type} [Store σ] {s s' : σ} {before later : List (Moment σ Request Reply)}
    {m : Moment σ Request Reply} (h : Trail s (before ++ m :: later) s') :
    Trail m.after.store later s' := by
  induction before generalizing s with
  | nil =>
    cases h with
    | cons _ _ hrest => exact hrest
  | cons x rest ih =>
    cases h with
    | cons _ _ hrest => exact ih hrest

/-- A trail gets to each of its calls. -/
theorem Trail.start {σ : Type} [Store σ] {s s' : σ} {before later : List (Moment σ Request Reply)}
    {m : Moment σ Request Reply} (h : Trail s (before ++ m :: later) s') :
    Trail s before m.before.store := by
  induction before generalizing s with
  | nil =>
    cases h with
    | cons hfrom _ _ => exact hfrom ▸ .nil m.before.store
  | cons x rest ih =>
    cases h with
    | cons hfrom hw hrest => exact .cons hfrom hw (ih hrest)

-- ---------------------------------------------------------------------------
-- Services in order
-- ---------------------------------------------------------------------------

/-- What the calls of a script find known of types, their stores hold, and so it is at the end of a
script that succeeds, unless it went on after half a migration. -/
theorem Script.knowing_moments {σ : Type} [Store σ] [LawfulTypes σ] (config : ServiceConfig)
    {as : List (Attempt Request)} {o : Open σ} (h : Knowing o)
    (hwhole : ∀ a ∈ as, a.tried = true → ∀ ts, a.request = .migrate ts → ReplacedWhole σ ts) :
    (∀ m ∈ moments (Request.perform config) as o, Knowing m.before) ∧
      ((run (Request.perform config) as o).result = .ok () →
        Knowing (run (Request.perform config) as o).state) := by
  induction as, o using Script.induction (Request.perform config : Request → Tx σ Reply) with
  | nil o => exact ⟨by simp [moments], fun _ => h⟩
  | ok a rest o b o' hs ih =>
    have hkept := Request.kept config h.staged hs (.inl rfl)
    obtain ⟨hmoments, hend⟩ :=
      ih (h.of_kept hkept) fun a' ha' => hwhole a' (List.mem_cons_of_mem a ha')
    rw [moments_cons_ok hs, run_cons_ok hs]
    exact ⟨List.forall_mem_cons.mpr ⟨h, hmoments⟩, hend⟩
  | tried a rest o e o' hs ht ih =>
    have hkept := Request.kept config h.staged hs (.inr (hwhole a List.mem_cons_self ht))
    obtain ⟨hmoments, hend⟩ :=
      ih (h.of_kept hkept) fun a' ha' => hwhole a' (List.mem_cons_of_mem a ha')
    rw [moments_cons_tried hs ht, run_cons_tried hs ht]
    exact ⟨List.forall_mem_cons.mpr ⟨h, hmoments⟩, hend⟩
  | stopped a rest o e o' hs ht =>
    rw [moments_cons_error hs ht, run_cons_error hs ht]
    exact ⟨List.forall_mem_singleton.mpr h, fun hr => absurd hr (by simp)⟩

namespace Service

variable {σ : Type} [Store σ]

/-- A service as a turn finds it: what the cache remembers may have been discarded. -/
def turned (s : Service σ) (t : Turn) : Service σ := if t.discards then { s with cache := ∅ } else s

/-- What comes of a turn. -/
def turn (s : Service σ) (t : Turn) : Transcript σ Reply :=
  (s.turned t).script t.request (Request.perform s.config) t.calls

/-- A service after turns. -/
def after (s : Service σ) (turns : List Turn) : Service σ :=
  turns.foldl (fun s t => (s.turn t).service) s

omit [Store σ] in
theorem config_turned (s : Service σ) (t : Turn) : (s.turned t).config = s.config := by
  unfold turned
  split <;> rfl

omit [Store σ] in
theorem store_turned (s : Service σ) (t : Turn) : (s.turned t).store = s.store := by
  unfold turned
  split <;> rfl

section Order

variable {b : Backend} {s : Service b.State}

/-- A turn leaves a store in order. -/
theorem inOrder_turn (h : b.InOrder s.store) (t : Turn) : b.InOrder (s.turn t).service.store := by
  unfold turn
  rw [← config_turned s t]
  rw [← store_turned s t] at h
  exact (forall_calls (fun q o => Backend.inOrder_perform (s.turned t).config q o) h t).2

/-- **Services that begin with a store in order stay in order.** -/
theorem inOrder_after (h : b.InOrder s.store) (turns : List Turn) :
    b.InOrder (s.after turns).store := by
  induction turns generalizing s with
  | nil => exact h
  | cons t rest ih => exact ih (inOrder_turn h t)

/-- What a call of a committed turn found and did, and what the later calls made of it. -/
theorem call_of_commits {t : Turn} (h : b.InOrder s.store) (hcommits : (s.turn t).result = .ok ())
    {before later : List (Moment b.State Request Reply)} {m : Moment b.State Request Reply}
    (hcalls : (s.turned t).calls t = before ++ m :: later) :
    b.InOrder m.before.store ∧ (m.call.perform s.config).steps m.before = (m.answer, m.after) ∧
      Trail m.after.store later (s.turn t).service.store := by
  have hmem : m ∈ (s.turned t).calls t := by simp [hcalls]
  rw [← store_turned s t] at h
  unfold turn at hcommits ⊢
  rw [← config_turned s t] at hcommits ⊢
  generalize s.turned t = s at h hcalls hmem hcommits ⊢
  refine ⟨(forall_calls (fun q o => Backend.inOrder_perform s.config q o) h t).1 m hmem, ?_⟩
  unfold calls begin at hcalls hmem
  unfold script begin at hcommits ⊢
  cases hrequest : t.request.check with
  | error e => simp [hrequest] at hmem
  | ok _ =>
    simp only [hrequest] at hcalls hmem hcommits ⊢
    have htrail := Script.trail_moments s.config t.calls
      (⟨s.store, t.request, s.cache, .none, none⟩ : Open b.State)
    rw [hcalls] at htrail
    refine ⟨(Script.mem_moments hmem).2, ?_⟩
    rw [(finish_ok hcommits).2]
    exact htrail.split

end Order

section Knowing

variable {b : Backend} {s : Service b.State} {t : Turn}

theorem reflects_turned (h : s.cache.Reflects s.store) (t : Turn) :
    (s.turned t).cache.Reflects (s.turned t).store := by
  unfold turned
  split
  · exact .of_types_eq_empty rfl
  · exact h

/-- What the calls of a turn find known of types, their stores hold, and so it is of the cache that
the turn leaves, unless its script goes on after half a migration. -/
theorem knowing_turn (h : s.cache.Reflects s.store) (hwhole : ∀ a ∈ t.calls, a.isWhole b = true) :
    (∀ m ∈ (s.turned t).calls t, Knowing m.before) ∧
      (s.turn t).service.cache.Reflects (s.turn t).service.store := by
  have h' := reflects_turned h t
  unfold turn
  rw [← config_turned s t]
  generalize s.turned t = s at h'
  unfold calls script begin
  cases t.request.check with
  | error e => exact ⟨by simp, h'⟩
  | ok _ =>
    have hknowing : Knowing (⟨s.store, t.request, s.cache, .none, none⟩ : Open b.State) :=
      ⟨.of_staged_eq_empty rfl, fun _ => h'⟩
    obtain ⟨hmoments, hend⟩ := Script.knowing_moments s.config hknowing
      fun a ha ht ts hts => Attempt.replacedWhole (hwhole a ha) ht hts
    refine ⟨hmoments, ?_⟩
    simp only
    unfold finish outcome
    split
    · -- what is left of the cache was there before
      intro name type htype
      exact h' name type (Script.get?_cache_run htype)
    · next hok =>
      have hresult : (Script.run (Request.perform s.config) t.calls
          ⟨s.store, t.request, s.cache, .none, none⟩).result = .ok () := by
        split at hok
        · simp at hok
        · next hr => exact hr
      have hknown := hend hresult
      exact hknown.staged.settle hknown.cache s.cache.generation

/-- **What caches remember of types is what their stores hold**, unless a script goes on after half
a migration. -/
theorem reflects_after {turns : List Turn} (h : s.cache.Reflects s.store)
    (hwhole : ∀ t ∈ turns, ∀ a ∈ t.calls, a.isWhole b = true) :
    (s.after turns).cache.Reflects (s.after turns).store := by
  induction turns generalizing s with
  | nil => exact h
  | cons t rest ih =>
    obtain ⟨hhere, hlater⟩ := List.forall_mem_cons.mp hwhole
    exact ih (knowing_turn h hhere).2 hlater

end Knowing

end Service

end Backlog
