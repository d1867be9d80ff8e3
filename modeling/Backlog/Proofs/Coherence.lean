import Backlog.Proofs.Atomic
import Backlog.Proofs.Documents
import Backlog.Proofs.Writes

/-!
# Types that are known

A transaction looks a type up among those that it staged, then in the cache that all transactions
share, then in the store. As long as nobody migrates types this makes no difference: a type that was
published stays as it is, what is staged was read or published in the transaction itself, and what
is cached was staged in a transaction that was committed. So an open transaction is *coherent* —
whatever it knows of a type, its tables hold — from its beginning to its end.

Most steps cannot break this, because they stage nothing and the tables keep their types. That
property is closed under chaining, as `Quiet` is; publishing a type and listing all types, which
stage what the tables hold, are looked at one by one.

## Main results

* `Request.coherent` — a call that migrates no types keeps a transaction coherent;
* `Coherent.type_ok` — a type that is looked up is the type that the tables hold.
-/

namespace Backlog

open Tx WorkItems

variable {α β : Type} {o o' : Open Tables}

/-- Whatever a cache remembers of types, the tables hold. -/
def TypeCache.Agrees (c : TypeCache) (t : Tables) : Prop :=
  ∀ name type, c.get? name = some type → t.type? name = .ok (some type)

/-- Whatever a transaction knows of types, its tables hold. -/
structure Coherent (o : Open Tables) : Prop where
  cache : o.cache.Agrees o.store
  staged : ∀ name type, o.effects.staged.get? name = some type →
    o.store.type? name = .ok (some type)
  migrated : o.effects.migrated = false

namespace Coherent

/-- A transaction resolves a name as its tables do. -/
theorem resolve (h : Coherent o) (name : String) :
    WorkItems.resolve o name = o.store.type? name := by
  unfold WorkItems.resolve knownType?
  rw [h.migrated]
  cases hstaged : o.effects.staged.get? name with
  | some type => exact (h.staged name type hstaged).symm
  | none =>
    cases hcached : o.cache.get? name with
    | some type =>
      simp only [Option.none_or, Bool.false_eq_true, if_false]
      exact (h.cache name type hcached).symm
    | none =>
      simp only [Option.none_or, Bool.false_eq_true, if_false]
      rfl

theorem of_alike (h : Coherent o) (hlike : Alike o o') : Coherent o' where
  cache := by
    rw [hlike.cache, hlike.store]
    exact h.cache
  staged name type hstaged := by
    have hknown : WorkItems.resolve o' name = .ok (some type) := by
      unfold WorkItems.resolve knownType?
      rw [hstaged]
      rfl
    rw [hlike.store, ← h.resolve, ← hlike.resolve]
    exact hknown
  migrated := hlike.migrated.trans h.migrated

/-- A transaction stays coherent when its tables keep the types that they hold. -/
theorem change (h : Coherent o) {t : Tables}
    (hkeeps : ∀ name type, o.store.type? name = .ok (some type) → t.type? name = .ok (some type)) :
    Coherent { o with store := t } where
  cache name type hcached := hkeeps name type (h.cache name type hcached)
  staged name type hstaged := hkeeps name type (h.staged name type hstaged)
  migrated := h.migrated

/-- A transaction stays coherent when it stages a type that its tables hold. -/
theorem stage (h : Coherent o) {type : ItemType}
    (hheld : o.store.type? type.name = .ok (some type)) :
    Coherent { o with effects := o.effects.stage type } where
  cache := h.cache
  staged name type' hstaged := by
    change (o.effects.staged.insert type.name type).get? name = some type' at hstaged
    rw [SortedMap.get?_insert] at hstaged
    split at hstaged
    · next hname => rw [hname, ← Option.some.inj hstaged]; exact hheld
    · exact h.staged name type' hstaged
  migrated := h.migrated

theorem stageAll {ts : List ItemType} (h : Coherent o)
    (hheld : ∀ type ∈ ts, o.store.type? type.name = .ok (some type)) :
    Coherent { o with effects := o.effects.stageAll ts } := by
  induction ts generalizing o with
  | nil => exact h
  | cons type rest ih =>
    have hstaged := h.stage (hheld type List.mem_cons_self)
    exact ih hstaged fun t ht => hheld t (List.mem_cons_of_mem type ht)

/-- A type that is looked up is the type that the tables hold. -/
theorem type_ok (h : Coherent o) {name : String} {type : ItemType}
    (hs : (WorkItems.type name : Tx Tables ItemType).steps o = (.ok type, o')) :
    o.store.type? name = .ok (some type) := by
  rcases type_cases hs with ⟨type', ht, hresolve, -⟩ | ⟨⟨e, he⟩, -⟩
  · obtain rfl := Except.ok.inj ht
    rw [← h.resolve]
    exact hresolve
  · exact absurd he (by simp)

end Coherent

-- ---------------------------------------------------------------------------
-- Steps that keep a transaction coherent
-- ---------------------------------------------------------------------------

/-- A step that keeps transactions coherent. -/
def Keeps (x : Tx Tables α) : Prop := ∀ o, Coherent o → Coherent (x.steps o).2

theorem Quiet.keeps {x : Tx Tables α} (h : Quiet x) : Keeps x := fun o ho =>
  ho.of_alike (h.stays o)

namespace Keeps

variable {x : Tx Tables α} {f : α → Tx Tables β}

theorem bind (hx : Keeps x) (hf : ∀ a, Keeps (f a)) : Keeps (x >>= f) := by
  intro o ho
  have hnext := hx o ho
  match h : x.steps o with
  | (.ok a, o₁) =>
    rw [h] at hnext
    rw [steps_bind_ok h]
    exact hf a o₁ hnext
  | (.error e, o₁) =>
    rw [h] at hnext
    rw [steps_bind_error h]
    exact hnext

theorem map {g : α → β} (hx : Keeps x) : Keeps (do return g (← x)) :=
  hx.bind fun _ => (Quiet.pure _).keeps

/-- A write that no look-up of a type notices keeps transactions coherent. -/
theorem change {g : Tables → Except StoreFault α × Tables}
    (htype : ∀ {t t' r name}, g t = (r, t') → t'.type? name = t.type? name) :
    Keeps (Tx.change g) := by
  intro o ho
  obtain ⟨t, hend, ⟨a, hw, -⟩ | ⟨fault, hw, -⟩⟩ :=
    steps_change_cases (Prod.eta ((Tx.change g).steps o)).symm
  · rw [hend]
    exact ho.change fun name type h => (htype hw).trans h
  · rw [hend]
    exact ho.change fun name type h => (htype hw).trans h

end Keeps

-- ---------------------------------------------------------------------------
-- Types
-- ---------------------------------------------------------------------------

namespace Tables

variable {t t' : Tables}

/-- A type that is put in is held. -/
theorem type?_insert_self (t : Tables) (type : ItemType) :
    { t with types := t.types.insert type.name (definitionsOf type) }.type? type.name =
      .ok (some type) := by
  unfold type?
  simp only [SortedMap.get?_insert_self, decodeType_definitionsOf]
  rfl

/-- A type that is taken in is held, and the types that were held still are. -/
theorem type?_insertType {type : ItemType} (h : t.insertType type = (true, t')) :
    t'.type? type.name = .ok (some type) ∧
      ∀ name type', t.type? name = .ok (some type') → t'.type? name = .ok (some type') := by
  unfold insertType at h
  split at h
  · simp at h
  · next hnew =>
    obtain ⟨-, rfl⟩ := Prod.mk.inj h
    refine ⟨type?_insert_self t type, fun name type' hheld => ?_⟩
    rw [← hheld]
    refine type?_congr ?_
    -- the new name was not taken
    have hne : name ≠ type.name := by
      rintro rfl
      rw [Bool.or_eq_true, not_or] at hnew
      unfold SortedMap.contains at hnew
      unfold type? at hheld
      cases hget : t.types.get? type.name with
      | none => simp [hget] at hheld
      | some doc => simp [hget] at hnew
    simp only [SortedMap.get?_insert, if_neg hne]

theorem exists_of_mem_decodeTypes {rows : List (String × StoredDocument)} {ts : List ItemType}
    (h : decodeTypes rows = .ok ts) : ∀ type ∈ ts, ∃ e ∈ rows, decodeType e.1 e.2 = .ok type := by
  induction rows generalizing ts with
  | nil =>
    obtain rfl := Except.ok.inj h
    simp
  | cons e rest ih =>
    obtain ⟨name, doc⟩ := e
    intro type htype
    rw [decodeTypes] at h
    split at h
    · simp at h
    · next first hfirst =>
      cases hrest : decodeTypes rest with
      | error fault => simp [hrest, Except.map] at h
      | ok ts' =>
        rw [hrest] at h
        obtain rfl := Except.ok.inj h
        rcases List.mem_cons.mp htype with rfl | htype
        · exact ⟨(name, doc), List.mem_cons_self, hfirst⟩
        · obtain ⟨e, he, hdecode⟩ := ih hrest type htype
          exact ⟨e, List.mem_cons_of_mem _ he, hdecode⟩

/-- The types of a list are held under their names. -/
theorem type?_of_mem_decodeTypes {ts : List ItemType} (h : decodeTypes t.types.toList = .ok ts) :
    ∀ type ∈ ts, t.type? type.name = .ok (some type) := by
  intro type htype
  obtain ⟨⟨name, doc⟩, he, hdecode⟩ := exists_of_mem_decodeTypes h type htype
  have hheld : t.type? name = .ok (some type) := by
    unfold type?
    simp only [SortedMap.mem_entries_iff.mp he, hdecode]
    rfl
  rw [name_of_type? hheld]
  exact hheld

end Tables

namespace WorkItems

theorem keeps_publish (type : ItemType) : Keeps (publish type : Tx Tables ItemType) := by
  intro o ho
  have hs := (Prod.eta ((publish type : Tx Tables ItemType).steps o)).symm
  rcases publish_cases hs with ⟨e, he, -⟩ | ⟨t, -, hw, -, hend⟩
  · rw [he] at hs
    exact ho.of_alike ((atomic_publish type).recoils o _ e hs)
  · have hinsert : o.store.insertType type = (true, t) := by
      obtain ⟨hyes, rfl⟩ := Prod.mk.inj hw
      exact Prod.ext (Except.ok.inj hyes) rfl
    obtain ⟨hheld, hkeeps⟩ := Tables.type?_insertType hinsert
    have hnext : Coherent { o.looked with store := t } :=
      (ho.of_alike (.looked o)).change (by rw [Open.store_looked]; exact hkeeps)
    have hstaged := hnext.stage hheld
    rw [hend]
    rwa [Open.effects_looked] at hstaged

theorem keeps_types : Keeps (types : Tx Tables (List ItemType)) := by
  refine .bind Quiet.proceed.keeps fun _ => ?_
  intro o ho
  rcases steps_ask_bind_cases (Prod.eta (Tx.steps _ o)).symm with
    ⟨fault, -, -, hend⟩ | ⟨ts, hask, hend⟩
  · rw [hend]
    exact ho
  · rw [← (Prod.mk.inj hend).2]
    exact ho.stageAll (Tables.type?_of_mem_decodeTypes hask)

end WorkItems

-- ---------------------------------------------------------------------------
-- Every call
-- ---------------------------------------------------------------------------

theorem WorkItems.keeps_create (name : String) (payload : Payload) (creator : Identity) :
    Keeps (create name payload creator : Tx Tables WorkItem) :=
  .bind Quiet.proceed.keeps fun _ => .bind (quiet_type name).keeps fun _ =>
    .bind (Quiet.ofExcept _).keeps fun _ => .change LawfulStore.type?_insertItem

theorem WorkItems.keeps_save (u : WorkItemUpdate) : Keeps (save u : Tx Tables WorkItem) := by
  refine .bind Quiet.proceed.keeps fun _ => .bind (Quiet.ofExcept _).keeps fun row =>
    .bind (quiet_fetch row u.id).keeps fun stored => .bind (Quiet.ofExcept _).keeps fun _ =>
      .bind (quiet_type _).keeps fun t => .bind (Quiet.ofExcept _).keeps fun fields =>
        .bind Quiet.proceed.keeps fun _ => .bind (.change LawfulStore.type?_updateItem) fun b => ?_
  cases b with
  | true => exact (Quiet.pure _).keeps
  | false => exact .bind (quiet_fetch row u.id).keeps fun _ => (Quiet.throw _).keeps

theorem WorkItems.keeps_delete (id : ItemId) : Keeps (delete id : Tx Tables Unit) := by
  refine .bind Quiet.proceed.keeps fun _ => .bind (Quiet.ofExcept _).keeps fun row =>
    .bind (.change LawfulStore.type?_deleteItem) fun b => ?_
  cases b with
  | true => exact (Quiet.pure _).keeps
  | false => exact (Quiet.throw _).keeps

theorem Iterations.keeps_create (i : Iteration) : Keeps (create i : Tx Tables Iteration) := by
  refine .bind Quiet.proceed.keeps fun _ => .bind (quiet_placed i).keeps fun j =>
    .bind (Quiet.ofExcept _).keeps fun _ => ?_
  have hwrite : Keeps (Tx.change fun t : Tables => Store.insertIteration t j) :=
    .change LawfulStore.type?_insertIteration
  by_cases hstart : j.state = .start
  · simp only [hstart, if_true]
    exact .bind (quiet_canStart j).keeps fun _ => hwrite
  · simp only [hstart, if_false]
    exact hwrite

theorem Iterations.keeps_save (i : Iteration) : Keeps (save i : Tx Tables Iteration) := by
  refine .bind (quiet_load i.id).keeps fun stored => ?_
  generalize ({ i with id := stored.id, space := stored.space, parent := stored.parent } :
    Iteration) = next
  refine .bind (Quiet.ofExcept _).keeps fun _ => ?_
  have hwrite : Keeps (do
      Tx.proceed
      if ← Tx.change fun t : Tables => Store.updateIteration t next then return next
      else throw (missing next.id) : Tx Tables Iteration) := by
    refine .bind Quiet.proceed.keeps fun _ =>
      .bind (.change LawfulStore.type?_updateIteration) fun b => ?_
    cases b with
    | true => exact (Quiet.pure _).keeps
    | false => exact (Quiet.throw _).keeps
  by_cases hstart : next.state = .start ∧ stored.state ≠ .start
  · simp only [hstart, ne_eq, not_false_eq_true, and_self, if_true]
    exact .bind (quiet_canStart next).keeps fun _ => hwrite
  · simp only [hstart, if_false]
    exact hwrite

/-- **A call that migrates no types keeps a transaction coherent.** -/
theorem Request.coherent (config : ServiceConfig) {q : Request} (hq : ∀ ts, q ≠ .migrate ts) :
    Keeps (perform config q : Tx Tables Reply) := by
  cases q with
  | create name payload creator => exact (WorkItems.keeps_create name payload creator).map
  | load id => exact (WorkItems.quiet_load id).keeps.map
  | save u => exact (WorkItems.keeps_save u).map
  | delete id => exact (WorkItems.keeps_delete id).map
  | list filter offset limit => exact (WorkItems.quiet_list _ _ _ _).keeps.map
  | listFiltered filter page => exact (WorkItems.quiet_listFiltered filter page).keeps.map
  | type name => exact (WorkItems.quiet_type name).keeps.map
  | types => exact WorkItems.keeps_types.map
  | publish type => exact (WorkItems.keeps_publish type).map
  | migrate ts => exact absurd rfl (hq ts)
  | createIteration i => exact (Iterations.keeps_create i).map
  | createChild parent name startAt endAt => exact (Iterations.keeps_create _).map
  | loadIteration id => exact (Iterations.quiet_load id).keeps.map
  | listIterations space => exact (Iterations.quiet_list space).keeps.map
  | saveIteration i => exact (Iterations.keeps_save i).map
  | canStart i => exact (Iterations.quiet_canStart i).keeps.map
  | counts space => exact (Iterations.quiet_counts space).keeps.map
  | views space => exact (Iterations.quiet_views _ space).keeps.map
  | refuse e => exact (Quiet.throw e).keeps
  | cached name | withdraw | withdrawAfter looks =>
    exact fun o ho => ⟨ho.cache, ho.staged, ho.migrated⟩
  | clearCache =>
    -- nothing is remembered any more
    refine fun o ho => ⟨fun name type h => ?_, ho.staged, ho.migrated⟩
    change (none : Option ItemType) = some type at h
    exact nomatch h

end Backlog
