import Backlog.Proofs.Atomic
import Backlog.Proofs.StoredTypes
import Backlog.Script

/-!
# Calls that do without a cache

A transaction looks a type up among those that it staged, then in the cache that all transactions
share, then in the store. The operations are put here next to the same operations with another way
of looking types up, and that other way is to ask the store each time.

A step is `Sound` when it stages what the store holds, adds nothing to the shared cache, and keeps
the types of the store unless it notes a migration. A step `Mirrors` another one when it is sound
and the two give the same answer and leave the same store, in transactions on the same store of
which the first one remembers nothing but what the store holds. Both are closed under chaining, so
each operation is read off its text; looking a type up, publishing a type and listing the types are
looked at one by one, and so is migrating, which is not sound if the store gives up half way.

## Main results

* `Request.kept` — a call keeps what is known of types true, unless a migration gives up half way;
* `Request.tracks` — a call is answered as if every type were asked of the store;
* `Attempt.replacedWhole` — what is known to keep a migration from giving up half way.
-/

namespace Backlog

open Tx WorkItems

variable {σ α β : Type} [Store σ] {o o' o'' p p' : Open σ}

-- ---------------------------------------------------------------------------
-- Other ways to look types up
-- ---------------------------------------------------------------------------

namespace WorkItems

/-- Create an item, its type being looked up in a given way. -/
def createBy (lookUp : String → Tx σ ItemType) (typeName : String) (payload : Payload)
    (creator : Identity) : Tx σ WorkItem := do
  Tx.proceed
  let t ← lookUp typeName
  let fields ← Tx.ofExcept (t.convertFields (withCreator t payload creator))
  Tx.change fun s => Store.insertItem s t.name initialVersion fields

/-- Change the fields of an item, its type being looked up in a given way. -/
def saveBy (lookUp : String → Tx σ ItemType) (change : WorkItemUpdate) : Tx σ WorkItem := do
  Tx.proceed
  let row ← Tx.ofExcept (rowOf change.id)
  let stored ← fetch row change.id
  Tx.ofExcept (checkVersion stored change.version)
  let t ← lookUp stored.typeName
  let fields ← Tx.ofExcept (t.mergeFields stored.fields change.fields)
  let next := { stored with version := nextVersion stored.version, fields }
  Tx.proceed
  if ← Tx.change fun s => Store.updateItem s next change.version then return next
  else
    let actual ← fetch row change.id
    throw (.versionConflict change.id.text change.version actual.version)

end WorkItems

/-- Do what a request asks for, types being looked up in a given way. -/
def Request.performBy (lookUp : String → Tx σ ItemType) (config : ServiceConfig) :
    Request → Tx σ Reply
  | .create typeName fields creator =>
    return .item (← WorkItems.createBy lookUp typeName fields creator)
  | .save change => return .item (← WorkItems.saveBy lookUp change)
  | .type name => return .type (← lookUp name)
  | q => perform config q

/-- The answer of the store decides how asking it for a type ends. -/
theorem WorkItems.steps_askType (name : String) (o : Open σ) :
    (askType name : Tx σ ItemType).steps o =
      match Store.type? o.store name with
      | .ok (some t) => (.ok t, { o with effects := o.effects.stage t })
      | .ok none =>
        (.error (.badParameter "type" ("unknown work item type '" ++ name ++ "'")), o)
      | .error fault => (.error (.internal fault), o) := by
  unfold askType
  match h : Store.type? o.store name with
  | .ok (some t) =>
    rw [steps_bind_ok (steps_ask_ok h)]
    rfl
  | .ok none =>
    rw [steps_bind_ok (steps_ask_ok h)]
    rfl
  | .error fault => rw [steps_bind_error (steps_ask_error h)]

-- ---------------------------------------------------------------------------
-- Steps that keep what is known true
-- ---------------------------------------------------------------------------

/-- What is said of types is true after a step if it was so before. -/
structure Kept (o o' : Open σ) : Prop where
  staged : o'.effects.Reflects o'.store
  cache : ∀ name t, o'.cache.get? name = some t → o.cache.get? name = some t
  types : o'.effects.migrated = true ∨
    o'.effects.migrated = o.effects.migrated ∧ Grows o.store o'.store

namespace Kept

theorem trans (h : Kept o o') (h' : Kept o' o'') : Kept o o'' where
  staged := h'.staged
  cache name t ht := h.cache name t (h'.cache name t ht)
  types := by
    rcases h'.types with hm' | ⟨hm', hgrows'⟩
    · exact .inl hm'
    · rcases h.types with hm | ⟨hm, hgrows⟩
      · exact .inl (hm'.trans hm)
      · exact .inr ⟨hm'.trans hm, hgrows.trans hgrows'⟩

/-- A step that leaves the effects alone keeps them true in a store that grows. -/
theorem of_grows (h : o.effects.Reflects o.store) (heffects : o'.effects = o.effects)
    (hcache : o'.cache = o.cache) (hgrows : Grows o.store o'.store) : Kept o o' where
  staged := by
    rw [heffects]
    exact h.mono hgrows
  cache name t ht := by rwa [hcache] at ht
  types := .inr ⟨by rw [heffects], hgrows⟩

theorem of_same (h : o.effects.Reflects o.store) (heffects : o'.effects = o.effects)
    (hcache : o'.cache = o.cache) (hstore : o'.store = o.store) : Kept o o' :=
  of_grows h heffects hcache (hstore ▸ .refl o.store)

theorem stage {t : ItemType} (h : o.effects.Reflects o.store)
    (ht : Store.type? o.store t.name = .ok (some t)) :
    Kept o { o with effects := o.effects.stage t } where
  staged := h.stage ht
  cache _ _ hc := hc
  types := .inr ⟨rfl, .refl _⟩

end Kept

/-- A step that keeps what is known of types true. -/
def Sound (x : Tx σ α) : Prop := ∀ o, o.effects.Reflects o.store → Kept o (x.steps o).2

namespace Sound

variable {x : Tx σ α} {f : α → Tx σ β}

theorem pure (a : α) : Sound (Pure.pure a : Tx σ α) := fun _ h => .of_same h rfl rfl rfl

theorem throw (e : AccessError) : Sound (MonadExcept.throw e : Tx σ α) :=
  fun _ h => .of_same h rfl rfl rfl

theorem ofExcept (r : Except AccessError α) : Sound (Tx.ofExcept r : Tx σ α) :=
  fun _ h => .of_same h rfl rfl rfl

theorem proceed : Sound (Tx.proceed : Tx σ Unit) := fun o h =>
  .of_same h o.effects_looked o.cache_looked o.store_looked

theorem ask (g : σ → Except StoreFault α) : Sound (Tx.ask g) := by
  intro o h
  obtain ⟨ho, -⟩ := steps_ask_cases (Prod.eta ((Tx.ask g).steps o)).symm
  rw [ho]
  exact .of_same h rfl rfl rfl

/-- Chains of sound steps are sound. -/
theorem bind (hx : Sound x) (hf : ∀ a, Sound (f a)) : Sound (x >>= f) := by
  intro o ho
  have hkept := hx o ho
  match h : x.steps o with
  | (.ok a, o₁) =>
    rw [h] at hkept
    rw [steps_bind_ok h]
    exact hkept.trans (hf a o₁ hkept.staged)
  | (.error e, o₁) =>
    rw [h] at hkept
    rw [steps_bind_error h]
    exact hkept

/-- A write that no look-up of a type notices is sound. -/
theorem change {g : σ → Except StoreFault α × σ}
    (htype : ∀ {s s' r name}, g s = (r, s') → Store.type? s' name = Store.type? s name) :
    Sound (Tx.change g) := by
  intro o h
  obtain ⟨s, hend, ⟨a, hw, -⟩ | ⟨fault, hw, -⟩⟩ :=
    steps_change_cases (Prod.eta ((Tx.change g).steps o)).symm
  · rw [hend]
    exact .of_grows h rfl rfl (.of_type?_eq fun _ => htype hw)
  · rw [hend]
    exact .of_grows h rfl rfl (.of_type?_eq fun _ => htype hw)

end Sound

-- ---------------------------------------------------------------------------
-- Steps with the same answers
-- ---------------------------------------------------------------------------

/-- Two open transactions work on the same store for the same request. -/
structure SameStore (o p : Open σ) : Prop where
  store : p.store = o.store
  request : p.request = o.request
  notice : p.notice = o.notice

omit [Store σ] in
theorem SameStore.looked (h : SameStore o p) : SameStore o.looked p.looked := by
  obtain ⟨hrequest, hnotice⟩ := looked_congr h.request h.notice
  exact ⟨by rw [o.store_looked, p.store_looked, h.store], hrequest, hnotice⟩

/-- Whatever a transaction knows of types, its store holds. -/
structure Knowing (o : Open σ) : Prop where
  staged : o.effects.Reflects o.store
  cache : o.effects.migrated = false → o.cache.Reflects o.store

namespace Knowing

theorem of_kept (h : Knowing o) (hkept : Kept o o') : Knowing o' where
  staged := hkept.staged
  cache hm name t ht := by
    rcases hkept.types with hm' | ⟨hm', hgrows⟩
    · rw [hm] at hm'
      exact absurd hm' (by simp)
    · exact hgrows name t (h.cache (hm'.symm.trans hm) name t (hkept.cache name t ht))

/-- What a transaction knows of a name, its store says. -/
theorem type? (h : Knowing o) {name : String} {t : ItemType} (hknown : knownType? o name = some t) :
    Store.type? o.store name = .ok (some t) := by
  unfold knownType? at hknown
  cases hstaged : o.effects.staged.get? name with
  | some t' =>
    rw [hstaged, Option.some_or] at hknown
    rw [← Option.some.inj hknown]
    exact h.staged name t' hstaged
  | none =>
    rw [hstaged, Option.none_or] at hknown
    cases hm : o.effects.migrated with
    | true => simp [hm] at hknown
    | false =>
      rw [hm] at hknown
      exact h.cache hm name t hknown

end Knowing

/-- A step does the same in transactions on the same store, whatever they know of types. -/
def Blind (x : Tx σ α) : Prop :=
  ∀ o p, SameStore o p → (x.steps p).1 = (x.steps o).1 ∧ SameStore (x.steps o).2 (x.steps p).2

namespace Blind

variable {x : Tx σ α} {f : α → Tx σ β}

omit [Store σ]

theorem pure (a : α) : Blind (Pure.pure a : Tx σ α) := fun _ _ hsame => ⟨rfl, hsame⟩

theorem throw (e : AccessError) : Blind (MonadExcept.throw e : Tx σ α) :=
  fun _ _ hsame => ⟨rfl, hsame⟩

theorem ofExcept (r : Except AccessError α) : Blind (Tx.ofExcept r : Tx σ α) :=
  fun _ _ hsame => ⟨rfl, hsame⟩

theorem proceed : Blind (Tx.proceed : Tx σ Unit) := by
  refine fun o p hsame => ⟨?_, hsame.looked⟩
  rw [steps_proceed, steps_proceed, hsame.looked.request]

theorem ask (q : σ → Except StoreFault α) : Blind (Tx.ask q) := by
  intro o p hsame
  unfold steps Tx.ask
  rw [hsame.store]
  cases q o.store <;> exact ⟨rfl, hsame⟩

/-- The same write to the same store has the same answer, and leaves the same store. -/
theorem change (w : σ → Except StoreFault α × σ) : Blind (Tx.change w) := by
  intro o p hsame
  unfold steps Tx.change
  rw [hsame.store]
  rcases w o.store with ⟨r, s⟩
  cases r <;> exact ⟨rfl, rfl, hsame.request, hsame.notice⟩

theorem effects (g : CacheEffects → CacheEffects) :
    Blind (Tx.update fun o : Open σ => { o with effects := g o.effects }) :=
  fun _ _ hsame => ⟨rfl, hsame.store, hsame.request, hsame.notice⟩

theorem bind (hx : Blind x) (hf : ∀ a, Blind (f a)) : Blind (x >>= f) := by
  intro o p hsame
  obtain ⟨hanswer, hnext⟩ := hx o p hsame
  exact steps_bind_both hanswer hnext fun a o₁ p₁ _ hsame₁ => hf a o₁ p₁ hsame₁

end Blind

/-- A step gives the answer that another one gives, and leaves the same store, in transactions that
know of types what the store holds. -/
def Tracks (x y : Tx σ α) : Prop :=
  ∀ o p, SameStore o p → Knowing o →
    (y.steps p).1 = (x.steps o).1 ∧ SameStore (x.steps o).2 (y.steps p).2

theorem Blind.tracks {x : Tx σ α} (h : Blind x) : Tracks x x := fun o p hsame _ => h o p hsame

/-- A sound step that gives the answer that another one gives. -/
structure Mirrors (x y : Tx σ α) : Prop where
  sound : Sound x
  tracks : Tracks x y

namespace Mirrors

variable {x y : Tx σ α} {f g : α → Tx σ β}

theorem pure (a : α) : Mirrors (Pure.pure a : Tx σ α) (Pure.pure a) :=
  ⟨.pure a, (Blind.pure a).tracks⟩

theorem throw (e : AccessError) : Mirrors (MonadExcept.throw e : Tx σ α) (MonadExcept.throw e) :=
  ⟨.throw e, (Blind.throw e).tracks⟩

theorem ofExcept (r : Except AccessError α) : Mirrors (Tx.ofExcept r : Tx σ α) (Tx.ofExcept r) :=
  ⟨.ofExcept r, (Blind.ofExcept r).tracks⟩

theorem proceed : Mirrors (Tx.proceed : Tx σ Unit) Tx.proceed := ⟨.proceed, Blind.proceed.tracks⟩

theorem ask (q : σ → Except StoreFault α) : Mirrors (Tx.ask q) (Tx.ask q) :=
  ⟨.ask q, (Blind.ask q).tracks⟩

theorem change {w : σ → Except StoreFault α × σ}
    (htype : ∀ {s s' r name}, w s = (r, s') → Store.type? s' name = Store.type? s name) :
    Mirrors (Tx.change w) (Tx.change w) :=
  ⟨.change htype, (Blind.change w).tracks⟩

/-- Chains of steps that mirror others do so, step by step. -/
theorem bind (hx : Mirrors x y) (hf : ∀ a, Mirrors (f a) (g a)) :
    Mirrors (x >>= f) (y >>= g) := by
  refine ⟨hx.sound.bind fun a => (hf a).sound, fun o p hsame hknowing => ?_⟩
  obtain ⟨hanswer, hnext⟩ := hx.tracks o p hsame hknowing
  have hkept := hx.sound o hknowing.staged
  refine steps_bind_both hanswer hnext fun a o₁ p₁ hxo hsame₁ => ?_
  rw [hxo] at hkept
  exact (hf a).tracks o₁ p₁ hsame₁ (hknowing.of_kept hkept)

theorem map {h : α → β} (hx : Mirrors x y) :
    Mirrors (do return h (← x)) (do return h (← y)) :=
  hx.bind fun a => .pure (h a)

end Mirrors

-- ---------------------------------------------------------------------------
-- Types
-- ---------------------------------------------------------------------------

namespace WorkItems

/-- **Looking a type up is answered as the store answers.** -/
theorem mirrors_type [LawfulStore σ] (name : String) :
    Mirrors (type name : Tx σ ItemType) (askType name) := by
  refine ⟨fun o ho => ?_, fun o p hsame hknowing => ?_⟩
  · rcases type_cases (Prod.eta ((type name : Tx σ ItemType).steps o)).symm with
      ⟨t, -, -, hend | ⟨-, hheld, hend⟩⟩ | ⟨-, hend⟩
    · rw [hend]
      exact .of_same ho rfl rfl rfl
    · rw [hend]
      exact .stage ho (by rw [LawfulStore.name_type? hheld]; exact hheld)
    · rw [hend]
      exact .of_same ho rfl rfl rfl
  · cases hknown : knownType? o name with
    | some t =>
      have hheld := hknowing.type? hknown
      rw [steps_type_known hknown, steps_askType, hsame.store, hheld]
      exact ⟨rfl, rfl, hsame.request, hsame.notice⟩
    | none =>
      rw [steps_type_asked hknown, steps_askType, steps_askType, hsame.store]
      cases Store.type? o.store name with
      | error fault => exact ⟨rfl, hsame⟩
      | ok found =>
        cases found with
        | none => exact ⟨rfl, hsame⟩
        | some t => exact ⟨rfl, rfl, hsame.request, hsame.notice⟩

variable [LawfulTypes σ]

/-- A type that is published is staged as the store holds it from then on. -/
theorem sound_insertType (t : ItemType) :
    Sound (do
      if ← Tx.change fun s : σ => Store.insertType s t then stage t
      else throw (.badParameter "name" ("work item type '" ++ t.name ++ "' already exists"))) := by
  intro o ho
  rcases steps_change_bind_cases (Prod.eta (Tx.steps _ o)).symm with
    ⟨fault, s, hw, -, hend⟩ | ⟨b, s, hw, hend⟩
  · rw [hend]
    exact .of_same ho rfl rfl (LawfulStore.insertType_refused hw (by simp))
  · cases b with
    | false =>
      rw [← (Prod.mk.inj hend).2]
      exact .of_same ho rfl rfl (LawfulStore.insertType_refused hw (by simp))
    | true =>
      rw [← (Prod.mk.inj hend).2]
      have hkept : Kept o { o with store := s } := .of_grows ho rfl rfl (.insertType hw)
      exact hkept.trans (.stage hkept.staged (LawfulTypes.type?_inserted hw))

theorem mirrors_publish (t : ItemType) : Mirrors (publish t : Tx σ ItemType) (publish t) := by
  refine .bind .proceed fun _ => .bind (.ofExcept _) fun _ =>
    ⟨sound_insertType t, Blind.tracks (.bind (.change _) fun b => ?_)⟩
  cases b with
  | true => exact .bind (.effects fun e => e.stage t) fun _ => .pure t
  | false => exact .throw _

/-- The types that are listed are staged as the store holds them. -/
theorem mirrors_types : Mirrors (types : Tx σ (List ItemType)) types := by
  refine .bind .proceed fun _ => ⟨fun o ho => ?_, Blind.tracks (.bind (.ask _) fun ts => ?_)⟩
  · rcases steps_ask_bind_cases (Prod.eta (Tx.steps _ o)).symm with
      ⟨fault, -, -, hend⟩ | ⟨ts, hask, hend⟩
    · rw [hend]
      exact .of_same ho rfl rfl rfl
    · rw [← (Prod.mk.inj hend).2]
      exact ⟨ho.stageAll fun t ht => LawfulTypes.type?_of_mem_types hask ht, fun _ _ ht => ht,
        .inr ⟨migrated_stageAll ts o.effects, .refl _⟩⟩
  · exact .bind (.effects fun e => e.stageAll ts) fun _ => .pure ts

end WorkItems

-- ---------------------------------------------------------------------------
-- Migrations
-- ---------------------------------------------------------------------------

/-- A store replaces types as a whole if it replaces any of them. -/
def ReplacedWhole (σ : Type) [Store σ] (ts : List ItemType) : Prop :=
  checkSchemas ts = .ok () → ∀ s : σ,
    (Store.replaceTypes s ts).1 = .ok () ∨ (Store.replaceTypes s ts).2 = s

namespace WorkItems

/-- After a migration nothing is staged, and what is cached does not count. -/
theorem kept_migrate {ts : List ItemType} {r : Except AccessError Unit}
    (ho : o.effects.Reflects o.store) (h : (migrate ts : Tx σ Unit).steps o = (r, o'))
    (hwhole : r.isOk = true ∨ ReplacedWhole σ ts) : Kept o o' := by
  have hlooked : Kept o o.looked := Sound.proceed o ho
  rcases steps_proceed_bind_cases h with ⟨-, rfl⟩ | hcheck
  · exact hlooked
  rcases steps_ofExcept_bind_cases hcheck with ⟨_, -, -, rfl⟩ | ⟨_, hc, hwrite⟩
  · exact hlooked
  rcases steps_change_bind_cases hwrite with ⟨fault, s, hw, rfl, rfl⟩ | ⟨_, s, -, hend⟩
  · -- the store gave up, before it replaced anything
    rcases hwhole with hok | hwhole
    · exact absurd hok (by simp [Except.isOk, Except.toBool])
    · have hsame := hwhole hc o.looked.store
      rw [hw] at hsame
      obtain rfl : s = o.looked.store := hsame.resolve_left (by simp)
      exact hlooked
  · rw [← (Prod.mk.inj hend).2]
    exact ⟨.of_staged_eq_empty rfl, fun name t ht => hlooked.cache name t ht, .inl rfl⟩

theorem blind_migrate (ts : List ItemType) : Blind (migrate ts : Tx σ Unit) :=
  .bind .proceed fun _ => .bind (.ofExcept _) fun _ => .bind (.change _) fun _ =>
    .effects fun e => e.migrate

end WorkItems

-- ---------------------------------------------------------------------------
-- The other operations
-- ---------------------------------------------------------------------------

namespace WorkItems

theorem mirrors_fetch (row : Int) (id : ItemId) :
    Mirrors (fetch row id : Tx σ WorkItem) (fetch row id) := by
  refine .bind (.ask _) fun found => ?_
  cases found with
  | some item => exact .pure item
  | none => exact .throw _

theorem mirrors_load (id : ItemId) : Mirrors (load id : Tx σ WorkItem) (load id) :=
  .bind .proceed fun _ => .bind (.ofExcept _) fun row => mirrors_fetch row id

theorem mirrors_listFiltered (filter : Filter) (page : PageRequest) :
    Mirrors (listFiltered filter page : Tx σ ItemPage) (listFiltered filter page) :=
  .bind .proceed fun _ => .bind (.ask _) fun _ => .bind (.ask _) fun _ => .pure _

theorem mirrors_list (paging : PagingConfig) (text : String) (offset : Option String)
    (limit : Option Int64) :
    Mirrors (list paging text offset limit : Tx σ ItemPage) (list paging text offset limit) :=
  .bind .proceed fun _ => .bind (.ask _) fun _ => .bind (.ofExcept _) fun filter =>
    mirrors_listFiltered filter _

variable [LawfulStore σ]

theorem mirrors_create (name : String) (payload : Payload) (creator : Identity) :
    Mirrors (create name payload creator : Tx σ WorkItem)
      (createBy askType name payload creator) :=
  .bind .proceed fun _ => .bind (mirrors_type name) fun _ => .bind (.ofExcept _) fun _ =>
    .change LawfulStore.type?_insertItem

theorem mirrors_save (u : WorkItemUpdate) :
    Mirrors (save u : Tx σ WorkItem) (saveBy askType u) := by
  refine .bind .proceed fun _ => .bind (.ofExcept _) fun row => .bind (mirrors_fetch row u.id)
    fun _ => .bind (.ofExcept _) fun _ => .bind (mirrors_type _) fun _ => .bind (.ofExcept _)
    fun _ => .bind .proceed fun _ => .bind (.change LawfulStore.type?_updateItem) fun b => ?_
  cases b with
  | true => exact .pure _
  | false => exact .bind (mirrors_fetch row u.id) fun _ => .throw _

theorem mirrors_delete (id : ItemId) : Mirrors (delete id : Tx σ Unit) (delete id) := by
  refine .bind .proceed fun _ => .bind (.ofExcept _) fun row =>
    .bind (.change LawfulStore.type?_deleteItem) fun b => ?_
  cases b with
  | true => exact .pure _
  | false => exact .throw _

end WorkItems

namespace Iterations

theorem mirrors_load (id : IterationId) : Mirrors (load id : Tx σ Iteration) (load id) := by
  refine .bind .proceed fun _ => .bind (.ofExcept _) fun row => .bind (.ask _) fun found => ?_
  cases found with
  | some i => exact .pure i
  | none => exact .throw _

theorem mirrors_list (space : String) :
    Mirrors (list space : Tx σ (List Iteration)) (list space) :=
  .bind .proceed fun _ => .ask _

theorem mirrors_canStart (i : Iteration) : Mirrors (canStart i : Tx σ Unit) (canStart i) :=
  .bind .proceed fun _ => .bind (.ask _) fun _ => .ofExcept _

theorem mirrors_placed (i : Iteration) : Mirrors (placed i : Tx σ Iteration) (placed i) := by
  unfold placed
  cases i.parent with
  | none => exact .pure i
  | some id => exact .bind (mirrors_load id) fun _ => .pure _

theorem mirrors_counts (space : String) :
    Mirrors (counts space : Tx σ (List (IterationId × IterationCounts))) (counts space) :=
  .bind .proceed fun _ => .ask _

theorem mirrors_views (api : ApiConfig) (space : String) :
    Mirrors (views api space : Tx σ (List ResourceView)) (views api space) :=
  .bind (mirrors_counts space) fun _ => .bind (mirrors_list space) fun _ => .pure _

variable [LawfulStore σ]

theorem mirrors_create (i : Iteration) : Mirrors (create i : Tx σ Iteration) (create i) := by
  refine .bind .proceed fun _ => .bind (mirrors_placed i) fun j => .bind (.ofExcept _) fun _ => ?_
  have hwrite : Mirrors (Tx.change fun s : σ => Store.insertIteration s j) (Tx.change _) :=
    .change LawfulStore.type?_insertIteration
  by_cases hstart : j.state = .start
  · simp only [hstart, if_true]
    exact .bind (mirrors_canStart j) fun _ => hwrite
  · simp only [hstart, if_false]
    exact hwrite

theorem mirrors_save (i : Iteration) : Mirrors (save i : Tx σ Iteration) (save i) := by
  refine .bind (mirrors_load i.id) fun stored => ?_
  generalize ({ i with id := stored.id, space := stored.space, parent := stored.parent } :
    Iteration) = next
  refine .bind (.ofExcept _) fun _ => ?_
  have hwrite : ∀ x : Tx σ Iteration, x = (do
      Tx.proceed
      if ← Tx.change fun s : σ => Store.updateIteration s next then return next
      else throw (missing next.id)) → Mirrors x x := by
    rintro x rfl
    refine .bind .proceed fun _ => .bind (.change LawfulStore.type?_updateIteration) fun b => ?_
    cases b with
    | true => exact .pure _
    | false => exact .throw _
  by_cases hstart : next.state = .start ∧ stored.state ≠ .start
  · simp only [hstart, ne_eq, not_false_eq_true, and_self, if_true]
    exact .bind (mirrors_canStart next) fun _ => hwrite _ rfl
  · simp only [hstart, if_false]
    exact hwrite _ rfl

end Iterations

-- ---------------------------------------------------------------------------
-- Every call
-- ---------------------------------------------------------------------------

namespace Request

variable [LawfulTypes σ] (config : ServiceConfig) {q : Request}

/-- A call other than a migration is sound and answered as if every type were asked of the store,
unless it asks for the cache itself. -/
theorem mirrors (hmigrate : ∀ ts, q ≠ .migrate ts) (hcached : ∀ name, q ≠ .cached name) :
    Mirrors (perform config q : Tx σ Reply) (performBy askType config q) := by
  cases q with
  | create name payload creator => exact (WorkItems.mirrors_create name payload creator).map
  | load id => exact (WorkItems.mirrors_load id).map
  | save u => exact (WorkItems.mirrors_save u).map
  | delete id => exact (WorkItems.mirrors_delete id).map
  | list filter offset limit => exact (WorkItems.mirrors_list _ _ _ _).map
  | listFiltered filter page => exact (WorkItems.mirrors_listFiltered filter page).map
  | type name => exact (WorkItems.mirrors_type name).map
  | types => exact WorkItems.mirrors_types.map
  | publish t => exact (WorkItems.mirrors_publish t).map
  | migrate ts => exact absurd rfl (hmigrate ts)
  | createIteration i => exact (Iterations.mirrors_create i).map
  | createChild parent name startAt endAt => exact (Iterations.mirrors_create _).map
  | loadIteration id => exact (Iterations.mirrors_load id).map
  | listIterations space => exact (Iterations.mirrors_list space).map
  | saveIteration i => exact (Iterations.mirrors_save i).map
  | canStart i => exact (Iterations.mirrors_canStart i).map
  | counts space => exact (Iterations.mirrors_counts space).map
  | views space => exact (Iterations.mirrors_views _ space).map
  | cached name => exact absurd rfl (hcached name)
  | refuse e => exact .throw e
  | withdraw =>
    exact ⟨fun o ho => .of_same ho rfl rfl rfl,
      fun o p hsame _ => ⟨rfl, hsame.store, rfl, hsame.notice⟩⟩
  | withdrawAfter looks =>
    refine ⟨fun o ho => .of_same ho rfl rfl rfl,
      fun o p hsame _ => ⟨rfl, hsame.store, hsame.request, ?_⟩⟩
    show (p.withdrawnAfter looks).notice = (o.withdrawnAfter looks).notice
    rw [Open.withdrawnAfter, Open.withdrawnAfter, hsame.notice]
  | clearCache =>
    -- nothing is remembered any more
    refine ⟨fun o ho => ⟨ho, fun name t ht => ?_, .inr ⟨rfl, .refl _⟩⟩,
      fun o p hsame _ => ⟨rfl, hsame.store, hsame.request, hsame.notice⟩⟩
    change (none : Option ItemType) = some t at ht
    exact nomatch ht

/-- **A call keeps what is known of types true**, unless it is a migration that gives up half
way. -/
theorem kept {r : Except AccessError Reply} (ho : o.effects.Reflects o.store)
    (h : (perform config q).steps o = (r, o'))
    (hwhole : r.isOk = true ∨ ∀ ts, q = .migrate ts → ReplacedWhole σ ts) : Kept o o' := by
  by_cases hm : ∃ ts, q = .migrate ts
  · obtain ⟨ts, rfl⟩ := hm
    rcases steps_bind_cases h with ⟨e, he, rfl⟩ | ⟨_, o₁, he, hend⟩
    · refine kept_migrate ho he (.inr ?_)
      rcases hwhole with hok | hwhole
      · exact absurd hok (by simp [Except.isOk, Except.toBool])
      · exact hwhole ts rfl
    · obtain ⟨-, rfl⟩ := Prod.mk.inj hend
      exact kept_migrate ho he (.inl rfl)
  have hs : o' = ((perform config q).steps o).2 := by rw [h]
  by_cases hc : ∃ name, q = .cached name
  · obtain ⟨name, rfl⟩ := hc
    rw [hs]
    exact .of_same ho rfl rfl rfl
  · rw [hs]
    exact (mirrors config (fun ts hts => hm ⟨ts, hts⟩) fun name hn => hc ⟨name, hn⟩).sound o ho

omit [LawfulTypes σ] in
/-- A call touches the shared cache only to clear it. -/
theorem cache_cases [LawfulStore σ] (q : Request) (o : Open σ) :
    ((q.perform config).steps o).2.cache = o.cache ∨
      ((q.perform config).steps o).2.cache = o.cache.clear := by
  by_cases hq : q = .clearCache
  · subst hq
    exact .inr rfl
  · exact .inl (cache_perform config hq o)

/-- **A call is answered as if every type were asked of the store**, unless it asks for the cache
itself. -/
theorem tracks (hcached : ∀ name, q ≠ .cached name) :
    Tracks (perform config q : Tx σ Reply) (performBy askType config q) := by
  by_cases hm : ∃ ts, q = .migrate ts
  · obtain ⟨ts, rfl⟩ := hm
    exact (Blind.bind (blind_migrate ts) fun _ => .pure _).tracks
  · exact (mirrors config (fun ts h => hm ⟨ts, h⟩) hcached).tracks

end Request

/-- Whether a call is no attempt at half a migration. A migration that is tried is one of types
whose names the store takes, or it is turned away before the store replaces anything: by the check
of its schemas, or at its first name. This is told from the call alone, whether or not its script
gets there and is committed. -/
def Attempt.isWhole (b : Backend) (a : Attempt Request) : Bool :=
  match a.request with
  | .migrate ts =>
    !a.tried || !(checkSchemas ts).isOk || (ts.head?.any fun t => !b.takes t.name) ||
      ts.all fun t => b.takes t.name
  | _ => true

theorem Attempt.replacedWhole {b : Backend} {a : Attempt Request} (h : a.isWhole b = true)
    (ht : a.tried = true) {ts : List ItemType} (hts : a.request = .migrate ts) :
    ReplacedWhole b.State ts := by
  intro hcheck s
  unfold isWhole at h
  simp only [hts, ht, hcheck, Except.isOk, Except.toBool, Bool.not_true, Bool.false_or,
    Bool.or_eq_true, List.all_eq_true] at h
  rcases h with hhead | hall
  · exact .inr (Backend.replaceTypes_refused hhead s)
  · obtain ⟨s', hw⟩ := Backend.replaceTypes_ok hall s
    exact .inl (congrArg Prod.fst hw)

end Backlog
