import Backlog.Proofs.Frames
import Backlog.Proofs.SeparateRows

/-!
# Edits of different items

A save and a removal are about one item. Two of them that are about different items, in transactions
one after the other, do not notice each other: whichever comes first, each is answered as if it came
alone, and both orders leave the same service. What an edit looks at is the row of its item and what
its transaction says of a type; the other edit changes another row, and though it may fill the cache
with a type that it asked the store for, it fills in what the store says.

An edit is therefore run in two transactions beside each other. Their stores agree on the rows that
the edit may touch, and the second transaction may know some more types than the first, as long as
the first one resolves their names to the same types. Steps are `Confined` to some rows when they
keep two transactions beside each other, with the same answers, and spare all other rows. This is
closed under chaining, so that each operation is read off its text.

## Main results

* `WorkItems.confined_save`, `WorkItems.confined_delete` — an edit is confined to the row that its
  id names;
* `Service.BesideOn.edit` — an edit does the same in services beside each other;
* `Service.edits_commute` — edits of different items can be done in either order.
-/

namespace Backlog

open Tx WorkItems

-- ---------------------------------------------------------------------------
-- Transactions beside each other
-- ---------------------------------------------------------------------------

section Steps

variable {σ α β : Type} [Store σ] [SeparateRows σ] {P : Int → Prop}
  {extra : String → Option ItemType} {o o' o'' p : Open σ}

omit [SeparateRows σ] in
theorem resolve_unknown {name : String} (h : knownType? o name = none) :
    resolve o name = Store.type? o.store name := by
  rw [resolve, h]

/-- A transaction after a step that leaves all rows but some alone. It still says the same of every
type, and what it knew of types it knows. -/
structure Spared (P : Int → Prop) (o o' : Open σ) : Prop where
  store : AgreeOn (fun row => ¬ P row) o.store o'.store
  cache : o'.cache = o.cache
  migrated : o'.effects.migrated = o.effects.migrated
  known : ∀ name t, knownType? o name = some t → knownType? o' name = some t
  resolve : ∀ name, resolve o' name = resolve o name

namespace Spared

/-- A step that leaves the effects alone, and does not change more of the store than some rows. -/
theorem of_agreeOn (hstore : AgreeOn (fun row => ¬ P row) o.store o'.store)
    (hcache : o'.cache = o.cache) (heffects : o'.effects = o.effects) : Spared P o o' := by
  have hknown : ∀ name, knownType? o' name = knownType? o name := fun name => by
    unfold knownType?
    rw [hcache, heffects]
  refine ⟨hstore, hcache, by rw [heffects], fun name t ht => (hknown name).trans ht, fun name => ?_⟩
  unfold WorkItems.resolve
  rw [hknown, SeparateRows.type?_congr hstore.rest]

theorem refl (P : Int → Prop) (o : Open σ) : Spared P o o := of_agreeOn (.refl _ _) rfl rfl

theorem trans (h : Spared P o o') (h' : Spared P o' o'') : Spared P o o'' where
  store := h.store.trans h'.store
  cache := h'.cache.trans h.cache
  migrated := h'.migrated.trans h.migrated
  known name t ht := h'.known name t (h.known name t ht)
  resolve name := (h'.resolve name).trans (h.resolve name)

end Spared

/-- Two transactions for the same request, on stores that agree on some rows. The second one knows
some more types, which the first one would find in its store. -/
structure Beside (P : Int → Prop) (extra : String → Option ItemType) (o p : Open σ) : Prop where
  store : AgreeOn P o.store p.store
  request : p.request = o.request
  notice : p.notice = o.notice
  known : ∀ name, knownType? p name = (knownType? o name).or (extra name)
  extra : ∀ name t, extra name = some t → resolve o name = .ok (some t)

namespace Beside

theorem looked (h : Beside P extra o p) : Beside P extra o.looked p.looked := by
  obtain ⟨hrequest, hnotice⟩ := looked_congr h.request h.notice
  have hknown : ∀ o : Open σ, ∀ name, knownType? o.looked name = knownType? o name :=
    fun o name => by unfold knownType?; rw [o.cache_looked, o.effects_looked]
  refine ⟨?_, hrequest, hnotice, fun name => ?_, fun name t ht => ?_⟩
  · rw [o.store_looked, p.store_looked]
    exact h.store
  · rw [hknown, hknown]
    exact h.known name
  · rw [(Alike.looked o).resolve]
    exact h.extra name t ht

variable [LawfulStore σ] {name : String} {t : ItemType}

/-- The first transaction may find one of the types that the second one knows. -/
theorem staged (h : Beside P extra o p) (hknown : knownType? o name = none)
    (hextra : extra name = some t) (hheld : Store.type? o.store name = .ok (some t)) :
    Beside P extra { o with effects := o.effects.stage t } p where
  store := h.store
  request := h.request
  notice := h.notice
  known key := by
    rw [knownType?_stage, LawfulStore.name_type? hheld, h.known]
    split
    · next hkey => rw [hkey, hknown, hextra]; rfl
    · rfl
  extra key u hu := ((Alike.staged hknown hheld).resolve key).trans (h.extra key u hu)

/-- Both transactions may find a type that neither of them knows. -/
theorem staged_both (h : Beside P extra o p) (hknown : knownType? o name = none)
    (hheld : Store.type? o.store name = .ok (some t)) :
    Beside P extra { o with effects := o.effects.stage t }
      { p with effects := p.effects.stage t } where
  store := h.store
  request := h.request
  notice := h.notice
  known key := by
    rw [knownType?_stage, knownType?_stage, h.known]
    split <;> rfl
  extra key u hu := ((Alike.staged hknown hheld).resolve key).trans (h.extra key u hu)

end Beside

-- ---------------------------------------------------------------------------
-- Steps that are confined to rows
-- ---------------------------------------------------------------------------

/-- A step that looks at the items of some rows only, and leaves all others alone. -/
structure Confined (P : Int → Prop) (x : Tx σ α) : Prop where
  spares : ∀ o, Spared P o (x.steps o).2
  beside : ∀ {extra o p}, Beside P extra o p →
    (x.steps p).1 = (x.steps o).1 ∧ Beside P extra (x.steps o).2 (x.steps p).2

namespace Confined

variable {x : Tx σ α} {f : α → Tx σ β}

theorem pure (a : α) : Confined P (Pure.pure a : Tx σ α) :=
  ⟨fun o => .refl P o, fun h => ⟨rfl, h⟩⟩

theorem throw (e : AccessError) : Confined P (MonadExcept.throw e : Tx σ α) :=
  ⟨fun o => .refl P o, fun h => ⟨rfl, h⟩⟩

theorem ofExcept (r : Except AccessError α) : Confined P (Tx.ofExcept r : Tx σ α) :=
  ⟨fun o => .refl P o, fun h => ⟨rfl, h⟩⟩

theorem proceed : Confined P (Tx.proceed : Tx σ Unit) where
  spares o := .of_agreeOn (o.store_looked.symm ▸ .refl _ _) o.cache_looked o.effects_looked
  beside {_ o p} h := by
    rw [steps_proceed, steps_proceed, h.looked.request]
    exact ⟨rfl, h.looked⟩

/-- A question about some rows. -/
theorem ask {q : σ → Except StoreFault α} (hq : ∀ s s', AgreeOn P s s' → q s' = q s) :
    Confined P (Tx.ask q) where
  spares o := by
    obtain ⟨ho, -⟩ := steps_ask_cases (Prod.eta ((Tx.ask q).steps o)).symm
    rw [ho]
    exact .refl P o
  beside {_ o p} h := by
    unfold steps Tx.ask
    rw [hq _ _ h.store]
    cases q o.store <;> exact ⟨rfl, h⟩

omit [Store σ] [SeparateRows σ] in
theorem steps_change (w : σ → Except StoreFault α × σ) (o : Open σ) :
    (Tx.change w).steps o =
      ((w o.store).1.mapError AccessError.internal, { o with store := (w o.store).2 }) := by
  unfold steps Tx.change
  rcases w o.store with ⟨r, s⟩
  cases r <;> rfl

/-- A change of one of some rows. -/
theorem change {row : Int} {w : σ → Except StoreFault α × σ} (h : RowWrite row w) (hrow : P row) :
    Confined P (Tx.change w) := by
  have hspares : ∀ o, Spared P o ((Tx.change w).steps o).2 := by
    intro o
    rw [steps_change]
    exact .of_agreeOn ((h.spares o.store).mono fun row' hout e => hout (e ▸ hrow)) rfl rfl
  refine ⟨hspares, fun {extra o p} hbeside => ?_⟩
  have hresolve := (hspares o).resolve
  rw [steps_change] at hresolve
  rw [steps_change, steps_change, h.answer (hbeside.store.mono fun _ e => e ▸ hrow)]
  exact ⟨rfl, h.agreeOn hrow hbeside.store, hbeside.request, hbeside.notice, hbeside.known,
    fun name t ht => (hresolve name).trans (hbeside.extra name t ht)⟩

/-- Chains of confined steps are confined; a later step may rely on what the one before answered. -/
theorem bind (hx : Confined P x) (hf : ∀ a o, (x.steps o).1 = .ok a → Confined P (f a)) :
    Confined P (x >>= f) where
  spares o := by
    have hspared := hx.spares o
    match h : x.steps o with
    | (.ok a, o₁) =>
      rw [h] at hspared
      rw [steps_bind_ok h]
      exact hspared.trans ((hf a o (by rw [h])).spares o₁)
    | (.error e, o₁) =>
      rw [h] at hspared
      rw [steps_bind_error h]
      exact hspared
  beside {_ o p} hbeside := by
    obtain ⟨hanswer, hnext⟩ := hx.beside hbeside
    exact steps_bind_both hanswer hnext fun a o₁ p₁ hxo hbeside₁ =>
      (hf a o (by rw [hxo])).beside hbeside₁

end Confined

-- ---------------------------------------------------------------------------
-- Operations on one item
-- ---------------------------------------------------------------------------

namespace WorkItems

variable [LawfulStore σ]

/-- Looking a type up looks at no row. -/
theorem confined_type (name : String) : Confined P (type name : Tx σ ItemType) where
  spares o := by
    rcases type_cases (Prod.eta ((type name : Tx σ ItemType).steps o)).symm with
      ⟨t, -, -, hend | ⟨hknown, hheld, hend⟩⟩ | ⟨-, hend⟩
    · rw [hend]
      exact .refl P o
    · rw [hend]
      refine ⟨.refl _ _, rfl, rfl, fun key u hu => ?_, (Alike.staged hknown hheld).resolve⟩
      rw [knownType?_stage, LawfulStore.name_type? hheld]
      split
      · next hkey => rw [hkey, hknown] at hu; exact nomatch hu
      · exact hu
    · rw [hend]
      exact .refl P o
  beside {extra o p} h := by
    have hp := h.known name
    match hknown : knownType? o name, hextra : extra name with
    | some t, _ =>
      rw [hknown, Option.some_or] at hp
      rw [steps_type_known hknown, steps_type_known hp]
      exact ⟨rfl, h⟩
    | none, some t =>
      -- the second transaction knows the type that the first one asks its store for
      rw [hknown, hextra, Option.none_or] at hp
      have hheld : Store.type? o.store name = .ok (some t) :=
        (resolve_unknown hknown).symm.trans (h.extra name t hextra)
      rw [steps_type_known hp, steps_type_asked hknown, steps_askType, hheld]
      exact ⟨rfl, h.staged hknown hextra hheld⟩
    | none, none =>
      rw [hknown, hextra, Option.none_or] at hp
      rw [steps_type_asked hknown, steps_type_asked hp, steps_askType, steps_askType,
        SeparateRows.type?_congr h.store.rest]
      match hheld : Store.type? o.store name with
      | .ok (some t) => exact ⟨rfl, h.staged_both hknown hheld⟩
      | .ok none => exact ⟨rfl, h⟩
      | .error fault => exact ⟨rfl, h⟩

omit [LawfulStore σ] in
theorem confined_fetch {row : Int} (hrow : P row) (id : ItemId) :
    Confined P (fetch row id : Tx σ WorkItem) := by
  refine .bind (.ask fun s s' h => ?_) fun found _ _ => ?_
  · exact SeparateRows.item?_congr (h.mono fun _ e => e ▸ hrow)
  · cases found with
    | some item => exact .pure item
    | none => exact .throw _

/-- **A save is confined to the row that its id names.** -/
theorem confined_save (u : WorkItemUpdate) :
    Confined (fun row => u.id.row? = some row) (save u : Tx σ WorkItem) := by
  refine .bind .proceed fun _ _ _ => .bind (.ofExcept _) fun row _ hrow => ?_
  have hrow : u.id.row? = some row := rowOf_eq_ok hrow
  refine .bind (confined_fetch hrow _) fun stored o hstored => .bind (.ofExcept _) fun _ _ _ =>
    .bind (confined_type _) fun t _ _ => .bind (.ofExcept _) fun fields _ _ =>
    .bind .proceed fun _ _ _ => .bind (.change (SeparateRows.updateItem ?_ _) hrow) ?_
  · -- the item that was read bears the row that the id names
    obtain ⟨-, ⟨e, he⟩ | ⟨item, hitem, hheld⟩⟩ :=
      fetch_cases (Prod.eta ((fetch row u.id).steps o)).symm
    · rw [hstored] at he
      exact nomatch he
    · obtain rfl := Except.ok.inj (hstored.symm.trans hitem)
      change stored.id.row? = some row
      rw [SeparateRows.id_item? hheld]
      exact rowOf?_rowText_self hrow
  · intro written _ _
    cases written with
    | true => exact .pure _
    | false => exact .bind (confined_fetch hrow _) fun _ _ _ => .throw _

omit [LawfulStore σ] in
/-- **A removal is confined to the row that its id names.** -/
theorem confined_delete (id : ItemId) :
    Confined (fun row => id.row? = some row) (delete id : Tx σ Unit) := by
  refine .bind .proceed fun _ _ _ => .bind (.ofExcept _) fun row _ hrow => ?_
  have hrow : id.row? = some row := rowOf_eq_ok hrow
  refine .bind (.change (SeparateRows.deleteItem row) hrow) fun removed _ _ => ?_
  cases removed with
  | true => exact .pure ()
  | false => exact .throw _

end WorkItems

end Steps

-- ---------------------------------------------------------------------------
-- Transactions that are closed
-- ---------------------------------------------------------------------------

section Closing

variable {σ : Type} [Store σ] {s s' : Service σ} {o : Open σ}

/-- The types that a transaction has staged are in the cache when it was committed, and what the
cache knew of other names it knows still. -/
theorem CacheEffects.Reflects.get?_settle [LawfulStore σ] {e : CacheEffects} {store : σ}
    (h : e.Reflects store) (hmigrated : e.migrated = false) (c : TypeCache) (name : String) :
    (e.settle c.generation c).get? name = (e.staged.get? name).or (c.get? name) := by
  rw [CacheEffects.settle, hmigrated, if_neg (by simp), TypeCache.get?_fill,
    h.find?_staged]

/-- A cache is determined by its generation and its look-ups. -/
theorem TypeCache.eq_of_get? {c c' : TypeCache} (hgeneration : c'.generation = c.generation)
    (h : ∀ name, c'.get? name = c.get? name) : c' = c := by
  obtain ⟨types, generation⟩ := c
  obtain ⟨types', generation'⟩ := c'
  obtain rfl : types' = types := SortedMap.ext_get? h
  obtain rfl : generation' = generation := hgeneration
  rfl

namespace Service

omit [Store σ] in
theorem eq_of_parts (hstore : s'.store = s.store) (hcache : s'.cache = s.cache)
    (hconfig : s'.config = s.config) : s' = s := by
  obtain ⟨store, cache, config⟩ := s
  obtain ⟨store', cache', config'⟩ := s'
  obtain rfl : store' = store := hstore
  obtain rfl : cache' = cache := hcache
  obtain rfl : config' = config := hconfig
  rfl

/-- A service that has taken in what a transaction left: its store, and in its cache what the
transaction knew of types. -/
structure Closes (s : Service σ) (o : Open σ) (s' : Service σ) : Prop where
  store : s'.store = o.store
  config : s'.config = s.config
  generation : s'.cache.generation = s.cache.generation
  known : ∀ name, knownType? s'.opened name = knownType? o name

theorem Closes.resolve (h : s.Closes o s') (name : String) :
    resolve s'.opened name = resolve o name := by
  unfold WorkItems.resolve
  rw [h.known, show s'.opened.store = o.store from h.store]

/-- A transaction that did nothing to the shared cache itself is closed as a whole or not at all. -/
theorem finish_cases [LawfulStore σ] {α : Type} (hcache : o.cache = s.cache)
    (hmigrated : o.effects.migrated = false) (hreflects : o.effects.Reflects o.store)
    (r : Except AccessError α) :
    (∃ e, outcome r o = .error e ∧ s.finish s.cache.generation r o = (.error e, s)) ∨
      ∃ a s', outcome r o = .ok a ∧ s.finish s.cache.generation r o = (.ok a, s') ∧
        s.Closes o s' := by
  unfold finish
  cases outcome r o with
  | error e => exact .inl ⟨e, rfl, by rw [hcache]⟩
  | ok a =>
    refine .inr ⟨a, _, rfl, rfl, rfl, rfl, ?_, fun name => ?_⟩
    · simp only [hcache, CacheEffects.settle, hmigrated, TypeCache.fill, if_true, if_false,
        Bool.false_eq_true, TypeCache.generation_putAll]
    · have hsettled := hreflects.get?_settle hmigrated s.cache name
      unfold knownType?
      rw [hmigrated, hcache]
      exact hsettled

end Service

end Closing

-- ---------------------------------------------------------------------------
-- Services beside each other
-- ---------------------------------------------------------------------------

namespace Service

section Crossed

variable {σ : Type} [Store σ] {P Q : Int → Prop} {extra : String → Option ItemType}
  {s s' s₁ s₂ s₁₂ s₂₁ : Service σ}

/-- What the cache of a service knows of a name, its transactions say of it. -/
theorem resolve_known {name : String} {t : ItemType} (h : s.cache.get? name = some t) :
    resolve s.opened name = .ok (some t) := by
  have hknown : knownType? s.opened name = some t := h
  rw [WorkItems.resolve, hknown]

variable [SeparateRows σ]

/-- A service after an edit of other rows. It says the same of every type as before, and what its
cache knew it knows still. -/
structure SparedOn (P : Int → Prop) (s s' : Service σ) : Prop where
  store : AgreeOn (fun row => ¬ P row) s.store s'.store
  config : s'.config = s.config
  generation : s'.cache.generation = s.cache.generation
  known : ∀ name t, s.cache.get? name = some t → s'.cache.get? name = some t
  resolve : ∀ name, resolve s'.opened name = resolve s.opened name

/-- Two services whose transactions are beside each other when they open. -/
structure BesideOn (P : Int → Prop) (extra : String → Option ItemType) (s s' : Service σ) :
    Prop where
  config : s'.config = s.config
  generation : s'.cache.generation = s.cache.generation
  opened : Beside P extra s.opened s'.opened

/-- An edit of other rows leaves a service beside the one that it found. -/
theorem SparedOn.besideOn {Q : Int → Prop} (h : SparedOn P s s') (hQ : ∀ row, Q row → ¬ P row) :
    BesideOn Q s'.cache.get? s s' where
  config := h.config
  generation := h.generation
  opened := by
    refine ⟨h.store.mono hQ, rfl, rfl, fun name => ?_, fun name t ht => ?_⟩
    · change s'.cache.get? name = (s.cache.get? name).or (s'.cache.get? name)
      cases hknown : s.cache.get? name with
      | some t => rw [h.known name t hknown, Option.some_or]
      | none => rw [Option.none_or]
    · exact (h.resolve name).symm.trans (resolve_known ht)

/-- Two edits of different rows leave one store, whichever comes first: the rows of one edit are as
that edit left them, the rows of the other as the other left them, and the rest as it was. -/
theorem store_eq_of_crossed (hPQ : ∀ row, P row → ¬ Q row) (h₁ : SparedOn P s s₁)
    (h₂ : SparedOn Q s s₂) (h₁₂ : SparedOn Q s₁ s₁₂) (h₂₁ : SparedOn P s₂ s₂₁)
    (hP : BesideOn P extra s₁ s₂₁) {extra' : String → Option ItemType}
    (hQ : BesideOn Q extra' s₂ s₁₂) : s₂₁.store = s₁₂.store := by
  have hfirst : AgreeOn P s₁₂.store s₂₁.store :=
    (h₁₂.store.mono hPQ).symm.trans hP.opened.store
  have hsecond : AgreeOn Q s₁₂.store s₂₁.store :=
    AgreeOn.trans hQ.opened.store.symm (h₂₁.store.mono fun row hq hp => hPQ row hp hq)
  have hothers : AgreeOn (fun row => ¬ P row ∧ ¬ Q row) s₁₂.store s₂₁.store :=
    (((h₁.store.mono fun _ h => h.1).trans (h₁₂.store.mono fun _ h => h.2)).symm.trans
      (h₂.store.mono fun _ h => h.2)).trans (h₂₁.store.mono fun _ h => h.1)
  have hboth : AgreeOn (fun row => P row ∨ Q row) s₁₂.store s₂₁.store :=
    hfirst.join hsecond fun _ h => h
  refine SeparateRows.ext (hboth.join hothers fun row _ => ?_)
  rw [← not_or]
  exact Classical.em _

/-- Two edits leave one cache, whichever comes first: each fills in the types that it asked the
store for, and where both do so they fill in the same. -/
theorem cache_eq_of_crossed (h₁ : SparedOn P s s₁) (h₂ : SparedOn Q s s₂)
    (h₁₂ : SparedOn Q s₁ s₁₂) (h₂₁ : SparedOn P s₂ s₂₁)
    (hP : BesideOn P s₂.cache.get? s₁ s₂₁) (hQ : BesideOn Q s₁.cache.get? s₂ s₁₂) :
    s₂₁.cache = s₁₂.cache := by
  have hgeneration : s₂₁.cache.generation = s₁₂.cache.generation :=
    (h₂₁.generation.trans h₂.generation).trans (h₁₂.generation.trans h₁.generation).symm
  refine TypeCache.eq_of_get? hgeneration fun name => ?_
  have hfirst : s₂₁.cache.get? name = (s₁.cache.get? name).or (s₂.cache.get? name) :=
    hP.opened.known name
  have hsecond : s₁₂.cache.get? name = (s₂.cache.get? name).or (s₁.cache.get? name) :=
    hQ.opened.known name
  refine hfirst.trans (Eq.trans ?_ hsecond.symm)
  cases hknown₁ : s₁.cache.get? name with
  | none => rw [Option.none_or, Option.or_none]
  | some t =>
    cases hknown₂ : s₂.cache.get? name with
    | none => rfl
    | some t' =>
      have hsame := (h₁.resolve name).trans (h₂.resolve name).symm
      rw [resolve_known hknown₁, resolve_known hknown₂] at hsame
      exact congrArg some (Option.some.inj (Except.ok.inj hsame))

end Crossed

end Service

-- ---------------------------------------------------------------------------
-- Edits
-- ---------------------------------------------------------------------------

/-- A save or a removal of an item. -/
inductive Edit
  | save (change : WorkItemUpdate)
  | delete (id : ItemId)
  deriving DecidableEq

namespace Edit

/-- The id of the item that an edit is about. -/
def id : Edit → ItemId
  | save u => u.id
  | delete id => id

/-- An edit as a request. -/
def request : Edit → Request
  | save u => .save u
  | delete id => .delete id

/-- The row that the id of an edit names. -/
def Touches (e : Edit) (row : Int) : Prop := e.id.row? = some row

/-- An edit is confined to the row that its id names. -/
theorem confined {σ : Type} [Store σ] [LawfulStore σ] [SeparateRows σ] (config : ServiceConfig)
    (e : Edit) :
    Confined e.Touches (e.request.perform config : Tx σ Reply) := by
  cases e with
  | save u => exact .bind (confined_save u) fun _ _ _ => .pure _
  | delete id => exact .bind (confined_delete id) fun _ _ _ => .pure _

end Edit

namespace Service

section Editing

variable {σ : Type} [Store σ]

/-- Do an edit in a transaction of its own. -/
def edit (s : Service σ) (request : Cancellation) (e : Edit) :
    Except AccessError Reply × Service σ :=
  s.transactional request (e.request.perform s.config)

/-- An edit whose request was withdrawn before is not begun. -/
theorem edit_withdrawn {request : Cancellation} {fault : AccessError}
    (h : request.check = .error fault) (s : Service σ) (e : Edit) :
    s.edit request e = (.error fault, s) := by
  unfold edit transactional begin
  rw [h]

variable [LawfulTypes σ] [SeparateRows σ] {P : Int → Prop} {extra : String → Option ItemType}
  {s s' : Service σ}

/-- An edit whose request stands is done in a transaction that is closed as a whole or not at
all. -/
theorem edit_standing {request : Cancellation} (h : request.check = .ok ()) (s : Service σ)
    (e : Edit) {r : Except AccessError Reply} {o : Open σ}
    (hsteps : (e.request.perform s.config).steps { s.opened with request } = (r, o)) :
    (∃ fault, outcome r o = .error fault ∧ s.edit request e = (.error fault, s)) ∨
      ∃ a s', outcome r o = .ok a ∧ s.edit request e = (.ok a, s') ∧ s.Closes o s' := by
  have hspared := (e.confined s.config).spares ({ s.opened with request } : Open σ)
  have hplain : ∀ ts, e.request ≠ .migrate ts := by cases e <;> simp [Edit.request]
  have hkept := Request.kept s.config (.of_staged_eq_empty rfl) hsteps
    (.inr fun ts hts => absurd hts (hplain ts))
  rw [hsteps] at hspared
  have hend : s.edit request e = s.finish s.cache.generation r o := by
    unfold edit transactional begin
    rw [h]
    change s.finish s.cache.generation
      ((e.request.perform s.config).steps { s.opened with request }).1
      ((e.request.perform s.config).steps { s.opened with request }).2 = _
    rw [hsteps]
  rw [hend]
  exact finish_cases hspared.cache hspared.migrated hkept.staged r

/-- **An edit spares all rows but the one that its id names.** -/
theorem spared_edit (s : Service σ) (request : Cancellation) (e : Edit) :
    SparedOn e.Touches s (s.edit request e).2 := by
  have hrefl : SparedOn e.Touches s s := ⟨.refl _ _, rfl, rfl, fun _ _ h => h, fun _ => rfl⟩
  cases hrequest : request.check with
  | error fault =>
    rw [edit_withdrawn hrequest]
    exact hrefl
  | ok _ =>
    have hspared := (e.confined s.config).spares ({ s.opened with request } : Open σ)
    rcases edit_standing hrequest s e rfl with ⟨_, -, hend⟩ | ⟨a, s', -, hend, hcloses⟩
    · rw [hend]
      exact hrefl
    · rw [hend]
      refine ⟨?_, hcloses.config, hcloses.generation, fun name t ht => ?_, fun name => ?_⟩
      · rw [hcloses.store]
        exact hspared.store
      · exact (hcloses.known name).trans (hspared.known name t ht)
      · exact (hcloses.resolve name).trans (hspared.resolve name)

/-- **An edit does the same in services beside each other**, and leaves them so. -/
theorem BesideOn.edit {e : Edit} (h : BesideOn e.Touches extra s s') (request : Cancellation) :
    (s'.edit request e).1 = (s.edit request e).1 ∧
      BesideOn e.Touches extra (s.edit request e).2 (s'.edit request e).2 := by
  cases hrequest : request.check with
  | error fault =>
    rw [edit_withdrawn hrequest, edit_withdrawn hrequest]
    exact ⟨rfl, h⟩
  | ok _ =>
    have hopened : Beside e.Touches extra ({ s.opened with request } : Open σ)
        { s'.opened with request } :=
      ⟨h.opened.store, rfl, rfl, h.opened.known, h.opened.extra⟩
    obtain ⟨hanswer, hnext⟩ := (e.confined s.config).beside hopened
    rcases hsteps : (e.request.perform s.config).steps { s.opened with request } with ⟨r, o⟩
    rcases hsteps' : (e.request.perform s.config).steps { s'.opened with request } with ⟨r', o'⟩
    rw [hsteps, hsteps'] at hanswer hnext
    obtain rfl : r' = r := hanswer
    have houtcome : outcome r' o' = outcome r' o := by
      unfold outcome
      rw [hnext.looked.request]
    rw [← h.config] at hsteps'
    rcases edit_standing hrequest s e hsteps with
        ⟨fault, hout, hend⟩ | ⟨a, t, hout, hend, hcloses⟩ <;>
      rcases edit_standing hrequest s' e hsteps' with
        ⟨fault', hout', hend'⟩ | ⟨a', t', hout', hend', hcloses'⟩ <;>
      rw [houtcome, hout] at hout'
    · obtain rfl := Except.error.inj hout'
      rw [hend, hend']
      exact ⟨rfl, h⟩
    · exact nomatch hout'
    · exact nomatch hout'
    · obtain rfl := Except.ok.inj hout'
      rw [hend, hend']
      refine ⟨rfl, hcloses'.config.trans (h.config.trans hcloses.config.symm),
        hcloses'.generation.trans (h.generation.trans hcloses.generation.symm), ?_⟩
      refine ⟨?_, rfl, rfl, fun name => ?_, fun name u hu => ?_⟩
      · change AgreeOn e.Touches t.store t'.store
        rw [hcloses.store, hcloses'.store]
        exact hnext.store
      · rw [hcloses.known, hcloses'.known]
        exact hnext.known name
      · rw [hcloses.resolve]
        exact hnext.extra name u hu

end Editing

end Service

-- ---------------------------------------------------------------------------
-- Edits in either order
-- ---------------------------------------------------------------------------

/-- An edit left every item as it was, but the one in the row that its id names, and it left all
types and all iterations as they were. -/
structure Edit.LeavesOthers {σ : Type} [Store σ] (e : Edit) (s s' : σ) : Prop where
  item? : ∀ row, e.id.row? ≠ some row → Store.item? s' row = Store.item? s row
  type? : ∀ name, Store.type? s' name = Store.type? s name
  types : Store.types s' = Store.types s
  iteration? : ∀ row, Store.iteration? s' row = Store.iteration? s row
  iterations : ∀ space, Store.iterations s' space = Store.iterations s space

namespace Service

variable {b : Backend}

theorem leavesOthers_edit (s : Service b.State) (request : Cancellation) (e : Edit) :
    e.LeavesOthers s.store (s.edit request e).2.store := by
  have hspared := s.spared_edit request e
  have hrest := hspared.store.rest
  refine ⟨fun row hrow => ?_, SeparateRows.type?_congr hrest, SeparateRows.types_congr hrest,
    SeparateRows.iteration?_congr hrest, SeparateRows.iterations_congr hrest⟩
  refine SeparateRows.item?_congr (hspared.store.mono ?_)
  rintro _ rfl
  exact hrow

/-- **Edits of different items can be done in either order.** If the ids of two edits do not name
the same row, each is answered as if it came alone, and both orders leave the same service: the same
store, with all its items, types and iterations, and the same cache. Each of them, first or second,
leaves every other item and all types and iterations as they were. -/
theorem edits_commute (s : Service b.State) (e e' : Edit) (request request' : Cancellation)
    (hrows : ∀ row, e.id.row? = some row → e'.id.row? ≠ some row) :
    let first := s.edit request e
    let second := s.edit request' e'
    (second.2.edit request e).1 = first.1 ∧ (first.2.edit request' e').1 = second.1 ∧
      (second.2.edit request e).2 = (first.2.edit request' e').2 ∧
      e.LeavesOthers s.store first.2.store ∧ e'.LeavesOthers s.store second.2.store ∧
      e.LeavesOthers second.2.store (second.2.edit request e).2.store ∧
      e'.LeavesOthers first.2.store (first.2.edit request' e').2.store := by
  intro first second
  have h₁ : SparedOn e.Touches s first.2 := s.spared_edit request e
  have h₂ : SparedOn e'.Touches s second.2 := s.spared_edit request' e'
  have h₁₂ := first.2.spared_edit request' e'
  have h₂₁ := second.2.spared_edit request e
  obtain ⟨hanswer, hP⟩ := (h₂.besideOn fun row he he' => hrows row he he').edit request
  obtain ⟨hanswer', hQ⟩ := (h₁.besideOn fun row he' he => hrows row he he').edit request'
  have hconfig := hP.config.trans (h₁.config.trans (hQ.config.trans h₂.config).symm)
  have hstore := store_eq_of_crossed hrows h₁ h₂ h₁₂ h₂₁ hP hQ
  have hcache := cache_eq_of_crossed h₁ h₂ h₁₂ h₂₁ hP hQ
  exact ⟨hanswer, hanswer', eq_of_parts hstore hcache hconfig, s.leavesOthers_edit request e,
    s.leavesOthers_edit request' e', second.2.leavesOthers_edit request e,
    first.2.leavesOthers_edit request' e'⟩

/-- Tables with two tasks. -/
def twoTasks : Service Backend.tables.State :=
  let points : Payload := .ofList [("points", .nat 1)]
  ((onStore Backend.tables.new .default).turn
    ⟨false, .new,
      [⟨.publish ⟨"task", [⟨"points", .integer, true⟩]⟩, false⟩,
       ⟨.create "task" points ⟨"ann"⟩, false⟩, ⟨.create "task" points ⟨"ann"⟩, false⟩]⟩).service

/-- A save of the first task, whose id is spelled with a sign, and a removal of the second one. -/
theorem edits_commute_twoTasks :
    let raised : Edit := .save ⟨⟨"+1"⟩, 0, .ofList [("points", .nat 5)]⟩
    let removed : Edit := .delete ⟨"2"⟩
    (∀ row, raised.id.row? = some row → removed.id.row? ≠ some row) ∧
      ((twoTasks.edit .new removed).2.edit .new raised).1.toOption =
        some (.item ⟨⟨"1"⟩, "task", 1, .ofList [("points", .integer 5)]⟩) ∧
      ((twoTasks.edit .new raised).2.edit .new removed).1.toOption = some .done ∧
      ((twoTasks.edit .new removed).2.edit .new raised).2 =
        ((twoTasks.edit .new raised).2.edit .new removed).2 := by
  intro raised removed
  have hrows : ∀ row, raised.id.row? = some row → removed.id.row? ≠ some row := by
    have hraised : raised.id.row? = some 1 := by decide +kernel
    have hremoved : removed.id.row? = some 2 := by decide +kernel
    rw [hraised, hremoved]
    rintro _ ⟨rfl⟩
    decide
  obtain ⟨hfirst, hsecond, hservice, -⟩ := edits_commute twoTasks raised removed .new .new hrows
  rw [hfirst, hsecond]
  exact ⟨hrows, by decide +kernel, by decide +kernel, hservice⟩

end Service

end Backlog
