import Backlog.Proofs.Provider
import Backlog.Proofs.Steps

/-!
# Transactions that are alike

Two open transactions are alike when nothing that a later call does can tell them apart: the store,
the cache and the migration mark are the same, and every name of a type is resolved in the same way,
though one of them may have staged a type that the other one would still ask the store for.

Most steps ask and check and write nothing. Such a step is `Quiet`: however it ends, it leaves a
transaction that is alike, and when it succeeds it succeeds in the same way in every transaction
that is alike and whose request stands. Both properties are closed under chaining, so that each
operation that only asks is read off its text.

## Main results

* `Quiet.bind` — chains of quiet steps are quiet;
* `WorkItems.quiet_type` — looking up a type is quiet, though it may stage the type;
* `Quiet.bind_cases` — a chain that begins with a quiet step failed there, or went on with the store
  as it was.
-/

namespace Backlog

open Tx WorkItems

variable {σ α β : Type} [Store σ] {o o' o'' o₂ : Open σ}

-- ---------------------------------------------------------------------------
-- The relation
-- ---------------------------------------------------------------------------

/-- Nothing that a later call does can tell two open transactions apart. -/
structure Alike (o o' : Open σ) : Prop where
  store : o'.store = o.store
  cache : o'.cache = o.cache
  migrated : o'.effects.migrated = o.effects.migrated
  resolve : ∀ name, resolve o' name = resolve o name

namespace Alike

theorem refl (o : Open σ) : Alike o o := ⟨rfl, rfl, rfl, fun _ => rfl⟩

theorem symm (h : Alike o o') : Alike o' o :=
  ⟨h.store.symm, h.cache.symm, h.migrated.symm, fun name => (h.resolve name).symm⟩

theorem trans (h : Alike o o') (h' : Alike o' o'') : Alike o o'' :=
  ⟨h'.store.trans h.store, h'.cache.trans h.cache, h'.migrated.trans h.migrated,
    fun name => (h'.resolve name).trans (h.resolve name)⟩

/-- The request of a transaction is not looked into. -/
theorem of_same (hstore : o'.store = o.store) (hcache : o'.cache = o.cache)
    (heffects : o'.effects = o.effects) : Alike o o' := by
  refine ⟨hstore, hcache, by rw [heffects], fun name => ?_⟩
  unfold WorkItems.resolve knownType?
  rw [hstore, hcache, heffects]

theorem looked (o : Open σ) : Alike o o.looked :=
  of_same o.store_looked o.cache_looked o.effects_looked

end Alike

omit [Store σ] in
theorem knownType?_stage (o : Open σ) (t : ItemType) (name : String) :
    knownType? { o with effects := o.effects.stage t } name =
      if name = t.name then some t else knownType? o name := by
  unfold knownType? CacheEffects.stage
  rw [SortedMap.get?_insert]
  by_cases h : name = t.name
  · rw [if_pos h, if_pos h]
    rfl
  · rw [if_neg h, if_neg h]

theorem resolve_stage (o : Open σ) (t : ItemType) (name : String) :
    resolve { o with effects := o.effects.stage t } name =
      if name = t.name then .ok (some t) else resolve o name := by
  unfold resolve
  rw [knownType?_stage]
  by_cases h : name = t.name
  · rw [if_pos h, if_pos h]
  · rw [if_neg h, if_neg h]

/-- A type that is staged as the store has it makes no difference. -/
theorem Alike.staged [LawfulStore σ] {name : String} {t : ItemType}
    (hknown : knownType? o name = none) (hfound : Store.type? o.store name = .ok (some t)) :
    Alike o { o with effects := o.effects.stage t } := by
  have hname : t.name = name := LawfulStore.name_type? hfound
  refine ⟨rfl, rfl, rfl, fun key => ?_⟩
  rw [resolve_stage]
  split
  · next h =>
    rw [h, hname]
    unfold WorkItems.resolve
    rw [hknown]
    exact hfound.symm
  · rfl

-- ---------------------------------------------------------------------------
-- Steps that succeed alike
-- ---------------------------------------------------------------------------

/-- Nobody has withdrawn the request of a transaction, and nobody is about to. -/
structure Stands (o : Open σ) : Prop where
  notice : o.notice = none
  request : o.request.isCancelled = false

omit [Store σ] in
theorem Stands.looked_eq (h : Stands o) : o.looked = o := by
  unfold Open.looked
  rw [h.notice]

/-- A step that succeeds in a transaction succeeds in the same way in every transaction that is
alike and stands. -/
def Follows (x : Tx σ α) : Prop :=
  ∀ o o₂ a o', Alike o o₂ → Stands o₂ → x.steps o = (.ok a, o') →
    ∃ o₂', x.steps o₂ = (.ok a, o₂') ∧ Alike o' o₂' ∧ Stands o₂'

namespace Follows

variable {x : Tx σ α} {f : α → Tx σ β}

theorem pure (a : α) : Follows (Pure.pure a : Tx σ α) := by
  intro o o₂ a' o' hlike hstands h
  obtain ⟨ha, rfl⟩ := Prod.mk.inj h
  obtain rfl := Except.ok.inj ha
  exact ⟨o₂, rfl, hlike, hstands⟩

theorem throw (e : AccessError) : Follows (MonadExcept.throw e : Tx σ α) := by
  intro o o₂ a o' _ _ h
  exact absurd (Prod.mk.inj h).1 (by simp)

theorem bind (hx : Follows x) (hf : ∀ a, Follows (f a)) : Follows (x >>= f) := by
  intro o o₂ b o' hlike hstands h
  rcases steps_bind_cases h with ⟨e, -, hr⟩ | ⟨a, o₁, hx', hrest⟩
  · exact absurd hr (by simp)
  · obtain ⟨o₁', hx₂, hlike', hstands'⟩ := hx o o₂ a o₁ hlike hstands hx'
    obtain ⟨o₂', hf₂, hend⟩ := hf a o₁ o₁' b o' hlike' hstands' hrest
    exact ⟨o₂', by rw [steps_bind_ok hx₂, hf₂], hend⟩

theorem ofExcept (r : Except AccessError α) : Follows (Tx.ofExcept r : Tx σ α) := by
  intro o o₂ a o' hlike hstands h
  obtain ⟨ha, rfl⟩ := Prod.mk.inj h
  exact ⟨o₂, by rw [steps_ofExcept, ha], hlike, hstands⟩

theorem ask (g : σ → Except StoreFault α) : Follows (ask g) := by
  intro o o₂ a o' hlike hstands h
  obtain ⟨rfl, ⟨b, hg, hb⟩ | ⟨_, -, hfault⟩⟩ := steps_ask_cases h
  · obtain rfl := Except.ok.inj hb
    rw [← hlike.store] at hg
    exact ⟨o₂, steps_ask_ok hg, hlike, hstands⟩
  · exact absurd hfault (by simp)

theorem proceed : Follows (proceed : Tx σ Unit) := by
  intro o o₂ a o' hlike hstands h
  obtain ⟨-, rfl⟩ := Prod.mk.inj h
  refine ⟨o₂, ?_, (Alike.looked o).symm.trans hlike, hstands⟩
  have hcheck : o₂.request.check = .ok () :=
    (Cancellation.check_eq_ok_iff _).mpr hstands.request
  rw [steps_proceed, hstands.looked_eq, hcheck]

end Follows

-- ---------------------------------------------------------------------------
-- Steps that write nothing
-- ---------------------------------------------------------------------------

/-- A step that writes nothing. -/
structure Quiet (x : Tx σ α) : Prop where
  stays : ∀ o, Alike o (x.steps o).2
  follows : Follows x

namespace Quiet

variable {x : Tx σ α} {f : α → Tx σ β}

theorem pure (a : α) : Quiet (Pure.pure a : Tx σ α) := ⟨fun o => .refl o, .pure a⟩

theorem throw (e : AccessError) : Quiet (MonadExcept.throw e : Tx σ α) :=
  ⟨fun o => .refl o, .throw e⟩

theorem ofExcept (r : Except AccessError α) : Quiet (Tx.ofExcept r : Tx σ α) :=
  ⟨fun o => .refl o, .ofExcept r⟩

theorem proceed : Quiet (Tx.proceed : Tx σ Unit) := ⟨fun o => .looked o, .proceed⟩

theorem ask (g : σ → Except StoreFault α) : Quiet (Tx.ask g) := by
  refine ⟨fun o => ?_, .ask g⟩
  obtain ⟨ho, -⟩ := steps_ask_cases (Prod.eta ((Tx.ask g).steps o)).symm
  rw [ho]
  exact .refl o

/-- Chains of quiet steps are quiet. -/
theorem bind (hx : Quiet x) (hf : ∀ a, Quiet (f a)) : Quiet (x >>= f) := by
  refine ⟨fun o => ?_, hx.follows.bind fun a => (hf a).follows⟩
  have ho := hx.stays o
  match h : x.steps o with
  | (.ok a, o₁) =>
    rw [h] at ho
    rw [steps_bind_ok h]
    exact ho.trans ((hf a).stays o₁)
  | (.error e, o₁) =>
    rw [h] at ho
    rw [steps_bind_error h]
    exact ho

/-- A chain that begins with a quiet step failed there, or went on with the store as it was. -/
theorem bind_cases (hx : Quiet x) {r : Except AccessError β} (h : (x >>= f).steps o = (r, o')) :
    (∃ e, r = .error e ∧ o'.store = o.store) ∨
      ∃ a o₁, x.steps o = (.ok a, o₁) ∧ o₁.store = o.store ∧ (f a).steps o₁ = (r, o') := by
  have ho := (hx.stays o).store
  rcases steps_bind_cases h with ⟨e, he, hr⟩ | ⟨a, o₁, ha, hf⟩
  · rw [he] at ho
    exact .inl ⟨e, hr, ho⟩
  · rw [ha] at ho
    exact .inr ⟨a, o₁, ha, ho, hf⟩

end Quiet

-- ---------------------------------------------------------------------------
-- Operations that write nothing
-- ---------------------------------------------------------------------------

namespace WorkItems

/-- Looking up a type is quiet: a type that is staged on the way is staged as the store has it, and
transactions that resolve a name alike look the type up alike. -/
theorem quiet_type [LawfulStore σ] (name : String) :
    Quiet (type name : Tx σ ItemType) := by
  have hstays : ∀ o, Alike o ((type name : Tx σ ItemType).steps o).2 := by
    intro o
    rcases type_cases (Prod.eta ((type name : Tx σ ItemType).steps o)).symm with
      ⟨t, -, -, ho | ⟨hknown, hfound, ho⟩⟩ | ⟨-, ho⟩
    · rw [ho]
      exact .refl o
    · rw [ho]
      exact .staged hknown hfound
    · rw [ho]
      exact .refl o
  refine ⟨hstays, ?_⟩
  intro o o₂ t o' hlike hstands h
  have hstay := hstays o
  rw [h] at hstay
  rcases type_cases h with ⟨t', ht, hresolve, -⟩ | ⟨⟨e, he⟩, -⟩
  · obtain rfl := Except.ok.inj ht
    rw [← hlike.resolve] at hresolve
    cases hknown : knownType? o₂ name with
    | some u =>
      unfold resolve at hresolve
      rw [hknown] at hresolve
      obtain rfl := Option.some.inj (Except.ok.inj hresolve)
      exact ⟨o₂, steps_type_known hknown, hstay.symm.trans hlike, hstands⟩
    | none =>
      unfold resolve at hresolve
      rw [hknown] at hresolve
      refine ⟨{ o₂ with effects := o₂.effects.stage t }, ?_,
        hstay.symm.trans (hlike.trans (.staged hknown hresolve)), hstands.notice, hstands.request⟩
      rw [steps_type_asked hknown, askType, steps_bind_ok (steps_ask_ok hresolve)]
      rfl
  · exact absurd he (by simp)

theorem quiet_fetch (row : Int) (id : ItemId) : Quiet (fetch row id : Tx σ WorkItem) := by
  refine .bind (.ask _) fun found => ?_
  cases found with
  | some item => exact .pure item
  | none => exact .throw _

theorem quiet_load (id : ItemId) : Quiet (load id : Tx σ WorkItem) :=
  .bind .proceed fun _ => .bind (.ofExcept _) fun row => quiet_fetch row id

theorem quiet_listFiltered (filter : Filter) (page : PageRequest) :
    Quiet (listFiltered filter page : Tx σ ItemPage) :=
  .bind .proceed fun _ => .bind (.ask _) fun _ => .bind (.ask _) fun _ => .pure _

theorem quiet_list (paging : PagingConfig) (text : String) (offset : Option String)
    (limit : Option Int64) : Quiet (list paging text offset limit : Tx σ ItemPage) :=
  .bind .proceed fun _ => .bind (.ask _) fun _ => .bind (.ofExcept _) fun filter =>
    quiet_listFiltered filter _

end WorkItems

namespace Iterations

theorem quiet_load (id : IterationId) : Quiet (load id : Tx σ Iteration) := by
  refine .bind .proceed fun _ => .bind (.ofExcept _) fun row => .bind (.ask _) fun found => ?_
  cases found with
  | some i => exact .pure i
  | none => exact .throw _

theorem quiet_list (space : String) : Quiet (list space : Tx σ (List Iteration)) :=
  .bind .proceed fun _ => .ask _

theorem quiet_canStart (i : Iteration) : Quiet (canStart i : Tx σ Unit) :=
  .bind .proceed fun _ => .bind (.ask _) fun _ => .ofExcept _

theorem quiet_placed (i : Iteration) : Quiet (placed i : Tx σ Iteration) := by
  unfold placed
  cases i.parent with
  | none => exact .pure i
  | some id => exact .bind (quiet_load id) fun _ => .pure _

theorem quiet_counts (space : String) :
    Quiet (counts space : Tx σ (List (IterationId × IterationCounts))) :=
  .bind .proceed fun _ => .ask _

theorem quiet_views (api : ApiConfig) (space : String) :
    Quiet (views api space : Tx σ (List ResourceView)) :=
  .bind (quiet_counts space) fun _ => .bind (quiet_list space) fun _ => .pure _

end Iterations

end Backlog
