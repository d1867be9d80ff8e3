import Backlog.Proofs.Alike

/-!
# Calls that do all or nothing

An operation checks first and writes last, so a failure leaves nothing behind. A step is `Atomic`
when it leaves a transaction that is alike if it fails, when it succeeds alike wherever it can, and
when it never touches the shared cache. A quiet step is atomic, a single write is, and so is a quiet
step before an atomic one; the operations are built in just this way.

What an operation writes must not be seen by the look-ups of types, so that transactions which are
alike before a write are so after it. Publishing is the exception and stages what it wrote; a
migration forgets all it knew. A migration is also the one call that is not atomic: the store may
give up on its types half way, and then the types before that are replaced.

## Main results

* `Request.atomic` — every call of a repository but a migration is atomic;
* `WorkItems.alike_of_migrate_error` — a migration that fails otherwise leaves nothing behind.
-/

namespace Backlog

open Tx WorkItems

variable {σ α β : Type} [Store σ] {o o' o₂ : Open σ}

/-- A step that leaves nothing behind when it fails, that succeeds alike in transactions that are
alike, and that does not touch the shared cache. -/
structure Atomic (x : Tx σ α) : Prop where
  cache : ∀ o, (x.steps o).2.cache = o.cache
  recoils : ∀ o o' e, x.steps o = (.error e, o') → Alike o o'
  follows : Follows x

theorem Quiet.atomic {x : Tx σ α} (h : Quiet x) : Atomic x where
  cache o := (h.stays o).cache
  recoils o o' e hx := by
    have ho := h.stays o
    rwa [hx] at ho
  follows := h.follows

-- ---------------------------------------------------------------------------
-- Writes
-- ---------------------------------------------------------------------------

/-- Transactions that are alike stay so under a write that no look-up of a type notices. -/
theorem Alike.change {s : σ} (h : Alike o o₂)
    (htype : ∀ name, Store.type? s name = Store.type? o.store name) :
    Alike { o with store := s } { o₂ with store := s } := by
  have hresolve : ∀ {p : Open σ}, p.store = o.store → ∀ name,
      WorkItems.resolve { p with store := s } name = WorkItems.resolve p name := by
    intro p hp name
    unfold WorkItems.resolve knownType?
    rw [htype name, ← hp]
  refine ⟨rfl, h.cache, h.migrated, fun name => ?_⟩
  rw [hresolve h.store, hresolve rfl, h.resolve]

theorem Follows.change {g : σ → Except StoreFault α × σ}
    (htype : ∀ {s s' r name}, g s = (r, s') → Store.type? s' name = Store.type? s name) :
    Follows (Tx.change g) := by
  intro o o₂ a o' hlike hstands h
  obtain ⟨s, rfl, ⟨b, hw, hb⟩ | ⟨_, -, hfault⟩⟩ := steps_change_cases h
  · obtain rfl := Except.ok.inj hb
    have hw₂ := hw
    rw [← hlike.store] at hw₂
    exact ⟨{ o₂ with store := s }, steps_change_ok hw₂, hlike.change fun name => htype hw,
      hstands.notice, hstands.request⟩
  · exact absurd hfault (by simp)

namespace Atomic

variable {x : Tx σ α} {f : α → Tx σ β}

theorem bind (hx : Quiet x) (hf : ∀ a, Atomic (f a)) : Atomic (x >>= f) where
  cache o := by
    have ho := (hx.stays o).cache
    match h : x.steps o with
    | (.ok a, o₁) =>
      rw [h] at ho
      rw [steps_bind_ok h, (hf a).cache o₁]
      exact ho
    | (.error e, o₁) =>
      rw [h] at ho
      rw [steps_bind_error h]
      exact ho
  recoils o o' e h := by
    rcases steps_bind_cases h with ⟨e', hx', -⟩ | ⟨a, o₁, hx', hrest⟩
    · exact hx.atomic.recoils o o' e' hx'
    · have ho := hx.stays o
      rw [hx'] at ho
      exact ho.trans ((hf a).recoils o₁ o' e hrest)
  follows := hx.follows.bind fun a => (hf a).follows

theorem map {g : α → β} (hx : Atomic x) : Atomic (do return g (← x)) where
  cache o := by
    obtain ⟨v, hv, -⟩ := steps_map_cases (Prod.eta ((do return g (← x) : Tx σ β).steps o)).symm
    have ho := hx.cache o
    rwa [hv] at ho
  recoils o o' e h := by
    obtain ⟨v, hv, hr⟩ := steps_map_cases h
    cases v with
    | ok a => exact absurd hr (by simp [Except.map])
    | error e' => exact hx.recoils o o' e' hv
  follows := hx.follows.bind fun _ => .pure _

omit [Store σ] in
theorem cache_change (g : σ → Except StoreFault α × σ) (o : Open σ) :
    ((Tx.change g).steps o).2.cache = o.cache := by
  obtain ⟨s, ho, -⟩ := steps_change_cases (Prod.eta ((Tx.change g).steps o)).symm
  rw [ho]

/-- A write is atomic if it leaves the store as it was when it fails. -/
theorem change {g : σ → Except StoreFault α × σ}
    (hfailed : ∀ {s s' fault}, g s = (.error fault, s') → s' = s)
    (htype : ∀ {s s' r name}, g s = (r, s') → Store.type? s' name = Store.type? s name) :
    Atomic (Tx.change g) where
  cache := cache_change g
  recoils o o' e h := by
    obtain ⟨s, rfl, ⟨a, -, ha⟩ | ⟨fault, hw, -⟩⟩ := steps_change_cases h
    · exact absurd ha (by simp)
    · exact .of_same (hfailed hw) rfl rfl
  follows := .change htype

/-- A write that answers whether it went through is atomic with what comes after it, if it leaves
the store as it was when it did not go through, and nothing fails after it did. -/
theorem change_bind {g : σ → Except StoreFault Bool × σ} {f : Bool → Tx σ β}
    (hrefused : ∀ {s s' r}, g s = (r, s') → r ≠ .ok true → s' = s) (hno : Quiet (f false))
    (hyes : ∀ o, ((f true).steps o).1.isOk = true ∧ ((f true).steps o).2.cache = o.cache)
    (hfollows : Follows (Tx.change g >>= f)) : Atomic (Tx.change g >>= f) where
  cache o := by
    rcases steps_change_bind_cases (Prod.eta ((Tx.change g >>= f).steps o)).symm with
      ⟨_, s, -, -, ho⟩ | ⟨b, s, -, ho⟩
    · rw [ho]
    · cases b with
      | true =>
        have hcache := (hyes { o with store := s }).2
        rwa [ho] at hcache
      | false =>
        have hcache := (hno.stays { o with store := s }).cache
        rwa [ho] at hcache
  recoils o o' e h := by
    rcases steps_change_bind_cases h with ⟨fault, s, hw, -, rfl⟩ | ⟨b, s, hw, hrest⟩
    · exact .of_same (hrefused hw (by simp)) rfl rfl
    · cases b with
      | true =>
        have hok := (hyes { o with store := s }).1
        rw [hrest] at hok
        exact absurd hok (by simp [Except.isOk, Except.toBool])
      | false =>
        have hsame : Alike o { o with store := s } := .of_same (hrefused hw (by simp)) rfl rfl
        exact hsame.trans (hno.atomic.recoils _ o' e hrest)
  follows := hfollows

/-- The same where what comes after a write that went through is an answer. -/
theorem change_answer {g : σ → Except StoreFault Bool × σ} {f : Bool → Tx σ β} {b : β}
    (hrefused : ∀ {s s' r}, g s = (r, s') → r ≠ .ok true → s' = s)
    (htype : ∀ {s s' r name}, g s = (r, s') → Store.type? s' name = Store.type? s name)
    (hno : Quiet (f false)) (hyes : f true = Pure.pure b) : Atomic (Tx.change g >>= f) := by
  refine change_bind hrefused hno (fun o => by rw [hyes]; exact ⟨rfl, rfl⟩)
    (.bind (.change htype) fun c => ?_)
  cases c with
  | true => rw [hyes]; exact .pure b
  | false => exact hno.follows

end Atomic

-- ---------------------------------------------------------------------------
-- Items and types
-- ---------------------------------------------------------------------------

namespace WorkItems

section Lawful

variable [LawfulStore σ]

theorem atomic_create (name : String) (payload : Payload) (creator : Identity) :
    Atomic (create name payload creator : Tx σ WorkItem) :=
  .bind .proceed fun _ => .bind (quiet_type name) fun _ => .bind (.ofExcept _) fun _ =>
    .change LawfulStore.insertItem_failed LawfulStore.type?_insertItem

theorem atomic_save (u : WorkItemUpdate) : Atomic (save u : Tx σ WorkItem) :=
  .bind .proceed fun _ => .bind (.ofExcept _) fun row => .bind (quiet_fetch row u.id)
    fun _ => .bind (.ofExcept _) fun _ => .bind (quiet_type _) fun _ => .bind (.ofExcept _)
    fun _ => .bind .proceed fun _ => .change_answer LawfulStore.updateItem_refused
      LawfulStore.type?_updateItem (.bind (quiet_fetch row u.id) fun _ => .throw _) rfl

theorem atomic_delete (id : ItemId) : Atomic (delete id : Tx σ Unit) :=
  .bind .proceed fun _ => .bind (.ofExcept _) fun _ =>
    .change_answer LawfulStore.deleteItem_refused LawfulStore.type?_deleteItem (.throw _) rfl

/-- A published type is staged, so its name resolves to it whatever was known before. -/
theorem follows_insertType (t : ItemType) :
    Follows (do
      if ← Tx.change fun s : σ => Store.insertType s t then stage t
      else throw (.badParameter "name" ("work item type '" ++ t.name ++ "' already exists"))) := by
  intro o o₂ a o' hlike hstands h
  rcases steps_change_bind_cases h with ⟨_, _, -, hr, -⟩ | ⟨b, s, hw, hrest⟩
  · exact absurd hr (by simp)
  cases b with
  | false => exact absurd (Prod.mk.inj hrest).1 (by simp)
  | true =>
    obtain ⟨ha, rfl⟩ := Prod.mk.inj hrest
    obtain rfl := Except.ok.inj ha
    have hw₂ := hw
    rw [← hlike.store] at hw₂
    refine ⟨{ o₂ with store := s, effects := o₂.effects.stage t }, ?_,
      ⟨rfl, hlike.cache, hlike.migrated, fun name => ?_⟩, hstands.notice, hstands.request⟩
    · rw [steps_bind_ok (steps_change_ok hw₂)]
      rfl
    · have hresolve : ∀ {p : Open σ}, p.store = o.store →
          resolve { p with store := s, effects := p.effects.stage t } name =
            if name = t.name then .ok (some t) else resolve p name := by
        intro p hp
        refine (resolve_stage { p with store := s } t name).trans ?_
        by_cases hname : name = t.name
        · rw [if_pos hname, if_pos hname]
        · rw [if_neg hname, if_neg hname]
          unfold resolve knownType?
          rw [LawfulStore.type?_insertType hw hname, ← hp]
      rw [hresolve hlike.store, hresolve rfl, hlike.resolve]

theorem atomic_publish (t : ItemType) : Atomic (publish t : Tx σ ItemType) :=
  .bind .proceed fun _ => .bind (.ofExcept _) fun _ =>
    .change_bind LawfulStore.insertType_refused (.throw _) (fun _ => ⟨rfl, rfl⟩)
      (follows_insertType t)

end Lawful

theorem get?_stageAll (ts : List ItemType) (e : CacheEffects) (name : String) :
    (e.stageAll ts).staged.get? name =
      (ts.reverse.find? fun t => t.name = name).or (e.staged.get? name) := by
  induction ts generalizing e with
  | nil => rfl
  | cons t ts ih =>
    -- the types behind the first one are staged later, so they win
    rw [CacheEffects.stageAll, List.foldl_cons, ← CacheEffects.stageAll, ih, CacheEffects.stage,
      SortedMap.get?_insert, List.reverse_cons, List.find?_append]
    by_cases h : t.name = name
    · simp [h]
    · simp [h, Ne.symm h]

theorem migrated_stageAll (ts : List ItemType) (e : CacheEffects) :
    (e.stageAll ts).migrated = e.migrated := by
  induction ts generalizing e with
  | nil => rfl
  | cons t ts ih => exact ih (e.stage t)

theorem resolve_stageAll (o : Open σ) (ts : List ItemType) (name : String) :
    resolve { o with effects := o.effects.stageAll ts } name =
      match ts.reverse.find? fun t => t.name = name with
      | some t => .ok (some t)
      | none => resolve o name := by
  unfold resolve knownType?
  rw [get?_stageAll, migrated_stageAll]
  cases ts.reverse.find? fun t => t.name = name <;> rfl

/-- Listing the types stages all of them at once, after everything that can fail. -/
theorem atomic_types : Atomic (types : Tx σ (List ItemType)) := by
  refine .bind .proceed fun _ => .bind (.ask _) fun ts => ⟨fun o => rfl, ?_, ?_⟩
  · intro o o' e h
    exact absurd (Prod.mk.inj h).1 (by simp)
  · intro o o₂ a o' hlike hstands h
    obtain ⟨ha, rfl⟩ := Prod.mk.inj h
    obtain rfl := Except.ok.inj ha
    refine ⟨{ o₂ with effects := o₂.effects.stageAll ts }, rfl,
      ⟨hlike.store, hlike.cache, ?_, fun name => ?_⟩, hstands.notice, hstands.request⟩
    · show (o₂.effects.stageAll ts).migrated = (o.effects.stageAll ts).migrated
      rw [migrated_stageAll, migrated_stageAll, hlike.migrated]
    · rw [resolve_stageAll, resolve_stageAll, hlike.resolve]

-- ---------------------------------------------------------------------------
-- Migrations
-- ---------------------------------------------------------------------------

/-- A migration that fails leaves nothing behind, unless the store gave up half way. -/
theorem alike_of_migrate_error {ts : List ItemType} {e : AccessError}
    (h : (migrate ts : Tx σ Unit).steps o = (.error e, o')) (he : ∀ fault, e ≠ .internal fault) :
    Alike o o' := by
  rcases steps_proceed_bind_cases h with ⟨-, rfl⟩ | hcheck
  · exact .looked o
  rcases steps_ofExcept_bind_cases hcheck with ⟨_, -, -, rfl⟩ | ⟨_, -, hwrite⟩
  · exact .looked o
  rcases steps_change_bind_cases hwrite with ⟨fault, s, -, hr, -⟩ | ⟨_, s, -, hrest⟩
  · exact absurd (Except.error.inj hr) (he fault)
  · exact absurd (Prod.mk.inj hrest).1 (by simp)

theorem cache_migrate (ts : List ItemType) (o : Open σ) :
    ((migrate ts : Tx σ Unit).steps o).2.cache = o.cache := by
  have h := (Prod.eta ((migrate ts : Tx σ Unit).steps o)).symm
  rcases steps_proceed_bind_cases h with ⟨-, ho⟩ | hcheck
  · rw [ho, Open.cache_looked]
  rcases steps_ofExcept_bind_cases hcheck with ⟨_, -, -, ho⟩ | ⟨_, -, hwrite⟩
  · rw [ho, Open.cache_looked]
  rcases steps_change_bind_cases hwrite with ⟨_, _, -, -, ho⟩ | ⟨_, s, -, hrest⟩
  · rw [ho]
    exact o.cache_looked
  · rw [← (Prod.mk.inj hrest).2]
    exact o.cache_looked

/-- After a migration nothing is known, so every name is asked of the store. -/
theorem follows_migrate (ts : List ItemType) : Follows (migrate ts : Tx σ Unit) := by
  refine .bind .proceed fun _ => .bind (.ofExcept _) fun _ => ?_
  intro o o₂ a o' hlike hstands h
  rcases steps_change_bind_cases h with ⟨_, _, -, hr, -⟩ | ⟨_, s, hw, hrest⟩
  · exact absurd hr (by simp)
  obtain ⟨ha, rfl⟩ := Prod.mk.inj hrest
  have hw₂ := hw
  rw [← hlike.store] at hw₂
  refine ⟨{ o₂ with store := s, effects := o₂.effects.migrate }, ?_,
    ⟨rfl, hlike.cache, rfl, fun _ => rfl⟩, hstands.notice, hstands.request⟩
  rw [steps_bind_ok (steps_change_ok hw₂)]
  rfl

end WorkItems

-- ---------------------------------------------------------------------------
-- Iterations
-- ---------------------------------------------------------------------------

namespace Iterations

variable [LawfulStore σ]

theorem atomic_create (i : Iteration) : Atomic (create i : Tx σ Iteration) := by
  refine .bind .proceed fun _ => .bind (quiet_placed i) fun j => .bind (.ofExcept _) fun _ => ?_
  have hwrite : Atomic (Tx.change fun s : σ => Store.insertIteration s j) :=
    .change LawfulStore.insertIteration_failed LawfulStore.type?_insertIteration
  by_cases hstart : j.state = .start
  · simp only [hstart, if_true]
    exact .bind (quiet_canStart j) fun _ => hwrite
  · simp only [hstart, if_false]
    exact hwrite

theorem atomic_save (i : Iteration) : Atomic (save i : Tx σ Iteration) := by
  refine .bind (quiet_load i.id) fun stored => ?_
  generalize ({ i with id := stored.id, space := stored.space, parent := stored.parent } :
    Iteration) = next
  refine .bind (.ofExcept _) fun _ => ?_
  have hwrite : Atomic (do
      Tx.proceed
      if ← Tx.change fun s : σ => Store.updateIteration s next then return next
      else throw (missing next.id) : Tx σ Iteration) :=
    .bind .proceed fun _ => .change_answer LawfulStore.updateIteration_refused
      LawfulStore.type?_updateIteration (.throw _) rfl
  by_cases hstart : next.state = .start ∧ stored.state ≠ .start
  · simp only [hstart, ne_eq, not_false_eq_true, and_self, if_true]
    exact .bind (quiet_canStart next) fun _ => hwrite
  · simp only [hstart, if_false]
    exact hwrite

end Iterations

-- ---------------------------------------------------------------------------
-- Every call
-- ---------------------------------------------------------------------------

namespace Request

/-- Whether a call is one of the repositories', not something that befalls the transaction from
outside. -/
def isRepositoryCall : Request → Bool
  | .withdraw | .withdrawAfter _ | .clearCache => false
  | _ => true

/-- **Every call of a repository but a migration is atomic.** -/
theorem atomic [LawfulStore σ] (config : ServiceConfig) {q : Request}
    (hq : q.isRepositoryCall = true) (hplain : ∀ ts, q ≠ .migrate ts) :
    Atomic (perform config q : Tx σ Reply) := by
  cases q with
  | create name payload creator => exact (WorkItems.atomic_create name payload creator).map
  | load id => exact (WorkItems.quiet_load id).atomic.map
  | save u => exact (WorkItems.atomic_save u).map
  | delete id => exact (WorkItems.atomic_delete id).map
  | list filter offset limit => exact (WorkItems.quiet_list _ _ _ _).atomic.map
  | listFiltered filter page => exact (WorkItems.quiet_listFiltered filter page).atomic.map
  | type name => exact (WorkItems.quiet_type name).atomic.map
  | types => exact WorkItems.atomic_types.map
  | publish t => exact (WorkItems.atomic_publish t).map
  | migrate ts => exact absurd rfl (hplain ts)
  | createIteration i => exact (Iterations.atomic_create i).map
  | createChild parent name startAt endAt => exact (Iterations.atomic_create _).map
  | loadIteration id => exact (Iterations.quiet_load id).atomic.map
  | listIterations space => exact (Iterations.quiet_list space).atomic.map
  | saveIteration i => exact (Iterations.atomic_save i).map
  | canStart i => exact (Iterations.quiet_canStart i).atomic.map
  | counts space => exact (Iterations.quiet_counts space).atomic.map
  | views space => exact (Iterations.quiet_views _ space).atomic.map
  | cached name =>
    refine ⟨fun o => rfl, fun o o' e h => ?_, fun o o₂ a o' hlike hstands h => ?_⟩
    · exact absurd (Prod.mk.inj h).1 (by simp)
    · obtain ⟨ha, rfl⟩ := Prod.mk.inj h
      obtain rfl := Except.ok.inj ha
      refine ⟨o₂, ?_, hlike, hstands⟩
      show ((.ok (.cached (o₂.cache.get? name)), o₂) : Except AccessError Reply × Open σ) = _
      rw [hlike.cache]
  | refuse e => exact (Quiet.throw e).atomic
  | withdraw | withdrawAfter looks | clearCache => simp [isRepositoryCall] at hq

/-- A call of a repository that fails leaves nothing behind, unless a migration gave up half way. -/
theorem alike_of_failed [LawfulStore σ] {config : ServiceConfig} {q : Request} {e : AccessError}
    (hq : q.isRepositoryCall = true) (h : (perform config q : Tx σ Reply).steps o = (.error e, o'))
    (hwhole : ∀ ts fault, q = .migrate ts → e ≠ .internal fault) : Alike o o' := by
  by_cases hm : ∃ ts, q = .migrate ts
  · obtain ⟨ts, rfl⟩ := hm
    rcases steps_bind_cases h with ⟨e', he, hr⟩ | ⟨_, o₁, -, hend⟩
    · obtain rfl := Except.error.inj hr
      exact alike_of_migrate_error he fun fault => hwhole ts fault rfl
    · exact absurd (Prod.mk.inj hend).1 (by simp)
  · exact (atomic config hq fun ts hts => hm ⟨ts, hts⟩).recoils o o' e h

/-- A call of a repository that succeeds does so in every transaction that is alike and stands. -/
theorem follows [LawfulStore σ] (config : ServiceConfig) {q : Request}
    (hq : q.isRepositoryCall = true) : Follows (perform config q : Tx σ Reply) := by
  by_cases hm : ∃ ts, q = .migrate ts
  · obtain ⟨ts, rfl⟩ := hm
    exact .bind (follows_migrate ts) fun _ => .pure _
  · exact (atomic config hq fun ts hts => hm ⟨ts, hts⟩).follows

/-- Only forgetting touches the shared cache. -/
theorem cache_perform [LawfulStore σ] (config : ServiceConfig) {q : Request}
    (hq : q ≠ .clearCache) (o : Open σ) :
    ((perform config q : Tx σ Reply).steps o).2.cache = o.cache := by
  by_cases hm : ∃ ts, q = .migrate ts
  · obtain ⟨ts, rfl⟩ := hm
    obtain ⟨v, hv, -⟩ := steps_map_cases (x := WorkItems.migrate ts) (g := fun _ => Reply.done)
      (Prod.eta ((perform config (.migrate ts) : Tx σ Reply).steps o)).symm
    have hcache := cache_migrate ts o
    rwa [hv] at hcache
  by_cases hr : q.isRepositoryCall = true
  · exact (atomic config hr fun ts hts => hm ⟨ts, hts⟩).cache o
  · cases q with
    | clearCache => exact absurd rfl hq
    | withdraw => rfl
    | withdrawAfter looks => rfl
    | _ => simp [isRepositoryCall] at hr

end Request

end Backlog
