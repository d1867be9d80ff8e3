import Backlog.Proofs.Steps
import Backlog.Script

/-!
# Calls that do not notice a rival

A transaction that is `facing` a rival works on a contested store and is the same otherwise. Whoever
saves nothing does not notice the rival: the answers are the same, and so is everything that is
left. `Unnoticed` says so of two bodies. It is closed under chaining, so each operation is read off
its text, and so is all of a script.

## Main results

* `Request.unnoticed` — a call that saves nothing goes as if there were no rival;
* `Service.contestedScript_unnoticed` — so does a script of such calls.
-/

namespace Backlog

open Tx WorkItems

variable {σ α β : Type}

/-- The transaction on a store with a rival. -/
def Open.facing (rival : Rival) (o : Open σ) : Open (Contested σ) where
  store := ⟨o.store, rival⟩
  request := o.request
  cache := o.cache
  effects := o.effects
  notice := o.notice

theorem Open.looked_facing (rival : Rival) (o : Open σ) :
    (o.facing rival).looked = o.looked.facing rival := by
  obtain ⟨store, request, cache, effects, notice⟩ := o
  rcases notice with _ | _ | n <;> rfl

-- ---------------------------------------------------------------------------
-- Steps that do not notice a rival
-- ---------------------------------------------------------------------------

/-- Two bodies give the same answer and leave the same behind, one without and one with a rival. -/
def Unnoticed (rival : Rival) (x : Tx σ α) (y : Tx (Contested σ) α) : Prop :=
  ∀ o, (y.steps (o.facing rival)).1 = (x.steps o).1 ∧
    (y.steps (o.facing rival)).2 = (x.steps o).2.facing rival

namespace Unnoticed

variable {rival : Rival} {x : Tx σ α} {y : Tx (Contested σ) α} {f : α → Tx σ β}
  {g : α → Tx (Contested σ) β}

theorem pure (a : α) :
    Unnoticed rival (Pure.pure a : Tx σ α) (Pure.pure a : Tx (Contested σ) α) :=
  fun _ => ⟨rfl, rfl⟩

theorem throw (e : AccessError) :
    Unnoticed rival (MonadExcept.throw e : Tx σ α) (MonadExcept.throw e : Tx (Contested σ) α) :=
  fun _ => ⟨rfl, rfl⟩

theorem ofExcept (r : Except AccessError α) :
    Unnoticed rival (Tx.ofExcept r : Tx σ α) (Tx.ofExcept r : Tx (Contested σ) α) :=
  fun _ => ⟨rfl, rfl⟩

theorem proceed :
    Unnoticed rival (Tx.proceed : Tx σ Unit) (Tx.proceed : Tx (Contested σ) Unit) := by
  intro o
  rw [steps_proceed, steps_proceed, Open.looked_facing]
  exact ⟨rfl, rfl⟩

theorem ask {q : σ → Except StoreFault α} {q' : Contested σ → Except StoreFault α}
    (h : ∀ s, q' ⟨s, rival⟩ = q s) : Unnoticed rival (Tx.ask q) (Tx.ask q') := by
  intro o
  have hq : q' (o.facing rival).store = q o.store := h o.store
  cases hanswer : q o.store with
  | ok a =>
    rw [hanswer] at hq
    rw [steps_ask_ok hanswer, steps_ask_ok hq]
    exact ⟨rfl, rfl⟩
  | error fault =>
    rw [hanswer] at hq
    rw [steps_ask_error hanswer, steps_ask_error hq]
    exact ⟨rfl, rfl⟩

theorem change {w : σ → Except StoreFault α × σ}
    {w' : Contested σ → Except StoreFault α × Contested σ}
    (h : ∀ s, w' ⟨s, rival⟩ = ((w s).1, ⟨(w s).2, rival⟩)) :
    Unnoticed rival (Tx.change w) (Tx.change w') := by
  intro o
  have hw : w' (o.facing rival).store = _ := h o.store
  match hanswer : w o.store with
  | (.ok a, s) =>
    rw [hanswer] at hw
    rw [steps_change_ok hanswer, steps_change_ok hw]
    exact ⟨rfl, rfl⟩
  | (.error fault, s) =>
    rw [hanswer] at hw
    rw [steps_change_error hanswer, steps_change_error hw]
    exact ⟨rfl, rfl⟩

theorem effects (e : CacheEffects → CacheEffects) :
    Unnoticed rival (Tx.update fun o => { o with effects := e o.effects } : Tx σ Unit)
      (Tx.update fun o => { o with effects := e o.effects }) :=
  fun _ => ⟨rfl, rfl⟩

theorem bind (hx : Unnoticed rival x y) (hf : ∀ a, Unnoticed rival (f a) (g a)) :
    Unnoticed rival (x >>= f) (y >>= g) := by
  intro o
  obtain ⟨hanswer, hnext⟩ := hx o
  refine steps_bind_both (R := fun o p => p = o.facing rival) hanswer hnext ?_
  rintro a o₁ _ - rfl
  exact hf a o₁

/-- Telling the answer in another way is not noticed either. -/
theorem map {h : α → β} (hx : Unnoticed rival x y) :
    Unnoticed rival (do return h (← x) : Tx σ β) (do return h (← y)) :=
  hx.bind fun _ => .pure _

end Unnoticed

variable [Store σ] {rival : Rival}

namespace WorkItems

theorem unnoticed_type (name : String) :
    Unnoticed rival (type name : Tx σ ItemType) (type name) := by
  refine .bind (fun _ => ⟨rfl, rfl⟩) fun known => ?_
  cases known with
  | some t => exact .pure t
  | none =>
    refine .bind (.ask fun _ => rfl) fun found => ?_
    cases found with
    | some t => exact .bind (.effects fun e => e.stage t) fun _ => .pure t
    | none => exact .throw _

theorem unnoticed_types : Unnoticed rival (types : Tx σ (List ItemType)) types :=
  .bind .proceed fun _ => .bind (.ask fun _ => rfl) fun ts =>
    .bind (.effects fun e => e.stageAll ts) fun _ => .pure ts

theorem unnoticed_publish (t : ItemType) :
    Unnoticed rival (publish t : Tx σ ItemType) (publish t) := by
  refine .bind .proceed fun _ => .bind (.ofExcept _) fun _ =>
    .bind (.change fun _ => rfl) fun b => ?_
  cases b with
  | true => exact .bind (.effects fun e => e.stage t) fun _ => .pure t
  | false => exact .throw _

theorem unnoticed_migrate (ts : List ItemType) :
    Unnoticed rival (migrate ts : Tx σ Unit) (migrate ts) :=
  .bind .proceed fun _ => .bind (.ofExcept _) fun _ => .bind (.change fun _ => rfl) fun _ =>
    .effects fun e => e.migrate

theorem unnoticed_fetch (row : Int) (id : ItemId) :
    Unnoticed rival (fetch row id : Tx σ WorkItem) (fetch row id) := by
  refine .bind (.ask fun _ => rfl) fun found => ?_
  cases found with
  | some item => exact .pure item
  | none => exact .throw _

theorem unnoticed_load (id : ItemId) : Unnoticed rival (load id : Tx σ WorkItem) (load id) :=
  .bind .proceed fun _ => .bind (.ofExcept _) fun row => unnoticed_fetch row id

theorem unnoticed_create (name : String) (payload : Payload) (creator : Identity) :
    Unnoticed rival (create name payload creator : Tx σ WorkItem) (create name payload creator) :=
  .bind .proceed fun _ => .bind (unnoticed_type name) fun _ => .bind (.ofExcept _) fun _ =>
    .change fun _ => rfl

theorem unnoticed_delete (id : ItemId) : Unnoticed rival (delete id : Tx σ Unit) (delete id) := by
  refine .bind .proceed fun _ => .bind (.ofExcept _) fun row =>
    .bind (.change fun _ => rfl) fun b => ?_
  cases b with
  | true => exact .pure _
  | false => exact .throw _

theorem unnoticed_listFiltered (filter : Filter) (page : PageRequest) :
    Unnoticed rival (listFiltered filter page : Tx σ ItemPage) (listFiltered filter page) :=
  .bind .proceed fun _ => .bind (.ask fun _ => rfl) fun _ => .bind (.ask fun _ => rfl) fun _ =>
    .pure _

theorem unnoticed_list (paging : PagingConfig) (text : String) (offset : Option String)
    (limit : Option Int64) :
    Unnoticed rival (list paging text offset limit : Tx σ ItemPage)
      (list paging text offset limit) :=
  .bind .proceed fun _ => .bind (.ask fun _ => rfl) fun _ => .bind (.ofExcept _) fun filter =>
    unnoticed_listFiltered filter _

end WorkItems

namespace Iterations

theorem unnoticed_load (id : IterationId) :
    Unnoticed rival (load id : Tx σ Iteration) (load id) := by
  refine .bind .proceed fun _ => .bind (.ofExcept _) fun row =>
    .bind (.ask fun _ => rfl) fun found => ?_
  cases found with
  | some i => exact .pure i
  | none => exact .throw _

theorem unnoticed_list (space : String) :
    Unnoticed rival (list space : Tx σ (List Iteration)) (list space) :=
  .bind .proceed fun _ => .ask fun _ => rfl

theorem unnoticed_canStart (i : Iteration) :
    Unnoticed rival (canStart i : Tx σ Unit) (canStart i) :=
  .bind .proceed fun _ => .bind (.ask fun _ => rfl) fun _ => .ofExcept _

theorem unnoticed_placed (i : Iteration) :
    Unnoticed rival (placed i : Tx σ Iteration) (placed i) := by
  unfold placed
  cases i.parent with
  | none => exact .pure i
  | some id => exact .bind (unnoticed_load id) fun _ => .pure _

theorem unnoticed_counts (space : String) :
    Unnoticed rival (counts space : Tx σ (List (IterationId × IterationCounts))) (counts space) :=
  .bind .proceed fun _ => .ask fun _ => rfl

theorem unnoticed_views (api : ApiConfig) (space : String) :
    Unnoticed rival (views api space : Tx σ (List ResourceView)) (views api space) :=
  .bind (unnoticed_counts space) fun _ => .bind (unnoticed_list space) fun _ => .pure _

theorem unnoticed_create (i : Iteration) :
    Unnoticed rival (create i : Tx σ Iteration) (create i) := by
  refine .bind .proceed fun _ => .bind (unnoticed_placed i) fun j => .bind (.ofExcept _) fun _ => ?_
  have hwrite : Unnoticed rival (Tx.change fun s : σ => Store.insertIteration s j)
      (Tx.change fun s : Contested σ => Store.insertIteration s j) := .change fun _ => rfl
  split
  · exact .bind (unnoticed_canStart j) fun _ => hwrite
  · exact hwrite

/-- Only a rival that makes iterations vanish is in the way of one who saves an iteration. -/
theorem unnoticed_save (hvanish : rival ≠ .vanish) (i : Iteration) :
    Unnoticed rival (save i : Tx σ Iteration) (save i) := by
  refine .bind (unnoticed_load i.id) fun stored => .bind (.ofExcept _) fun _ => ?_
  generalize ({ i with id := stored.id, space := stored.space, parent := stored.parent } :
    Iteration) = next
  have hwrite : ∀ b : Bool, Unnoticed rival
      (if b = true then return next else throw (missing next.id) : Tx σ Iteration)
      (if b = true then return next else throw (missing next.id)) := by
    intro b
    cases b with
    | true => exact .pure next
    | false => exact .throw _
  split
  · exact .bind (unnoticed_canStart next) fun _ => .bind .proceed fun _ =>
      .bind (.change fun _ => if_neg hvanish) hwrite
  · exact .bind .proceed fun _ => .bind (.change fun _ => if_neg hvanish) hwrite

end Iterations

namespace Request

/-- Whether a call saves something that the rival may have got hold of. -/
def isRaced (rival : Rival) : Request → Bool
  | .save _ => true
  | .saveIteration _ => rival == .vanish
  | _ => false

/-- **A call that saves nothing goes as if there were no rival.** -/
theorem unnoticed (config : ServiceConfig) {q : Request} (h : q.isRaced rival = false) :
    Unnoticed rival (q.perform config : Tx σ Reply) (q.perform config) := by
  cases q with
  | create name payload creator => exact (WorkItems.unnoticed_create name payload creator).map
  | load id => exact (WorkItems.unnoticed_load id).map
  | save u => exact nomatch h
  | delete id => exact (WorkItems.unnoticed_delete id).map
  | list filter offset limit => exact (WorkItems.unnoticed_list _ _ _ _).map
  | listFiltered filter page => exact (WorkItems.unnoticed_listFiltered filter page).map
  | type name => exact (WorkItems.unnoticed_type name).map
  | types => exact WorkItems.unnoticed_types.map
  | publish t => exact (WorkItems.unnoticed_publish t).map
  | migrate ts => exact (WorkItems.unnoticed_migrate ts).map
  | createIteration i => exact (Iterations.unnoticed_create i).map
  | createChild parent name startAt endAt => exact (Iterations.unnoticed_create _).map
  | loadIteration id => exact (Iterations.unnoticed_load id).map
  | listIterations space => exact (Iterations.unnoticed_list space).map
  | saveIteration i => exact (Iterations.unnoticed_save (beq_eq_false_iff_ne.mp h) i).map
  | canStart i => exact (Iterations.unnoticed_canStart i).map
  | counts space => exact (Iterations.unnoticed_counts space).map
  | views space => exact (Iterations.unnoticed_views _ space).map
  | cached name => exact fun _ => ⟨rfl, rfl⟩
  | refuse e => exact .throw e
  | withdraw | withdrawAfter looks | clearCache => exact fun _ => ⟨rfl, rfl⟩

theorem steps_facing (config : ServiceConfig) {q : Request} (h : q.isRaced rival = false)
    {o o' : Open σ} {r : Except AccessError Reply} (hs : (q.perform config).steps o = (r, o')) :
    (q.perform config).steps (o.facing rival) = (r, o'.facing rival) := by
  obtain ⟨hanswer, hnext⟩ := unnoticed config h o
  rw [hs] at hanswer hnext
  exact Prod.ext hanswer hnext

end Request

-- ---------------------------------------------------------------------------
-- Scripts
-- ---------------------------------------------------------------------------

/-- A script that saves nothing goes as if there were no rival. -/
theorem Script.run_facing (config : ServiceConfig) {as : List (Attempt Request)}
    (h : ∀ a ∈ as, a.request.isRaced rival = false) (o : Open σ) :
    run (Request.perform config) as (o.facing rival) =
      ⟨(run (Request.perform config) as o).answers, (run (Request.perform config) as o).result,
        (run (Request.perform config) as o).state.facing rival⟩ := by
  induction as, o using induction (Request.perform config : Request → Tx σ Reply) with
  | nil o => rfl
  | ok a rest o reply o' hs ih =>
    obtain ⟨hhere, hlater⟩ := List.forall_mem_cons.mp h
    have hfacing := Request.steps_facing config hhere hs
    rw [run_cons_ok hs, run_cons_ok hfacing, ih hlater]
    rfl
  | tried a rest o e o' hs ht ih =>
    obtain ⟨hhere, hlater⟩ := List.forall_mem_cons.mp h
    have hfacing := Request.steps_facing config hhere hs
    rw [run_cons_tried hs ht, run_cons_tried hfacing ht, ih hlater]
    rfl
  | stopped a rest o e o' hs ht =>
    have hfacing := Request.steps_facing config (h a List.mem_cons_self) hs
    rw [run_cons_error hs ht, run_cons_error hfacing ht]

namespace Service

omit [Store σ] in
/-- What counts as a success does so with a rival too. -/
theorem outcome_facing (r : Except AccessError α) (o : Open σ) :
    outcome r (o.facing rival) = outcome r o := by
  unfold outcome
  rw [Open.looked_facing]
  rfl

/-- **A script that saves nothing goes as if there were no rival.** -/
theorem contestedScript_unnoticed (s : Service σ) (request : Cancellation)
    {attempts : List (Attempt Request)} (h : ∀ a ∈ attempts, a.request.isRaced rival = false) :
    let facing := (s.contestedScript request rival attempts).1
    let alone := s.script request (Request.perform s.config) attempts
    facing.answers = alone.answers ∧ facing.result = alone.result ∧
      facing.service.store = alone.service.store := by
  unfold contestedScript script begin
  cases request.check with
  | error e => exact ⟨rfl, rfl, rfl⟩
  | ok _ =>
    have hrun : Script.run (Request.perform s.config) attempts
        (⟨⟨s.store, rival⟩, request, s.cache, .none, none⟩ : Open (Contested σ)) = _ :=
      Script.run_facing s.config h ⟨s.store, request, s.cache, .none, none⟩
    simp only [hrun]
    generalize Script.run (Request.perform s.config) attempts
      (⟨s.store, request, s.cache, .none, none⟩ : Open σ) = r
    rw [outcome_facing]
    unfold finish
    cases outcome r.result r.state with
    | error e => exact ⟨trivial, rfl, rfl⟩
    | ok _ => exact ⟨trivial, rfl, rfl⟩

end Service

end Backlog
