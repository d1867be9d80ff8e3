import Backlog.Proofs.History
import Backlog.Proofs.Uncached

/-!
# A cache that overlapping calls share

Many calls use one service at a time. Each of them reads the generation of the cache, waits for the
store, works in a transaction while it has the store for itself, gives the store back, and only then
tells the cache. Between any two of these steps, and between any two requests of a transaction,
other calls may have their turn and someone may clear the cache. `Traffic` is a service with all the
calls that are under way, `Traffic.step` is what one of them does next, and a list of actions is a
way in which they may overlap; an action that is not possible is passed over.

Two facts carry the argument. A transaction that migrates nothing leaves a store that has grown, so
whatever reflected the store before reflects it still; and a call that remembers an older generation
than the present one fills nothing. So as soon as the cache is cleared after a migration, nothing
that was read before it can come back, and what was read after it is what the store holds.

A migration that gives up half way breaks this if the call goes on as if nothing had happened: some
types are replaced then, and nobody knows.

## Main results

* `Traffic.run_turn` — a call that nobody disturbs is a transaction of the service;
* `Traffic.Steady.step` — what every action keeps;
* `Traffic.fresh_run` — what a cache says while no migration is waiting to clear it;
* `Traffic.not_fresh_halfMigrated` — what it may say after half a migration.
-/

namespace Backlog

/-- A service with the calls that are under way: the generations that calls have read which wait for
the store, the call that has the store with its generation and its transaction, and the effects of
committed transactions that the cache is still to be told, each with the generation of its call. -/
structure Traffic (σ : Type) where
  store : σ
  cache : TypeCache
  begun : List Nat
  running : Option (Nat × Open σ)
  committed : List (Nat × CacheEffects)

namespace Traffic

/-- What happens next. Calls are told apart by their places among those at the same point. -/
inductive Action
  /-- A call reads the generation of the cache. -/
  | begin
  /-- A call gets the store and opens its transaction. -/
  | enter (place : Nat) (request : Cancellation)
  /-- The call that has the store makes a request, and ends if that fails without being tried. -/
  | call (attempt : Attempt Request)
  /-- The call that has the store commits its transaction and gives the store back. -/
  | leave
  /-- A call tells the cache the effects of its transaction. -/
  | settle (place : Nat)
  /-- Someone clears the cache. -/
  | clear

variable {σ : Type} [Store σ]

/-- A service that nobody uses yet. -/
def start (s : σ) : Traffic σ := ⟨s, ∅, [], none, []⟩

/-- The service as a call finds it. -/
def service (w : Traffic σ) (config : ServiceConfig) : Service σ := ⟨w.store, w.cache, config⟩

/-- A call reads the generation of the cache. -/
def begin (w : Traffic σ) : Traffic σ := { w with begun := w.begun ++ [w.cache.generation] }

/-- A call gets the store, if nobody has it, and opens its transaction. -/
def enter (config : ServiceConfig) (w : Traffic σ) (place : Nat) (request : Cancellation) :
    Traffic σ :=
  match w.running, w.begun[place]? with
  | none, some generation =>
    let w := { w with begun := w.begun.eraseIdx place }
    match (w.service config).begin request with
    | .ok o => { w with running := some (generation, o) }
    | .error _ => w
  | _, _ => w

/-- The call that has the store makes a request. -/
def call (config : ServiceConfig) (w : Traffic σ) (attempt : Attempt Request) : Traffic σ :=
  match w.running with
  | some (generation, o) =>
    -- the cache is the one that all calls share, as it is now
    match (attempt.request.perform config).steps { o with cache := w.cache } with
    | (.ok _, o') => { w with cache := o'.cache, running := some (generation, o') }
    | (.error _, o') =>
      { w with
        cache := o'.cache
        running := if attempt.tried then some (generation, o') else none }
  | none => w

/-- The call that has the store ends its transaction. -/
def leave (w : Traffic σ) : Traffic σ :=
  match w.running with
  | some (generation, o) =>
    match Service.outcome (.ok ()) o with
    | .ok () =>
      { w with
        store := o.store
        running := none
        committed := w.committed ++ [(generation, o.effects)] }
    | .error _ => { w with running := none }
  | none => w

/-- A call tells the cache the effects of its transaction. -/
def settle (w : Traffic σ) (place : Nat) : Traffic σ :=
  match w.committed[place]? with
  | some (generation, effects) =>
    { w with
      cache := effects.settle generation w.cache
      committed := w.committed.eraseIdx place }
  | none => w

/-- One action. -/
def step (config : ServiceConfig) (w : Traffic σ) : Action → Traffic σ
  | .begin => w.begin
  | .enter place request => w.enter config place request
  | .call attempt => w.call config attempt
  | .leave => w.leave
  | .settle place => w.settle place
  | .clear => { w with cache := w.cache.clear }

/-- Actions in their order. -/
def run (config : ServiceConfig) (w : Traffic σ) (actions : List Action) : Traffic σ :=
  actions.foldl (step config) w

/-- Whether a committed migration is still to clear the cache. -/
def isMigrating (w : Traffic σ) : Bool := w.committed.any fun c => c.2.migrated

theorem run_cons (config : ServiceConfig) (w : Traffic σ) (a : Action) (as : List Action) :
    run config w (a :: as) = run config (step config w a) as := rfl

theorem run_append (config : ServiceConfig) (w : Traffic σ) (as bs : List Action) :
    run config w (as ++ bs) = run config (run config w as) bs := List.foldl_append

-- ---------------------------------------------------------------------------
-- Calls that nobody disturbs
-- ---------------------------------------------------------------------------

/-- Without a call that has the store, requests are passed over. -/
theorem run_calls_idle (config : ServiceConfig) {w : Traffic σ} (h : w.running = none)
    (calls : List (Attempt Request)) : run config w (calls.map .call) = w := by
  induction calls with
  | nil => rfl
  | cons a rest ih =>
    have hstep : w.call config a = w := by
      unfold call
      rw [h]
    rw [List.map_cons, run_cons, step, hstep]
    exact ih

/-- Requests without anything between them are a script. -/
theorem run_calls (config : ServiceConfig) {w : Traffic σ} {generation : Nat} {o : Open σ}
    (hrunning : w.running = some (generation, o)) (hcache : o.cache = w.cache)
    (calls : List (Attempt Request)) :
    run config w (calls.map .call) =
      { w with
        cache := (Script.run (Request.perform config) calls o).state.cache
        running :=
          if (Script.run (Request.perform config) calls o).result.isOk then
            some (generation, (Script.run (Request.perform config) calls o).state)
          else none } := by
  have hsame : { o with cache := w.cache } = o := by rw [← hcache]
  induction calls, o using Script.induction (Request.perform config : Request → Tx σ Reply)
    generalizing w with
  | nil o =>
    show w = _
    rw [Script.run]
    cases w
    simp_all [Except.isOk, Except.toBool]
  | ok a rest o b o' hs ih =>
    have hstep : w.call config a =
        { w with cache := o'.cache, running := some (generation, o') } := by
      unfold call
      simp only [hrunning, hsame, hs]
    rw [Script.run_cons_ok hs, List.map_cons, run_cons, step, hstep]
    exact ih rfl rfl rfl
  | tried a rest o e o' hs ht ih =>
    have hstep : w.call config a =
        { w with cache := o'.cache, running := some (generation, o') } := by
      unfold call
      simp only [hrunning, hsame, hs, ht, if_true]
    rw [Script.run_cons_tried hs ht, List.map_cons, run_cons, step, hstep]
    exact ih rfl rfl rfl
  | stopped a rest o e o' hs ht =>
    have hstep : w.call config a = { w with cache := o'.cache, running := none } := by
      unfold call
      simp [hrunning, hsame, hs, ht]
    rw [Script.run_cons_error hs ht, List.map_cons, run_cons, step, hstep]
    exact run_calls_idle config rfl rest

/-- The actions of a call that nobody disturbs. -/
def turn (w : Traffic σ) (request : Cancellation) (calls : List (Attempt Request)) :
    List Action :=
  [.begin, .enter w.begun.length request] ++ calls.map .call ++ [.leave, .settle w.committed.length]

/-- A call that nobody disturbs reads the generation and gets the store. -/
theorem run_enter (config : ServiceConfig) {w : Traffic σ} (hidle : w.running = none)
    (request : Cancellation) :
    run config w [.begin, .enter w.begun.length request] =
      match (w.service config).begin request with
      | .ok o => { w with running := some (w.cache.generation, o) }
      | .error _ => w := by
  have herase : (w.begun ++ [w.cache.generation]).eraseIdx w.begun.length = w.begun := by
    rw [List.eraseIdx_append_of_length_le (Nat.le_refl _), Nat.sub_self, List.eraseIdx_cons_zero,
      List.append_nil]
  have hplace : (w.begun ++ [w.cache.generation])[w.begun.length]? = some w.cache.generation :=
    List.getElem?_concat_length
  rw [run_cons, run_cons, step, step, begin, enter]
  simp only [hidle, hplace, herase]
  show run config (match (w.service config).begin request with
    | .ok o => { w with running := some (w.cache.generation, o) }
    | .error _ => { w with running := none }) [] = _
  cases (w.service config).begin request with
  | ok o => rfl
  | error e =>
    rw [← hidle]
    rfl

/-- A call that nobody disturbs gives the store back and tells the cache. -/
theorem run_leave (config : ServiceConfig) {w : Traffic σ} {generation : Nat} {o : Open σ}
    (hrunning : w.running = some (generation, o)) :
    run config w [.leave, .settle w.committed.length] =
      match Service.outcome (.ok ()) o with
      | .ok () =>
        { w with
          store := o.store
          cache := o.effects.settle generation w.cache
          running := none }
      | .error _ => { w with running := none } := by
  have herase : (w.committed ++ [(generation, o.effects)]).eraseIdx w.committed.length =
      w.committed := by
    rw [List.eraseIdx_append_of_length_le (Nat.le_refl _), Nat.sub_self, List.eraseIdx_cons_zero,
      List.append_nil]
  rw [run_cons, run_cons, step, step, leave, hrunning]
  simp only
  cases Service.outcome (.ok ()) o with
  | ok _ =>
    rw [settle]
    simp only [List.getElem?_concat_length, herase]
    rfl
  | error e =>
    rw [settle]
    simp only [List.getElem?_eq_none (Nat.le_refl w.committed.length)]
    rfl

/-- What follows a call that ended early is passed over. -/
theorem run_leave_idle (config : ServiceConfig) {w : Traffic σ} (h : w.running = none) :
    run config w [.leave, .settle w.committed.length] = w := by
  have hleave : w.leave = w := by
    rw [leave, h]
  rw [run_cons, run_cons, step, step, hleave, settle,
    List.getElem?_eq_none (Nat.le_refl w.committed.length)]
  rfl

/-- **A call that nobody disturbs is a transaction of the service.** -/
theorem run_turn (config : ServiceConfig) {w : Traffic σ} (hidle : w.running = none)
    (request : Cancellation) (calls : List (Attempt Request)) :
    run config w (w.turn request calls) =
      { w with
        store := ((w.service config).script request (Request.perform config) calls).service.store
        cache :=
          ((w.service config).script request (Request.perform config) calls).service.cache } := by
  rw [turn, run_append, run_append, run_enter config hidle, Service.script]
  cases hb : (w.service config).begin request with
  | error e =>
    show run config (run config w (calls.map .call)) _ = w
    rw [run_calls_idle config hidle, run_leave_idle config hidle]
  | ok o =>
    have hcache : o.cache = w.cache := by
      unfold Service.begin at hb
      split at hb
      · rw [← Except.ok.inj hb]
        rfl
      · simp at hb
    simp only
    rw [run_calls config (w := { w with running := some (w.cache.generation, o) }) rfl hcache]
    generalize Script.run (Request.perform config) calls o = r
    rcases r with ⟨answers, result, o'⟩
    unfold Service.finish
    cases result with
    | error e =>
      rw [show (Except.error e : Except AccessError Unit).isOk = false from rfl]
      refine (run_leave_idle config rfl).trans ?_
      simp [Service.outcome, service, hidle]
    | ok u =>
      rw [show (Except.ok u : Except AccessError Unit).isOk = true from rfl]
      refine (run_leave config rfl).trans ?_
      cases Service.outcome (.ok ()) o' <;> simp [service, hidle]

-- ---------------------------------------------------------------------------
-- What every action keeps
-- ---------------------------------------------------------------------------

/-- What holds of a service at any time, whatever calls are under way. -/
structure Steady (w : Traffic σ) : Prop where
  /-- The store holds what the cache says, unless a migration is to clear it. -/
  cache : w.isMigrating = true ∨ w.cache.Reflects w.store
  /-- And what the cache will be told, if that is not too late. -/
  fills : ∀ c ∈ w.committed, c.2.migrated = false → c.1 = w.cache.generation →
    w.isMigrating = true ∨ c.2.Reflects w.store
  /-- Generations that were read are past or present. -/
  begun : ∀ g ∈ w.begun, g ≤ w.cache.generation
  running : ∀ g o, w.running = some (g, o) → g ≤ w.cache.generation
  committed : ∀ c ∈ w.committed, c.1 ≤ w.cache.generation
  /-- An open transaction has staged what its store holds, which has grown out of the committed one
  unless types were migrated. -/
  staged : ∀ g o, w.running = some (g, o) → o.effects.Reflects o.store ∧
    (o.effects.migrated = false → Grows w.store o.store)

namespace Steady

variable {w : Traffic σ}

theorem start (s : σ) : Steady (start s) where
  cache := .inr (.of_types_eq_empty rfl)
  fills := by simp [Traffic.start]
  begun := by simp [Traffic.start]
  running := by simp [Traffic.start]
  committed := by simp [Traffic.start]
  staged := by simp [Traffic.start]

/-- A cache that is cleared says nothing, and nothing that was read before will fill it. -/
theorem clear (h : Steady w) : Steady { w with cache := w.cache.clear } where
  cache := .inr (.of_types_eq_empty rfl)
  fills c hc _ hg := by
    have hle := h.committed c hc
    change c.1 = w.cache.generation + 1 at hg
    omega
  begun g hg := Nat.le_succ_of_le (h.begun g hg)
  running g o ho := Nat.le_succ_of_le (h.running g o ho)
  committed c hc := Nat.le_succ_of_le (h.committed c hc)
  staged := h.staged

/-- The store is free when the call that has it is gone. -/
theorem withoutRunning (h : Steady w) : Steady { w with running := none } where
  cache := h.cache
  fills := h.fills
  begun := h.begun
  running := by simp
  committed := h.committed
  staged := by simp

/-- The call that has the store may go on, or another one may get the store. -/
theorem withRunning (h : Steady w) {g : Nat} {o : Open σ} (hg : g ≤ w.cache.generation)
    (hstaged : o.effects.Reflects o.store)
    (hgrows : o.effects.migrated = false → Grows w.store o.store) :
    Steady { w with running := some (g, o) } where
  cache := h.cache
  fills := h.fills
  begun := h.begun
  running g' o' ho := by
    obtain ⟨rfl, rfl⟩ := Prod.mk.inj (Option.some.inj ho)
    exact hg
  committed := h.committed
  staged g' o' ho := by
    obtain ⟨rfl, rfl⟩ := Prod.mk.inj (Option.some.inj ho)
    exact ⟨hstaged, hgrows⟩

theorem begin (h : Steady w) : Steady w.begin where
  cache := h.cache
  fills := h.fills
  begun g hg := by
    rcases List.mem_append.mp hg with hg | hg
    · exact h.begun g hg
    · rw [List.mem_singleton.mp hg]
      exact Nat.le_refl _
  running := h.running
  committed := h.committed
  staged := h.staged

theorem enter (h : Steady w) (config : ServiceConfig) (place : Nat) (request : Cancellation) :
    Steady (w.enter config place request) := by
  unfold Traffic.enter
  split
  · next generation hidle hplace =>
    have hfree : Steady { w with begun := w.begun.eraseIdx place } :=
      ⟨h.cache, h.fills, fun g hg => h.begun g (List.mem_of_mem_eraseIdx hg), h.running,
        h.committed, h.staged⟩
    simp only
    split
    · next o hb =>
      have ho : o = { store := w.store, request, cache := w.cache, effects := .none } := by
        unfold Service.begin at hb
        split at hb
        · exact (Except.ok.inj hb).symm
        · simp at hb
      rw [ho]
      exact hfree.withRunning (h.begun generation (List.mem_of_getElem? hplace))
        (.of_staged_eq_empty rfl) fun _ => .refl w.store
    · exact hfree
  · exact h

theorem withCache (h : Steady w) {c : TypeCache} (hc : c = w.cache ∨ c = w.cache.clear) :
    Steady { w with cache := c } := by
  rcases hc with rfl | rfl
  · exact h
  · exact h.clear

/-- A call that makes a request and goes on has kept what it staged true. -/
theorem goesOn [LawfulTypes σ] (h : Steady w) {config : ServiceConfig} {q : Request}
    {generation : Nat} {o o' : Open σ} {r : Except AccessError Reply}
    (hrunning : w.running = some (generation, o))
    (hs : (q.perform config).steps { o with cache := w.cache } = (r, o'))
    (hwhole : r.isOk = true ∨ ∀ ts, q = .migrate ts → ReplacedWhole σ ts) :
    Steady { w with cache := o'.cache, running := some (generation, o') } := by
  obtain ⟨hstaged, hgrows⟩ := h.staged generation o hrunning
  have hkept : Kept { o with cache := w.cache } o' := Request.kept config hstaged hs hwhole
  have hcache := Request.cache_cases config q { o with cache := w.cache }
  rw [hs] at hcache
  refine (h.withCache hcache).withRunning ?_ hkept.staged fun hm => ?_
  · have hle := h.running generation o hrunning
    rcases hcache with hc | hc
    · rw [hc]
      exact hle
    · rw [hc]
      exact Nat.le_succ_of_le hle
  · rcases hkept.types with hm' | ⟨hm', hgrows'⟩
    · rw [hm] at hm'
      exact absurd hm' (by simp)
    · exact (hgrows (hm'.symm.trans hm)).trans hgrows'

theorem call [LawfulTypes σ] (h : Steady w) (config : ServiceConfig) {a : Attempt Request}
    (hwhole : a.tried = true → ∀ ts, a.request = .migrate ts → ReplacedWhole σ ts) :
    Steady (w.call config a) := by
  unfold Traffic.call
  split
  · next generation o hrunning =>
    split
    · next hs => exact h.goesOn hrunning hs (.inl rfl)
    · next e o' hs =>
      cases ht : a.tried with
      | true => exact h.goesOn hrunning hs (.inr (hwhole ht))
      | false =>
        have hcache := Request.cache_cases config a.request { o with cache := w.cache }
        rw [hs] at hcache
        exact (h.withCache hcache).withoutRunning
  · exact h

theorem leave (h : Steady w) : Steady w.leave := by
  unfold Traffic.leave
  split
  · next generation o hrunning =>
    obtain ⟨hstaged, hgrows⟩ := h.staged generation o hrunning
    split
    · -- the effects of this transaction come after those that are waiting already
      have hmem : ∀ {c}, c ∈ w.committed ++ [(generation, o.effects)] →
          c ∈ w.committed ∨ c = (generation, o.effects) := by
        intro c hc
        rw [List.mem_append, List.mem_singleton] at hc
        exact hc
      have hold : ∀ c ∈ w.committed ++ [(generation, o.effects)], c.1 ≤ w.cache.generation := by
        intro c hc
        rcases hmem hc with hc | rfl
        · exact h.committed c hc
        · exact h.running generation o hrunning
      cases hm : o.effects.migrated with
      | true =>
        have hnow : (w.committed ++ [(generation, o.effects)]).any (fun c => c.2.migrated) = true :=
          List.any_eq_true.mpr ⟨_, List.mem_append_right _ (List.mem_singleton_self _), hm⟩
        exact ⟨.inl hnow, fun _ _ _ _ => .inl hnow, h.begun, by simp, hold, by simp⟩
      | false =>
        have hstays : w.isMigrating = true →
            (w.committed ++ [(generation, o.effects)]).any (fun c => c.2.migrated) = true := by
          intro hm'
          rw [List.any_append]
          exact Bool.or_eq_true_iff.mpr (.inl hm')
        refine ⟨h.cache.imp hstays fun hc => hc.mono (hgrows hm), fun c hc hcm hg => ?_, h.begun,
          by simp, hold, by simp⟩
        rcases hmem hc with hc | rfl
        · exact (h.fills c hc hcm hg).imp hstays fun hc => hc.mono (hgrows hm)
        · exact .inr hstaged
    · exact h.withoutRunning
  · exact h

omit [Store σ] in
/-- Effects that are settled and migrate nothing leave every migration that is waiting. -/
theorem isMigrating_eraseIdx {place : Nat} {c : Nat × CacheEffects}
    (hplace : w.committed[place]? = some c) (hc : c.2.migrated = false)
    (h : w.isMigrating = true) :
    (w.committed.eraseIdx place).any (fun c => c.2.migrated) = true := by
  obtain ⟨c', hmem, hm⟩ := List.any_eq_true.mp h
  obtain ⟨i, hi⟩ := List.getElem?_of_mem hmem
  refine List.any_eq_true.mpr ⟨c', List.mem_eraseIdx_iff_getElem?.mpr ⟨i, ?_, hi⟩, hm⟩
  rintro rfl
  rw [hplace] at hi
  rw [← Option.some.inj hi, hc] at hm
  simp at hm

/-- A cache of the same generation may be told what the store holds. -/
theorem told (h : Steady w) {c : TypeCache} {rest : List (Nat × CacheEffects)}
    (hgeneration : c.generation = w.cache.generation) (hrest : ∀ x ∈ rest, x ∈ w.committed)
    (hstays : w.isMigrating = true → rest.any (fun c => c.2.migrated) = true)
    (hcache : rest.any (fun c => c.2.migrated) = true ∨ c.Reflects w.store) :
    Steady { w with cache := c, committed := rest } where
  cache := hcache
  fills x hx hm hg := (h.fills x (hrest x hx) hm (hg.trans hgeneration)).imp hstays id
  begun g hg := hgeneration ▸ h.begun g hg
  running g o ho := hgeneration ▸ h.running g o ho
  committed x hx := hgeneration ▸ h.committed x (hrest x hx)
  staged := h.staged

theorem settle [LawfulStore σ] (h : Steady w) (place : Nat) : Steady (w.settle place) := by
  unfold Traffic.settle
  split
  · next generation effects hplace =>
    have hmem : (generation, effects) ∈ w.committed := List.mem_of_getElem? hplace
    have hleft : ∀ c ∈ w.committed.eraseIdx place, c ∈ w.committed :=
      fun _ => List.mem_of_mem_eraseIdx
    cases hm : effects.migrated with
    | true =>
      rw [CacheEffects.settle, if_pos hm]
      have hclear := h.clear
      refine ⟨.inr (.of_types_eq_empty rfl), fun c hc _ hg => ?_, hclear.begun, hclear.running,
        fun c hc => hclear.committed c (hleft c hc), h.staged⟩
      have hle := h.committed c (hleft c hc)
      change c.1 = w.cache.generation + 1 at hg
      omega
    | false =>
      rw [CacheEffects.settle, if_neg (by simp [hm])]
      have hstays := isMigrating_eraseIdx hplace hm
      by_cases hg : w.cache.generation = generation
      · refine h.told ?_ hleft hstays ?_
        · rw [TypeCache.fill, if_pos hg]
          exact TypeCache.generation_putAll _ _
        · rcases h.cache with hw | hcache
          · exact .inl (hstays hw)
          · exact (h.fills _ hmem hm hg.symm).imp hstays fun heffects => heffects.fill hcache _
      · -- it is too late
        rw [TypeCache.fill_stale hg]
        exact h.told rfl hleft hstays (h.cache.imp hstays id)
  · exact h

/-- **Every action keeps a service steady**, unless it goes on after half a migration. -/
theorem step [LawfulTypes σ] (h : Steady w) (config : ServiceConfig) {action : Action}
    (hwhole : ∀ a, action = .call a → a.tried = true → ∀ ts, a.request = .migrate ts →
      ReplacedWhole σ ts) : Steady (w.step config action) := by
  cases action with
  | begin => exact h.begin
  | enter place request => exact h.enter config place request
  | call a => exact h.call config (hwhole a rfl)
  | leave => exact h.leave
  | settle place => exact h.settle place
  | clear => exact h.clear

theorem run [LawfulTypes σ] (h : Steady w) (config : ServiceConfig) {actions : List Action}
    (hwhole : ∀ a, .call a ∈ actions → a.tried = true → ∀ ts, a.request = .migrate ts →
      ReplacedWhole σ ts) : Steady (w.run config actions) := by
  induction actions generalizing w with
  | nil => exact h
  | cons action rest ih =>
    rw [run_cons]
    refine ih (h.step config ?_) fun a ha => hwhole a (List.mem_cons_of_mem _ ha)
    rintro a rfl
    exact hwhole a List.mem_cons_self

end Steady

-- ---------------------------------------------------------------------------
-- Fills that come too late
-- ---------------------------------------------------------------------------

/-- Generations only grow. -/
theorem generation_le_step [LawfulStore σ] (config : ServiceConfig) (w : Traffic σ)
    (action : Action) : w.cache.generation ≤ (w.step config action).cache.generation := by
  cases action with
  | begin => exact Nat.le_refl _
  | enter place request =>
    show _ ≤ (w.enter config place request).cache.generation
    unfold enter
    split
    · simp only
      split <;> exact Nat.le_refl _
    · exact Nat.le_refl _
  | call a =>
    show _ ≤ (w.call config a).cache.generation
    unfold call
    split
    · next generation o _ =>
      have hcache : w.cache.generation ≤
          ((a.request.perform config).steps { o with cache := w.cache }).2.cache.generation := by
        rcases Request.cache_cases config a.request { o with cache := w.cache } with hc | hc
        · exact Nat.le_of_eq (congrArg TypeCache.generation hc).symm
        · rw [hc]
          exact Nat.le_succ _
      split
      · next hs => rwa [hs] at hcache
      · next hs => rwa [hs] at hcache
    · exact Nat.le_refl _
  | leave =>
    show _ ≤ w.leave.cache.generation
    unfold leave
    split
    · split <;> exact Nat.le_refl _
    · exact Nat.le_refl _
  | settle place =>
    show _ ≤ (w.settle place).cache.generation
    unfold settle
    split
    · next generation effects _ =>
      unfold CacheEffects.settle TypeCache.fill
      split
      · exact Nat.le_succ _
      · split
        · exact Nat.le_of_eq (TypeCache.generation_putAll _ _).symm
        · exact Nat.le_refl _
    · exact Nat.le_refl _
  | clear => exact Nat.le_succ _

theorem generation_le_run [LawfulStore σ] (config : ServiceConfig) (w : Traffic σ)
    (actions : List Action) : w.cache.generation ≤ (w.run config actions).cache.generation := by
  induction actions generalizing w with
  | nil => exact Nat.le_refl _
  | cons action rest ih => exact Nat.le_trans (generation_le_step config w action) (ih _)

omit [Store σ] in
/-- A call that remembers an older generation than the present one adds nothing to the cache. -/
theorem get?_settle_of_lt {w : Traffic σ} {place generation : Nat} {effects : CacheEffects}
    (hplace : w.committed[place]? = some (generation, effects))
    (hlt : generation < w.cache.generation) {name : String} {t : ItemType}
    (h : (w.settle place).cache.get? name = some t) : w.cache.get? name = some t := by
  rw [settle, hplace] at h
  simp only [CacheEffects.settle] at h
  split at h
  · simp [TypeCache.get?, TypeCache.clear] at h
  · rwa [TypeCache.fill_stale (by omega)] at h

/-- What it means that a cache which overlapping calls share is fresh. -/
structure Fresh (config : ServiceConfig) (w : Traffic σ) : Prop where
  /-- Unless a committed migration is still to clear it, the store holds what the cache says. -/
  reflects : w.isMigrating = false → w.cache.Reflects w.store
  /-- Whatever happens from here on, a call that read its generation before the cache was cleared
  for the last time brings nothing back. -/
  nothingBack : ∀ actions place generation effects name t,
    (w.run config actions).committed[place]? = some (generation, effects) →
    generation < w.cache.generation →
    ((w.run config actions).settle place).cache.get? name = some t →
    (w.run config actions).cache.get? name = some t

/-- **A cache that overlapping calls share is fresh at any time**, on a store of either kind and
however the calls overlap, if no call is an attempt at half a migration. -/
theorem fresh_run (b : Backend) (s : b.State) (config : ServiceConfig) (actions : List Action)
    (hwhole : ∀ a, .call a ∈ actions → a.isWhole b = true) :
    Fresh config ((start s).run config actions) where
  reflects hm := by
    have hsteady := (Steady.start s).run config fun a ha ht ts hts =>
      Attempt.replacedWhole (hwhole a ha) ht hts
    rcases hsteady.cache with hw | hcache
    · rw [hm] at hw
      exact absurd hw (by simp)
    · exact hcache
  nothingBack later place generation effects name t hplace hlt h := by
    have hle := generation_le_run config ((start s).run config actions) later
    exact get?_settle_of_lt hplace (Nat.lt_of_lt_of_le hlt hle) h

/-- The type of bugs with nothing but a summary. -/
def shortBug : ItemType := ⟨SystemType.bug, [⟨"summary", .string, true⟩]⟩

/-- A call that reads the type of bugs and tells the cache only after another call, which replaces
the type, has cleared it. -/
def lateFill : List Action :=
  [.begin, .begin,
   .enter 0 .new, .call ⟨.type SystemType.bug, false⟩, .leave,
   .enter 0 .new, .call ⟨.migrate [shortBug], false⟩, .leave,
   .settle 1, .settle 0]

/-- The type that was read before the migration does not come back. -/
theorem fresh_lateFill :
    (∀ a, .call a ∈ lateFill → a.isWhole .tables = true) ∧
      ((start Backend.tables.new).run .default lateFill).isMigrating = false ∧
      ((start Backend.tables.new).run .default lateFill).committed = [] ∧
      ((start Backend.tables.new).run .default lateFill).cache = ⟨∅, 1⟩ ∧
      Fresh .default ((start Backend.tables.new).run .default lateFill) := by
  have hwhole : ∀ a, .call a ∈ lateFill → a.isWhole .tables = true := by
    intro a ha
    simp only [lateFill, List.mem_cons, List.not_mem_nil, reduceCtorEq, Action.call.injEq,
      false_or, or_false] at ha
    rcases ha with rfl | rfl
    · rfl
    · rfl
  exact ⟨hwhole, by decide +kernel, by decide +kernel, by decide +kernel,
    fresh_run .tables Backend.tables.new .default lateFill hwhole⟩

-- ---------------------------------------------------------------------------
-- Half a migration
-- ---------------------------------------------------------------------------

/-- A call that reads the type of bugs, and one that goes on after a migration whose second type has
a name that no row may have. Nothing overlaps. -/
def halfMigrated : List Action :=
  [.begin, .enter 0 .new, .call ⟨.type SystemType.bug, false⟩, .leave, .settle 0,
   .begin, .enter 0 .new, .call ⟨.migrate [shortBug, { shortBug with name := "\x00" }], true⟩,
   .leave, .settle 0]

/-- The first type is replaced, and the cache keeps the one before. -/
theorem not_fresh_halfMigrated :
    ((start Backend.tables.new).run .default halfMigrated).isMigrating = false ∧
      ¬ Fresh .default ((start Backend.tables.new).run .default halfMigrated) := by
  have hidle : ((start Backend.tables.new).run .default halfMigrated).isMigrating = false := by
    decide +kernel
  refine ⟨hidle, fun h => ?_⟩
  have hcached : ((start Backend.tables.new).run .default halfMigrated).cache.get? SystemType.bug =
      ItemType.system.find? fun t => t.name = SystemType.bug := by
    decide +kernel
  have hheld := h.reflects hidle SystemType.bug _ hcached
  exact absurd (congrArg (fun r => (r.toOption.getD none).map fun t => t.fields.length) hheld)
    (by decide +kernel)

end Traffic

end Backlog
