import Backlog.Proofs.Writes
import Backlog.Script

/-!
# Histories

Clients come to a store one transaction after another: each brings the types it remembers, its
request and the calls it makes, and what it leaves in the store is what the next one finds. A
transaction that fails or whose request is withdrawn leaves the store as it was, so a history has
two readings: all calls that were made, each with the transaction before and after it, and those of
them that belong to a committed transaction.

The calls of one transaction follow each other without a gap, and so do the committed calls of a
whole history: each finds the store that the one before it left, and made of it what
`Request.Writes` allows. That is a `Trail`.

## Main results

* `Visit.trail` — the calls of a transaction are a trail from the store it found;
* `History.forall_calls_iff` — what all calls keep but the bad ones holds if there are no bad ones;
* `History.trail_committed` — the committed calls of a history are a trail through its states.
-/

namespace Backlog

-- ---------------------------------------------------------------------------
-- The calls of a script
-- ---------------------------------------------------------------------------

/-- A call with its answer, and the transaction before and after it. -/
structure Moment (σ ρ β : Type) where
  before : Open σ
  call : ρ
  answer : Except AccessError β
  after : Open σ

namespace Script

variable {σ ρ β : Type} {perform : ρ → Tx σ β}

/-- The calls that a script makes, up to the one that ends it. -/
def moments (perform : ρ → Tx σ β) : List (Attempt ρ) → Open σ → List (Moment σ ρ β)
  | [], _ => []
  | a :: rest, o =>
    match (perform a.request).steps o with
    | (.ok b, o') => ⟨o, a.request, .ok b, o'⟩ :: moments perform rest o'
    | (.error e, o') =>
      ⟨o, a.request, .error e, o'⟩ :: if a.tried then moments perform rest o' else []

section

variable {a : Attempt ρ} {o o' : Open σ} {b : β} {e : AccessError}

theorem moments_cons_ok (h : (perform a.request).steps o = (.ok b, o')) (rest : List (Attempt ρ)) :
    moments perform (a :: rest) o = ⟨o, a.request, .ok b, o'⟩ :: moments perform rest o' := by
  rw [moments, h]

theorem moments_cons_tried (h : (perform a.request).steps o = (.error e, o'))
    (ht : a.tried = true) (rest : List (Attempt ρ)) :
    moments perform (a :: rest) o = ⟨o, a.request, .error e, o'⟩ :: moments perform rest o' := by
  rw [moments, h]
  simp only [ht, if_true]

theorem moments_cons_error (h : (perform a.request).steps o = (.error e, o'))
    (ht : a.tried = false) (rest : List (Attempt ρ)) :
    moments perform (a :: rest) o = [⟨o, a.request, .error e, o'⟩] := by
  rw [moments, h]
  simp [ht]

end

/-- Every call is one of the attempts, and went from its transaction to the next one. -/
theorem mem_moments {m : Moment σ ρ β} {as : List (Attempt ρ)} {o : Open σ}
    (h : m ∈ moments perform as o) :
    (∃ a ∈ as, a.request = m.call) ∧ (perform m.call).steps m.before = (m.answer, m.after) := by
  induction as, o using induction perform with
  | nil o => simp [moments] at h
  | ok a rest o b o' hs ih =>
    rw [moments_cons_ok hs] at h
    rcases List.mem_cons.mp h with rfl | h
    · exact ⟨⟨a, List.mem_cons_self, rfl⟩, hs⟩
    · obtain ⟨⟨a', ha', hr⟩, hm⟩ := ih h
      exact ⟨⟨a', List.mem_cons_of_mem a ha', hr⟩, hm⟩
  | tried a rest o e o' hs ht ih =>
    rw [moments_cons_tried hs ht] at h
    rcases List.mem_cons.mp h with rfl | h
    · exact ⟨⟨a, List.mem_cons_self, rfl⟩, hs⟩
    · obtain ⟨⟨a', ha', hr⟩, hm⟩ := ih h
      exact ⟨⟨a', List.mem_cons_of_mem a ha', hr⟩, hm⟩
  | stopped a rest o e o' hs ht =>
    rw [moments_cons_error hs ht, List.mem_singleton] at h
    rw [h]
    exact ⟨⟨a, List.mem_cons_self, rfl⟩, hs⟩

/-- A script that succeeds tells the answers of all its calls. -/
theorem answers_run {as : List (Attempt ρ)} {o : Open σ} (h : (run perform as o).result = .ok ()) :
    (run perform as o).answers = (moments perform as o).map Moment.answer := by
  induction as, o using induction perform with
  | nil o => rfl
  | ok a rest o b o' hs ih =>
    rw [run_cons_ok hs] at h ⊢
    rw [moments_cons_ok hs, List.map_cons, ← ih h]
    rfl
  | tried a rest o e o' hs ht ih =>
    rw [run_cons_tried hs ht] at h ⊢
    rw [moments_cons_tried hs ht, List.map_cons, ← ih h]
    rfl
  | stopped a rest o e o' hs ht =>
    rw [run_cons_error hs ht] at h
    simp at h

/-- There are at most as many calls as attempts. -/
theorem length_moments_le (as : List (Attempt ρ)) (o : Open σ) :
    (moments perform as o).length ≤ as.length := by
  induction as, o using induction perform with
  | nil o => exact Nat.le_refl 0
  | ok a rest o b o' hs ih =>
    rw [moments_cons_ok hs]
    exact Nat.succ_le_succ ih
  | tried a rest o e o' hs ht ih =>
    rw [moments_cons_tried hs ht]
    exact Nat.succ_le_succ ih
  | stopped a rest o e o' hs ht =>
    rw [moments_cons_error hs ht]
    exact Nat.succ_le_succ (Nat.zero_le rest.length)

end Script

-- ---------------------------------------------------------------------------
-- Trails
-- ---------------------------------------------------------------------------

/-- Calls that follow each other from one store to another, each with the write that it made. -/
inductive Trail {σ : Type} [Store σ] : σ → List (Moment σ Request Reply) → σ → Prop
  | nil (s : σ) : Trail s [] s
  | cons {s s' : σ} {m : Moment σ Request Reply} {ms : List (Moment σ Request Reply)}
      (hfrom : m.before.store = s)
      (hw : Request.Writes m.before.store m.call m.answer m.after.store)
      (hrest : Trail m.after.store ms s') : Trail s (m :: ms) s'

theorem Trail.append {σ : Type} [Store σ] {s s' s'' : σ} {ms ms' : List (Moment σ Request Reply)}
    (h : Trail s ms s') (h' : Trail s' ms' s'') : Trail s (ms ++ ms') s'' := by
  induction h with
  | nil s => exact h'
  | cons hfrom hw _ ih => exact .cons hfrom hw (ih h')

/-- What is kept by all calls but the bad ones, and by none of these, holds after each call of a
trail exactly if none of them is bad, and then it holds at the end. -/
theorem Trail.forall_iff {σ : Type} [Store σ] {P : σ → Prop} {Bad : Moment σ Request Reply → Prop}
    (hstep : ∀ m : Moment σ Request Reply,
      Request.Writes m.before.store m.call m.answer m.after.store → P m.before.store →
        (P m.after.store ↔ ¬ Bad m))
    {s s' : σ} {ms : List (Moment σ Request Reply)} (h : Trail s ms s') (hs : P s) :
    ((∀ m ∈ ms, P m.after.store) ↔ ∀ m ∈ ms, ¬ Bad m) ∧ ((∀ m ∈ ms, ¬ Bad m) → P s') := by
  induction h with
  | nil s => exact ⟨by simp, fun _ => hs⟩
  | @cons s s' m ms hfrom hw _ ih =>
    subst hfrom
    have hhead := hstep m hw hs
    simp only [List.forall_mem_cons]
    by_cases hbad : Bad m
    · -- what comes behind the first bad call does not matter
      rw [hhead]
      exact ⟨iff_of_false (fun hall => hall.1 hbad) fun hall => hall.1 hbad,
        fun hall => absurd hbad hall.1⟩
    · obtain ⟨hrest, hend⟩ := ih (hhead.mpr hbad)
      rw [hhead, hrest]
      exact ⟨Iff.rfl, fun hall => hend hall.2⟩

/-- What every call of a trail keeps holds before and after each of them, and at the end. -/
theorem Trail.kept {σ : Type} [Store σ] {P : σ → Prop} {s s' : σ}
    {ms : List (Moment σ Request Reply)} (h : Trail s ms s') (hs : P s)
    (hstep : ∀ m ∈ ms, P m.before.store → P m.after.store) :
    (∀ m ∈ ms, P m.before.store ∧ P m.after.store) ∧ P s' := by
  induction h with
  | nil s => exact ⟨by simp, hs⟩
  | @cons s s' m ms hfrom hw _ ih =>
    subst hfrom
    obtain ⟨hhead, hrest⟩ := List.forall_mem_cons.mp hstep
    obtain ⟨hcalls, hend⟩ := ih (hhead hs) hrest
    exact ⟨List.forall_mem_cons.mpr ⟨⟨hs, hhead hs⟩, hcalls⟩, hend⟩

/-- The calls of a script are a trail from the store it began with to the store it ends with. -/
theorem Script.trail_moments {σ : Type} [Store σ] [LawfulStore σ] (config : ServiceConfig)
    (as : List (Attempt Request)) (o : Open σ) :
    Trail o.store (moments (Request.perform config) as o)
      (run (Request.perform config) as o).state.store := by
  induction as, o using Script.induction (Request.perform config : Request → Tx σ Reply) with
  | nil o => exact .nil o.store
  | ok a rest o b o' hs ih =>
    rw [moments_cons_ok hs, run_cons_ok hs]
    exact .cons rfl (Request.writes config a.request hs) ih
  | tried a rest o e o' hs ht ih =>
    rw [moments_cons_tried hs ht, run_cons_tried hs ht]
    exact .cons rfl (Request.writes config a.request hs) ih
  | stopped a rest o e o' hs ht =>
    rw [moments_cons_error hs ht, run_cons_error hs ht]
    exact .cons rfl (Request.writes config a.request hs) (.nil o'.store)

-- ---------------------------------------------------------------------------
-- Transactions of clients
-- ---------------------------------------------------------------------------

/-- A client with a transaction: the types it remembers, its settings, its request, its calls. -/
structure Visit where
  cache : TypeCache
  config : ServiceConfig
  request : Cancellation
  calls : List (Attempt Request)

/-- A call that migrates no types. -/
def Request.IsPlain (q : Request) : Prop := ∀ ts, q ≠ .migrate ts

namespace Visit

variable {σ : Type} [Store σ]

/-- A transaction whose calls migrate no types. -/
def IsPlain (v : Visit) : Prop := ∀ a ∈ v.calls, a.request.IsPlain

/-- The service that a client works with. -/
def service (v : Visit) (s : σ) : Service σ := ⟨s, v.cache, v.config⟩

/-- What comes of the transaction. -/
def transcript (v : Visit) (s : σ) : Transcript σ Reply :=
  (v.service s).script v.request (Request.perform v.config) v.calls

/-- The store that the transaction leaves. -/
def after (v : Visit) (s : σ) : σ := (v.transcript s).service.store

/-- Whether the transaction was committed. -/
def commits (v : Visit) (s : σ) : Bool := (v.transcript s).result.isOk

/-- The calls that were made. -/
def moments (v : Visit) (s : σ) : List (Moment σ Request Reply) :=
  match (v.service s).begin v.request with
  | .error _ => []
  | .ok o => Script.moments (Request.perform v.config) v.calls o

/-- A transaction that is not committed leaves the store as it was. -/
theorem after_eq_of_not_commits {v : Visit} {s : σ} (h : v.commits s = false) :
    v.after s = s := by
  unfold commits at h
  unfold after
  unfold transcript Service.script at h ⊢
  cases hb : (v.service s).begin v.request with
  | error e => rfl
  | ok o =>
    simp only [hb] at h ⊢
    unfold Service.finish at h ⊢
    split at h
    · rfl
    · simp [Except.isOk, Except.toBool] at h

omit [Store σ] in
theorem begin_ok {v : Visit} {s : σ} {o : Open σ} (h : (v.service s).begin v.request = .ok o) :
    o = { store := s, request := v.request, cache := v.cache, effects := .none } := by
  unfold Service.begin at h
  split at h
  · exact (Except.ok.inj h).symm
  · simp at h

/-- **The calls of a transaction are a trail from the store it found**, and a trail to the store it
leaves if it is committed. -/
theorem trail [LawfulStore σ] (v : Visit) (s : σ) :
    ∃ s', Trail s (v.moments s) s' ∧ (v.commits s = true → v.after s = s') := by
  unfold moments commits after transcript Service.script
  cases hb : (v.service s).begin v.request with
  | error e => exact ⟨s, .nil s, fun h => by simp [Except.isOk, Except.toBool] at h⟩
  | ok o =>
    have htrail := Script.trail_moments v.config v.calls o
    rw [begin_ok hb] at htrail ⊢
    refine ⟨_, htrail, fun h => ?_⟩
    simp only at h ⊢
    unfold Service.finish at h ⊢
    split at h
    · simp [Except.isOk, Except.toBool] at h
    · rfl

/-- What every call of a transaction keeps holds before and after each of them, and of what the
transaction leaves. -/
theorem kept [LawfulStore σ] {P : σ → Prop} {v : Visit} {s : σ} (h : P s)
    (hstep : ∀ m ∈ v.moments s, P m.before.store → P m.after.store) :
    (∀ m ∈ v.moments s, P m.before.store ∧ P m.after.store) ∧ P (v.after s) := by
  obtain ⟨s', htrail, hcommits⟩ := v.trail s
  obtain ⟨hmoments, hend⟩ := htrail.kept h hstep
  refine ⟨hmoments, ?_⟩
  cases hc : v.commits s with
  | true => exact hcommits hc ▸ hend
  | false => exact (after_eq_of_not_commits hc).symm ▸ h

/-- Every call of a transaction was asked for. -/
theorem call_mem {v : Visit} {s : σ} {m : Moment σ Request Reply} (h : m ∈ v.moments s) :
    ∃ a ∈ v.calls, a.request = m.call := by
  unfold moments at h
  split at h
  · simp at h
  · exact (Script.mem_moments h).1

/-- Every call of a transaction went from its transaction to the next one. -/
theorem steps_of_mem {v : Visit} {s : σ} {m : Moment σ Request Reply} (h : m ∈ v.moments s) :
    (m.call.perform v.config).steps m.before = (m.answer, m.after) := by
  unfold moments at h
  split at h
  · simp at h
  · exact (Script.mem_moments h).2

theorem length_moments_le (v : Visit) (s : σ) : (v.moments s).length ≤ v.calls.length := by
  unfold moments
  split
  · exact Nat.zero_le _
  · exact Script.length_moments_le v.calls _

end Visit

-- ---------------------------------------------------------------------------
-- Histories of a store
-- ---------------------------------------------------------------------------

namespace History

variable {σ : Type} [Store σ]

/-- The committed states of a history, from the first to the last. -/
def states : σ → List Visit → List σ
  | s, [] => [s]
  | s, v :: vs => s :: states (v.after s) vs

/-- All calls of a history. -/
def calls : σ → List Visit → List (Moment σ Request Reply)
  | _, [] => []
  | s, v :: vs => v.moments s ++ calls (v.after s) vs

/-- The calls of the transactions that were committed. -/
def committed : σ → List Visit → List (Moment σ Request Reply)
  | _, [] => []
  | s, v :: vs => (if v.commits s then v.moments s else []) ++ committed (v.after s) vs

/-- The last state of a history. -/
def final : σ → List Visit → σ
  | s, [] => s
  | s, v :: vs => final (v.after s) vs

/-- The last state is a committed one. -/
theorem final_mem_states (s : σ) (vs : List Visit) : final s vs ∈ states s vs := by
  induction vs generalizing s with
  | nil => exact List.mem_singleton_self s
  | cons v vs ih => exact List.mem_cons_of_mem s (ih (v.after s))

/-- A history goes on where it stopped. -/
theorem final_append (s : σ) (vs later : List Visit) :
    final s (vs ++ later) = final (final s vs) later := by
  induction vs generalizing s with
  | nil => rfl
  | cons v vs ih => exact ih (v.after s)

/-- The calls of a history that goes on are those that were made and those that follow. -/
theorem calls_append (s : σ) (vs later : List Visit) :
    calls s (vs ++ later) = calls s vs ++ calls (final s vs) later := by
  induction vs generalizing s with
  | nil => rfl
  | cons v vs ih =>
    rw [List.cons_append, calls, calls, ih, List.append_assoc]
    rfl

/-- How many calls the clients of a history ask for. -/
def size : List Visit → Nat
  | [] => 0
  | v :: vs => v.calls.length + size vs

/-- The committed calls are among the calls. -/
theorem committed_sublist (s : σ) (vs : List Visit) : (committed s vs).Sublist (calls s vs) := by
  induction vs generalizing s with
  | nil => exact .refl _
  | cons v vs ih =>
    rw [committed, calls]
    refine List.Sublist.append ?_ (ih (v.after s))
    split
    · exact .refl _
    · exact List.nil_sublist _

theorem length_calls_le (s : σ) (vs : List Visit) : (calls s vs).length ≤ size vs := by
  induction vs generalizing s with
  | nil => exact Nat.le_refl 0
  | cons v vs ih =>
    have h := v.length_moments_le s
    have hrest := ih (v.after s)
    rw [calls, List.length_append, size]
    omega

theorem call_mem {m : Moment σ Request Reply} {s : σ} {vs : List Visit} (hm : m ∈ calls s vs) :
    ∃ v ∈ vs, ∃ a ∈ v.calls, a.request = m.call := by
  induction vs generalizing s with
  | nil => simp [calls] at hm
  | cons v vs ih =>
    rcases List.mem_append.mp hm with hm | hm
    · exact ⟨v, List.mem_cons_self, Visit.call_mem hm⟩
    · obtain ⟨v', hv', h⟩ := ih hm
      exact ⟨v', List.mem_cons_of_mem v hv', h⟩

/-- What is kept by all calls but the bad ones, and by none of these, holds after each call of a
history exactly if none of them is bad, and then it holds of all committed states. -/
theorem forall_calls_iff [LawfulStore σ] {P : σ → Prop} {Bad : Moment σ Request Reply → Prop}
    (hstep : ∀ m : Moment σ Request Reply,
      Request.Writes m.before.store m.call m.answer m.after.store → P m.before.store →
        (P m.after.store ↔ ¬ Bad m))
    {s : σ} (vs : List Visit) (hs : P s) :
    ((∀ m ∈ calls s vs, P m.after.store) ↔ ∀ m ∈ calls s vs, ¬ Bad m) ∧
      ((∀ m ∈ calls s vs, ¬ Bad m) → ∀ s' ∈ states s vs, P s') := by
  induction vs generalizing s with
  | nil =>
    refine ⟨by simp [calls], fun _ => ?_⟩
    rw [states, List.forall_mem_singleton]
    exact hs
  | cons v vs ih =>
    obtain ⟨s', htrail, hcommitted⟩ := v.trail s
    obtain ⟨hhere, hend⟩ := htrail.forall_iff hstep hs
    have hafter : (∀ m ∈ v.moments s, ¬ Bad m) → P (v.after s) := by
      intro hgood
      cases hc : v.commits s with
      | true => exact hcommitted hc ▸ hend hgood
      | false => exact (Visit.after_eq_of_not_commits hc).symm ▸ hs
    rw [calls, states, List.forall_mem_append, List.forall_mem_append, List.forall_mem_cons, hhere]
    refine ⟨and_congr_right fun hgood => (ih (hafter hgood)).1, ?_⟩
    rintro ⟨hgood, hrest⟩
    exact ⟨hs, (ih (hafter hgood)).2 hrest⟩

/-- Every call of a history did what it asks for, under the settings of its client. -/
theorem steps_of_mem_calls {s : σ} {vs : List Visit} {m : Moment σ Request Reply}
    (h : m ∈ calls s vs) :
    ∃ config, (m.call.perform config).steps m.before = (m.answer, m.after) := by
  induction vs generalizing s with
  | nil => simp [calls] at h
  | cons v vs ih =>
    rcases List.mem_append.mp h with hhere | hlater
    · exact ⟨v.config, Visit.steps_of_mem hhere⟩
    · exact ih hlater

/-- **The committed calls of a history are a trail from its first state to its last.** -/
theorem trail_committed [LawfulStore σ] (s : σ) (vs : List Visit) :
    Trail s (committed s vs) (final s vs) := by
  induction vs generalizing s with
  | nil => exact .nil s
  | cons v vs ih =>
    have hrest := ih (v.after s)
    rw [committed, final]
    cases hc : v.commits s with
    | true =>
      obtain ⟨s', htrail, hs'⟩ := v.trail s
      rw [hs' hc] at hrest ⊢
      exact htrail.append hrest
    | false =>
      rw [Visit.after_eq_of_not_commits hc] at hrest ⊢
      exact hrest

end History

end Backlog
