import Backlog.Proofs.Atomic
import Backlog.Proofs.History

/-!
# Transactions that do all or nothing

A client may go on after a call that failed, and its request may be withdrawn at any point, also
while a call is under way. Whatever happens, the transaction ends in one of two ways. If it fails,
the service is the one it began with: the types, the items, the iterations, the rows that are handed
out next, and the shared cache. If it is committed, the store is what the calls that succeeded make
of it when they are made in their order and nothing else is: the transaction that is its `replay`
gets the same answers and leaves the same store.

The replay runs beside the transaction, and the two stay alike: a call that fails in the transaction
leaves it alike, so it can be left out, and a call that succeeds does so in the replay too. The
replay looks at its request less often, but nobody withdraws it.

## Main results

* `Script.replay` — the calls that succeeded succeed by themselves;
* `Visit.allOrNothing` — what this means for a transaction on a store of either kind.
-/

namespace Backlog

open Tx

variable {σ : Type} [Store σ]

namespace Moment

/-- Whether a call is one of a repository and succeeded. -/
def isApplied (m : Moment σ Request Reply) : Bool := m.call.isRepositoryCall && m.answer.isOk

/-- The store gave up on a migration, perhaps half way. -/
def GaveUp (m : Moment σ Request Reply) : Prop :=
  ∃ ts fault, m.call = .migrate ts ∧ m.answer = .error (.internal fault)

/-- The attempt to make a call again. -/
def again (m : Moment σ Request Reply) : Attempt Request := ⟨m.call, false⟩

end Moment

-- ---------------------------------------------------------------------------
-- Scripts
-- ---------------------------------------------------------------------------

/-- What befalls a transaction from outside makes no difference to the calls that come. -/
theorem Request.alike_of_outside {config : ServiceConfig} {q : Request} {o o' : Open σ}
    {r : Except AccessError Reply} (hq : q.isRepositoryCall = false) (hcache : q ≠ .clearCache)
    (h : (perform config q : Tx σ Reply).steps o = (r, o')) : r.isOk = true ∧ Alike o o' := by
  cases q with
  | withdraw | withdrawAfter looks =>
    obtain ⟨rfl, rfl⟩ := Prod.mk.inj h
    exact ⟨rfl, .of_same rfl rfl rfl⟩
  | clearCache => exact absurd rfl hcache
  | _ => simp [isRepositoryCall] at hq

namespace Script

variable [LawfulStore σ] {config : ServiceConfig}

/-- A script that forgets nothing leaves the shared cache as it is. -/
theorem cache_run {as : List (Attempt Request)} {o : Open σ}
    (hcache : ∀ a ∈ as, a.request ≠ .clearCache) :
    (run (Request.perform config) as o).state.cache = o.cache := by
  induction as, o using Script.induction (Request.perform config : Request → Tx σ Reply) with
  | nil o => rfl
  | ok a rest o b o' hs ih =>
    have hstep := Request.cache_perform config (hcache a List.mem_cons_self) o
    rw [hs] at hstep
    rw [run_cons_ok hs]
    exact (ih fun a' ha' => hcache a' (List.mem_cons_of_mem a ha')).trans hstep
  | tried a rest o e o' hs ht ih =>
    have hstep := Request.cache_perform config (hcache a List.mem_cons_self) o
    rw [hs] at hstep
    rw [run_cons_tried hs ht]
    exact (ih fun a' ha' => hcache a' (List.mem_cons_of_mem a ha')).trans hstep
  | stopped a rest o e o' hs ht =>
    have hstep := Request.cache_perform config (hcache a List.mem_cons_self) o
    rw [hs] at hstep
    rw [run_cons_error hs ht]
    exact hstep

/-- **The calls that succeeded succeed by themselves**, in the same way and with the same effect: in
every transaction that is alike and stands. -/
theorem replay {as : List (Attempt Request)} {o o₂ : Open σ} (hlike : Alike o o₂)
    (hstands : Stands o₂) (hcache : ∀ a ∈ as, a.request ≠ .clearCache)
    (hok : (run (Request.perform config) as o).result = .ok ())
    (hwhole : ∀ m ∈ moments (Request.perform config) as o, ¬ m.GaveUp) :
    ∃ o₂', run (Request.perform config)
        (((moments (Request.perform config) as o).filter Moment.isApplied).map Moment.again) o₂ =
      ⟨((moments (Request.perform config) as o).filter Moment.isApplied).map Moment.answer,
        .ok (), o₂'⟩ ∧
      Alike (run (Request.perform config) as o).state o₂' ∧ Stands o₂' := by
  induction as, o using Script.induction (Request.perform config : Request → Tx σ Reply)
    generalizing o₂ with
  | nil o => exact ⟨o₂, rfl, hlike, hstands⟩
  | ok a rest o b o' hs ih =>
    have hrest : ∀ a' ∈ rest, a'.request ≠ .clearCache := by
      intro a' ha'
      exact hcache a' (List.mem_cons_of_mem a ha')
    rw [run_cons_ok hs] at hok ⊢
    rw [moments_cons_ok hs] at hwhole ⊢
    have hwhole' := fun m hm => hwhole m (List.mem_cons_of_mem _ hm)
    cases hrep : a.request.isRepositoryCall with
    | true =>
      -- the call succeeds in the replay too
      obtain ⟨o₁, hs₂, hlike', hstands'⟩ :=
        Request.follows config hrep o o₂ b o' hlike hstands hs
      obtain ⟨o₂', hrun, hend⟩ := ih hlike' hstands' hrest hok hwhole'
      have happlied : (⟨o, a.request, .ok b, o'⟩ : Moment σ Request Reply).isApplied = true := by
        simp [Moment.isApplied, hrep, Except.isOk, Except.toBool]
      refine ⟨o₂', ?_, hend⟩
      rw [List.filter_cons_of_pos happlied, List.map_cons, List.map_cons]
      rw [run_cons_ok (a := Moment.again _) hs₂, hrun]
      rfl
    | false =>
      have hsame := (Request.alike_of_outside hrep (hcache a List.mem_cons_self) hs).2
      have hleft : ¬ (⟨o, a.request, .ok b, o'⟩ : Moment σ Request Reply).isApplied = true := by
        simp [Moment.isApplied, hrep]
      rw [List.filter_cons_of_neg hleft]
      exact ih (hsame.symm.trans hlike) hstands hrest hok hwhole'
  | tried a rest o e o' hs ht ih =>
    have hrest : ∀ a' ∈ rest, a'.request ≠ .clearCache := by
      intro a' ha'
      exact hcache a' (List.mem_cons_of_mem a ha')
    rw [run_cons_tried hs ht] at hok ⊢
    rw [moments_cons_tried hs ht] at hwhole ⊢
    have hwhole' := fun m hm => hwhole m (List.mem_cons_of_mem _ hm)
    -- a call that fails is left out
    have hsame : Alike o o' := by
      cases hrep : a.request.isRepositoryCall with
      | true =>
        refine Request.alike_of_failed hrep hs fun ts fault hq he => ?_
        exact hwhole _ List.mem_cons_self ⟨ts, fault, hq, by rw [he]⟩
      | false => exact (Request.alike_of_outside hrep (hcache a List.mem_cons_self) hs).2
    have hleft : ¬ (⟨o, a.request, .error e, o'⟩ : Moment σ Request Reply).isApplied = true := by
      simp [Moment.isApplied, Except.isOk, Except.toBool]
    rw [List.filter_cons_of_neg hleft]
    exact ih (hsame.symm.trans hlike) hstands hrest hok hwhole'
  | stopped a rest o e o' hs ht =>
    rw [run_cons_error hs ht] at hok
    simp at hok

end Script

-- ---------------------------------------------------------------------------
-- Transactions
-- ---------------------------------------------------------------------------

namespace Visit

/-- The calls of repositories that succeeded. -/
def applied (v : Visit) (s : σ) : List (Moment σ Request Reply) :=
  (v.moments s).filter Moment.isApplied

/-- The transaction that makes only the calls that succeeded, and that nobody withdraws. -/
def replay (v : Visit) (s : σ) : Visit :=
  { v with request := .new, calls := (v.applied s).map Moment.again }

end Visit

/-- What it means that a transaction does all or nothing. -/
structure AllOrNothing (s : σ) (v : Visit) : Prop where
  /-- A transaction that fails leaves the service as it found it. -/
  nothing : v.commits s = false → (v.transcript s).service = v.service s
  /-- A call that fails leaves the store as it found it. -/
  silent : ∀ m ∈ v.moments s, m.answer.isOk = false → ¬ m.GaveUp → m.after.store = m.before.store
  /-- A committed transaction tells the answers of all its calls. -/
  told : v.commits s = true → (v.transcript s).answers = (v.moments s).map Moment.answer
  /-- A committed transaction leaves what the calls that succeeded make of the store. -/
  all : v.commits s = true → (∀ m ∈ v.moments s, ¬ m.GaveUp) →
    (v.replay s).commits s = true ∧
      ((v.replay s).transcript s).answers = (v.applied s).map Moment.answer ∧
      (v.replay s).after s = v.after s

namespace Visit

variable {v : Visit} {s : σ}

/-- How a script ended decides what becomes of its transaction. -/
theorem transcript_of_begin {o : Open σ} (hb : (v.service s).begin v.request = .ok o)
    {r : Script.Run σ Reply} (hr : Script.run (Request.perform v.config) v.calls o = r) :
    v.transcript s = ⟨r.answers, ((v.service s).finish v.cache.generation r.result r.state).1,
      ((v.service s).finish v.cache.generation r.result r.state).2⟩ := by
  unfold transcript Service.script
  rw [hb]
  simp only [hr]
  rfl

/-- A script that succeeds while its request stands is committed. -/
theorem transcript_of_ok {o : Open σ} (hb : (v.service s).begin v.request = .ok o)
    {answers : List (Except AccessError Reply)} {o' : Open σ}
    (hr : Script.run (Request.perform v.config) v.calls o = ⟨answers, .ok (), o'⟩)
    (hstands : o'.looked.request.isCancelled = false) :
    (v.transcript s).answers = answers ∧ v.commits s = true ∧ v.after s = o'.store := by
  have h := transcript_of_begin hb hr
  unfold commits after
  rw [h]
  simp [Service.finish, Service.outcome, hstands, Except.isOk, Except.toBool]

/-- A transaction that is committed began, and its script succeeded while its request stood. -/
theorem begin_of_commits (h : v.commits s = true) :
    ∃ o r, (v.service s).begin v.request = .ok o ∧
      Script.run (Request.perform v.config) v.calls o = r ∧ r.result = .ok () ∧
      r.state.looked.request.isCancelled = false := by
  match hb : (v.service s).begin v.request with
  | .error e =>
    unfold commits transcript Service.script at h
    rw [hb] at h
    simp [Except.isOk, Except.toBool] at h
  | .ok o =>
    refine ⟨o, _, rfl, rfl, ?_⟩
    unfold commits at h
    rw [transcript_of_begin hb rfl] at h
    generalize Script.run (Request.perform v.config) v.calls o = r at h ⊢
    cases hr : r.result with
    | error e => simp [Service.finish, Service.outcome, hr, Except.isOk, Except.toBool] at h
    | ok u =>
      refine ⟨rfl, ?_⟩
      cases hc : r.state.looked.request.isCancelled with
      | true => simp [Service.finish, Service.outcome, hr, hc, Except.isOk, Except.toBool] at h
      | false => rfl

theorem moments_of_begin {o : Open σ} (hb : (v.service s).begin v.request = .ok o) :
    v.moments s = Script.moments (Request.perform v.config) v.calls o := by
  unfold moments
  rw [hb]

variable [LawfulStore σ]

/-- A transaction that is not committed leaves the service as it was, if it forgets nothing. -/
theorem service_of_not_commits (hcalls : ∀ a ∈ v.calls, a.request ≠ .clearCache)
    (h : v.commits s = false) : (v.transcript s).service = v.service s := by
  match hb : (v.service s).begin v.request with
  | .error e =>
    unfold transcript Service.script
    rw [hb]
  | .ok o =>
    have hcache : (Script.run (Request.perform v.config) v.calls o).state.cache = o.cache :=
      Script.cache_run hcalls
    obtain ⟨r, hr⟩ : ∃ r, Script.run (Request.perform v.config) v.calls o = r := ⟨_, rfl⟩
    rw [hr, begin_ok hb] at hcache
    unfold commits at h
    rw [transcript_of_begin hb hr] at h ⊢
    change ((v.service s).finish v.cache.generation r.result r.state).1.isOk = false at h
    show ((v.service s).finish v.cache.generation r.result r.state).2 = v.service s
    unfold Service.finish at h ⊢
    split at h
    · rw [hcache]
      rfl
    · simp [Except.isOk, Except.toBool] at h

/-- The replay of a committed transaction is committed, with the answers of the calls that succeeded
and the same store. -/
theorem replay_of_commits (hcalls : ∀ a ∈ v.calls, a.request ≠ .clearCache)
    (h : v.commits s = true) (hwhole : ∀ m ∈ v.moments s, ¬ m.GaveUp) :
    (v.replay s).commits s = true ∧
      ((v.replay s).transcript s).answers = (v.applied s).map Moment.answer ∧
      (v.replay s).after s = v.after s := by
  obtain ⟨o, r, hb, hr, hok, hstands⟩ := begin_of_commits h
  have hmoments := moments_of_begin hb
  have hrun : Script.run (Request.perform v.config) v.calls o = ⟨r.answers, .ok (), r.state⟩ := by
    rw [hr, ← hok]
  obtain ⟨-, -, hafter⟩ := transcript_of_ok hb hrun hstands
  have ho := begin_ok hb
  have hb₂ : ((v.replay s).service s).begin (v.replay s).request =
      .ok { store := s, request := .new, cache := v.cache, effects := .none } := rfl
  rw [hmoments] at hwhole
  have hlike : Alike o
      { store := s, request := .new, cache := v.cache, effects := .none } := by
    rw [ho]
    exact .of_same rfl rfl rfl
  obtain ⟨o₂, hagain, hlike', hstands'⟩ :=
    Script.replay hlike ⟨rfl, rfl⟩ hcalls (by rw [hr, hok]) hwhole
  have hreplay : Script.run (Request.perform v.config) (v.replay s).calls
      { store := s, request := .new, cache := v.cache, effects := .none } =
        ⟨(v.applied s).map Moment.answer, .ok (), o₂⟩ := by
    show Script.run _ ((v.applied s).map Moment.again) _ = _
    rw [applied, hmoments]
    exact hagain
  obtain ⟨hanswers, hcommits, hafter₂⟩ := transcript_of_ok (v := v.replay s) hb₂ hreplay
    (by rw [hstands'.looked_eq]; exact hstands'.request)
  rw [hr] at hlike'
  exact ⟨hcommits, hanswers, by rw [hafter₂, hafter, hlike'.store]⟩

/-- **A transaction on a store of either kind does all or nothing**, whatever its client calls,
tries, and withdraws. -/
theorem allOrNothing (b : Backend) (s : b.State) (v : Visit)
    (hcalls : ∀ a ∈ v.calls, a.request ≠ .clearCache) : AllOrNothing s v where
  nothing := service_of_not_commits hcalls
  silent m hm hfailed hwhole := by
    obtain ⟨e, he⟩ : ∃ e, m.answer = .error e := by
      cases hr : m.answer with
      | ok b => simp [hr, Except.isOk, Except.toBool] at hfailed
      | error e => exact ⟨e, rfl⟩
    obtain ⟨o, hb, hm⟩ : ∃ o, (v.service s).begin v.request = .ok o ∧
        m ∈ Script.moments (Request.perform v.config) v.calls o := by
      unfold moments at hm
      split at hm
      · simp at hm
      · next o hb => exact ⟨o, hb, hm⟩
    obtain ⟨-, hstep⟩ := Script.mem_moments hm
    rw [he] at hstep
    refine (Request.writes v.config m.call hstep).store_of_error fun ts fault hq hfault => ?_
    exact hwhole ⟨ts, fault, hq, by rw [he, hfault]⟩
  told h := by
    obtain ⟨o, r, hb, hr, hok, -⟩ := begin_of_commits h
    rw [transcript_of_begin hb hr, moments_of_begin hb, ← Script.answers_run (by rw [hr, hok]), hr]
  all := replay_of_commits hcalls

/-- A client that forgets the title of a bug, and then makes the bug with it. -/
def secondTry : Visit :=
  let untitled : Payload := .ofList [(SystemField.state, .string StateName.new)]
  ⟨∅, .default, .new,
    [⟨.create SystemType.bug untitled ⟨"ann"⟩, true⟩,
     ⟨.create SystemType.bug (untitled.insert SystemField.title (.string "crash")) ⟨"ann"⟩, false⟩]⟩

/-- The bug without a title leaves nothing behind: the other bug is the first item. -/
theorem allOrNothing_secondTry :
    (∀ a ∈ secondTry.calls, a.request ≠ .clearCache) ∧
      secondTry.commits Backend.tables.new = true ∧
      ((secondTry.moments Backend.tables.new).map fun m => m.answer.isOk) = [false, true] ∧
      ((secondTry.after Backend.tables.new).items.entries.map fun e => e.1) = [1] ∧
      AllOrNothing Backend.tables.new secondTry := by
  have hcalls : ∀ a ∈ secondTry.calls, a.request ≠ .clearCache := by simp [secondTry]
  exact ⟨hcalls, by decide +kernel, by decide +kernel, by decide +kernel,
    allOrNothing .tables Backend.tables.new secondTry hcalls⟩

end Visit

end Backlog
