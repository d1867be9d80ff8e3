import Backlog.Request
import Backlog.Store.Contested
import Backlog.Store.Request

/-!
# Scripts

A script is the body of a transaction as a list of requests. A request may be tried: then the
script goes on when it fails. The answers are kept up to the request that ended the script, also
when the transaction is rolled back after all.

## Main statements

* `Script.run_append` — running two scripts in a row is running the second where the first ended;
* `Script.run_cons_ok` — a request that succeeds is followed by the rest.
-/

namespace Backlog

/-- A request, and whether the script goes on when it fails. -/
structure Attempt (ρ : Type) where
  request : ρ
  tried : Bool

/-- The answers of a script, how it ended, and the transaction it leaves. -/
structure Script.Run (σ β : Type) where
  answers : List (Except AccessError β)
  result : Except AccessError Unit
  state : Open σ

namespace Script

variable {σ ρ β : Type}

/-- Put an answer in front of a run. -/
def Run.after (answer : Except AccessError β) (r : Run σ β) : Run σ β :=
  { r with answers := answer :: r.answers }

/-- Run requests in order, up to one that fails without being tried. -/
def run (perform : ρ → Tx σ β) : List (Attempt ρ) → Open σ → Run σ β
  | [], o => ⟨[], .ok (), o⟩
  | a :: rest, o =>
    match (perform a.request).steps o with
    | (.ok b, o') => (run perform rest o').after (.ok b)
    | (.error e, o') =>
      if a.tried then (run perform rest o').after (.error e) else ⟨[], .error e, o'⟩

/-- A request that succeeds is followed by the rest. -/
theorem run_cons_ok {perform : ρ → Tx σ β} {a : Attempt ρ} {o o' : Open σ} {b : β}
    (h : (perform a.request).steps o = (.ok b, o')) (rest : List (Attempt ρ)) :
    run perform (a :: rest) o = (run perform rest o').after (.ok b) := by
  rw [run, h]

/-- A request that fails while it is tried is followed by the rest. -/
theorem run_cons_tried {perform : ρ → Tx σ β} {a : Attempt ρ} {o o' : Open σ} {e : AccessError}
    (h : (perform a.request).steps o = (.error e, o')) (ht : a.tried = true)
    (rest : List (Attempt ρ)) :
    run perform (a :: rest) o = (run perform rest o').after (.error e) := by
  rw [run, h]
  simp only [ht, if_true]

/-- A request that fails without being tried ends the script. -/
theorem run_cons_error {perform : ρ → Tx σ β} {a : Attempt ρ} {o o' : Open σ} {e : AccessError}
    (h : (perform a.request).steps o = (.error e, o')) (ht : a.tried = false)
    (rest : List (Attempt ρ)) : run perform (a :: rest) o = ⟨[], .error e, o'⟩ := by
  rw [run, h]
  simp [ht]

/-- What holds at the end of a script, and holds before a request if it holds for the rest of the
script after it, holds of every script. -/
theorem induction (perform : ρ → Tx σ β) {P : List (Attempt ρ) → Open σ → Prop}
    (nil : ∀ o, P [] o)
    (ok : ∀ a rest o b o', (perform a.request).steps o = (.ok b, o') → P rest o' → P (a :: rest) o)
    (tried : ∀ a rest o e o', (perform a.request).steps o = (.error e, o') → a.tried = true →
      P rest o' → P (a :: rest) o)
    (stopped : ∀ a rest o e o', (perform a.request).steps o = (.error e, o') → a.tried = false →
      P (a :: rest) o) (as : List (Attempt ρ)) (o : Open σ) : P as o := by
  induction as generalizing o with
  | nil => exact nil o
  | cons a rest ih =>
    rcases hs : (perform a.request).steps o with ⟨r, o'⟩
    cases r with
    | ok b => exact ok a rest o b o' hs (ih o')
    | error e =>
      cases ht : a.tried with
      | true => exact tried a rest o e o' hs ht (ih o')
      | false => exact stopped a rest o e o' hs ht

/-- What a script did, followed by what another one did from there. -/
def Run.andThen (r r' : Run σ β) : Run σ β := { r' with answers := r.answers ++ r'.answers }

/-- Running two scripts in a row is running the second where the first ended. -/
theorem run_append (perform : ρ → Tx σ β) (as bs : List (Attempt ρ)) (o : Open σ)
    (h : (run perform as o).result = .ok ()) :
    run perform (as ++ bs) o =
      (run perform as o).andThen (run perform bs (run perform as o).state) := by
  induction as, o using induction perform with
  | nil o => rfl
  | ok a rest o b o' hs ih =>
    rw [run_cons_ok hs] at h ⊢
    rw [List.cons_append, run_cons_ok hs, ih h]
    rfl
  | tried a rest o e o' hs ht ih =>
    rw [run_cons_tried hs ht] at h ⊢
    rw [List.cons_append, run_cons_tried hs ht, ih h]
    rfl
  | stopped a rest o e o' hs ht =>
    rw [run_cons_error hs ht] at h
    simp at h

end Script

/-- The answers of a script, how its transaction ended, and the service after it. -/
structure Transcript (σ β : Type) where
  answers : List (Except AccessError β)
  result : Except AccessError Unit
  service : Service σ

namespace Service

variable {σ ρ β : Type}

/-- Run a script as one transaction. -/
def script (s : Service σ) (request : Cancellation) (perform : ρ → Tx σ β)
    (attempts : List (Attempt ρ)) : Transcript σ β :=
  match s.begin request with
  | .error e => ⟨[], .error e, s⟩
  | .ok o =>
    let r := Script.run perform attempts o
    let ended := s.finish s.cache.generation r.result r.state
    ⟨r.answers, ended.1, ended.2⟩

/-- Run a script as one transaction against a rival. What it staged does not reach the cache;
whether it migrated types comes along. -/
def contestedScript [Store σ] (s : Service σ) (request : Cancellation) (rival : Rival)
    (attempts : List (Attempt Request)) : Transcript σ Reply × Bool :=
  match s.begin request with
  | .error e => (⟨[], .error e, s⟩, false)
  | .ok o =>
    let contested : Open (Contested σ) :=
      { store := ⟨o.store, rival⟩, request := o.request, cache := o.cache, effects := o.effects }
    let r := Script.run (Request.perform s.config) attempts contested
    let result := outcome r.result r.state
    let store := if result.isOk then r.state.store.store else s.store
    (⟨r.answers, result, { s with store := store, cache := r.state.cache }⟩,
      r.state.effects.migrated)

end Service

end Backlog
