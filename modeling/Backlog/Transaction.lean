import Backlog.Cache
import Backlog.Cancellation
import Backlog.Config
import Backlog.Store

/-!
# Transactions

A transaction works on the store as it was when the transaction began. If its body succeeds and
the request still stands, the store that the body left becomes the store of the service, and the
types that the body staged go to the cache; otherwise everything stays as it was. A body may go on
after a step that failed. Whoever made the request may withdraw it at any time, also while a step is
under way: the transaction notices that the next time it looks.

## Main statements

* `Service.finish_error` — a body that failed changes nothing but what it did to the cache itself;
* `Service.finish_cancelled` — neither does a body whose request was withdrawn;
* `Service.store_finish_ok` — the store of a body that succeeded is kept.
-/

namespace Backlog

/-- A transaction that is open: the store it works on, the request, the cache that all
transactions share, and what it will do to that cache. -/
structure Open (σ : Type) where
  store : σ
  request : Cancellation
  cache : TypeCache
  effects : CacheEffects
  /-- How many more looks find the request standing, if someone is about to withdraw it. -/
  notice : Option Nat := none

namespace Open

variable {σ : Type}

/-- The transaction after one more look at its request. -/
def looked (o : Open σ) : Open σ :=
  match o.notice with
  | none => o
  | some 0 => { o with request := o.request.cancel }
  | some (n + 1) => { o with notice := some n }

/-- The transaction when someone withdraws its request after some more looks, if nobody does
before. -/
def withdrawnAfter (o : Open σ) (looks : Nat) : Open σ :=
  { o with notice := some ((o.notice.map (min looks)).getD looks) }

@[simp] theorem store_looked (o : Open σ) : o.looked.store = o.store := by
  unfold looked; split <;> rfl

@[simp] theorem cache_looked (o : Open σ) : o.looked.cache = o.cache := by
  unfold looked; split <;> rfl

@[simp] theorem effects_looked (o : Open σ) : o.looked.effects = o.effects := by
  unfold looked; split <;> rfl

end Open

/-- Steps of an open transaction. -/
abbrev Tx (σ : Type) := ExceptT AccessError (StateM (Open σ))

namespace Tx

variable {σ α : Type}

/-- Change the open transaction. -/
def update (f : Open σ → Open σ) : Tx σ Unit := fun o => (.ok (), f o)

/-- Look at the open transaction. -/
def look (f : Open σ → α) : Tx σ α := fun o => (.ok (f o), o)

/-- Take the outcome of a check. -/
def ofExcept (r : Except AccessError α) : Tx σ α := fun o => (r, o)

/-- Go on only while the request stands. -/
def proceed : Tx σ Unit := fun o => (o.looked.request.check, o.looked)

/-- Ask the store. -/
def ask (f : σ → Except StoreFault α) : Tx σ α := fun o =>
  match f o.store with
  | .ok a => (.ok a, o)
  | .error fault => (.error (.internal fault), o)

/-- Change the store. -/
def change (f : σ → Except StoreFault α × σ) : Tx σ α := fun o =>
  let r := f o.store
  match r.1 with
  | .ok a => (.ok a, { o with store := r.2 })
  | .error fault => (.error (.internal fault), { o with store := r.2 })

/-- Run the steps of a body. -/
def steps (body : Tx σ α) (o : Open σ) : Except AccessError α × Open σ := body o

end Tx

/-- A store, the cache of its types, and the settings. -/
structure Service (σ : Type) where
  store : σ
  cache : TypeCache
  config : ServiceConfig

namespace Service

variable {σ α : Type}

/-- A service that has not looked at any type yet. -/
def onStore (store : σ) (config : ServiceConfig) : Service σ := ⟨store, ∅, config⟩

/-- Open a transaction, if the request still stands. -/
def begin (s : Service σ) (request : Cancellation) : Except AccessError (Open σ) :=
  match request.check with
  | .ok () => .ok { store := s.store, request, cache := s.cache, effects := .none }
  | .error e => .error e

/-- Whether an outcome counts: a success of a request that was withdrawn does not. -/
def outcome (result : Except AccessError α) (o : Open σ) : Except AccessError α :=
  match result with
  | .error e => .error e
  | .ok a => if o.looked.request.isCancelled then .error .cancelled else .ok a

/-- Close a transaction that began in a generation of the cache. -/
def finish (s : Service σ) (generation : Nat) (result : Except AccessError α) (o : Open σ) :
    Except AccessError α × Service σ :=
  -- only what was done to the cache itself outlives a failure
  match outcome result o with
  | .error e => (.error e, { s with cache := o.cache })
  | .ok a => (.ok a, { s with store := o.store, cache := o.effects.settle generation o.cache })

/-- Run a body as one transaction. -/
def transactional (s : Service σ) (request : Cancellation) (body : Tx σ α) :
    Except AccessError α × Service σ :=
  match s.begin request with
  | .error e => (.error e, s)
  | .ok o =>
    let r := body.steps o
    s.finish s.cache.generation r.1 r.2

/-! ## Laws -/

/-- A body that failed changes nothing but what it did to the cache itself. -/
theorem finish_error (s : Service σ) (generation : Nat) (e : AccessError) (o : Open σ) :
    s.finish generation (.error e : Except AccessError α) o =
      (.error e, { s with cache := o.cache }) := rfl

/-- Neither does a body whose request was withdrawn. -/
theorem finish_cancelled (s : Service σ) (generation : Nat) (a : α) {o : Open σ}
    (h : o.looked.request.isCancelled = true) :
    s.finish generation (.ok a) o = (.error .cancelled, { s with cache := o.cache }) := by
  simp [finish, outcome, h]

/-- The store of a body that succeeded is kept. -/
theorem store_finish_ok (s : Service σ) (generation : Nat) (a : α) {o : Open σ}
    (h : o.looked.request.isCancelled = false) :
    (s.finish generation (.ok a) o).2.store = o.store := by
  simp [finish, outcome, h]

end Service

end Backlog
