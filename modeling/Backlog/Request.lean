import Backlog.Iterations
import Backlog.WorkItems

/-!
# Requests

Everything a client can ask of an open transaction, as a value. So the body of a transaction can be
a list of requests, and what happens in a transaction can be said for every list.

## Main statements

* `Request.perform_refuse` — a refused request fails and changes nothing.
-/

namespace Backlog

/-- A request of a client. -/
inductive Request
  | create (typeName : String) (fields : Payload) (creator : Identity)
  | load (id : ItemId)
  | save (change : WorkItemUpdate)
  | delete (id : ItemId)
  | list (filter : String) (offset : Option String) (limit : Option Int64)
  | listFiltered (filter : Filter) (page : PageRequest)
  | type (name : String)
  | types
  | publish (t : ItemType)
  | migrate (ts : List ItemType)
  | createIteration (i : Iteration)
  | createChild (parent : IterationId) (name : String) (startAt endAt : Option Timestamp)
  | loadIteration (id : IterationId)
  | listIterations (space : String)
  | saveIteration (i : Iteration)
  | canStart (i : Iteration)
  | counts (space : String)
  | views (space : String)
  | withdraw
  | withdrawAfter (looks : Nat)
  | clearCache
  | cached (name : String)
  | refuse (e : AccessError)
  deriving DecidableEq

/-- The answer to a request. -/
inductive Reply
  | done
  | item (i : WorkItem)
  | page (p : ItemPage)
  | type (t : ItemType)
  | types (ts : List ItemType)
  | iteration (i : Iteration)
  | iterations (is : List Iteration)
  | counts (planned : List (IterationId × IterationCounts))
  | views (vs : List ResourceView)
  | cached (t : Option ItemType)
  deriving DecidableEq

namespace Request

variable {σ : Type} [Store σ]

/-- Do what a request asks for. -/
def perform (config : ServiceConfig) : Request → Tx σ Reply
  | .create typeName fields creator => return .item (← WorkItems.create typeName fields creator)
  | .load id => return .item (← WorkItems.load id)
  | .save change => return .item (← WorkItems.save change)
  | .delete id => do
    WorkItems.delete id
    return .done
  | .list filter offset limit => return .page (← WorkItems.list config.paging filter offset limit)
  | .listFiltered filter page => return .page (← WorkItems.listFiltered filter page)
  | .type name => return .type (← WorkItems.type name)
  | .types => return .types (← WorkItems.types)
  | .publish t => return .type (← WorkItems.publish t)
  | .migrate ts => do
    WorkItems.migrate ts
    return .done
  | .createIteration i => return .iteration (← Iterations.create i)
  | .createChild parent name startAt endAt =>
    return .iteration (← Iterations.createChild parent name startAt endAt)
  | .loadIteration id => return .iteration (← Iterations.load id)
  | .listIterations space => return .iterations (← Iterations.list space)
  | .saveIteration i => return .iteration (← Iterations.save i)
  | .canStart i => do
    Iterations.canStart i
    return .done
  | .counts space => return .counts (← Iterations.counts space)
  | .views space => return .views (← Iterations.views config.api space)
  | .withdraw => do
    Tx.update fun o => { o with request := o.request.cancel }
    return .done
  -- someone withdraws the request while a later step is under way
  | .withdrawAfter looks => do
    Tx.update fun o => o.withdrawnAfter looks
    return .done
  | .clearCache => do
    Tx.update fun o => { o with cache := o.cache.clear }
    return .done
  | .cached name => return .cached (← Tx.look fun o => o.cache.get? name)
  | .refuse e => throw e

/-- A refused request fails and changes nothing. -/
theorem perform_refuse (config : ServiceConfig) (e : AccessError) (o : Open σ) :
    (perform config (.refuse e)).steps o = (.error e, o) := rfl

end Request

end Backlog
