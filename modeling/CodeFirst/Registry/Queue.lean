import CodeFirst.Registry.Basic
import CodeFirst.Report.BuildError

/-! Declarations may refer to entities that are not registered yet. Each of them is queued, and the
queue is run into the registry once all of them are there. -/

namespace CodeFirst

/-- A step that changes the registry and may fail after some of its changes. -/
abbrev Registration := Registry → Logged (Registry × Except BuildError Unit)

structure Deferral where
  /-- The entity whose declaration queued the step. -/
  owner : Option EntityId
  action : Registration

structure Queue where
  deferrals : List Deferral

namespace Queue

def empty : Queue := ⟨[]⟩

instance : EmptyCollection Queue := ⟨empty⟩
instance : Inhabited Queue := ⟨empty⟩

def size (q : Queue) : Nat := q.deferrals.length
def isEmpty (q : Queue) : Bool := q.deferrals.isEmpty

def enqueue (q : Queue) (d : Deferral) : Queue := ⟨q.deferrals ++ [d]⟩

/-- Drops what an entity queued; also returns how many steps that were. -/
def discard (q : Queue) (owner : EntityId) : Queue × Nat :=
  let kept := q.deferrals.filter (·.owner != some owner)
  (⟨kept⟩, q.deferrals.length - kept.length)

def ownerName (r : Registry) (owner : Option EntityId) : String :=
  owner.elim "<global>" r.entityName

/-- Runs steps in order until one fails; `executed` counts those that ran before. The error of a
failing step is attributed to the step's owner. -/
def run (executed : Nat) : List Deferral → Registry → Logged (Registry × Except BuildError Nat)
  | [], r => do
    Logged.tell (.drained executed)
    return (r, .ok executed)
  | d :: rest, r => do
    let (r, result) ← d.action r
    match result with
    | .error e =>
      let owner := ownerName r d.owner
      Logged.tell (.deferredFailed owner e.message)
      return (r, .error (.deferred owner e))
    | .ok () => run (executed + 1) rest r

/-- Runs every queued step once, in order, and empties the queue. Steps behind a failing one are
dropped. -/
def drain (q : Queue) (r : Registry) : Logged (Queue × Registry × Except BuildError Nat) := do
  let (r, result) ← run 0 q.deferrals r
  return (∅, r, result)

end Queue

end CodeFirst
