import FrameGraph.Act

/-!
# A backend without hardware

The backend hands out resources, numbered from zero and never reused, and keeps
the books on them. It can be given a capacity, beyond which it refuses to create
more.
-/
namespace FrameGraph

structure Backend where
  /-- The resources alive, in the order of their creation. -/
  live : List (Nat × StorageClass) := []
  nextId : Nat := 0
  createdCount : Nat := 0
  destroyedCount : Nat := 0
  capacity : Option Nat := none
deriving DecidableEq, Repr

namespace Backend

def name : String := "Dummy"

def withCapacity (b : Backend) (capacity : Nat) : Backend := { b with capacity := some capacity }

def isAlive (b : Backend) (resource : Nat) : Bool := b.live.any (·.1 == resource)

def liveCount (b : Backend) : Nat := b.live.length

def liveCountOf (b : Backend) (c : StorageClass) : Nat := b.live.countP (·.2 == c)

/-- The capacity that is used up, if it is. -/
def exhausted? (b : Backend) : Option Nat := b.capacity.filter (· ≤ b.live.length)

def create (c : StorageClass) : Act Backend Nat := do
  let b ← Act.get
  match b.exhausted? with
  | some capacity =>
      Act.emit (.refused c)
      Act.fail (.creationFailed (.capacityExhausted capacity c))
  | none =>
      Act.modify fun b =>
        { b with
          live := b.live ++ [(b.nextId, c)]
          nextId := b.nextId + 1
          createdCount := b.createdCount + 1 }
      Act.emit (.created b.nextId c)
      return b.nextId

def destroy (resource : Nat) : Act Backend Unit := do
  let b ← Act.get
  if b.isAlive resource then
    Act.modify fun b =>
      { b with
        live := b.live.filter (·.1 != resource)
        destroyedCount := b.destroyedCount + 1 }
    Act.emit (.destroyed resource)
  else Act.emit (.unknownDestroyed resource)

/-- Destroy the listed resources, one after another. -/
def destroyAll : List Nat → Act Backend Unit
  | [] => pure ()
  | resource :: rest => do
      destroy resource
      destroyAll rest

end Backend
end FrameGraph
