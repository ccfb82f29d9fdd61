import FrameGraph.Backend
import FrameGraph.Description
import FrameGraph.Operator
import FrameGraph.Pools
import FrameGraph.Schedule

/-!
# Inventories

An inventory owns the resources behind a schedule. Reconciling it with a
schedule changes as little as possible: classes that are no longer needed lose
their resources, pools that are too large lose those of their last slots, pools
that are too small get new ones. Everything else stays in its slot.

Reconciling stops at the first resource that the backend refuses; what was
created before stays in the pools.
-/
namespace FrameGraph

structure Inventory where
  backend : Backend := {}
  pools : Pools := {}
  /-- The number of operators built so far. -/
  builtCount : Nat := 0
deriving Repr

namespace Inventory

def onBackend {α : Type} (a : Act Backend α) : Act Inventory α :=
  Act.on (·.backend) (fun i b => { i with backend := b }) a

def setPool (c : StorageClass) (resources : List Nat) : Act Inventory Unit :=
  Act.modify fun i => { i with pools := i.pools.set c resources }

/-- Drop the pool of a class with all its resources, the last slot first. -/
def dropPool (c : StorageClass) (resources : List Nat) : Act Inventory Unit := do
  Act.emit (.classDropped resources.length c)
  Act.modify fun i => { i with pools := i.pools.erase c }
  onBackend (Backend.destroyAll resources.reverse)

def dropPools : List (StorageClass × List Nat) → Act Inventory Unit
  | [] => pure ()
  | (c, resources) :: rest => do
      dropPool c resources
      dropPools rest

/-- The pools of classes that a schedule does not need. -/
def stale (i : Inventory) (s : Schedule) : List (StorageClass × List Nat) :=
  i.pools.entries.filter fun e => s.peak e.1 == 0

/-- Destroy resources from the end of a pool as long as it is larger than needed.
The pool is listed with its last slot first; the answer is how many it lost. -/
def popSurplus (c : StorageClass) (needed : Nat) : List Nat → Act Inventory Nat
  | [] => return 0
  | last :: others =>
      if needed < (last :: others).length then do
        setPool c others.reverse
        Act.emit (.surplusFound last c)
        onBackend (Backend.destroy last)
        let lost ← popSurplus c needed others
        return lost + 1
      else return 0

/-- Create resources at the end of a pool as long as it is smaller than needed, in
at most so many rounds. The answer is how many it got. -/
def pushMissing (c : StorageClass) (needed : Nat) : Nat → Act Inventory Nat
  | 0 => return 0
  | rounds + 1 => do
      let i ← Act.get
      if (i.pools.resourcesOf c).length < needed then
        let resource ← onBackend (Backend.create c)
        Act.emit (.slotBacked resource c)
        setPool c (i.pools.resourcesOf c ++ [resource])
        let made ← pushMissing c needed rounds
        return made + 1
      else return 0

/-- Bring the pool of a class to the size it is needed in. The answer is how many
resources were created and how many destroyed. -/
def resize (c : StorageClass) (needed : Nat) : Act Inventory (Nat × Nat) := do
  let i ← Act.get
  setPool c (i.pools.resourcesOf c)
  let lost ← popSurplus c needed (i.pools.resourcesOf c).reverse
  let made ← pushMissing c needed needed
  return (made, lost)

def resizeAll : List (StorageClass × Nat) → Act Inventory (Nat × Nat)
  | [] => return (0, 0)
  | (c, needed) :: rest => do
      let (made, lost) ← resize c needed
      let (made', lost') ← resizeAll rest
      return (made + made', lost + lost')

def reconcile (s : Schedule) : Act Inventory Unit := do
  let i ← Act.get
  dropPools (i.stale s)
  let (made, lost) ← resizeAll s.peaks
  Act.modify fun i => { i with pools := i.pools.compact }
  let done ← Act.get
  Act.emit (.reconciled made lost done.pools.count)

def dispose : Act Inventory Unit := do
  let i ← Act.get
  Act.modify fun i => { i with pools := {} }
  onBackend (Backend.destroyAll (i.pools.entries.flatMap (·.2.reverse)))

def resolve (i : Inventory) (s : Schedule) (x : Allocation) : Except GraphError Nat :=
  match (s.class? x.classId).bind fun c => (i.pools.resourcesOf c)[x.slot]? with
  | some resource => .ok resource
  | none => .error (.inconsistent (.unbackedSlot x.slot x.classId))

/-- The slot of the port at a place of the declaration. -/
def slotAt (slots : List PortSlot) (place : Nat) : Option Allocation :=
  (slots.find? (·.port == place)).bind (·.allocation)

/-- The resources behind declared ports, from the port at `place` on. -/
def resolvePortsFrom (i : Inventory) (s : Schedule) (slots : List PortSlot) (place : Nat) :
    List Port → Except GraphError (List (String × Option Nat))
  | [] => .ok []
  | p :: rest => do
      let resource ← (slotAt slots place).mapM (i.resolve s)
      let tail ← i.resolvePortsFrom s slots (place + 1) rest
      return (p.name, resource) :: tail

/-- The resources behind the ports of a phase's operation. -/
def resolvePorts (i : Inventory) (s : Schedule) (op : Operation) (p : Phase) :
    Except GraphError ResolvedPorts := do
  let inputs ← i.resolvePortsFrom s p.inputs 0 op.inputs
  let outputs ← i.resolvePortsFrom s p.outputs 0 op.outputs
  return ⟨inputs, outputs⟩

/-- The accesses through the ports that have both a resource and a buffer. -/
def accesses (ports : List Port) (resolved : List (String × Option Nat)) : List Access :=
  (ports.zip resolved).filterMap fun (p, (_, resource?)) => do
    let resource ← resource?
    let buffer ← p.buffer?
    return ⟨p.name, resource, buffer⟩

def build (d : Description) (s : Schedule) (p : Phase) : Act Inventory Operator := do
  let i ← Act.get
  let op := d.operations.getD p.operation { name := p.name }
  let ports ← Act.ofExcept (i.resolvePorts s op p)
  Act.modify fun i => { i with builtCount := i.builtCount + 1 }
  Act.emit (.built i.builtCount op.name ports)
  return ⟨i.builtCount, p.name, accesses op.inputs ports.inputs,
    accesses op.outputs ports.outputs⟩

def buildAll (d : Description) (s : Schedule) : List Phase → Act Inventory (List Operator)
  | [] => pure []
  | p :: rest => do
      let op ← build d s p
      let ops ← buildAll d s rest
      return op :: ops

def instantiate (d : Description) (s : Schedule) : Act Inventory (List Operator) :=
  buildAll d s s.phases

end Inventory
end FrameGraph
