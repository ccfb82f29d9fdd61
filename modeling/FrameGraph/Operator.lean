import FrameGraph.Act
import FrameGraph.Memory

/-!
# Operators

An operator carries out one operation of a frame on the resources it was built
with. On every frame it checks that each input still holds the buffer it is
meant to hold, and then records its own outputs. The memory it does this in is
shared by all operators and outlives them.

A crew is the operators installed at one time. A frame goes over them three
times: all prepare, all perform, all finalize.
-/
namespace FrameGraph

/-- A port with the resource behind it and the buffer it carries. -/
structure Access where
  port : String
  resource : Nat
  buffer : Nat
deriving DecidableEq, Repr

structure Operator where
  serial : Nat
  name : String
  reads : List Access
  writes : List Access
deriving DecidableEq, Repr

namespace Operator

/-- Whether the resource behind a port holds the buffer of the port. -/
def check (m : Memory Nat) (a : Access) : ReadCheck :=
  ⟨a.port, a.resource, m.read a.resource = some a.buffer⟩

def record (m : Memory Nat) (a : Access) : Memory Nat := m.write a.resource a.buffer

def apply (op : Operator) (m : Memory Nat) : Memory Nat := op.writes.foldl record m

/-- What is seen of the operator's performance on a memory. -/
def performance (op : Operator) (m : Memory Nat) : Event :=
  .performed op.serial op.name (op.reads.map (check m))
    (op.writes.map fun a => (a.port, a.resource))

end Operator

structure Crew where
  operators : List Operator := []
  frames : Nat := 0
  memory : Memory Nat := {}
deriving Repr

namespace Crew

def names (c : Crew) : List String := c.operators.map (·.name)

def retire : Act Crew Unit := do
  let c ← Act.get
  Act.emitAll (c.operators.map fun op => .retired op.serial op.name)
  Act.modify fun c => { c with operators := [] }

def install (operators : List Operator) : Act Crew Unit := do
  retire
  Act.emit (.installed operators.length)
  Act.modify fun c => { c with operators := operators }

def performAll : List Operator → Act Crew Unit
  | [] => pure ()
  | op :: rest => do
      let c ← Act.get
      Act.emit (op.performance c.memory)
      Act.modify fun c => { c with memory := op.apply c.memory }
      performAll rest

/-- One frame. -/
def execute : Act Crew Unit := do
  let c ← Act.get
  Act.emit (.frameStarted c.frames c.operators.length)
  Act.emitAll (c.operators.map fun op => .prepared op.serial op.name)
  performAll c.operators
  Act.emitAll (c.operators.map fun op => .finalized op.serial op.name)
  Act.modify fun c => { c with frames := c.frames + 1 }

end Crew
end FrameGraph
