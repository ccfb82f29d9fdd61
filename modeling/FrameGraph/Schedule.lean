import FrameGraph.Slots

/-!
# Schedules

The result of a compilation: phases in execution order, each with the slot of
every buffer its operation reads or writes, and for each storage class the
number of slots the frame needs. An output without a slot is discarded.
-/
namespace FrameGraph

/-- The slot of the buffer at a port; `port` is the place in the declaration. -/
structure PortSlot where
  port : Nat
  buffer : Nat
  allocation : Option Allocation
deriving DecidableEq, Repr

structure Phase where
  operation : Nat
  name : String
  inputs : List PortSlot
  outputs : List PortSlot
deriving DecidableEq, Repr

namespace Phase

def slotOf (ports : List PortSlot) (b : Nat) : Option Allocation :=
  (ports.find? (·.buffer == b)).bind (·.allocation)

/-- The slot from which the phase reads a buffer. -/
def input (p : Phase) (b : Nat) : Option Allocation := slotOf p.inputs b

/-- The slot into which the phase writes a buffer. -/
def output (p : Phase) (b : Nat) : Option Allocation := slotOf p.outputs b

end Phase

structure Schedule where
  phases : List Phase
  peaks : List (StorageClass × Nat)
  allocations : List (Option Allocation)
  resolution : Extent
deriving DecidableEq, Repr

namespace Schedule

def operationNames (s : Schedule) : List String := s.phases.map (·.name)

/-- The first phase of an operation with a name. -/
def position? (s : Schedule) (name : String) : Option Nat := s.phases.findIdx? (·.name == name)

def class? (s : Schedule) (id : Nat) : Option StorageClass := s.peaks[id]?.map (·.1)

def peak (s : Schedule) (c : StorageClass) : Nat :=
  ((s.peaks.find? (·.1 == c)).map (·.2)).getD 0

def resourceCount (s : Schedule) : Nat := s.peaks.foldl (fun total e => total + e.2) 0

/-- The slot of a buffer that takes part in the frame. -/
def allocation (s : Schedule) (b : Nat) : Option Allocation := (s.allocations[b]?).join

end Schedule
end FrameGraph
