import FrameGraph.Slots

/-!
# The ledger of a placement

Passes are placed from the end of the frame to its beginning. A demand is opened
for a buffer when its last consumer is placed and closed when its producer is;
in between it holds the buffer's slot and counts the consumers placed so far.
The slot a buffer got stays on record after its demand is closed.
-/
namespace FrameGraph

structure Demand where
  uses : Nat
  allocation : Allocation
deriving DecidableEq, Repr

structure Ledger where
  slots : SlotAllocator
  demands : List (Option Demand)
  openCount : Nat
  allocations : List (Option Allocation)
deriving DecidableEq, Repr

namespace Ledger

/-- No demand is open for any of `tableSize` buffers. -/
def blank (slots : SlotAllocator) (tableSize : Nat) : Ledger where
  slots := slots
  demands := List.replicate tableSize none
  openCount := 0
  allocations := List.replicate tableSize none

def demand? (l : Ledger) (b : Nat) : Option Demand := (l.demands[b]?).join

def allocation? (l : Ledger) (b : Nat) : Option Allocation := (l.allocations[b]?).join

/-- Open a demand with its first consumer. -/
def openDemand (l : Ledger) (b : Nat) (x : Allocation) : Ledger :=
  { l with
    demands := l.demands.set b (some ⟨1, x⟩)
    openCount := l.openCount + 1
    allocations := l.allocations.set b (some x) }

/-- Count one more consumer. -/
def addUse (l : Ledger) (b : Nat) (d : Demand) : Ledger :=
  { l with demands := l.demands.set b (some { d with uses := d.uses + 1 }) }

def closeDemand (l : Ledger) (b : Nat) : Ledger :=
  { l with
    demands := l.demands.set b none
    openCount := l.openCount - 1 }

def acquire (l : Ledger) (id : Nat) : Allocation × Ledger :=
  let (x, slots) := l.slots.acquire id
  (x, { l with slots := slots })

def releaseAll (l : Ledger) : List Allocation → Except GraphError Ledger
  | [] => .ok l
  | x :: rest => do
      let slots ← l.slots.release x
      { l with slots := slots }.releaseAll rest

/-- The buffers with an open demand, in the order of the table. -/
def openBuffers (l : Ledger) : List Nat :=
  (List.range l.demands.length).filter fun b => (l.demand? b).isSome

end Ledger
end FrameGraph
