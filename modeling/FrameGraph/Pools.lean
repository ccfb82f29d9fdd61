import FrameGraph.StorageClass

/-!
# Resource pools

For each storage class the resources behind its slots, slot by slot. Pools stand
in the order of their classes, so two tables with the same pools are equal. A
pool may be empty.
-/
namespace FrameGraph

structure Pools where
  entries : List (StorageClass × List Nat) := []
deriving DecidableEq, Repr

namespace Pools

def resourcesOf (p : Pools) (c : StorageClass) : List Nat :=
  ((p.entries.find? (·.1 == c)).map (·.2)).getD []

/-- Set the pool of a class among entries in the order of their classes. -/
def setEntry (c : StorageClass) (resources : List Nat) :
    List (StorageClass × List Nat) → List (StorageClass × List Nat)
  | [] => [(c, resources)]
  | (k, xs) :: rest =>
      if k = c then (c, resources) :: rest
      else if c.before k then (c, resources) :: (k, xs) :: rest
      else (k, xs) :: setEntry c resources rest

def set (p : Pools) (c : StorageClass) (resources : List Nat) : Pools :=
  ⟨setEntry c resources p.entries⟩

def erase (p : Pools) (c : StorageClass) : Pools := ⟨p.entries.filter (·.1 != c)⟩

/-- Forget the pools that are empty. -/
def compact (p : Pools) : Pools := ⟨p.entries.filter fun e => !e.2.isEmpty⟩

/-- All resources, pool by pool. -/
def resources (p : Pools) : List Nat := p.entries.flatMap (·.2)

def count (p : Pools) : Nat := p.resources.length

end Pools
end FrameGraph
