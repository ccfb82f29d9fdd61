import FrameGraph.Extent

/-!
# Configuration

The output resolution and the two weights of a placement's cost: how much new
storage counts, and how much storage in use counts.
-/
namespace FrameGraph

structure Config where
  resolution : Extent := ⟨1280, 720⟩
  capacityWeight : Int := 5
  countWeight : Int := 1
deriving DecidableEq, Repr

namespace Config

/-- Set the resolution; neither axis is ever empty. -/
def withResolution (c : Config) (resolution : Extent) : Config :=
  { c with resolution := resolution.atLeastOne }

end Config

/-- The version of the compiler. -/
def version : String := "0.1.0"

end FrameGraph
