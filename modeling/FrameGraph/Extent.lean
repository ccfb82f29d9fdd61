/-!
# Extents

Width and height in pixels. A render target has at least one pixel on either
axis; `Extent.atLeastOne` is the clamp that says so. An extent itself may be
empty, because the size of a texture can be stated outright.
-/
namespace FrameGraph

structure Extent where
  width : Nat
  height : Nat
deriving DecidableEq, Repr

namespace Extent

/-- Both axes raised to one pixel where they are empty. -/
def atLeastOne (e : Extent) : Extent := ⟨max e.width 1, max e.height 1⟩

/-- The text `WxH`. -/
def text (e : Extent) : String := s!"{e.width}x{e.height}"

end Extent
end FrameGraph
