import FrameGraph.Single
import FrameGraph.StorageClass

/-!
# Logical buffers

A buffer of a frame description has a name and either the size and format of a
texture or no content at all. A size is stated outright or as a share of the
output resolution; the share is a single precision number, and so is the
product with the resolution, whose whole part is the extent.
-/
namespace FrameGraph

inductive Size where
  | absolute (extent : Extent)
  | relative (width height : Single)
deriving DecidableEq, Repr

namespace Size

/-- The longest axis a resolved size can have. -/
def axisLimit : Nat := Nat.pow 2 32 - 1

/-- The output resolution itself. -/
def full : Size := .relative .one .one

/-- The share of one part in `divisor`; a divisor of zero counts as one. -/
def divided (divisor : Nat) : Size :=
  let share := (Single.ofNat (max divisor 1)).reciprocal
  .relative share share

/-- The whole part of one axis multiplied by its share. -/
def scaleAxis (axis : Nat) (share : Single) : Nat :=
  ((Single.ofNat axis).mul share).truncateTo axisLimit

/-- The extent at a resolution. Shares never leave an axis empty; a stated
extent is taken as it is. -/
def resolve (resolution : Extent) : Size → Extent
  | .absolute extent => extent
  | .relative width height =>
      Extent.atLeastOne ⟨scaleAxis resolution.width width, scaleAxis resolution.height height⟩

end Size

inductive BufferKind where
  | texture (size : Size) (format : Format)
  | dummy
deriving DecidableEq, Repr

structure Buffer where
  name : String
  kind : BufferKind
deriving DecidableEq, Repr

namespace Buffer

def texture (name : String) (size : Size) (format : Format) : Buffer :=
  ⟨name, .texture size format⟩

def dummy (name : String) : Buffer := ⟨name, .dummy⟩

def isDummy (b : Buffer) : Bool := b.kind = .dummy

/-- The storage a buffer needs at a resolution. -/
def storageClass (b : Buffer) (resolution : Extent) : StorageClass :=
  match b.kind with
  | .texture size format => .texture (size.resolve resolution) format
  | .dummy => .dummy

def cost (b : Buffer) (resolution : Extent) : Nat := (b.storageClass resolution).cost

/-- The extent of a texture; a dummy has none. -/
def extent? (b : Buffer) (resolution : Extent) : Option Extent :=
  match b.kind with
  | .texture size _ => some (size.resolve resolution)
  | .dummy => none

/-- Whether two buffers can share one resource at a resolution. -/
def mergeable (a b : Buffer) (resolution : Extent) : Bool :=
  a.storageClass resolution = b.storageClass resolution

end Buffer
end FrameGraph
