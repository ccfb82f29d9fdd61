import FrameGraph.Compile
import FrameGraph.Inventory

/-!
# Renderers

A renderer compiles a description, backs the schedule with resources, installs
its operators and renders frames with them. A setup that does not compile leaves
everything as it was. One that compiles and then runs out of resources leaves
the renderer without a schedule and without operators; the resources created so
far are kept for the next setup.
-/
namespace FrameGraph

structure Renderer where
  config : Config := {}
  inventory : Inventory := {}
  crew : Crew := {}
  schedule : Option Schedule := none
deriving Repr

namespace Renderer

def onInventory {α : Type} (a : Act Inventory α) : Act Renderer α :=
  Act.on (·.inventory) (fun r i => { r with inventory := i }) a

def onCrew {α : Type} (a : Act Crew α) : Act Renderer α :=
  Act.on (·.crew) (fun r c => { r with crew := c }) a

def isCompiled (r : Renderer) : Bool := r.schedule.isSome

/-- Compile and install a description. -/
def setup (d : Description) (required : List Nat) : Act Renderer Unit := do
  let r ← Act.get
  Act.emitAll (compileEvents d required r.config)
  let s ← Act.ofExcept (compile d required r.config)
  onCrew Crew.retire
  Act.modify fun r => { r with schedule := none }
  onInventory (Inventory.reconcile s)
  let operators ← onInventory (Inventory.instantiate d s)
  onCrew (Crew.install operators)
  Act.modify fun r => { r with schedule := some s }

def render : Act Renderer Unit := do
  let r ← Act.get
  if r.isCompiled then onCrew Crew.execute
  else
    Act.emit .renderRefused
    Act.fail .notCompiled

def dispose : Act Renderer Unit := do
  onCrew Crew.retire
  onInventory Inventory.dispose
  let r ← Act.get
  Act.modify fun r => { r with schedule := none }
  if r.isCompiled then Act.emit .graphDisposed

/-- Change the resolution, to one pixel at least on either axis; true if it is
then another one. -/
def resize (resolution : Extent) : Act Renderer Bool := do
  let r ← Act.get
  let new := resolution.atLeastOne
  if new = r.config.resolution then return false
  else
    Act.emit (.resized r.config.resolution new)
    Act.modify fun r => { r with config := { r.config with resolution := new } }
    return true

def limit (capacity : Nat) : Act Renderer Unit :=
  onInventory (Inventory.onBackend (Act.modify (·.withCapacity capacity)))

/-- Create a resource in the backend that the renderer does not own. -/
def createForeign (c : StorageClass) : Act Renderer Nat :=
  onInventory (Inventory.onBackend (Backend.create c))

end Renderer
end FrameGraph
