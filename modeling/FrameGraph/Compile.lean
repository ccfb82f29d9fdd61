import FrameGraph.Event
import FrameGraph.Placement
import FrameGraph.Reachability

/-!
# Compilation

From a description, the buffers required of it and a configuration to a
schedule: check the operations, select the ones the required buffers depend on,
check their bindings, place them.

`compileEvents` tells what happens on the way, up to the failure if there is one.
-/
namespace FrameGraph

/-- The selection of a description, all handles and operations checked. -/
def Description.selection (d : Description) (required : List Nat) :
    Except GraphError Selection := do
  d.checkHandles required
  let passes ← d.passes
  d.select passes required

def compile (d : Description) (required : List Nat) (config : Config) :
    Except GraphError Schedule := do
  let selection ← d.selection required
  let w := Workload.ofPasses d config required selection.passes
  w.checkBindings w.passes
  let last ← w.finish
  w.conclude last

namespace Workload

def slotEvents (w : Workload) (event : Nat → StorageClass → Event) (slots : List Allocation) :
    List Event :=
  slots.filterMap fun x => (w.slots.class? x.classId).map (event x.slot)

def placementEvents (w : Workload) (p : Placement) : List Event :=
  (p.candidates.map fun c => .weighed c.pass.name c.plan.cost) ++
    w.slotEvents .slotAcquired p.acquired ++ w.slotEvents .slotReleased p.released ++
    [.placed p.phase.name p.chosen.plan.cost p.chosen.plan.inPlace.length]

/-- The events of all rounds, the slots of the required buffers first. -/
def progressEvents (w : Workload) (s : Progress) : List Event :=
  w.slotEvents .slotAcquired (w.required.filterMap w.startLedger.allocation?) ++
    s.placed.reverse.flatMap w.placementEvents

def events (w : Workload) : List Event :=
  match w.finish with
  | .error _ => []
  | .ok last =>
      w.progressEvents last ++
        match w.conclude last with
        | .error _ => []
        | .ok s =>
            [.compiled s.phases.length w.description.operations.length s.resourceCount
              s.peaks.length]

end Workload

/-- What `compile` does on the way. -/
def compileEvents (d : Description) (required : List Nat) (config : Config) : List Event :=
  match d.selection required with
  | .error _ => []
  | .ok selection =>
      let w := Workload.ofPasses d config required selection.passes
      .selected selection.passes.length d.operations.length selection.sweeps ::
        match w.checkBindings w.passes with
        | .error _ => []
        | .ok () => w.events

end FrameGraph
