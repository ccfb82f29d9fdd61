import FrameGraph.StorageClass

/-!
# Events

Everything that can be seen of a compilation or a frame while it runs, as data.
An event has up to two faces: the record it leaves in the log, and what a device
and its operators notice of it. Both are projections, so the order of records
and the order of observations come from the one order of events.

An operator is told apart from others of its name by its serial number.
-/
namespace FrameGraph

/-- The resources behind the declared ports of an operation. -/
structure ResolvedPorts where
  inputs : List (String × Option Nat)
  outputs : List (String × Option Nat)
deriving DecidableEq, Repr

namespace ResolvedPorts

def lookup (ports : List (String × Option Nat)) (name : String) : Option Nat :=
  (ports.find? (·.1 == name)).bind (·.2)

def input (r : ResolvedPorts) (name : String) : Option Nat := lookup r.inputs name

def output (r : ResolvedPorts) (name : String) : Option Nat := lookup r.outputs name

end ResolvedPorts

/-- A read of a resource through a port, and whether the expected buffer was
found there. -/
structure ReadCheck where
  port : String
  resource : Nat
  found : Bool
deriving DecidableEq, Repr

inductive Event where
  | selected (kept total sweeps : Nat)
  | slotAcquired (slot : Nat) (storage : StorageClass)
  | slotReleased (slot : Nat) (storage : StorageClass)
  | weighed (operation : String) (cost : Int)
  | placed (operation : String) (cost : Int) (inPlace : Nat)
  | compiled (phases operations resources classes : Nat)
  | created (resource : Nat) (storage : StorageClass)
  | refused (storage : StorageClass)
  | destroyed (resource : Nat)
  | unknownDestroyed (resource : Nat)
  | classDropped (count : Nat) (storage : StorageClass)
  | surplusFound (resource : Nat) (storage : StorageClass)
  | slotBacked (resource : Nat) (storage : StorageClass)
  | reconciled (made lost alive : Nat)
  | built (serial : Nat) (operator : String) (ports : ResolvedPorts)
  | installed (count : Nat)
  | frameStarted (frame operators : Nat)
  | prepared (serial : Nat) (operator : String)
  | performed (serial : Nat) (operator : String) (reads : List ReadCheck)
      (writes : List (String × Nat))
  | finalized (serial : Nat) (operator : String)
  | retired (serial : Nat) (operator : String)
  | renderRefused
  | graphDisposed
  | resized (old new : Extent)
deriving DecidableEq, Repr

inductive Level where
  | warn
  | info
  | debug
  | trace
deriving DecidableEq, Repr

def Level.text : Level → String
  | .warn => "WARN"
  | .info => "INFO"
  | .debug => "DEBUG"
  | .trace => "TRACE"

structure Record where
  level : Level
  message : String
deriving DecidableEq, Repr

def resourceText (resource : Nat) : String := s!"DummyResource({resource})"

namespace Event

/-- The log record of an event, if it leaves one. -/
def record? : Event → Option Record
  | .selected kept total sweeps =>
      some ⟨.debug, s!"Pruning kept {kept} of {total} operations after {sweeps} passes"⟩
  | .slotAcquired slot storage =>
      some ⟨.trace, s!"Allocator: acquired slot {slot} of class {storage.text}"⟩
  | .slotReleased slot storage =>
      some ⟨.trace, s!"Allocator: released slot {slot} of class {storage.text}"⟩
  | .weighed operation cost =>
      some ⟨.trace, s!"Scheduler: candidate '{operation}' costs {cost}"⟩
  | .placed operation cost inPlace =>
      some ⟨.debug, s!"Scheduler: placed '{operation}' (cost {cost}, {inPlace} in-place)"⟩
  | .compiled phases operations resources classes =>
      some ⟨.info, s!"Compiled render graph: {phases} of {operations} operations, " ++
        s!"{resources} physical resources in {classes} classes"⟩
  | .created resource storage =>
      some ⟨.trace, s!"DummyBackend: created resource {resource} ({storage.text})"⟩
  | .refused _ => none
  | .destroyed resource => some ⟨.trace, s!"DummyBackend: destroyed resource {resource}"⟩
  | .unknownDestroyed resource =>
      some ⟨.warn, s!"DummyBackend: destroy of unknown resource {resource}"⟩
  | .classDropped count storage =>
      some ⟨.debug, s!"Realizer: dropping all {count} resources of {storage.text}"⟩
  | .surplusFound resource storage =>
      some ⟨.trace,
        s!"Realizer: destroying surplus {resourceText resource} of {storage.text}"⟩
  | .slotBacked resource storage =>
      some ⟨.trace, s!"Realizer: created {resourceText resource} for {storage.text}"⟩
  | .reconciled made lost alive =>
      some ⟨.debug, s!"Realizer: {made} created, {lost} destroyed, {alive} alive"⟩
  | .built .. => none
  | .installed count => some ⟨.debug, s!"Executor: installed {count} operators"⟩
  | .frameStarted frame operators =>
      some ⟨.trace, s!"Executor: frame {frame} over {operators} operators"⟩
  | .prepared .. => none
  | .performed .. => none
  | .finalized .. => none
  | .retired _ operator => some ⟨.trace, s!"Executor: disposing '{operator}'"⟩
  | .renderRefused => some ⟨.warn, "RenderGraph: render called before a successful setup"⟩
  | .graphDisposed => some ⟨.debug, "RenderGraph: disposed"⟩
  | .resized old new =>
      some ⟨.info, s!"RenderGraph: resolution {old.text} -> {new.text}"⟩

/-- The log of a list of events. -/
def records (events : List Event) : List Record := events.filterMap record?

end Event
end FrameGraph
