import FrameGraph.Config
import FrameGraph.Pass
import FrameGraph.Slots

/-!
# Workloads

What a placement works on: the selected passes, the required buffers without
repetitions, and what is known about every buffer before any pass is placed. A
buffer has as many consumers as passes read it, and one more, the presenter, if
it is required. Storage classes are numbered as they are met: required buffers
first, then the outputs and inputs of one pass after another.
-/
namespace FrameGraph

structure Workload where
  description : Description
  config : Config
  required : List Nat
  passes : List Pass
  /-- The storage class of each buffer. -/
  storage : List StorageClass
  /-- Every class of the frame, no slot handed out. -/
  slots : SlotAllocator
  /-- The number of each buffer's class. -/
  classIds : List Nat
  /-- The number of consumers of each buffer. -/
  consumers : List Nat
deriving Repr

namespace Workload

/-- Buffers in the order in which their classes are met. -/
def meetingOrder (required : List Nat) (passes : List Pass) : List Nat :=
  required ++ passes.flatMap fun p => p.writes ++ p.reads

def countConsumers (required : List Nat) (passes : List Pass) (b : Nat) : Nat :=
  (passes.countP fun p => p.reads.contains b) + if required.contains b then 1 else 0

def ofPasses (d : Description) (config : Config) (required : List Nat) (passes : List Pass) :
    Workload :=
  let required := required.eraseDups
  let storage := d.buffers.map (·.storageClass config.resolution)
  let met := (meetingOrder required passes).filterMap fun b => storage[b]?
  let slots := met.foldl SlotAllocator.intern {}
  { description := d
    config := config
    required := required
    passes := passes
    storage := storage
    slots := slots
    classIds := storage.map slots.idOf
    consumers := (List.range d.buffers.length).map (countConsumers required passes) }

def bufferName (w : Workload) (b : Nat) : String := w.description.bufferName b

def consumersOf (w : Workload) (b : Nat) : Nat := w.consumers.getD b 0

def classId (w : Workload) (b : Nat) : Nat := w.classIds.getD b 0

def cost (w : Workload) (b : Nat) : Nat := ((w.storage[b]?).map (·.cost)).getD 0

def unitCost (w : Workload) (id : Nat) : Nat := ((w.slots.class? id).map (·.cost)).getD 0

/-- An output that nothing consumes and nothing has to. -/
def discards (w : Workload) (o : PassOutput) : Bool :=
  o.optional && w.consumersOf o.buffer == 0

/-- Buffers joined by a binding have the same class. -/
def checkSharing (w : Workload) (p : Pass) : Except GraphError Unit :=
  match p.sharing.find? fun (i, o) => w.classId i.buffer != w.classId o.buffer with
  | some (i, o) =>
      .error (.malformed p.name
        (.mismatchedBinding (w.bufferName i.buffer) (w.bufferName o.buffer)))
  | none => .ok ()

def checkBindings (w : Workload) : List Pass → Except GraphError Unit
  | [] => .ok ()
  | p :: rest => do
      w.checkSharing p
      w.checkBindings rest

end Workload
end FrameGraph
