import FrameGraph.StorageClass

/-!
# Errors

Each error is its cause: the operation, port, buffer or slot at fault and what
is wrong with it. `GraphError.message` is the only place that words them.

The constructors named `stated` carry a reason given by whoever raises the
error from outside this library, such as a device that refuses a resource.
-/
namespace FrameGraph

inductive Side where
  | input
  | output
deriving DecidableEq, Repr

def Side.text : Side → String
  | .input => "input"
  | .output => "output"

/-- What makes an operation malformed. Ports and buffers are given by name. -/
inductive Defect where
  | duplicatePort (side : Side) (port : String)
  | repeatedBuffer (side : Side) (port : String)
  | readAndWritten (buffer : String)
  | undeclaredOptional (port : String)
  | undeclaredBinding (port : String)
  | absentBinding (port : String)
  | boundTwice (side : Side) (port : String)
  | producedTwice (buffer producer : String)
  | mismatchedBinding (input output : String)
  | stated (reason : String)
deriving DecidableEq, Repr

def Defect.message : Defect → String
  | .duplicatePort side port => s!"duplicate {side.text} port '{port}'"
  | .repeatedBuffer side port =>
      s!"{side.text} port '{port}' repeats a buffer already used by another {side.text}"
  | .readAndWritten buffer =>
      s!"buffer '{buffer}' is both read and written; declare a binding instead"
  | .undeclaredOptional port => s!"optional output '{port}' is not a declared output port"
  | .undeclaredBinding port => s!"binding references undeclared port '{port}'"
  | .absentBinding port => s!"binding references absent port '{port}'"
  | .boundTwice side port => s!"{side.text} '{port}' appears in more than one binding"
  | .producedTwice buffer producer => s!"buffer '{buffer}' is already produced by '{producer}'"
  | .mismatchedBinding input output =>
      s!"binding between '{input}' and '{output}' which cannot share storage"
  | .stated reason => reason

/-- A broken invariant of the placement or of the slots. -/
inductive Fault where
  | outputNotNeeded (buffer operation : String)
  | outputTooEarly (buffer operation : String) (placed consumers : Nat)
  | overused (buffer : String)
  | neverPlaced (count : Nat)
  | releasedUnallocated (slot classId : Nat)
  | unbackedSlot (slot classId : Nat)
  | stated (reason : String)
deriving DecidableEq, Repr

def Fault.message : Fault → String
  | .outputNotNeeded buffer operation => s!"output '{buffer}' of '{operation}' was not needed"
  | .outputTooEarly buffer operation placed consumers =>
      s!"output '{buffer}' of '{operation}' produced with {placed} of {consumers} consumers placed"
  | .overused buffer => s!"buffer '{buffer}' used more often than it has consumers"
  | .neverPlaced count => s!"{count} selected operations were never scheduled"
  | .releasedUnallocated slot classId => s!"release of unallocated slot {slot} of class {classId}"
  | .unbackedSlot slot classId => s!"no physical resource for slot {slot} of class {classId}"
  | .stated reason => reason

/-- Why a resource could not be created. -/
inductive Refusal where
  | capacityExhausted (capacity : Nat) (storage : StorageClass)
  | stated (reason : String)
deriving DecidableEq, Repr

def Refusal.message : Refusal → String
  | .capacityExhausted capacity storage =>
      s!"dummy backend capacity of {capacity} exhausted while creating {storage.text}"
  | .stated reason => reason

inductive GraphError where
  | malformed (operation : String) (defect : Defect)
  | invalidHandle (buffer : Nat)
  | unrealizable (buffers operations : List String)
  | inconsistent (fault : Fault)
  | creationFailed (refusal : Refusal)
  | notCompiled
deriving DecidableEq, Repr

namespace GraphError

def listText (names : List String) : String := "[" ++ ", ".intercalate names ++ "]"

def message : GraphError → String
  | .malformed operation defect => s!"malformed operation '{operation}': {defect.message}"
  | .invalidHandle buffer => s!"invalid buffer handle: BufferHandle({buffer})"
  | .unrealizable buffers operations =>
      s!"render graph is unrealizable: unresolved buffers {listText buffers}" ++
        (if operations.isEmpty then "" else s!", blocked operations {listText operations}")
  | .inconsistent fault => s!"allocator invariant violated: {fault.message}"
  | .creationFailed refusal => s!"failed to create resource: {refusal.message}"
  | .notCompiled => "render graph has not been compiled"

end GraphError
end FrameGraph
