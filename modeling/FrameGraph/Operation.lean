/-!
# Declared operations

An operation names its ports and says which buffer each of them carries. Ports
are referred to by name: a binding allows an output to overwrite the storage of
an input, and an optional output may have no reader. Nothing is checked here;
`FrameGraph.Pass` holds the operations that passed the checks.

A buffer is referred to by its number in the description's table, which may be
out of range.
-/
namespace FrameGraph

/-- A port without a buffer is absent. -/
structure Port where
  name : String
  buffer? : Option Nat
deriving DecidableEq, Repr

structure Operation where
  name : String
  inputs : List Port := []
  outputs : List Port := []
  bindings : List (String × String) := []
  optionalOutputs : List String := []
deriving DecidableEq, Repr

namespace Operation

def input (op : Operation) (port : String) (buffer : Nat) : Operation :=
  { op with inputs := op.inputs ++ [⟨port, some buffer⟩] }

def output (op : Operation) (port : String) (buffer : Nat) : Operation :=
  { op with outputs := op.outputs ++ [⟨port, some buffer⟩] }

/-- Allow the output port to take over the storage of the input port. -/
def bind (op : Operation) (input output : String) : Operation :=
  { op with bindings := op.bindings ++ [(input, output)] }

/-- Allow the output port to have no reader. -/
def optional (op : Operation) (output : String) : Operation :=
  { op with optionalOutputs := op.optionalOutputs ++ [output] }

def isOptional (op : Operation) (output : String) : Bool := op.optionalOutputs.contains output

/-- The buffers of the present input ports, in port order. -/
def reads (op : Operation) : List Nat := op.inputs.filterMap (·.buffer?)

/-- The buffers of the present output ports, in port order. -/
def writes (op : Operation) : List Nat := op.outputs.filterMap (·.buffer?)

end Operation
end FrameGraph
