import FrameGraph.Description

/-!
# Passes

A pass is an operation whose ports have been checked and reduced to the buffers
they carry. Absent ports are gone; the others keep their place in the
declaration. Bindings are pairs of positions among the present ports.

`Description.passes` checks the operations in declaration order and reports the
first defect. Among accepted passes every buffer has at most one producer, no
pass uses a buffer twice, and every buffer is in the table.
-/
namespace FrameGraph

/-- A present port: its place among the declared ports and its buffer. -/
structure PresentPort where
  port : Nat
  buffer : Nat
deriving DecidableEq, Repr

structure PassOutput extends PresentPort where
  optional : Bool
deriving DecidableEq, Repr

structure Pass where
  index : Nat
  name : String
  inputs : List PresentPort
  outputs : List PassOutput
  bindings : List (Nat × Nat)
deriving DecidableEq, Repr

namespace Pass

def reads (p : Pass) : List Nat := p.inputs.map (·.buffer)

def writes (p : Pass) : List Nat := p.outputs.map (·.buffer)

/-- The bindings as pairs of ports, the one read and the one that may take over
its storage. -/
def sharing (p : Pass) : List (PresentPort × PassOutput) :=
  p.bindings.filterMap fun (i, o) => do
    let input ← p.inputs[i]?
    let output ← p.outputs[o]?
    return (input, output)

end Pass

namespace Operation

def firstDuplicate (seen : List String) : List Port → Option String
  | [] => none
  | p :: rest =>
      if seen.contains p.name then some p.name else firstDuplicate (p.name :: seen) rest

def checkNames (op : Operation) (side : Side) (ports : List Port) : Except GraphError Unit :=
  match firstDuplicate [] ports with
  | some name => .error (.malformed op.name (.duplicatePort side name))
  | none => .ok ()

/-- The present ports of one side, from the port at `place` on. `seen` holds the
buffers of the ports before it. -/
def presentFrom (op : Operation) (side : Side) (tableSize : Nat) (seen : List Nat)
    (place : Nat) : List Port → Except GraphError (List PresentPort)
  | [] => .ok []
  | p :: rest =>
      match p.buffer? with
      | none => op.presentFrom side tableSize seen (place + 1) rest
      | some b =>
          if tableSize ≤ b then .error (.invalidHandle b)
          else if seen.contains b then
            .error (.malformed op.name (.repeatedBuffer side p.name))
          else do
            let tail ← op.presentFrom side tableSize (b :: seen) (place + 1) rest
            return ⟨place, b⟩ :: tail

def checkDisjoint (op : Operation) (d : Description) (inputs outputs : List PresentPort) :
    Except GraphError Unit :=
  match inputs.find? fun i => outputs.any (·.buffer == i.buffer) with
  | some shared => .error (.malformed op.name (.readAndWritten (d.bufferName shared.buffer)))
  | none => .ok ()

def checkOptional (op : Operation) : Except GraphError Unit :=
  match op.optionalOutputs.find? fun o => !op.outputs.any (·.name == o) with
  | some undeclared => .error (.malformed op.name (.undeclaredOptional undeclared))
  | none => .ok ()

def markOptional (op : Operation) (p : PresentPort) : PassOutput where
  port := p.port
  buffer := p.buffer
  optional := (op.outputs[p.port]?.map fun q => op.isOptional q.name).getD false

/-- The position among the present ports of the port with a name. -/
def bindingPosition (op : Operation) (ports : List Port) (present : List PresentPort)
    (name : String) : Except GraphError Nat :=
  match ports.findIdx? (·.name == name) with
  | none => .error (.malformed op.name (.undeclaredBinding name))
  | some place =>
      match present.findIdx? (·.port == place) with
      | none => .error (.malformed op.name (.absentBinding name))
      | some position => .ok position

/-- The bindings as positions, after those in `done`. No port is bound twice. -/
def bindingsFrom (op : Operation) (inputs outputs : List PresentPort)
    (done : List (Nat × Nat)) : List (String × String) → Except GraphError (List (Nat × Nat))
  | [] => .ok done
  | (a, b) :: rest => do
      let i ← op.bindingPosition op.inputs inputs a
      let o ← op.bindingPosition op.outputs outputs b
      if done.any (·.1 == i) then .error (.malformed op.name (.boundTwice .input a))
      else if done.any (·.2 == o) then .error (.malformed op.name (.boundTwice .output b))
      else op.bindingsFrom inputs outputs (done ++ [(i, o)]) rest

/-- The operation as a pass with a given index, its own declaration checked. -/
def toPass (op : Operation) (d : Description) (index : Nat) : Except GraphError Pass := do
  op.checkNames .input op.inputs
  op.checkNames .output op.outputs
  let inputs ← op.presentFrom .input d.buffers.length [] 0 op.inputs
  let outputs ← op.presentFrom .output d.buffers.length [] 0 op.outputs
  op.checkDisjoint d inputs outputs
  op.checkOptional
  let bindings ← op.bindingsFrom inputs outputs [] op.bindings
  return ⟨index, op.name, inputs, outputs.map op.markOptional, bindings⟩

end Operation

def producer? (passes : List Pass) (b : Nat) : Option Pass :=
  passes.find? fun p => p.writes.contains b

/-- None of the listed buffers has a producer already. -/
def Pass.checkFresh (p : Pass) (d : Description) (done : List Pass) :
    List Nat → Except GraphError Unit
  | [] => .ok ()
  | b :: rest =>
      match producer? done b with
      | some q => .error (.malformed p.name (.producedTwice (d.bufferName b) q.name))
      | none => p.checkFresh d done rest

namespace Description

def passesFrom (d : Description) (done : List Pass) :
    List Operation → Except GraphError (List Pass)
  | [] => .ok done
  | op :: rest => do
      let p ← op.toPass d done.length
      p.checkFresh d done p.writes
      d.passesFrom (done ++ [p]) rest

def passes (d : Description) : Except GraphError (List Pass) := d.passesFrom [] d.operations

end Description
end FrameGraph
