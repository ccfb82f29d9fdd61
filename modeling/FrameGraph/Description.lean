import FrameGraph.Buffer
import FrameGraph.Error
import FrameGraph.Operation

/-!
# Frame descriptions

A description is a table of buffers and a list of operations over it. Both only
grow, so the number of a buffer never changes.
-/
namespace FrameGraph

structure Description where
  buffers : List Buffer := []
  operations : List Operation := []
deriving DecidableEq, Repr

namespace Description

/-- Append a buffer; its number is the former size of the table. -/
def addBuffer (d : Description) (b : Buffer) : Description :=
  { d with buffers := d.buffers ++ [b] }

def addOperation (d : Description) (op : Operation) : Description :=
  { d with operations := d.operations ++ [op] }

def buffer (d : Description) (b : Nat) : Except GraphError Buffer :=
  match d.buffers[b]? with
  | some found => .ok found
  | none => .error (.invalidHandle b)

def bufferName (d : Description) (b : Nat) : String :=
  (d.buffers[b]?.map (·.name)).getD "<invalid>"

/-- The first buffer of a name. -/
def findBuffer (d : Description) (name : String) : Option Nat :=
  d.buffers.findIdx? (·.name == name)

/-- Every listed number is in the table; otherwise the first that is not. -/
def checkHandles (d : Description) : List Nat → Except GraphError Unit
  | [] => .ok ()
  | b :: rest =>
      if b < d.buffers.length then d.checkHandles rest else .error (.invalidHandle b)

theorem checkHandles_eq_ok {d : Description} {bs : List Nat} :
    d.checkHandles bs = .ok () ↔ ∀ b ∈ bs, b < d.buffers.length := by
  induction bs with
  | nil => simp [checkHandles]
  | cons b bs ih =>
      by_cases h : b < d.buffers.length <;> simp [checkHandles, h, ih]

end Description
end FrameGraph
