import FrameGraph.Description

/-!
# Descriptions as directed graphs

A description is drawn with a node for each operation and an edge for each
input, from the first operation that declares the buffer as an output. A buffer
that is read but never written has a node of its own, and so has a buffer that
is written but never read. Nothing is checked first: inputs whose number is not
in the table are left out, and malformed operations are drawn as declared.

The drawing is a list of statements; its text is that list written out in the
DOT language. Names stand between quotes, with quotes and backslashes escaped.
-/
namespace FrameGraph

namespace Dot

inductive Node where
  | operation (index : Nat)
  | missing (buffer : Nat)
  | sink (buffer : Nat)
deriving DecidableEq, Repr

inductive Line where
  | solid
  | dotted
  | bold
deriving DecidableEq, Repr

inductive Statement where
  | node (id : Node) (label : String)
  | edge (source target : Node) (label : String) (line : Line)
deriving DecidableEq, Repr

def Node.text : Node → String
  | .operation index => s!"op{index}"
  | .missing buffer => s!"missing{buffer}"
  | .sink buffer => s!"sink{buffer}"

/-- The attributes of a node besides its label. -/
def Node.style : Node → String
  | .operation _ => ""
  | .missing _ => ", shape=ellipse, style=dashed"
  | .sink _ => ", shape=ellipse"

/-- The attributes of an edge besides its label. -/
def Line.style : Line → String
  | .solid => ""
  | .dotted => ", style=dotted"
  | .bold => ", style=bold"

def escapeChars : List Char → List Char
  | [] => []
  | c :: rest =>
      if c = '\\' ∨ c = '"' then '\\' :: c :: escapeChars rest else c :: escapeChars rest

def escape (s : String) : String := String.ofList (escapeChars s.toList)

def labelText (label : String) : String := "label=\"" ++ escape label ++ "\""

def Statement.text : Statement → String
  | .node id label => "    " ++ id.text ++ " [" ++ labelText label ++ id.style ++ "];\n"
  | .edge source target label line =>
      "    " ++ source.text ++ " -> " ++ target.text ++ " [" ++ labelText label ++ line.style ++
        "];\n"

def opening : String := "digraph render_graph \x7b\n    rankdir=LR;\n    node [shape=box];\n"

def closing : String := "\x7d\n"

/-- The text of a drawing. -/
def write (statements : List Statement) : String :=
  opening ++ String.join (statements.map Statement.text) ++ closing

end Dot

namespace Description
open Dot

/-- The first operation that declares a buffer as an output. -/
def writer? (d : Description) (b : Nat) : Option Nat :=
  d.operations.findIdx? fun op => op.writes.contains b

/-- Whether an operation declares a buffer as an input. -/
def isRead (d : Description) (b : Nat) : Bool :=
  d.operations.any fun op => op.reads.contains b

def operationNodes (d : Description) : List Statement :=
  d.operations.zipIdx.map fun (op, i) => .node (.operation i) op.name

/-- The node of a buffer that is only read or only written. -/
def bufferNode? (d : Description) (b : Buffer) (index : Nat) : Option Statement :=
  match d.writer? index, d.isRead index with
  | none, true => some (.node (.missing index) b.name)
  | some _, false => some (.node (.sink index) b.name)
  | _, _ => none

def bufferNodes (d : Description) : List Statement :=
  d.buffers.zipIdx.filterMap fun (b, i) => d.bufferNode? b i

/-- Where the edges of a buffer start. -/
def sourceNode (d : Description) (b : Nat) : Node :=
  match d.writer? b with
  | some i => .operation i
  | none => .missing b

/-- Dummies are dotted; an input that a binding names is bold. -/
def lineOf (op : Operation) (p : Port) (b : Buffer) : Line :=
  if b.isDummy then .dotted
  else if op.bindings.any (·.1 == p.name) then .bold
  else .solid

/-- The edge of an input port, if its buffer is in the table. -/
def inputEdge? (d : Description) (op : Operation) (reader : Nat) (p : Port) :
    Option Statement := do
  let index ← p.buffer?
  let b ← d.buffers[index]?
  return .edge (d.sourceNode index) (.operation reader) s!"{b.name} ({p.name})" (lineOf op p b)

def inputEdges (d : Description) : List Statement :=
  d.operations.zipIdx.flatMap fun (op, i) => op.inputs.filterMap (d.inputEdge? op i)

/-- The edge to a buffer that is written and never read. -/
def sinkEdge? (d : Description) (b : Buffer) (index : Nat) : Option Statement :=
  match d.writer? index, d.isRead index with
  | some i, false => some (.edge (.operation i) (.sink index) b.name .solid)
  | _, _ => none

def sinkEdges (d : Description) : List Statement :=
  d.buffers.zipIdx.filterMap fun (b, i) => d.sinkEdge? b i

/-- The drawing of a description. -/
def drawing (d : Description) : List Statement :=
  d.operationNodes ++ d.bufferNodes ++ d.inputEdges ++ d.sinkEdges

/-- The drawing as text. -/
def toDot (d : Description) : String := Dot.write d.drawing

end Description
end FrameGraph
