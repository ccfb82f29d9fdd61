import FrameGraph.Description
import FrameGraph.Single.Shortest

/-!
# Descriptions in full

One line that shows every field of a description, for a person to read. A record
is written as its name and its fields in braces, a list in brackets, and a text
between quotes with quotes, backslashes and control characters escaped.
-/
namespace FrameGraph.Inspect

/-- The digits of a number to the base sixteen, the most significant first. -/
def hex (n : Nat) : String := String.ofList (Nat.toDigits 16 n)

def charText (c : Char) : String :=
  if c = '"' then "\\\""
  else if c = '\\' then "\\\\"
  else if c = '\n' then "\\n"
  else if c = '\r' then "\\r"
  else if c = '\t' then "\\t"
  else if c = '\x00' then "\\0"
  else if c.toNat < 32 ∨ c.toNat = 127 then "\\u\x7b" ++ hex c.toNat ++ "\x7d"
  else c.toString

def quoted (s : String) : String := "\"" ++ String.join (s.toList.map charText) ++ "\""

def listed (items : List String) : String := "[" ++ ", ".intercalate items ++ "]"

/-- A record with its fields; `rest` says that there are fields not shown. -/
def braced (name : String) (fields : List (String × String)) (rest : Bool) : String :=
  name ++ " \x7b " ++
    ", ".intercalate (fields.map (fun (field, value) => field ++ ": " ++ value) ++
      if rest then [".."] else []) ++ " \x7d"

def size : Size → String
  | .absolute extent =>
      braced "Absolute" [("width", toString extent.width), ("height", toString extent.height)]
        false
  | .relative width height =>
      braced "Relative" [("width_scale", width.text), ("height_scale", height.text)] false

def kind : BufferKind → String
  | .texture s format => braced "Texture" [("size", size s), ("format", format.name)] false
  | .dummy => "Dummy"

def buffer (b : Buffer) : String :=
  braced "BufferDescriptor" [("name", quoted b.name), ("kind", kind b.kind)] false

def handle? : Option Nat → String
  | none => "None"
  | some b => s!"Some(BufferHandle({b}))"

def port (p : Port) : String :=
  braced "Port" [("name", quoted p.name), ("buffer", handle? p.buffer?)] false

def binding (b : String × String) : String := "(" ++ quoted b.1 ++ ", " ++ quoted b.2 ++ ")"

def operation (op : Operation) : String :=
  braced "OperationDescriptor"
    [("name", quoted op.name), ("inputs", listed (op.inputs.map port)),
      ("outputs", listed (op.outputs.map port)), ("bindings", listed (op.bindings.map binding)),
      ("optional_outputs", listed (op.optionalOutputs.map quoted))] true

def description (d : Description) : String :=
  braced "GraphDescription"
    [("buffers", listed (d.buffers.map buffer)),
      ("operations", listed (d.operations.map operation))] false

end FrameGraph.Inspect
