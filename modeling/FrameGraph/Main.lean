import FrameGraph.Demo

/-!
# Command line

Runs the deferred frame with the options given on the command line.
-/
namespace FrameGraph.CommandLine
open Demo

def usage : String :=
  "Usage: deferred_frame [--width N] [--height N] [--frames N] [--debug-view] [--dot] [--resize]"

def number (s : String) : Except String Nat :=
  match s.toNat? with
  | some n => if n < Nat.pow 2 32 then .ok n else .error s!"{s} is too large"
  | none => .error s!"{s} is not a number"

/-- The options in a list of arguments, after those in `o`. -/
def parse (o : Options) : List String → Except String Options
  | [] => .ok o
  | "--debug-view" :: rest => parse { o with debugView := true } rest
  | "--dot" :: rest => parse { o with dot := true } rest
  | "--resize" :: rest => parse { o with resize := true } rest
  | "--width" :: n :: rest => do parse { o with width := ← number n } rest
  | "--height" :: n :: rest => do parse { o with height := ← number n } rest
  | "--frames" :: n :: rest => do parse { o with frames := ← number n } rest
  | other :: _ => .error s!"unexpected argument {other}"

end FrameGraph.CommandLine

def main (args : List String) : IO UInt32 := do
  match FrameGraph.CommandLine.parse {} args with
  | .error reason =>
      IO.eprintln reason
      IO.eprintln FrameGraph.CommandLine.usage
      return 2
  | .ok options =>
      let result := FrameGraph.Demo.run options
      IO.print result.1
      if let some e := result.2 then IO.eprintln e.message
      return (FrameGraph.Demo.exitCode result).toUInt32
