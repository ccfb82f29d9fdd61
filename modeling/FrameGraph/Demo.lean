import FrameGraph.Dot
import FrameGraph.Renderer

/-!
# A deferred frame

A typical frame of a deferred renderer: shadows, geometry, ambient occlusion,
lighting, a bloom chain, tone mapping, presentation, and a debug view on demand.
`Demo.run` compiles it, renders a number of frames, on demand again at half the
resolution, and reports the schedules and what was done.
-/
namespace FrameGraph.Demo

structure Options where
  width : Nat := 1280
  height : Nat := 720
  frames : Nat := 3
  debugView : Bool := false
  dot : Bool := false
  resize : Bool := false
deriving DecidableEq, Repr

def depth : Nat := 0
def albedo : Nat := 1
def normals : Nat := 2
def motion : Nat := 3
def shadowMap : Nat := 4
def lightList : Nat := 5
def ssao : Nat := 6
def hdr : Nat := 7
def bloomHalf : Nat := 8
def bloomQuarter : Nat := 9
def bloomUp : Nat := 10
def ldr : Nat := 11
def debugView : Nat := 12
def presented : Nat := 13

def buffers : List Buffer :=
  [.texture "depth" .full .depth32Float,
    .texture "albedo" .full .rgba8Unorm,
    .texture "normals" .full .rgba16Float,
    .texture "motion" .full .rg16Float,
    .texture "shadow_map" (.absolute ⟨2048, 2048⟩) .depth32Float,
    .dummy "light_list",
    .texture "ssao" (.divided 2) .r8Unorm,
    .texture "hdr" .full .rgba16Float,
    .texture "bloom_half" (.divided 2) .rgba16Float,
    .texture "bloom_quarter" (.divided 4) .rgba16Float,
    .texture "bloom_up" (.divided 2) .rgba16Float,
    .texture "ldr" .full .rgba8UnormSrgb,
    .texture "debug_view" .full .rgba8UnormSrgb,
    .dummy "presented"]

def named (name : String) : Operation := { name := name }

def operations : List Operation :=
  [(named "shadows").output "shadow_map" shadowMap,
    ((named "gbuffer").output "depth" depth |>.output "albedo" albedo
      |>.output "normals" normals |>.output "motion" motion).optional "motion",
    ((named "cull_lights").input "depth" depth).output "lights" lightList,
    ((named "ssao").input "depth" depth |>.input "normals" normals).output "occlusion" ssao,
    ((named "lighting").input "albedo" albedo |>.input "normals" normals
      |>.input "depth" depth |>.input "occlusion" ssao |>.input "shadows" shadowMap
      |>.input "lights" lightList).output "color" hdr,
    ((named "bloom_down").input "source" hdr).output "target" bloomHalf,
    ((named "bloom_down2").input "source" bloomHalf).output "target" bloomQuarter,
    ((named "bloom_up").input "source" bloomQuarter |>.input "accumulate" bloomHalf
      |>.output "target" bloomUp).bind "accumulate" "target",
    ((named "tonemap").input "hdr" hdr |>.input "bloom" bloomUp).output "ldr" ldr,
    ((named "debug").input "normals" normals |>.input "depth" depth).output "view" debugView,
    ((named "present").input "image" ldr).output "done" presented]

def scene : Description := ⟨buffers, operations⟩

def required (o : Options) : List Nat := presented :: if o.debugView then [debugView] else []

/-- Text filled up with blanks on the right. -/
def padRight (width : Nat) (s : String) : String :=
  s ++ String.ofList (List.replicate (width - s.length) ' ')

/-- Text filled up with blanks on the left. -/
def padLeft (width : Nat) (s : String) : String :=
  String.ofList (List.replicate (width - s.length) ' ') ++ s

def slotText (p : PortSlot) : String :=
  match p.allocation with
  | some x => s!"c{x.classId}s{x.slot}"
  | none => "-"

def phaseLine (p : Phase) (place : Nat) : String :=
  let slots := ", ".intercalate (p.outputs.map slotText)
  s!"  {padLeft 2 (toString place)}. {padRight 12 p.name} writes [{slots}]\n"

def peakLine (peak : StorageClass × Nat) : String :=
  if peak.2 = 0 then "" else s!"  {peak.2} x {peak.1.text}\n"

def scheduleReport (s : Schedule) : String :=
  s!"Schedule at {s.resolution.text}:\n" ++
    String.join (s.phases.zipIdx.map fun (p, i) => phaseLine p i) ++
    "Physical resources:\n" ++ String.join (s.peaks.map peakLine)

/-- What the operators did, counted over all frames. -/
structure Tally where
  presented : Nat := 0
  performed : Nat := 0
deriving DecidableEq, Repr

def Tally.count (t : Tally) : Event → Tally
  | .performed .. => { t with performed := t.performed + 1 }
  | .finalized _ name => if name = "present" then { t with presented := t.presented + 1 } else t
  | _ => t

/-- A text so far, and either the renderer and the tally or the error that ended
the run. -/
structure Progress where
  output : String
  state : Except GraphError (Renderer × Tally)

def renderFrames (r : Renderer) (t : Tally) : Nat → Except GraphError (Renderer × Tally)
  | 0 => .ok (r, t)
  | frames + 1 =>
      let o := Renderer.render.run r
      match o.result with
      | .error e => .error e
      | .ok () => renderFrames o.state (o.events.foldl Tally.count t) frames

/-- Set the scene up, report its schedule and render the frames. -/
def present (o : Options) (r : Renderer) (t : Tally) : Progress :=
  let s := (Renderer.setup scene (required o)).run r
  match s.result with
  | .error e => ⟨"", .error e⟩
  | .ok () =>
      ⟨(s.state.schedule.map scheduleReport).getD "", renderFrames s.state t o.frames⟩

/-- Continue at half the resolution, if that is another one. -/
def presentResized (o : Options) (r : Renderer) (t : Tally) : Progress :=
  let resized := (Renderer.resize ⟨o.width / 2, o.height / 2⟩).run r
  match o.resize, resized.result with
  | true, .ok true => present o resized.state t
  | _, _ => ⟨"", .ok (r, t)⟩

def summary (r : Renderer) (t : Tally) : String :=
  s!"Rendered {t.presented} frames, {t.performed} pass executions, " ++
    s!"{r.inventory.backend.createdCount} resources created\n"

/-- The text of a run, and the error that ended it early, if one did. -/
def run (o : Options) : String × Option GraphError :=
  let drawing := if o.dot then scene.toDot ++ "\n" else ""
  let config := Config.withResolution {} ⟨o.width, o.height⟩
  let first := present o { config := config } {}
  match first.state with
  | .error e => (drawing ++ first.output, some e)
  | .ok (r, t) =>
      let second := presentResized o r t
      match second.state with
      | .error e => (drawing ++ first.output ++ second.output, some e)
      | .ok (r, t) => (drawing ++ first.output ++ second.output ++ summary r t, none)

/-- The exit code of a run. -/
def exitCode (result : String × Option GraphError) : Nat := if result.2.isSome then 1 else 0

end FrameGraph.Demo
