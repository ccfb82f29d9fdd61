import FrameGraph.Ledger
import FrameGraph.Saturating
import FrameGraph.Schedule
import FrameGraph.Workload

/-!
# Placement

A frame is scheduled from its last pass to its first. A pass is ready when every
consumer of its outputs has been placed. Of the ready passes the one of least
cost is placed, the earliest declared on ties; its outputs give back their
slots, its inputs get theirs. An output bound to an input whose demand is not
open yet hands its slot over instead.

The cost of a placement weighs the storage that has to be added against the
change in the storage in use. `plan` computes it and the in-place bindings
without touching the ledger; `place` carries the plan out.
-/
namespace FrameGraph

structure Plan where
  cost : Int
  inPlace : List (PresentPort × PassOutput)
deriving DecidableEq, Repr

namespace Plan

/-- The output that hands its slot to an input buffer. -/
def donor? (inPlace : List (PresentPort × PassOutput)) (b : Nat) : Option Nat :=
  (inPlace.find? (·.1.buffer == b)).map (·.2.buffer)

def donates (inPlace : List (PresentPort × PassOutput)) (b : Nat) : Bool :=
  inPlace.any (·.2.buffer == b)

end Plan

structure Candidate where
  pass : Pass
  plan : Plan
deriving DecidableEq, Repr

/-- The candidate of least cost, the first of them on ties. -/
def leastCost : List Candidate → Option Candidate
  | [] => none
  | c :: rest =>
      match leastCost rest with
      | none => some c
      | some best => if c.plan.cost ≤ best.plan.cost then some c else some best

/-- What one round did: the candidates it weighed, the one placed, its phase,
and the slots handed out and taken back. -/
structure Placement where
  candidates : List Candidate
  chosen : Candidate
  phase : Phase
  acquired : List Allocation
  released : List Allocation
deriving DecidableEq, Repr

/-- The state between two rounds. The latest placement comes first, so the
placements stand in execution order. -/
structure Progress where
  ledger : Ledger
  pending : List Pass
  placed : List Placement
deriving DecidableEq, Repr

/-- Apply a step to every item of a list, handing the state along. -/
def thread {σ α β : Type} (step : σ → α → Except GraphError (σ × β)) :
    σ → List α → Except GraphError (σ × List β)
  | s, [] => .ok (s, [])
  | s, a :: rest => do
      let (s, b) ← step s a
      let (s, bs) ← thread step s rest
      return (s, b :: bs)

namespace Workload

/-- Every consumer of every output has been placed. -/
def ready (w : Workload) (l : Ledger) (p : Pass) : Bool :=
  p.outputs.all fun o =>
    let consumers := w.consumersOf o.buffer
    if consumers == 0 then o.optional
    else (l.demand? o.buffer).any (·.uses == consumers)

/-- The bindings that can be applied in place: the output is kept, and no other
consumer of the input comes later. -/
def inPlace (w : Workload) (l : Ledger) (p : Pass) : List (PresentPort × PassOutput) :=
  p.sharing.filter fun (i, o) => !w.discards o && (l.demand? i.buffer).isNone

def freshInputs (w : Workload) (l : Ledger) (p : Pass) : List Nat :=
  p.reads.filter fun b => (Plan.donor? (w.inPlace l p) b).isNone && (l.demand? b).isNone

def freedOutputs (w : Workload) (l : Ledger) (p : Pass) : List Nat :=
  (p.outputs.filter fun o => !w.discards o && !Plan.donates (w.inPlace l p) o.buffer).map
    (·.buffer)

def classGrowth (w : Workload) (l : Ledger) (ids : List Nat) (id : Nat) : Int :=
  Saturating.mul (Saturating.ofNat (w.unitCost id))
    (Saturating.ofNat (ids.count id - l.slots.freeCount id))

/-- The cost of all slots that have to be added for the listed buffers. -/
def growth (w : Workload) (l : Ledger) (fresh : List Nat) : Int :=
  let ids := fresh.map w.classId
  ids.eraseDups.foldl (fun total id => Saturating.add total (w.classGrowth l ids id)) 0

def liveChange (w : Workload) (fresh freed : List Nat) : Int :=
  freed.foldl (fun total b => Saturating.sub total (Saturating.ofNat (w.cost b)))
    (fresh.foldl (fun total b => Saturating.add total (Saturating.ofNat (w.cost b))) 0)

def plan (w : Workload) (l : Ledger) (p : Pass) : Plan where
  cost :=
    Saturating.add
      (Saturating.mul w.config.capacityWeight (w.growth l (w.freshInputs l p)))
      (Saturating.mul w.config.countWeight
        (w.liveChange (w.freshInputs l p) (w.freedOutputs l p)))
  inPlace := w.inPlace l p

/-- Close the demand for an output and pass on its slot; a discarded output has
none. -/
def collectOutput (w : Workload) (p : Pass) (l : Ledger) (o : PassOutput) :
    Except GraphError (Ledger × PortSlot) :=
  if w.discards o then .ok (l, ⟨o.port, o.buffer, none⟩)
  else
    match l.demand? o.buffer with
    | none => .error (.inconsistent (.outputNotNeeded (w.bufferName o.buffer) p.name))
    | some d =>
        if d.uses = w.consumersOf o.buffer then
          .ok (l.closeDemand o.buffer, ⟨o.port, o.buffer, some d.allocation⟩)
        else
          .error (.inconsistent (.outputTooEarly (w.bufferName o.buffer) p.name d.uses
            (w.consumersOf o.buffer)))

/-- Find a slot for an input: that of the output bound to it, that of the open
demand, or a new one, which is then also returned by itself. -/
def supplyInput (w : Workload) (plan : Plan) (outputs : List PortSlot) (l : Ledger)
    (i : PresentPort) : Except GraphError (Ledger × PortSlot × Option Allocation) :=
  match (Plan.donor? plan.inPlace i.buffer).bind (Phase.slotOf outputs) with
  | some x => .ok (l.openDemand i.buffer x, ⟨i.port, i.buffer, some x⟩, none)
  | none =>
      match l.demand? i.buffer with
      | some d =>
          if d.uses < w.consumersOf i.buffer then
            .ok (l.addUse i.buffer d, ⟨i.port, i.buffer, some d.allocation⟩, none)
          else .error (.inconsistent (.overused (w.bufferName i.buffer)))
      | none =>
          let (x, l) := l.acquire (w.classId i.buffer)
          .ok (l.openDemand i.buffer x, ⟨i.port, i.buffer, some x⟩, some x)

def place (w : Workload) (s : Progress) (candidates : List Candidate) (c : Candidate) :
    Except GraphError Progress := do
  let (l, outputs) ← thread (w.collectOutput c.pass) s.ledger c.pass.outputs
  let (l, supplied) ← thread (w.supplyInput c.plan outputs) l c.pass.inputs
  let released :=
    (outputs.filter fun o => !Plan.donates c.plan.inPlace o.buffer).filterMap (·.allocation)
  let l ← l.releaseAll released
  let phase : Phase := ⟨c.pass.index, c.pass.name, supplied.map (·.1), outputs⟩
  let placement : Placement := ⟨candidates, c, phase, supplied.filterMap (·.2), released⟩
  return ⟨l, s.pending.eraseP (·.index == c.pass.index), placement :: s.placed⟩

def candidates (w : Workload) (s : Progress) : List Candidate :=
  (s.pending.filter (w.ready s.ledger)).map fun p => ⟨p, w.plan s.ledger p⟩

/-- Place one pass. Nothing is placed when no demand is open, or no pass ready. -/
def round (w : Workload) (s : Progress) : Except GraphError (Option Progress) :=
  if s.ledger.openCount = 0 then .ok none
  else
    let candidates := w.candidates s
    match leastCost candidates with
    | none => .ok none
    | some c => do
        let next ← w.place s candidates c
        return some next

def rounds (w : Workload) : Nat → Progress → Except GraphError Progress
  | 0, s => .ok s
  | bound + 1, s => do
      match ← w.round s with
      | none => return s
      | some next => w.rounds bound next

/-- Required buffers are demanded by the presenter from the start. -/
def openRequired (w : Workload) (l : Ledger) (b : Nat) : Ledger :=
  let (x, l) := l.acquire (w.classId b)
  l.openDemand b x

def startLedger (w : Workload) : Ledger :=
  w.required.foldl w.openRequired (.blank w.slots w.description.buffers.length)

def start (w : Workload) : Progress := ⟨w.startLedger, w.passes, []⟩

def finish (w : Workload) : Except GraphError Progress := w.rounds w.passes.length w.start

/-- The schedule of a finished progress. Open demands are a failure: the passes
that are left wait for one another. -/
def conclude (w : Workload) (s : Progress) : Except GraphError Schedule :=
  if s.ledger.openCount ≠ 0 then
    .error (.unrealizable (s.ledger.openBuffers.map w.bufferName) (s.pending.map (·.name)))
  else if s.pending ≠ [] then
    .error (.inconsistent (.neverPlaced s.pending.length))
  else
    .ok ⟨s.placed.map (·.phase), s.ledger.slots.peaks, s.ledger.allocations,
      w.config.resolution⟩

end Workload
end FrameGraph
