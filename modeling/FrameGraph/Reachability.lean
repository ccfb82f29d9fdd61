import FrameGraph.Pass

/-!
# Reachable passes

Starting from the required buffers, a pass is selected as soon as one of its
outputs is wanted; its inputs are then wanted in turn. The search sweeps over
the passes in declaration order until a sweep selects nothing. What is still
wanted in the end has no producer.

Each sweep but the last selects a pass, so one sweep more than there are passes
is enough; the search is bounded by that number.
-/
namespace FrameGraph

/-- Buffers wanted and not yet produced, buffers produced, and the indices of
the passes selected so far. -/
structure Search where
  wanted : List Nat
  produced : List Nat := []
  selected : List Nat := []
deriving DecidableEq, Repr

namespace Search

def picks (s : Search) (p : Pass) : Bool :=
  p.writes.any (fun b => s.wanted.contains b) && !s.selected.contains p.index

/-- The outputs of the pass are no longer wanted, its inputs are. -/
def select (s : Search) (p : Pass) : Search :=
  let produced := p.writes ++ s.produced
  let kept := s.wanted.filter fun b => !p.writes.contains b
  let fresh := p.reads.filter fun b => !produced.contains b && !kept.contains b
  ⟨kept ++ fresh, produced, p.index :: s.selected⟩

def visit (s : Search) (p : Pass) : Search := if s.picks p then s.select p else s

def sweep (s : Search) (passes : List Pass) : Search := passes.foldl visit s

/-- The end of a search: its last state, the sweeps made, and whether the last
of them selected nothing. -/
structure Result where
  search : Search
  sweeps : Nat
  settled : Bool
deriving DecidableEq, Repr

/-- Sweep until nothing changes, at most `bound` times. -/
def settle (passes : List Pass) : Nat → Nat → Search → Result
  | 0, made, s => ⟨s, made, false⟩
  | bound + 1, made, s =>
      let t := s.sweep passes
      if t.selected.length = s.selected.length then ⟨t, made + 1, true⟩
      else settle passes bound (made + 1) t

end Search

structure Selection where
  passes : List Pass
  sweeps : Nat
deriving DecidableEq, Repr

namespace Description

def namesInTable (d : Description) (bs : List Nat) : List String :=
  ((List.range d.buffers.length).filter fun b => bs.contains b).map d.bufferName

/-- Select the passes that the required buffers depend on, in declaration
order, unless a buffer that is needed has no producer. -/
def select (d : Description) (passes : List Pass) (required : List Nat) :
    Except GraphError Selection :=
  let last := Search.settle passes (passes.length + 1) 0 { wanted := required }
  let missing := d.namesInTable last.search.wanted
  if last.settled && last.search.wanted.isEmpty then
    .ok ⟨passes.filter fun p => last.search.selected.contains p.index, last.sweeps⟩
  else .error (.unrealizable missing [])

end Description
end FrameGraph
