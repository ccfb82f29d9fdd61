import FrameGraph.Proofs.Stalling
import Mathlib.Data.List.Sort

/-!
# The report of a stalled placement

A placement that stalls reports the passes that are left and the buffers with
open demands. These are the blocked operations, and the buffers that the rest of
the frame expects of them: `Description.Diagnosed` says it of the declarations.
The report depends on nothing else, whatever order the placement took.
-/
namespace FrameGraph

/-- The numbers that satisfy a condition, in ascending order. -/
structure Lists (ns : List Nat) (P : Nat → Prop) : Prop where
  ascending : ns.Pairwise (· < ·)
  mem_iff : ∀ n, n ∈ ns ↔ P n

theorem Lists.unique {ms ns : List Nat} {P : Nat → Prop} (hm : Lists ms P) (hn : Lists ns P) :
    ms = ns :=
  hm.ascending.eq_of_mem_iff hn.ascending fun n => (hm.mem_iff n).trans (hn.mem_iff n).symm

/-- The schedule or the error that a placement ends with. -/
def Workload.outcome (w : Workload) : Except GraphError Schedule := w.finish >>= w.conclude

namespace Description

/-- A blocked operation writes the buffer, and it is required or read by an
operation that is not blocked. -/
def Awaited (d : Description) (required : List Nat) (b : Nat) : Prop :=
  (∃ i, d.Blocked required i ∧ d.Writes i b) ∧
    (b ∈ required ∨ ∃ j, d.Reachable required j ∧ ¬d.Blocked required j ∧ d.Reads j b)

def operationNames (d : Description) (is : List Nat) : List String :=
  is.filterMap fun i => d.operations[i]?.map (·.name)

theorem operationNames_ne_nil {d : Description} {required is : List Nat} {i : Nat}
    (hi : d.Reachable required i) (hmem : i ∈ is) : d.operationNames is ≠ [] := by
  obtain ⟨b, -, op, hop, -⟩ := hi
  exact List.ne_nil_of_mem (List.mem_filterMap.mpr ⟨i, hmem, by rw [hop]; rfl⟩)

/-- The error that names the blocked operations and the awaited buffers, in the
order of their declaration. -/
def Diagnosed (d : Description) (required : List Nat) (e : GraphError) : Prop :=
  ∃ is bs, Lists is (d.Blocked required) ∧ Lists bs (d.Awaited required) ∧
    e = .unrealizable (bs.map d.bufferName) (d.operationNames is)

theorem Diagnosed.unique {d : Description} {required : List Nat} {e e' : GraphError}
    (h : d.Diagnosed required e) (h' : d.Diagnosed required e') : e = e' := by
  obtain ⟨is, bs, his, hbs, rfl⟩ := h
  obtain ⟨is', bs', his', hbs', rfl⟩ := h'
  rw [his.unique his', hbs.unique hbs']

namespace Selects

variable {d : Description} {required : List Nat} {config : Config} {passes selected : List Pass}
  {p : Pass}

theorem operationNames_eq (h : d.Selects required passes selected) {ps : List Pass}
    (hps : ∀ p ∈ ps, p ∈ selected) :
    d.operationNames (ps.map (·.index)) = ps.map (·.name) := by
  have hname : ∀ p ∈ ps, d.operations[p.index]?.map (·.name) = some p.name := by
    intro p hp
    obtain ⟨op, hop, -, haccepted⟩ := accepted_of_mem h.accepted (h.mem_passes (hps p hp))
    rw [hop, haccepted.name_eq, Option.map_some]
  unfold operationNames
  rw [List.filterMap_map, ← List.filterMap_eq_map]
  exact List.filterMap_congr hname

section
variable {s : Progress} (h : d.Selects required passes selected)
  (hw : (Workload.ofPasses d config required selected).WellFormed)
  (hs : (Workload.ofPasses d config required selected).Sound s)
  (hnone : ∀ q ∈ s.pending,
    (Workload.ofPasses d config required selected).ready s.ledger q = false)
include h hw hs hnone

theorem lists_pending : Lists (s.pending.map (·.index)) (d.Blocked required) where
  ascending := List.pairwise_map.mpr (hw.ordered.sublist hs.pending)
  mem_iff := by
    intro i
    rw [List.mem_map]
    constructor
    · intro hpending
      rcases hpending with ⟨p, hp, rfl⟩
      exact (h.pending_iff_blocked hw hs hnone (hs.mem_of_pending hp)).mp hp
    · intro hblocked
      obtain ⟨p, hp, rfl⟩ := h.exists_pass hblocked.reachable
      exact ⟨p, (h.pending_iff_blocked hw hs hnone hp).mpr hblocked, rfl⟩

theorem placed_iff (hp : p ∈ selected) : p ∈ s.order ↔ ¬d.Blocked required p.index := by
  rw [← h.pending_iff_blocked hw hs hnone hp]
  constructor
  · exact fun hplaced hpending => hs.apart hw hplaced hpending rfl
  · exact fun hplaced => (hs.mem_cases hp).resolve_right hplaced

/-- A buffer has a placed consumer if it is required or read by an operation
that is not blocked. -/
theorem consumed_by_placed_iff (b : Nat) :
    Workload.countConsumers (Workload.ofPasses d config required selected).required s.order b ≠ 0 ↔
      b ∈ required ∨ ∃ j, d.Reachable required j ∧ ¬d.Blocked required j ∧ d.Reads j b := by
  have hreader : (∃ q ∈ s.order, b ∈ q.reads) ↔
      ∃ j, d.Reachable required j ∧ ¬d.Blocked required j ∧ d.Reads j b := by
    constructor
    · intro hplaced
      obtain ⟨q, hq, hbq⟩ := hplaced
      have hmem : q ∈ selected := hs.mem_of_order hq
      exact ⟨q.index, h.reachable hmem, (h.placed_iff hw hs hnone hmem).mp hq,
        (reads_iff h.accepted (h.mem_passes hmem) b).mpr hbq⟩
    · intro hfree
      obtain ⟨j, hj, hfree, hreads⟩ := hfree
      obtain ⟨q, hq, rfl⟩ := h.exists_pass hj
      exact ⟨q, (h.placed_iff hw hs hnone hq).mpr hfree,
        (reads_iff h.accepted (h.mem_passes hq) b).mp hreads⟩
  rw [Ne, Workload.countConsumers_eq_zero, Workload.mem_required_ofPasses, ← hreader]
  simp only [not_and_or, not_not, not_forall, exists_prop]

theorem demanded_iff_awaited (b : Nat) : (s.ledger.demand? b).isSome ↔ d.Awaited required b := by
  constructor
  · intro hsome
    obtain ⟨demand, hdemand⟩ := Option.isSome_iff_exists.mp hsome
    obtain ⟨p, hp, hbp⟩ := h.pending_of_demand hs hdemand
    have hmem : p ∈ selected := hs.mem_of_pending hp
    refine ⟨⟨p.index, (h.pending_iff_blocked hw hs hnone hmem).mp hp,
      (writes_iff h.accepted (h.mem_passes hmem) b).mpr hbp⟩, ?_⟩
    exact (h.consumed_by_placed_iff hw hs hnone b).mp ((hs.demanded b).mp hsome).1
  · intro hawaited
    obtain ⟨⟨i, hblocked, hwrites⟩, hconsumed⟩ := hawaited
    obtain ⟨p, hp, rfl⟩ := h.exists_pass hblocked.reachable
    have hpending := (h.pending_iff_blocked hw hs hnone hp).mpr hblocked
    have hbp := (writes_iff h.accepted (h.mem_passes hp) b).mp hwrites
    rw [hs.demanded_of_writes hw hpending hbp]
    exact (h.consumed_by_placed_iff hw hs hnone b).mpr hconsumed

theorem lists_openBuffers : Lists s.ledger.openBuffers (d.Awaited required) where
  ascending := List.Pairwise.filter _ List.pairwise_lt_range
  mem_iff := by
    intro b
    rw [← h.demanded_iff_awaited hw hs hnone, Ledger.openBuffers, List.mem_filter, List.mem_range]
    refine and_iff_right_of_imp fun hsome => ?_
    obtain ⟨demand, hdemand⟩ := Option.isSome_iff_exists.mp hsome
    exact Ledger.lt_of_demand? hdemand

end

/-- A placement of checked passes ends with a schedule, or some operation is
blocked and the error says which. -/
theorem schedules (h : d.Selects required passes selected)
    (hbindings : (Workload.ofPasses d config required selected).checkBindings selected = .ok ()) :
    (∃ last s, Compilation d required config passes selected last s ∧
      (Workload.ofPasses d config required selected).outcome = .ok s) ∨
    ∃ e i, d.Blocked required i ∧ d.Diagnosed required e ∧
      (Workload.ofPasses d config required selected).outcome = .error e := by
  have hw := h.wellFormed hbindings
  obtain ⟨last, hfinish, hhead, hsound, hstuck⟩ := Workload.finish_spec hw
  have hconclude : (Workload.ofPasses d config required selected).outcome =
      (Workload.ofPasses d config required selected).conclude last := by
    rw [Workload.outcome, hfinish]
    rfl
  rw [hconclude]
  by_cases hopen : last.ledger.openCount = 0
  · have hclosed := hsound.balanced.openCount_eq_zero.mp hopen
    have hpending := h.pending_eq_nil hw hsound hclosed
    refine .inl ⟨last, _, ⟨h, hw, hhead, hsound, hclosed, rfl⟩, ?_⟩
    rw [Workload.conclude, if_neg (by simpa using hopen), if_neg (by simpa using hpending)]
    rfl
  · have hnone := hstuck.resolve_left hopen
    obtain ⟨b, hb⟩ := not_forall.mp (hsound.balanced.openCount_eq_zero.not.mp hopen)
    obtain ⟨i, hblocked, -⟩ :=
      ((h.demanded_iff_awaited hw hsound hnone b).mp (Option.isSome_iff_ne_none.mpr hb)).1
    refine .inr ⟨_, i, hblocked, ⟨_, _, h.lists_pending hw hsound hnone,
      h.lists_openBuffers hw hsound hnone, rfl⟩, ?_⟩
    rw [Workload.conclude, if_pos hopen, h.operationNames_eq fun p hp => hsound.mem_of_pending hp]
    rfl

end Selects
end Description
end FrameGraph
