import FrameGraph.Proofs.Compilation
import Mathlib.Data.Set.Function

/-!
# The demands that are open between two rounds

Whenever the loop of a placement is about to pick a pass, the ledger can be read
off the passes placed so far. A buffer is demanded from its last consumer, the
presenter being the very last, back to its producer; its demand counts the
consumers placed, and the slots of the demands are the slots in use, one each.
`Workload.Tallied` says so.

The loop keeps more than that (`Workload.Sound`): a pass is placed after all
consumers of its outputs, so no demand is opened again once it was closed. This is
what makes any ready pass leave a tallied ledger behind, the cheapest or not.
-/
namespace FrameGraph

namespace Workload

variable {w : Workload} {s next : Progress} {p : Pass} {b : Nat}

/-- The ledger as it follows from the passes placed and pending. -/
structure Tallied (w : Workload) (s : Progress) : Prop where
  demanded : ∀ b, (s.ledger.demand? b).isSome ↔
    (b ∈ w.required ∨ ∃ q ∈ s.order, b ∈ q.reads) ∧ ∃ p ∈ s.pending, b ∈ p.writes
  uses : ∀ b demand, s.ledger.demand? b = some demand →
    demand.uses = s.order.countP (b ∈ ·.reads) + (if b ∈ w.required then 1 else 0) ∧
      demand.uses ≤ w.consumersOf b
  openCount : s.ledger.openCount = s.ledger.demands.countP Option.isSome
  parted : (s.order ++ s.pending).Perm w.passes
  pending : s.pending = w.passes.filter (· ∉ s.order)
  ascending : s.pending.Pairwise fun p q => p.index < q.index
  slots : Set.BijOn s.ledger.slot? {b | (s.ledger.demand? b).isSome}
    (some '' {x | s.ledger.slots.Live x})
  classes : ∀ b x, s.ledger.slot? b = some x → ∃ c,
    w.description.classOf? w.config.resolution b = some c ∧
      s.ledger.slots.class? x.classId = some c

end Workload

namespace Ledger

variable {w : Workload} {l : Ledger} {b : Nat}

theorem slot?_isSome (l : Ledger) (b : Nat) : (l.slot? b).isSome ↔ (l.demand? b).isSome := by
  simp [slot?]

theorem Balanced.slots_bijOn (h : l.Balanced w fun _ => False) :
    Set.BijOn l.slot? {b | (l.demand? b).isSome} (some '' {x | l.slots.Live x}) := by
  refine ⟨?_, ?_, ?_⟩
  · intro b hb
    obtain ⟨x, hx⟩ := Option.isSome_iff_exists.mp ((l.slot?_isSome b).mpr hb)
    obtain ⟨demand, hdemand, hslot⟩ := slot?_eq_some.mp hx
    rw [hx]
    exact ⟨x, (h.live x).mpr (.inr ⟨b, demand, hdemand, hslot⟩), rfl⟩
  · intro b hb c _ hbc
    obtain ⟨x, hx⟩ := Option.isSome_iff_exists.mp ((l.slot?_isSome b).mpr hb)
    exact h.slot?_injective hx (hbc.symm.trans hx)
  · intro slot hslot
    obtain ⟨x, hx, rfl⟩ := hslot
    rcases (h.live x).mp hx with hheld | ⟨b, demand, hdemand, hallocation⟩
    · exact hheld.elim
    · exact ⟨b, by simp [hdemand], slot?_eq_some.mpr ⟨demand, hdemand, hallocation⟩⟩

end Ledger

namespace Workload

variable {w : Workload} {s next : Progress} {p : Pass} {b : Nat}

namespace Sound

theorem demanded_iff (hw : w.WellFormed) (hs : w.Sound s) (b : Nat) :
    (s.ledger.demand? b).isSome ↔
      (b ∈ w.required ∨ ∃ q ∈ s.order, b ∈ q.reads) ∧ ∃ p ∈ s.pending, b ∈ p.writes := by
  have hconsumed : countConsumers w.required s.order b ≠ 0 ↔
      b ∈ w.required ∨ ∃ q ∈ s.order, b ∈ q.reads := by
    rw [Ne, countConsumers_eq_zero]
    simp only [not_and_or, not_not, not_forall, exists_prop]
  rw [hs.demanded, hconsumed]
  refine and_congr_right fun hneeded => ?_
  constructor
  · intro hunwritten
    have hread : b ∈ w.required ∨ ∃ q ∈ w.passes, b ∈ q.reads :=
      hneeded.imp_right fun ⟨q, hq, hbq⟩ => ⟨q, hs.mem_of_order hq, hbq⟩
    obtain ⟨p, hp, hbp⟩ := hw.produced b hread
    rcases hs.mem_cases hp with hplaced | hpending
    · exact absurd hbp (hunwritten p hplaced)
    · exact ⟨p, hpending, hbp⟩
  · intro hproducer q hq
    obtain ⟨p, hp, hbp⟩ := hproducer
    exact hs.unwritten hw hp hbp hq

/-- Placed and pending passes together being the selected ones, a demand counts no
more consumers than there are. -/
theorem countConsumers_le (hw : w.WellFormed) (hs : w.Sound s) (hb : b < w.tableSize) :
    countConsumers w.required s.order b ≤ w.consumersOf b := by
  rw [hs.consumersOf_eq hw hb]
  exact Nat.le_add_right _ _

theorem pending_eq_filter (hw : w.WellFormed) (hs : w.Sound s) :
    s.pending = w.passes.filter (· ∉ s.order) := by
  apply passes_unique (hw.ordered.sublist hs.pending) (hw.ordered.filter _)
  intro p
  rw [List.mem_filter, decide_eq_true_eq]
  constructor
  · intro hpending
    exact ⟨hs.mem_of_pending hpending, fun hplaced => hs.apart hw hplaced hpending rfl⟩
  · intro hp
    exact (hs.mem_cases hp.1).resolve_left hp.2

theorem tallied (hw : w.WellFormed) (hs : w.Sound s)
    (hclass : ∀ p ∈ w.passes, ∀ b ∈ p.writes,
      w.slots.classes[w.classId b]? = w.description.classOf? w.config.resolution b) :
    w.Tallied s where
  demanded := hs.demanded_iff hw
  uses := by
    intro b demand hdemand
    have hb : b < w.tableSize := hs.balanced.demands_length ▸ Ledger.lt_of_demand? hdemand
    have huses := hs.uses b demand hdemand
    refine ⟨?_, huses ▸ hs.countConsumers_le hw hb⟩
    rw [huses]
    simp [countConsumers]
  openCount := hs.balanced.openCount
  parted := hs.parted
  pending := hs.pending_eq_filter hw
  ascending := hw.ordered.sublist hs.pending
  slots := hs.balanced.slots_bijOn
  classes := by
    intro b x hx
    have hdemanded : (s.ledger.demand? b).isSome :=
      (s.ledger.slot?_isSome b).mp (Option.isSome_of_mem hx)
    obtain ⟨-, p, hp, hbp⟩ := (hs.demanded_iff hw b).mp hdemanded
    have hmem := hs.mem_of_pending hp
    have hlt := (hw.valid p hmem).writes_lt b hbp
    have hc := Description.classOf?_of_lt hlt w.config.resolution
    refine ⟨_, hc, ?_⟩
    rw [SlotAllocator.class?, hs.balanced.classes,
      hs.balanced.classed b x (hs.balanced.allocation?_of_slot? hx), hclass p hmem b hbp, hc]

end Sound

theorem Places.pending_erase (hw : w.WellFormed) (hs : w.Sound s) (h : w.Places s p next) :
    next.pending = s.pending.erase p := by
  obtain ⟨before, after, hpending, hrest⟩ := h.pending_eq hw hs
  have hnodup : (before ++ p :: after).Nodup := hpending ▸ hs.pending.nodup hw.passes_nodup
  have hnew : p ∉ before := fun hp => (List.nodup_append.mp hnodup).2.2 p hp p (.head _) rfl
  rw [hrest, hpending, List.erase_append_right _ hnew, List.erase_cons_head]

end Workload

/-- Whenever the loop of a placement is about to pick a pass, the ledger is the one
that follows from the passes placed, and placing any pass that is ready leads to
such a ledger again. -/
theorem tallied_of_head {d : Description} {config : Config} {required : List Nat}
    {selection : Selection} {s : Progress} (hselection : d.selection required = .ok selection)
    (hbindings : (Workload.ofPasses d config required selection.passes).checkBindings
      selection.passes = .ok ())
    (hhead : (Workload.ofPasses d config required selection.passes).Head s) :
    (Workload.ofPasses d config required selection.passes).Tallied s ∧
    ∀ p ∈ s.pending, (Workload.ofPasses d config required selection.passes).ready s.ledger p →
      ∀ weighed, ∃ next,
        (Workload.ofPasses d config required selection.passes).place s weighed
          ⟨p, (Workload.ofPasses d config required selection.passes).plan s.ledger p⟩ = .ok next ∧
        next.order = p :: s.order ∧ next.pending = s.pending.erase p ∧
        (Workload.ofPasses d config required selection.passes).Tallied next := by
  obtain ⟨passes, hselects⟩ := Description.selects_of_selection hselection
  have hw := hselects.wellFormed hbindings
  have hs := hhead.sound hw
  have hclass : ∀ p ∈ selection.passes, ∀ b ∈ p.writes,
      (Workload.ofPasses d config required selection.passes).slots.classes[
        (Workload.ofPasses d config required selection.passes).classId b]? =
          d.classOf? config.resolution b := by
    intro p hp b hbp
    apply Workload.getElem?_classes_ofPasses ((hw.valid p hp).writes_lt b hbp)
    exact Workload.mem_meetingOrder.mpr (.inr ⟨p, hp, .inl hbp⟩)
  refine ⟨hs.tallied hw hclass, ?_⟩
  intro p hp hready weighed
  obtain ⟨next, hplace, hplaces⟩ := Workload.place_ready hw hs hp hready weighed
  refine ⟨next, hplace, hplaces.order_eq, hplaces.pending_erase hw hs, ?_⟩
  exact (hplaces.sound hw hs).tallied hw hclass

/-- A texture is tinted in place and blended into the output; both are presented. No
one reads the mark that the tint leaves. -/
def tintedBlend : Description where
  buffers := [.texture "raw" (.absolute ⟨4, 4⟩) .rgba8Unorm,
    .texture "tinted" (.absolute ⟨4, 4⟩) .rgba8Unorm, .dummy "mark",
    .texture "out" (.absolute ⟨4, 4⟩) .rgba8Unorm]
  operations := [
    { name := "draw", outputs := [⟨"out", some 0⟩] },
    { name := "tint", inputs := [⟨"in", some 0⟩],
      outputs := [⟨"mark", some 2⟩, ⟨"out", some 1⟩],
      bindings := [("in", "out")], optionalOutputs := ["mark"] },
    { name := "blend", inputs := [⟨"in", some 1⟩], outputs := [⟨"out", some 3⟩],
      bindings := [("in", "out")] }]

def tintedBlendPasses : List Pass := [
  ⟨0, "draw", [], [⟨⟨0, 0⟩, false⟩], []⟩,
  ⟨1, "tint", [⟨0, 0⟩], [⟨⟨0, 2⟩, true⟩, ⟨⟨1, 1⟩, false⟩], [(0, 1)]⟩,
  ⟨2, "blend", [⟨0, 1⟩], [⟨⟨0, 3⟩, false⟩], [(0, 0)]⟩]

def tintedBlendWorkload : Workload := .ofPasses tintedBlend {} [3, 1] tintedBlendPasses

/-- The blend has been placed, as no other pass was ready. -/
def blended : Progress :=
  match tintedBlendWorkload.round tintedBlendWorkload.start with
  | .ok (some next) => next
  | _ => tintedBlendWorkload.start

/-- Once the blend is placed, the tint is ready; it takes over the slot that it gives
back and discards its mark. -/
theorem tallied_tintedBlend :
    tintedBlendWorkload.Head blended ∧ blended.order.map (·.name) = ["blend"] ∧
      tintedBlendWorkload.Tallied blended ∧
      ∃ p ∈ blended.pending, p.name = "tint" ∧ tintedBlendWorkload.ready blended.ledger p ∧
        (tintedBlendWorkload.inPlace blended.ledger p).length = 1 ∧
        ∃ next, tintedBlendWorkload.place blended []
            ⟨p, tintedBlendWorkload.plan blended.ledger p⟩ = .ok next ∧
          tintedBlendWorkload.Tallied next := by
  have hhead : tintedBlendWorkload.Head blended := .round .start rfl
  obtain ⟨htallied, hplace⟩ :=
    @tallied_of_head tintedBlend {} [3, 1] ⟨tintedBlendPasses, 3⟩ blended rfl rfl hhead
  have hpending : tintedBlendPasses[1] ∈ blended.pending := by decide
  have hready : tintedBlendWorkload.ready blended.ledger tintedBlendPasses[1] = true := by decide
  obtain ⟨next, hnext, -, -, hafter⟩ := hplace _ hpending hready []
  exact ⟨hhead, rfl, htallied, _, hpending, rfl, hready, rfl, next, hnext, hafter⟩

end FrameGraph
