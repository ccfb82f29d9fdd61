import FrameGraph.Proofs.SlotPeaks

/-!
# One slot for each buffer

A schedule puts a buffer on record with a slot exactly if the buffer is required
or some phase reads it. The slot is one of those that the schedule asks for, in
the class that the buffer has at the resolution of the configuration, and it is
the slot at every port that carries the buffer, of its producer as of all its
consumers.

A placement learns of a slot in three ways: a required buffer gets one at the
start, an input gets a new one or the one of an output. The ledger keeps them in
one table, and `Ledger.Balanced` holds of it throughout; so nothing is said here
about single rounds.
-/
namespace FrameGraph

namespace Schedule

variable {s : Schedule} {ports : List Port}

/-- A buffer that is required or read by a phase. -/
def Needs (s : Schedule) (required : List Nat) (b : Nat) : Prop :=
  b ∈ required ∨ ∃ phase ∈ s.phases, b ∈ phase.inputs.map (·.buffer)

/-- One entry for each port that is present, in port order, with the buffer
declared there and the slot on record for it. -/
structure Records (s : Schedule) (ports : List Port) (entries : List PortSlot) : Prop where
  ascending : entries.Pairwise fun e f => e.port < f.port
  present : ∀ place b, (∃ e ∈ entries, e.port = place ∧ e.buffer = b) ↔
    ∃ p, ports[place]? = some p ∧ p.buffer? = some b
  recorded : ∀ e ∈ entries, e.allocation = s.allocation e.buffer

theorem records_portSlots (s : Schedule) (ports : List Port) :
    s.Records ports (Operation.portSlots s.allocation 0 ports) where
  ascending := List.pairwise_map.mpr (Operation.ascending_presentPorts 0 ports)
  present := by
    intro place b
    constructor
    · rintro ⟨e, he, rfl, rfl⟩
      obtain ⟨q, hq, rfl⟩ := List.mem_map.mp he
      exact Operation.mem_presentPorts.mp hq
    · intro hp
      have hq : (⟨place, b⟩ : PresentPort) ∈ Operation.presentPorts 0 ports :=
        Operation.mem_presentPorts.mpr hp
      exact ⟨_, List.mem_map_of_mem hq, rfl, rfl⟩
  recorded := by
    intro e he
    obtain ⟨q, -, rfl⟩ := List.mem_map.mp he
    rfl

/-- A phase has an entry for each present port of its operation. All inputs have
slots; an output without one is optional, and no one needs its buffer. -/
structure Equips (s : Schedule) (required : List Nat) (phase : Phase) (op : Operation) : Prop where
  inputs : s.Records op.inputs phase.inputs
  outputs : s.Records op.outputs phase.outputs
  supplied : ∀ e ∈ phase.inputs, e.allocation ≠ none
  discarded : ∀ e ∈ phase.outputs, e.allocation = none →
    (∃ p, op.outputs[e.port]? = some p ∧ op.isOptional p.name = true) ∧ ¬s.Needs required e.buffer

end Schedule

namespace Compilation

variable {d : Description} {required : List Nat} {config : Config} {passes selected : List Pass}
  {last : Progress} {s : Schedule} {phase : Phase} {op : Operation} {b : Nat} {x : Allocation}

theorem needs_iff (h : Compilation d required config passes selected last s) :
    s.Needs required b ↔ b ∈ required ∨ ∃ p ∈ last.order, b ∈ p.reads := by
  have hreads : ∀ p : Pass, (p.phase s.allocation).inputs.map (·.buffer) = p.reads := by
    intro p
    rw [Pass.phase, List.map_map]
    rfl
  unfold Schedule.Needs
  simp only [h.phases_eq, List.mem_map (l := last.order), exists_exists_and_eq_and, hreads]

theorem wanted_of_needs (h : Compilation d required config passes selected last s)
    (hb : s.Needs required b) : d.Wanted required b := by
  rcases h.needs_iff.mp hb with hreq | ⟨p, hp, hread⟩
  · exact .required hreq
  · exact h.selects.wanted_of_reads (h.mem_order.mp hp) hread

theorem countConsumers_ne_zero (h : Compilation d required config passes selected last s) :
    Workload.countConsumers (Workload.ofPasses d config required selected).required last.order b ≠ 0
      ↔ s.Needs required b := by
  rw [Ne, Workload.countConsumers_eq_zero, Workload.mem_required_ofPasses, h.needs_iff,
    not_and_or, not_not]
  simp only [not_forall, not_not, exists_prop]

theorem allocation_isSome (h : Compilation d required config passes selected last s) :
    (s.allocation b).isSome ↔ s.Needs required b := by
  rw [h.allocation_eq, h.sound.met, h.countConsumers_ne_zero]

theorem allocation_eq_none (h : Compilation d required config passes selected last s) :
    s.allocation b = none ↔ ¬s.Needs required b := by
  rw [← h.allocation_isSome, Option.not_isSome_iff_eq_none]

theorem exists_class (h : Compilation d required config passes selected last s)
    (hx : s.allocation b = some x) : ∃ c, d.classOf? config.resolution b = some c ∧
      s.class? x.classId = some c ∧ x.slot < s.peak c := by
  have hneeds : s.Needs required b := h.allocation_isSome.mp (by simp [hx])
  obtain ⟨q, hq, hbq⟩ := h.selects.exists_writer (h.wanted_of_needs hneeds)
  have hlt : b < d.buffers.length := (h.wellFormed.valid q hq).writes_lt b hbq
  -- Having been met, the class of the buffer stands where the class number says.
  have hmet : b ∈ Workload.meetingOrder required selected :=
    Workload.mem_meetingOrder.mpr (.inr ⟨q, hq, .inl hbq⟩)
  have hnumber := h.sound.balanced.classed b x ((h.allocation_eq b).symm.trans hx)
  have hc := Description.classOf?_of_lt hlt config.resolution
  generalize d.buffers[b].storageClass config.resolution = c at hc
  have hclass : s.class? x.classId = some c := by
    unfold Schedule.class?
    rw [← List.getElem?_map, h.map_peaks, hnumber, Workload.getElem?_classes_ofPasses hlt hmet, hc]
  obtain ⟨e, he, hslot⟩ := h.exists_peak hx
  obtain rfl : e.1 = c := by
    unfold Schedule.class? at hclass
    rw [he] at hclass
    exact Option.some.inj hclass
  refine ⟨e.1, hc, hclass, ?_⟩
  rwa [Schedule.peak_of_mem h.peaks_nodup (List.mem_of_getElem? he)]

/-- No pass being left over, a buffer that is not needed has no consumer at all. -/
theorem consumersOf_eq_zero (h : Compilation d required config passes selected last s)
    (hlt : b < d.buffers.length) (hb : ¬s.Needs required b) :
    (Workload.ofPasses d config required selected).consumersOf b = 0 := by
  rw [h.sound.consumersOf_eq h.wellFormed hlt, h.pending_eq_nil, List.countP_nil, Nat.add_zero]
  by_contra hcount
  exact hb (h.countConsumers_ne_zero.mp hcount)

theorem optional_of_not_needs (h : Compilation d required config passes selected last s)
    (hphase : phase ∈ s.phases) (hop : d.operations[phase.operation]? = some op)
    {place : Nat} {p : Port} (hp : op.outputs[place]? = some p) (hb : p.buffer? = some b)
    (hneeds : ¬s.Needs required b) : op.isOptional p.name = true := by
  obtain ⟨q, op', hq, -, hop', haccepted⟩ := h.exists_accepted hphase
  obtain rfl : op = op' := Option.some.inj (hop.symm.trans hop')
  have ho : (⟨⟨place, b⟩, op.isOptional p.name⟩ : PassOutput) ∈ q.outputs :=
    haccepted.mem_outputs.mpr ⟨p, hp, hb, rfl⟩
  have hlt := haccepted.writes_lt b (List.mem_map_of_mem ho)
  exact h.sound.wanted q hq _ ho (h.consumersOf_eq_zero hlt hneeds)

theorem equips (h : Compilation d required config passes selected last s)
    (hphase : phase ∈ s.phases) (hcarries : phase.CarriesOut d s op) :
    s.Equips required phase op := by
  have hinputs : s.Records op.inputs phase.inputs :=
    hcarries.inputs_eq ▸ s.records_portSlots op.inputs
  have houtputs : s.Records op.outputs phase.outputs :=
    hcarries.outputs_eq ▸ s.records_portSlots op.outputs
  refine ⟨hinputs, houtputs, ?_, ?_⟩
  · intro e he
    rw [hinputs.recorded e he, ← Option.isSome_iff_ne_none, h.allocation_isSome]
    exact .inr ⟨phase, hphase, List.mem_map_of_mem he⟩
  · intro e he hnone
    rw [houtputs.recorded e he, h.allocation_eq_none] at hnone
    obtain ⟨p, hp, hb⟩ := (houtputs.present e.port e.buffer).mp ⟨e, he, rfl, rfl⟩
    exact ⟨⟨p, hp, h.optional_of_not_needs hphase hcarries.declared hp hb hnone⟩, hnone⟩

end Compilation

/-- Every buffer that is needed has one slot, of its class and within the size of
the class, and no other buffer has any. Every phase lists the ports of its
operation with these slots. -/
theorem slots_of_compile {d : Description} {required : List Nat} {config : Config} {s : Schedule}
    (hcompile : compile d required config = .ok s) :
    (∀ b, (s.allocation b).isSome ↔ s.Needs required b) ∧
    (∀ b x, s.allocation b = some x → ∃ c, d.classOf? config.resolution b = some c ∧
      s.class? x.classId = some c ∧ x.slot < s.peak c) ∧
    (∀ phase ∈ s.phases, ∃ op, d.operations[phase.operation]? = some op ∧
      s.Equips required phase op) ∧
    ∀ i j c, s.class? i = some c → s.class? j = some c → i = j := by
  obtain ⟨passes, selected, last, h⟩ := compilation_of_compile hcompile
  refine ⟨fun b => h.allocation_isSome, fun b x hx => h.exists_class hx, ?_, ?_⟩
  · intro phase hphase
    obtain ⟨op, hop⟩ := h.exists_carriesOut hphase
    exact ⟨op, hop.declared, h.equips hphase hop⟩
  · intro i j c hi hj
    exact Schedule.class?_injective h.peaks_nodup hi hj

/-- A texture that is tinted without a mask. The mark would say that it is done;
no one has to read it. -/
def unmaskedTint : Description where
  buffers := [.texture "raw" (.absolute ⟨4, 4⟩) .rgba8Unorm,
    .texture "tinted" (.absolute ⟨4, 4⟩) .rgba8Unorm, .dummy "mark"]
  operations := [
    { name := "tint", inputs := [⟨"mask", none⟩, ⟨"in", some 0⟩],
      outputs := [⟨"mark", some 2⟩, ⟨"out", some 1⟩], optionalOutputs := ["mark"] },
    { name := "draw", outputs := [⟨"out", some 0⟩] }]

def unmaskedSchedule : Schedule where
  phases := [⟨1, "draw", [], [⟨0, 0, some ⟨0, 1⟩⟩]⟩,
    ⟨0, "tint", [⟨1, 0, some ⟨0, 1⟩⟩], [⟨0, 2, none⟩, ⟨1, 1, some ⟨0, 0⟩⟩]⟩]
  peaks := [(.texture ⟨4, 4⟩ .rgba8Unorm, 2), (.dummy, 0)]
  allocations := [some ⟨0, 1⟩, some ⟨0, 0⟩, none]
  resolution := ⟨1280, 720⟩

theorem compile_unmaskedTint : compile unmaskedTint [1] {} = .ok unmaskedSchedule := by rfl

/-- The mark has no slot, as no one needs it. -/
theorem slots_unmaskedTint :
    compile unmaskedTint [1] {} = .ok unmaskedSchedule ∧
      ¬unmaskedSchedule.Needs [1] 2 ∧
      ∃ op, unmaskedTint.operations[0]? = some op ∧
        unmaskedSchedule.Equips [1] ⟨0, "tint", [⟨1, 0, some ⟨0, 1⟩⟩],
          [⟨0, 2, none⟩, ⟨1, 1, some ⟨0, 0⟩⟩]⟩ op := by
  obtain ⟨hneeds, -, hequips, -⟩ := slots_of_compile compile_unmaskedTint
  refine ⟨compile_unmaskedTint, ?_, hequips _ (.tail _ (.head _))⟩
  rw [← hneeds]
  decide

end FrameGraph
