import FrameGraph.Proofs.Compilation

/-!
# The order of execution

A schedule runs exactly the operations that the required buffers depend on,
each of them once, and every operation after those that produce its inputs.
-/
namespace FrameGraph

namespace Compilation

variable {d : Description} {required : List Nat} {config : Config} {passes selected : List Pass}
  {last : Progress} {s : Schedule} {phase : Phase} {k : Nat}

theorem operations_eq (h : Compilation d required config passes selected last s) :
    s.phases.map (·.operation) = last.order.map (·.index) := by
  rw [h.phases_eq, List.map_map]
  rfl

theorem operations_nodup (h : Compilation d required config passes selected last s) :
    (s.phases.map (·.operation)).Nodup :=
  h.operations_eq ▸ h.indices_nodup

theorem mem_operations (h : Compilation d required config passes selected last s) (i : Nat) :
    i ∈ s.phases.map (·.operation) ↔ d.Reachable required i := by
  rw [h.operations_eq, List.mem_map]
  constructor
  · intro hplaced
    rcases hplaced with ⟨p, hp, rfl⟩
    exact h.selects.reachable (h.mem_order.mp hp)
  · intro hi
    obtain ⟨p, hp, rfl⟩ := h.selects.exists_pass hi
    exact ⟨p, h.mem_order.mpr hp, rfl⟩

/-- A phase is the pass at its place in the order, with the slots on record. -/
theorem exists_pass_of_phase (h : Compilation d required config passes selected last s)
    (hphase : s.phases[k]? = some phase) :
    ∃ p, last.order[k]? = some p ∧ p ∈ passes ∧ phase = p.phase s.allocation := by
  rw [h.phases_eq, List.getElem?_map] at hphase
  obtain ⟨p, hp, rfl⟩ := Option.map_eq_some_iff.mp hphase
  exact ⟨p, hp, h.selects.mem_passes (h.mem_order.mp (List.mem_of_getElem? hp)), rfl⟩

/-- A phase, the pass that it was made of and the operation of the pass. -/
theorem exists_accepted (h : Compilation d required config passes selected last s)
    (hphase : phase ∈ s.phases) : ∃ p op, p ∈ last.order ∧ phase = p.phase s.allocation ∧
      d.operations[phase.operation]? = some op ∧
      op.Accepted d.buffers.length phase.operation p := by
  rw [h.phases_eq] at hphase
  obtain ⟨p, hp, rfl⟩ := List.mem_map.mp hphase
  have hmem : p ∈ passes := h.selects.mem_passes (h.mem_order.mp hp)
  obtain ⟨op, hop, -, haccepted⟩ := Description.accepted_of_mem h.selects.accepted hmem
  exact ⟨p, op, hp, rfl, hop, haccepted⟩

/-- The inputs of a phase are those of its operation, in their order. -/
theorem inputs_eq (h : Compilation d required config passes selected last s)
    (hphase : s.phases[k]? = some phase) :
    ∃ op, d.operations[phase.operation]? = some op ∧
      phase.inputs.map (·.buffer) = op.reads := by
  obtain ⟨p, op, -, rfl, hop, haccepted⟩ := h.exists_accepted (List.mem_of_getElem? hphase)
  refine ⟨op, hop, ?_⟩
  rw [← haccepted.reads_eq, Pass.phase, List.map_map]
  rfl

theorem producer_phase (h : Compilation d required config passes selected last s)
    (hphase : s.phases[k]? = some phase) {b : Nat} (hb : b ∈ phase.inputs.map (·.buffer)) :
    ∃ j q, j < k ∧ s.phases[j]? = some q ∧ d.Writes q.operation b ∧
      ∀ i, d.Writes i b → i = q.operation := by
  obtain ⟨p, hp, -, rfl⟩ := h.exists_pass_of_phase hphase
  rw [Pass.phase, List.map_map] at hb
  obtain ⟨j, q, hjk, hq, hbq⟩ := h.producer_before hp hb
  have hmem : q ∈ passes :=
    h.selects.mem_passes (h.mem_order.mp (List.mem_of_getElem? hq))
  have hwrites : d.Writes q.index b := (Description.writes_iff h.selects.accepted hmem b).mpr hbq
  refine ⟨j, q.phase s.allocation, hjk, ?_, hwrites, fun i hi => ?_⟩
  · rw [h.phases_eq, List.getElem?_map, hq, Option.map_some]
  · exact Description.writer_unique h.selects.accepted hi hwrites

end Compilation

/-- The operations of a schedule are, without repetition, the reachable ones, and
the one producer of every input of a phase is the operation of an earlier phase. -/
theorem order_of_compile {d : Description} {required : List Nat} {config : Config} {s : Schedule}
    (h : compile d required config = .ok s) :
    (s.phases.map (·.operation)).Nodup ∧
      (∀ i, i ∈ s.phases.map (·.operation) ↔ d.Reachable required i) ∧
      ∀ (k : Nat) (phase : Phase), s.phases[k]? = some phase →
        (∃ op, d.operations[phase.operation]? = some op ∧
          phase.inputs.map (·.buffer) = op.reads) ∧
        ∀ b ∈ phase.inputs.map (·.buffer), ∃ j q, j < k ∧ s.phases[j]? = some q ∧
          d.Writes q.operation b ∧ ∀ i, d.Writes i b → i = q.operation := by
  obtain ⟨passes, selected, last, hcompilation⟩ := compilation_of_compile h
  refine ⟨hcompilation.operations_nodup, hcompilation.mem_operations, ?_⟩
  intro k phase hphase
  exact ⟨hcompilation.inputs_eq hphase, fun b hb => hcompilation.producer_phase hphase hb⟩

theorem order_tintInPlace :
    compile tintInPlace [1] {} = .ok tintedSchedule ∧
      (∀ i, i ∈ [0, 1] ↔ tintInPlace.Reachable [1] i) ∧
      ∃ j q, j < 1 ∧ tintedSchedule.phases[j]? = some q ∧ tintInPlace.Writes q.operation 0 ∧
        ∀ i, tintInPlace.Writes i 0 → i = q.operation :=
  ⟨compile_tintInPlace, (order_of_compile compile_tintInPlace).2.1,
    ((order_of_compile compile_tintInPlace).2.2 1 _ rfl).2 0 (by decide)⟩

end FrameGraph
