import FrameGraph.Proofs.DeclaredRequirements

/-!
# Well-declared descriptions

What the requirements on an operation amount to: `Operation.WellDeclared` says
without any order of checks when a description accepts an operation after those
before it, and `Operation.Translates` what its pass keeps of it. A description
has passes exactly if all its operations are well declared, and else it is
refused for the first operation that is not.
-/
namespace FrameGraph
open Requirement

/-- An operation that its description accepts after the operations before it. -/
structure Operation.WellDeclared (op : Operation) (d : Description) (before : List Operation) :
    Prop where
  input_names : (op.inputs.map (·.name)).Nodup
  output_names : (op.outputs.map (·.name)).Nodup
  reads_lt : ∀ b ∈ op.reads, b < d.buffers.length
  writes_lt : ∀ b ∈ op.writes, b < d.buffers.length
  reads_nodup : op.reads.Nodup
  writes_nodup : op.writes.Nodup
  disjoint : ∀ b ∈ op.reads, b ∉ op.writes
  optional_declared : ∀ o ∈ op.optionalOutputs, ∃ p ∈ op.outputs, p.name = o
  bound_present : ∀ n ∈ op.bindings, (∃ p ∈ op.inputs, p.name = n.1 ∧ p.buffer?.isSome) ∧
    ∃ p ∈ op.outputs, p.name = n.2 ∧ p.buffer?.isSome
  bound_inputs : (op.bindings.map (·.1)).Nodup
  bound_outputs : (op.bindings.map (·.2)).Nodup
  unwritten : ∀ other ∈ before, ∀ b ∈ op.writes, b ∉ other.writes

namespace Operation

variable {op : Operation} {side : Side} {ports : List Port} {d : Description}
  {before : List Operation}

theorem portNames_met : firstUnmet (along (op.portName side) [] ports) = none ↔
    (ports.map (·.name)).Nodup := by
  rw [firstUnmet_along_eq_none, nodup_map_iff]
  simp [portName, unmet?_eq_none]

theorem portBuffers_met {tableSize : Nat} :
    firstUnmet (along (op.portBuffer side tableSize) [] ports) = none ↔
      (∀ b ∈ ports.filterMap (·.buffer?), b < tableSize) ∧
        (ports.filterMap (·.buffer?)).Nodup := by
  have hport : ∀ (before : List Port) (p : Port),
      firstUnmet (op.portBuffer side tableSize before p) = none ↔
        ∀ b, p.buffer? = some b → b < tableSize ∧ b ∉ before.filterMap (·.buffer?) := by
    intro before p
    cases hp : p.buffer? <;> simp [portBuffer, hp, unmet?_eq_none]
  rw [firstUnmet_along_eq_none, nodup_filterMap_iff]
  simp only [hport]
  constructor
  · intro h
    constructor
    · intro b hb
      obtain ⟨p, hp, hpb⟩ := List.mem_filterMap.mp hb
      obtain ⟨ys, zs, hsplit⟩ := List.append_of_mem hp
      exact (h ys p zs hsplit b hpb).1
    · exact fun ys p zs hsplit b hpb => (h ys p zs hsplit b hpb).2
  · rintro ⟨hlt, hnew⟩ ys p zs hsplit b hpb
    refine ⟨hlt b (List.mem_filterMap.mpr ⟨p, ?_, hpb⟩), hnew ys p zs hsplit b hpb⟩
    simp [hsplit]

theorem buffersApart_met : firstUnmet (op.buffersApart d) = none ↔
    ∀ b ∈ op.reads, b ∉ op.writes := by
  simp [buffersApart, firstUnmet_eq_none]

theorem optionalNames_met : firstUnmet op.optionalNames = none ↔
    ∀ o ∈ op.optionalOutputs, ∃ p ∈ op.outputs, p.name = o := by
  simp [optionalNames, firstUnmet_eq_none]

theorem boundPort_met {name : String} : firstUnmet (op.boundPort ports name) = none ↔
    ∃ p ∈ ports, p.name = name ∧ p.buffer?.isSome := by
  simp only [boundPort, firstUnmet_eq_none, List.forall_mem_cons, decide_eq_true_eq, List.mem_map,
    List.mem_filter, List.not_mem_nil, false_implies, implies_true, and_true]
  constructor
  · rintro ⟨-, p, ⟨hp, hsome⟩, hname⟩
    exact ⟨p, hp, hname, hsome⟩
  · rintro ⟨p, hp, hname, hsome⟩
    exact ⟨⟨p, hp, hname⟩, p, ⟨hp, hsome⟩, hname⟩

theorem bindings_met : firstUnmet (along op.binding [] op.bindings) = none ↔
    (∀ n ∈ op.bindings, (∃ p ∈ op.inputs, p.name = n.1 ∧ p.buffer?.isSome) ∧
      ∃ p ∈ op.outputs, p.name = n.2 ∧ p.buffer?.isSome) ∧
    (op.bindings.map (·.1)).Nodup ∧ (op.bindings.map (·.2)).Nodup := by
  have hbinding : ∀ before n, firstUnmet (op.binding before n) = none ↔
      ((∃ p ∈ op.inputs, p.name = n.1 ∧ p.buffer?.isSome) ∧
        ∃ p ∈ op.outputs, p.name = n.2 ∧ p.buffer?.isSome) ∧
      n.1 ∉ before.map (·.1) ∧ n.2 ∉ before.map (·.2) := by
    intro before n
    rw [binding, firstUnmet_append, firstUnmet_append, Option.or_eq_none_iff,
      Option.or_eq_none_iff, boundPort_met, boundPort_met]
    simp [unmet?_eq_none]
  rw [firstUnmet_along_eq_none, nodup_map_iff, nodup_map_iff]
  simp only [hbinding]
  constructor
  · intro h
    refine ⟨?_, fun ys n zs hsplit => (h ys n zs hsplit).2.1,
      fun ys n zs hsplit => (h ys n zs hsplit).2.2⟩
    intro n hn
    obtain ⟨ys, zs, hsplit⟩ := List.append_of_mem hn
    exact (h ys n zs hsplit).1
  · rintro ⟨hpresent, hin, hout⟩ ys n zs hsplit
    exact ⟨hpresent n (by simp [hsplit]), hin ys n zs hsplit, hout ys n zs hsplit⟩

theorem outputsUnwritten_met : firstUnmet (op.outputsUnwritten d before) = none ↔
    ∀ other ∈ before, ∀ b ∈ op.writes, b ∉ other.writes := by
  simp only [outputsUnwritten, firstUnmet_eq_none, List.mem_flatMap, List.mem_map]
  constructor
  · intro h other hother b hb
    simpa using h _ ⟨b, hb, other, hother, rfl⟩
  · rintro h r ⟨b, hb, other, hother, rfl⟩
    simpa using h other hother b hb

/-- The requirements on an operation say that it is well declared. -/
theorem requirements_met : firstUnmet (d.operationRequirements before op) = none ↔
    op.WellDeclared d before := by
  simp only [Description.operationRequirements, requirements, firstUnmet_append,
    Option.or_eq_none_iff, portNames_met, portBuffers_met, buffersApart_met, optionalNames_met,
    bindings_met, outputsUnwritten_met]
  constructor
  · rintro ⟨⟨⟨⟨⟨⟨⟨hin, hout⟩, hreads, hreads'⟩, hwrites, hwrites'⟩, hdisjoint⟩, hoptional⟩,
      hpresent, hboundIn, hboundOut⟩, hunwritten⟩
    exact ⟨hin, hout, hreads, hwrites, hreads', hwrites', hdisjoint, hoptional, hpresent, hboundIn,
      hboundOut, hunwritten⟩
  · intro h
    exact ⟨⟨⟨⟨⟨⟨⟨h.input_names, h.output_names⟩, h.reads_lt, h.reads_nodup⟩, h.writes_lt,
      h.writes_nodup⟩, h.disjoint⟩, h.optional_declared⟩, h.bound_present, h.bound_inputs,
      h.bound_outputs⟩, h.unwritten⟩

end Operation

/-- A pass is what its operation declares: the present ports in their order, each
at its place, and the bindings as positions among them. -/
structure Operation.Translates (op : Operation) (index : Nat) (p : Pass) : Prop where
  index_eq : p.index = index
  name_eq : p.name = op.name
  reads_eq : p.reads = op.reads
  writes_eq : p.writes = op.writes
  inputs_ascending : p.inputs.Pairwise fun q r => q.port < r.port
  outputs_ascending : p.outputs.Pairwise fun o r => o.port < r.port
  mem_inputs : ∀ q, q ∈ p.inputs ↔
    ∃ port, op.inputs[q.port]? = some port ∧ port.buffer? = some q.buffer
  mem_outputs : ∀ o, o ∈ p.outputs ↔
    ∃ port, op.outputs[o.port]? = some port ∧ port.buffer? = some o.buffer ∧
      (o.optional = true ↔ port.name ∈ op.optionalOutputs)
  bindings : List.Forall₂ (fun n e =>
    (∃ q port, p.inputs[e.1]? = some q ∧ op.inputs[q.port]? = some port ∧ port.name = n.1) ∧
    ∃ o port, p.outputs[e.2]? = some o ∧ op.outputs[o.port]? = some port ∧ port.name = n.2)
    op.bindings p.bindings

theorem Operation.Accepted.translates {op : Operation} {tableSize index : Nat} {p : Pass}
    (h : op.Accepted tableSize index p) : op.Translates index p where
  index_eq := h.index_eq
  name_eq := h.name_eq
  reads_eq := h.reads_eq
  writes_eq := h.writes_eq
  inputs_ascending := by
    rw [h.inputs_eq]
    exact ascending_presentPorts 0 op.inputs
  outputs_ascending := by
    rw [h.outputs_eq]
    exact List.pairwise_map.mpr (ascending_presentPorts 0 op.outputs)
  mem_inputs := by
    rw [h.inputs_eq]
    exact fun q => mem_presentPorts
  mem_outputs := by
    intro o
    rw [h.mem_outputs]
    refine exists_congr fun q => and_congr_right fun _ => and_congr_right fun _ => ?_
    rw [Bool.eq_iff_iff, isOptional, List.contains_iff_mem]
  bindings := by
    refine h.bindings.imp fun n e hbinds => ⟨?_, ?_⟩
    · rw [h.inputs_eq]
      exact hbinds.1
    · obtain ⟨q, port, hq, hport, hname⟩ := hbinds.2
      refine ⟨op.markOptional q, port, ?_, hport, hname⟩
      rw [h.outputs_eq, List.getElem?_map, hq, Option.map_some]

namespace Description

variable {d : Description}

/-- Every one of the listed operations is well declared after those before it. -/
def WellDeclared (d : Description) (ops : List Operation) : Prop :=
  ∀ before op after, ops = before ++ op :: after → op.WellDeclared d before

/-- The passes stand for the operations, place by place. -/
structure Translates (d : Description) (passes : List Pass) : Prop where
  length_eq : passes.length = d.operations.length
  pass : ∀ (i : Nat) (op : Operation), d.operations[i]? = some op →
    ∃ p, passes[i]? = some p ∧ op.Translates i p

theorem translates_of_passes {passes : List Pass} (h : d.passes = .ok passes) :
    d.Translates passes := by
  obtain ⟨-, hlength, hpasses⟩ := passes_spec h
  constructor
  · exact hlength
  · intro i op hop
    obtain ⟨p, hp, haccepted⟩ := hpasses i op hop
    exact ⟨p, hp, haccepted.translates⟩

/-- A description has passes exactly if its operations are well declared, and then
the passes stand for them. Else it is refused for the first operation that is
not well declared, with the first requirement that this operation does not meet. -/
theorem passes_exact (d : Description) :
    ((∃ passes, d.passes = .ok passes) ↔ d.WellDeclared d.operations) ∧
    (∀ e, d.passes = .error e ↔ ∃ before op after, d.operations = before ++ op :: after ∧
      d.WellDeclared before ∧ ¬op.WellDeclared d before ∧
      firstUnmet (d.operationRequirements before op) = some e) ∧
    ∀ passes, d.passes = .ok passes → d.Translates passes := by
  have hchecked := d.refusal?_passes
  refine ⟨?_, ?_, fun passes => translates_of_passes⟩
  · rw [← refusal?_eq_none, hchecked, firstUnmet_along_eq_none]
    simp only [Operation.requirements_met]
    rfl
  · intro e
    rw [← refusal?_eq_some, hchecked, firstUnmet_along_eq_some]
    simp only [List.nil_append, Operation.requirements_met]
    constructor
    · rintro ⟨before, op, after, hsplit, hbefore, hunmet⟩
      refine ⟨before, op, after, hsplit, hbefore, ?_, hunmet⟩
      rw [← Operation.requirements_met, hunmet]
      exact Option.some_ne_none e
    · rintro ⟨before, op, after, hsplit, hbefore, -, hunmet⟩
      exact ⟨before, op, after, hsplit, hbefore, hunmet⟩

end Description
end FrameGraph
