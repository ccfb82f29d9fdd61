import FrameGraph.Pass
import FrameGraph.Proofs.DistinctKeys
import Mathlib.Data.List.Forall2
import Mathlib.Tactic.SplitIfs

/-!
# Accepted passes

What the checks of a declaration leave behind. An accepted pass lists exactly
the present ports of its operation, uses no buffer twice, stays inside the
table and binds no port twice; `Operation.Accepted` collects these facts.

`Description.passes_spec` says the same of the whole list: the pass at a place
is the accepted form of the operation at that place, and no two passes write
the same buffer.
-/
namespace FrameGraph

theorem bind_eq_ok {ε α β : Type} {x : Except ε α} {f : α → Except ε β} {b : β} :
    (x >>= f) = .ok b ↔ ∃ a, x = .ok a ∧ f a = .ok b := by
  cases x <;> simp [bind, Except.bind]

theorem bind_eq_error {ε α β : Type} {x : Except ε α} {f : α → Except ε β} {e : ε} :
    (x >>= f) = .error e ↔ x = .error e ∨ ∃ a, x = .ok a ∧ f a = .error e := by
  cases x <;> simp [bind, Except.bind]

namespace Operation

/-- The present ports of a declaration with their places, counted from `place`. -/
def presentPorts (place : Nat) (ports : List Port) : List PresentPort :=
  (ports.zipIdx place).filterMap fun e => e.1.buffer?.map fun b => ⟨e.2, b⟩

theorem presentPorts_cons (place : Nat) (p : Port) (ports : List Port) :
    presentPorts place (p :: ports) =
      (p.buffer?.map fun b => ⟨place, b⟩).toList ++ presentPorts (place + 1) ports := by
  cases h : p.buffer? <;> simp [presentPorts, h]

theorem mem_presentPorts {ports : List Port} {q : PresentPort} :
    q ∈ presentPorts 0 ports ↔ ∃ p, ports[q.port]? = some p ∧ p.buffer? = some q.buffer := by
  obtain ⟨port, buffer⟩ := q
  simp only [presentPorts, List.mem_filterMap, Prod.exists, List.mem_zipIdx_iff_getElem?,
    Option.map_eq_some_iff, PresentPort.mk.injEq]
  constructor
  · intro hq
    rcases hq with ⟨p, _, hp, _, hb, rfl, rfl⟩
    exact ⟨p, hp, hb⟩
  · intro hport
    rcases hport with ⟨p, hp, hb⟩
    exact ⟨p, port, hp, buffer, hb, rfl, rfl⟩

theorem buffers_presentPorts (place : Nat) (ports : List Port) :
    (presentPorts place ports).map (·.buffer) = ports.filterMap (·.buffer?) := by
  induction ports generalizing place with
  | nil => rfl
  | cons p ports ih =>
      cases h : p.buffer? <;> simp [presentPorts_cons, h, ih]

theorem place_le_of_mem_presentPorts {place : Nat} {ports : List Port} {q : PresentPort}
    (h : q ∈ presentPorts place ports) : place ≤ q.port := by
  obtain ⟨e, he, hq⟩ := List.mem_filterMap.mp h
  obtain ⟨b, -, rfl⟩ := Option.map_eq_some_iff.mp hq
  exact List.le_snd_of_mem_zipIdx he

/-- Present ports stand in the order of their places. -/
theorem ascending_presentPorts (place : Nat) (ports : List Port) :
    (presentPorts place ports).Pairwise fun q r => q.port < r.port := by
  induction ports generalizing place with
  | nil => exact .nil
  | cons p ports ih =>
      rw [presentPorts_cons]
      cases p.buffer? with
      | none => exact ih (place + 1)
      | some b => exact .cons (fun q hq => place_le_of_mem_presentPorts hq) (ih (place + 1))

theorem presentFrom_spec {op : Operation} {side : Side} {tableSize place : Nat}
    {seen : List Nat} {ports : List Port} {present : List PresentPort}
    (h : op.presentFrom side tableSize seen place ports = .ok present) :
    present = presentPorts place ports ∧ (∀ q ∈ present, q.buffer < tableSize) ∧
      (∀ q ∈ present, q.buffer ∉ seen) ∧ (present.map (·.buffer)).Nodup := by
  induction ports generalizing seen place present with
  | nil =>
      simp only [presentFrom, Except.ok.injEq] at h
      subst h
      simp [presentPorts]
  | cons p ports ih =>
      rw [presentPorts_cons]
      cases hp : p.buffer? with
      | none =>
          simp only [presentFrom, hp] at h
          simpa using ih h
      | some b =>
          simp only [presentFrom, hp] at h
          split_ifs at h with hr hs
          obtain ⟨tail, ht, hpresent⟩ := bind_eq_ok.mp h
          obtain ⟨rfl, hlt, hseen, hnodup⟩ := ih ht
          cases hpresent
          refine ⟨by simp, ?_, ?_, ?_⟩
          · simpa using ⟨by omega, hlt⟩
          · simp only [List.contains_iff_mem] at hs
            simp only [List.mem_cons, not_or] at hseen
            simpa [hs] using fun q hq => (hseen q hq).2
          · refine List.nodup_cons.mpr ⟨?_, hnodup⟩
            intro hb
            obtain ⟨q, hq, rfl⟩ := List.mem_map.mp hb
            exact hseen q hq (by simp)

theorem firstDuplicate_eq_none {seen : List String} {ports : List Port} :
    firstDuplicate seen ports = none ↔
      (∀ p ∈ ports, p.name ∉ seen) ∧ (ports.map (·.name)).Nodup := by
  induction ports generalizing seen with
  | nil => simp [firstDuplicate]
  | cons p ports ih =>
      by_cases hs : p.name ∈ seen
      · simp [firstDuplicate, hs]
      · simp only [firstDuplicate, List.contains_iff_mem, hs, if_false, ih, List.mem_cons,
          not_or, List.map_cons, List.nodup_cons, List.mem_map, not_exists, not_and]
        constructor
        · intro hsplit
          rcases hsplit with ⟨hseen, hnodup⟩
          refine ⟨?_, fun q hq => (hseen q hq).1, hnodup⟩
          intro q hq
          rcases hq with rfl | hq
          · exact hs
          · exact (hseen q hq).2
        · intro hsplit
          rcases hsplit with ⟨hseen, hne, hnodup⟩
          exact ⟨fun q hq => ⟨hne q hq, hseen q (.inr hq)⟩, hnodup⟩

theorem checkNames_eq_ok {op : Operation} {side : Side} {ports : List Port} :
    op.checkNames side ports = .ok () ↔ (ports.map (·.name)).Nodup := by
  have h : firstDuplicate [] ports = none ↔ _ := firstDuplicate_eq_none
  cases hd : firstDuplicate [] ports <;> simp_all [checkNames]

theorem checkDisjoint_eq_ok {op : Operation} {d : Description} {inputs outputs : List PresentPort} :
    op.checkDisjoint d inputs outputs = .ok () ↔
      ∀ i ∈ inputs, i.buffer ∉ outputs.map (·.buffer) := by
  cases hf : inputs.find? fun i => outputs.any (·.buffer == i.buffer) with
  | none =>
      simp only [checkDisjoint, hf, true_iff, List.mem_map, not_exists, not_and]
      simpa using hf
  | some shared =>
      have hs := List.find?_some hf
      have hm := List.mem_of_find?_eq_some hf
      simp only [List.any_eq_true, beq_iff_eq] at hs
      simp only [checkDisjoint, hf, reduceCtorEq, false_iff]
      intro h
      exact h shared hm (List.mem_map.mpr hs)

theorem checkOptional_eq_ok {op : Operation} :
    op.checkOptional = .ok () ↔ ∀ o ∈ op.optionalOutputs, ∃ p ∈ op.outputs, p.name = o := by
  cases hf : op.optionalOutputs.find? fun o => !op.outputs.any (·.name == o) with
  | none =>
      simp only [checkOptional, hf, true_iff]
      simpa using hf
  | some undeclared =>
      have hs := List.find?_some hf
      have hm := List.mem_of_find?_eq_some hf
      simp only [checkOptional, hf, reduceCtorEq, false_iff]
      intro h
      obtain ⟨p, hp, rfl⟩ := h undeclared hm
      simp only [Bool.not_eq_true', List.any_eq_false, beq_iff_eq] at hs
      exact hs p hp rfl

/-- A name of a binding leads to a present port: `position` is where the port of
that name stands among the present ones. -/
def Binds (ports : List Port) (present : List PresentPort) (name : String)
    (position : Nat) : Prop :=
  ∃ q p, present[position]? = some q ∧ ports[q.port]? = some p ∧ p.name = name

theorem bindingPosition_binds {op : Operation} {ports : List Port} {present : List PresentPort}
    {name : String} {position : Nat}
    (h : op.bindingPosition ports present name = .ok position) :
    Binds ports present name position := by
  unfold bindingPosition at h
  split at h
  · cases h
  · rename_i place hplace
    split at h
    · cases h
    · rename_i found hfound
      cases h
      obtain ⟨hlt, hname, -⟩ := List.findIdx?_eq_some_iff_getElem.mp hplace
      obtain ⟨hlt', hport, -⟩ := List.findIdx?_eq_some_iff_getElem.mp hfound
      simp only [beq_iff_eq] at hname hport
      refine ⟨present[position], ports[place], by simp, ?_, hname⟩
      rw [hport]
      exact List.getElem?_eq_getElem hlt

/-- The bindings found for a list of names, and that no port occurs twice. -/
theorem bindingsFrom_spec {op : Operation} {inputs outputs : List PresentPort}
    {done found : List (Nat × Nat)} {names : List (String × String)}
    (h : op.bindingsFrom inputs outputs done names = .ok found)
    (hin : (done.map (·.1)).Nodup) (hout : (done.map (·.2)).Nodup) :
    ∃ new, found = done ++ new ∧
      List.Forall₂ (fun n e => Binds op.inputs inputs n.1 e.1 ∧ Binds op.outputs outputs n.2 e.2)
        names new ∧ (found.map (·.1)).Nodup ∧ (found.map (·.2)).Nodup := by
  induction names generalizing done with
  | nil =>
      cases h
      exact ⟨[], by simp, .nil, hin, hout⟩
  | cons n names ih =>
      obtain ⟨a, b⟩ := n
      obtain ⟨i, hi, h⟩ := bind_eq_ok.mp h
      obtain ⟨o, ho, h⟩ := bind_eq_ok.mp h
      split_ifs at h with hi' ho'
      simp only [List.any_eq_true, beq_iff_eq, not_exists, not_and] at hi' ho'
      have hin' : ((done ++ [(i, o)]).map (·.1)).Nodup := by
        simpa [List.nodup_append, hin] using fun e he => hi' e he
      have hout' : ((done ++ [(i, o)]).map (·.2)).Nodup := by
        simpa [List.nodup_append, hout] using fun b a he => ho' (a, b) he
      obtain ⟨new, rfl, hnew, hnodup⟩ := ih h hin' hout'
      refine ⟨(i, o) :: new, by simp, .cons ⟨?_, ?_⟩ hnew, hnodup⟩
      · exact bindingPosition_binds hi
      · exact bindingPosition_binds ho

/-- An operation and the pass that it was accepted as. -/
structure Accepted (op : Operation) (tableSize index : Nat) (p : Pass) : Prop where
  index_eq : p.index = index
  name_eq : p.name = op.name
  inputs_eq : p.inputs = presentPorts 0 op.inputs
  outputs_eq : p.outputs = (presentPorts 0 op.outputs).map op.markOptional
  input_names : (op.inputs.map (·.name)).Nodup
  output_names : (op.outputs.map (·.name)).Nodup
  reads_lt : ∀ b ∈ p.reads, b < tableSize
  writes_lt : ∀ b ∈ p.writes, b < tableSize
  reads_nodup : p.reads.Nodup
  writes_nodup : p.writes.Nodup
  disjoint : ∀ b ∈ p.reads, b ∉ p.writes
  optional_declared : ∀ o ∈ op.optionalOutputs, ∃ q ∈ op.outputs, q.name = o
  bindings : List.Forall₂ (fun n e => Binds op.inputs (presentPorts 0 op.inputs) n.1 e.1 ∧
    Binds op.outputs (presentPorts 0 op.outputs) n.2 e.2) op.bindings p.bindings
  bound_inputs : (p.bindings.map (·.1)).Nodup
  bound_outputs : (p.bindings.map (·.2)).Nodup

theorem toPass_accepted {op : Operation} {d : Description} {index : Nat} {p : Pass}
    (h : op.toPass d index = .ok p) : op.Accepted d.buffers.length index p := by
  obtain ⟨_, hinputNames, h⟩ := bind_eq_ok.mp h
  obtain ⟨_, houtputNames, h⟩ := bind_eq_ok.mp h
  obtain ⟨inputs, hinputs, h⟩ := bind_eq_ok.mp h
  obtain ⟨outputs, houtputs, h⟩ := bind_eq_ok.mp h
  obtain ⟨_, hdisjoint, h⟩ := bind_eq_ok.mp h
  obtain ⟨_, hoptional, h⟩ := bind_eq_ok.mp h
  obtain ⟨bindings, hbindings, h⟩ := bind_eq_ok.mp h
  cases h
  obtain ⟨rfl, hreads, -, hreadsNodup⟩ := presentFrom_spec hinputs
  obtain ⟨rfl, hwrites, -, hwritesNodup⟩ := presentFrom_spec houtputs
  obtain ⟨new, rfl, hnew, hin, hout⟩ := bindingsFrom_spec hbindings .nil .nil
  have hwritesEq : ((presentPorts 0 op.outputs).map op.markOptional).map (·.buffer) =
      (presentPorts 0 op.outputs).map (·.buffer) := by
    simp [Function.comp_def, markOptional]
  exact {
    index_eq := rfl
    name_eq := rfl
    inputs_eq := rfl
    outputs_eq := rfl
    input_names := checkNames_eq_ok.mp hinputNames
    output_names := checkNames_eq_ok.mp houtputNames
    reads_lt := by simpa [Pass.reads] using hreads
    writes_lt := by simpa [Pass.writes, markOptional] using hwrites
    reads_nodup := hreadsNodup
    writes_nodup := by simpa only [Pass.writes, hwritesEq] using hwritesNodup
    disjoint := by
      simpa only [Pass.reads, Pass.writes, hwritesEq, List.forall_mem_map] using
        checkDisjoint_eq_ok.mp hdisjoint
    optional_declared := checkOptional_eq_ok.mp hoptional
    bindings := hnew
    bound_inputs := hin
    bound_outputs := hout }

namespace Accepted

variable {op : Operation} {tableSize index : Nat} {p : Pass}

theorem reads_eq (h : op.Accepted tableSize index p) : p.reads = op.reads := by
  rw [Pass.reads, h.inputs_eq, buffers_presentPorts, Operation.reads]

theorem writes_eq (h : op.Accepted tableSize index p) : p.writes = op.writes := by
  rw [Operation.writes, ← buffers_presentPorts 0, Pass.writes, h.outputs_eq]
  simp [Function.comp_def, markOptional]

/-- Every output comes from a declared port and is optional if the port's name
is marked. -/
theorem mem_outputs (h : op.Accepted tableSize index p) {o : PassOutput} :
    o ∈ p.outputs ↔ ∃ q, op.outputs[o.port]? = some q ∧ q.buffer? = some o.buffer ∧
      o.optional = op.isOptional q.name := by
  rw [h.outputs_eq, List.mem_map]
  constructor
  · intro hmarked
    rcases hmarked with ⟨r, hr, rfl⟩
    obtain ⟨q, hq, hb⟩ := mem_presentPorts.mp hr
    exact ⟨q, hq, hb, by simp [markOptional, hq]⟩
  · intro hdeclared
    rcases hdeclared with ⟨q, hq, hb, ho⟩
    refine ⟨o.toPresentPort, mem_presentPorts.mpr ⟨q, hq, hb⟩, ?_⟩
    simp [markOptional, hq, ← ho]

end Accepted

/-- A declared binding joins an input buffer with an output buffer. -/
def Joins (op : Operation) (x y : Nat) : Prop :=
  ∃ n ∈ op.bindings, (∃ p ∈ op.inputs, p.name = n.1 ∧ p.buffer? = some x) ∧
    ∃ q ∈ op.outputs, q.name = n.2 ∧ q.buffer? = some y

/-- Names being distinct, the port that a binding leads to is the only one of
its name. -/
theorem Binds.port_iff {ports : List Port} {name : String} {position : Nat} {q : PresentPort}
    (h : Binds ports (presentPorts 0 ports) name position)
    (hnames : (ports.map (·.name)).Nodup)
    (hq : (presentPorts 0 ports)[position]? = some q) (x : Nat) :
    (∃ p ∈ ports, p.name = name ∧ p.buffer? = some x) ↔ q.buffer = x := by
  obtain ⟨q', p, hq', hp, rfl⟩ := h
  obtain rfl : q = q' := Option.some.inj (hq.symm.trans hq')
  obtain ⟨p', hp', hb⟩ := mem_presentPorts.mp (List.mem_of_getElem? hq)
  obtain rfl : p = p' := Option.some.inj (hp.symm.trans hp')
  constructor
  · intro hport
    rcases hport with ⟨r, hr, hname, hx⟩
    obtain rfl : r = p := List.inj_on_of_nodup_map hnames hr (List.mem_of_getElem? hp) hname
    exact Option.some.inj (hb.symm.trans hx)
  · intro heq
    subst heq
    exact ⟨p, List.mem_of_getElem? hp, rfl, hb⟩

end Operation

namespace Pass

theorem sharing_entry {p : Pass} {b : Nat × Nat} {e : PresentPort × PassOutput} :
    (do let input ← p.inputs[b.1]?
        let output ← p.outputs[b.2]?
        return (input, output)) = some e ↔
      p.inputs[b.1]? = some e.1 ∧ p.outputs[b.2]? = some e.2 := by
  obtain ⟨i, o⟩ := e
  simp only [Option.bind_eq_bind, Option.bind_eq_some_iff, Option.pure_def, Option.some.injEq,
    Prod.mk.injEq]
  constructor
  · intro hpositions
    rcases hpositions with ⟨i', hi, o', ho, rfl, rfl⟩
    exact ⟨hi, ho⟩
  · intro hports
    rcases hports with ⟨hi, ho⟩
    exact ⟨i, hi, o, ho, rfl, rfl⟩

theorem mem_sharing {p : Pass} {e : PresentPort × PassOutput} :
    e ∈ p.sharing ↔
      ∃ b ∈ p.bindings, p.inputs[b.1]? = some e.1 ∧ p.outputs[b.2]? = some e.2 := by
  refine List.mem_filterMap.trans (exists_congr fun b => and_congr_right fun _ => ?_)
  exact sharing_entry

theorem mem_inputs_of_sharing {p : Pass} {e : PresentPort × PassOutput}
    (h : e ∈ p.sharing) : e.1 ∈ p.inputs := by
  obtain ⟨b, -, hi, -⟩ := mem_sharing.mp h
  exact List.mem_of_getElem? hi

theorem mem_outputs_of_sharing {p : Pass} {e : PresentPort × PassOutput}
    (h : e ∈ p.sharing) : e.2 ∈ p.outputs := by
  obtain ⟨b, -, -, ho⟩ := mem_sharing.mp h
  exact List.mem_of_getElem? ho

/-- The part of acceptance that placing a pass relies on. -/
structure Valid (tableSize : Nat) (p : Pass) : Prop where
  reads_lt : ∀ b ∈ p.reads, b < tableSize
  writes_lt : ∀ b ∈ p.writes, b < tableSize
  reads_nodup : p.reads.Nodup
  writes_nodup : p.writes.Nodup
  disjoint : ∀ b ∈ p.reads, b ∉ p.writes
  shared_inputs : (p.sharing.map (·.1.buffer)).Nodup
  shared_outputs : (p.sharing.map (·.2.buffer)).Nodup

end Pass

theorem exists_of_mem_left {α β : Type} {R : α → β → Prop} {xs : List α} {ys : List β}
    (h : List.Forall₂ R xs ys) {a : α} (ha : a ∈ xs) : ∃ b ∈ ys, R a b := by
  induction h with
  | nil => cases ha
  | @cons x y xs ys hxy _ ih =>
      rcases List.mem_cons.mp ha with rfl | ha
      · exact ⟨y, by simp, hxy⟩
      · obtain ⟨b, hb, hab⟩ := ih ha
        exact ⟨b, by simp [hb], hab⟩

namespace Operation.Accepted
open Pass

variable {op : Operation} {tableSize index : Nat} {p : Pass}

theorem valid (h : op.Accepted tableSize index p) : p.Valid tableSize where
  reads_lt := h.reads_lt
  writes_lt := h.writes_lt
  reads_nodup := h.reads_nodup
  writes_nodup := h.writes_nodup
  disjoint := h.disjoint
  shared_inputs := by
    refine List.pairwise_map.mpr (.filterMap _ ?_ (List.pairwise_map.mp h.bound_inputs))
    intro b c hbc e he f hf
    exact ne_of_getElem?_ne h.reads_nodup (sharing_entry.mp he).1 (sharing_entry.mp hf).1 hbc
  shared_outputs := by
    refine List.pairwise_map.mpr (.filterMap _ ?_ (List.pairwise_map.mp h.bound_outputs))
    intro b c hbc e he f hf
    exact ne_of_getElem?_ne h.writes_nodup (sharing_entry.mp he).2 (sharing_entry.mp hf).2 hbc

/-- The pairs of ports that a pass may let share storage are the declared ones. -/
theorem joins_iff (h : op.Accepted tableSize index p) (x y : Nat) :
    op.Joins x y ↔ ∃ e ∈ p.sharing, e.1.buffer = x ∧ e.2.buffer = y := by
  constructor
  · intro hjoins
    rcases hjoins with ⟨n, hn, hx, hy⟩
    obtain ⟨b, hb, hin, hout⟩ := exists_of_mem_left h.bindings hn
    obtain ⟨i, -, hi, -⟩ := id hin
    obtain ⟨o, -, ho, -⟩ := id hout
    refine ⟨(i, op.markOptional o), mem_sharing.mpr ⟨b, hb, ?_, ?_⟩, ?_, ?_⟩
    · rw [h.inputs_eq, hi]
    · simp only [h.outputs_eq, List.getElem?_map, ho, Option.map_some]
    · exact (hin.port_iff h.input_names hi x).mp hx
    · exact (hout.port_iff h.output_names ho y).mp hy
  · intro hshared
    rcases hshared with ⟨⟨i, o⟩, he, rfl, rfl⟩
    obtain ⟨b, hb, hi, ho⟩ := mem_sharing.mp he
    obtain ⟨n, hn, hin, hout⟩ := exists_of_mem_left h.bindings.flip hb
    rw [h.inputs_eq] at hi
    rw [h.outputs_eq, List.getElem?_map, Option.map_eq_some_iff] at ho
    obtain ⟨r, hr, rfl⟩ := ho
    exact ⟨n, hn, (hin.port_iff h.input_names hi _).mpr rfl,
      (hout.port_iff h.output_names hr _).mpr rfl⟩

end Operation.Accepted

/-- No buffer is written by both passes. -/
def Pass.Separate (p q : Pass) : Prop := ∀ b ∈ p.writes, b ∉ q.writes

theorem producer?_eq_none {passes : List Pass} {b : Nat} :
    producer? passes b = none ↔ ∀ p ∈ passes, b ∉ p.writes := by
  simp [producer?]

theorem Pass.checkFresh_eq_ok {p : Pass} {d : Description} {done : List Pass} {bs : List Nat} :
    p.checkFresh d done bs = .ok () ↔ ∀ b ∈ bs, ∀ q ∈ done, b ∉ q.writes := by
  induction bs with
  | nil => simp [checkFresh]
  | cons b bs ih =>
      cases hb : producer? done b with
      | none =>
          simp only [checkFresh, hb, ih, List.forall_mem_cons]
          exact (and_iff_right (producer?_eq_none.mp hb)).symm
      | some q =>
          simp only [checkFresh, hb, reduceCtorEq, List.forall_mem_cons, false_iff, not_and]
          intro h
          simp [producer?_eq_none.mpr h] at hb

namespace Description

theorem passesFrom_spec {d : Description} {done passes : List Pass} {ops : List Operation}
    (h : d.passesFrom done ops = .ok passes) (hdone : done.Pairwise Pass.Separate) :
    passes.Pairwise Pass.Separate ∧ ∃ new, passes = done ++ new ∧ new.length = ops.length ∧
      ∀ (k : Nat) (op : Operation), ops[k]? = some op →
        ∃ p, new[k]? = some p ∧ op.toPass d (done.length + k) = .ok p := by
  induction ops generalizing done with
  | nil =>
      cases h
      exact ⟨hdone, [], by simp⟩
  | cons op ops ih =>
      obtain ⟨p, hp, h⟩ := bind_eq_ok.mp h
      obtain ⟨_, hfresh, h⟩ := bind_eq_ok.mp h
      have hseparate : (done ++ [p]).Pairwise Pass.Separate := by
        refine List.pairwise_append.mpr ⟨hdone, List.pairwise_singleton _ _, ?_⟩
        intro q hq r hr b hb hb'
        obtain rfl := List.mem_singleton.mp hr
        exact Pass.checkFresh_eq_ok.mp hfresh b hb' q hq hb
      obtain ⟨hpassses, new, rfl, hlength, hnew⟩ := ih h hseparate
      refine ⟨hpassses, p :: new, by simp, by simp [hlength], ?_⟩
      intro k op' hop
      cases k with
      | zero =>
          obtain rfl : op = op' := by simpa using hop
          exact ⟨p, rfl, hp⟩
      | succ k =>
          obtain ⟨p', hp', hop'⟩ := hnew k op' (by simpa using hop)
          refine ⟨p', by simpa using hp', ?_⟩
          simpa [Nat.add_comm, Nat.add_left_comm] using hop'

/-- The accepted passes of a description, place by place, and that no two of
them write the same buffer. -/
theorem passes_spec {d : Description} {passes : List Pass} (h : d.passes = .ok passes) :
    passes.Pairwise Pass.Separate ∧ passes.length = d.operations.length ∧
      ∀ (k : Nat) (op : Operation), d.operations[k]? = some op →
        ∃ p, passes[k]? = some p ∧ op.Accepted d.buffers.length k p := by
  obtain ⟨hseparate, new, rfl, hlength, hnew⟩ := passesFrom_spec h .nil
  refine ⟨hseparate, by simpa using hlength, ?_⟩
  intro k op hop
  obtain ⟨p, hp, hpass⟩ := hnew k op hop
  rw [List.length_nil, Nat.zero_add] at hpass
  exact ⟨p, hp, Operation.toPass_accepted hpass⟩

end Description
end FrameGraph
