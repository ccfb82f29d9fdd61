import FrameGraph.Proofs.BufferSlots

/-!
# The resources of a phase's ports

With the pools filled for a schedule, the ports of every phase can be resolved.
A port that is present gets the resource that stands in the slot of its buffer,
in the pool of the class of the buffer. Since no resource stands in two slots,
two ports get the same resource exactly if their buffers have the same slot.

All that is asked of the pools is `Inventory.Stocked`; where the resources come
from makes no difference.
-/
namespace FrameGraph

namespace ResolvedPorts

theorem lookup_of_getElem? {ports : List (String × Option Nat)} (hnames : (ports.map (·.1)).Nodup)
    {place : Nat} {name : String} {r? : Option Nat} (h : ports[place]? = some (name, r?)) :
    lookup ports name = r? := by
  have hfind := find?_of_nodup_map hnames (List.mem_of_getElem? h)
  rw [lookup, hfind]
  rfl

end ResolvedPorts

theorem Operation.getElem?_grants (resource? : Nat → Option Nat) {ports : List Port} {place : Nat}
    {p : Port} (hp : ports[place]? = some p) :
    (grants resource? ports)[place]? = some (p.name, p.buffer?.bind resource?) := by
  rw [grants, List.getElem?_map, hp, Option.map_some]

/-- An output that may go without a resource: it is optional, and no one needs
its buffer. -/
def Schedule.Spares (s : Schedule) (required : List Nat) (op : Operation) (p : Port) : Prop :=
  op.isOptional p.name = true ∧ ∃ b, p.buffer? = some b ∧ ¬s.Needs required b

namespace Inventory

variable {i : Inventory} {d : Description} {s : Schedule} {required : List Nat} {config : Config}
  {phase : Phase} {op : Operation} {b : Nat} {r? : Option Nat}

/-- The pools have the sizes that a schedule needs, and no resource stands in
them twice. -/
structure Stocked (i : Inventory) (s : Schedule) : Prop where
  sorted : i.pools.Sorted
  nodup : i.pools.resources.Nodup
  backs : i.Backs s

/-- What the declared ports of one side get, in their order: each is found under
its name, those that are absent get nothing, and each of the others the resource
in the slot of its buffer, in the pool of the buffer's class. -/
structure Supplies (i : Inventory) (d : Description) (s : Schedule) (resolution : Extent)
    (absent : Port → Prop) (ports : List Port) (resolved : List (String × Option Nat)) : Prop where
  names : resolved.map (·.1) = ports.map (·.name)
  port : ∀ (place : Nat) (p : Port), ports[place]? = some p → ∃ r?,
    resolved[place]? = some (p.name, r?) ∧ ResolvedPorts.lookup resolved p.name = r? ∧
    (r? = none ↔ absent p) ∧
    ∀ r, r? = some r → ∃ b x c, p.buffer? = some b ∧ s.allocation b = some x ∧
      d.classOf? resolution b = some c ∧ (i.pools.resourcesOf c)[x.slot]? = some r

/-- In some phase a port that carries a buffer gets a resource, or nothing. -/
def Receives (i : Inventory) (d : Description) (s : Schedule) (b : Nat) (r? : Option Nat) : Prop :=
  ∃ phase ∈ s.phases, ∃ op ports, d.operations[phase.operation]? = some op ∧
    i.resolvePorts s op phase = .ok ports ∧ ∃ (place : Nat) (p : Port), p.buffer? = some b ∧
      (op.inputs[place]? = some p ∧ ports.inputs[place]? = some (p.name, r?) ∨
        op.outputs[place]? = some p ∧ ports.outputs[place]? = some (p.name, r?))

section
variable {passes selected : List Pass} {last : Progress}

theorem Stocked.physical?_eq_none (h : i.Stocked s)
    (hs : Compilation d required config passes selected last s) :
    i.physical? s b = none ↔ s.allocation b = none := by
  unfold physical?
  cases hx : s.allocation b with
  | none => simp
  | some x =>
      obtain ⟨r, hr⟩ := h.backs.total hs b x hx
      simp [hr, Except.toOption]

theorem Stocked.physical?_inj (h : i.Stocked s)
    (hs : Compilation d required config passes selected last s) {b' : Nat} :
    i.physical? s b = i.physical? s b' ↔ s.allocation b = s.allocation b' := by
  constructor
  · intro hsame
    cases hr : i.physical? s b with
    | none =>
        rw [(h.physical?_eq_none hs).mp hr, (h.physical?_eq_none hs).mp (hsame.symm.trans hr)]
    | some r =>
        obtain ⟨x, hx, hresolve⟩ := physical?_eq_some.mp hr
        obtain ⟨y, hy, hresolve'⟩ := physical?_eq_some.mp (hsame.symm.trans hr)
        rw [hx, hy, resolve_injective h.sorted h.nodup hs.peaks_nodup hresolve hresolve']
  · intro hsame
    unfold physical?
    rw [hsame]

theorem backed_of_physical? (hs : Compilation d required config passes selected last s) {r : Nat}
    (hr : i.physical? s b = some r) : ∃ x c, s.allocation b = some x ∧
      d.classOf? config.resolution b = some c ∧ (i.pools.resourcesOf c)[x.slot]? = some r := by
  obtain ⟨x, hx, hresolve⟩ := physical?_eq_some.mp hr
  obtain ⟨c, hc, hclass, -⟩ := hs.exists_class hx
  obtain ⟨c', hclass', hslot⟩ := resolve_eq_ok.mp hresolve
  obtain rfl : c = c' := Option.some.inj (hclass.symm.trans hclass')
  exact ⟨x, c, hx, hc, hslot⟩

/-- The resources that ports are granted supply them, whichever of the ports are
the absent ones. -/
theorem Stocked.supplies (h : i.Stocked s)
    (hs : Compilation d required config passes selected last s) {ports : List Port}
    (hnames : (ports.map (·.name)).Nodup) {absent : Port → Prop}
    (habsent : ∀ p ∈ ports, absent p ↔ ∀ b, p.buffer? = some b → ¬s.Needs required b) :
    i.Supplies d s config.resolution absent ports (Operation.grants (i.physical? s) ports) := by
  have hnamesEq : (Operation.grants (i.physical? s) ports).map (·.1) = ports.map (·.name) := by
    rw [Operation.grants, List.map_map]
    rfl
  refine ⟨hnamesEq, fun place p hp => ⟨p.buffer?.bind (i.physical? s), ?_, ?_, ?_, ?_⟩⟩
  · exact Operation.getElem?_grants _ hp
  · exact ResolvedPorts.lookup_of_getElem? (hnamesEq ▸ hnames) (Operation.getElem?_grants _ hp)
  · rw [habsent p (List.mem_of_getElem? hp), Option.bind_eq_none_iff]
    refine forall_congr' fun b => imp_congr_right fun _ => ?_
    rw [h.physical?_eq_none hs, hs.allocation_eq_none]
  · intro r hr
    obtain ⟨b, hb, hr⟩ := Option.bind_eq_some_iff.mp hr
    obtain ⟨x, c, hbacked⟩ := backed_of_physical? hs hr
    exact ⟨b, x, c, hb, hbacked⟩

theorem absent_input (hphase : phase ∈ s.phases) (hcarries : phase.CarriesOut d s op) {p : Port}
    (hp : p ∈ op.inputs) :
    p.buffer? = none ↔ ∀ b, p.buffer? = some b → ¬s.Needs required b := by
  constructor
  · intro hnone b hb
    rw [hnone] at hb
    cases hb
  · intro hunneeded
    cases hb : p.buffer? with
    | none => rfl
    | some b =>
        obtain ⟨place, hplace⟩ := List.mem_iff_getElem?.mp hp
        have hrecords : s.Records op.inputs phase.inputs :=
          hcarries.inputs_eq ▸ s.records_portSlots op.inputs
        obtain ⟨e, he, -, rfl⟩ := (hrecords.present place b).mpr ⟨p, hplace, hb⟩
        exact (hunneeded _ hb (.inr ⟨phase, hphase, List.mem_map_of_mem he⟩)).elim

theorem absent_output (hs : Compilation d required config passes selected last s)
    (hphase : phase ∈ s.phases) (hcarries : phase.CarriesOut d s op) {p : Port}
    (hp : p ∈ op.outputs) : (p.buffer? = none ∨ s.Spares required op p) ↔
      ∀ b, p.buffer? = some b → ¬s.Needs required b := by
  constructor
  · rintro (hnone | ⟨-, b, hb, hunneeded⟩) b' hb'
    · rw [hnone] at hb'
      cases hb'
    · obtain rfl : b = b' := Option.some.inj (hb.symm.trans hb')
      exact hunneeded
  · intro hunneeded
    cases hb : p.buffer? with
    | none => exact .inl rfl
    | some b =>
        obtain ⟨place, hplace⟩ := List.mem_iff_getElem?.mp hp
        have hoptional :=
          hs.optional_of_not_needs hphase hcarries.declared hplace hb (hunneeded b hb)
        exact .inr ⟨hoptional, b, hb, hunneeded b hb⟩

theorem Stocked.of_receives (h : i.Stocked s)
    (hs : Compilation d required config passes selected last s) (hr : i.Receives d s b r?) :
    r? = i.physical? s b := by
  obtain ⟨phase, hphase, op, ports, hop, hports, place, p, hb, hside⟩ := hr
  obtain ⟨op', hcarries⟩ := hs.exists_carriesOut hphase
  obtain rfl : op = op' := Option.some.inj (hop.symm.trans hcarries.declared)
  rw [resolvePorts_eq hcarries (h.backs.total hs)] at hports
  cases hports
  have hgrant : ∀ {ports : List Port}, ports[place]? = some p →
      (Operation.grants (i.physical? s) ports)[place]? = some (p.name, r?) →
      r? = i.physical? s b := by
    intro ports hp he
    rw [Operation.getElem?_grants _ hp, hb, Option.bind_some] at he
    exact (congrArg Prod.snd (Option.some.inj he)).symm
  rcases hside with ⟨hp, he⟩ | ⟨hp, he⟩
  · exact hgrant hp he
  · exact hgrant hp he

end
end Inventory

theorem Compilation.names_nodup {d : Description} {required : List Nat} {config : Config}
    {passes selected : List Pass} {last : Progress} {s : Schedule} {phase : Phase} {op : Operation}
    (h : Compilation d required config passes selected last s) (hphase : phase ∈ s.phases)
    (hop : d.operations[phase.operation]? = some op) :
    (op.inputs.map (·.name)).Nodup ∧ (op.outputs.map (·.name)).Nodup := by
  obtain ⟨q, op', -, -, hop', haccepted⟩ := h.exists_accepted hphase
  obtain rfl : op = op' := Option.some.inj (hop.symm.trans hop')
  exact ⟨haccepted.input_names, haccepted.output_names⟩

open Inventory in
/-- A reconciliation that succeeds leaves the pools filled for its schedule. With
such pools the ports of every phase can be resolved: exactly those that carry no
buffer and the outputs that are spared get nothing, and ports get the same if
their buffers have the same slot. -/
theorem ports_of_reconcile {d : Description} {required : List Nat} {config : Config} {s : Schedule}
    (hcompile : compile d required config = .ok s) :
    (∀ i others j es, i.Booked others → (reconcile s).run i = ⟨.ok (), j, es⟩ → j.Stocked s) ∧
    ∀ i : Inventory, i.Stocked s →
      (∀ phase ∈ s.phases, ∃ op ports, d.operations[phase.operation]? = some op ∧
        i.resolvePorts s op phase = .ok ports ∧
        i.Supplies d s config.resolution (fun p => p.buffer? = none) op.inputs ports.inputs ∧
        i.Supplies d s config.resolution (fun p => p.buffer? = none ∨ s.Spares required op p)
          op.outputs ports.outputs) ∧
      ∀ b b' r? r?', i.Receives d s b r? → i.Receives d s b' r?' →
        (r? = r?' ↔ s.allocation b = s.allocation b') := by
  obtain ⟨passes, selected, last, hs⟩ := compilation_of_compile hcompile
  refine ⟨?_, fun i hstocked => ⟨?_, ?_⟩⟩
  · intro i others j es hbooked hrun
    have hends := reconcile_ends hbooked hs.peaks_nodup
    unfold Act.Ends at hends
    rw [hrun] at hends
    obtain ⟨hconserves, hbacks⟩ := hends
    exact ⟨hconserves.booked.sorted, hconserves.booked.resources_nodup, hbacks rfl⟩
  · intro phase hphase
    obtain ⟨op, hcarries⟩ := hs.exists_carriesOut hphase
    obtain ⟨hinputs, houtputs⟩ := hs.names_nodup hphase hcarries.declared
    refine ⟨op, _, hcarries.declared, resolvePorts_eq hcarries (hstocked.backs.total hs), ?_, ?_⟩
    · exact hstocked.supplies hs hinputs fun p hp => absent_input hphase hcarries hp
    · exact hstocked.supplies hs houtputs fun p hp => absent_output hs hphase hcarries hp
  · intro b b' r? r?' hr hr'
    rw [hstocked.of_receives hs hr, hstocked.of_receives hs hr', hstocked.physical?_inj hs]

open Inventory in
/-- Tinting without a mask: the mask is absent and the mark is spared, the other
ports get a texture each. -/
theorem ports_unmaskedTint : ∃ op j es,
    unmaskedTint.operations[0]? = some op ∧
      (reconcile unmaskedSchedule).run {} = ⟨.ok (), j, es⟩ ∧ j.Stocked unmaskedSchedule ∧
      j.Supplies unmaskedTint unmaskedSchedule ⟨1280, 720⟩ (fun p => p.buffer? = none) op.inputs
        [("mask", none), ("in", some 1)] ∧
      j.Supplies unmaskedTint unmaskedSchedule ⟨1280, 720⟩
        (fun p => p.buffer? = none ∨ unmaskedSchedule.Spares [1] op p) op.outputs
        [("mark", none), ("out", some 0)] := by
  obtain ⟨hreconcile, hresolve⟩ := ports_of_reconcile compile_unmaskedTint
  have hstocked := hreconcile {} [] _ _ ⟨Pools.sorted_empty, Backend.holds_empty none⟩ rfl
  obtain ⟨op, ports, hop, hports, hinputs, houtputs⟩ :=
    (hresolve _ hstocked).1 ⟨0, "tint", [⟨1, 0, some ⟨0, 1⟩⟩],
      [⟨0, 2, none⟩, ⟨1, 1, some ⟨0, 0⟩⟩]⟩ (.tail _ (.head _))
  cases hop
  cases hports
  exact ⟨_, _, _, rfl, rfl, hstocked, hinputs, houtputs⟩

end FrameGraph
