import FrameGraph.Proofs.ExecutionOrder
import FrameGraph.Proofs.ResourceBooks

/-!
# Resources behind ports

Once the pools have the sizes that a schedule needs, every slot of the schedule
has a resource, and no two slots have the same. Building an operator then cannot
fail: it gets a resource for each port whose buffer has a slot.
-/
namespace FrameGraph

namespace Compilation

variable {d : Description} {required : List Nat} {config : Config} {passes selected : List Pass}
  {last : Progress} {s : Schedule} {b : Nat} {x : Allocation}

theorem map_peaks (h : Compilation d required config passes selected last s) :
    s.peaks.map (·.1) = (Workload.ofPasses d config required selected).slots.classes := by
  rw [h.schedule_eq, ← h.sound.balanced.classes]
  exact h.sound.balanced.valid.numbered.map_peaks

theorem peaks_nodup (h : Compilation d required config passes selected last s) :
    (s.peaks.map (·.1)).Nodup := by
  rw [h.map_peaks]
  exact h.wellFormed.classes_nodup

theorem exists_peak (h : Compilation d required config passes selected last s)
    (hx : s.allocation b = some x) : ∃ e, s.peaks[x.classId]? = some e ∧ x.slot < e.2 := by
  rw [h.allocation_eq] at hx
  obtain ⟨pool, hpool, hlt⟩ := h.sound.balanced.minted b x hx
  have hid := h.sound.balanced.valid.numbered.pool?_isSome.mp ⟨pool, hpool⟩
  have hpeak : s.peaks[x.classId]? = some (last.ledger.slots.classes[x.classId], pool.peak) := by
    have hclass : last.ledger.slots.class? x.classId = some last.ledger.slots.classes[x.classId] :=
      List.getElem?_eq_getElem hid
    rw [h.schedule_eq, SlotAllocator.getElem?_peaks, hclass, hpool]
    rfl
  exact ⟨_, hpeak, hlt⟩

end Compilation

/-- Different numbers are numbers of different classes. -/
theorem Schedule.class?_injective {s : Schedule} (h : (s.peaks.map (·.1)).Nodup) {i j : Nat}
    {c : StorageClass} (hi : s.class? i = some c) (hj : s.class? j = some c) : i = j := by
  unfold class? at hi hj
  rw [← List.getElem?_map] at hi hj
  have hlt := (List.getElem?_eq_some_iff.mp hi).choose
  exact (List.getElem?_inj hlt h).mp (hi.trans hj.symm)

namespace Inventory

variable {i j : Inventory} {s : Schedule} {others : List Nat} {x y : Allocation} {r : Nat}

theorem resolve_eq_ok : i.resolve s x = .ok r ↔
    ∃ c, s.class? x.classId = some c ∧ (i.pools.resourcesOf c)[x.slot]? = some r := by
  unfold resolve
  cases hclass : s.class? x.classId with
  | none => simp
  | some c =>
      cases hslot : (i.pools.resourcesOf c)[x.slot]? with
      | none => simp [hslot]
      | some resource => simp [hslot]

theorem resolve_congr (h : j.pools = i.pools) : j.resolve s = i.resolve s := by
  funext x
  unfold resolve
  rw [h]

theorem mem_resources_of_resolve (h : i.resolve s x = .ok r) : r ∈ i.pools.resources := by
  obtain ⟨c, -, hslot⟩ := resolve_eq_ok.mp h
  exact Pools.mem_resources_of_resourcesOf (List.mem_of_getElem? hslot)

theorem Backs.resolve (h : i.Backs s) {e : StorageClass × Nat} (he : s.peaks[x.classId]? = some e)
    (hlt : x.slot < e.2) : ∃ r, i.resolve s x = .ok r := by
  have hlength := h e (List.mem_of_getElem? he)
  rw [← hlength] at hlt
  refine ⟨(i.pools.resourcesOf e.1)[x.slot], resolve_eq_ok.mpr ⟨e.1, ?_, ?_⟩⟩
  · unfold Schedule.class?
    rw [he, Option.map_some]
  · exact List.getElem?_eq_getElem hlt

theorem Backs.total (h : i.Backs s) {d : Description} {required : List Nat} {config : Config}
    {passes selected : List Pass} {last : Progress}
    (hs : Compilation d required config passes selected last s) :
    ∀ b x, s.allocation b = some x → ∃ r, i.resolve s x = .ok r := by
  intro b x hx
  obtain ⟨e, he, hlt⟩ := hs.exists_peak hx
  exact h.resolve he hlt

/-- If no resource stands twice in the pools, no two slots have the same. -/
theorem resolve_injective (hsorted : i.pools.Sorted) (hnodup : i.pools.resources.Nodup)
    (hpeaks : (s.peaks.map (·.1)).Nodup) (hx : i.resolve s x = .ok r)
    (hy : i.resolve s y = .ok r) : x = y := by
  obtain ⟨c, hclassx, hslotx⟩ := resolve_eq_ok.mp hx
  obtain ⟨k, hclassy, hsloty⟩ := resolve_eq_ok.mp hy
  have hclass : c = k := Pools.class_unique hsorted hnodup
    (List.mem_of_getElem? hslotx) (List.mem_of_getElem? hsloty)
  subst hclass
  have hids : x.classId = y.classId := Schedule.class?_injective hpeaks hclassx hclassy
  have hslots : x.slot = y.slot := by
    have hpool : (i.pools.resourcesOf c).Nodup := by
      have hperm := Pools.resources_perm hsorted c
      exact (List.nodup_append.mp (hperm.nodup_iff.mp hnodup)).1
    have hlt := (List.getElem?_eq_some_iff.mp hslotx).choose
    exact (List.getElem?_inj hlt hpool).mp (hslotx.trans hsloty.symm)
  cases x
  cases y
  simp_all

/-- The resource that holds a buffer. -/
def physical? (i : Inventory) (s : Schedule) (b : Nat) : Option Nat :=
  (s.allocation b).bind fun x => (i.resolve s x).toOption

theorem physical?_eq_some {b : Nat} : i.physical? s b = some r ↔
    ∃ x, s.allocation b = some x ∧ i.resolve s x = .ok r := by
  unfold physical?
  cases hx : s.allocation b with
  | none => simp
  | some x =>
      cases hr : i.resolve s x with
      | ok resource => simp [hr, Except.toOption]
      | error e => simp [hr, Except.toOption]

theorem physical?_congr (h : j.pools = i.pools) : j.physical? s = i.physical? s := by
  funext b
  unfold physical?
  rw [resolve_congr h]

/-- A resource of the pools that is alive. -/
def Owns (i : Inventory) (r : Nat) : Prop :=
  r ∈ i.pools.resources ∧ i.backend.isAlive r = true

/-- Every slot of a schedule has a resource of its own. -/
structure Houses (i : Inventory) (s : Schedule) : Prop where
  total : ∀ b x, s.allocation b = some x → ∃ r, i.resolve s x = .ok r
  injective : ∀ x y r, i.resolve s x = .ok r → i.resolve s y = .ok r → x = y
  owned : ∀ x r, i.resolve s x = .ok r → i.Owns r

theorem Booked.houses (h : i.Booked others) (hbacks : i.Backs s) {d : Description}
    {required : List Nat} {config : Config} {passes selected : List Pass} {last : Progress}
    (hs : Compilation d required config passes selected last s) : i.Houses s where
  total := hbacks.total hs
  injective := fun _ _ _ hx hy =>
    resolve_injective h.sorted h.resources_nodup hs.peaks_nodup hx hy
  owned := fun _ _ hr => ⟨mem_resources_of_resolve hr, h.isAlive (mem_resources_of_resolve hr)⟩

theorem Houses.owns (h : i.Houses s) {b : Nat} (hr : i.physical? s b = some r) : i.Owns r := by
  obtain ⟨x, -, hx⟩ := physical?_eq_some.mp hr
  exact h.owned x r hx

end Inventory

namespace Operation

/-- The slots of the present ports of a declaration, counted from `place`. -/
def portSlots (slot : Nat → Option Allocation) (place : Nat) (ports : List Port) : List PortSlot :=
  (presentPorts place ports).map fun q => ⟨q.port, q.buffer, slot q.buffer⟩

theorem portSlots_cons (slot : Nat → Option Allocation) (place : Nat) (p : Port)
    (ports : List Port) : portSlots slot place (p :: ports) =
      (p.buffer?.map fun b => ⟨place, b, slot b⟩).toList ++ portSlots slot (place + 1) ports := by
  unfold portSlots
  rw [presentPorts_cons, List.map_append]
  cases p.buffer? <;> rfl

namespace Accepted

variable {op : Operation} {tableSize index : Nat} {p : Pass}

theorem phase_inputs (h : op.Accepted tableSize index p) (slot : Nat → Option Allocation) :
    (p.phase slot).inputs = portSlots slot 0 op.inputs := by
  unfold Pass.phase portSlots
  rw [h.inputs_eq]

theorem phase_outputs (h : op.Accepted tableSize index p) (slot : Nat → Option Allocation) :
    (p.phase slot).outputs = portSlots slot 0 op.outputs := by
  unfold Pass.phase portSlots
  rw [h.outputs_eq, List.map_map]
  rfl

end Accepted

/-- The resources that a declaration's ports are to get. -/
def grants (resource? : Nat → Option Nat) (ports : List Port) : List (String × Option Nat) :=
  ports.map fun p => (p.name, p.buffer?.bind resource?)

/-- The accesses that an operator gets through a declaration's ports. -/
def granted (resource? : Nat → Option Nat) (ports : List Port) : List Access :=
  ports.filterMap fun p => p.buffer?.bind fun b => (resource? b).map fun r => ⟨p.name, r, b⟩

theorem accesses_grants (resource? : Nat → Option Nat) (ports : List Port) :
    Inventory.accesses ports (grants resource? ports) = granted resource? ports := by
  induction ports with
  | nil => rfl
  | cons p ports ih =>
      unfold Inventory.accesses grants granted at ih ⊢
      cases hb : p.buffer? with
      | none => simpa [hb] using ih
      | some b =>
          cases hr : resource? b with
          | none => simpa [hb, hr] using ih
          | some r => simpa [hb, hr] using ih

end Operation

namespace Inventory

variable {i : Inventory} {s : Schedule}

theorem slotAt_portSlots_of_lt {slot : Nat → Option Allocation} {ports : List Port}
    {place k : Nat} (hk : k < place) : slotAt (Operation.portSlots slot place ports) k = none := by
  have hnone : (Operation.portSlots slot place ports).find? (·.port == k) = none := by
    rw [List.find?_eq_none]
    intro o ho
    obtain ⟨q, hq, rfl⟩ := List.mem_map.mp ho
    have hplace := Operation.place_le_of_mem_presentPorts hq
    simp only [beq_iff_eq]
    omega
  unfold slotAt
  rw [hnone, Option.bind_none]

theorem slotAt_portSlots (slot : Nat → Option Allocation) (ports : List Port) (place k : Nat) :
    slotAt (Operation.portSlots slot place ports) (place + k) =
      (ports[k]?.bind (·.buffer?)).bind slot := by
  induction ports generalizing place k with
  | nil => rfl
  | cons p ports ih =>
      rw [Operation.portSlots_cons]
      cases k with
      | zero =>
          cases hb : p.buffer? with
          | none =>
              have hlater : slotAt (Operation.portSlots slot (place + 1) ports) place = none :=
                slotAt_portSlots_of_lt (Nat.lt_succ_self place)
              simpa [hb] using hlater
          | some b => simp [slotAt, hb]
      | succ k =>
          have hlater := ih (place + 1) k
          rw [Nat.add_assoc, Nat.add_comm 1 k] at hlater
          cases hb : p.buffer? with
          | none => simpa using hlater
          | some b => simpa [slotAt] using hlater

theorem resolvePortsFrom_eq {slots : List PortSlot} {ports : List Port} {place : Nat}
    (hslots : ∀ k, slotAt slots (place + k) = (ports[k]?.bind (·.buffer?)).bind s.allocation)
    (htotal : ∀ b x, s.allocation b = some x → ∃ r, i.resolve s x = .ok r) :
    i.resolvePortsFrom s slots place ports = .ok (Operation.grants (i.physical? s) ports) := by
  induction ports generalizing place with
  | nil => rfl
  | cons p ports ih =>
      have hrest : i.resolvePortsFrom s slots (place + 1) ports =
          .ok (Operation.grants (i.physical? s) ports) := by
        apply ih
        intro k
        have hk := hslots (k + 1)
        rw [List.getElem?_cons_succ] at hk
        rw [← hk]
        congr 1
        omega
      have hhead := hslots 0
      rw [Nat.add_zero, List.getElem?_cons_zero, Option.bind_some] at hhead
      have hresource : (slotAt slots place).mapM (i.resolve s) =
          .ok (p.buffer?.bind (i.physical? s)) := by
        rw [hhead]
        cases hb : p.buffer? with
        | none => rfl
        | some b =>
            rw [Option.bind_some, Option.bind_some]
            unfold physical?
            cases hx : s.allocation b with
            | none => rfl
            | some x =>
                obtain ⟨r, hr⟩ := htotal b x hx
                simp [hr, Except.toOption]
      unfold resolvePortsFrom
      rw [hresource, hrest]
      rfl

end Inventory

/-- A phase and the operation that it carries out, with the slots on record. -/
structure Phase.CarriesOut (phase : Phase) (d : Description) (s : Schedule) (op : Operation) :
    Prop where
  declared : d.operations[phase.operation]? = some op
  inputs_eq : phase.inputs = Operation.portSlots s.allocation 0 op.inputs
  outputs_eq : phase.outputs = Operation.portSlots s.allocation 0 op.outputs

/-- An operator and the phase that it serves: it accesses all present ports
whose buffers have resources. -/
structure Operator.Serves (o : Operator) (i : Inventory) (d : Description) (s : Schedule)
    (phase : Phase) (op : Operation) : Prop where
  carriesOut : phase.CarriesOut d s op
  name_eq : o.name = phase.name
  reads_eq : o.reads = Operation.granted (i.physical? s) op.inputs
  writes_eq : o.writes = Operation.granted (i.physical? s) op.outputs

theorem Operator.Serves.congr {o : Operator} {i j : Inventory} {d : Description} {s : Schedule}
    {phase : Phase} {op : Operation} (h : o.Serves i d s phase op) (hpools : j.pools = i.pools) :
    o.Serves j d s phase op where
  carriesOut := h.carriesOut
  name_eq := h.name_eq
  reads_eq := by
    rw [Inventory.physical?_congr hpools]
    exact h.reads_eq
  writes_eq := by
    rw [Inventory.physical?_congr hpools]
    exact h.writes_eq

/-- Every phase of a schedule carries out an operation of the description. -/
theorem Compilation.exists_carriesOut {d : Description} {required : List Nat} {config : Config}
    {passes selected : List Pass} {last : Progress} {s : Schedule} {phase : Phase}
    (h : Compilation d required config passes selected last s) (hphase : phase ∈ s.phases) :
    ∃ op, phase.CarriesOut d s op := by
  obtain ⟨p, op, -, rfl, hop, haccepted⟩ := h.exists_accepted hphase
  exact ⟨op, hop, haccepted.phase_inputs _, haccepted.phase_outputs _⟩

namespace Inventory

variable {i : Inventory} {d : Description} {s : Schedule} {phase : Phase} {op : Operation}

/-- Every declared port gets the resource of its buffer's slot, if it has both. -/
theorem resolvePorts_eq (hphase : phase.CarriesOut d s op)
    (htotal : ∀ b x, s.allocation b = some x → ∃ r, i.resolve s x = .ok r) :
    i.resolvePorts s op phase = .ok ⟨Operation.grants (i.physical? s) op.inputs,
      Operation.grants (i.physical? s) op.outputs⟩ := by
  unfold resolvePorts
  rw [hphase.inputs_eq, hphase.outputs_eq,
    resolvePortsFrom_eq (fun k => slotAt_portSlots _ _ 0 k) htotal,
    resolvePortsFrom_eq (fun k => slotAt_portSlots _ _ 0 k) htotal]
  rfl

theorem build_ends (hphase : phase.CarriesOut d s op)
    (htotal : ∀ b x, s.allocation b = some x → ∃ r, i.resolve s x = .ok r) :
    (build d s phase).Ends i fun result j es => j.pools = i.pools ∧ j.backend = i.backend ∧
      (∀ e ∈ es, e.isSilent = true) ∧ ∃ o, result = .ok o ∧ o.Serves i d s phase op := by
  have hop : d.operations.getD phase.operation { name := phase.name } = op := by
    rw [List.getD_eq_getElem?_getD, hphase.declared, Option.getD_some]
  unfold build
  rw [Act.ends_get_bind, hop]
  dsimp only
  rw [resolvePorts_eq hphase htotal, Act.ends_ofExcept_ok_bind, Act.ends_modify_bind,
    Act.ends_emit_bind, Act.ends_pure]
  refine ⟨rfl, rfl, List.forall_mem_singleton.mpr rfl, _, rfl, ?_⟩
  constructor
  · exact hphase
  · rfl
  · exact Operation.accesses_grants _ _
  · exact Operation.accesses_grants _ _

/-- Building operators does not fail and leaves the resources alone. -/
theorem buildAll_ends {phases : List Phase} (hphases : ∀ p ∈ phases, ∃ op, p.CarriesOut d s op)
    (htotal : ∀ b x, s.allocation b = some x → ∃ r, i.resolve s x = .ok r) :
    (buildAll d s phases).Ends i fun result j es => j.pools = i.pools ∧ j.backend = i.backend ∧
      (∀ e ∈ es, e.isSilent = true) ∧ ∃ os, result = .ok os ∧
        List.Forall₂ (fun p o => ∃ op, Operator.Serves o i d s p op) phases os := by
  induction phases generalizing i with
  | nil => exact ⟨rfl, rfl, List.forall_mem_nil _, [], rfl, .nil⟩
  | cons p phases ih =>
      obtain ⟨op, hop⟩ := hphases p List.mem_cons_self
      unfold buildAll
      apply (build_ends hop htotal).bind
      · intro o j es hj
        obtain ⟨hpools, hbackend, hsilent, o', ho', hserves⟩ := hj
        cases ho'
        have htotal' : ∀ b x, s.allocation b = some x → ∃ r, j.resolve s x = .ok r := by
          rw [resolve_congr hpools]
          exact htotal
        apply (ih (fun q hq => hphases q (List.mem_cons_of_mem _ hq)) htotal').bind
        · intro os l es' hl
          obtain ⟨hpools', hbackend', hsilent', os', hos', hall⟩ := hl
          cases hos'
          rw [Act.ends_pure, List.append_nil]
          refine ⟨hpools'.trans hpools, hbackend'.trans hbackend, ?_, o :: os, rfl, ?_⟩
          · exact List.forall_mem_append.mpr ⟨hsilent, hsilent'⟩
          · apply List.Forall₂.cons
            · exact ⟨op, hserves⟩
            · refine hall.imp fun q o' ho' => ?_
              obtain ⟨op', hserves'⟩ := ho'
              exact ⟨op', hserves'.congr hpools.symm⟩
        · intro e l es' hl
          obtain ⟨-, -, -, os', hos', -⟩ := hl
          cases hos'
      · intro e j es hj
        obtain ⟨-, -, -, o', ho', -⟩ := hj
        cases ho'

end Inventory
end FrameGraph
