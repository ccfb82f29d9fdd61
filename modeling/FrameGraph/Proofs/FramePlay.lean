import FrameGraph.Proofs.Dataflow
import FrameGraph.Proofs.PortResolution
import FrameGraph.Renderer

/-!
# Playing a frame

A frame on resources does what its schedule does on slots. `Inventory.view` reads
the contents of the slots off a memory of the resources. Because no resource
stands behind two slots, recording an output in its resource stores it in its
slot and changes no other; so whatever replays on the slots plays on the
resources.
-/
namespace FrameGraph

def Operation.carried (ports : List Port) : List (String × Nat) :=
  ports.filterMap fun p => p.buffer?.map fun b => (p.name, b)

/-- An operator carries out an operation without fault on a memory. It reads
every present input and writes every present output that is not discarded; each
read finds the buffer of its port; and the resources it uses are those of the
buffers, owned and alive. -/
structure Operator.Performs (o : Operator) (i : Inventory) (s : Schedule) (op : Operation)
    (m : Memory Nat) : Prop where
  reads_eq : o.reads.map (fun a => (a.port, a.buffer)) = Operation.carried op.inputs
  writes_eq : o.writes.map (fun a => (a.port, a.buffer)) =
    (Operation.carried op.outputs).filter fun e => (s.allocation e.2).isSome
  found : ∀ a ∈ o.reads, (Operator.check m a).found = true
  resources : ∀ a, a ∈ o.reads ∨ a ∈ o.writes →
    i.physical? s a.buffer = some a.resource ∧ i.Owns a.resource

/-- The phases run one after another as the events show, every one of them
performed without fault. -/
inductive Plays (i : Inventory) (d : Description) (s : Schedule) :
    Memory Nat → List Phase → List Event → Memory Nat → Prop
  | nil (m : Memory Nat) : Plays i d s m [] [] m
  | cons {p : Phase} {ps : List Phase} {o : Operator} {op : Operation} {es : List Event}
      {m m' : Memory Nat} :
      d.operations[p.operation]? = some op → o.name = p.name → o.Performs i s op m →
      Plays i d s (o.apply m) ps es m' → Plays i d s m (p :: ps) (o.performance m :: es) m'

namespace Operation

variable {i : Inventory} {s : Schedule} {ports : List Port}

theorem mem_granted {resource? : Nat → Option Nat} {a : Access} (h : a ∈ granted resource? ports) :
    resource? a.buffer = some a.resource := by
  obtain ⟨p, -, ha⟩ := List.mem_filterMap.mp h
  obtain ⟨b, -, ha⟩ := Option.bind_eq_some_iff.mp ha
  obtain ⟨r, hr, rfl⟩ := Option.map_eq_some_iff.mp ha
  exact hr

theorem map_granted (h : i.Houses s) (ports : List Port) :
    (granted (i.physical? s) ports).map (fun a => (a.port, a.buffer)) =
      (carried ports).filter fun e => (s.allocation e.2).isSome := by
  induction ports with
  | nil => rfl
  | cons p ports ih =>
      unfold granted carried at ih ⊢
      cases hb : p.buffer? with
      | none => simpa [hb] using ih
      | some b =>
          cases hx : s.allocation b with
          | none => simpa [hb, hx, Inventory.physical?] using ih
          | some x =>
              obtain ⟨r, hr⟩ := h.total b x hx
              have hphysical := Inventory.physical?_eq_some.mpr ⟨x, hx, hr⟩
              simpa [hb, hx, hphysical] using ih

theorem buffers_portSlots (slot : Nat → Option Allocation) (ports : List Port) :
    (portSlots slot 0 ports).map (·.buffer) = (carried ports).map (·.2) := by
  unfold portSlots carried
  rw [List.map_map, List.map_filterMap]
  simpa [Function.comp_def] using buffers_presentPorts 0 ports

end Operation

namespace Inventory

variable {i : Inventory} {d : Description} {s : Schedule} {m : Memory Nat} {x : Allocation}
  {r : Nat}

/-- The contents of the slots when the resources hold what is in a memory. -/
def view (i : Inventory) (s : Schedule) (m : Memory Nat) : Storage :=
  fun x => (i.resolve s x).toOption.bind m.read

theorem view_of_resolve (h : i.resolve s x = .ok r) : i.view s m x = m.read r := by
  unfold view
  rw [h]
  rfl

namespace Houses

theorem view_write (h : i.Houses s) (hr : i.resolve s x = .ok r) (b : Nat) :
    i.view s (m.write r b) = Function.update (i.view s m) x (some b) := by
  funext y
  by_cases hy : y = x
  · rw [hy, Function.update_self, view_of_resolve hr, Memory.read_write, if_pos rfl]
  · rw [Function.update_of_ne hy]
    cases hry : i.resolve s y with
    | error e =>
        unfold view
        rw [hry]
        rfl
    | ok q =>
        have hne : q ≠ r := by
          intro hqr
          apply hy
          rw [hqr] at hry
          exact h.injective y x r hry hr
        rw [view_of_resolve hry, view_of_resolve hry, Memory.read_write, if_neg hne]

/-- Recording all outputs stores them in their slots. -/
theorem view_record (h : i.Houses s) (ports : List Port) (place : Nat) (m : Memory Nat) :
    i.view s ((Operation.granted (i.physical? s) ports).foldl Operator.record m) =
      (Operation.portSlots s.allocation place ports).foldl PortSlot.store (i.view s m) := by
  induction ports generalizing place m with
  | nil => rfl
  | cons p ports ih =>
      have htail := ih (place + 1)
      rw [Operation.portSlots_cons]
      unfold Operation.granted at htail ⊢
      cases hb : p.buffer? with
      | none => simpa [hb] using htail m
      | some b =>
          cases hx : s.allocation b with
          | none => simpa [hb, hx, physical?, PortSlot.store] using htail m
          | some x =>
              obtain ⟨r, hr⟩ := h.total b x hx
              have hphysical : i.physical? s b = some r := physical?_eq_some.mpr ⟨x, hx, hr⟩
              have hstored := htail (m.write r b)
              rw [h.view_write hr] at hstored
              simpa [hb, hx, hphysical, PortSlot.store, Operator.record] using hstored

end Houses
end Inventory

namespace Operator.Serves

variable {o : Operator} {i : Inventory} {d : Description} {s : Schedule} {phase : Phase}
  {op : Operation} {m : Memory Nat}

/-- A phase that finds its inputs has them in the slots on record. -/
theorem held (h : o.Serves i d s phase op) {contents : Storage} (hfinds : phase.Finds contents)
    {e : String × Nat} (he : e ∈ Operation.carried op.inputs) :
    ∃ x, s.allocation e.2 = some x ∧ contents x = some e.2 := by
  have hmem : e.2 ∈ (Operation.portSlots s.allocation 0 op.inputs).map (·.buffer) := by
    rw [Operation.buffers_portSlots]
    exact List.mem_map_of_mem he
  obtain ⟨port, hport, hbuffer⟩ := List.mem_map.mp hmem
  have hslot : port.allocation = s.allocation port.buffer := by
    obtain ⟨q, -, rfl⟩ := List.mem_map.mp hport
    rfl
  rw [← h.carriesOut.inputs_eq] at hport
  obtain ⟨x, hx, hcontents⟩ := hfinds port hport
  rw [hslot, hbuffer] at hx
  rw [hbuffer] at hcontents
  exact ⟨x, hx, hcontents⟩

/-- What the phase finds in its slots the operator finds in its resources. -/
theorem performs (h : o.Serves i d s phase op) (hi : i.Houses s)
    (hfinds : phase.Finds (i.view s m)) : o.Performs i s op m := by
  have hreads : o.reads.map (fun a => (a.port, a.buffer)) = Operation.carried op.inputs := by
    rw [h.reads_eq, Operation.map_granted hi, List.filter_eq_self]
    intro e he
    obtain ⟨x, hx, -⟩ := h.held hfinds he
    rw [hx]
    rfl
  constructor
  · exact hreads
  · rw [h.writes_eq, Operation.map_granted hi]
  · intro a ha
    have hcarried : (a.port, a.buffer) ∈ Operation.carried op.inputs := by
      rw [← hreads]
      exact List.mem_map_of_mem ha
    obtain ⟨x, hx, hcontents⟩ := h.held hfinds hcarried
    rw [h.reads_eq] at ha
    obtain ⟨y, hy, hresolve⟩ := Inventory.physical?_eq_some.mp (Operation.mem_granted ha)
    rw [hx] at hy
    cases hy
    rw [Inventory.view_of_resolve hresolve] at hcontents
    simpa [Operator.check] using hcontents
  · intro a ha
    have hphysical : i.physical? s a.buffer = some a.resource := by
      rcases ha with ha | ha
      · rw [h.reads_eq] at ha
        exact Operation.mem_granted ha
      · rw [h.writes_eq] at ha
        exact Operation.mem_granted ha
    exact ⟨hphysical, hi.owns hphysical⟩

theorem view_apply (h : o.Serves i d s phase op) (hi : i.Houses s) (m : Memory Nat) :
    i.view s (o.apply m) = phase.store (i.view s m) := by
  unfold Operator.apply Phase.store
  rw [h.writes_eq, h.carriesOut.outputs_eq]
  exact hi.view_record op.outputs 0 m

end Operator.Serves

namespace Crew

def applyAll (os : List Operator) (m : Memory Nat) : Memory Nat :=
  os.foldl (fun m o => o.apply m) m

def performances : Memory Nat → List Operator → List Event
  | _, [] => []
  | m, o :: os => o.performance m :: performances (o.apply m) os

theorem run_performAll (os : List Operator) (c : Crew) :
    (performAll os).run c = ⟨.ok (), { c with memory := applyAll os c.memory },
      performances c.memory os⟩ := by
  induction os generalizing c with
  | nil => rfl
  | cons o os ih =>
      unfold performAll
      rw [Act.run_bind_ok (Act.run_get c), Act.run_bind_ok (Act.run_emit _ _),
        Act.run_bind_ok (Act.run_modify _ _), ih]
      rfl

/-- A frame: all prepare, all perform, all finalize. -/
theorem run_execute (c : Crew) :
    execute.run c = ⟨.ok (),
      { c with memory := applyAll c.operators c.memory, frames := c.frames + 1 },
      .frameStarted c.frames c.operators.length ::
        (c.operators.map (fun o => .prepared o.serial o.name) ++
          (performances c.memory c.operators ++
            c.operators.map fun o => .finalized o.serial o.name))⟩ := by
  unfold execute
  rw [Act.run_bind_ok (Act.run_get c), Act.run_bind_ok (Act.run_emit _ _),
    Act.run_bind_ok (Act.run_emitAll _ _), Act.run_bind_ok (run_performAll _ _),
    Act.run_bind_ok (Act.run_emitAll _ _)]
  simp

end Crew

/-- What replays on the slots plays on the resources. -/
theorem Inventory.Houses.plays {i : Inventory} {d : Description} {s : Schedule}
    {phases : List Phase} {os : List Operator} {m : Memory Nat} {contents : Storage}
    (h : i.Houses s) (hreplays : Replays (i.view s m) phases contents)
    (hserves : List.Forall₂ (fun p o => ∃ op, Operator.Serves o i d s p op) phases os) :
    Plays i d s m phases (Crew.performances m os) (Crew.applyAll os m) ∧
      i.view s (Crew.applyAll os m) = contents := by
  induction hserves generalizing m with
  | nil =>
      cases hreplays
      exact ⟨.nil m, rfl⟩
  | cons hserve _ ih =>
      obtain ⟨op, hop⟩ := hserve
      cases hreplays with
      | cons hfinds hrest =>
          rw [← hop.view_apply h] at hrest
          obtain ⟨hplays, hview⟩ := ih hrest
          constructor
          · apply Plays.cons hop.carriesOut.declared hop.name_eq
            · exact hop.performs h hfinds
            · exact hplays
          · exact hview

end FrameGraph
