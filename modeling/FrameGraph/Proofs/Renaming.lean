import FrameGraph.Placement
import FrameGraph.Proofs.LedgerBalance
import Mathlib.Data.List.Sort
import Mathlib.Logic.Equiv.Defs

/-!
# Renamings

Buffers, passes, storage classes and slots are told apart by numbers. A
`Renaming` gives them other numbers: the classes and the buffers are permuted,
and for every class its slots are.

A table indexed by such numbers is related to another one by `Moved`: what stands
at a place stands in the other at the new place, renamed. Slot allocators and
ledgers are such tables, and all that is done with them commutes with the
renaming. A pool mints its slots in the order of their numbers, so a renaming
leaves the slots alone that have not been minted yet.
-/
namespace FrameGraph

structure Renaming where
  buffer : Equiv.Perm Nat
  /-- The index of a pass. -/
  index : Nat → Nat
  classId : Equiv.Perm Nat
  /-- The slots of a class, by its former number. -/
  slot : Nat → Equiv.Perm Nat

namespace Renaming

/-- Classes and slots keep their numbers. -/
structure KeepsSlots (ρ : Renaming) : Prop where
  classId_eq : ∀ id, ρ.classId id = id
  slot_eq : ∀ id k, ρ.slot id k = k

variable (ρ : Renaming)

def port (i : PresentPort) : PresentPort := ⟨i.port, ρ.buffer i.buffer⟩

def output (o : PassOutput) : PassOutput := ⟨ρ.port o.toPresentPort, o.optional⟩

def pass (p : Pass) : Pass :=
  ⟨ρ.index p.index, p.name, p.inputs.map ρ.port, p.outputs.map ρ.output, p.bindings⟩

def allocation (x : Allocation) : Allocation := ⟨ρ.classId x.classId, ρ.slot x.classId x.slot⟩

def demand (d : Demand) : Demand := ⟨d.uses, ρ.allocation d.allocation⟩

def portSlot (q : PortSlot) : PortSlot :=
  ⟨q.port, ρ.buffer q.buffer, q.allocation.map ρ.allocation⟩

def phase (p : Phase) : Phase :=
  ⟨ρ.index p.operation, p.name, p.inputs.map ρ.portSlot, p.outputs.map ρ.portSlot⟩

def plan (p : Plan) : Plan := ⟨p.cost, p.inPlace.map (Prod.map ρ.port ρ.output)⟩

def candidate (c : Candidate) : Candidate := ⟨ρ.pass c.pass, ρ.plan c.plan⟩

theorem KeepsSlots.allocation_eq_id {ρ : Renaming} (h : ρ.KeepsSlots) : ρ.allocation = id :=
  funext fun x => by rw [allocation, h.classId_eq, h.slot_eq, id]

@[simp] theorem buffer_port (i : PresentPort) : (ρ.port i).buffer = ρ.buffer i.buffer := rfl

@[simp] theorem buffer_output (o : PassOutput) : (ρ.output o).buffer = ρ.buffer o.buffer := rfl

@[simp] theorem optional_output (o : PassOutput) : (ρ.output o).optional = o.optional := rfl

@[simp] theorem buffer_portSlot (q : PortSlot) : (ρ.portSlot q).buffer = ρ.buffer q.buffer := rfl

@[simp] theorem allocation_portSlot (q : PortSlot) :
    (ρ.portSlot q).allocation = q.allocation.map ρ.allocation := rfl

@[simp] theorem buffer_beq (b c : Nat) : (ρ.buffer b == ρ.buffer c) = (b == c) := by
  rw [Bool.eq_iff_iff, beq_iff_eq, beq_iff_eq, ρ.buffer.apply_eq_iff_eq]

theorem contains_map (bs : List Nat) (b : Nat) :
    (bs.map ρ.buffer).contains (ρ.buffer b) = bs.contains b := by
  rw [Bool.eq_iff_iff, List.contains_iff_mem, List.contains_iff_mem,
    List.mem_map_of_injective ρ.buffer.injective]

theorem reads_pass (p : Pass) : (ρ.pass p).reads = p.reads.map ρ.buffer := by
  simp [Pass.reads, pass, Function.comp_def]

theorem writes_pass (p : Pass) : (ρ.pass p).writes = p.writes.map ρ.buffer := by
  simp [Pass.writes, pass, Function.comp_def]

theorem sharing_pass (p : Pass) :
    (ρ.pass p).sharing = p.sharing.map (Prod.map ρ.port ρ.output) := by
  unfold Pass.sharing
  rw [List.map_filterMap]
  apply List.filterMap_congr
  intro b _
  cases hi : p.inputs[b.1]? with
  | none => simp [pass, hi]
  | some i =>
      cases ho : p.outputs[b.2]? with
      | none => simp [pass, hi, ho]
      | some o => simp [pass, hi, ho]

theorem port_eq_id (h : ∀ b, ρ.buffer b = b) : ρ.port = id :=
  funext fun i => by rw [port, h, id]

theorem portSlot_eq_id (h : ∀ b, ρ.buffer b = b) (hρ : ρ.KeepsSlots) : ρ.portSlot = id :=
  funext fun q => by rw [portSlot, h, hρ.allocation_eq_id, Option.map_id, id, id]

/-- When the buffers keep their numbers, a pass changes its index only. -/
theorem pass_of_buffer_eq (h : ∀ b, ρ.buffer b = b) (p : Pass) :
    ρ.pass p = { p with index := ρ.index p.index } := by
  have houtput : ρ.output = id := funext fun o => by rw [output, ρ.port_eq_id h, id, id]
  rw [pass, ρ.port_eq_id h, houtput, List.map_id, List.map_id]

theorem donor?_map (inPlace : List (PresentPort × PassOutput)) (b : Nat) :
    Plan.donor? (inPlace.map (Prod.map ρ.port ρ.output)) (ρ.buffer b) =
      (Plan.donor? inPlace b).map ρ.buffer := by
  simp [Plan.donor?, List.find?_map, Function.comp_def]

theorem donates_map (inPlace : List (PresentPort × PassOutput)) (b : Nat) :
    Plan.donates (inPlace.map (Prod.map ρ.port ρ.output)) (ρ.buffer b) =
      Plan.donates inPlace b := by
  simp [Plan.donates, List.any_map, Function.comp_def]

theorem slotOf_map (ports : List PortSlot) (b : Nat) :
    Phase.slotOf (ports.map ρ.portSlot) (ρ.buffer b) =
      (Phase.slotOf ports b).map ρ.allocation := by
  unfold Phase.slotOf
  rw [List.find?_map]
  simp only [Function.comp_def, buffer_portSlot, buffer_beq]
  cases ports.find? (·.buffer == b) <;> rfl

theorem leastCost_map (cs : List Candidate) :
    leastCost (cs.map ρ.candidate) = (leastCost cs).map ρ.candidate := by
  induction cs with
  | nil => rfl
  | cons c cs ih =>
      simp only [List.map_cons, leastCost, ih]
      cases leastCost cs with
      | none => rfl
      | some best =>
          have hcost : ∀ c : Candidate, (ρ.candidate c).plan.cost = c.plan.cost := fun _ => rfl
          simp only [Option.map_some, hcost]
          split_ifs <;> rfl

end Renaming

/-- A permutation that fixes what is not below a bound keeps what is below it. -/
theorem lt_iff_of_fixed {σ : Equiv.Perm Nat} {bound : Nat} (h : ∀ k, bound ≤ k → σ k = k)
    (k : Nat) : σ k < bound ↔ k < bound := by
  constructor
  · intro hlt
    by_contra hge
    rw [h k (Nat.not_lt.mp hge)] at hlt
    exact hge hlt
  · intro hlt
    by_contra hge
    have hfixed := σ.injective (h (σ k) (Nat.not_lt.mp hge))
    rw [hfixed] at hge
    exact hge hlt

/-- What stands at a place of the first list stands in the second at the new
place, renamed. -/
def Moved {α β : Type} (place : Equiv.Perm Nat) (f : Nat → α → β) (xs : List α) (ys : List β) :
    Prop :=
  ∀ k, ys[place k]? = xs[k]?.map (f k)

namespace Moved

variable {α β : Type} {place : Equiv.Perm Nat} {f : Nat → α → β} {xs : List α} {ys : List β}

theorem lt_iff (h : Moved place f xs ys) (k : Nat) : place k < ys.length ↔ k < xs.length := by
  rw [← Nat.not_le, ← Nat.not_le, ← List.getElem?_eq_none_iff, ← List.getElem?_eq_none_iff, h k,
    Option.map_eq_none_iff]

theorem length_eq (h : Moved place f xs ys) (hfixed : ∀ k, xs.length ≤ k → place k = k) :
    ys.length = xs.length := by
  have hlt : ∀ j, j < ys.length ↔ j < xs.length := by
    intro j
    obtain ⟨k, rfl⟩ := place.surjective j
    rw [h.lt_iff, lt_iff_of_fixed hfixed]
  have hleft := hlt ys.length
  have hright := hlt xs.length
  omega

theorem append_singleton (h : Moved place f xs ys) (hfixed : ∀ k, xs.length ≤ k → place k = k)
    (x : α) : Moved place f (xs ++ [x]) (ys ++ [f xs.length x]) := by
  intro j
  have hlast : place j = xs.length ↔ j = xs.length := by
    rw [← place.apply_eq_iff_eq (x := j), hfixed xs.length (Nat.le_refl _)]
  rw [getElem?_append_singleton, getElem?_append_singleton, h.length_eq hfixed, h j]
  simp only [hlast]
  split_ifs with hj
  · rw [hj, Option.map_some]
  · rfl

theorem set (h : Moved place f xs ys) (k : Nat) (x : α) :
    Moved place f (xs.set k x) (ys.set (place k) (f k x)) := by
  intro j
  rw [List.getElem?_set, List.getElem?_set, h j]
  by_cases hj : k = j
  · subst hj
    by_cases hk : k < xs.length
    · simp [hk, h.lt_iff]
    · simp [hk, h.lt_iff]
  · simp [hj]

/-- Tables with entries that may be missing are related when what is found in them is. -/
theorem of_join {f : α → β} {xs : List (Option α)} {ys : List (Option β)}
    (hlt : ∀ k, place k < ys.length ↔ k < xs.length)
    (hjoin : ∀ k, ys[place k]?.join = xs[k]?.join.map f) :
    Moved place (fun _ => Option.map f) xs ys := by
  intro k
  have hk := hjoin k
  by_cases hx : k < xs.length
  · have hy := (hlt k).mpr hx
    rw [List.getElem?_eq_getElem hx, List.getElem?_eq_getElem hy] at hk ⊢
    simpa using hk
  · rw [List.getElem?_eq_none (Nat.not_lt.mp hx),
      List.getElem?_eq_none (Nat.not_lt.mp (mt (hlt k).mp hx)), Option.map_none]

end Moved

/-- The second pool is the first one with other numbers for its slots. -/
structure SlotPool.Renamed (σ : Equiv.Perm Nat) (pool pool' : SlotPool) : Prop where
  live : Moved σ (fun _ flag => flag) pool.live pool'.live
  free : pool'.free = pool.free.map σ

namespace SlotPool.Renamed

variable {σ : Equiv.Perm Nat} {pool pool' : SlotPool}

theorem minted_eq (h : pool.Renamed σ pool') (hfixed : ∀ k, pool.minted ≤ k → σ k = k) :
    pool'.minted = pool.minted := h.live.length_eq hfixed

theorem acquire (h : pool.Renamed σ pool') (hfixed : ∀ k, pool.minted ≤ k → σ k = k) :
    pool'.acquire.1 = σ pool.acquire.1 ∧ pool.acquire.2.Renamed σ pool'.acquire.2 := by
  have hfree := h.free
  cases hf : pool.free with
  | nil =>
      rw [hf, List.map_nil] at hfree
      rw [acquire_of_full hf, acquire_of_full hfree, h.minted_eq hfixed]
      exact ⟨(hfixed _ (Nat.le_refl _)).symm, h.live.append_singleton hfixed true, h.free⟩
  | cons slot rest =>
      rw [hf, List.map_cons] at hfree
      rw [acquire_of_free hf, acquire_of_free hfree]
      exact ⟨rfl, h.live.set slot true, rfl⟩

theorem live_iff (h : pool.Renamed σ pool') (k : Nat) : pool'.Live (σ k) ↔ pool.Live k := by
  unfold Live
  rw [h.live k, Option.map_id']

theorem release (h : pool.Renamed σ pool') (k : Nat) :
    (pool.release k).2.Renamed σ (pool'.release (σ k)).2 := by
  by_cases hk : pool.Live k
  · rw [release_of_live hk, release_of_live ((h.live_iff k).mpr hk)]
    exact ⟨h.live.set k false, congrArg (σ k :: ·) h.free⟩
  · rw [release_of_not_live hk, release_of_not_live (mt (h.live_iff k).mp hk)]
    exact h

end SlotPool.Renamed

/-- The second allocator is the first one renamed. -/
structure SlotAllocator.Renamed (ρ : Renaming) (a a' : SlotAllocator) : Prop where
  classes : Moved ρ.classId (fun _ c => c) a.classes a'.classes
  pools : ∀ id, Option.Rel (SlotPool.Renamed (ρ.slot id)) (a.pool? id) (a'.pool? (ρ.classId id))
  fixed : ∀ x, ¬a.Minted x → ρ.slot x.classId x.slot = x.slot

namespace SlotAllocator.Renamed

variable {ρ : Renaming} {a a' b : SlotAllocator} {x : Allocation} {id : Nat} {pool : SlotPool}

theorem pool?_eq_some (h : Renamed ρ a a') (hpool : a.pool? id = some pool) :
    ∃ pool', a'.pool? (ρ.classId id) = some pool' ∧ pool.Renamed (ρ.slot id) pool' := by
  have hrel := h.pools id
  rw [hpool] at hrel
  generalize a'.pool? (ρ.classId id) = found at hrel
  cases hrel with
  | some hrenamed => exact ⟨_, rfl, hrenamed⟩

theorem pool?_eq_none (h : Renamed ρ a a') (hpool : a.pool? id = none) :
    a'.pool? (ρ.classId id) = none := by
  have hrel := h.pools id
  rw [hpool] at hrel
  generalize a'.pool? (ρ.classId id) = found at hrel
  cases hrel with
  | none => rfl

theorem fixed_of_pool? (h : Renamed ρ a a') (hpool : a.pool? id = some pool) (k : Nat)
    (hk : pool.minted ≤ k) : ρ.slot id k = k := by
  apply h.fixed ⟨id, k⟩
  intro hminted
  obtain ⟨other, hother, hlt⟩ := hminted
  cases hpool.symm.trans hother
  exact Nat.not_lt.mpr hk hlt

theorem freeCount_eq (h : Renamed ρ a a') (id : Nat) :
    a'.freeCount (ρ.classId id) = a.freeCount id := by
  cases hpool : a.pool? id with
  | none => simp [freeCount, hpool, h.pool?_eq_none hpool]
  | some pool =>
      obtain ⟨pool', hpool', hrenamed⟩ := h.pool?_eq_some hpool
      simp [freeCount, hpool, hpool', SlotPool.freeCount, hrenamed.free]

theorem peaks_moved (h : Renamed ρ a a') : Moved ρ.classId (fun _ e => e) a.peaks a'.peaks := by
  intro id
  rw [getElem?_peaks, getElem?_peaks]
  have hclass : a'.class? (ρ.classId id) = a.class? id := by
    rw [class?, class?, h.classes id, Option.map_id']
  rw [hclass]
  cases hpool : a.pool? id with
  | none => simp [h.pool?_eq_none hpool]
  | some pool =>
      obtain ⟨pool', hpool', hrenamed⟩ := h.pool?_eq_some hpool
      have hpeak : pool'.peak = pool.peak := hrenamed.minted_eq (h.fixed_of_pool? hpool)
      simp [hpool', hpeak]

/-- A pool may change as long as it does not forget slots. -/
theorem setPool (h : Renamed ρ a a') {new new' : SlotPool} (hpool : a.pool? id = some pool)
    (hnew : new.Renamed (ρ.slot id) new') (hminted : pool.minted ≤ new.minted) :
    Renamed ρ (a.setPool id new) (a'.setPool (ρ.classId id) new') where
  classes := h.classes
  pools := by
    intro k
    obtain ⟨pool', hpool', -⟩ := h.pool?_eq_some hpool
    rw [pool?_setPool, pool?_setPool, hpool, hpool']
    by_cases hk : k = id
    · rw [hk, if_pos rfl, if_pos rfl]
      exact .some hnew
    · rw [if_neg hk, if_neg (mt ρ.classId.apply_eq_iff_eq.mp hk)]
      exact h.pools k
  fixed := by
    intro y hy
    rw [minted_setPool hpool] at hy
    split_ifs at hy with hid
    · rw [hid]
      exact h.fixed_of_pool? hpool y.slot (by omega)
    · exact h.fixed y hy

theorem acquire (h : Renamed ρ a a') (id : Nat) :
    (a'.acquire (ρ.classId id)).1 = ρ.allocation (a.acquire id).1 ∧
      Renamed ρ (a.acquire id).2 (a'.acquire (ρ.classId id)).2 := by
  cases hpool : a.pool? id with
  | none =>
      have hfixed : ρ.slot id 0 = 0 := by
        apply h.fixed ⟨id, 0⟩
        intro hminted
        obtain ⟨pool, hsome, -⟩ := hminted
        cases hpool.symm.trans hsome
      simp only [SlotAllocator.acquire, hpool, h.pool?_eq_none hpool]
      exact ⟨by simp [Renaming.allocation, hfixed], h⟩
  | some pool =>
      obtain ⟨pool', hpool', hrenamed⟩ := h.pool?_eq_some hpool
      obtain ⟨hslot, hnew⟩ := hrenamed.acquire (h.fixed_of_pool? hpool)
      simp only [SlotAllocator.acquire, hpool, hpool', hslot]
      exact ⟨rfl, h.setPool hpool hnew pool.minted_le_acquire⟩

theorem release (h : Renamed ρ a a') (hrelease : a.release x = .ok b) :
    ∃ b', a'.release (ρ.allocation x) = .ok b' ∧ Renamed ρ b b' := by
  obtain ⟨pool, hpool, hlive, rfl⟩ := release_eq_ok.mp hrelease
  obtain ⟨pool', hpool', hrenamed⟩ := h.pool?_eq_some hpool
  have hminted : pool.minted ≤ (pool.release x.slot).2.minted := by
    simp [SlotPool.release_of_live hlive, SlotPool.minted]
  have hlive' : pool'.Live (ρ.allocation x).slot := (hrenamed.live_iff x.slot).mpr hlive
  exact ⟨_, release_eq_ok.mpr ⟨pool', hpool', hlive', rfl⟩,
    h.setPool hpool (hrenamed.release x.slot) hminted⟩

end SlotAllocator.Renamed

namespace Ledger

theorem mem_openBuffers {l : Ledger} {b : Nat} : b ∈ l.openBuffers ↔ (l.demand? b).isSome := by
  unfold openBuffers
  rw [List.mem_filter, List.mem_range]
  constructor
  · exact fun hb => hb.2
  · intro hsome
    obtain ⟨d, hd⟩ := Option.isSome_iff_exists.mp hsome
    exact ⟨lt_of_demand? hd, hsome⟩

theorem ascending_openBuffers (l : Ledger) : l.openBuffers.Pairwise (· < ·) :=
  List.pairwise_lt_range.filter _

end Ledger

/-- The second ledger is the first one renamed. -/
structure Ledger.Renamed (ρ : Renaming) (l l' : Ledger) : Prop where
  slots : l.slots.Renamed ρ l'.slots
  demands : Moved ρ.buffer (fun _ => Option.map ρ.demand) l.demands l'.demands
  openCount_eq : l'.openCount = l.openCount
  allocations : Moved ρ.buffer (fun _ => Option.map ρ.allocation) l.allocations l'.allocations

namespace Ledger.Renamed

variable {ρ : Renaming} {l l' m : Ledger} {b : Nat}

theorem demand?_eq (h : l.Renamed ρ l') (b : Nat) :
    l'.demand? (ρ.buffer b) = (l.demand? b).map ρ.demand := by
  unfold demand?
  rw [h.demands b]
  cases l.demands[b]? <;> rfl

theorem openDemand (h : l.Renamed ρ l') (b : Nat) (x : Allocation) :
    (l.openDemand b x).Renamed ρ (l'.openDemand (ρ.buffer b) (ρ.allocation x)) where
  slots := h.slots
  demands := h.demands.set b (some ⟨1, x⟩)
  openCount_eq := congrArg (· + 1) h.openCount_eq
  allocations := h.allocations.set b (some x)

theorem addUse (h : l.Renamed ρ l') (b : Nat) (d : Demand) :
    (l.addUse b d).Renamed ρ (l'.addUse (ρ.buffer b) (ρ.demand d)) where
  slots := h.slots
  demands := h.demands.set b (some { d with uses := d.uses + 1 })
  openCount_eq := h.openCount_eq
  allocations := h.allocations

theorem closeDemand (h : l.Renamed ρ l') (b : Nat) :
    (l.closeDemand b).Renamed ρ (l'.closeDemand (ρ.buffer b)) where
  slots := h.slots
  demands := h.demands.set b none
  openCount_eq := congrArg (· - 1) h.openCount_eq
  allocations := h.allocations

theorem acquire (h : l.Renamed ρ l') (id : Nat) :
    (l'.acquire (ρ.classId id)).1 = ρ.allocation (l.acquire id).1 ∧
      (l.acquire id).2.Renamed ρ (l'.acquire (ρ.classId id)).2 := by
  obtain ⟨hslot, hslots⟩ := h.slots.acquire id
  exact ⟨hslot, hslots, h.demands, h.openCount_eq, h.allocations⟩

theorem releaseAll (h : l.Renamed ρ l') {xs : List Allocation}
    (hrelease : l.releaseAll xs = .ok m) :
    ∃ m', l'.releaseAll (xs.map ρ.allocation) = .ok m' ∧ m.Renamed ρ m' := by
  induction xs generalizing l l' with
  | nil =>
      cases hrelease
      exact ⟨l', rfl, h⟩
  | cons x xs ih =>
      obtain ⟨slots, hslots, hrest⟩ := bind_eq_ok.mp hrelease
      obtain ⟨slots', hslots', hrenamed⟩ := h.slots.release hslots
      have hnext : Renamed ρ { l with slots := slots } { l' with slots := slots' } :=
        ⟨hrenamed, h.demands, h.openCount_eq, h.allocations⟩
      obtain ⟨m', hm', hm⟩ := ih hnext hrest
      exact ⟨m', bind_eq_ok.mpr ⟨slots', hslots', hm'⟩, hm⟩

theorem mem_openBuffers_iff (h : l.Renamed ρ l') (b : Nat) :
    ρ.buffer b ∈ l'.openBuffers ↔ b ∈ l.openBuffers := by
  rw [mem_openBuffers, mem_openBuffers, h.demand?_eq, Option.isSome_map]

end Ledger.Renamed
end FrameGraph
