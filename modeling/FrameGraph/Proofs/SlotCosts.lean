import FrameGraph.Proofs.LedgerBalance
import Mathlib.Algebra.BigOperators.Fin

/-!
# What slots cost

A slot costs as much as one resource of its class. The slots ever handed out are
the storage that a frame needs; those in use are a part of it. Both are priced
here by a sum over the classes.

`SlotAllocator.Turnover` counts, class by class, what handing out some slots and
taking back others makes of an allocator. A class gets a new slot for every one
asked for beyond the free ones. The change of the two sums follows.
-/
namespace FrameGraph

namespace SlotPool

theorem free_acquire (pool : SlotPool) : pool.acquire.2.freeCount = pool.freeCount - 1 := by
  cases hf : pool.free with
  | nil => simp [acquire_of_full hf, freeCount, hf]
  | cons top rest => simp [acquire_of_free hf, freeCount, hf]

theorem peak_acquire (pool : SlotPool) :
    pool.acquire.2.peak = pool.peak + (1 - pool.freeCount) := by
  cases hf : pool.free with
  | nil => simp [acquire_of_full hf, freeCount, peak, minted, hf]
  | cons top rest => simp [acquire_of_free hf, freeCount, peak, minted, hf]

/-- A slot handed out before is in use or free. -/
theorem Valid.peak_eq {pool : SlotPool} (h : pool.Valid) :
    pool.peak = pool.liveCount + pool.freeCount := by
  have hsubset : pool.free ⊆ List.range pool.minted := fun _ hs => List.mem_range.mpr (h.lt hs)
  have hle := (List.subperm_of_subset h.nodup hsubset).length_le
  rw [List.length_range] at hle
  simp only [peak, liveCount, freeCount]
  omega

end SlotPool

namespace SlotAllocator

variable {a a' : SlotAllocator} {id : Nat}

/-- The cost of one slot of a class. -/
def unitCost (a : SlotAllocator) (id : Nat) : Nat := ((a.class? id).map (·.cost)).getD 0

/-- The cost of all slots handed out so far, in use or not. -/
def capacityCost (a : SlotAllocator) : Nat :=
  (a.pools.map fun (c, pool) => pool.peak * c.cost).sum

/-- The cost of the slots in use. -/
def liveCost (a : SlotAllocator) : Nat :=
  (a.pools.map fun (c, pool) => pool.liveCount * c.cost).sum

theorem unitCost_congr (h : a'.classes = a.classes) (id : Nat) :
    a'.unitCost id = a.unitCost id := by
  simp only [unitCost, class?, h]

theorem unitCost_eq_zero (h : a.classes.length ≤ id) : a.unitCost id = 0 := by
  simp [unitCost, class?, h]

/-- A sum over the pools, class by class. -/
theorem Numbered.sum_pools (h : a.Numbered) (count : SlotPool → Nat) :
    (a.pools.map fun (c, pool) => count pool * c.cost).sum =
      ∑ id ∈ Finset.range a.classes.length,
        ((a.pool? id).map count).getD 0 * a.unitCost id := by
  have hlength : a.pools.length = a.classes.length := by simp [pools, h.length_slotPools]
  rw [← Fin.sum_univ_fun_getElem, ← hlength, Finset.sum_range]
  refine Finset.sum_congr rfl fun i _ => ?_
  have hclass : i.val < a.classes.length := hlength ▸ i.isLt
  have hpool : i.val < a.slotPools.length := h.length_slotPools ▸ hclass
  simp [pools, pool?, unitCost, class?, hclass, hpool]

theorem Numbered.capacityCost_eq (h : a.Numbered) :
    a.capacityCost = ∑ id ∈ Finset.range a.classes.length, a.peak id * a.unitCost id :=
  h.sum_pools SlotPool.peak

theorem Numbered.liveCost_eq (h : a.Numbered) :
    a.liveCost = ∑ id ∈ Finset.range a.classes.length, a.liveCount id * a.unitCost id :=
  h.sum_pools SlotPool.liveCount

/-- A sum of unit costs, class by class. -/
theorem sum_unitCost (a : SlotAllocator) (ids : List Nat) :
    (ids.map a.unitCost).sum =
      ∑ id ∈ Finset.range a.classes.length, ids.count id * a.unitCost id := by
  induction ids with
  | nil => simp
  | cons id ids ih =>
      have hone : a.unitCost id = ∑ k ∈ Finset.range a.classes.length,
          (if id = k then 1 else 0) * a.unitCost k := by
        simp only [ite_mul, one_mul, zero_mul, Finset.sum_ite_eq, Finset.mem_range]
        split_ifs with hid
        · rfl
        · exact unitCost_eq_zero (Nat.le_of_not_lt hid)
      rw [List.map_cons, List.sum_cons, ih, hone, ← Finset.sum_add_distrib]
      refine Finset.sum_congr rfl fun k _ => ?_
      simp only [List.count_cons, beq_iff_eq, ← Nat.add_mul, Nat.add_comm]

theorem Valid.peak_eq (h : a.Valid) (id : Nat) : a.peak id = a.liveCount id + a.freeCount id := by
  cases hpool : a.pool? id with
  | none => simp [peak, liveCount, freeCount, hpool]
  | some pool => simpa [peak, liveCount, freeCount, hpool] using (h.pools id pool hpool).peak_eq

/-- Hand out a slot for each of the listed classes. -/
def acquireAll (a : SlotAllocator) (ids : List Nat) : SlotAllocator :=
  ids.foldl (fun a id => (a.acquire id).2) a

theorem acquireAll_append (a : SlotAllocator) (ids ids' : List Nat) :
    a.acquireAll (ids ++ ids') = (a.acquireAll ids).acquireAll ids' := List.foldl_append

theorem Numbered.acquire_of_lt (h : a.Numbered) (hid : id < a.classes.length) :
    ∃ pool, a.pool? id = some pool ∧ (a.acquire id).2 = a.setPool id pool.acquire.2 := by
  obtain ⟨pool, hpool⟩ := h.pool?_isSome.mpr hid
  exact ⟨pool, hpool, by simp only [acquire, hpool]⟩

theorem Numbered.freeCount_acquire (h : a.Numbered) (hid : id < a.classes.length) (k : Nat) :
    (a.acquire id).2.freeCount k = a.freeCount k - if id = k then 1 else 0 := by
  obtain ⟨pool, hpool, hacquire⟩ := h.acquire_of_lt hid
  rw [hacquire, freeCount, pool?_setPool]
  by_cases hk : k = id
  · subst hk
    simp [hpool, freeCount, pool.free_acquire]
  · simp [freeCount, hk, Ne.symm hk]

theorem Numbered.peak_acquire (h : a.Numbered) (hid : id < a.classes.length) (k : Nat) :
    (a.acquire id).2.peak k = a.peak k + ((if id = k then 1 else 0) - a.freeCount k) := by
  obtain ⟨pool, hpool, hacquire⟩ := h.acquire_of_lt hid
  rw [hacquire, peak, pool?_setPool]
  by_cases hk : k = id
  · subst hk
    simp [hpool, peak, freeCount, pool.peak_acquire]
  · simp [peak, hk, Ne.symm hk]

@[simp] theorem classes_acquire (a : SlotAllocator) (id : Nat) :
    (a.acquire id).2.classes = a.classes := by
  unfold acquire
  split <;> rfl

theorem Numbered.acquire (h : a.Numbered) (id : Nat) : (a.acquire id).2.Numbered := by
  unfold SlotAllocator.acquire
  split
  · exact h.setPool _
  · exact h

/-- What handing out the classes in `taken` and taking back those in `given`
makes of an allocator. -/
structure Turnover (a a' : SlotAllocator) (taken given : List Nat) : Prop where
  classes : a'.classes = a.classes
  peak : ∀ id, a'.peak id = a.peak id + (taken.count id - a.freeCount id)
  free : ∀ id, a'.freeCount id = a.freeCount id - taken.count id + given.count id

theorem Numbered.turnover_acquireAll (h : a.Numbered) {ids : List Nat}
    (hids : ∀ id ∈ ids, id < a.classes.length) :
    a.Turnover (a.acquireAll ids) ids [] := by
  induction ids generalizing a with
  | nil => exact ⟨rfl, by simp [acquireAll], by simp [acquireAll]⟩
  | cons id ids ih =>
      obtain ⟨hid, hids⟩ := List.forall_mem_cons.mp hids
      have hrest := ih (h.acquire id) (by rwa [classes_acquire])
      refine ⟨hrest.classes.trans (classes_acquire ..), ?_, ?_⟩
      · intro k
        refine (hrest.peak k).trans ?_
        rw [h.peak_acquire hid, h.freeCount_acquire hid, List.count_cons]
        simp only [beq_iff_eq]
        omega
      · intro k
        refine (hrest.free k).trans ?_
        rw [h.freeCount_acquire hid, List.count_cons]
        simp only [beq_iff_eq]
        omega

theorem turnover_release {x : Allocation} (h : a.release x = .ok a') :
    a.Turnover a' [] [x.classId] := by
  obtain ⟨pool, hpool, hlive, rfl⟩ := release_eq_ok.mp h
  rw [SlotPool.release_of_live hlive]
  refine ⟨classes_setPool .., ?_, ?_⟩
  · intro k
    rw [peak, pool?_setPool]
    by_cases hk : k = x.classId
    · subst hk
      simp [peak, hpool, SlotPool.peak, SlotPool.minted]
    · simp [peak, hk]
  · intro k
    rw [freeCount, pool?_setPool]
    by_cases hk : k = x.classId
    · subst hk
      simp [freeCount, hpool, SlotPool.freeCount]
    · simp [freeCount, hk, Ne.symm hk]

namespace Turnover

variable {b : SlotAllocator} {taken given : List Nat}

/-- Nothing is taken after the first slot has been given back. -/
theorem trans {given' : List Nat} (h : a.Turnover b taken given) (h' : b.Turnover a' [] given') :
    a.Turnover a' taken (given ++ given') where
  classes := h'.classes.trans h.classes
  peak id := by simp [h'.peak, h.peak]
  free id := by
    rw [h'.free, h.free, List.count_append]
    simp only [List.count_nil]
    omega

theorem live (h : a.Turnover a' taken given) (ha : a.Valid) (ha' : a'.Valid) (id : Nat) :
    a'.liveCount id + given.count id = a.liveCount id + taken.count id := by
  have hbefore := ha.peak_eq id
  have hafter := ha'.peak_eq id
  rw [h.peak, h.free] at hafter
  omega

/-- The storage needed grows by the slots asked for beyond the free ones. -/
theorem capacityCost_eq (h : a.Turnover a' taken given) (ha : a.Numbered) (ha' : a'.Numbered)
    (htaken : ∀ id ∈ taken, id < a.classes.length) :
    a'.capacityCost = a.capacityCost +
      (taken.eraseDups.map fun id => a.unitCost id * (taken.count id - a.freeCount id)).sum := by
  have hgrowth :
      (taken.eraseDups.map fun id => a.unitCost id * (taken.count id - a.freeCount id)).sum =
      ∑ id ∈ Finset.range a.classes.length, a.unitCost id * (taken.count id - a.freeCount id) := by
    rw [← List.sum_toFinset _ (nodup_eraseDups taken)]
    refine Finset.sum_subset ?_ ?_
    · intro id hid
      exact Finset.mem_range.mpr (htaken id (by simpa using hid))
    · intro id _ hid
      have hcount : taken.count id = 0 := List.count_eq_zero.mpr (by simpa using hid)
      simp [hcount]
  rw [ha'.capacityCost_eq, ha.capacityCost_eq, hgrowth, h.classes, ← Finset.sum_add_distrib]
  refine Finset.sum_congr rfl fun id _ => ?_
  rw [h.peak, unitCost_congr h.classes, Nat.add_mul, Nat.mul_comm (a.unitCost id)]

/-- The storage in use grows by the slots taken and shrinks by those given back. -/
theorem liveCost_eq (h : a.Turnover a' taken given) (ha : a.Valid) (ha' : a'.Valid) :
    a'.liveCost + (given.map a.unitCost).sum = a.liveCost + (taken.map a.unitCost).sum := by
  rw [ha'.numbered.liveCost_eq, ha.numbered.liveCost_eq, sum_unitCost, sum_unitCost, h.classes,
    ← Finset.sum_add_distrib, ← Finset.sum_add_distrib]
  refine Finset.sum_congr rfl fun id _ => ?_
  rw [unitCost_congr h.classes, ← Nat.add_mul, ← Nat.add_mul, h.live ha ha']

end Turnover
end SlotAllocator

namespace Ledger

theorem turnover_releaseAll {l l' : Ledger} {xs : List Allocation} (h : l.releaseAll xs = .ok l') :
    l.slots.Turnover l'.slots [] (xs.map (·.classId)) := by
  induction xs generalizing l with
  | nil =>
      cases h
      exact ⟨rfl, by simp, by simp⟩
  | cons x xs ih =>
      obtain ⟨slots, hrelease, h⟩ := bind_eq_ok.mp h
      exact (SlotAllocator.turnover_release hrelease).trans (ih h)

end Ledger
end FrameGraph
