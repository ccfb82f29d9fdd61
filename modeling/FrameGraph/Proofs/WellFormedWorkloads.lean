import FrameGraph.Proofs.AcceptedPasses
import FrameGraph.Proofs.SlotUse
import FrameGraph.Workload
import Mathlib.Data.List.Pairwise
import Mathlib.Data.List.Sort
import Mathlib.Tactic.Tauto

/-!
# Well formed workloads

What a placement may rely on. The classes of a workload are numbered so that two
buffers have the same number exactly when they have the same storage class, and
every buffer has as many consumers as passes read it, and one more if it is
required.

`Workload.WellFormed` collects this with the facts about the passes: they stand
in declaration order, write no buffer twice and produce everything that is
required or read.
-/
namespace FrameGraph

namespace SlotAllocator

variable {a : SlotAllocator}

/-- All slots are still to be handed out. -/
structure Unused (a : SlotAllocator) : Prop where
  numbered : a.Numbered
  pools : ∀ id pool, a.pool? id = some pool → pool = SlotPool.empty

theorem unused_empty : Unused {} := ⟨⟨rfl, by simp [class?]⟩, by simp [pool?]⟩

theorem unused_intern (h : a.Unused) (c : StorageClass) : (a.intern c).Unused := by
  refine ⟨h.numbered.intern c, fun id pool hpool => ?_⟩
  rcases pool?_intern h.numbered c id with hsame | ⟨-, hnew⟩
  · exact h.pools id pool (hsame ▸ hpool)
  · exact Option.some.inj (hpool.symm.trans hnew)

theorem unused_foldl_intern (h : a.Unused) (cs : List StorageClass) :
    (cs.foldl intern a).Unused := by
  induction cs generalizing a with
  | nil => exact h
  | cons k cs ih => exact ih (unused_intern h k)

theorem mem_classes_foldl_intern (h : a.Numbered) (cs : List StorageClass) (c : StorageClass) :
    c ∈ (cs.foldl intern a).classes ↔ c ∈ a.classes ∨ c ∈ cs := by
  induction cs generalizing a with
  | nil => simp
  | cons k cs ih =>
      rw [List.foldl_cons, ih (h.intern k), h.classes_intern]
      split_ifs with hk
      · by_cases hc : c = k
        · simp [hc, hk]
        · simp [hc]
      · simp [or_assoc]

theorem Unused.valid (h : a.Unused) : a.Valid := by
  refine ⟨h.numbered, fun id pool hpool => ?_⟩
  rw [h.pools id pool hpool]
  exact SlotPool.valid_empty

theorem Unused.not_minted (h : a.Unused) (x : Allocation) : ¬a.Minted x := by
  intro hminted
  rcases hminted with ⟨pool, hpool, hlt⟩
  rw [h.pools _ pool hpool] at hlt
  exact absurd hlt (Nat.not_lt_zero _)

theorem Unused.not_live (h : a.Unused) (x : Allocation) : ¬a.Live x :=
  fun hlive => h.not_minted x hlive.minted

theorem Unused.full (h : a.Unused) (id : Nat) : a.Full id :=
  fun x _ hminted => (h.not_minted x hminted).elim

end SlotAllocator

/-- The storage class of a buffer of the table. -/
def Description.classOf? (d : Description) (resolution : Extent) (b : Nat) : Option StorageClass :=
  d.buffers[b]?.map (·.storageClass resolution)

theorem Description.classOf?_of_lt {d : Description} {b : Nat} (hb : b < d.buffers.length)
    (resolution : Extent) :
    d.classOf? resolution b = some (d.buffers[b].storageClass resolution) := by
  simp [classOf?, hb]

/-- Passes in declaration order are known from their members. -/
theorem passes_unique {ps qs : List Pass} (hps : ps.Pairwise fun p q => p.index < q.index)
    (hqs : qs.Pairwise fun p q => p.index < q.index) (h : ∀ p, p ∈ ps ↔ p ∈ qs) : ps = qs := by
  have hantisymm : Std.Antisymm fun p q : Pass => p.index < q.index :=
    ⟨fun p q hpq hqp => absurd hqp (Nat.lt_asymm hpq)⟩
  have hirrefl : Std.Irrefl fun p q : Pass => p.index < q.index := ⟨fun p => Nat.lt_irrefl p.index⟩
  exact hps.eq_of_mem_iff hqs h

theorem nodup_eraseDups (xs : List Nat) : xs.eraseDups.Nodup := by
  cases xs with
  | nil => simp
  | cons x xs =>
      rw [List.eraseDups_cons]
      exact List.nodup_cons.mpr ⟨by simp [List.mem_eraseDups], nodup_eraseDups _⟩
termination_by xs.length
decreasing_by
  have hlength := List.length_filter_le (fun y => !y == x) xs
  simp only [List.length_cons]
  omega

namespace Workload

/-- The number of buffers in the table. -/
def tableSize (w : Workload) : Nat := w.description.buffers.length

section
variable (d : Description) (config : Config) (required : List Nat) (passes : List Pass)

@[simp] theorem description_ofPasses : (ofPasses d config required passes).description = d := rfl

@[simp] theorem tableSize_ofPasses :
    (ofPasses d config required passes).tableSize = d.buffers.length := rfl

@[simp] theorem passes_ofPasses : (ofPasses d config required passes).passes = passes := rfl

@[simp] theorem mem_required_ofPasses {b : Nat} :
    b ∈ (ofPasses d config required passes).required ↔ b ∈ required := List.mem_eraseDups

theorem consumersOf_ofPasses {b : Nat} (hb : b < d.buffers.length) :
    (ofPasses d config required passes).consumersOf b =
      countConsumers required.eraseDups passes b := by
  simp [consumersOf, ofPasses, hb]

variable {d config required passes}

theorem mem_meetingOrder {b : Nat} :
    b ∈ meetingOrder required passes ↔
      b ∈ required ∨ ∃ p ∈ passes, b ∈ p.writes ∨ b ∈ p.reads := by
  simp [meetingOrder]

/-- The classes that a workload has met. -/
theorem mem_classes_ofPasses {c : StorageClass} :
    c ∈ (ofPasses d config required passes).slots.classes ↔
      ∃ b ∈ meetingOrder required passes, d.classOf? config.resolution b = some c := by
  have hstorage : ∀ b : Nat, (d.buffers.map (·.storageClass config.resolution))[b]? =
      d.classOf? config.resolution b := by
    intro b
    simp [Description.classOf?]
  simp only [ofPasses, SlotAllocator.mem_classes_foldl_intern SlotAllocator.unused_empty.numbered,
    List.mem_filterMap, hstorage, mem_meetingOrder, List.mem_eraseDups, List.not_mem_nil, false_or]

theorem unused_ofPasses : (ofPasses d config required passes).slots.Unused :=
  SlotAllocator.unused_foldl_intern SlotAllocator.unused_empty _

theorem nodup_classes_ofPasses : (ofPasses d config required passes).slots.classes.Nodup :=
  unused_ofPasses.numbered.nodup_classes

theorem classId_ofPasses {b : Nat} {c : StorageClass}
    (hb : d.classOf? config.resolution b = some c) :
    (ofPasses d config required passes).classId b =
      (ofPasses d config required passes).slots.classes.idxOf c := by
  obtain ⟨x, hx, rfl⟩ := Option.map_eq_some_iff.mp hb
  rw [← unused_ofPasses.numbered.idOf_eq_idxOf]
  simp [classId, ofPasses, List.getD, hx]

theorem classId_lt_ofPasses {b : Nat} (hlt : b < d.buffers.length)
    (hb : b ∈ meetingOrder required passes) :
    (ofPasses d config required passes).classId b <
      (ofPasses d config required passes).slots.classes.length := by
  have hc := Description.classOf?_of_lt hlt config.resolution
  rw [classId_ofPasses hc]
  exact List.idxOf_lt_length_of_mem (mem_classes_ofPasses.mpr ⟨b, hb, hc⟩)

/-- At the number of a buffer's class stands that class. -/
theorem getElem?_classes_ofPasses {b : Nat} (hlt : b < d.buffers.length)
    (hb : b ∈ meetingOrder required passes) :
    (ofPasses d config required passes).slots.classes[
        (ofPasses d config required passes).classId b]? = d.classOf? config.resolution b := by
  have hc := Description.classOf?_of_lt hlt config.resolution
  rw [classId_ofPasses hc, hc]
  exact List.getElem?_idxOf (mem_classes_ofPasses.mpr ⟨b, hb, hc⟩)

/-- Buffers have the same class number exactly when they have the same class. -/
theorem classId_eq_iff {b c : Nat} (hltb : b < d.buffers.length) (hltc : c < d.buffers.length)
    (hb : b ∈ meetingOrder required passes) :
    (ofPasses d config required passes).classId b = (ofPasses d config required passes).classId c ↔
      d.classOf? config.resolution b = d.classOf? config.resolution c := by
  have hcb := Description.classOf?_of_lt hltb config.resolution
  have hcc := Description.classOf?_of_lt hltc config.resolution
  rw [classId_ofPasses hcb, classId_ofPasses hcc, hcb, hcc, Option.some.injEq]
  exact List.idxOf_inj (mem_classes_ofPasses.mpr ⟨b, hb, hcb⟩)

end

theorem checkSharing_eq_ok {w : Workload} {p : Pass} :
    w.checkSharing p = .ok () ↔
      ∀ e ∈ p.sharing, w.classId e.1.buffer = w.classId e.2.buffer := by
  unfold checkSharing
  split
  · rename_i i o hf
    have hs := List.find?_some hf
    simp only [reduceCtorEq, false_iff]
    intro h
    simp [h _ (List.mem_of_find?_eq_some hf)] at hs
  · rename_i hf
    simpa using hf

theorem checkBindings_eq_ok {w : Workload} {ps : List Pass} :
    w.checkBindings ps = .ok () ↔
      ∀ p ∈ ps, ∀ e ∈ p.sharing, w.classId e.1.buffer = w.classId e.2.buffer := by
  induction ps with
  | nil => simp [checkBindings]
  | cons p ps ih =>
      rw [checkBindings, bind_eq_ok, List.forall_mem_cons, ← checkSharing_eq_ok, ← ih]
      constructor
      · intro hpair
        rcases hpair with ⟨⟨⟩, h⟩
        exact h
      · exact fun h => ⟨(), h⟩

/-- A failed check of the bindings names a malformed operation. -/
theorem checkBindings_error {w : Workload} {ps : List Pass} {e : GraphError}
    (h : w.checkBindings ps = .error e) :
    ∃ operation input output, e = .malformed operation (.mismatchedBinding input output) := by
  induction ps with
  | nil => cases h
  | cons p ps ih =>
      rw [checkBindings, bind_eq_error] at h
      rcases h with h | ⟨_, -, h⟩
      · unfold checkSharing at h
        split at h
        · cases h
          exact ⟨_, _, _, rfl⟩
        · cases h
      · exact ih h

/-- What the placement of a workload relies on. -/
structure WellFormed (w : Workload) : Prop where
  valid : ∀ p ∈ w.passes, p.Valid w.tableSize
  ordered : w.passes.Pairwise fun p q => p.index < q.index
  separate : ∀ p ∈ w.passes, ∀ q ∈ w.passes, ∀ b, b ∈ p.writes → b ∈ q.writes → p = q
  required_lt : ∀ b ∈ w.required, b < w.tableSize
  required_nodup : w.required.Nodup
  produced : ∀ b, (b ∈ w.required ∨ ∃ p ∈ w.passes, b ∈ p.reads) → ∃ p ∈ w.passes, b ∈ p.writes
  consumers : ∀ b < w.tableSize, w.consumersOf b = countConsumers w.required w.passes b
  class_lt : ∀ b, (b ∈ w.required ∨ ∃ p ∈ w.passes, b ∈ p.reads) →
    w.classId b < w.slots.classes.length
  shared : ∀ p ∈ w.passes, ∀ e ∈ p.sharing, w.classId e.1.buffer = w.classId e.2.buffer
  classes_nodup : w.slots.classes.Nodup
  unused : w.slots.Unused

namespace WellFormed

variable {w : Workload}

theorem passes_nodup (hw : w.WellFormed) : w.passes.Nodup :=
  hw.ordered.imp fun hlt heq => by simp [heq] at hlt

theorem index_injective (hw : w.WellFormed) {p q : Pass} (hp : p ∈ w.passes) (hq : q ∈ w.passes)
    (hpq : p.index = q.index) : p = q := by
  by_contra hne
  have hsymm : Std.Symm fun p q : Pass => p.index ≠ q.index := ⟨fun _ _ h => h.symm⟩
  have hdistinct : w.passes.Pairwise fun p q => p.index ≠ q.index :=
    hw.ordered.imp fun hlt => Nat.ne_of_lt hlt
  exact hdistinct.forall hp hq hne hpq

end WellFormed
end Workload
end FrameGraph
