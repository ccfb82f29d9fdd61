import FrameGraph.Proofs.SlotCosts
import Mathlib.Data.Finset.Card
import Mathlib.Data.Finset.Lattice.Fold
import Mathlib.Order.Lattice.Nat

/-!
# Histories of an allocator

An allocator is asked to meet classes, to hand out slots and to take slots back,
in any order and also where nothing can be taken back. The record of the answers
alone says which slots are outstanding: those handed out and not taken back
since. `SlotHistory.Safe` compares the allocator with that record.

One step keeps `SlotHistory.Sound`: the allocator is valid, its slots in use are
the outstanding ones, the classes are numbered as they were met, and the peak of a
class is the most slots of it that were ever outstanding. Everything else follows
from it. A release that is refused goes on with what the allocator has become by
refusing; that this is the allocator as it was is proved of every valid one.
-/
namespace FrameGraph

inductive SlotRequest where
  | meet (c : StorageClass)
  | acquire (id : Nat)
  | release (x : Allocation)
deriving DecidableEq, Repr

inductive SlotAnswer where
  | met (c : StorageClass) (id : Nat)
  | acquired (x : Allocation)
  | released (x : Allocation)
  | refused (x : Allocation)
deriving DecidableEq, Repr

def SlotAnswer.ofRelease (x : Allocation) : Except GraphError Unit → SlotAnswer
  | .ok () => .released x
  | .error _ => .refused x

/-- An allocator in use, with the answers that it has given, in their order. -/
structure SlotHistory where
  slots : SlotAllocator := {}
  answers : List SlotAnswer := []

namespace SlotHistory

def step (h : SlotHistory) : SlotRequest → SlotHistory
  | .meet c => ⟨(h.slots.meet c).2, h.answers ++ [.met c (h.slots.meet c).1]⟩
  | .acquire id => ⟨(h.slots.acquire id).2, h.answers ++ [.acquired (h.slots.acquire id).1]⟩
  | .release x =>
      ⟨(h.slots.giveBack x).2, h.answers ++ [SlotAnswer.ofRelease x (h.slots.giveBack x).1]⟩

/-- Slots are asked for only of classes that have been met. -/
def Admits (h : SlotHistory) : SlotRequest → Prop
  | .acquire id => id < h.slots.classes.length
  | _ => True

instance (h : SlotHistory) (request : SlotRequest) : Decidable (h.Admits request) :=
  match request with
  | .meet _ => .isTrue trivial
  | .acquire id => inferInstanceAs (Decidable (id < h.slots.classes.length))
  | .release _ => .isTrue trivial

/-- Every request of a sequence is admitted when it is made. -/
def AdmitsAll (h : SlotHistory) : List SlotRequest → Prop
  | [] => True
  | request :: rest => h.Admits request ∧ (h.step request).AdmitsAll rest

instance decidableAdmitsAll (h : SlotHistory) : (requests : List SlotRequest) →
    Decidable (h.AdmitsAll requests)
  | [] => .isTrue trivial
  | request :: rest =>
      have := decidableAdmitsAll (h.step request) rest
      inferInstanceAs (Decidable (_ ∧ _))

/-- A new allocator after a sequence of requests. -/
def run (requests : List SlotRequest) : SlotHistory := requests.foldl step {}

end SlotHistory

/-- The outstanding slots before and after an answer. -/
def SlotAnswer.settle (held : Finset Allocation) : SlotAnswer → Finset Allocation
  | .acquired x => insert x held
  | .released x => held.erase x
  | _ => held

/-- The slots handed out and not taken back since. -/
def outstanding (answers : List SlotAnswer) : Finset Allocation := answers.foldl SlotAnswer.settle ∅

def outstandingOf (answers : List SlotAnswer) (id : Nat) : Finset Allocation :=
  (outstanding answers).filter (·.classId = id)

theorem outstanding_append_singleton (answers : List SlotAnswer) (answer : SlotAnswer) :
    outstanding (answers ++ [answer]) = answer.settle (outstanding answers) := by
  simp [outstanding]

/-- The slot was acquired and has not been released since. -/
def HeldSince (answers : List SlotAnswer) (x : Allocation) : Prop :=
  ∃ before after, answers = before ++ .acquired x :: after ∧ .released x ∉ after

theorem heldSince_append_singleton {answers : List SlotAnswer} {answer : SlotAnswer}
    {x : Allocation} : HeldSince (answers ++ [answer]) x ↔
      answer = .acquired x ∨ HeldSince answers x ∧ answer ≠ .released x := by
  constructor
  · rintro ⟨before, after, hsplit, hafter⟩
    rcases List.eq_nil_or_concat after with rfl | ⟨earlier, last, rfl⟩
    · exact .inl (List.cons.inj (List.append_inj' hsplit rfl).2).1
    · rw [List.concat_eq_append, ← List.cons_append, ← List.append_assoc] at hsplit
      obtain ⟨rfl, hlast⟩ := List.append_inj' hsplit rfl
      cases hlast
      rw [List.concat_eq_append, List.mem_append, List.mem_singleton, not_or] at hafter
      exact .inr ⟨⟨before, earlier, rfl, hafter.1⟩, Ne.symm hafter.2⟩
  · rintro (rfl | ⟨⟨before, after, rfl, hafter⟩, hanswer⟩)
    · exact ⟨answers, [], rfl, List.not_mem_nil⟩
    · refine ⟨before, after ++ [answer], by simp, ?_⟩
      rw [List.mem_append, List.mem_singleton, not_or]
      exact ⟨hafter, Ne.symm hanswer⟩

theorem mem_outstanding {answers : List SlotAnswer} {x : Allocation} :
    x ∈ outstanding answers ↔ HeldSince answers x := by
  induction answers using List.reverseRecOn with
  | nil => simp [outstanding, HeldSince]
  | append_singleton answers answer ih =>
      rw [outstanding_append_singleton, heldSince_append_singleton, ← ih]
      cases answer with
      | met c id => simp [SlotAnswer.settle]
      | acquired y => simp [SlotAnswer.settle, eq_comm]
      | released y => simp [SlotAnswer.settle, and_comm, eq_comm]
      | refused y => simp [SlotAnswer.settle]

namespace SlotPool

theorem Valid.card_live {pool : SlotPool} (h : pool.Valid) :
    ((Finset.range pool.minted).filter pool.Live).card = pool.liveCount := by
  have hsubset : pool.free.toFinset ⊆ Finset.range pool.minted := by
    intro slot hslot
    exact Finset.mem_range.mpr (h.lt (List.mem_toFinset.mp hslot))
  have hrest : (Finset.range pool.minted).filter pool.Live =
      Finset.range pool.minted \ pool.free.toFinset := by
    ext slot
    simp only [Finset.mem_filter, Finset.mem_range, Finset.mem_sdiff, List.mem_toFinset, h.live_iff]
    tauto
  rw [hrest, Finset.card_sdiff_of_subset hsubset, Finset.card_range,
    List.toFinset_card_of_nodup h.nodup, liveCount]

end SlotPool

namespace SlotAllocator

variable {a : SlotAllocator} {held : Finset Allocation}

theorem live_iff_of_pool? {id : Nat} {pool : SlotPool} (hpool : a.pool? id = some pool)
    (slot : Nat) : a.Live ⟨id, slot⟩ ↔ pool.Live slot := by
  simp [Live, hpool]

theorem Valid.card_live (h : a.Valid) (hheld : ∀ x, a.Live x ↔ x ∈ held) (id : Nat) :
    (held.filter (·.classId = id)).card = a.liveCount id := by
  cases hpool : a.pool? id with
  | none =>
      have hempty : held.filter (·.classId = id) = ∅ := by
        ext x
        simp only [Finset.mem_filter, ← hheld, Finset.notMem_empty, iff_false, not_and]
        rintro ⟨pool, hx, -⟩ rfl
        cases hpool.symm.trans hx
      simp [hempty, liveCount, hpool]
  | some pool =>
      have himage : held.filter (·.classId = id) =
          ((Finset.range pool.minted).filter pool.Live).image (Allocation.mk id) := by
        ext x
        obtain ⟨classId, slot⟩ := x
        simp only [Finset.mem_filter, ← hheld, Finset.mem_image, Finset.mem_range,
          Allocation.mk.injEq]
        constructor
        · rintro ⟨hlive, rfl⟩
          rw [live_iff_of_pool? hpool] at hlive
          exact ⟨slot, ⟨hlive.lt, hlive⟩, rfl, rfl⟩
        · rintro ⟨slot', ⟨-, hlive⟩, rfl, rfl⟩
          exact ⟨(live_iff_of_pool? hpool slot').mpr hlive, rfl⟩
      have hinjective : Function.Injective (Allocation.mk id) := by
        intro slot slot' heq
        exact (Allocation.mk.inj heq).2
      rw [himage, Finset.card_image_of_injective _ hinjective, (h.pools id pool hpool).card_live]
      simp [liveCount, hpool]

/-- A new slot is handed out just if no slot of the class is free. -/
theorem peak_lt_acquire_iff {id : Nat} (ha : a.Valid) (hid : id < a.classes.length) :
    a.peak id < (a.acquire id).2.peak id ↔ ∀ slot < a.peak id, a.Live ⟨id, slot⟩ := by
  obtain ⟨pool, hpool⟩ := ha.numbered.pool?_isSome.mpr hid
  have hpeak : a.peak id = pool.minted := by simp [peak, hpool, SlotPool.peak]
  have hfree : a.freeCount id = pool.free.length := by
    simp [freeCount, hpool, SlotPool.freeCount]
  have hvalid := ha.pools id pool hpool
  rw [ha.numbered.peak_acquire hid, if_pos rfl, hpeak, hfree]
  simp only [live_iff_of_pool? hpool, hvalid.live_iff]
  constructor
  · intro hlt slot hslot
    have hnil : pool.free = [] := List.length_eq_zero_iff.mp (by omega)
    exact ⟨hslot, by simp [hnil]⟩
  · intro hall
    have hnil : pool.free = [] :=
      List.eq_nil_iff_forall_not_mem.mpr fun slot hslot => (hall slot (hvalid.lt hslot)).2 hslot
    simp [hnil]

theorem pool?_intern_of_lt (h : a.Numbered) {id : Nat} (hid : id < a.classes.length)
    (c : StorageClass) : (a.intern c).pool? id = a.pool? id := by
  obtain ⟨pool, hpool⟩ := h.pool?_isSome.mpr hid
  rcases pool?_intern h c id with hsame | ⟨hnone, -⟩
  · exact hsame
  · cases hpool.symm.trans hnone

theorem live_intern (h : a.Numbered) (c : StorageClass) (x : Allocation) :
    (a.intern c).Live x ↔ a.Live x := by
  unfold Live
  rcases pool?_intern h c x.classId with hsame | ⟨hnone, hnew⟩
  · rw [hsame]
  · simp [hnone, hnew, SlotPool.Live, SlotPool.empty]

theorem peak_intern (h : a.Numbered) (c : StorageClass) (id : Nat) :
    (a.intern c).peak id = a.peak id := by
  unfold peak
  rcases pool?_intern h c id with hsame | ⟨hnone, hnew⟩
  · rw [hsame]
  · simp [hnone, hnew, SlotPool.empty, SlotPool.peak, SlotPool.minted]

/-- A class is numbered when it is met for the first time. -/
theorem class?_intern (h : a.Numbered) {c c' : StorageClass} {id : Nat} :
    (a.intern c).class? id = some c' ↔ a.class? id = some c' ∨ c' = c ∧ id = (a.meet c).1 := by
  by_cases hc : c ∈ a.classes
  · obtain ⟨first, hfirst⟩ := List.mem_iff_getElem?.mp hc
    rw [h.intern_of_mem hc, h.meet_of_class? hfirst]
    constructor
    · exact .inl
    · rintro (hid | ⟨rfl, rfl⟩)
      · exact hid
      · exact hfirst
  · rw [h.intern_of_not_mem hc, h.meet_of_not_mem hc, class?, class?, getElem?_append_singleton]
    split_ifs with hid
    · simp [hid, eq_comm]
    · simp [hid]

/-- Asked for one slot, or given some back, a class has the greater of its peak so
far and its slots in use as its peak. -/
theorem Turnover.peak_eq_max {a' : SlotAllocator} {taken given : List Nat}
    (h : a.Turnover a' taken given) (htaken : taken.length ≤ 1) (ha : a.Valid) (ha' : a'.Valid)
    (hgiven : taken = [] ∨ given = []) (id : Nat) :
    a'.peak id = max (a.peak id) (a'.liveCount id) := by
  have hcount : taken.count id ≤ 1 := List.count_le_length.trans htaken
  have hpeak := h.peak id
  have hfree := h.free id
  have hbefore := ha.peak_eq id
  have hafter := ha'.peak_eq id
  rcases hgiven with rfl | rfl
  · simp only [List.count_nil] at hpeak hfree
    omega
  · simp only [List.count_nil] at hfree
    omega

end SlotAllocator

namespace SlotHistory

variable {h : SlotHistory}

/-- What every request leaves in order. -/
structure Sound (h : SlotHistory) : Prop where
  valid : h.slots.Valid
  live : ∀ x, h.slots.Live x ↔ x ∈ outstanding h.answers
  numbered : ∀ c id, .met c id ∈ h.answers ↔ h.slots.class? id = some c
  peak : ∀ id, h.slots.peak id = (Finset.range (h.answers.length + 1)).sup fun k =>
    (outstandingOf (h.answers.take k) id).card

theorem sound_start : Sound {} where
  valid := SlotAllocator.unused_empty.valid
  live := by simp [SlotAllocator.Live, SlotAllocator.pool?, outstanding]
  numbered := by simp [SlotAllocator.class?]
  peak := by simp [SlotAllocator.peak, SlotAllocator.pool?, outstandingOf, outstanding]

/-- The most slots that were outstanding at one time, with one more answer. -/
theorem sup_append_singleton (answers : List SlotAnswer) (answer : SlotAnswer) (id : Nat) :
    ((Finset.range ((answers ++ [answer]).length + 1)).sup fun k =>
        (outstandingOf ((answers ++ [answer]).take k) id).card) =
      max ((Finset.range (answers.length + 1)).sup fun k =>
          (outstandingOf (answers.take k) id).card)
        (outstandingOf (answers ++ [answer]) id).card := by
  rw [Finset.range_add_one, Finset.sup_insert, List.take_length, List.length_append,
    List.length_singleton, max_comm]
  congr 1
  refine Finset.sup_congr rfl fun k hk => ?_
  rw [List.take_append_of_le_length (Nat.le_of_lt_succ (Finset.mem_range.mp hk))]

/-- An answer keeps the history sound if the slots in use change with those
outstanding and the peak follows. -/
theorem Sound.answer (hs : h.Sound) {slots : SlotAllocator} {answer : SlotAnswer}
    (hvalid : slots.Valid)
    (hlive : ∀ x, slots.Live x ↔ x ∈ answer.settle (outstanding h.answers))
    (hnumbered : ∀ c id, .met c id ∈ h.answers ++ [answer] ↔ slots.class? id = some c)
    (hpeak : ∀ id, slots.peak id = max (h.slots.peak id) (slots.liveCount id)) :
    Sound ⟨slots, h.answers ++ [answer]⟩ := by
  rw [← outstanding_append_singleton] at hlive
  refine ⟨hvalid, hlive, hnumbered, fun id => ?_⟩
  rw [sup_append_singleton, hpeak, hs.peak, outstandingOf, hvalid.card_live hlive]

theorem Sound.step (hs : h.Sound) {request : SlotRequest} (hadmits : h.Admits request) :
    (h.step request).Sound := by
  cases request with
  | meet c =>
      have hvalid := hs.valid.intern c
      have hstep : h.step (.meet c) =
          ⟨h.slots.intern c, h.answers ++ [.met c (h.slots.meet c).1]⟩ := rfl
      rw [hstep]
      refine hs.answer hvalid ?_ ?_ ?_
      · intro x
        rw [SlotAllocator.live_intern hs.valid.numbered, hs.live]
        rfl
      · intro c' id
        rw [SlotAllocator.class?_intern hs.valid.numbered, ← hs.numbered]
        simp
      · intro id
        have hpeak := hvalid.peak_eq id
        rw [SlotAllocator.peak_intern hs.valid.numbered] at hpeak ⊢
        omega
  | acquire id =>
      obtain ⟨-, hvalid, hclasses, -, hlive, -⟩ := SlotAllocator.acquire_spec hs.valid hadmits
      have hturnover : h.slots.Turnover (h.slots.acquire id).2 [id] [] :=
        hs.valid.numbered.turnover_acquireAll (List.forall_mem_singleton.mpr hadmits)
      refine hs.answer hvalid ?_ ?_ ?_
      · intro x
        rw [hlive, hs.live, SlotAnswer.settle, Finset.mem_insert, or_comm]
      · intro c k
        rw [SlotAllocator.class?, hclasses, ← SlotAllocator.class?, ← hs.numbered]
        simp
      · exact hturnover.peak_eq_max (Nat.le_refl 1) hs.valid hvalid (.inr rfl)
  | release x =>
      by_cases hx : h.slots.Live x
      · obtain ⟨slots, hrelease, hvalid, hclasses, hlive, -⟩ :=
          SlotAllocator.release_spec hs.valid hx
        have hturnover := SlotAllocator.turnover_release hrelease
        have hstep : h.step (.release x) = ⟨slots, h.answers ++ [.released x]⟩ := by
          rw [SlotHistory.step, SlotAllocator.giveBack_eq_ok.mpr hrelease, SlotAnswer.ofRelease]
        rw [hstep]
        refine hs.answer hvalid ?_ ?_ ?_
        · intro y
          rw [hlive, hs.live, SlotAnswer.settle, Finset.mem_erase, and_comm]
        · simp [SlotAllocator.class?, hclasses, hs.numbered]
        · exact hturnover.peak_eq_max (Nat.zero_le 1) hs.valid hvalid (.inl rfl)
      · have hstep : h.step (.release x) = ⟨h.slots, h.answers ++ [.refused x]⟩ := by
          rw [SlotHistory.step, SlotAllocator.giveBack_of_not_live hx, SlotAnswer.ofRelease]
        rw [hstep]
        refine hs.answer hs.valid hs.live ?_ ?_
        · simp [hs.numbered]
        · intro id
          have hpeak := hs.valid.peak_eq id
          omega

theorem Sound.foldl (hs : h.Sound) {requests : List SlotRequest}
    (hadmits : h.AdmitsAll requests) : (requests.foldl SlotHistory.step h).Sound := by
  induction requests generalizing h with
  | nil => exact hs
  | cons request requests ih => exact ih (hs.step hadmits.1) hadmits.2

/-- The allocator agrees with what its answers say about it.

A slot handed out was not outstanding, and it is a new one exactly if all slots
of the class are. Outstanding slots, and only those, are taken back, and a
refusal changes nothing. For each class the slots in use and the free ones are
counted right, the flags are set for the outstanding slots and no others, the
stack holds the others once each, and the peak is the most slots that were ever
outstanding. Classes have the numbers from zero on, the same class always the
same, and different classes different ones; by the map a class that was met has
its number still. What is asked of one class does not touch the pool of another. -/
structure Safe (h : SlotHistory) : Prop where
  valid : h.slots.Valid
  outstanding_iff : ∀ x, x ∈ outstanding h.answers ↔ HeldSince h.answers x
  acquired : ∀ id < h.slots.classes.length, (h.slots.acquire id).1.classId = id ∧
    (h.slots.acquire id).1 ∉ outstanding h.answers
  minted : ∀ id < h.slots.classes.length, h.slots.peak id < (h.slots.acquire id).2.peak id ↔
    ∀ slot < h.slots.peak id, ⟨id, slot⟩ ∈ outstanding h.answers
  released : ∀ x, (h.slots.giveBack x).1 = .ok () ↔ x ∈ outstanding h.answers
  refused : ∀ x e, (h.slots.giveBack x).1 = .error e → (h.slots.giveBack x).2 = h.slots
  live : ∀ id, h.slots.liveCount id = (outstandingOf h.answers id).card
  counted : ∀ id, h.slots.freeCount id + h.slots.liveCount id = h.slots.peak id
  flags : ∀ id pool, h.slots.pool? id = some pool → ∀ slot : Nat,
    pool.live[slot]? = some true ↔ ⟨id, slot⟩ ∈ outstanding h.answers
  free : ∀ id pool, h.slots.pool? id = some pool → pool.free.Nodup ∧
    ∀ slot, slot ∈ pool.free ↔ slot < pool.peak ∧ ⟨id, slot⟩ ∉ outstanding h.answers
  peak : ∀ id, h.slots.peak id = (Finset.range (h.answers.length + 1)).sup fun k =>
    (outstandingOf (h.answers.take k) id).card
  dense : ∀ id, (∃ c, .met c id ∈ h.answers) ↔ id < h.slots.classes.length
  named : ∀ c id, .met c id ∈ h.answers →
    h.slots.class? id = some c ∧ h.slots.meet c = (id, h.slots)
  told_apart : ∀ c id c' id', .met c id ∈ h.answers → .met c' id' ∈ h.answers →
    (id = id' ↔ c = c')
  met_apart : ∀ c, ∀ id < h.slots.classes.length, (h.slots.meet c).2.pool? id = h.slots.pool? id
  acquired_apart : ∀ id, ∀ other ≠ id, (h.slots.acquire id).2.pool? other = h.slots.pool? other
  released_apart : ∀ x, ∀ other ≠ x.classId,
    (h.slots.giveBack x).2.pool? other = h.slots.pool? other

theorem Sound.safe (hs : h.Sound) : h.Safe where
  valid := hs.valid
  outstanding_iff := fun _ => mem_outstanding
  acquired := by
    intro id hid
    obtain ⟨hclass, -, -, hfresh, -⟩ := SlotAllocator.acquire_spec hs.valid hid
    exact ⟨hclass, fun hheld => hfresh ((hs.live _).mpr hheld)⟩
  minted := by
    intro id hid
    rw [SlotAllocator.peak_lt_acquire_iff hs.valid hid]
    simp only [hs.live]
  released := by
    intro x
    rw [← hs.live]
    exact SlotAllocator.giveBack_accepts
  refused := fun _ _ => SlotAllocator.giveBack_refuses
  live := fun id => (hs.valid.card_live hs.live id).symm
  counted := by
    intro id
    rw [hs.valid.peak_eq, Nat.add_comm]
  flags := by
    intro id pool hpool slot
    rw [← hs.live, SlotAllocator.live_iff_of_pool? hpool, SlotPool.Live]
  free := by
    intro id pool hpool
    have hvalid := hs.valid.pools id pool hpool
    refine ⟨hvalid.nodup, fun slot => ?_⟩
    rw [← hs.live, SlotAllocator.live_iff_of_pool? hpool, SlotPool.peak]
    exact hvalid.mem_free_iff
  peak := hs.peak
  dense := by
    intro id
    simp only [hs.numbered]
    simp [SlotAllocator.class?, ← Option.isSome_iff_exists]
  named := by
    intro c id hmet
    rw [hs.numbered] at hmet
    exact ⟨hmet, hs.valid.numbered.meet_of_class? hmet⟩
  told_apart := by
    intro c id c' id' hmet hmet'
    rw [hs.numbered] at hmet hmet'
    constructor
    · rintro rfl
      exact Option.some.inj (hmet.symm.trans hmet')
    · rintro rfl
      exact hs.valid.numbered.class?_inj hmet hmet'
  met_apart := fun c id hid => SlotAllocator.pool?_intern_of_lt hs.valid.numbered hid c
  acquired_apart := fun _ _ => h.slots.pool?_acquire_of_ne
  released_apart := fun _ _ => h.slots.pool?_giveBack_of_ne

end SlotHistory

/-- Whatever an allocator is asked, in any order, it is safe. -/
theorem slots_safe {requests : List SlotRequest} (hadmits : SlotHistory.AdmitsAll {} requests) :
    (SlotHistory.run requests).Safe := (SlotHistory.sound_start.foldl hadmits).safe

/-- Two slots are handed out; one is given back twice, the second time in vain, and
handed out again after a release that names an unknown class. -/
def doubleRelease : List SlotRequest :=
  [.meet .dummy, .acquire 0, .acquire 0, .release ⟨0, 0⟩, .release ⟨0, 0⟩, .release ⟨3, 1⟩,
    .acquire 0]

theorem slots_safe_doubleRelease : SlotHistory.AdmitsAll {} doubleRelease ∧
    (SlotHistory.run doubleRelease).Safe ∧
    (SlotHistory.run doubleRelease).answers = [.met .dummy 0, .acquired ⟨0, 0⟩, .acquired ⟨0, 1⟩,
      .released ⟨0, 0⟩, .refused ⟨0, 0⟩, .refused ⟨3, 1⟩, .acquired ⟨0, 0⟩] ∧
    (SlotHistory.run doubleRelease).slots.peak 0 = 2 := by
  have hadmits : SlotHistory.AdmitsAll {} doubleRelease := by decide
  exact ⟨hadmits, slots_safe hadmits, by decide, by decide⟩

end FrameGraph
