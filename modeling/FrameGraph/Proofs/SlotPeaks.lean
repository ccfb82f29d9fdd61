import FrameGraph.Proofs.PortResolution
import Mathlib.Data.Finset.Card
import Mathlib.Data.Finset.Lattice.Fold
import Mathlib.Order.Lattice.Nat

/-!
# Slot peaks

How many slots a schedule needs, counted on the schedule alone. While a phase
runs, live are the slots it uses and those of the buffers that were written
before and are still wanted after. The peak of a class is the greatest number of
slots of it that are live at one position.

That it is no less is seen on the finished schedule: live slots are slots of the
class. That it is no more rests on the placement, which mints a slot of a class
only when the class is full. `Workload.Packed` carries this from round to round:
a class that has a free slot was full while some pass ran, and has minted
nothing since.
-/
namespace FrameGraph

def Phase.slots (p : Phase) : List Allocation := (p.inputs ++ p.outputs).filterMap (·.allocation)

namespace Schedule

/-- The buffers written by the phases before a position. -/
def writtenBefore (s : Schedule) (k : Nat) : List Nat :=
  (s.phases.take k).flatMap fun p => p.outputs.map (·.buffer)

/-- Whether a buffer is required or read by a phase after a position. -/
def wantedAfter (s : Schedule) (required : List Nat) (k b : Nat) : Bool :=
  required.contains b || (s.phases.drop (k + 1)).any fun p => p.inputs.any (·.buffer == b)

/-- The slots that are live while the phase at a position runs. -/
def liveAt (s : Schedule) (required : List Nat) (k : Nat) : Finset Allocation :=
  (s.phases[k]?.elim [] Phase.slots ++
    ((s.writtenBefore k).filter (s.wantedAfter required k)).filterMap s.allocation).toFinset

def liveOf (s : Schedule) (required : List Nat) (c : StorageClass) (k : Nat) : Finset Allocation :=
  (s.liveAt required k).filter fun x => s.class? x.classId = some c

variable {s : Schedule} {c : StorageClass}

theorem peak_of_mem (h : (s.peaks.map (·.1)).Nodup) {e : StorageClass × Nat} (he : e ∈ s.peaks) :
    s.peak e.1 = e.2 := by
  rw [peak, find?_of_nodup_map h he]
  rfl

theorem exists_class_of_peak (h : 0 < s.peak c) :
    ∃ id : Nat, s.peaks[id]? = some (c, s.peak c) := by
  unfold peak at h ⊢
  cases hfind : s.peaks.find? (·.1 == c) with
  | none => simp [hfind] at h
  | some e =>
      have hclass : e.1 = c := by simpa using List.find?_some hfind
      obtain ⟨id, hid⟩ := List.mem_iff_getElem?.mp (List.mem_of_find?_eq_some hfind)
      refine ⟨id, ?_⟩
      rw [hid, ← hclass]
      rfl

end Schedule

/-- A buffer takes up its slot while a pass runs: the pass uses it, or it has
been written and is required or read by one of the later passes. -/
def Pass.Occupies (required : List Nat) (p : Pass) (later : List Pass) (b : Nat) : Prop :=
  b ∈ p.reads ∨ b ∈ p.writes ∨
    (b ∈ required ∨ ∃ q ∈ later, b ∈ q.reads) ∧ ∀ q ∈ p :: later, b ∉ q.writes

namespace Workload

variable {w : Workload} {s next : Progress} {p : Pass}

/-- A class with a free slot was full while one of the placed passes ran. -/
def Packed (w : Workload) (s : Progress) : Prop :=
  ∀ id, s.ledger.slots.Full id ∨ ∃ before p later, s.order = before ++ p :: later ∧
    ∀ x, x.classId = id → s.ledger.slots.Minted x →
      ∃ b, s.ledger.allocation? b = some x ∧ p.Occupies w.required later b

/-- The slots in use while a pass is placed are those of buffers that take up
their slots while it runs. -/
theorem Places.occupies (hw : w.WellFormed) (hs : w.Sound s) (h : w.Places s p next)
    {x : Allocation}
    (hx : (∃ b ∈ p.writes, s.ledger.slot? b = some x) ∨ next.ledger.Demanded x) :
    ∃ b, next.ledger.allocation? b = some x ∧ p.Occupies w.required s.order b := by
  rcases hx with ⟨b, hb, hslot⟩ | ⟨b, demand, hdemand, rfl⟩
  · have hrecorded := hs.balanced.allocation?_of_slot? hslot
    refine ⟨b, ?_, .inr (.inl hb)⟩
    rw [h.allocation?_of_isSome hs (by simp [hrecorded]), hrecorded]
  · refine ⟨b, h.settled.balanced.recorded b demand hdemand, ?_⟩
    obtain ⟨hcount, hunwritten⟩ := (h.demanded hw hs b).mp (by simp [hdemand])
    rw [h.order_eq] at hcount hunwritten
    by_cases hread : b ∈ p.reads
    · exact .inl hread
    · refine .inr (.inr ⟨?_, hunwritten⟩)
      by_contra hunused
      rw [not_or, not_exists] at hunused
      apply hcount
      rw [countConsumers_cons, if_neg hread, Nat.add_zero, countConsumers_eq_zero]
      exact ⟨hunused.1, fun q hq hbq => hunused.2 q ⟨hq, hbq⟩⟩

theorem Places.packed (hw : w.WellFormed) (hs : w.Sound s) (h : w.Places s p next)
    (hpacked : w.Packed s) : w.Packed next := by
  intro id
  right
  rcases h.settled.filled id with hfull | ⟨hfree, hsame⟩
  · exact ⟨[], p, s.order, h.order_eq, fun x hx hminted => h.occupies hw hs (hfull x hx hminted)⟩
  · rcases hpacked id with hfull | ⟨before, q, later, horder, hused⟩
    · exact (hfree hfull).elim
    · refine ⟨p :: before, q, later, by rw [h.order_eq, horder, List.cons_append], ?_⟩
      intro x hx hminted
      obtain ⟨b, hb, hoccupies⟩ := hused x hx ((hsame x hx).mp hminted)
      exact ⟨b, (h.allocation?_of_isSome hs (by simp [hb])).trans hb, hoccupies⟩

theorem Head.packed (hw : w.WellFormed) (h : w.Head s) : w.Packed s := by
  refine (h.induction hw ?_ ?_).2
  · exact fun id => .inl ((opening_startLedger hw).full id)
  · exact fun s p next hs hplaces hpacked => hplaces.packed hw hs hpacked

end Workload

namespace Compilation

variable {d : Description} {required : List Nat} {config : Config} {passes selected : List Pass}
  {last : Progress} {s : Schedule} {c : StorageClass} {x : Allocation} {k b : Nat}

theorem exists_buffer_of_live (h : Compilation d required config passes selected last s)
    (hx : x ∈ s.liveAt required k) : ∃ b, s.allocation b = some x := by
  unfold Schedule.liveAt at hx
  rw [List.mem_toFinset, List.mem_append] at hx
  rcases hx with hx | hx
  · cases hphase : s.phases[k]? with
    | none => simp [hphase] at hx
    | some phase =>
        rw [hphase] at hx
        obtain ⟨p, -, -, rfl⟩ := h.exists_pass_of_phase hphase
        obtain ⟨port, hport, hslot⟩ := List.mem_filterMap.mp hx
        refine ⟨port.buffer, ?_⟩
        rw [← hslot]
        rcases List.mem_append.mp hport with hport | hport
        · obtain ⟨i, -, rfl⟩ := List.mem_map.mp hport
          rfl
        · obtain ⟨o, -, rfl⟩ := List.mem_map.mp hport
          rfl
  · obtain ⟨b, -, hb⟩ := List.mem_filterMap.mp hx
    exact ⟨b, hb⟩

theorem live_of_occupies (h : Compilation d required config passes selected last s)
    {before later : List Pass} {p : Pass} (horder : last.order = before ++ p :: later)
    (hb : s.allocation b = some x) (hoccupies : p.Occupies required later b) :
    x ∈ s.liveAt required before.length := by
  have hphases := h.phases_eq
  rw [horder, List.map_append, List.map_cons] at hphases
  have hphase : s.phases[before.length]? = some (p.phase s.allocation) := by simp [hphases]
  unfold Schedule.liveAt
  rw [List.mem_toFinset, List.mem_append, hphase]
  rcases hoccupies with hread | hwrite | ⟨hwanted, hunwritten⟩
  · obtain ⟨i, hi, rfl⟩ := List.mem_map.mp hread
    left
    refine List.mem_filterMap.mpr ⟨_, List.mem_append_left _ (List.mem_map_of_mem hi), ?_⟩
    exact hb
  · obtain ⟨o, ho, rfl⟩ := List.mem_map.mp hwrite
    left
    refine List.mem_filterMap.mpr ⟨_, List.mem_append_right _ (List.mem_map_of_mem ho), ?_⟩
    exact hb
  · right
    refine List.mem_filterMap.mpr ⟨b, List.mem_filter.mpr ⟨?_, ?_⟩, hb⟩
    · have hneeded : d.Wanted required b := by
        rcases hwanted with hb | ⟨q, hq, hbq⟩
        · exact .required hb
        · exact h.selects.wanted_of_reads (h.mem_order.mp (by simp [horder, hq])) hbq
      obtain ⟨q, hq, hbq⟩ := h.selects.exists_writer hneeded
      have hbefore : q ∈ before := by
        rcases List.mem_append.mp (horder ▸ h.mem_order.mpr hq) with hq | hq
        · exact hq
        · exact (hunwritten q hq hbq).elim
      obtain ⟨o, ho, rfl⟩ := List.mem_map.mp hbq
      have htake : s.phases.take before.length = before.map (·.phase s.allocation) := by
        simp [hphases]
      unfold Schedule.writtenBefore
      rw [htake, List.mem_flatMap]
      refine ⟨_, List.mem_map_of_mem hbefore, ?_⟩
      simpa [Pass.phase] using ⟨o, ho, rfl⟩
    · have hdrop : s.phases.drop (before.length + 1) = later.map (·.phase s.allocation) := by
        simp [hphases, List.drop_append]
      unfold Schedule.wantedAfter
      rw [hdrop]
      simpa [Pass.phase, Pass.reads] using hwanted

theorem minted_iff (h : Compilation d required config passes selected last s)
    (hx : s.peaks[x.classId]? = some (c, s.peak c)) :
    last.ledger.slots.Minted x ↔ x.slot < s.peak c := by
  have hpeaks : s.peaks = last.ledger.slots.peaks := by rw [h.schedule_eq]
  rw [hpeaks, SlotAllocator.getElem?_peaks] at hx
  obtain ⟨k, -, hentry⟩ := Option.bind_eq_some_iff.mp hx
  obtain ⟨pool, hpool, hpair⟩ := Option.map_eq_some_iff.mp hentry
  have hminted : pool.minted = s.peak c := congrArg Prod.snd hpair
  simp [SlotAllocator.Minted, hpool, hminted]

theorem card_liveOf_le (h : Compilation d required config passes selected last s)
    (c : StorageClass) (k : Nat) : (s.liveOf required c k).card ≤ s.peak c := by
  have hslot : ∀ x ∈ s.liveOf required c k, x.slot < s.peak c := by
    intro x hx
    obtain ⟨hlive, hclass⟩ := Finset.mem_filter.mp hx
    obtain ⟨b, hb⟩ := h.exists_buffer_of_live hlive
    obtain ⟨e, he, hlt⟩ := h.exists_peak hb
    have hec : e.1 = c := by simpa [Schedule.class?, he] using hclass
    rw [← hec, Schedule.peak_of_mem h.peaks_nodup (List.mem_of_getElem? he)]
    exact hlt
  rw [← Finset.card_range (s.peak c)]
  apply Finset.card_le_card_of_injOn (·.slot)
  · exact fun x hx => Finset.mem_coe.mpr (Finset.mem_range.mpr (hslot x hx))
  · intro x hx y hy hxy
    have hid := Schedule.class?_injective h.peaks_nodup (Finset.mem_filter.mp hx).2
      (Finset.mem_filter.mp hy).2
    cases x
    cases y
    simp_all

/-- Every slot that a class has was live at one position. -/
theorem exists_position (h : Compilation d required config passes selected last s)
    (hpos : 0 < s.peak c) : ∃ id, s.class? id = some c ∧ ∃ k < s.phases.length,
      ∀ slot < s.peak c, (⟨id, slot⟩ : Allocation) ∈ s.liveAt required k := by
  obtain ⟨id, hid⟩ := Schedule.exists_class_of_peak hpos
  refine ⟨id, by simp [Schedule.class?, hid], ?_⟩
  rcases h.head.packed h.wellFormed id with hfull | ⟨before, p, later, horder, hused⟩
  · have hlive := hfull ⟨id, 0⟩ rfl ((h.minted_iff hid).mpr hpos)
    rcases (h.sound.balanced.live _).mp hlive with hheld | ⟨b, demand, hdemand, -⟩
    · exact hheld.elim
    · simp [h.closed b] at hdemand
  · refine ⟨before.length, ?_, fun slot hslot => ?_⟩
    · rw [h.phases_eq, List.length_map, horder, List.length_append, List.length_cons]
      omega
    · obtain ⟨b, hb, hoccupies⟩ := hused ⟨id, slot⟩ rfl ((h.minted_iff hid).mpr hslot)
      rw [← h.allocation_eq] at hb
      refine h.live_of_occupies horder hb ?_
      simpa only [Pass.Occupies, Workload.mem_required_ofPasses] using hoccupies

theorem exists_card_eq_peak (h : Compilation d required config passes selected last s)
    (hpos : 0 < s.peak c) : ∃ k < s.phases.length, (s.liveOf required c k).card = s.peak c := by
  obtain ⟨id, hid, k, hk, hlive⟩ := h.exists_position hpos
  refine ⟨k, hk, Nat.le_antisymm (h.card_liveOf_le c k) ?_⟩
  rw [← Finset.card_range (s.peak c)]
  apply Finset.card_le_card_of_injOn fun slot => (⟨id, slot⟩ : Allocation)
  · intro slot hslot
    exact Finset.mem_filter.mpr ⟨hlive slot (Finset.mem_range.mp hslot), hid⟩
  · intro slot _ slot' _ heq
    exact congrArg Allocation.slot heq

end Compilation

/-- The peak of a class is the greatest number of its slots that are live at one
position of the schedule, and each of these slots is that of a buffer. -/
theorem peak_of_compile {d : Description} {required : List Nat} {config : Config} {s : Schedule}
    (h : compile d required config = .ok s) (c : StorageClass) :
    s.peak c = (Finset.range s.phases.length).sup (fun k => (s.liveOf required c k).card) ∧
      ∀ slot < s.peak c, ∃ b x, s.allocation b = some x ∧ s.class? x.classId = some c ∧
        x.slot = slot := by
  obtain ⟨passes, selected, last, hcompilation⟩ := compilation_of_compile h
  constructor
  · apply Nat.le_antisymm
    · rcases Nat.eq_zero_or_pos (s.peak c) with hzero | hpos
      · rw [hzero]
        exact Nat.zero_le _
      · obtain ⟨k, hk, hcard⟩ := hcompilation.exists_card_eq_peak hpos
        rw [← hcard]
        exact Finset.le_sup (f := fun k => (s.liveOf required c k).card) (Finset.mem_range.mpr hk)
    · exact Finset.sup_le fun k _ => hcompilation.card_liveOf_le c k
  · intro slot hslot
    obtain ⟨id, hid, k, -, hlive⟩ := hcompilation.exists_position (Nat.zero_lt_of_lt hslot)
    obtain ⟨b, hb⟩ := hcompilation.exists_buffer_of_live (hlive slot hslot)
    exact ⟨b, _, hb, hid, rfl⟩

theorem peak_tintInPlace :
    compile tintInPlace [1] {} = .ok tintedSchedule ∧
      tintedSchedule.peak (.texture ⟨4, 4⟩ .rgba8Unorm) =
        (Finset.range 2).sup fun k =>
          (tintedSchedule.liveOf [1] (.texture ⟨4, 4⟩ .rgba8Unorm) k).card :=
  ⟨compile_tintInPlace, (peak_of_compile compile_tintInPlace _).1⟩

end FrameGraph
