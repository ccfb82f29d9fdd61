import FrameGraph.Compile
import FrameGraph.Proofs.BackwardReach
import FrameGraph.Proofs.PlacementRun

/-!
# Successful compilations

The stages of a compilation put together. `Description.Selects` is what the
checks and the selection establish; from it the workload is well formed, and
when no demand is left open no pass is left over.

`Compilation` collects what is known when `compile` returns a schedule: the
phases are the selected passes in an order in which producers come first, each
with the slots on record.
-/
namespace FrameGraph

namespace Description

/-- Every wanted buffer has a producer. -/
def Produced (d : Description) (required : List Nat) : Prop :=
  ∀ b, d.Wanted required b → ∃ i, d.Writes i b

/-- Without a producer for every wanted buffer, a selection fails for want of those
that have none. -/
theorem select_of_not_produced {d : Description} {required : List Nat} {passes : List Pass}
    (h : d.passes = .ok passes) (hno : ¬d.Produced required) :
    ∃ missing, (∀ b, b ∈ missing ↔ d.Wanted required b ∧ ∀ i, ¬d.Writes i b) ∧
      d.select passes required = .error (.unrealizable (d.namesInTable missing) []) := by
  unfold Produced at hno
  simp only [not_forall, exists_prop, not_exists] at hno
  obtain ⟨b, hb, hnone⟩ := hno
  exact select_of_unproduced h hb hnone

/-- The passes of a description and those of them that are to be placed. -/
structure Selects (d : Description) (required : List Nat) (passes selected : List Pass) : Prop where
  accepted : d.passes = .ok passes
  in_range : ∀ b ∈ required, b < d.buffers.length
  produced : d.Produced required
  sublist : selected.Sublist passes
  mem_iff : ∀ p ∈ passes, p ∈ selected ↔ d.Reachable required p.index

theorem selects_of_select {d : Description} {required : List Nat} {passes : List Pass}
    {selection : Selection} (haccepted : d.passes = .ok passes)
    (hrange : ∀ b ∈ required, b < d.buffers.length)
    (hselect : d.select passes required = .ok selection) :
    d.Selects required passes selection.passes := by
  have hproduced : d.Produced required := by
    by_contra hno
    obtain ⟨_, -, herror⟩ := select_of_not_produced haccepted hno
    rw [hselect] at herror
    cases herror
  obtain ⟨other, hother, hsublist, hmem⟩ := select_of_produced haccepted hproduced
  rw [hselect] at hother
  cases hother
  exact ⟨haccepted, hrange, hproduced, hsublist, hmem⟩

theorem selects_of_selection {d : Description} {required : List Nat} {selection : Selection}
    (h : d.selection required = .ok selection) :
    ∃ passes, d.Selects required passes selection.passes := by
  obtain ⟨_, hrange, h⟩ := bind_eq_ok.mp h
  obtain ⟨passes, hpasses, hselect⟩ := bind_eq_ok.mp h
  exact ⟨passes, selects_of_select hpasses (checkHandles_eq_ok.mp hrange) hselect⟩

namespace Selects

variable {d : Description} {required : List Nat} {passes selected : List Pass} {p : Pass} {b : Nat}

theorem mem_passes (h : d.Selects required passes selected) (hp : p ∈ selected) : p ∈ passes :=
  h.sublist.subset hp

theorem reachable (h : d.Selects required passes selected) (hp : p ∈ selected) :
    d.Reachable required p.index :=
  (h.mem_iff p (h.mem_passes hp)).mp hp

theorem exists_pass (h : d.Selects required passes selected) {i : Nat}
    (hi : d.Reachable required i) : ∃ p ∈ selected, p.index = i := by
  obtain ⟨b, hb, hwrites⟩ := id hi
  obtain ⟨p, hp, rfl, -⟩ := exists_pass_of_writes h.accepted hwrites
  exact ⟨p, (h.mem_iff p hp).mpr hi, rfl⟩

theorem wanted_of_reads (h : d.Selects required passes selected) (hp : p ∈ selected)
    (hb : b ∈ p.reads) : d.Wanted required b := by
  obtain ⟨c, hc, hwrites⟩ := h.reachable hp
  exact .read hc hwrites ((reads_iff h.accepted (h.mem_passes hp) b).mpr hb)

theorem exists_writer (h : d.Selects required passes selected) (hb : d.Wanted required b) :
    ∃ p ∈ selected, b ∈ p.writes := by
  obtain ⟨i, hwrites⟩ := h.produced b hb
  obtain ⟨p, hp, rfl, hbp⟩ := exists_pass_of_writes h.accepted hwrites
  exact ⟨p, (h.mem_iff p hp).mpr ⟨b, hb, hwrites⟩, hbp⟩

theorem writer_unique (h : d.Selects required passes selected) {q : Pass} (hp : p ∈ selected)
    (hq : q ∈ selected) (hbp : b ∈ p.writes) (hbq : b ∈ q.writes) : p = q :=
  producer_unique h.accepted (h.mem_passes hp) (h.mem_passes hq) hbp hbq

theorem wellFormed (h : d.Selects required passes selected) {config : Config}
    (hshared : (Workload.ofPasses d config required selected).checkBindings selected = .ok ()) :
    (Workload.ofPasses d config required selected).WellFormed := by
  have hwanted : ∀ b, (b ∈ (Workload.ofPasses d config required selected).required ∨
      ∃ p ∈ selected, b ∈ p.reads) → d.Wanted required b := by
    intro b hb
    rcases hb with hb | ⟨p, hp, hb⟩
    · exact .required ((Workload.mem_required_ofPasses ..).mp hb)
    · exact h.wanted_of_reads hp hb
  exact {
    valid := fun p hp => valid_of_mem h.accepted (h.mem_passes hp)
    ordered := (passes_pairwise h.accepted).sublist h.sublist
    separate := fun p hp q hq b hbp hbq => h.writer_unique hp hq hbp hbq
    required_lt := fun b hb => h.in_range b ((Workload.mem_required_ofPasses ..).mp hb)
    required_nodup := nodup_eraseDups required
    produced := fun b hb => h.exists_writer (hwanted b hb)
    consumers := fun b hb => Workload.consumersOf_ofPasses d config required selected hb
    class_lt := by
      intro b hb
      obtain ⟨q, hq, hbq⟩ := h.exists_writer (hwanted b hb)
      refine Workload.classId_lt_ofPasses
        ((valid_of_mem h.accepted (h.mem_passes hq)).writes_lt b hbq) ?_
      exact Workload.mem_meetingOrder.mpr (.inr ⟨q, hq, .inl hbq⟩)
    shared := Workload.checkBindings_eq_ok.mp hshared
    classes_nodup := Workload.nodup_classes_ofPasses
    unused := Workload.unused_ofPasses }

/-- With no demand left open, every wanted buffer has been produced. -/
theorem written_of_wanted (h : d.Selects required passes selected) {config : Config}
    {s : Progress} (hs : (Workload.ofPasses d config required selected).Sound s)
    (hclosed : ∀ b, s.ledger.demand? b = none) (hb : d.Wanted required b) :
    ∃ p ∈ s.order, b ∈ p.writes := by
  have hmet : ∀ c, (c ∈ required ∨ ∃ p ∈ s.order, c ∈ p.reads) → ∃ p ∈ s.order, c ∈ p.writes := by
    intro c hc
    have hcount : Workload.countConsumers
        (Workload.ofPasses d config required selected).required s.order c ≠ 0 := by
      rw [Ne, Workload.countConsumers_eq_zero, Workload.mem_required_ofPasses]
      intro hunused
      rcases hunused with ⟨hnot, hno⟩
      rcases hc with hc | ⟨p, hp, hc⟩
      · exact hnot hc
      · exact hno p hp hc
    by_contra hno
    have hdemanded := (hs.demanded c).mpr ⟨hcount, fun p hp hcp => hno ⟨p, hp, hcp⟩⟩
    simp [hclosed c] at hdemanded
  induction hb with
  | required hb => exact hmet _ (.inl hb)
  | read _ hwrites hreads ih =>
      obtain ⟨p, hp, hbp⟩ := ih
      have hmem := h.mem_passes (hs.mem_of_order hp)
      obtain rfl := Description.writer_unique h.accepted hwrites
        ((writes_iff h.accepted hmem _).mpr hbp)
      exact hmet _ (.inr ⟨p, hp, (reads_iff h.accepted hmem _).mp hreads⟩)

/-- With no demand left open, no pass is left over. -/
theorem pending_eq_nil (h : d.Selects required passes selected) {config : Config}
    {s : Progress} (hw : (Workload.ofPasses d config required selected).WellFormed)
    (hs : (Workload.ofPasses d config required selected).Sound s)
    (hclosed : ∀ b, s.ledger.demand? b = none) : s.pending = [] := by
  refine List.eq_nil_iff_forall_not_mem.mpr fun p hp => ?_
  have hmem : p ∈ selected := hs.mem_of_pending hp
  obtain ⟨b, hb, hwrites⟩ := h.reachable hmem
  obtain ⟨q, hq, hbq⟩ := h.written_of_wanted hs hclosed hb
  exact hs.unwritten hw hp ((writes_iff h.accepted (h.mem_passes hmem) b).mp hwrites) hq hbq

end Selects
end Description

/-- A compilation that returned a schedule: the selected passes and the progress
at which their placement ended. -/
structure Compilation (d : Description) (required : List Nat) (config : Config)
    (passes selected : List Pass) (last : Progress) (s : Schedule) : Prop where
  selects : d.Selects required passes selected
  wellFormed : (Workload.ofPasses d config required selected).WellFormed
  head : (Workload.ofPasses d config required selected).Head last
  sound : (Workload.ofPasses d config required selected).Sound last
  closed : ∀ b, last.ledger.demand? b = none
  schedule_eq : s = ⟨last.placed.map (·.phase), last.ledger.slots.peaks, last.ledger.allocations,
    config.resolution⟩

theorem compilation_of_compile {d : Description} {required : List Nat} {config : Config}
    {s : Schedule} (h : compile d required config = .ok s) :
    ∃ passes selected last, Compilation d required config passes selected last s := by
  obtain ⟨selection, hselection, h⟩ := bind_eq_ok.mp h
  obtain ⟨_, hbindings, h⟩ := bind_eq_ok.mp h
  obtain ⟨last, hfinish, hconclude⟩ := bind_eq_ok.mp h
  obtain ⟨passes, hselects⟩ := Description.selects_of_selection hselection
  have hw := hselects.wellFormed hbindings
  obtain ⟨other, hother, hhead, hsound, -⟩ := Workload.finish_spec hw
  rw [hfinish] at hother
  cases hother
  unfold Workload.conclude at hconclude
  split_ifs at hconclude with hopen hpending
  have hclosed := hsound.balanced.openCount_eq_zero.mp (by simpa using hopen)
  exact ⟨passes, selection.passes, last, hselects, hw, hhead, hsound, hclosed,
    (Except.ok.inj hconclude).symm⟩

namespace Compilation

variable {d : Description} {required : List Nat} {config : Config} {passes selected : List Pass}
  {last : Progress} {s : Schedule} {p : Pass} {b : Nat}

theorem allocation_eq (h : Compilation d required config passes selected last s) (b : Nat) :
    s.allocation b = last.ledger.allocation? b := by
  rw [h.schedule_eq]
  rfl

theorem phases_eq (h : Compilation d required config passes selected last s) :
    s.phases = last.order.map (·.phase s.allocation) := by
  have hallocation : s.allocation = last.ledger.allocation? := funext h.allocation_eq
  rw [hallocation, ← h.sound.phases, h.schedule_eq]

theorem pending_eq_nil (h : Compilation d required config passes selected last s) :
    last.pending = [] :=
  h.selects.pending_eq_nil h.wellFormed h.sound h.closed

/-- The phases are the selected passes. -/
theorem order_perm (h : Compilation d required config passes selected last s) :
    last.order.Perm selected := by
  have hparted := h.sound.parted
  rwa [h.pending_eq_nil, List.append_nil] at hparted

theorem mem_order (h : Compilation d required config passes selected last s) :
    p ∈ last.order ↔ p ∈ selected :=
  h.order_perm.mem_iff

theorem order_nodup (h : Compilation d required config passes selected last s) :
    last.order.Nodup :=
  h.order_perm.nodup_iff.mpr h.wellFormed.passes_nodup

theorem indices_nodup (h : Compilation d required config passes selected last s) :
    (last.order.map (·.index)).Nodup := by
  refine h.order_nodup.map_on fun p hp q hq hpq => ?_
  exact h.wellFormed.index_injective (h.mem_order.mp hp) (h.mem_order.mp hq) hpq

/-- What a phase reads is written by an earlier phase. -/
theorem producer_before (h : Compilation d required config passes selected last s) {k : Nat}
    (hp : last.order[k]? = some p) (hb : b ∈ p.reads) :
    ∃ j q, j < k ∧ last.order[j]? = some q ∧ b ∈ q.writes := by
  have hmem : p ∈ selected := h.mem_order.mp (List.mem_of_getElem? hp)
  obtain ⟨q, hq, hbq⟩ := h.selects.exists_writer (h.selects.wanted_of_reads hmem hb)
  obtain ⟨j, hj⟩ := List.mem_iff_getElem?.mp (h.mem_order.mpr hq)
  refine ⟨j, q, ?_, hj, hbq⟩
  obtain ⟨hk, rfl⟩ := List.getElem?_eq_some_iff.mp hp
  obtain ⟨hlt, rfl⟩ := List.getElem?_eq_some_iff.mp hj
  by_contra hle
  rcases Nat.lt_or_eq_of_le (Nat.le_of_not_lt hle) with hkj | rfl
  · exact List.pairwise_iff_getElem.mp h.sound.ordered k j hk hlt hkj b hbq hb
  · exact (h.wellFormed.valid _ hq).disjoint b hb hbq

end Compilation

/-- A texture written by one operation and overwritten in place by the next. -/
def tintInPlace : Description where
  buffers := [.texture "raw" (.absolute ⟨4, 4⟩) .rgba8Unorm,
    .texture "tinted" (.absolute ⟨4, 4⟩) .rgba8Unorm]
  operations := [
    { name := "draw", outputs := [⟨"out", some 0⟩] },
    { name := "tint", inputs := [⟨"in", some 0⟩], outputs := [⟨"out", some 1⟩],
      bindings := [("in", "out")] }]

def tintedSchedule : Schedule where
  phases := [⟨0, "draw", [], [⟨0, 0, some ⟨0, 0⟩⟩]⟩,
    ⟨1, "tint", [⟨0, 0, some ⟨0, 0⟩⟩], [⟨0, 1, some ⟨0, 0⟩⟩]⟩]
  peaks := [(.texture ⟨4, 4⟩ .rgba8Unorm, 1)]
  allocations := [some ⟨0, 0⟩, some ⟨0, 0⟩]
  resolution := ⟨1280, 720⟩

theorem compile_tintInPlace : compile tintInPlace [1] {} = .ok tintedSchedule := by rfl

/-- A texture and its tinted copy, which cannot share a resource. -/
def tintedCopy : Description where
  buffers := [.texture "raw" (.absolute ⟨4, 4⟩) .rgba8Unorm,
    .texture "tinted" (.absolute ⟨4, 4⟩) .rgba8Unorm]
  operations := [
    { name := "draw", outputs := [⟨"out", some 0⟩] },
    { name := "tint", inputs := [⟨"in", some 0⟩], outputs := [⟨"out", some 1⟩] }]

def copySchedule : Schedule where
  phases := [⟨0, "draw", [], [⟨0, 0, some ⟨0, 1⟩⟩]⟩,
    ⟨1, "tint", [⟨0, 0, some ⟨0, 1⟩⟩], [⟨0, 1, some ⟨0, 0⟩⟩]⟩]
  peaks := [(.texture ⟨4, 4⟩ .rgba8Unorm, 2)]
  allocations := [some ⟨0, 1⟩, some ⟨0, 0⟩]
  resolution := ⟨1280, 720⟩

theorem compile_tintedCopy : compile tintedCopy [1] {} = .ok copySchedule := by rfl

end FrameGraph
