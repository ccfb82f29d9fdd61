import FrameGraph.Proofs.Confluence
import FrameGraph.Proofs.RequiredSlots

/-!
# Compilations under a renaming

Two compilations that have selected the same passes for the same required
buffers, up to a renaming, end in the same way. What a workload is made of says
whether it is the renamed one, and `SameOutcome` carries over from the placement
to the compilation.

Which passes are selected is compared by reachability. Selected passes are
listed in the order of the description, so they are known from their members.
-/
namespace FrameGraph

namespace Description

variable {d d' : Description} {required required' : List Nat}

/-- Wanted buffers stay wanted when what is read for their sake is read again. -/
theorem Wanted.map (f : Nat → Nat) (hrequired : ∀ b ∈ required, f b ∈ required')
    (hread : ∀ b i c, d.Wanted required b → d.Writes i b → d.Reads i c →
      ∃ j, d'.Writes j (f b) ∧ d'.Reads j (f c)) {b : Nat} (hb : d.Wanted required b) :
    d'.Wanted required' (f b) := by
  induction hb with
  | required hb => exact .required (hrequired _ hb)
  | read hb hwrites hreads ih =>
      obtain ⟨j, hwrites', hreads'⟩ := hread _ _ _ hb hwrites hreads
      exact .read ih hwrites' hreads'

/-- The selected passes are known from the reachable operations. -/
theorem Selects.unique {passes selected ps : List Pass}
    (h : d.Selects required passes selected) (hps : ps.Sublist passes)
    (hmem : ∀ p ∈ passes, p ∈ ps ↔ d.Reachable required p.index) : selected = ps := by
  have hpasses := passes_pairwise h.accepted
  apply passes_unique (hpasses.sublist h.sublist) (hpasses.sublist hps)
  intro p
  constructor
  · intro hp
    have hpass := h.mem_passes hp
    exact (hmem p hpass).mpr ((h.mem_iff p hpass).mp hp)
  · intro hp
    have hpass := hps.subset hp
    exact (h.mem_iff p hpass).mpr ((hmem p hpass).mp hp)

end Description

/-- What the second of two workloads is made of is what the first is made of,
renamed. -/
structure Workload.PartsRenamed (ρ : Renaming) (d d' : Description) (config : Config)
    (required required' : List Nat) (selected selected' : List Pass) : Prop where
  buffers : ∀ b, d'.buffers[ρ.buffer b]? = d.buffers[b]?
  required_iff : ∀ b, ρ.buffer b ∈ required' ↔ b ∈ required
  selected_eq : selected' = selected.map ρ.pass
  valid : ∀ p ∈ selected, p.Valid d.buffers.length
  index_injective : ∀ p ∈ selected, ∀ q ∈ selected,
    ρ.index p.index = ρ.index q.index → p.index = q.index
  ids : ∀ c, (ofPasses d' config required' selected').slots.classes.idxOf c =
    ρ.classId ((ofPasses d config required selected).slots.classes.idxOf c)
  classes : ∀ id, (ofPasses d' config required' selected').slots.class? (ρ.classId id) =
    (ofPasses d config required selected).slots.class? id

namespace Workload.PartsRenamed

variable {ρ : Renaming} {d d' : Description} {config : Config} {required required' : List Nat}
  {selected selected' : List Pass}

theorem lt_iff (h : PartsRenamed ρ d d' config required required' selected selected') (b : Nat) :
    ρ.buffer b < d'.buffers.length ↔ b < d.buffers.length := by
  rw [← Nat.not_le, ← Nat.not_le, ← List.getElem?_eq_none_iff, ← List.getElem?_eq_none_iff,
    h.buffers]

theorem countConsumers_eq (h : PartsRenamed ρ d d' config required required' selected selected')
    (b : Nat) : countConsumers required'.eraseDups selected' (ρ.buffer b) =
      countConsumers required.eraseDups selected b := by
  unfold countConsumers
  rw [h.selected_eq, List.countP_map]
  simp only [Function.comp_def, Renaming.reads_pass, Renaming.contains_map,
    List.contains_iff_mem, List.mem_eraseDups, h.required_iff]

theorem renamed (h : PartsRenamed ρ d d' config required required' selected selected') :
    (ofPasses d config required selected).Renamed ρ
      (ofPasses d' config required' selected') where
  config_eq := rfl
  passes_eq := h.selected_eq
  valid := h.valid
  index_injective := h.index_injective
  bufferName_eq := by
    intro b
    unfold bufferName Description.bufferName
    rw [description_ofPasses, description_ofPasses, h.buffers]
  consumersOf_eq := by
    intro b
    by_cases hb : b < d.buffers.length
    · rw [consumersOf_ofPasses _ _ _ _ ((h.lt_iff b).mpr hb), consumersOf_ofPasses _ _ _ _ hb,
        h.countConsumers_eq]
    · have hb' := mt (h.lt_iff b).mp hb
      simp [consumersOf, ofPasses, hb, hb']
  cost_eq := by
    intro b
    simp [cost, ofPasses, h.buffers]
  classId_eq := by
    intro b hb
    rw [tableSize_ofPasses] at hb
    have hbuffer := h.buffers b
    rw [List.getElem?_eq_getElem hb] at hbuffer
    have hclass : d.classOf? config.resolution b =
        some (d.buffers[b].storageClass config.resolution) := by
      unfold Description.classOf?
      rw [List.getElem?_eq_getElem hb, Option.map_some]
    have hclass' : d'.classOf? config.resolution (ρ.buffer b) =
        some (d.buffers[b].storageClass config.resolution) := by
      unfold Description.classOf?
      rw [hbuffer, Option.map_some]
    rw [classId_ofPasses hclass, classId_ofPasses hclass']
    exact h.ids _
  unitCost_eq := by
    intro id
    unfold unitCost
    rw [h.classes]

theorem required_perm (h : PartsRenamed ρ d d' config required required' selected selected') :
    required'.eraseDups.Perm (required.eraseDups.map ρ.buffer) := by
  rw [List.perm_ext_iff_of_nodup (nodup_eraseDups _)
    ((nodup_eraseDups _).map ρ.buffer.injective)]
  intro c
  obtain ⟨b, rfl⟩ := ρ.buffer.surjective c
  rw [List.mem_map_of_injective ρ.buffer.injective, List.mem_eraseDups, List.mem_eraseDups,
    h.required_iff]

end Workload.PartsRenamed

/-- Compilations of renamed selections have the same outcome when the slots in
turn are renamed. -/
theorem Workload.PartsRenamed.sameOutcome {ρ : Renaming} {d d' : Description} {config : Config}
    {required required' : List Nat} {selection selection' : Selection}
    (h : PartsRenamed ρ d d' config required required' selection.passes selection'.passes)
    (hselection : d.selection required = .ok selection)
    (hselection' : d'.selection required' = .ok selection')
    (hstarts : StartsRenamed ρ (ofPasses d config required selection.passes)
      (ofPasses d' config required' selection'.passes)) :
    SameOutcome ρ (compile d required config) (compile d' required' config) := by
  obtain ⟨passes, hselects⟩ := Description.selects_of_selection hselection
  obtain ⟨passes', hselects'⟩ := Description.selects_of_selection hselection'
  have hcheck : (ofPasses d' config required' selection'.passes).checkBindings selection'.passes =
      (ofPasses d config required selection.passes).checkBindings selection.passes := by
    have hsame := h.renamed.checkBindings_eq fun p hp => hp
    rwa [← h.renamed.passes_eq] at hsame
  rw [compile_of_selection hselection, compile_of_selection hselection', hcheck]
  cases hbindings : (ofPasses d config required selection.passes).checkBindings
      selection.passes with
  | error e => exact .failed
  | ok =>
      rw [hbindings] at hcheck
      have hw := hselects.wellFormed hbindings
      have hw' := hselects'.wellFormed hcheck
      exact h.renamed.outcome hw (h.renamed.startLedger hw hw' hstarts)

namespace Workload

variable {ρ : Renaming} {d d' : Description} {config : Config} {required : List Nat}
  {selected : List Pass}

theorem meetingOrder_map (ρ : Renaming) (required : List Nat) (selected : List Pass) :
    meetingOrder (required.map ρ.buffer) (selected.map ρ.pass) =
      (meetingOrder required selected).map ρ.buffer := by
  unfold meetingOrder
  rw [List.map_append, List.flatMap_map, List.map_flatMap]
  simp only [Renaming.reads_pass, Renaming.writes_pass, List.map_append]

/-- Classes are met in the same order when the required buffers are listed in the
same order. -/
theorem slots_ofPasses_map (hbuffers : ∀ b, d'.buffers[ρ.buffer b]? = d.buffers[b]?) :
    (ofPasses d' config (required.map ρ.buffer) (selected.map ρ.pass)).slots =
      (ofPasses d config required selected).slots := by
  unfold ofPasses
  dsimp only
  rw [eraseDups_map ρ.buffer.injective, meetingOrder_map, List.filterMap_map]
  simp only [Function.comp_def, List.getElem?_map, hbuffers]

theorem PartsRenamed.of_order (hρ : ρ.KeepsSlots)
    (hbuffers : ∀ b, d'.buffers[ρ.buffer b]? = d.buffers[b]?)
    (hvalid : ∀ p ∈ selected, p.Valid d.buffers.length)
    (hindex : ∀ p ∈ selected, ∀ q ∈ selected,
      ρ.index p.index = ρ.index q.index → p.index = q.index) :
    PartsRenamed ρ d d' config required (required.map ρ.buffer) selected
      (selected.map ρ.pass) where
  buffers := hbuffers
  required_iff := fun b => List.mem_map_of_injective ρ.buffer.injective
  selected_eq := rfl
  valid := hvalid
  index_injective := hindex
  ids := by
    intro c
    rw [slots_ofPasses_map hbuffers, hρ.classId_eq]
  classes := by
    intro id
    rw [slots_ofPasses_map hbuffers, hρ.classId_eq]

end Workload

/-- Compilations have the same outcome when the required buffers are listed in the
same order. -/
theorem sameOutcome_of_order {ρ : Renaming} {d d' : Description} {required : List Nat}
    {selection selection' : Selection} (hρ : ρ.KeepsSlots)
    (hbuffers : ∀ b, d'.buffers[ρ.buffer b]? = d.buffers[b]?)
    (hselection : d.selection required = .ok selection)
    (hselection' : d'.selection (required.map ρ.buffer) = .ok selection')
    (hselected : selection'.passes = selection.passes.map ρ.pass)
    (hindex : ∀ p ∈ selection.passes, ∀ q ∈ selection.passes,
      ρ.index p.index = ρ.index q.index → p.index = q.index) (config : Config) :
    SameOutcome ρ (compile d required config) (compile d' (required.map ρ.buffer) config) := by
  obtain ⟨passes, hselects⟩ := Description.selects_of_selection hselection
  have hvalid : ∀ p ∈ selection.passes, p.Valid d.buffers.length := fun p hp =>
    Description.valid_of_mem hselects.accepted (hselects.mem_passes hp)
  have hparts : Workload.PartsRenamed ρ d d' config required (required.map ρ.buffer)
      selection.passes selection'.passes := by
    rw [hselected]
    exact .of_order hρ hbuffers hvalid hindex
  apply hparts.sameOutcome hselection hselection'
  have hlt : ∀ b ∈ required.eraseDups, b < d.buffers.length := fun b hb =>
    hselects.in_range b (List.mem_eraseDups.mp hb)
  constructor
  · exact hparts.lt_iff
  · exact hparts.required_perm
  · exact hparts.classes
  · intro b hb
    have hrequired : (Workload.ofPasses d' config (required.map ρ.buffer)
        selection'.passes).required = required.eraseDups.map ρ.buffer :=
      eraseDups_map ρ.buffer.injective required
    rw [hrequired, hparts.renamed.slotInTurn_map hlt hb]
    unfold Renaming.allocation
    rw [hρ.slot_eq]
    rfl
  · exact fun id k _ => hρ.slot_eq id k

end FrameGraph
