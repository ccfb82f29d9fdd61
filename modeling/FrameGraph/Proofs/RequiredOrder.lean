import FrameGraph.Proofs.PortResolution
import FrameGraph.Proofs.Realizability
import FrameGraph.Proofs.RenamedDeclarations

/-!
# The order of the required buffers

The required buffers are a set: in which order they are listed, and how often,
does not matter for what a frame does. It does matter for the numbers of classes
and slots, since classes are numbered as they are met and required buffers get
the first slots of their classes. Two lists of the same buffers give the same
classes in two orders and the same slots in two orders, and `relisting` takes the
one order to the other.
-/
namespace FrameGraph

section
variable {α : Type} [DecidableEq α] {xs ys : List α}

/-- The place in the second list of what stands at a place of the first. -/
def relocate (xs ys : List α) (k : Nat) : Nat :=
  match xs[k]? with
  | some x => ys.idxOf x
  | none => k

theorem relocate_of_le {k : Nat} (hk : xs.length ≤ k) : relocate xs ys k = k := by
  unfold relocate
  rw [List.getElem?_eq_none hk]

theorem relocate_of_getElem? {k : Nat} {x : α} (hk : xs[k]? = some x) :
    relocate xs ys k = ys.idxOf x := by
  unfold relocate
  rw [hk]

theorem relocate_relocate (h : xs.Perm ys) (hnodup : xs.Nodup) (k : Nat) :
    relocate ys xs (relocate xs ys k) = k := by
  by_cases hk : k < xs.length
  · have hx := List.getElem?_eq_getElem hk
    have hmem : xs[k] ∈ ys := h.subset (List.getElem_mem hk)
    rw [relocate_of_getElem? hx, relocate_of_getElem? (List.getElem?_idxOf hmem),
      hnodup.idxOf_getElem]
  · rw [relocate_of_le (Nat.not_lt.mp hk), relocate_of_le (h.length_eq ▸ Nat.not_lt.mp hk)]

/-- The places of one order of a list taken to those of another. Lists that are
not orders of each other are left alone. -/
def relocation (xs ys : List α) : Equiv.Perm Nat :=
  if h : xs.Perm ys ∧ xs.Nodup then
    ⟨relocate xs ys, relocate ys xs, relocate_relocate h.1 h.2,
      relocate_relocate h.1.symm (h.1.nodup_iff.mp h.2)⟩
  else .refl Nat

theorem relocation_apply (h : xs.Perm ys) (hnodup : xs.Nodup) (k : Nat) :
    relocation xs ys k = relocate xs ys k := by
  unfold relocation
  rw [dif_pos ⟨h, hnodup⟩]
  rfl

theorem relocation_of_le (h : xs.Perm ys) (hnodup : xs.Nodup) {k : Nat} (hk : xs.length ≤ k) :
    relocation xs ys k = k := by
  rw [relocation_apply h hnodup, relocate_of_le hk]

theorem relocation_idxOf (h : xs.Perm ys) (hnodup : xs.Nodup) (x : α) :
    relocation xs ys (xs.idxOf x) = ys.idxOf x := by
  rw [relocation_apply h hnodup]
  by_cases hx : x ∈ xs
  · exact relocate_of_getElem? (List.getElem?_idxOf hx)
  · rw [List.idxOf_of_notMem hx, List.idxOf_of_notMem (mt h.mem_iff.mpr hx), ← h.length_eq]
    exact relocate_of_le (Nat.le_refl _)

theorem getElem?_relocation (h : xs.Perm ys) (hnodup : xs.Nodup) (k : Nat) :
    ys[relocation xs ys k]? = xs[k]? := by
  by_cases hk : k < xs.length
  · have hx := List.getElem?_eq_getElem hk
    rw [relocation_apply h hnodup, relocate_of_getElem? hx, hx]
    exact List.getElem?_idxOf (h.subset (List.getElem_mem hk))
  · have hle := Nat.not_lt.mp hk
    rw [relocation_of_le h hnodup hle, List.getElem?_eq_none hle,
      List.getElem?_eq_none (h.length_eq ▸ hle)]

end

/-- Buffers and passes keep their numbers. -/
structure Renaming.OnlySlots (ρ : Renaming) : Prop where
  buffer_eq : ∀ b, ρ.buffer b = b
  index_eq : ∀ i, ρ.index i = i

/-- All numbers are kept. -/
def Renaming.refl : Renaming := ⟨.refl Nat, id, .refl Nat, fun _ => .refl Nat⟩

theorem Renaming.onlySlots_refl : Renaming.refl.OnlySlots := ⟨fun _ => rfl, fun _ => rfl⟩

theorem Renaming.OnlySlots.pass_eq {ρ : Renaming} (h : ρ.OnlySlots) (p : Pass) : ρ.pass p = p := by
  rw [ρ.pass_of_buffer_eq h.buffer_eq, h.index_eq]

namespace Workload

/-- The classes and the slots in turn of one workload taken to those of another. -/
def relisting (w w' : Workload) : Renaming where
  buffer := .refl Nat
  index := id
  classId := relocation w.slots.classes w'.slots.classes
  slot id := relocation (w.ofClass w.required id)
    (w'.ofClass w'.required (relocation w.slots.classes w'.slots.classes id))

theorem onlySlots_relisting (w w' : Workload) : (relisting w w').OnlySlots :=
  ⟨fun _ => rfl, fun _ => rfl⟩

variable {d : Description} {config : Config} {r₁ r₂ : List Nat} {selected : List Pass}

/-- The same classes are met, in some order. -/
theorem classes_perm (h : ∀ b, b ∈ r₁ ↔ b ∈ r₂) :
    (ofPasses d config r₁ selected).slots.classes.Perm
      (ofPasses d config r₂ selected).slots.classes := by
  rw [List.perm_ext_iff_of_nodup nodup_classes_ofPasses nodup_classes_ofPasses]
  intro c
  simp only [mem_classes_ofPasses, mem_meetingOrder, h]

theorem partsRenamed_relisting (h : ∀ b, b ∈ r₁ ↔ b ∈ r₂)
    (hvalid : ∀ p ∈ selected, p.Valid d.buffers.length) :
    PartsRenamed (relisting (ofPasses d config r₁ selected) (ofPasses d config r₂ selected))
      d d config r₁ r₂ selected selected where
  buffers := fun _ => rfl
  required_iff := fun b => (h b).symm
  selected_eq := by
    simp only [funext (onlySlots_relisting _ _).pass_eq]
    exact (List.map_id _).symm
  valid := hvalid
  index_injective := fun _ _ _ _ hindex => hindex
  ids := fun c => (relocation_idxOf (classes_perm h) nodup_classes_ofPasses c).symm
  classes := getElem?_relocation (classes_perm h) nodup_classes_ofPasses

/-- The required buffers of a class are the same, in some order. -/
theorem ofClass_relisting (h : ∀ b, b ∈ r₁ ↔ b ∈ r₂) (hrange : d.InRange r₁)
    (hvalid : ∀ p ∈ selected, p.Valid d.buffers.length) (id : Nat) :
    ((ofPasses d config r₁ selected).ofClass (ofPasses d config r₁ selected).required id).Perm
      ((ofPasses d config r₂ selected).ofClass (ofPasses d config r₂ selected).required
        (relocation (ofPasses d config r₁ selected).slots.classes
          (ofPasses d config r₂ selected).slots.classes id)) := by
  have hparts : PartsRenamed _ d d config r₁ r₂ selected selected :=
    partsRenamed_relisting h hvalid
  have hlt : ∀ b ∈ (ofPasses d config r₁ selected).required, b < d.buffers.length := fun b hb =>
    hrange b ((mem_required_ofPasses ..).mp hb)
  have hperm := hparts.renamed.ofClass_perm hlt hparts.required_perm id
  have hkept : ∀ bs : List Nat, bs.map (relisting (ofPasses d config r₁ selected)
      (ofPasses d config r₂ selected)).buffer = bs := fun bs => List.map_id bs
  rw [hkept] at hperm
  exact hperm.symm

theorem startsRenamed_relisting (h : ∀ b, b ∈ r₁ ↔ b ∈ r₂) (hrange : d.InRange r₁)
    (hvalid : ∀ p ∈ selected, p.Valid d.buffers.length) :
    StartsRenamed (relisting (ofPasses d config r₁ selected) (ofPasses d config r₂ selected))
      (ofPasses d config r₁ selected) (ofPasses d config r₂ selected) := by
  have hparts : PartsRenamed _ d d config r₁ r₂ selected selected :=
    partsRenamed_relisting h hvalid
  have hnodup : ∀ id, ((ofPasses d config r₁ selected).ofClass
      (ofPasses d config r₁ selected).required id).Nodup := fun id =>
    (nodup_eraseDups r₁).filter _
  constructor
  · exact fun _ => Iff.rfl
  · exact hparts.required_perm
  · exact hparts.classes
  · intro b hb
    have hclass := hparts.renamed.classId_eq b (hrange b ((mem_required_ofPasses ..).mp hb))
    have hbuffer : (relisting (ofPasses d config r₁ selected)
      (ofPasses d config r₂ selected)).buffer b = b := rfl
    rw [hbuffer] at hclass ⊢
    unfold slotInTurn Renaming.allocation
    rw [hclass]
    exact congrArg (Allocation.mk _)
      (relocation_idxOf (ofClass_relisting h hrange hvalid _) (hnodup _) b).symm
  · intro id k hk
    exact relocation_of_le (ofClass_relisting h hrange hvalid id) (hnodup id) hk

end Workload

/-- The same passes are selected, or both selections fail with the same error. -/
theorem Description.selection_congr {d : Description} {r₁ r₂ : List Nat} (hrange : d.InRange r₁)
    (h : ∀ b, b ∈ r₁ ↔ b ∈ r₂) :
    (∃ e, d.selection r₁ = .error e ∧ d.selection r₂ = .error e) ∨
      ∃ σ₁ σ₂, d.selection r₁ = .ok σ₁ ∧ d.selection r₂ = .ok σ₂ ∧ σ₂.passes = σ₁.passes := by
  have hhandles : d.checkHandles r₁ = .ok () := checkHandles_eq_ok.mpr hrange
  have hhandles' : d.checkHandles r₂ = .ok () :=
    checkHandles_eq_ok.mpr fun b hb => hrange b ((h b).mpr hb)
  cases hpasses : d.passes with
  | error e =>
      unfold selection
      rw [hhandles, hhandles', hpasses]
      exact .inl ⟨e, rfl, rfl⟩
  | ok passes =>
      have hpass : Renaming.refl.pass = id := funext Renaming.onlySlots_refl.pass_eq
      have hcovers : d.Covers .refl d r₁ r₂ passes passes := {
        buffers := fun _ => rfl
        fixed := fun _ _ => rfl
        accepted := hpasses
        accepted_renamed := by rw [hpass, List.map_id, hpasses]
        sublist := .refl passes
        reachable := fun _ hp _ => hp
        required_iff := fun b => (h b).symm }
      rcases hcovers.selections (hhandles'.trans hhandles.symm) with
        ⟨e, e', he, he', hsame⟩ | ⟨σ₁, σ₂, hσ₁, hσ₂, hselected, -⟩
      · have heq : e' = e := by
          cases hsame with
          | failed => rfl
          | unrealizable _ hequal => rw [hequal fun _ => rfl]
        rw [heq] at he'
        exact .inl ⟨e, he, he'⟩
      · rw [hpass, List.map_id] at hselected
        exact .inr ⟨σ₁, σ₂, hσ₁, hσ₂, hselected⟩

/-- The second schedule is the first one with other numbers for its classes and
for the slots of every class. -/
structure Schedule.Relabelled (ρ : Renaming) (s s' : Schedule) : Prop where
  operations : s'.phases.map (·.operation) = s.phases.map (·.operation)
  phases : s'.phases = s.phases.map ρ.phase
  peaks : s'.peaks.Perm s.peaks
  classes : ∀ id, s'.class? (ρ.classId id) = s.class? id
  slots : ∀ id e, s.peaks[id]? = some e → ∀ k, ρ.slot id k < e.2 ↔ k < e.2
  allocations : ∀ b, s'.allocation b = (s.allocation b).map ρ.allocation
  resolution : s'.resolution = s.resolution

theorem Schedule.Renamed.relabelled {ρ : Renaming} {s s' : Schedule} (h : s.Renamed ρ s')
    (hρ : ρ.OnlySlots) (hpeaks : s.peaks.Nodup) (hpeaks' : s'.peaks.Nodup) :
    s.Relabelled ρ s' where
  operations := by
    rw [h.phases_eq, List.map_map]
    exact List.map_congr_left fun p _ => hρ.index_eq p.operation
  phases := h.phases_eq
  peaks := by
    rw [List.perm_ext_iff_of_nodup hpeaks' hpeaks]
    intro e
    rw [List.mem_iff_getElem?, List.mem_iff_getElem?, ρ.classId.surjective.exists]
    simp only [h.peaks _, Option.map_id']
  classes := by
    intro id
    unfold class?
    rw [h.peaks id, Option.map_id']
  slots := fun id e he => lt_iff_of_fixed (h.fixed id e he)
  allocations := by
    intro b
    have hentry := h.allocations b
    rw [hρ.buffer_eq] at hentry
    unfold allocation
    rw [hentry]
    cases s.allocations[b]? <;> rfl
  resolution := h.resolution_eq

/-- Once the same passes are selected, the outcome is the same but for the numbers of
classes and slots. -/
theorem sameOutcome_of_required {d : Description} {r₁ r₂ : List Nat} {σ₁ σ₂ : Selection}
    (hrange : d.InRange r₁) (hsame : ∀ b, b ∈ r₁ ↔ b ∈ r₂) (hσ₁ : d.selection r₁ = .ok σ₁)
    (hσ₂ : d.selection r₂ = .ok σ₂) (hpasses : σ₂.passes = σ₁.passes) (config : Config) :
    ∃ ρ, Renaming.OnlySlots ρ ∧ SameOutcome ρ (compile d r₁ config) (compile d r₂ config) := by
  obtain ⟨passes, hselects⟩ := Description.selects_of_selection hσ₁
  have hvalid : ∀ p ∈ σ₁.passes, p.Valid d.buffers.length := fun p hp =>
    Description.valid_of_mem hselects.accepted (hselects.mem_passes hp)
  have hparts : Workload.PartsRenamed (Workload.relisting
      (Workload.ofPasses d config r₁ σ₁.passes) (Workload.ofPasses d config r₂ σ₂.passes))
      d d config r₁ r₂ σ₁.passes σ₂.passes := by
    rw [hpasses]
    exact Workload.partsRenamed_relisting hsame hvalid
  have hstarts : Workload.StartsRenamed (Workload.relisting
      (Workload.ofPasses d config r₁ σ₁.passes) (Workload.ofPasses d config r₂ σ₂.passes))
      (Workload.ofPasses d config r₁ σ₁.passes) (Workload.ofPasses d config r₂ σ₂.passes) := by
    rw [hpasses]
    exact Workload.startsRenamed_relisting hsame hrange hvalid
  exact ⟨_, Workload.onlySlots_relisting _ _, hparts.sameOutcome hσ₁ hσ₂ hstarts⟩

/-- Compilations for two lists of the same required buffers fail with the same
error, or they place the same operations in the same order, with the same classes
and peaks; classes and slots may have other numbers. -/
theorem required_order_of_compile {d : Description} {r₁ r₂ : List Nat} (hrange : d.InRange r₁)
    (hsame : ∀ b, b ∈ r₁ ↔ b ∈ r₂) (config : Config) :
    (∃ e, compile d r₁ config = .error e ∧ compile d r₂ config = .error e) ∨
      ∃ s₁ s₂ ρ, compile d r₁ config = .ok s₁ ∧ compile d r₂ config = .ok s₂ ∧
        Renaming.OnlySlots ρ ∧ s₁.Relabelled ρ s₂ := by
  rcases Description.selection_congr hrange hsame with
    ⟨e, herror₁, herror₂⟩ | ⟨σ₁, σ₂, hσ₁, hσ₂, hpasses⟩
  · left
    use e
    rw [compile, compile, herror₁, herror₂]
    exact ⟨rfl, rfl⟩
  · obtain ⟨ρ, hρ, houtcome⟩ := sameOutcome_of_required hrange hsame hσ₁ hσ₂ hpasses config
    generalize hresult₁ : compile d r₁ config = result₁ at houtcome
    generalize hresult₂ : compile d r₂ config = result₂ at houtcome
    cases houtcome with
    | failed => exact .inl ⟨_, rfl, rfl⟩
    | unrealizable _ hequal =>
        rw [hequal hρ.buffer_eq]
        exact .inl ⟨_, rfl, rfl⟩
    | scheduled hrenamed =>
        obtain ⟨_, _, _, hs₁⟩ := compilation_of_compile hresult₁
        obtain ⟨_, _, _, hs₂⟩ := compilation_of_compile hresult₂
        refine .inr ⟨_, _, ρ, rfl, rfl, hρ, hrenamed.relabelled hρ ?_ ?_⟩
        · exact hs₁.peaks_nodup.of_map
        · exact hs₂.peaks_nodup.of_map

/-- The picture and its source are both required, and exchange their slots. -/
theorem required_order_tintInPlace :
    tintInPlace.InRange [0, 1] ∧ (∀ b, b ∈ [0, 1] ↔ b ∈ [1, 0, 0]) ∧
      ∃ s₁ s₂ ρ, compile tintInPlace [0, 1] {} = .ok s₁ ∧
        compile tintInPlace [1, 0, 0] {} = .ok s₂ ∧ Renaming.OnlySlots ρ ∧
        s₁.Relabelled ρ s₂ := by
  have hrange : tintInPlace.InRange [0, 1] := Description.checkHandles_eq_ok.mp rfl
  have hsame : ∀ b, b ∈ [0, 1] ↔ b ∈ [1, 0, 0] := by
    intro b
    simp only [List.mem_cons, List.not_mem_nil, or_false]
    omega
  refine ⟨hrange, hsame, (required_order_of_compile hrange hsame {}).resolve_left ?_⟩
  intro hfails
  obtain ⟨e, herror, -⟩ := hfails
  cases herror

end FrameGraph
