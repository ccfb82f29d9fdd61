import FrameGraph.Proofs.RenamedCompilation

/-!
# Declarations under a renaming

The checks of a description read the numbers of buffers only to look them up and
to compare them. So they accept a renamed operation as the renamed pass, and they
find the same defect in it, as long as numbers outside of the table are kept:
such a number is itself part of the error.

`Description.Covers` compares the passes of two descriptions. Nothing of the
first description may be missing in the second that the required buffers depend
on, and what else is in the first does not matter.
-/
namespace FrameGraph

namespace Renaming

variable (ρ : Renaming)

def declaredPort (q : Port) : Port := ⟨q.name, q.buffer?.map ρ.buffer⟩

def operation (op : Operation) : Operation :=
  { op with
    inputs := op.inputs.map ρ.declaredPort
    outputs := op.outputs.map ρ.declaredPort }

theorem operation_eq (h : ∀ b, ρ.buffer b = b) (op : Operation) : ρ.operation op = op := by
  have hbuffer : (ρ.buffer : Nat → Nat) = id := funext h
  have hport : ρ.declaredPort = id := by
    funext q
    rw [declaredPort, hbuffer, Option.map_id, id, id]
  rw [operation, hport, List.map_id, List.map_id]

end Renaming

namespace Operation

variable {ρ : Renaming}

theorem firstDuplicate_map (seen : List String) (ports : List Port) :
    firstDuplicate seen (ports.map ρ.declaredPort) = firstDuplicate seen ports := by
  induction ports generalizing seen with
  | nil => rfl
  | cons p ports ih =>
      simp only [List.map_cons, firstDuplicate, Renaming.declaredPort]
      rw [← ih]

theorem checkNames_map (op : Operation) (side : Side) (ports : List Port) :
    (ρ.operation op).checkNames side (ports.map ρ.declaredPort) = op.checkNames side ports := by
  unfold checkNames
  rw [firstDuplicate_map]
  rfl

theorem presentFrom_map {tableSize : Nat} (hfixed : ∀ b, tableSize ≤ b → ρ.buffer b = b)
    (op : Operation) (side : Side) (seen : List Nat) (place : Nat) (ports : List Port) :
    (ρ.operation op).presentFrom side tableSize (seen.map ρ.buffer) place
        (ports.map ρ.declaredPort) =
      List.map ρ.port <$> op.presentFrom side tableSize seen place ports := by
  induction ports generalizing seen place with
  | nil => rfl
  | cons p ports ih =>
      cases hp : p.buffer? with
      | none =>
          simp only [List.map_cons, presentFrom, Renaming.declaredPort, hp, Option.map_none]
          exact ih seen (place + 1)
      | some b =>
          have hin : tableSize ≤ ρ.buffer b ↔ tableSize ≤ b := by
            rw [← Nat.not_lt, ← Nat.not_lt, lt_iff_of_fixed hfixed]
          have htail := ih (b :: seen) (place + 1)
          simp only [List.map_cons, presentFrom, Renaming.declaredPort, hp, Option.map_some, hin,
            ρ.contains_map]
          split_ifs with hout hrepeated
          · rw [hfixed b hout]
            rfl
          · rfl
          · rw [List.map_cons] at htail
            rw [htail]
            simp only [map_bind, bind_map_left, map_pure, List.map_cons]
            rfl

theorem checkOptional_map (op : Operation) : (ρ.operation op).checkOptional = op.checkOptional := by
  unfold checkOptional Renaming.operation
  simp only [List.any_map, Function.comp_def]
  rfl

theorem bindingPosition_map (op : Operation) (ports : List Port) (present : List PresentPort)
    (name : String) :
    (ρ.operation op).bindingPosition (ports.map ρ.declaredPort) (present.map ρ.port) name =
      op.bindingPosition ports present name := by
  unfold bindingPosition
  rw [List.findIdx?_map]
  simp only [List.findIdx?_map]
  rfl

theorem bindingsFrom_map (op : Operation) (inputs outputs : List PresentPort)
    (done : List (Nat × Nat)) (names : List (String × String)) :
    (ρ.operation op).bindingsFrom (inputs.map ρ.port) (outputs.map ρ.port) done names =
      op.bindingsFrom inputs outputs done names := by
  induction names generalizing done with
  | nil => rfl
  | cons n names ih =>
      have hinput := bindingPosition_map (ρ := ρ) op op.inputs inputs n.1
      have houtput := bindingPosition_map (ρ := ρ) op op.outputs outputs n.2
      unfold bindingsFrom
      dsimp only [Renaming.operation] at *
      rw [hinput, houtput]
      simp only [ih]

theorem markOptional_map (op : Operation) (q : PresentPort) :
    (ρ.operation op).markOptional (ρ.port q) = ρ.output (op.markOptional q) := by
  unfold markOptional Renaming.operation Renaming.port Renaming.output
  simp only [List.getElem?_map, Option.map_map]
  rfl

end Operation

/-- The second table holds the buffers of the first one at their new places. -/
structure Description.TableRenamed (ρ : Renaming) (d d' : Description) : Prop where
  buffers : ∀ b, d'.buffers[ρ.buffer b]? = d.buffers[b]?
  fixed : ∀ b, d.buffers.length ≤ b → ρ.buffer b = b

namespace Description.TableRenamed

variable {ρ : Renaming} {d d' : Description}

theorem length_eq (h : d.TableRenamed ρ d') : d'.buffers.length = d.buffers.length := by
  apply Nat.le_antisymm
  · have hend := h.buffers d.buffers.length
    rw [h.fixed _ (Nat.le_refl _), List.getElem?_eq_none (Nat.le_refl _)] at hend
    exact List.getElem?_eq_none_iff.mp hend
  · obtain ⟨b, hb⟩ := ρ.buffer.surjective d'.buffers.length
    have hend := h.buffers b
    rw [hb, List.getElem?_eq_none (Nat.le_refl _)] at hend
    have hout := List.getElem?_eq_none_iff.mp hend.symm
    rw [h.fixed b hout] at hb
    omega

theorem bufferName_eq (h : d.TableRenamed ρ d') (b : Nat) :
    d'.bufferName (ρ.buffer b) = d.bufferName b := by
  unfold bufferName
  rw [h.buffers]

theorem checkHandles_map (h : d.TableRenamed ρ d') (bs : List Nat) :
    d'.checkHandles (bs.map ρ.buffer) = d.checkHandles bs := by
  induction bs with
  | nil => rfl
  | cons b bs ih =>
      have hin : ρ.buffer b < d.buffers.length ↔ b < d.buffers.length :=
        lt_iff_of_fixed h.fixed b
      simp only [List.map_cons, checkHandles, h.length_eq, hin, ih]
      split_ifs with hb
      · rfl
      · rw [h.fixed b (Nat.not_lt.mp hb)]

theorem checkDisjoint_map (h : d.TableRenamed ρ d') (op : Operation)
    (inputs outputs : List PresentPort) :
    (ρ.operation op).checkDisjoint d' (inputs.map ρ.port) (outputs.map ρ.port) =
      op.checkDisjoint d inputs outputs := by
  unfold Operation.checkDisjoint
  rw [List.find?_map]
  simp only [Function.comp_def, List.any_map, Renaming.buffer_port, Renaming.buffer_beq]
  cases inputs.find? fun i => outputs.any fun o => o.buffer == i.buffer with
  | none => rfl
  | some shared =>
      simp only [Option.map_some, Renaming.buffer_port, h.bufferName_eq]
      rfl

/-- A renamed operation is accepted as the renamed pass. -/
theorem toPass_map (h : d.TableRenamed ρ d') (op : Operation) (i : Nat) :
    (ρ.operation op).toPass d' (ρ.index i) = ρ.pass <$> op.toPass d i := by
  have hpresent : ∀ side ports, (ρ.operation op).presentFrom side d.buffers.length [] 0
      (ports.map ρ.declaredPort) =
        List.map ρ.port <$> op.presentFrom side d.buffers.length [] 0 ports := fun side ports =>
    Operation.presentFrom_map h.fixed op side [] 0 ports
  have hinputs : (ρ.operation op).inputs = op.inputs.map ρ.declaredPort := rfl
  have houtputs : (ρ.operation op).outputs = op.outputs.map ρ.declaredPort := rfl
  have hbindings : (ρ.operation op).bindings = op.bindings := rfl
  unfold Operation.toPass
  rw [h.length_eq, hinputs, houtputs, hbindings]
  simp only [Operation.checkNames_map, hpresent, bind_map_left, map_bind, h.checkDisjoint_map,
    Operation.checkOptional_map, Operation.bindingsFrom_map, map_pure]
  simp only [Renaming.pass, List.map_map, Function.comp_def, Operation.markOptional_map]
  rfl

theorem checkFresh_map (h : d.TableRenamed ρ d') (p : Pass) (done : List Pass) (bs : List Nat) :
    (ρ.pass p).checkFresh d' (done.map ρ.pass) (bs.map ρ.buffer) = p.checkFresh d done bs := by
  induction bs with
  | nil => rfl
  | cons b bs ih =>
      have hproducer : producer? (done.map ρ.pass) (ρ.buffer b) =
          (producer? done b).map ρ.pass := by
        unfold producer?
        rw [List.find?_map]
        simp only [Function.comp_def, Renaming.writes_pass, Renaming.contains_map]
      simp only [List.map_cons, Pass.checkFresh, hproducer, ih, h.bufferName_eq]
      cases producer? done b <;> rfl

end Description.TableRenamed

namespace Description

/-- The passes of the second description are passes of the first one, renamed.
All that the required buffers depend on are among them. -/
structure Covers (ρ : Renaming) (d d' : Description) (required required' : List Nat)
    (passes kept : List Pass) : Prop extends d.TableRenamed ρ d' where
  accepted : d.passes = .ok passes
  accepted_renamed : d'.passes = .ok (kept.map ρ.pass)
  sublist : kept.Sublist passes
  reachable : ∀ p ∈ passes, d.Reachable required p.index → p ∈ kept
  required_iff : ∀ b, ρ.buffer b ∈ required' ↔ b ∈ required

namespace Covers

variable {ρ : Renaming} {d d' : Description} {required required' : List Nat}
  {passes kept : List Pass} {p : Pass} {b c : Nat}
  (h : d.Covers ρ d' required required' passes kept)
include h

theorem writes_iff (hp : p ∈ kept) : d'.Writes (ρ.index p.index) (ρ.buffer b) ↔ b ∈ p.writes := by
  rw [← List.mem_map_of_injective ρ.buffer.injective, ← ρ.writes_pass]
  exact Description.writes_iff h.accepted_renamed (List.mem_map_of_mem hp) _

theorem reads_iff (hp : p ∈ kept) : d'.Reads (ρ.index p.index) (ρ.buffer b) ↔ b ∈ p.reads := by
  rw [← List.mem_map_of_injective ρ.buffer.injective, ← ρ.reads_pass]
  exact Description.reads_iff h.accepted_renamed (List.mem_map_of_mem hp) _

/-- Who writes a buffer in the second description. -/
theorem exists_kept {j : Nat} (hwrites : d'.Writes j (ρ.buffer b)) :
    ∃ p ∈ kept, ρ.index p.index = j ∧ b ∈ p.writes := by
  obtain ⟨q, hq, rfl, hbq⟩ := exists_pass_of_writes h.accepted_renamed hwrites
  obtain ⟨p, hp, rfl⟩ := List.mem_map.mp hq
  rw [ρ.writes_pass, List.mem_map_of_injective ρ.buffer.injective] at hbq
  exact ⟨p, hp, rfl, hbq⟩

theorem wanted_map (hb : d.Wanted required b) : d'.Wanted required' (ρ.buffer b) := by
  refine Wanted.map ρ.buffer (fun c hc => (h.required_iff c).mpr hc) ?_ hb
  intro b i c hwanted hwrites hreads
  obtain ⟨p, hp, rfl, hbp⟩ := exists_pass_of_writes h.accepted hwrites
  have hkept : p ∈ kept := h.reachable p hp ⟨b, hwanted, hwrites⟩
  have hcp : c ∈ p.reads := (Description.reads_iff h.accepted hp c).mp hreads
  exact ⟨ρ.index p.index, (h.writes_iff hkept).mpr hbp, (h.reads_iff hkept).mpr hcp⟩

theorem wanted_of_map (hc : d'.Wanted required' c) : d.Wanted required (ρ.buffer.symm c) := by
  refine Wanted.map ρ.buffer.symm ?_ ?_ hc
  · intro c hc
    obtain ⟨b, rfl⟩ := ρ.buffer.surjective c
    rw [ρ.buffer.symm_apply_apply]
    exact (h.required_iff b).mp hc
  · intro c j c' _ hwrites hreads
    obtain ⟨b, rfl⟩ := ρ.buffer.surjective c
    obtain ⟨b', rfl⟩ := ρ.buffer.surjective c'
    obtain ⟨p, hp, rfl, hbp⟩ := h.exists_kept hwrites
    have hpass := h.sublist.subset hp
    rw [ρ.buffer.symm_apply_apply, ρ.buffer.symm_apply_apply]
    exact ⟨p.index, (Description.writes_iff h.accepted hpass b).mpr hbp,
      (Description.reads_iff h.accepted hpass b').mpr ((h.reads_iff hp).mp hreads)⟩

theorem wanted_iff :
    d'.Wanted required' (ρ.buffer b) ↔ d.Wanted required b := by
  constructor
  · intro hb
    have hwanted := h.wanted_of_map hb
    rwa [ρ.buffer.symm_apply_apply] at hwanted
  · exact h.wanted_map

/-- A wanted buffer has a producer in both descriptions or in neither. -/
theorem writer_iff (hb : d.Wanted required b) :
    (∃ j, d'.Writes j (ρ.buffer b)) ↔ ∃ i, d.Writes i b := by
  constructor
  · intro hwriter
    obtain ⟨j, hwrites⟩ := hwriter
    obtain ⟨p, hp, rfl, hbp⟩ := h.exists_kept hwrites
    exact ⟨p.index, (Description.writes_iff h.accepted (h.sublist.subset hp) b).mpr hbp⟩
  · intro hwriter
    obtain ⟨i, hwrites⟩ := hwriter
    obtain ⟨p, hp, rfl, hbp⟩ := exists_pass_of_writes h.accepted hwrites
    exact ⟨ρ.index p.index, (h.writes_iff (h.reachable p hp ⟨b, hb, hwrites⟩)).mpr hbp⟩

theorem produced_iff :
    d'.Produced required' ↔ d.Produced required := by
  unfold Produced
  rw [ρ.buffer.surjective.forall]
  constructor
  · intro hproduced b hb
    exact (h.writer_iff hb).mp (hproduced b (h.wanted_iff.mpr hb))
  · intro hproduced b hb
    have hwanted := h.wanted_iff.mp hb
    exact (h.writer_iff hwanted).mpr (hproduced b hwanted)

theorem reachable_iff (hp : p ∈ kept) :
    d'.Reachable required' (ρ.index p.index) ↔ d.Reachable required p.index := by
  unfold Reachable
  rw [ρ.buffer.surjective.exists]
  simp only [h.wanted_iff, h.writes_iff hp,
    Description.writes_iff h.accepted (h.sublist.subset hp)]

theorem index_injective {q : Pass} (hp : p ∈ kept) (hq : q ∈ kept)
    (hpq : ρ.index p.index = ρ.index q.index) : p = q := by
  have hdistinct : kept.Pairwise fun p q => ρ.index p.index ≠ ρ.index q.index :=
    (List.pairwise_map.mp (passes_pairwise h.accepted_renamed)).imp Nat.ne_of_lt
  have hsymm : Std.Symm fun p q : Pass => ρ.index p.index ≠ ρ.index q.index :=
    ⟨fun p q hne => hne.symm⟩
  by_contra hne
  exact hdistinct.forall hp hq hne hpq

/-- The selected passes of the second description are those of the first one,
renamed. -/
theorem selected_eq {selected selected' : List Pass}
    (hselects : d.Selects required passes selected)
    (hselects' : d'.Selects required' (kept.map ρ.pass) selected') :
    selected' = selected.map ρ.pass := by
  have hordered := passes_pairwise h.accepted
  have hfilter : kept.filter (fun p => p ∈ selected) = selected := by
    apply passes_unique ((hordered.sublist h.sublist).filter _)
      (hordered.sublist hselects.sublist)
    intro p
    rw [List.mem_filter, decide_eq_true_iff, and_iff_right_iff_imp]
    exact fun hp => h.reachable p (hselects.mem_passes hp) (hselects.reachable hp)
  have hsublist : selected.Sublist kept := by
    have hkept : (kept.filter fun p => p ∈ selected).Sublist kept := List.filter_sublist
    rwa [hfilter] at hkept
  apply hselects'.unique (hsublist.map ρ.pass)
  intro q hq
  obtain ⟨p, hp, rfl⟩ := List.mem_map.mp hq
  have hmem : ρ.pass p ∈ selected.map ρ.pass ↔ p ∈ selected := by
    constructor
    · intro hmap
      obtain ⟨q, hq, hqp⟩ := List.mem_map.mp hmap
      rwa [← h.index_injective (hsublist.subset hq) hp (congrArg Pass.index hqp)]
    · exact List.mem_map_of_mem
  rw [hmem, hselects.mem_iff p (h.sublist.subset hp)]
  exact (h.reachable_iff hp).symm

/-- What is missing for want of a producer is missing in both. -/
theorem unproduced (hno : ¬d.Produced required) :
    ∃ bs bs', d.select passes required = .error (.unrealizable (d.namesInTable bs) []) ∧
      d'.select (kept.map ρ.pass) required' = .error (.unrealizable (d'.namesInTable bs') []) ∧
      ∀ b, ρ.buffer b ∈ bs' ↔ b ∈ bs := by
  obtain ⟨bs, hbs, hselect⟩ := select_of_not_produced h.accepted hno
  obtain ⟨bs', hbs', hselect'⟩ :=
    select_of_not_produced h.accepted_renamed (mt h.produced_iff.mp hno)
  refine ⟨bs, bs', hselect, hselect', ?_⟩
  intro b
  rw [hbs, hbs', h.wanted_iff, ← not_exists, ← not_exists]
  exact and_congr_right fun hb => not_congr (h.writer_iff hb)

end Covers

/-- The buffers listed by `namesInTable`, in its order. -/
theorem ascending_listed (d : Description) (bs : List Nat) :
    ((List.range d.buffers.length).filter fun b => bs.contains b).Pairwise (· < ·) :=
  List.pairwise_lt_range.filter _

theorem TableRenamed.sameNames {ρ : Renaming} {d d' : Description} (h : d.TableRenamed ρ d')
    {bs bs' : List Nat} (hmem : ∀ b, ρ.buffer b ∈ bs' ↔ b ∈ bs) :
    SameOutcome ρ (.error (.unrealizable (d.namesInTable bs) []))
      (.error (.unrealizable (d'.namesInTable bs') [])) := by
  apply SameOutcome.of_listed [] (d.ascending_listed bs) (d'.ascending_listed bs')
  · intro b
    rw [List.mem_filter, List.mem_filter, List.mem_range, List.mem_range, h.length_eq,
      lt_iff_of_fixed h.fixed, List.contains_iff_mem, List.contains_iff_mem, hmem]
  · exact h.bufferName_eq

/-- The same passes are selected, renamed, or both selections fail in the same way. -/
theorem Covers.selections {ρ : Renaming} {d d' : Description} {required required' : List Nat}
    {passes kept : List Pass} (h : d.Covers ρ d' required required' passes kept)
    (hhandles : d'.checkHandles required' = d.checkHandles required) :
    (∃ e e', d.selection required = .error e ∧ d'.selection required' = .error e' ∧
        SameOutcome ρ (.error e) (.error e')) ∨
      ∃ σ σ', d.selection required = .ok σ ∧ d'.selection required' = .ok σ' ∧
        σ'.passes = σ.passes.map ρ.pass ∧ ∀ p ∈ σ.passes, p ∈ kept := by
  unfold selection
  rw [hhandles, h.accepted, h.accepted_renamed]
  cases hrange : d.checkHandles required with
  | error e => exact .inl ⟨e, e, rfl, rfl, .failed⟩
  | ok =>
      rw [hrange] at hhandles
      by_cases hproduced : d.Produced required
      · obtain ⟨σ, hσ, -⟩ := select_of_produced h.accepted hproduced
        obtain ⟨σ', hσ', -⟩ :=
          select_of_produced h.accepted_renamed (h.produced_iff.mpr hproduced)
        have hselects := selects_of_select h.accepted (checkHandles_eq_ok.mp hrange) hσ
        have hselects' :=
          selects_of_select h.accepted_renamed (checkHandles_eq_ok.mp hhandles) hσ'
        exact .inr ⟨σ, σ', hσ, hσ', h.selected_eq hselects hselects', fun p hp =>
          h.reachable p (hselects.mem_passes hp) (hselects.reachable hp)⟩
      · obtain ⟨bs, bs', hselect, hselect', hmem⟩ := h.unproduced hproduced
        exact .inl ⟨_, _, hselect, hselect', h.sameNames hmem⟩

/-- A compilation depends on the operations only that the required buffers depend
on. -/
theorem Covers.sameOutcome {ρ : Renaming} {d d' : Description} {required required' : List Nat}
    {passes kept : List Pass} (h : d.Covers ρ d' required required' passes kept)
    (hrequired : required' = required.map ρ.buffer) (hρ : ρ.KeepsSlots) (config : Config) :
    SameOutcome ρ (compile d required config) (compile d' required' config) := by
  subst hrequired
  rcases h.selections (h.checkHandles_map required) with
    ⟨e, e', he, he', hsame⟩ | ⟨σ, σ', hσ, hσ', hpasses, hkept⟩
  · unfold compile
    rw [he, he']
    exact hsame
  · apply sameOutcome_of_order hρ h.buffers hσ hσ' hpasses
    intro p hp q hq hpq
    rw [h.index_injective (hkept p hp) (hkept q hq) hpq]

end Description
end FrameGraph
