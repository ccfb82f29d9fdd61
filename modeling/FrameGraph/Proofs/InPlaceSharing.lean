import FrameGraph.Proofs.ExecutionOrder

/-!
# Sharing of slots within a phase

An operation may read and write one slot only where a binding allows it, and a
binding is only applied when nothing but the operation itself needs the input.
The decision is made while the operation is placed, when no consumer of the
input has been placed yet. All later phases have been by then, so this says that
the operation is the last reader.

`Places.shares_iff` settles the matter for one round. `Head.exists_round` finds
the round that placed a given pass; what the ledger said then is what the
schedule says now.
-/
namespace FrameGraph

namespace Workload

variable {w : Workload} {s next : Progress} {p : Pass} {l : Ledger} {b : Nat} {o : PassOutput}

theorem Fits.donor?_iff (h : w.Fits l p) {n : Nat} (hp : p.Valid n) (ho : o ∈ p.outputs)
    (hkept : l.slot? o.buffer ≠ none) :
    Plan.donor? (w.inPlace l p) b = some o.buffer ↔
      (∃ e ∈ p.sharing, e.1.buffer = b ∧ e.2.buffer = o.buffer) ∧ l.demand? b = none := by
  constructor
  · intro hdonor
    obtain ⟨e, he, rfl, heo⟩ := Plan.exists_of_donor? hdonor
    obtain ⟨hsharing, -, hclosed⟩ := mem_inPlace.mp he
    exact ⟨⟨e, hsharing, rfl, heo⟩, hclosed⟩
  · intro hallowed
    rcases hallowed with ⟨⟨e, hsharing, rfl, heo⟩, hclosed⟩
    have heo' : e.2 = o :=
      List.inj_on_of_nodup_map hp.writes_nodup (Pass.mem_outputs_of_sharing hsharing) ho heo
    have hdiscards : w.discards e.2 = false := by
      rw [← Bool.not_eq_true, heo', h.discarded o ho, ← Ledger.slot?_eq_none]
      exact hkept
    rw [← heo]
    exact Plan.donor?_of_mem (inPlace_inputs_nodup hp l)
      (mem_inPlace.mpr ⟨hsharing, hdiscards, hclosed⟩)

namespace Places

theorem slot?_ne_none (h : w.Places s p next) {i : PresentPort} (hi : i ∈ p.inputs) :
    next.ledger.slot? i.buffer ≠ none := by
  obtain ⟨d, hd, -⟩ := h.supplied (List.mem_map_of_mem hi)
  simp [Ledger.slot?, hd]

theorem inputs_apart (hw : w.WellFormed) (hs : w.Sound s) (h : w.Places s p next) :
    (p.inputs.map fun i => next.ledger.slot? i.buffer).Nodup := by
  have hreads := (hw.valid p (hs.mem_of_pending h.pending)).reads_nodup
  refine (List.Nodup.of_map _ hreads).map_on fun i hi j hj hij => ?_
  obtain ⟨x, hx⟩ := Option.ne_none_iff_exists'.mp (h.slot?_ne_none hi)
  exact List.inj_on_of_nodup_map hreads hi hj
    (h.settled.balanced.slot?_injective hx (hij ▸ hx))

theorem outputs_apart (hw : w.WellFormed) (hs : w.Sound s) (h : w.Places s p next) :
    (p.outputs.filterMap fun o => s.ledger.slot? o.buffer).Nodup := by
  have hwrites := (hw.valid p (hs.mem_of_pending h.pending)).writes_nodup
  have hslots : p.outputs.filterMap (fun o => s.ledger.slot? o.buffer) =
      p.writes.filterMap s.ledger.slot? := by
    rw [Pass.writes, List.filterMap_map]
    rfl
  rw [hslots]
  exact hwrites.filterMap fun b c x hb hc => hs.balanced.slot?_injective hb hc

/-- In the round that places a pass, an input gets the slot of an output exactly
if a binding joins the two and the input is not demanded yet. -/
theorem shares_iff (hw : w.WellFormed) (hs : w.Sound s) (h : w.Places s p next)
    (hb : b ∈ p.reads) (ho : o ∈ p.outputs) (hkept : s.ledger.slot? o.buffer ≠ none) :
    next.ledger.slot? b = s.ledger.slot? o.buffer ↔
      (∃ e ∈ p.sharing, e.1.buffer = b ∧ e.2.buffer = o.buffer) ∧ s.ledger.demand? b = none := by
  have hvalid := hw.valid p (hs.mem_of_pending h.pending)
  have hfits := hs.fits hw h.pending h.ready
  obtain ⟨x, hx⟩ := Option.ne_none_iff_exists'.mp hkept
  obtain ⟨d, hd, hsupplied⟩ := h.supplied hb
  have hslot : next.ledger.slot? b = some d.allocation := Ledger.slot?_eq_some.mpr ⟨d, hd, rfl⟩
  rw [← hfits.donor?_iff hvalid ho hkept, hslot, hx, Option.some_inj]
  cases hsupplied with
  | @again e he =>
      -- The input keeps the slot it has, which is not that of another buffer.
      have hne : e.allocation ≠ x := by
        intro heq
        have hbo : b = o.buffer := hs.balanced.slot?_injective
          (Ledger.slot?_eq_some.mpr ⟨e, he, heq⟩) hx
        exact hvalid.disjoint b hb (hbo ▸ List.mem_map_of_mem ho)
      simp [hfits.donor?_iff hvalid ho hkept, he, hne]
  | @donated o' y _ hdonor hy =>
      rw [hdonor, Option.some_inj]
      constructor
      · intro heq
        exact hs.balanced.slot?_injective (heq ▸ hy) hx
      · intro heq
        rw [heq, hx] at hy
        exact (Option.some.inj hy).symm
  | @fresh y _ hdonor hunused =>
      -- A slot that was not in use is not that of the output.
      have hne : y ≠ x := by
        intro heq
        obtain ⟨e, he, hex⟩ := Ledger.slot?_eq_some.mp hx
        exact hunused (heq ▸ (hs.balanced.live x).mpr (.inr ⟨o.buffer, e, he, hex⟩))
      simp [hdonor, hne]

end Places

/-- The round in which a pass was placed, and that its slots have been on record
since. -/
theorem Head.exists_round (hw : w.WellFormed) {last : Progress} (h : w.Head last)
    {before later : List Pass} (horder : last.order = before ++ p :: later) :
    ∃ s next, w.Sound s ∧ w.Places s p next ∧ s.order = later ∧
      p.phase last.ledger.allocation? = p.phase next.ledger.allocation? := by
  refine (h.induction hw (motive := fun last => ∀ before, last.order = before ++ p :: later →
    ∃ s next, w.Sound s ∧ w.Places s p next ∧ s.order = later ∧
      p.phase last.ledger.allocation? = p.phase next.ledger.allocation?) ?_ ?_).2 before horder
  · intro before hstart
    cases before <;> cases hstart
  · intro s q next hs hplaces ih before hnext
    rw [hplaces.order_eq] at hnext
    cases before with
    | nil =>
        obtain ⟨rfl, hlater⟩ := List.cons.inj hnext
        exact ⟨s, next, hs, hplaces, hlater, rfl⟩
    | cons _ before =>
        obtain ⟨t, other, ht, hround, hlater, hphase⟩ := ih before (List.cons.inj hnext).2
        refine ⟨t, other, ht, hround, hlater, ?_⟩
        rw [hplaces.phase_of_order hs (by simp [(List.cons.inj hnext).2]), hphase]

end Workload

namespace Compilation

variable {d : Description} {required : List Nat} {config : Config} {passes selected : List Pass}
  {last : Progress} {s : Schedule} {phase : Phase} {k : Nat}

/-- A buffer that nothing demands when a phase is placed is neither required nor
read by a later phase. -/
theorem undemanded_iff (h : Compilation d required config passes selected last s)
    {before later : List Pass} {p : Pass} (horder : last.order = before ++ p :: later)
    {t : Progress} (ht : (Workload.ofPasses d config required selected).Sound t)
    (hp : p ∈ t.pending) (hlater : t.order = later) {b : Nat} (hb : b ∈ p.reads) :
    t.ledger.demand? b = none ↔ b ∉ required ∧
      ∀ j q, before.length < j → s.phases[j]? = some q → b ∉ q.inputs.map (·.buffer) := by
  have hnone : t.ledger.demand? b = none ↔
      Workload.countConsumers (Workload.ofPasses d config required selected).required
        t.order b = 0 := by
    rw [← Option.not_isSome_iff_eq_none, ht.demanded_of_reads hp hb, not_not]
  have hreads : ∀ q : Pass, (q.phase s.allocation).inputs.map (·.buffer) = q.reads := by
    intro q
    rw [Pass.phase, List.map_map]
    rfl
  rw [hnone, Workload.countConsumers_eq_zero, Workload.mem_required_ofPasses, hlater]
  refine and_congr_right fun _ => ?_
  have hplace : ∀ i, s.phases[before.length + 1 + i]? =
      later[i]?.map (·.phase s.allocation) := by
    intro i
    have hsucc : before.length + 1 + i = before.length + (i + 1) := by omega
    rw [h.phases_eq, horder, List.getElem?_map, hsucc, List.getElem?_append_right (by omega),
      Nat.add_sub_cancel_left, List.getElem?_cons_succ]
  constructor
  · intro hunread j phase hj hphase
    obtain ⟨i, rfl⟩ := Nat.exists_eq_add_of_lt hj
    rw [Nat.add_right_comm, hplace] at hphase
    obtain ⟨q, hq, rfl⟩ := Option.map_eq_some_iff.mp hphase
    rw [hreads]
    exact hunread q (List.mem_of_getElem? hq)
  · intro hunread q hq
    obtain ⟨i, hi⟩ := List.mem_iff_getElem?.mp hq
    rw [← hreads]
    exact hunread (before.length + 1 + i) _ (by omega) (by rw [hplace, hi, Option.map_some])

end Compilation

/-- Within a phase, an input and a kept output have one slot exactly if the
operation binds them, the input is not required and no later phase reads it. No
two inputs have the same slot, and no two outputs. -/
theorem sharing_of_compile {d : Description} {required : List Nat} {config : Config} {s : Schedule}
    (h : compile d required config = .ok s) {k : Nat} {phase : Phase}
    (hphase : s.phases[k]? = some phase) :
    (∀ i ∈ phase.inputs, i.allocation ≠ none) ∧
      (phase.inputs.map (·.allocation)).Nodup ∧
      (phase.outputs.filterMap (·.allocation)).Nodup ∧
      ∃ op, d.operations[phase.operation]? = some op ∧
        ∀ i ∈ phase.inputs, ∀ o ∈ phase.outputs, o.allocation ≠ none →
          (i.allocation = o.allocation ↔ op.Joins i.buffer o.buffer ∧ i.buffer ∉ required ∧
            ∀ j q, k < j → s.phases[j]? = some q → i.buffer ∉ q.inputs.map (·.buffer)) := by
  obtain ⟨passes, selected, last, hcompilation⟩ := compilation_of_compile h
  obtain ⟨p, hp, hmem, rfl⟩ := hcompilation.exists_pass_of_phase hphase
  obtain ⟨before, later, horder, rfl⟩ : ∃ before later,
      last.order = before ++ p :: later ∧ before.length = k := by
    obtain ⟨hk, rfl⟩ := List.getElem?_eq_some_iff.mp hp
    exact ⟨last.order.take k, last.order.drop (k + 1), by simp,
      List.length_take_of_le (Nat.le_of_lt hk)⟩
  have hw := hcompilation.wellFormed
  obtain ⟨t, next, ht, hplaces, hlater, hslots⟩ := hcompilation.head.exists_round hw horder
  obtain ⟨op, hop, -, haccepted⟩ := Description.accepted_of_mem hcompilation.selects.accepted hmem
  have hallocation : s.allocation = last.ledger.allocation? := funext hcompilation.allocation_eq
  rw [hallocation, hslots, hplaces.phase_slots hw ht]
  refine ⟨?_, ?_, ?_, op, hop, ?_⟩
  · exact List.forall_mem_map.mpr fun i hi => hplaces.slot?_ne_none hi
  · rw [List.map_map]
    exact hplaces.inputs_apart hw ht
  · rw [List.filterMap_map]
    exact hplaces.outputs_apart hw ht
  · intro input hinput output houtput hkept
    obtain ⟨i, hi, rfl⟩ := List.mem_map.mp hinput
    obtain ⟨o, ho, rfl⟩ := List.mem_map.mp houtput
    have hread : i.buffer ∈ p.reads := List.mem_map_of_mem hi
    rw [haccepted.joins_iff,
      ← hcompilation.undemanded_iff horder ht hplaces.pending hlater hread]
    exact hplaces.shares_iff hw ht hread ho hkept

theorem sharing_tintInPlace :
    compile tintInPlace [1] {} = .ok tintedSchedule ∧
      ∃ op, tintInPlace.operations[1]? = some op ∧ op.Joins 0 1 ∧ 0 ∉ [1] ∧
        ∀ j q, 1 < j → tintedSchedule.phases[j]? = some q → 0 ∉ q.inputs.map (·.buffer) := by
  have htint : tintedSchedule.phases[1]? =
      some ⟨1, "tint", [⟨0, 0, some ⟨0, 0⟩⟩], [⟨0, 1, some ⟨0, 0⟩⟩]⟩ := rfl
  obtain ⟨-, -, -, op, hop, hshares⟩ := sharing_of_compile compile_tintInPlace htint
  exact ⟨compile_tintInPlace, op, hop,
    (hshares _ List.mem_cons_self _ List.mem_cons_self (by decide)).mp rfl⟩

end FrameGraph
