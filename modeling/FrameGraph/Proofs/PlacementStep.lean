import FrameGraph.Placement
import FrameGraph.Proofs.LedgerBalance

/-!
# One placement

A pass fits a ledger when each of its outputs is discarded or has all its
consumers and none of its inputs has them all yet. Such a pass can be placed
with its own plan: `Workload.place_spec` says that nothing fails on the way and
what becomes of the ledger. The outputs are collected first, then the inputs
are supplied, then the slots nobody took over are given back; there is one
invariant for each of the first two parts.
-/
namespace FrameGraph

/-- A step that keeps an invariant and never fails can be applied to a whole
list. The invariant sees the items done and the results so far. -/
theorem thread_spec {σ α β : Type} {step : σ → α → Except GraphError (σ × β)}
    {I : List α → List β → σ → Prop} {s : σ} {as : List α} (hstart : I [] [] s)
    (hstep : ∀ done a rest bs s, done ++ a :: rest = as → I done bs s →
      ∃ s' b, step s a = .ok (s', b) ∧ I (done ++ [a]) (bs ++ [b]) s') :
    ∃ s' bs, thread step s as = .ok (s', bs) ∧ I as bs s' := by
  have hrest : ∀ rest done bs s, done ++ rest = as → I done bs s →
      ∃ s' new, thread step s rest = .ok (s', new) ∧ I as (bs ++ new) s' := by
    intro rest
    induction rest with
    | nil =>
        intro done bs s hdone hinv
        rw [List.append_nil] at hdone
        subst hdone
        exact ⟨s, [], rfl, by simpa using hinv⟩
    | cons a rest ih =>
        intro done bs s hdone hinv
        obtain ⟨s₁, b, hone, hinv₁⟩ := hstep done a rest bs s hdone hinv
        obtain ⟨s₂, new, hmany, hinv₂⟩ :=
          ih (done ++ [a]) (bs ++ [b]) s₁ (by simpa using hdone) hinv₁
        refine ⟨s₂, b :: new, ?_, by simpa using hinv₂⟩
        exact bind_eq_ok.mpr ⟨_, hone, bind_eq_ok.mpr ⟨_, hmany, rfl⟩⟩
  simpa using hrest as [] [] s rfl hstart

namespace Ledger

/-- The slot that an open demand holds. -/
def slot? (l : Ledger) (b : Nat) : Option Allocation := (l.demand? b).map (·.allocation)

theorem slot?_eq_some {l : Ledger} {b : Nat} {x : Allocation} :
    l.slot? b = some x ↔ ∃ d, l.demand? b = some d ∧ d.allocation = x := Option.map_eq_some_iff

theorem slot?_eq_none {l : Ledger} {b : Nat} : l.slot? b = none ↔ l.demand? b = none :=
  Option.map_eq_none_iff

namespace Balanced

variable {w : Workload} {l : Ledger} {held : Allocation → Prop}

theorem slot?_injective (h : Balanced w l held) {b c : Nat} {x : Allocation}
    (hb : l.slot? b = some x) (hc : l.slot? c = some x) : b = c := by
  obtain ⟨d, hd, rfl⟩ := slot?_eq_some.mp hb
  obtain ⟨e, he, hde⟩ := slot?_eq_some.mp hc
  exact h.injective b c d e hd he hde.symm

theorem allocation?_of_slot? (h : Balanced w l held) {b : Nat} {x : Allocation}
    (hb : l.slot? b = some x) : l.allocation? b = some x := by
  obtain ⟨d, hd, rfl⟩ := slot?_eq_some.mp hb
  exact h.recorded b d hd

end Balanced
end Ledger

namespace Plan

variable {inPlace : List (PresentPort × PassOutput)} {b c o : Nat}

theorem exists_of_donor? (h : donor? inPlace b = some o) :
    ∃ e ∈ inPlace, e.1.buffer = b ∧ e.2.buffer = o := by
  obtain ⟨e, he, rfl⟩ := Option.map_eq_some_iff.mp h
  exact ⟨e, List.mem_of_find?_eq_some he, by simpa using List.find?_some he, rfl⟩

theorem donor?_of_mem (hnodup : (inPlace.map (·.1.buffer)).Nodup) {e : PresentPort × PassOutput}
    (he : e ∈ inPlace) : donor? inPlace e.1.buffer = some e.2.buffer := by
  have hfind := find?_of_nodup_map hnodup he
  rw [donor?, hfind, Option.map_some]

theorem donor?_injective (hnodup : (inPlace.map (·.2.buffer)).Nodup)
    (hb : donor? inPlace b = some o) (hc : donor? inPlace c = some o) : b = c := by
  obtain ⟨e, he, rfl, heo⟩ := exists_of_donor? hb
  obtain ⟨f, hf, rfl, hfo⟩ := exists_of_donor? hc
  rw [List.inj_on_of_nodup_map hnodup he hf (heo.trans hfo.symm)]

theorem donates_iff (hnodup : (inPlace.map (·.1.buffer)).Nodup) :
    donates inPlace o = true ↔ ∃ b, donor? inPlace b = some o := by
  simp only [donates, List.any_eq_true, beq_iff_eq]
  constructor
  · intro hentry
    rcases hentry with ⟨e, he, rfl⟩
    exact ⟨e.1.buffer, donor?_of_mem hnodup he⟩
  · intro hdonor
    rcases hdonor with ⟨b, hb⟩
    obtain ⟨e, he, -, heo⟩ := exists_of_donor? hb
    exact ⟨e, he, heo⟩

end Plan

theorem Pass.Valid.input_new {p : Pass} {n : Nat} (hp : p.Valid n) {done rest : List PresentPort}
    {i : PresentPort} (hdone : done ++ i :: rest = p.inputs) : i.buffer ∉ done.map (·.buffer) := by
  have hnodup := hp.reads_nodup
  rw [Pass.reads, ← hdone] at hnodup
  exact notMem_map_of_nodup hnodup

namespace Workload

variable {w : Workload} {l : Ledger} {p : Pass}

theorem mem_inPlace {e : PresentPort × PassOutput} :
    e ∈ w.inPlace l p ↔
      e ∈ p.sharing ∧ w.discards e.2 = false ∧ l.demand? e.1.buffer = none := by
  simp [inPlace, List.mem_filter]

theorem inPlace_inputs_nodup {n : Nat} (hp : p.Valid n) (l : Ledger) :
    ((w.inPlace l p).map (·.1.buffer)).Nodup :=
  hp.shared_inputs.sublist (List.filter_sublist.map _)

theorem inPlace_outputs_nodup {n : Nat} (hp : p.Valid n) (l : Ledger) :
    ((w.inPlace l p).map (·.2.buffer)).Nodup :=
  hp.shared_outputs.sublist (List.filter_sublist.map _)

/-- What placing a pass asks of a ledger. -/
structure Fits (w : Workload) (l : Ledger) (p : Pass) : Prop where
  discarded : ∀ o ∈ p.outputs, w.discards o = true ↔ l.demand? o.buffer = none
  complete : ∀ o ∈ p.outputs, ∀ d, l.demand? o.buffer = some d → d.uses = w.consumersOf o.buffer
  room : ∀ i ∈ p.inputs, ∀ d, l.demand? i.buffer = some d → d.uses < w.consumersOf i.buffer

/-- The ledger when the outputs in `done` have been collected: their demands are
closed and their slots held. -/
structure Collecting (w : Workload) (before : Ledger) (done : List PassOutput)
    (slots : List PortSlot) (l : Ledger) : Prop where
  balanced : Ledger.Balanced w l fun x => ∃ o ∈ done, before.slot? o.buffer = some x
  demand : ∀ b, l.demand? b = if b ∈ done.map (·.buffer) then none else before.demand? b
  allocations : l.allocations = before.allocations
  allocator : l.slots = before.slots
  slots_eq : slots = done.map fun o => ⟨o.port, o.buffer, before.slot? o.buffer⟩

theorem collect_spec {before : Ledger} (hbefore : before.Balanced w fun _ => False)
    (hnodup : p.writes.Nodup) (hfits : w.Fits before p) :
    ∃ l slots, thread (w.collectOutput p) before p.outputs = .ok (l, slots) ∧
      w.Collecting before p.outputs slots l := by
  refine thread_spec (I := w.Collecting before) ?_ ?_
  · exact ⟨hbefore.congr (by simp), by simp, rfl, rfl, rfl⟩
  · intro done o rest slots l hdone hinv
    have ho : o ∈ p.outputs := by simp [← hdone]
    have hnew : o.buffer ∉ done.map (·.buffer) := by
      rw [Pass.writes, ← hdone] at hnodup
      exact notMem_map_of_nodup hnodup
    have hdemand : l.demand? o.buffer = before.demand? o.buffer := by
      rw [hinv.demand, if_neg hnew]
    cases hd : before.demand? o.buffer with
    | none =>
        have hslot : before.slot? o.buffer = none := Ledger.slot?_eq_none.mpr hd
        refine ⟨l, ⟨o.port, o.buffer, none⟩, ?_, ?_⟩
        · rw [collectOutput, if_pos ((hfits.discarded o ho).mpr hd)]
        · refine ⟨hinv.balanced.congr ?_, ?_, hinv.allocations, hinv.allocator, ?_⟩
          · simp [or_and_right, exists_or, hslot]
          · intro b
            by_cases hb : b = o.buffer
            · simp [hb, hdemand, hd]
            · simp [hinv.demand b, hb]
          · simp [hinv.slots_eq, hslot]
    | some d =>
        have hslot : before.slot? o.buffer = some d.allocation := by simp [Ledger.slot?, hd]
        have hkept : w.discards o ≠ true := by simp [hfits.discarded o ho, hd]
        refine ⟨l.closeDemand o.buffer, ⟨o.port, o.buffer, some d.allocation⟩, ?_, ?_⟩
        · rw [collectOutput, if_neg hkept, hdemand, hd]
          simp only [hfits.complete o ho d hd, if_true]
        · refine ⟨(hinv.balanced.closeDemand (hdemand.trans hd)).congr ?_, ?_, hinv.allocations,
            hinv.allocator, ?_⟩
          · simp [or_and_right, exists_or, hslot, eq_comm]
          · intro b
            rw [Ledger.demand?_closeDemand, hinv.demand]
            by_cases hb : b = o.buffer <;> simp [hb]
          · simp [hinv.slots_eq, hslot]

/-- The demand for an input after it was supplied: one consumer more, or a new
demand on the slot of an output or on a slot that was not in use. -/
inductive Supplied (w : Workload) (l : Ledger) (p : Pass) (b : Nat) : Demand → Prop
  | again {d : Demand} : l.demand? b = some d →
      Supplied w l p b { d with uses := d.uses + 1 }
  | donated {o : Nat} {x : Allocation} : l.demand? b = none →
      Plan.donor? (w.inPlace l p) b = some o → l.slot? o = some x → Supplied w l p b ⟨1, x⟩
  | fresh {x : Allocation} : l.demand? b = none → Plan.donor? (w.inPlace l p) b = none →
      ¬l.slots.Live x → Supplied w l p b ⟨1, x⟩

/-- The slot of an output that none of the inputs in `done` takes over. -/
def Unclaimed (w : Workload) (before : Ledger) (p : Pass) (done : List PresentPort)
    (x : Allocation) : Prop :=
  ∃ o ∈ p.outputs, before.slot? o.buffer = some x ∧
    ∀ i ∈ done, Plan.donor? (w.inPlace before p) i.buffer ≠ some o.buffer

theorem unclaimed_append_of_none {before : Ledger} {done : List PresentPort} {i : PresentPort}
    (hdonor : Plan.donor? (w.inPlace before p) i.buffer = none) (x : Allocation) :
    w.Unclaimed before p (done ++ [i]) x ↔ w.Unclaimed before p done x := by
  unfold Unclaimed
  simp only [List.forall_mem_append, List.forall_mem_singleton, hdonor, ne_eq, reduceCtorEq,
    not_false_eq_true, and_true]

theorem unclaimed_append_of_donor {before : Ledger} {done : List PresentPort} {i : PresentPort}
    {o : Nat} {x : Allocation} (hbefore : before.Balanced w fun _ => False)
    (hdonor : Plan.donor? (w.inPlace before p) i.buffer = some o) (hx : before.slot? o = some x)
    (y : Allocation) :
    w.Unclaimed before p (done ++ [i]) y ↔ w.Unclaimed before p done y ∧ y ≠ x := by
  unfold Unclaimed
  simp only [List.forall_mem_append, List.forall_mem_singleton, hdonor]
  constructor
  · intro hleft
    rcases hleft with ⟨q, hq, hy, hfree, hne⟩
    refine ⟨⟨q, hq, hy, hfree⟩, ?_⟩
    intro heq
    subst heq
    exact hne (congrArg some (hbefore.slot?_injective hx hy))
  · intro hleft
    rcases hleft with ⟨⟨q, hq, hy, hfree⟩, hne⟩
    refine ⟨q, hq, hy, hfree, fun hqo => hne ?_⟩
    rw [← Option.some.inj hqo, hx] at hy
    exact (Option.some.inj hy).symm

/-- The ledger when the inputs in `done` have been supplied, the outputs having
been collected before. Held are the slots of outputs not handed on. -/
structure Supplying (w : Workload) (before : Ledger) (p : Pass) (done : List PresentPort)
    (slots : List (PortSlot × Option Allocation)) (l : Ledger) : Prop where
  balanced : Ledger.Balanced w l (w.Unclaimed before p done)
  supplied : ∀ b ∈ done.map (·.buffer), ∃ d, l.demand? b = some d ∧ Supplied w before p b d
  written : ∀ b ∈ p.writes, l.demand? b = none
  other : ∀ b, b ∉ done.map (·.buffer) → b ∉ p.writes → l.demand? b = before.demand? b
  recorded : ∀ b, b ∉ done.map (·.buffer) ∨ (before.demand? b).isSome →
    l.allocation? b = before.allocation? b
  handed : before.slots.HandsOut l.slots
  slots_eq : slots.map (·.1) = done.map fun i => ⟨i.port, i.buffer, l.slot? i.buffer⟩

theorem slotOf_outputs (p : Pass) (slot : Nat → Option Allocation) {b : Nat} (hb : b ∈ p.writes) :
    Phase.slotOf (p.outputs.map fun o => ⟨o.port, o.buffer, slot o.buffer⟩) b = slot b := by
  obtain ⟨o, ho, rfl⟩ := List.mem_map.mp hb
  rw [Phase.slotOf, List.find?_map]
  cases hfind : p.outputs.find? ((·.buffer == o.buffer) ∘
      fun o : PassOutput => (⟨o.port, o.buffer, slot o.buffer⟩ : PortSlot)) with
  | none => simpa using List.find?_eq_none.mp hfind o ho
  | some o' =>
      have hbuffer : o'.buffer = o.buffer := by simpa using List.find?_some hfind
      simp [hbuffer]

theorem Collecting.supplying {before : Ledger} {outputs : List PortSlot}
    (h : w.Collecting before p.outputs outputs l) : w.Supplying before p [] [] l := by
  have hwrites : p.outputs.map (·.buffer) = p.writes := rfl
  refine ⟨h.balanced.congr (by simp [Unclaimed]), by simp, ?_, ?_, ?_, ?_, rfl⟩
  · intro b hb
    rw [h.demand, hwrites, if_pos hb]
  · intro b _ hb
    rw [h.demand, hwrites, if_neg hb]
  · intro b _
    rw [Ledger.allocation?, h.allocations, Ledger.allocation?]
  · rw [h.allocator]
    exact .refl _

theorem Collecting.slotOf_donor {before : Ledger} {outputs : List PortSlot}
    (h : w.Collecting before p.outputs outputs l) (hfits : w.Fits before p) {b o : Nat}
    (hdonor : Plan.donor? (w.inPlace before p) b = some o) :
    ∃ x, before.slot? o = some x ∧ Phase.slotOf outputs o = some x := by
  obtain ⟨e, he, -, rfl⟩ := Plan.exists_of_donor? hdonor
  obtain ⟨hsharing, hkept, -⟩ := mem_inPlace.mp he
  have ho : e.2 ∈ p.outputs := Pass.mem_outputs_of_sharing hsharing
  obtain ⟨x, hx⟩ : ∃ x, before.slot? e.2.buffer = some x := by
    rw [← Option.ne_none_iff_exists', Ne, Ledger.slot?_eq_none, ← hfits.discarded _ ho]
    simp [hkept]
  exact ⟨x, hx, by rw [h.slots_eq, slotOf_outputs _ _ (List.mem_map_of_mem ho), hx]⟩

theorem Supplying.extend {before l' : Ledger} {done : List PresentPort}
    {slots : List (PortSlot × Option Allocation)} {i : PresentPort} {d : Demand}
    {new : Option Allocation} (h : w.Supplying before p done slots l)
    (hnew : i.buffer ∉ done.map (·.buffer)) (hdisjoint : i.buffer ∉ p.writes)
    (hbalanced : Ledger.Balanced w l' (w.Unclaimed before p (done ++ [i])))
    (hdemand : ∀ b, l'.demand? b = if b = i.buffer then some d else l.demand? b)
    (hsupplied : Supplied w before p i.buffer d)
    (hrecorded : ∀ b, b ≠ i.buffer ∨ (before.demand? b).isSome → l'.allocation? b = l.allocation? b)
    (hhanded : l.slots.HandsOut l'.slots) :
    w.Supplying before p (done ++ [i]) (slots ++ [(⟨i.port, i.buffer, some d.allocation⟩, new)])
      l' where
  balanced := hbalanced
  supplied := by
    intro b hb
    rw [hdemand]
    by_cases hbi : b = i.buffer
    · subst hbi
      exact ⟨d, by simp, hsupplied⟩
    · rw [if_neg hbi]
      exact h.supplied b (by simpa [hbi] using hb)
  written := by
    intro b hb
    have hne : b ≠ i.buffer := by
      intro heq
      subst heq
      exact hdisjoint hb
    rw [hdemand, if_neg hne]
    exact h.written b hb
  other := by
    intro b hb hwrites
    simp only [List.map_append, List.mem_append, List.map_cons, List.map_nil, List.mem_singleton,
      not_or] at hb
    rw [hdemand, if_neg hb.2]
    exact h.other b hb.1 hwrites
  recorded := by
    intro b hb
    simp only [List.map_append, List.mem_append, List.map_cons, List.map_nil, List.mem_singleton,
      not_or] at hb
    rw [hrecorded b (hb.imp And.right id)]
    exact h.recorded b (hb.imp And.left id)
  handed := h.handed.trans hhanded
  slots_eq := by
    have hold : (done.map fun j => (⟨j.port, j.buffer, l'.slot? j.buffer⟩ : PortSlot)) =
        done.map fun j => ⟨j.port, j.buffer, l.slot? j.buffer⟩ := by
      refine List.map_congr_left fun j hj => ?_
      have hne : j.buffer ≠ i.buffer := fun hji => hnew (List.mem_map.mpr ⟨j, hj, hji⟩)
      rw [Ledger.slot?, hdemand, if_neg hne, Ledger.slot?]
    have hi : l'.slot? i.buffer = some d.allocation := by simp [Ledger.slot?, hdemand]
    rw [List.map_append, List.map_append, h.slots_eq, hold]
    simp [hi]

section
variable {before l₁ : Ledger} {outputs : List PortSlot} {done : List PresentPort}
  {slots : List (PortSlot × Option Allocation)} {i : PresentPort}

/-- An input that is not yet demanded takes over the slot of the output bound to it. -/
theorem Supplying.donated (h : w.Supplying before p done slots l) (hw : w.WellFormed)
    (hp : p ∈ w.passes) (hbefore : before.Balanced w fun _ => False) (hfits : w.Fits before p)
    (hcollected : w.Collecting before p.outputs outputs l₁) (hi : i.buffer ∈ p.reads)
    (hnew : i.buffer ∉ done.map (·.buffer)) {o : Nat}
    (hdonor : Plan.donor? (w.inPlace before p) i.buffer = some o) :
    ∃ l' s, w.supplyInput (w.plan before p) outputs l i = .ok (l', s) ∧
      w.Supplying before p (done ++ [i]) (slots ++ [s]) l' := by
  have hvalid := hw.valid p hp
  have hlt := hvalid.reads_lt _ hi
  have hwrites := hvalid.disjoint _ hi
  obtain ⟨x, hx, hfound⟩ := hcollected.slotOf_donor hfits hdonor
  obtain ⟨e, he, hei, rfl⟩ := Plan.exists_of_donor? hdonor
  obtain ⟨hsharing, -, hclosed⟩ := mem_inPlace.mp he
  rw [hei] at hclosed
  have ho : e.2 ∈ p.outputs := Pass.mem_outputs_of_sharing hsharing
  have hheld : w.Unclaimed before p done x := by
    refine ⟨e.2, ho, hx, fun j hj hjo => hnew ?_⟩
    rw [Plan.donor?_injective (inPlace_outputs_nodup hvalid before) hdonor hjo]
    exact List.mem_map_of_mem hj
  have hclass : x.classId = w.classId i.buffer := by
    rw [hbefore.classed _ x (hbefore.allocation?_of_slot? hx), ← hei, hw.shared p hp e hsharing]
  have hopened := h.balanced.openDemand hlt ((h.other _ hnew hwrites).trans hclosed) hheld hclass
  have hplan : (w.plan before p).inPlace = w.inPlace before p := rfl
  refine ⟨l.openDemand i.buffer x, (⟨i.port, i.buffer, some x⟩, none), ?_, ?_⟩
  · simp only [supplyInput, hplan, hdonor, Option.bind_some, hfound]
  · refine h.extend (d := ⟨1, x⟩) hnew hwrites
      (hopened.congr fun y => (unclaimed_append_of_donor hbefore hdonor hx y).symm)
      (Ledger.demand?_openDemand (h.balanced.demands_length ▸ hlt)) (.donated hclosed hdonor hx)
      ?_ (.refl _)
    intro b hb
    rw [Ledger.allocation?_openDemand (h.balanced.allocations_length ▸ hlt), if_neg]
    intro heq
    subst heq
    simp [hclosed] at hb

/-- An input that is demanded already counts one consumer more. -/
theorem Supplying.again (h : w.Supplying before p done slots l) (hw : w.WellFormed)
    (hp : p ∈ w.passes) (hfits : w.Fits before p) (hi : i ∈ p.inputs)
    (hnew : i.buffer ∉ done.map (·.buffer))
    (hdonor : Plan.donor? (w.inPlace before p) i.buffer = none) {d : Demand}
    (hd : before.demand? i.buffer = some d) :
    ∃ l' s, w.supplyInput (w.plan before p) outputs l i = .ok (l', s) ∧
      w.Supplying before p (done ++ [i]) (slots ++ [s]) l' := by
  have hvalid := hw.valid p hp
  have hlt := hvalid.reads_lt _ (List.mem_map_of_mem hi)
  have hwrites := hvalid.disjoint _ (List.mem_map_of_mem hi)
  have hdemand := (h.other _ hnew hwrites).trans hd
  have hplan : (w.plan before p).inPlace = w.inPlace before p := rfl
  refine ⟨l.addUse i.buffer d, (⟨i.port, i.buffer, some d.allocation⟩, none), ?_, ?_⟩
  · simp only [supplyInput, hplan, hdonor, Option.bind_none, hdemand, hfits.room i hi d hd, if_true]
  · exact h.extend (d := { d with uses := d.uses + 1 }) hnew hwrites
      ((h.balanced.addUse hdemand).congr fun x => (unclaimed_append_of_none hdonor x).symm)
      (Ledger.demand?_addUse (h.balanced.demands_length ▸ hlt)) (.again hd) (fun _ _ => rfl)
      (.refl _)

/-- Any other input gets a slot that was not in use. -/
theorem Supplying.fresh (h : w.Supplying before p done slots l) (hw : w.WellFormed)
    (hp : p ∈ w.passes) (hi : i.buffer ∈ p.reads) (hnew : i.buffer ∉ done.map (·.buffer))
    (hdonor : Plan.donor? (w.inPlace before p) i.buffer = none)
    (hd : before.demand? i.buffer = none) :
    ∃ l' s, w.supplyInput (w.plan before p) outputs l i = .ok (l', s) ∧
      w.Supplying before p (done ++ [i]) (slots ++ [s]) l' := by
  have hvalid := hw.valid p hp
  have hlt := hvalid.reads_lt _ hi
  have hwrites := hvalid.disjoint _ hi
  have hdemand := (h.other _ hnew hwrites).trans hd
  have hplan : (w.plan before p).inPlace = w.inPlace before p := rfl
  obtain ⟨hclass, hunused, hhanded, hacquired⟩ :=
    h.balanced.acquire (hw.class_lt i.buffer (.inr ⟨p, hp, hi⟩))
  refine ⟨_, _, by simp only [supplyInput, hplan, hdonor, Option.bind_none, hdemand]; rfl, ?_⟩
  refine h.extend (d := ⟨1, (l.acquire (w.classId i.buffer)).1⟩) hnew hwrites
    ((hacquired.openDemand hlt hdemand (.inr rfl) hclass).congr ?_)
    (Ledger.demand?_openDemand (h.balanced.demands_length ▸ hlt))
    (.fresh hd hdonor fun hx => hunused (h.handed.live _ hx)) ?_ hhanded
  · intro y
    rw [unclaimed_append_of_none hdonor]
    constructor
    · intro hheld
      rcases hheld with ⟨hy | hy, hne⟩
      · exact hy
      · exact (hne hy).elim
    · intro hy
      refine ⟨.inl hy, ?_⟩
      intro heq
      subst heq
      exact hunused ((h.balanced.live _).mpr (.inl hy))
  · intro b hb
    rw [Ledger.allocation?_openDemand (h.balanced.allocations_length ▸ hlt), if_neg]
    · rfl
    · intro heq
      subst heq
      simp [hd] at hb

theorem Supplying.step (h : w.Supplying before p done slots l) (hw : w.WellFormed)
    (hp : p ∈ w.passes) (hbefore : before.Balanced w fun _ => False) (hfits : w.Fits before p)
    (hcollected : w.Collecting before p.outputs outputs l₁) {rest : List PresentPort}
    (hdone : done ++ i :: rest = p.inputs) :
    ∃ l' s, w.supplyInput (w.plan before p) outputs l i = .ok (l', s) ∧
      w.Supplying before p (done ++ [i]) (slots ++ [s]) l' := by
  have hi : i ∈ p.inputs := by simp [← hdone]
  have hread : i.buffer ∈ p.reads := List.mem_map_of_mem hi
  have hnew := (hw.valid p hp).input_new hdone
  cases hdonor : Plan.donor? (w.inPlace before p) i.buffer with
  | some o => exact h.donated hw hp hbefore hfits hcollected hread hnew hdonor
  | none =>
      cases hd : before.demand? i.buffer with
      | some d => exact h.again hw hp hfits hi hnew hdonor hd
      | none => exact h.fresh hw hp hread hnew hdonor hd

end

theorem supply_spec (hw : w.WellFormed) (hp : p ∈ w.passes) {before l₁ : Ledger}
    {outputs : List PortSlot} (hbefore : before.Balanced w fun _ => False)
    (hfits : w.Fits before p) (hcollected : w.Collecting before p.outputs outputs l₁) :
    ∃ l supplied, thread (w.supplyInput (w.plan before p) outputs) l₁ p.inputs = .ok (l, supplied) ∧
      w.Supplying before p p.inputs supplied l := by
  refine thread_spec (I := w.Supplying before p) ?_ ?_
  · exact hcollected.supplying
  · intro done i rest slots l hdone hinv
    exact hinv.step hw hp hbefore hfits hcollected hdone

/-- The slots given back are those of the outputs that no input took over. -/
theorem released_eq (w : Workload) (l : Ledger) (p : Pass) :
    ((p.outputs.map fun o => (⟨o.port, o.buffer, l.slot? o.buffer⟩ : PortSlot)).filter
        fun o => !Plan.donates (w.inPlace l p) o.buffer).filterMap (·.allocation) =
      (p.writes.filter fun b => !Plan.donates (w.inPlace l p) b).filterMap l.slot? := by
  simp [Pass.writes, List.filter_map, List.filterMap_map, Function.comp_def]

/-- The ledger after a pass has been placed. Either every slot of a class is in
use while the pass runs, or the class had a free slot and got no new one. -/
structure Settled (w : Workload) (p : Pass) (before l : Ledger) : Prop where
  balanced : l.Balanced w fun _ => False
  supplied : ∀ b ∈ p.reads, ∃ d, l.demand? b = some d ∧ Supplied w before p b d
  written : ∀ b ∈ p.writes, l.demand? b = none
  other : ∀ b, b ∉ p.reads → b ∉ p.writes → l.demand? b = before.demand? b
  recorded : ∀ b, b ∉ p.reads ∨ (before.demand? b).isSome → l.allocation? b = before.allocation? b
  filled : ∀ id, (∀ x, x.classId = id → l.slots.Minted x →
      (∃ b ∈ p.writes, before.slot? b = some x) ∨ l.Demanded x) ∨
    ¬before.slots.Full id ∧ ∀ x, x.classId = id → (l.slots.Minted x ↔ before.slots.Minted x)

theorem Supplying.releaseAll {before : Ledger} {slots : List (PortSlot × Option Allocation)}
    (h : w.Supplying before p p.inputs slots l) (hw : w.WellFormed) (hp : p ∈ w.passes)
    (hbefore : before.Balanced w fun _ => False) :
    ∃ l', l.releaseAll ((p.writes.filter fun b => !Plan.donates (w.inPlace before p) b).filterMap
        before.slot?) = .ok l' ∧ l'.demands = l.demands ∧ w.Settled p before l' := by
  have hvalid := hw.valid p hp
  have hnodup : ((p.writes.filter fun b => !Plan.donates (w.inPlace before p) b).filterMap
      before.slot?).Nodup :=
    (hvalid.writes_nodup.filter _).filterMap fun b c x hb hc => hbefore.slot?_injective hb hc
  have hdonor : ∀ o, Plan.donates (w.inPlace before p) o = false ↔
      ∀ i ∈ p.inputs, Plan.donor? (w.inPlace before p) i.buffer ≠ some o := by
    intro o
    rw [← Bool.not_eq_true, Plan.donates_iff (inPlace_inputs_nodup hvalid before), not_exists]
    refine ⟨fun hfree i _ => hfree i.buffer, fun hfree b hb => ?_⟩
    obtain ⟨e, he, rfl, -⟩ := Plan.exists_of_donor? hb
    exact hfree e.1 (Pass.mem_inputs_of_sharing (mem_inPlace.mp he).1) hb
  have hheld : l.Balanced w fun x => x ∈ (p.writes.filter fun b =>
      !Plan.donates (w.inPlace before p) b).filterMap before.slot? := by
    refine h.balanced.congr fun x => ?_
    simp only [List.mem_filterMap, List.mem_filter, Bool.not_eq_true', hdonor, Pass.writes,
      List.mem_map]
    constructor
    · intro hfreed
      rcases hfreed with ⟨o, ho, hx, hfree⟩
      exact ⟨o.buffer, ⟨⟨o, ho, rfl⟩, hfree⟩, hx⟩
    · intro hfreed
      rcases hfreed with ⟨_, ⟨⟨o, ho, rfl⟩, hfree⟩, hx⟩
      exact ⟨o, ho, hx, hfree⟩
  obtain ⟨l', hrelease, hdemands, hallocations, hminted, hbalanced⟩ := hheld.releaseAll hnodup
  have hdemand : ∀ b, l'.demand? b = l.demand? b := by simp [Ledger.demand?, hdemands]
  have hallocation : ∀ b, l'.allocation? b = l.allocation? b := by
    simp [Ledger.allocation?, hallocations]
  refine ⟨l', hrelease, hdemands, hbalanced, ?_, ?_, ?_, ?_, ?_⟩
  · simpa only [hdemand, Pass.reads] using h.supplied
  · simpa only [hdemand] using h.written
  · simpa only [hdemand, Pass.reads] using h.other
  · simpa only [hallocation, Pass.reads] using h.recorded
  · intro id
    rcases h.handed.filled id with hfull | ⟨hfree, hsame⟩
    · left
      intro x hx hmint
      rcases (h.balanced.live x).mp (hfull x hx ((hminted x).mp hmint)) with hunclaimed | howner
      · obtain ⟨o, ho, hslot, -⟩ := hunclaimed
        exact .inl ⟨o.buffer, List.mem_map_of_mem ho, hslot⟩
      · right
        simpa only [Ledger.Demanded, hdemand] using howner
    · exact .inr ⟨hfree, fun x hx => (hminted x).trans (hsame x hx)⟩

/-- A pass that fits is placed with its own plan, and nothing fails. -/
theorem place_spec (hw : w.WellFormed) {s : Progress} (hp : p ∈ w.passes)
    (hbefore : s.ledger.Balanced w fun _ => False) (hfits : w.Fits s.ledger p)
    (weighed : List Candidate) :
    ∃ l placement, w.place s weighed ⟨p, w.plan s.ledger p⟩ =
        .ok ⟨l, s.pending.eraseP (·.index == p.index), placement :: s.placed⟩ ∧
      placement.chosen = ⟨p, w.plan s.ledger p⟩ ∧
      placement.phase = ⟨p.index, p.name,
        p.inputs.map fun i => ⟨i.port, i.buffer, l.slot? i.buffer⟩,
        p.outputs.map fun o => ⟨o.port, o.buffer, s.ledger.slot? o.buffer⟩⟩ ∧
      w.Settled p s.ledger l := by
  obtain ⟨l₁, outputs, hcollect, hcollected⟩ :=
    collect_spec hbefore (hw.valid p hp).writes_nodup hfits
  obtain ⟨l₂, supplied, hsupply, hsupplied⟩ := supply_spec hw hp hbefore hfits hcollected
  obtain ⟨l₃, hrelease, hdemands, hsettled⟩ := hsupplied.releaseAll hw hp hbefore
  have hslot : ∀ b, l₃.slot? b = l₂.slot? b := by
    intro b
    rw [Ledger.slot?, Ledger.demand?, hdemands]
    rfl
  rw [← released_eq, ← hcollected.slots_eq] at hrelease
  refine ⟨l₃, _, bind_eq_ok.mpr ⟨_, hcollect, bind_eq_ok.mpr ⟨_, hsupply,
    bind_eq_ok.mpr ⟨_, hrelease, rfl⟩⟩⟩, rfl, ?_, hsettled⟩
  simp only [hsupplied.slots_eq, hcollected.slots_eq, hslot]

end Workload
end FrameGraph
