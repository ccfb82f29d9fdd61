import FrameGraph.Proofs.Compilation
import FrameGraph.Proofs.SlotCosts

/-!
# The choice of a pass and its cost

A round weighs the passes that are ready by the cost of their plans and places
the first of the cheapest. A plan only reads the ledger; what it counts is what
placing the pass does to the slots. The inputs it calls fresh are those that get
a slot handed out, class by class, and the outputs it calls freed are those
whose slots are given back.

So a cost whose computation never leaves the range of a word is exact: the
weighted sum of the change of the storage needed and the change of the storage
in use.
-/
namespace FrameGraph

namespace Saturating

def IsWord (x : Int) : Prop := lowest ≤ x ∧ x ≤ highest

instance (x : Int) : Decidable (IsWord x) := inferInstanceAs (Decidable (_ ∧ _))

theorem IsWord.clamp_eq {x : Int} (h : IsWord x) : clamp x = x := clamp_of_mem h.1 h.2

theorem IsWord.add_eq {x y : Int} (h : IsWord (x + y)) : add x y = x + y := h.clamp_eq

theorem IsWord.mul_eq {x y : Int} (h : IsWord (x * y)) : mul x y = x * y := h.clamp_eq

theorem IsWord.ofNat_eq {n : Nat} (h : IsWord n) : ofNat n = n := h.clamp_eq

/-- A sum is exact if all running sums are words. -/
theorem foldl_add_of_isWord {xs : List Int} (h : ∀ x ∈ xs.partialSums, IsWord x) :
    xs.foldl add 0 = xs.sum := by
  have hfrom : ∀ (xs : List Int) (total : Int), (∀ x ∈ xs.scanl (· + ·) total, IsWord x) →
      xs.foldl add total = total + xs.sum := by
    intro xs
    induction xs with
    | nil => simp
    | cons x xs ih =>
        intro total hword
        rw [List.scanl_cons, List.forall_mem_cons] at hword
        have hhead : IsWord (total + x) := hword.2 _ (by cases xs <;> simp)
        rw [List.foldl_cons, hhead.add_eq, ih _ hword.2, List.sum_cons, Int.add_assoc]
  simpa using hfrom xs 0 h

end Saturating

open Saturating (IsWord)

namespace Workload

variable {w : Workload} {l : Ledger} {p : Pass} {s : Progress}

def freshClasses (w : Workload) (l : Ledger) (p : Pass) : List Nat :=
  (w.freshInputs l p).map w.classId

def freedClasses (w : Workload) (l : Ledger) (p : Pass) : List Nat :=
  (w.freedOutputs l p).map w.classId

/-- The slots of a class that a pass needs beyond the free ones. -/
def missing (w : Workload) (l : Ledger) (p : Pass) (id : Nat) : Nat :=
  (w.freshClasses l p).count id - l.slots.freeCount id

def growths (w : Workload) (l : Ledger) (p : Pass) : List Int :=
  (w.freshClasses l p).eraseDups.map fun id => w.unitCost id * w.missing l p id

def liveChanges (w : Workload) (l : Ledger) (p : Pass) : List Int :=
  (w.freshInputs l p).map (fun b => (w.cost b : Int)) ++
    (w.freedOutputs l p).map fun b => -(w.cost b : Int)

/-- Every value that the cost of a plan goes through is a word. -/
structure Unsaturated (w : Workload) (l : Ledger) (p : Pass) : Prop where
  costs : ∀ b ∈ w.freshInputs l p ++ w.freedOutputs l p, IsWord (w.cost b)
  prices : ∀ id ∈ w.freshClasses l p, IsWord (w.unitCost id)
  missing : ∀ id ∈ w.freshClasses l p, IsWord (w.missing l p id)
  growths : ∀ x ∈ w.growths l p, IsWord x
  growth : ∀ x ∈ (w.growths l p).partialSums, IsWord x
  live : ∀ x ∈ (w.liveChanges l p).partialSums, IsWord x
  capacity : IsWord (w.config.capacityWeight * (w.growths l p).sum)
  count : IsWord (w.config.countWeight * (w.liveChanges l p).sum)
  total : IsWord (w.config.capacityWeight * (w.growths l p).sum +
    w.config.countWeight * (w.liveChanges l p).sum)

namespace Unsaturated

theorem growth_eq (h : w.Unsaturated l p) :
    w.growth l (w.freshInputs l p) = (w.growths l p).sum := by
  rw [← Saturating.foldl_add_of_isWord h.growth, Workload.growths, List.foldl_map]
  refine List.foldl_ext _ _ 0 fun total id hid => ?_
  have hmem : id ∈ w.freshClasses l p := List.mem_eraseDups.mp hid
  have hgrowth : IsWord (w.unitCost id * w.missing l p id) :=
    h.growths _ (List.mem_map_of_mem hid)
  simp only [classGrowth, (h.prices id hmem).ofNat_eq]
  rw [← hgrowth.mul_eq, ← (h.missing id hmem).ofNat_eq]
  rfl

theorem liveChange_eq (h : w.Unsaturated l p) :
    w.liveChange (w.freshInputs l p) (w.freedOutputs l p) = (w.liveChanges l p).sum := by
  obtain ⟨hfresh, hfreed⟩ := List.forall_mem_append.mp h.costs
  rw [← Saturating.foldl_add_of_isWord h.live, Workload.liveChanges, List.foldl_append,
    List.foldl_map, List.foldl_map, liveChange]
  rw [List.foldl_ext _ _ 0 fun total b hb => by rw [(hfresh b hb).ofNat_eq]]
  refine List.foldl_ext _ _ _ fun total b hb => ?_
  rw [(hfreed b hb).ofNat_eq]
  rfl

theorem cost_eq (h : w.Unsaturated l p) :
    (w.plan l p).cost = w.config.capacityWeight * (w.growths l p).sum +
      w.config.countWeight * (w.liveChanges l p).sum := by
  simp only [plan, h.growth_eq, h.liveChange_eq, h.capacity.mul_eq, h.count.mul_eq, h.total.add_eq]

end Unsaturated

theorem mem_freshInputs {b : Nat} :
    b ∈ w.freshInputs l p ↔
      b ∈ p.reads ∧ Plan.donor? (w.inPlace l p) b = none ∧ l.demand? b = none := by
  simp [freshInputs, List.mem_filter]

section
variable {before l₁ l' : Ledger} {outputs : List PortSlot} {done rest : List PresentPort}
  {slots : List (PortSlot × Option Allocation)} {i : PresentPort}

/-- Supplying an input hands out a slot exactly if the plan calls it fresh. -/
theorem Supplying.slots_step (h : w.Supplying before p done slots l) (hw : w.WellFormed)
    (hp : p ∈ w.passes) (hfits : w.Fits before p)
    (hcollected : w.Collecting before p.outputs outputs l₁) (hdone : done ++ i :: rest = p.inputs)
    {supplied : PortSlot × Option Allocation}
    (hstep : w.supplyInput (w.plan before p) outputs l i = .ok (l', supplied)) :
    l'.slots = l.slots.acquireAll (([i.buffer].filter fun b =>
      (Plan.donor? (w.inPlace before p) b).isNone && (before.demand? b).isNone).map w.classId) := by
  have hread : i.buffer ∈ p.reads := List.mem_map_of_mem (by simp [← hdone])
  have hdemand : l.demand? i.buffer = before.demand? i.buffer :=
    h.other _ ((hw.valid p hp).input_new hdone) ((hw.valid p hp).disjoint _ hread)
  have hplan : (w.plan before p).inPlace = w.inPlace before p := rfl
  cases hdonor : Plan.donor? (w.inPlace before p) i.buffer with
  | some o =>
      obtain ⟨x, -, hfound⟩ := hcollected.slotOf_donor hfits hdonor
      simp only [supplyInput, hplan, hdonor, Option.bind_some, hfound] at hstep
      cases hstep
      simp [SlotAllocator.acquireAll, Ledger.openDemand, hdonor]
  | none =>
      simp only [supplyInput, hplan, hdonor, Option.bind_none, hdemand] at hstep
      cases hd : before.demand? i.buffer with
      | some d =>
          simp only [hd] at hstep
          split_ifs at hstep
          cases hstep
          simp [SlotAllocator.acquireAll, Ledger.addUse, hd]
      | none =>
          simp only [hd] at hstep
          cases hstep
          simp [SlotAllocator.acquireAll, Ledger.openDemand, Ledger.acquire, hdonor, hd]

end

/-- The inputs in `done` have been supplied, and slots have been handed out for
those of them that the plan calls fresh. -/
structure Counting (w : Workload) (before : Ledger) (p : Pass) (done : List PresentPort)
    (slots : List (PortSlot × Option Allocation)) (l : Ledger) : Prop where
  supplying : w.Supplying before p done slots l
  handed : l.slots = before.slots.acquireAll (((done.map (·.buffer)).filter fun b =>
    (Plan.donor? (w.inPlace before p) b).isNone && (before.demand? b).isNone).map w.classId)

/-- Supplying the inputs hands out the slots that the plan counts. -/
theorem supply_slots (hw : w.WellFormed) (hp : p ∈ w.passes) {before l₁ : Ledger}
    {outputs : List PortSlot} (hbefore : before.Balanced w fun _ => False)
    (hfits : w.Fits before p) (hcollected : w.Collecting before p.outputs outputs l₁) :
    ∃ l supplied, thread (w.supplyInput (w.plan before p) outputs) l₁ p.inputs = .ok (l, supplied) ∧
      w.Counting before p p.inputs supplied l := by
  refine thread_spec (I := w.Counting before p) ⟨hcollected.supplying, hcollected.allocator⟩ ?_
  intro done i rest slots l hdone hinv
  obtain ⟨l', supplied, hstep, hnext⟩ := hinv.supplying.step hw hp hbefore hfits hcollected hdone
  refine ⟨l', supplied, hstep, hnext, ?_⟩
  rw [hinv.supplying.slots_step hw hp hfits hcollected hdone hstep, hinv.handed, List.map_append,
    List.filter_append, List.map_append, SlotAllocator.acquireAll_append]
  rfl

/-- The slots given back are those that the plan counts. -/
theorem released_classes {before : Ledger} (hbefore : before.Balanced w fun _ => False)
    (hfits : w.Fits before p) :
    ((p.writes.filter fun b => !Plan.donates (w.inPlace before p) b).filterMap before.slot?).map
      (·.classId) = w.freedClasses before p := by
  have hlist : ∀ os : List PassOutput, (∀ o ∈ os, o ∈ p.outputs) →
      (((os.map (·.buffer)).filter fun b => !Plan.donates (w.inPlace before p) b).filterMap
        before.slot?).map (·.classId) =
      ((os.filter fun o => !w.discards o && !Plan.donates (w.inPlace before p) o.buffer).map
        (·.buffer)).map w.classId := by
    intro os
    induction os with
    | nil => simp
    | cons o os ih =>
        intro hos
        obtain ⟨ho, hos⟩ := List.forall_mem_cons.mp hos
        have hrest := ih hos
        cases hslot : before.slot? o.buffer with
        | none =>
            have hdiscards : w.discards o = true :=
              (hfits.discarded o ho).mpr (Ledger.slot?_eq_none.mp hslot)
            cases hdonates : Plan.donates (w.inPlace before p) o.buffer <;>
              simpa [hdonates, hdiscards, hslot] using hrest
        | some x =>
            have hdiscards : w.discards o = false := by
              rw [← Bool.not_eq_true, hfits.discarded o ho, ← Ledger.slot?_eq_none, hslot]
              simp
            have hclass : x.classId = w.classId o.buffer :=
              hbefore.classed _ x (hbefore.allocation?_of_slot? hslot)
            cases hdonates : Plan.donates (w.inPlace before p) o.buffer <;>
              simpa [hdonates, hdiscards, hslot, hclass] using hrest
  exact hlist p.outputs fun _ ho => ho

/-- Placing a pass makes of the slots what its plan counts. -/
theorem place_turnover (hw : w.WellFormed) (hs : w.Sound s) (hp : p ∈ s.pending)
    (hready : w.ready s.ledger p = true) (weighed : List Candidate) :
    ∃ next, w.place s weighed ⟨p, w.plan s.ledger p⟩ = .ok next ∧ w.Places s p next ∧
      s.ledger.slots.Turnover next.ledger.slots (w.freshClasses s.ledger p)
        (w.freedClasses s.ledger p) := by
  have hmem := hs.mem_of_pending hp
  have hfits := hs.fits hw hp hready
  obtain ⟨next, hplace, hplaces⟩ := place_ready hw hs hp hready weighed
  refine ⟨next, hplace, hplaces, ?_⟩
  obtain ⟨l₁, outputs, hcollect, hcollected⟩ :=
    collect_spec hs.balanced (hw.valid p hmem).writes_nodup hfits
  obtain ⟨l₂, supplied, hsupply, hcounting⟩ := supply_slots hw hmem hs.balanced hfits hcollected
  have hslots : l₂.slots = s.ledger.slots.acquireAll (w.freshClasses s.ledger p) :=
    hcounting.handed
  have hids : ∀ id ∈ w.freshClasses s.ledger p, id < s.ledger.slots.classes.length := by
    intro id hid
    obtain ⟨b, hb, rfl⟩ := List.mem_map.mp hid
    rw [hs.balanced.classes]
    exact hw.class_lt b (.inr ⟨p, hmem, (mem_freshInputs.mp hb).1⟩)
  obtain ⟨⟨l, outputs'⟩, hthread, hrest⟩ := bind_eq_ok.mp hplace
  cases hcollect.symm.trans hthread
  obtain ⟨⟨l, supplied'⟩, hthread, hrest⟩ := bind_eq_ok.mp hrest
  cases hsupply.symm.trans hthread
  obtain ⟨l₃, hrelease, hnext⟩ := bind_eq_ok.mp hrest
  cases hnext
  have hgiven := Ledger.turnover_releaseAll hrelease
  rw [hcollected.slots_eq, hslots] at hgiven
  have hboth := (hs.balanced.valid.numbered.turnover_acquireAll hids).trans hgiven
  have hplan : (⟨p, w.plan s.ledger p⟩ : Candidate).plan.inPlace = w.inPlace s.ledger p := rfl
  rwa [List.nil_append, hplan, released_eq, released_classes hs.balanced hfits] at hboth

theorem cost_ofPasses {d : Description} {config : Config} {required : List Nat}
    {passes : List Pass} {b : Nat} (hlt : b < d.buffers.length)
    (hb : b ∈ meetingOrder required passes) :
    (ofPasses d config required passes).cost b =
      (ofPasses d config required passes).unitCost
        ((ofPasses d config required passes).classId b) := by
  rw [unitCost, SlotAllocator.class?, getElem?_classes_ofPasses hlt hb,
    Description.classOf?_of_lt hlt]
  simp [cost, ofPasses, hlt]

/-- The candidate of least cost stands before all others of its cost. -/
theorem leastCost_spec {cs : List Candidate} {c : Candidate} (h : leastCost cs = some c) :
    ∃ before after, cs = before ++ c :: after ∧
      (∀ a ∈ before, c.plan.cost < a.plan.cost) ∧ ∀ a ∈ after, c.plan.cost ≤ a.plan.cost := by
  induction cs generalizing c with
  | nil => cases h
  | cons first cs ih =>
      rw [leastCost] at h
      cases hbest : leastCost cs with
      | none =>
          simp only [hbest, Option.some.injEq] at h
          exact ⟨[], [], by simp [h, leastCost_eq_none.mp hbest], by simp, by simp⟩
      | some best =>
          obtain ⟨before, after, hcs, hbefore, hafter⟩ := ih hbest
          simp only [hbest] at h
          split_ifs at h with hle
          · obtain rfl := Option.some.inj h
            refine ⟨[], cs, rfl, by simp, fun a ha => ?_⟩
            rw [hcs, List.mem_append, List.mem_cons] at ha
            rcases ha with ha | rfl | ha
            · exact hle.trans (hbefore a ha).le
            · exact hle
            · exact hle.trans (hafter a ha)
          · obtain rfl := Option.some.inj h
            refine ⟨first :: before, after, by rw [hcs, List.cons_append], ?_, hafter⟩
            exact List.forall_mem_cons.mpr ⟨not_le.mp hle, hbefore⟩

/-- The first of the cheapest passes that are ready. -/
structure Chosen (w : Workload) (s : Progress) (p : Pass) : Prop where
  pending : p ∈ s.pending
  ready : w.ready s.ledger p = true
  least : ∀ q ∈ s.pending, w.ready s.ledger q = true →
    (w.plan s.ledger p).cost ≤ (w.plan s.ledger q).cost
  earliest : ∀ q ∈ s.pending, w.ready s.ledger q = true → q.index < p.index →
    (w.plan s.ledger p).cost < (w.plan s.ledger q).cost

theorem chosen_of_leastCost (hw : w.WellFormed) (hs : w.Sound s) {c : Candidate}
    (h : leastCost (w.candidates s) = some c) : w.Chosen s c.pass := by
  obtain ⟨hpending, hready, hplan⟩ := mem_candidates.mp (mem_of_leastCost h)
  obtain ⟨before, after, hcs, hbefore, hafter⟩ := leastCost_spec h
  have hordered : (w.candidates s).Pairwise fun a b => a.pass.index < b.pass.index :=
    List.pairwise_map.mpr ((hw.ordered.sublist hs.pending).sublist List.filter_sublist)
  have hmem : ∀ q ∈ s.pending, w.ready s.ledger q = true →
      (⟨q, w.plan s.ledger q⟩ : Candidate) ∈ before ++ c :: after := by
    intro q hq hqready
    rw [← hcs]
    exact mem_candidates.mpr ⟨hq, hqready, rfl⟩
  refine ⟨hpending, hready, ?_, ?_⟩
  · intro q hq hqready
    rw [← hplan]
    rcases List.mem_append.mp (hmem q hq hqready) with ha | ha
    · exact (hbefore _ ha).le
    · rcases List.mem_cons.mp ha with ha | ha
      · rw [← ha]
      · exact hafter _ ha
  · intro q hq hqready hindex
    rw [← hplan]
    rcases List.mem_append.mp (hmem q hq hqready) with ha | ha
    · exact hbefore _ ha
    · -- What stands behind the choice was declared later.
      rw [hcs, List.pairwise_append, List.pairwise_cons] at hordered
      rcases List.mem_cons.mp ha with ha | ha
      · simp [← ha] at hindex
      · exact absurd (hordered.2.1.1 _ ha) (Nat.lt_asymm hindex)

/-- What a round goes by. It places the first of the cheapest passes, if any is
ready, and what a plan counts is what placing the pass does to the slots. -/
structure Greedy (w : Workload) (s : Progress) : Prop where
  choice : w.round s = .ok none ∧ w.Stuck s ∨
    ∃ p next, w.round s = .ok (some next) ∧ w.Chosen s p ∧ next.order = p :: s.order ∧
      w.place s (w.candidates s) ⟨p, w.plan s.ledger p⟩ = .ok next
  counts : ∀ p ∈ s.pending, w.ready s.ledger p = true → ∀ weighed, ∃ next,
    w.place s weighed ⟨p, w.plan s.ledger p⟩ = .ok next ∧
    s.ledger.slots.Turnover next.ledger.slots (w.freshClasses s.ledger p)
      (w.freedClasses s.ledger p) ∧
    (w.Unsaturated s.ledger p → (w.plan s.ledger p).cost =
      w.config.capacityWeight *
          ((next.ledger.slots.capacityCost : Int) - s.ledger.slots.capacityCost) +
        w.config.countWeight * ((next.ledger.slots.liveCost : Int) - s.ledger.slots.liveCost))

section
variable {a' : SlotAllocator}

theorem sum_growths (h : l.slots.Turnover a' (w.freshClasses l p) (w.freedClasses l p))
    (hclasses : l.slots.classes = w.slots.classes) (hvalid : l.slots.Valid) (hvalid' : a'.Valid)
    (hids : ∀ id ∈ w.freshClasses l p, id < l.slots.classes.length) :
    (w.growths l p).sum = (a'.capacityCost : Int) - l.slots.capacityCost := by
  have hprice : ∀ id, l.slots.unitCost id = w.unitCost id := SlotAllocator.unitCost_congr hclasses
  rw [h.capacityCost_eq hvalid.numbered hvalid'.numbered hids]
  simp only [hprice, growths, missing]
  push_cast
  simp [Function.comp_def]

theorem sum_liveChanges (h : l.slots.Turnover a' (w.freshClasses l p) (w.freedClasses l p))
    (hclasses : l.slots.classes = w.slots.classes) (hvalid : l.slots.Valid) (hvalid' : a'.Valid)
    (hcost : ∀ b ∈ p.reads ++ p.writes, w.cost b = w.unitCost (w.classId b)) :
    (w.liveChanges l p).sum = (a'.liveCost : Int) - l.slots.liveCost := by
  obtain ⟨hreads, hwrites⟩ := List.forall_mem_append.mp hcost
  have hprice : l.slots.unitCost = w.unitCost := funext (SlotAllocator.unitCost_congr hclasses)
  have hfresh : (w.freshClasses l p).map w.unitCost = (w.freshInputs l p).map w.cost := by
    rw [freshClasses, List.map_map]
    exact List.map_congr_left fun b hb => (hreads b (mem_freshInputs.mp hb).1).symm
  have hfreed : (w.freedClasses l p).map w.unitCost = (w.freedOutputs l p).map w.cost := by
    rw [freedClasses, List.map_map]
    refine List.map_congr_left fun b hb => (hwrites b ?_).symm
    exact (List.filter_sublist.map _).subset hb
  have hlive := h.liveCost_eq hvalid hvalid'
  rw [hprice, hfresh, hfreed] at hlive
  have hsums : (w.liveChanges l p).sum =
      (((w.freshInputs l p).map w.cost).sum : Int) - ((w.freedOutputs l p).map w.cost).sum := by
    have hneg := List.sum_neg ((w.freedOutputs l p).map fun b => (w.cost b : Int))
    rw [List.map_map] at hneg
    push_cast
    rw [liveChanges, List.sum_append, List.map_map, List.map_map, Int.sub_eq_add_neg]
    exact congrArg _ hneg.symm
  rw [hsums]
  omega

end

theorem round_eq_some {next : Progress} (h : w.round s = .ok (some next)) :
    ∃ c, leastCost (w.candidates s) = some c ∧ w.place s (w.candidates s) c = .ok next := by
  by_cases hopen : s.ledger.openCount = 0
  · rw [round, if_pos hopen] at h
    cases h
  rw [round, if_neg hopen] at h
  cases hleast : leastCost (w.candidates s) with
  | none =>
      simp only [hleast] at h
      cases h
  | some c =>
      simp only [hleast] at h
      obtain ⟨next', hplace, hnext⟩ := bind_eq_ok.mp h
      cases hnext
      exact ⟨c, rfl, hplace⟩

end Workload

/-- Every round of a placement places the first of the cheapest passes that are
ready, and the cost of a ready pass is, unless its computation leaves the range
of a word, the weighted change of the storage needed and in use that placing it
brings about. -/
theorem greedy_of_head {d : Description} {config : Config} {required : List Nat}
    {selection : Selection} {s : Progress} (hselection : d.selection required = .ok selection)
    (hbindings : (Workload.ofPasses d config required selection.passes).checkBindings
      selection.passes = .ok ())
    (hhead : (Workload.ofPasses d config required selection.passes).Head s) :
    (Workload.ofPasses d config required selection.passes).Greedy s := by
  obtain ⟨passes, hselects⟩ := Description.selects_of_selection hselection
  have hw := hselects.wellFormed hbindings
  have hs := hhead.sound hw
  refine ⟨?_, ?_⟩
  · rcases Workload.round_spec hw hs with ⟨_, next, hround, -⟩ | hstuck
    · obtain ⟨⟨p, _⟩, hleast, hplace⟩ := Workload.round_eq_some hround
      have hchosen := Workload.chosen_of_leastCost hw hs hleast
      obtain ⟨hp, hready, hplan⟩ := Workload.mem_candidates.mp (Workload.mem_of_leastCost hleast)
      dsimp only at hp hready hplan
      subst hplan
      obtain ⟨_, hplace', hplaces⟩ := Workload.place_ready hw hs hp hready
        ((Workload.ofPasses d config required selection.passes).candidates s)
      cases hplace.symm.trans hplace'
      exact .inr ⟨p, next, hround, hchosen, hplaces.order_eq, hplace⟩
    · exact .inl hstuck
  · intro p hp hready weighed
    have hmem := hs.mem_of_pending hp
    obtain ⟨next, hplace, hplaces, hturnover⟩ :=
      Workload.place_turnover hw hs hp hready weighed
    refine ⟨next, hplace, hturnover, fun hexact => ?_⟩
    have hclasses := hs.balanced.classes
    have hvalid := hw.valid p hmem
    have hslots := hs.balanced.valid
    have hslots' := hplaces.settled.balanced.valid
    rw [hexact.cost_eq, Workload.sum_growths hturnover hclasses hslots hslots',
      Workload.sum_liveChanges hturnover hclasses hslots hslots']
    · intro b hb
      rcases List.mem_append.mp hb with hb | hb
      · exact Workload.cost_ofPasses (hvalid.reads_lt b hb)
          (Workload.mem_meetingOrder.mpr (.inr ⟨p, hmem, .inr hb⟩))
      · exact Workload.cost_ofPasses (hvalid.writes_lt b hb)
          (Workload.mem_meetingOrder.mpr (.inr ⟨p, hmem, .inl hb⟩))
    · intro id hid
      obtain ⟨b, hb, rfl⟩ := List.mem_map.mp hid
      rw [hclasses]
      exact hw.class_lt b (.inr ⟨p, hmem, (Workload.mem_freshInputs.mp hb).1⟩)

/-- A picture blended from two sources, one of which is made from a large texture. -/
def detour : Description where
  buffers := [.texture "big" (.absolute ⟨8, 8⟩) .rgba8Unorm,
    .texture "left" (.absolute ⟨4, 4⟩) .rgba8Unorm,
    .texture "right" (.absolute ⟨4, 4⟩) .rgba8Unorm,
    .texture "out" (.absolute ⟨4, 4⟩) .rgba8Unorm]
  operations := [
    { name := "draw", outputs := [⟨"out", some 0⟩] },
    { name := "shrink", inputs := [⟨"in", some 0⟩], outputs := [⟨"out", some 1⟩] },
    { name := "shade", outputs := [⟨"out", some 2⟩] },
    { name := "blend", inputs := [⟨"a", some 1⟩, ⟨"b", some 2⟩], outputs := [⟨"out", some 3⟩] }]

def detourPasses : List Pass := [
  ⟨0, "draw", [], [⟨⟨0, 0⟩, false⟩], []⟩,
  ⟨1, "shrink", [⟨0, 0⟩], [⟨⟨0, 1⟩, false⟩], []⟩,
  ⟨2, "shade", [], [⟨⟨0, 2⟩, false⟩], []⟩,
  ⟨3, "blend", [⟨0, 1⟩, ⟨1, 2⟩], [⟨⟨0, 3⟩, false⟩], []⟩]

def detourWorkload : Workload := .ofPasses detour {} [3] detourPasses

/-- Once the blend is placed, the pass declared first of those that are ready
needs the large texture, at a cost of `5 * 256 + (256 - 64)`. -/
theorem greedy_of_head_detour :
    ∃ s, detourWorkload.Head s ∧ s.order.map (·.name) = ["blend"] ∧ detourWorkload.Greedy s ∧
      ∃ p ∈ s.pending, p.name = "shrink" ∧ detourWorkload.ready s.ledger p = true ∧
        detourWorkload.Unsaturated s.ledger p ∧ (detourWorkload.plan s.ledger p).cost = 1472 := by
  refine ⟨_, .round .start rfl, rfl,
    @greedy_of_head detour {} [3] ⟨detourPasses, 4⟩ _ rfl rfl (.round .start rfl),
    detourPasses[1], by decide, rfl, by decide, ?_, by decide⟩
  exact ⟨by decide, by decide, by decide, by decide, by decide, by decide, by decide, by decide,
    by decide⟩

end FrameGraph
