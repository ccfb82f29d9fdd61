import FrameGraph.Proofs.PlacementStep

/-!
# Placing one pass after another

`Workload.Sound` is what holds of a progress between two rounds. The passes
placed are in execution order and consumers stand behind producers; a buffer is
demanded while it has a placed consumer and its producer is still to come; the
phases are those of the placed passes with the slots on record.

A round keeps all of this, whichever ready pass it places, and it never fails.
So the loop ends in a sound progress in which no demand is open or no pass is
ready.
-/
namespace FrameGraph

namespace Pass

/-- The phase of a pass when every buffer has the slot given. -/
def phase (p : Pass) (slot : Nat → Option Allocation) : Phase where
  operation := p.index
  name := p.name
  inputs := p.inputs.map fun i => ⟨i.port, i.buffer, slot i.buffer⟩
  outputs := p.outputs.map fun o => ⟨o.port, o.buffer, slot o.buffer⟩

theorem phase_congr {p : Pass} {slot slot' : Nat → Option Allocation}
    (hreads : ∀ b ∈ p.reads, slot b = slot' b) (hwrites : ∀ b ∈ p.writes, slot b = slot' b) :
    p.phase slot = p.phase slot' := by
  unfold phase
  congr 1
  · refine List.map_congr_left fun i hi => ?_
    rw [hreads _ (List.mem_map_of_mem hi)]
  · refine List.map_congr_left fun o ho => ?_
    rw [hwrites _ (List.mem_map_of_mem ho)]

end Pass

namespace Workload

variable {w : Workload} {required : List Nat} {ps qs : List Pass} {p : Pass} {b : Nat}

theorem countConsumers_append :
    countConsumers required (ps ++ qs) b =
      countConsumers required ps b + qs.countP fun p => p.reads.contains b := by
  simp only [countConsumers, List.countP_append]
  omega

theorem countConsumers_cons :
    countConsumers required (p :: ps) b =
      countConsumers required ps b + if b ∈ p.reads then 1 else 0 := by
  simp only [countConsumers, List.countP_cons, List.contains_iff_mem]
  omega

theorem countConsumers_perm (h : ps.Perm qs) :
    countConsumers required ps b = countConsumers required qs b := by
  simp only [countConsumers, h.countP_eq]

theorem countConsumers_eq_zero :
    countConsumers required ps b = 0 ↔ b ∉ required ∧ ∀ p ∈ ps, b ∉ p.reads := by
  simp [countConsumers, and_comm]

end Workload

/-- The placed passes, in execution order. -/
def Progress.order (s : Progress) : List Pass := s.placed.map (·.chosen.pass)

namespace Workload

variable {w : Workload} {s : Progress} {p : Pass} {b : Nat}

/-- What holds between two rounds. -/
structure Sound (w : Workload) (s : Progress) : Prop where
  balanced : s.ledger.Balanced w fun _ => False
  parted : (s.order ++ s.pending).Perm w.passes
  pending : s.pending.Sublist w.passes
  demanded : ∀ b, (s.ledger.demand? b).isSome ↔
    countConsumers w.required s.order b ≠ 0 ∧ ∀ q ∈ s.order, b ∉ q.writes
  uses : ∀ b d, s.ledger.demand? b = some d → d.uses = countConsumers w.required s.order b
  met : ∀ b, (s.ledger.allocation? b).isSome ↔ countConsumers w.required s.order b ≠ 0
  served : ∀ q ∈ s.order, ∀ b ∈ q.writes, ∀ p ∈ s.pending, b ∉ p.reads
  ordered : s.order.Pairwise fun p q => ∀ b ∈ q.writes, b ∉ p.reads
  wanted : ∀ q ∈ s.order, ∀ o ∈ q.outputs, w.consumersOf o.buffer = 0 → o.optional = true
  phases : s.placed.map (·.phase) = s.order.map (·.phase s.ledger.allocation?)

theorem ready_iff {l : Ledger} :
    w.ready l p = true ↔ ∀ o ∈ p.outputs, (w.consumersOf o.buffer = 0 → o.optional = true) ∧
      (w.consumersOf o.buffer ≠ 0 →
        ∃ d, l.demand? o.buffer = some d ∧ d.uses = w.consumersOf o.buffer) := by
  simp only [ready, List.all_eq_true]
  refine forall_congr' fun o => imp_congr_right fun _ => ?_
  by_cases hzero : w.consumersOf o.buffer = 0
  · simp [hzero]
  · simp [hzero, Option.any_eq_true]

theorem discards_iff {o : PassOutput} :
    w.discards o = true ↔ o.optional = true ∧ w.consumersOf o.buffer = 0 := by
  simp [discards]

namespace Sound

theorem mem_of_pending (hs : w.Sound s) (hp : p ∈ s.pending) : p ∈ w.passes :=
  hs.pending.subset hp

theorem mem_of_order (hs : w.Sound s) (hp : p ∈ s.order) : p ∈ w.passes :=
  hs.parted.subset (List.mem_append_left _ hp)

theorem mem_cases (hs : w.Sound s) (hp : p ∈ w.passes) : p ∈ s.order ∨ p ∈ s.pending :=
  List.mem_append.mp (hs.parted.symm.subset hp)

theorem apart (hw : w.WellFormed) (hs : w.Sound s) {q : Pass} (hq : q ∈ s.order)
    (hp : p ∈ s.pending) : q ≠ p := by
  have hnodup : (s.order ++ s.pending).Nodup :=
    hs.parted.nodup_iff.mpr hw.passes_nodup
  exact (List.nodup_append.mp hnodup).2.2 q hq p hp

theorem unwritten (hw : w.WellFormed) (hs : w.Sound s) (hp : p ∈ s.pending) (hb : b ∈ p.writes)
    {q : Pass} (hq : q ∈ s.order) : b ∉ q.writes := by
  intro hbq
  exact hs.apart hw hq hp (hw.separate q (hs.mem_of_order hq) p (hs.mem_of_pending hp) b hbq hb)

theorem consumersOf_eq (hw : w.WellFormed) (hs : w.Sound s) (hb : b < w.tableSize) :
    w.consumersOf b = countConsumers w.required s.order b +
      s.pending.countP fun p => p.reads.contains b := by
  rw [hw.consumers b hb, ← countConsumers_perm hs.parted, countConsumers_append]

/-- A consumer being pending, not all consumers have been placed. -/
theorem lt_consumersOf (hw : w.WellFormed) (hs : w.Sound s) (hp : p ∈ s.pending)
    (hb : b ∈ p.reads) : countConsumers w.required s.order b < w.consumersOf b := by
  have hpos : 0 < s.pending.countP fun p => p.reads.contains b :=
    List.countP_pos_iff.mpr ⟨p, hp, by simpa using hb⟩
  have hlt := (hw.valid p (hs.mem_of_pending hp)).reads_lt b hb
  rw [hs.consumersOf_eq hw hlt]
  omega

/-- An input of a pending pass is demanded as soon as it has a placed consumer. -/
theorem demanded_of_reads (hs : w.Sound s) (hp : p ∈ s.pending) (hb : b ∈ p.reads) :
    (s.ledger.demand? b).isSome ↔ countConsumers w.required s.order b ≠ 0 := by
  rw [hs.demanded, and_iff_left]
  exact fun q hq hbq => hs.served q hq b hbq p hp hb

/-- An output of a pending pass is demanded as soon as it has a placed consumer. -/
theorem demanded_of_writes (hw : w.WellFormed) (hs : w.Sound s) (hp : p ∈ s.pending)
    (hb : b ∈ p.writes) :
    (s.ledger.demand? b).isSome ↔ countConsumers w.required s.order b ≠ 0 := by
  rw [hs.demanded, and_iff_left]
  exact fun q hq => hs.unwritten hw hp hb hq

theorem fits (hw : w.WellFormed) (hs : w.Sound s) (hp : p ∈ s.pending)
    (hready : w.ready s.ledger p = true) : w.Fits s.ledger p where
  discarded := by
    intro o ho
    have hb : o.buffer ∈ p.writes := List.mem_map_of_mem ho
    have hlt := (hw.valid p (hs.mem_of_pending hp)).writes_lt _ hb
    obtain ⟨hoptional, hdemanded⟩ := ready_iff.mp hready o ho
    rw [discards_iff]
    constructor
    · intro hclosed
      rcases hclosed with ⟨-, hzero⟩
      rw [hs.consumersOf_eq hw hlt] at hzero
      rw [← Option.not_isSome_iff_eq_none, hs.demanded_of_writes hw hp hb]
      omega
    · intro hnone
      have hzero : w.consumersOf o.buffer = 0 := by
        by_contra hne
        obtain ⟨d, hd, -⟩ := hdemanded hne
        simp [hnone] at hd
      exact ⟨hoptional hzero, hzero⟩
  complete := by
    intro o ho d hd
    have hlt := (hw.valid p (hs.mem_of_pending hp)).writes_lt _ (List.mem_map_of_mem ho)
    have hne := ((hs.demanded o.buffer).mp (by simp [hd])).1
    obtain ⟨d', hd', huses⟩ := (ready_iff.mp hready o ho).2 (by
      rw [hs.consumersOf_eq hw hlt]
      omega)
    rw [hd] at hd'
    rwa [Option.some.inj hd']
  room := by
    intro i hi d hd
    rw [hs.uses _ d hd]
    exact hs.lt_consumersOf hw hp (List.mem_map_of_mem hi)

/-- The outputs of a ready pass have no consumer left. -/
theorem served_of_ready (hw : w.WellFormed) (hs : w.Sound s)
    (hready : w.ready s.ledger p = true) (hb : b ∈ p.writes) {q : Pass} (hq : q ∈ s.pending) :
    b ∉ q.reads := by
  intro hbq
  obtain ⟨o, ho, rfl⟩ := List.mem_map.mp hb
  have hlt := hs.lt_consumersOf hw hq hbq
  obtain ⟨d, hd, huses⟩ := (ready_iff.mp hready o ho).2 (by omega)
  rw [hs.uses _ d hd] at huses
  omega

end Sound

/-- A round that places a pass. -/
structure Places (w : Workload) (s : Progress) (p : Pass) (next : Progress) : Prop where
  pending : p ∈ s.pending
  ready : w.ready s.ledger p = true
  rest : next.pending = s.pending.eraseP (·.index == p.index)
  placed : ∃ placement, next.placed = placement :: s.placed ∧
    placement.chosen = ⟨p, w.plan s.ledger p⟩ ∧
    placement.phase = ⟨p.index, p.name,
      p.inputs.map fun i => ⟨i.port, i.buffer, next.ledger.slot? i.buffer⟩,
      p.outputs.map fun o => ⟨o.port, o.buffer, s.ledger.slot? o.buffer⟩⟩
  settled : w.Settled p s.ledger next.ledger

theorem place_ready (hw : w.WellFormed) (hs : w.Sound s) (hp : p ∈ s.pending)
    (hready : w.ready s.ledger p = true) (weighed : List Candidate) :
    ∃ next, w.place s weighed ⟨p, w.plan s.ledger p⟩ = .ok next ∧ w.Places s p next := by
  obtain ⟨l, placement, hplace, hchosen, hphase, hsettled⟩ :=
    place_spec hw (hs.mem_of_pending hp) hs.balanced (hs.fits hw hp hready) weighed
  exact ⟨_, hplace, hp, hready, rfl, ⟨placement, rfl, hchosen, hphase⟩, hsettled⟩

namespace Places

variable {next : Progress}

theorem order_eq (h : w.Places s p next) : next.order = p :: s.order := by
  obtain ⟨placement, hplaced, hchosen, -⟩ := h.placed
  simp [Progress.order, hplaced, hchosen]

/-- The pass placed is the one that leaves the pending ones. -/
theorem pending_eq (hw : w.WellFormed) (hs : w.Sound s) (h : w.Places s p next) :
    ∃ before after, s.pending = before ++ p :: after ∧ next.pending = before ++ after := by
  obtain ⟨q, before, after, -, hq, hpending, herase⟩ :=
    List.exists_of_eraseP h.pending (p := (·.index == p.index)) (by simp)
  have hindex : q.index = p.index := by simpa using hq
  have hmem : q ∈ s.pending := by simp [hpending]
  obtain rfl : q = p :=
    hw.index_injective (hs.mem_of_pending hmem) (hs.mem_of_pending h.pending) hindex
  exact ⟨before, after, hpending, h.rest.trans herase⟩

theorem count_eq (h : w.Places s p next) (b : Nat) :
    countConsumers w.required next.order b =
      countConsumers w.required s.order b + if b ∈ p.reads then 1 else 0 := by
  rw [h.order_eq, countConsumers_cons]

theorem supplied (h : w.Places s p next) (hb : b ∈ p.reads) :
    ∃ d, next.ledger.demand? b = some d ∧ Supplied w s.ledger p b d :=
  h.settled.supplied b hb

theorem allocation?_of_isSome (hs : w.Sound s) (h : w.Places s p next)
    (hb : (s.ledger.allocation? b).isSome) :
    next.ledger.allocation? b = s.ledger.allocation? b := by
  refine h.settled.recorded b ?_
  by_cases hread : b ∈ p.reads
  · exact .inr ((hs.demanded_of_reads h.pending hread).mpr ((hs.met b).mp hb))
  · exact .inl hread

/-- The slots on record of the pass placed: those of the demands for its inputs
now, and of the demands for its outputs before. -/
theorem phase_slots (hw : w.WellFormed) (hs : w.Sound s) (h : w.Places s p next) :
    p.phase next.ledger.allocation? = ⟨p.index, p.name,
      p.inputs.map fun i => ⟨i.port, i.buffer, next.ledger.slot? i.buffer⟩,
      p.outputs.map fun o => ⟨o.port, o.buffer, s.ledger.slot? o.buffer⟩⟩ := by
  rw [Pass.phase]
  congr 1
  · refine List.map_congr_left fun i hi => ?_
    obtain ⟨d, hd, -⟩ := h.supplied (List.mem_map_of_mem hi)
    have hslot : next.ledger.slot? i.buffer = some d.allocation := by simp [Ledger.slot?, hd]
    rw [hslot, h.settled.balanced.allocation?_of_slot? hslot]
  · refine List.map_congr_left fun o ho => ?_
    have hb : o.buffer ∈ p.writes := List.mem_map_of_mem ho
    have hread : o.buffer ∉ p.reads := fun hread =>
      (hw.valid p (hs.mem_of_pending h.pending)).disjoint _ hread hb
    rw [h.settled.recorded _ (.inl hread)]
    cases hslot : s.ledger.slot? o.buffer with
    | some x => rw [hs.balanced.allocation?_of_slot? hslot]
    | none =>
        have hzero : ¬(s.ledger.allocation? o.buffer).isSome := by
          rw [hs.met, ← hs.demanded_of_writes hw h.pending hb, Ledger.slot?_eq_none.mp hslot]
          simp
        rw [Option.not_isSome_iff_eq_none.mp hzero]

theorem phase_eq (hw : w.WellFormed) (hs : w.Sound s) (h : w.Places s p next) :
    next.placed.map (·.phase) =
      p.phase next.ledger.allocation? :: s.order.map (·.phase s.ledger.allocation?) := by
  obtain ⟨placement, hplaced, -, hphase⟩ := h.placed
  rw [hplaced, List.map_cons, hphase, hs.phases, h.phase_slots hw hs]

/-- The phases placed before keep their slots. -/
theorem phase_of_order (hs : w.Sound s) (h : w.Places s p next) {q : Pass} (hq : q ∈ s.order) :
    q.phase next.ledger.allocation? = q.phase s.ledger.allocation? := by
  refine Pass.phase_congr ?_ ?_
  · intro b hb
    refine h.allocation?_of_isSome hs ((hs.met b).mpr fun hzero => ?_)
    exact (countConsumers_eq_zero.mp hzero).2 q hq hb
  · exact fun b hb => h.settled.recorded b (.inl (hs.served q hq b hb p h.pending))

theorem demanded (hw : w.WellFormed) (hs : w.Sound s) (h : w.Places s p next) (b : Nat) :
    (next.ledger.demand? b).isSome ↔
      countConsumers w.required next.order b ≠ 0 ∧ ∀ q ∈ next.order, b ∉ q.writes := by
  have hvalid := hw.valid p (hs.mem_of_pending h.pending)
  rw [h.count_eq, h.order_eq, List.forall_mem_cons]
  by_cases hread : b ∈ p.reads
  · obtain ⟨d, hd, -⟩ := h.supplied hread
    simp only [hd, Option.isSome_some, hread, if_true, ne_eq, Nat.add_one_ne_zero,
      not_false_eq_true, true_and, true_iff]
    exact ⟨hvalid.disjoint b hread, fun q hq hbq => hs.served q hq b hbq p h.pending hread⟩
  · by_cases hwrite : b ∈ p.writes
    · simp [h.settled.written b hwrite, hwrite]
    · rw [h.settled.other b hread hwrite, hs.demanded]
      simp [hread, hwrite]

theorem uses (hs : w.Sound s) (h : w.Places s p next) {d : Demand}
    (hd : next.ledger.demand? b = some d) :
    d.uses = countConsumers w.required next.order b := by
  rw [h.count_eq]
  by_cases hread : b ∈ p.reads
  · obtain ⟨e, he, hsupplied⟩ := h.supplied hread
    obtain rfl : d = e := Option.some.inj (hd.symm.trans he)
    have hzero : s.ledger.demand? b = none → countConsumers w.required s.order b = 0 := by
      intro hnone
      have hdemanded := hs.demanded_of_reads h.pending hread
      simpa [hnone] using hdemanded
    rw [if_pos hread]
    cases hsupplied with
    | again hbefore => rw [hs.uses b _ hbefore]
    | donated hnone => rw [hzero hnone]
    | fresh hnone => rw [hzero hnone]
  · rw [if_neg hread]
    by_cases hwrite : b ∈ p.writes
    · simp [h.settled.written b hwrite] at hd
    · rw [h.settled.other b hread hwrite] at hd
      exact hs.uses b d hd

theorem met (hs : w.Sound s) (h : w.Places s p next) (b : Nat) :
    (next.ledger.allocation? b).isSome ↔ countConsumers w.required next.order b ≠ 0 := by
  rw [h.count_eq]
  by_cases hread : b ∈ p.reads
  · obtain ⟨d, hd, -⟩ := h.supplied hread
    simp [h.settled.balanced.recorded b d hd, hread]
  · rw [h.settled.recorded b (.inl hread), hs.met]
    simp [hread]

theorem sound (hw : w.WellFormed) (hs : w.Sound s) (h : w.Places s p next) : w.Sound next := by
  obtain ⟨before, after, hpending, hrest⟩ := h.pending_eq hw hs
  have hsub : ∀ q ∈ next.pending, q ∈ s.pending := by
    intro q hq
    rw [hrest, List.mem_append] at hq
    rw [hpending, List.mem_append, List.mem_cons]
    tauto
  refine {
    balanced := h.settled.balanced
    parted := ?_
    pending := h.rest ▸ List.eraseP_sublist.trans hs.pending
    demanded := h.demanded hw hs
    uses := fun b d hd => h.uses hs hd
    met := h.met hs
    served := ?_
    ordered := ?_
    wanted := ?_
    phases := ?_ }
  · have hparted := hs.parted
    rw [hpending] at hparted
    rw [h.order_eq, hrest]
    refine .trans ?_ hparted
    rw [List.cons_append, ← List.append_assoc, ← List.append_assoc]
    exact List.perm_middle.symm
  · intro q hq b hb r hr
    rw [h.order_eq] at hq
    rcases List.mem_cons.mp hq with rfl | hq
    · exact hs.served_of_ready hw h.ready hb (hsub r hr)
    · exact hs.served q hq b hb r (hsub r hr)
  · rw [h.order_eq, List.pairwise_cons]
    exact ⟨fun q hq b hb => hs.served q hq b hb p h.pending, hs.ordered⟩
  · rw [h.order_eq, List.forall_mem_cons]
    exact ⟨fun o ho => (ready_iff.mp h.ready o ho).1, hs.wanted⟩
  · rw [h.phase_eq hw hs, h.order_eq, List.map_cons]
    congr 1
    exact List.map_congr_left fun q hq => (h.phase_of_order hs hq).symm

end Places

theorem leastCost_eq_none {cs : List Candidate} : leastCost cs = none ↔ cs = [] := by
  cases cs with
  | nil => simp [leastCost]
  | cons c cs =>
      simp only [leastCost, reduceCtorEq, iff_false]
      cases leastCost cs with
      | none => simp
      | some best =>
          simp only
          split_ifs <;> simp

theorem mem_of_leastCost {cs : List Candidate} {c : Candidate} (h : leastCost cs = some c) :
    c ∈ cs := by
  induction cs generalizing c with
  | nil => cases h
  | cons first cs ih =>
      rw [leastCost] at h
      cases hbest : leastCost cs with
      | none =>
          simp only [hbest, Option.some.injEq] at h
          simp [h]
      | some best =>
          simp only [hbest] at h
          split_ifs at h
          · simp [Option.some.inj h]
          · exact List.mem_cons_of_mem _ (ih (hbest.trans h))

theorem mem_candidates {c : Candidate} :
    c ∈ w.candidates s ↔ c.pass ∈ s.pending ∧ w.ready s.ledger c.pass = true ∧
      c.plan = w.plan s.ledger c.pass := by
  obtain ⟨pass, plan⟩ := c
  simp only [candidates, List.mem_map, List.mem_filter, Candidate.mk.injEq]
  constructor
  · intro hcandidate
    rcases hcandidate with ⟨q, ⟨hq, hready⟩, rfl, rfl⟩
    exact ⟨hq, hready, rfl⟩
  · intro hcandidate
    rcases hcandidate with ⟨hq, hready, rfl⟩
    exact ⟨pass, ⟨hq, hready⟩, rfl, rfl⟩

/-- Nothing can be placed any more. -/
def Stuck (w : Workload) (s : Progress) : Prop :=
  s.ledger.openCount = 0 ∨ ∀ p ∈ s.pending, w.ready s.ledger p = false

/-- A round places a pass or finds that it cannot; it does not fail. -/
theorem round_spec (hw : w.WellFormed) (hs : w.Sound s) :
    (∃ p next, w.round s = .ok (some next) ∧ w.Places s p next) ∨
      w.round s = .ok none ∧ w.Stuck s := by
  by_cases hopen : s.ledger.openCount = 0
  · exact .inr ⟨by rw [round, if_pos hopen], .inl hopen⟩
  · rw [round, if_neg hopen]
    cases hleast : leastCost (w.candidates s) with
    | none =>
        refine .inr ⟨by simp only [hleast], .inr fun p hp => ?_⟩
        by_contra hready
        have hmem : (⟨p, w.plan s.ledger p⟩ : Candidate) ∈ w.candidates s :=
          mem_candidates.mpr ⟨hp, by simpa using hready, rfl⟩
        simp [leastCost_eq_none.mp hleast] at hmem
    | some c =>
        obtain ⟨hp, hready, hplan⟩ := mem_candidates.mp (mem_of_leastCost hleast)
        obtain ⟨next, hplace, hplaces⟩ := place_ready hw hs hp hready (w.candidates s)
        refine .inl ⟨c.pass, next, ?_, hplaces⟩
        rw [← hplan] at hplace
        simp only [hleast]
        exact bind_eq_ok.mpr ⟨next, hplace, rfl⟩

/-- The progresses that the loop goes through. -/
inductive Head (w : Workload) : Progress → Prop
  | start : Head w w.start
  | round {s next : Progress} : Head w s → w.round s = .ok (some next) → Head w next

/-- The loop ends where nothing can be placed any more. -/
theorem rounds_spec (hw : w.WellFormed) (hs : w.Sound s) (hhead : w.Head s) (bound : Nat)
    (hbound : s.pending.length ≤ bound) :
    ∃ last, w.rounds bound s = .ok last ∧ w.Head last ∧ w.Sound last ∧ w.Stuck last := by
  induction bound generalizing s with
  | zero =>
      have hnil : s.pending = [] := List.length_eq_zero_iff.mp (Nat.le_zero.mp hbound)
      exact ⟨s, rfl, hhead, hs, .inr (by simp [hnil])⟩
  | succ bound ih =>
      rcases round_spec hw hs with ⟨p, next, hround, hplaces⟩ | ⟨hround, hstuck⟩
      · obtain ⟨before, after, hpending, hrest⟩ := hplaces.pending_eq hw hs
        have hlength : next.pending.length ≤ bound := by
          rw [hpending] at hbound
          simp only [hrest, List.length_append, List.length_cons] at hbound ⊢
          omega
        obtain ⟨last, hrounds, hlast⟩ := ih (hplaces.sound hw hs) (hhead.round hround) hlength
        exact ⟨last, bind_eq_ok.mpr ⟨_, hround, hrounds⟩, hlast⟩
      · exact ⟨s, bind_eq_ok.mpr ⟨_, hround, rfl⟩, hhead, hs, hstuck⟩

/-- The ledger while the required buffers get their slots. -/
structure Opening (w : Workload) (done : List Nat) (l : Ledger) : Prop where
  balanced : l.Balanced w fun _ => False
  full : ∀ id, l.slots.Full id
  demanded : ∀ b, (l.demand? b).isSome ↔ b ∈ done
  uses : ∀ b d, l.demand? b = some d → d.uses = 1
  met : ∀ b, (l.allocation? b).isSome ↔ b ∈ done

theorem opening_blank (hw : w.WellFormed) :
    w.Opening [] (.blank w.slots w.tableSize) := by
  have hdemand : ∀ b, (Ledger.blank w.slots w.tableSize).demand? b = none := by
    intro b
    simp only [Ledger.demand?, Ledger.blank, List.getElem?_replicate]
    split_ifs <;> rfl
  have hallocation : ∀ b, (Ledger.blank w.slots w.tableSize).allocation? b = none := by
    intro b
    simp only [Ledger.allocation?, Ledger.blank, List.getElem?_replicate]
    split_ifs <;> rfl
  refine ⟨?_, hw.unused.full, by simp [hdemand], by simp [hdemand], by simp [hallocation]⟩
  exact {
    demands_length := by simp [Ledger.blank]
    allocations_length := by simp [Ledger.blank]
    openCount := by simp [Ledger.blank, List.countP_replicate]
    classes := rfl
    valid := hw.unused.valid
    live := by
      intro x
      have hx : ¬(Ledger.blank w.slots w.tableSize).slots.Live x := hw.unused.not_live x
      simpa [Ledger.Demanded, hdemand] using hx
    apart := by simp
    injective := by simp [hdemand]
    recorded := by simp [hdemand]
    classed := by simp [hallocation]
    minted := by simp [hallocation] }

theorem Opening.openRequired {done : List Nat} {l : Ledger} (h : w.Opening done l)
    (hlt : b < w.tableSize) (hnew : b ∉ done) (hid : w.classId b < w.slots.classes.length) :
    w.Opening (done ++ [b]) (w.openRequired l b) := by
  obtain ⟨hclass, hunused, hhanded, hacquired⟩ := h.balanced.acquire hid
  have hnone : l.demand? b = none := by
    rw [← Option.not_isSome_iff_eq_none, h.demanded]
    exact hnew
  have hdemands : b < l.demands.length := h.balanced.demands_length ▸ hlt
  have hallocations : b < l.allocations.length := h.balanced.allocations_length ▸ hlt
  have hdemand : ∀ c, (w.openRequired l b).demand? c =
      if c = b then some ⟨1, (l.acquire (w.classId b)).1⟩ else l.demand? c :=
    Ledger.demand?_openDemand (l := (l.acquire (w.classId b)).2) hdemands
  have hallocation : ∀ c, (w.openRequired l b).allocation? c =
      if c = b then some (l.acquire (w.classId b)).1 else l.allocation? c :=
    Ledger.allocation?_openDemand (l := (l.acquire (w.classId b)).2) hallocations
  refine ⟨?_, fun id => hhanded.full (h.full id), ?_, ?_, ?_⟩
  · exact (hacquired.openDemand hlt hnone (.inr rfl) hclass).congr (by simp)
  · intro c
    rw [hdemand, List.mem_append, List.mem_singleton, ← h.demanded]
    split_ifs with hc <;> simp [hc]
  · intro c d hd
    rw [hdemand] at hd
    split_ifs at hd
    · rw [← Option.some.inj hd]
    · exact h.uses c d hd
  · intro c
    rw [hallocation, List.mem_append, List.mem_singleton, ← h.met]
    split_ifs with hc <;> simp [hc]

theorem opening_startLedger (hw : w.WellFormed) : w.Opening w.required w.startLedger := by
  have hrest : ∀ rest done l, done ++ rest = w.required → w.Opening done l →
      w.Opening w.required (rest.foldl w.openRequired l) := by
    intro rest
    induction rest with
    | nil =>
        intro done l hdone hl
        rw [List.append_nil] at hdone
        exact hdone ▸ hl
    | cons b rest ih =>
        intro done l hdone hl
        have hb : b ∈ w.required := by simp [← hdone]
        have hnew : b ∉ done := by
          have hnodup := hw.required_nodup
          rw [← hdone] at hnodup
          simpa using notMem_map_of_nodup (f := id) (by simpa using hnodup)
        refine ih (done ++ [b]) _ (by simpa using hdone) ?_
        exact hl.openRequired (hw.required_lt b hb) hnew (hw.class_lt b (.inl hb))
  exact hrest w.required [] _ rfl (opening_blank hw)

theorem sound_start (hw : w.WellFormed) : w.Sound w.start := by
  have hopening := opening_startLedger hw
  have hcount : ∀ b, countConsumers w.required [] b ≠ 0 ↔ b ∈ w.required := by
    simp [countConsumers]
  exact {
    balanced := hopening.balanced
    parted := .refl _
    pending := .refl _
    demanded := by
      intro b
      refine (hopening.demanded b).trans ?_
      simp [start, Progress.order, hcount]
    uses := by
      intro b d hd
      rw [hopening.uses b d hd]
      have hsome : (w.startLedger.demand? b).isSome := Option.isSome_of_mem hd
      have hb : b ∈ w.required := (hopening.demanded b).mp hsome
      simp [start, Progress.order, countConsumers, hb]
    met := by
      intro b
      refine (hopening.met b).trans ?_
      simp [start, Progress.order, hcount]
    served := by simp [start, Progress.order]
    ordered := .nil
    wanted := by simp [start, Progress.order]
    phases := rfl }

/-- The loop never fails. -/
theorem finish_spec (hw : w.WellFormed) :
    ∃ last, w.finish = .ok last ∧ w.Head last ∧ w.Sound last ∧ w.Stuck last :=
  rounds_spec hw (sound_start hw) .start _ (Nat.le_refl _)

/-- A property of all heads: it holds at the start and every round keeps it. -/
theorem Head.induction (hw : w.WellFormed) {motive : Progress → Prop} (hstart : motive w.start)
    (hround : ∀ s p next, w.Sound s → w.Places s p next → motive s → motive next)
    (h : w.Head s) : w.Sound s ∧ motive s := by
  induction h with
  | start => exact ⟨sound_start hw, hstart⟩
  | @round s next _ hnext ih =>
      obtain ⟨hs, hmotive⟩ := ih
      rcases round_spec hw hs with ⟨p, other, hother, hplaces⟩ | ⟨hnone, -⟩
      · rw [hnext] at hother
        obtain rfl : next = other := by simpa using hother
        exact ⟨hplaces.sound hw hs, hround s p next hs hplaces hmotive⟩
      · rw [hnext] at hnone
        simp at hnone

theorem Head.sound (hw : w.WellFormed) (h : w.Head s) : w.Sound s :=
  (h.induction hw (motive := fun _ => True) trivial fun _ _ _ _ _ _ => trivial).1

end Workload
end FrameGraph
