import FrameGraph.Proofs.Renaming
import FrameGraph.Proofs.StallDiagnosis
import Mathlib.Data.List.Find

/-!
# Placements under a renaming

Two workloads that differ by a renaming are placed in the same way. Nothing that
a round decides looks at the numbers: a pass is ready or not, costs what it costs
and applies its bindings whatever its buffers, classes and slots are called. So
when the ledgers at the start are renamed, every round places the renamed pass
and leaves renamed ledgers, and the outcomes are the same up to the renaming.
-/
namespace FrameGraph

/-- Items that are told apart stay so. -/
theorem eraseDups_map {f : Nat → Nat} (hf : f.Injective) (xs : List Nat) :
    (xs.map f).eraseDups = xs.eraseDups.map f := by
  cases xs with
  | nil => rfl
  | cons x xs =>
      have hfilter : (xs.map f).filter (fun y => !y == f x) =
          (xs.filter fun y => !y == x).map f := by
        rw [List.filter_map]
        congr 1
        apply List.filter_congr
        intro y _
        simp [hf.eq_iff]
      rw [List.map_cons, List.eraseDups_cons, List.eraseDups_cons, List.map_cons, hfilter,
        eraseDups_map hf]
termination_by xs.length
decreasing_by
  have hlength := List.length_filter_le (fun y => !y == x) xs
  simp only [List.length_cons]
  omega

theorem eraseP_map {α β : Type} {f : α → β} {p : α → Bool} {q : β → Bool} {xs : List α}
    (h : ∀ x ∈ xs, q (f x) = p x) : (xs.map f).eraseP q = (xs.eraseP p).map f := by
  induction xs with
  | nil => rfl
  | cons x xs ih =>
      rw [List.forall_mem_cons] at h
      rw [List.map_cons, List.eraseP_cons, List.eraseP_cons, h.1, ih h.2]
      cases p x <;> rfl

/-- Steps that keep two states related do so over a list. -/
theorem thread_related {σ σ' α α' β β' : Type} {step : σ → α → Except GraphError (σ × β)}
    {step' : σ' → α' → Except GraphError (σ' × β')} {R : σ → σ' → Prop} {f : α → α'} {g : β → β'}
    {xs : List α} (hstep : ∀ a ∈ xs, ∀ s s' t b, R s s' → step s a = .ok (t, b) →
      ∃ t', step' s' (f a) = .ok (t', g b) ∧ R t t') {s t : σ} {s' : σ'} {bs : List β}
    (hs : R s s') (h : thread step s xs = .ok (t, bs)) :
    ∃ t', thread step' s' (xs.map f) = .ok (t', bs.map g) ∧ R t t' := by
  induction xs generalizing s s' bs with
  | nil =>
      cases h
      exact ⟨s', rfl, hs⟩
  | cons a xs ih =>
      rw [List.forall_mem_cons] at hstep
      obtain ⟨⟨u, b⟩, hfirst, h⟩ := bind_eq_ok.mp h
      obtain ⟨⟨t, bs⟩, hrest, h⟩ := bind_eq_ok.mp h
      cases h
      obtain ⟨u', hu', hu⟩ := hstep.1 s s' u b hs hfirst
      obtain ⟨t', ht', ht⟩ := ih hstep.2 hu hrest
      refine ⟨t', ?_, ht⟩
      exact bind_eq_ok.mpr ⟨_, hu', bind_eq_ok.mpr ⟨_, ht', rfl⟩⟩

/-- The second workload is the first one renamed. -/
structure Workload.Renamed (ρ : Renaming) (w w' : Workload) : Prop where
  config_eq : w'.config = w.config
  passes_eq : w'.passes = w.passes.map ρ.pass
  valid : ∀ p ∈ w.passes, p.Valid w.tableSize
  index_injective : ∀ p ∈ w.passes, ∀ q ∈ w.passes,
    ρ.index p.index = ρ.index q.index → p.index = q.index
  bufferName_eq : ∀ b, w'.bufferName (ρ.buffer b) = w.bufferName b
  consumersOf_eq : ∀ b, w'.consumersOf (ρ.buffer b) = w.consumersOf b
  cost_eq : ∀ b, w'.cost (ρ.buffer b) = w.cost b
  classId_eq : ∀ b < w.tableSize, w'.classId (ρ.buffer b) = ρ.classId (w.classId b)
  unitCost_eq : ∀ id, w'.unitCost (ρ.classId id) = w.unitCost id

/-- The second progress is the first one renamed. -/
structure Progress.Renamed (ρ : Renaming) (w : Workload) (s s' : Progress) : Prop where
  ledger : s.ledger.Renamed ρ s'.ledger
  pending_eq : s'.pending = s.pending.map ρ.pass
  pending_mem : ∀ p ∈ s.pending, p ∈ w.passes
  phases_eq : s'.placed.map (·.phase) = (s.placed.map (·.phase)).map ρ.phase

/-- The second schedule is the first one renamed, and slots that do not exist
keep their numbers. -/
structure Schedule.Renamed (ρ : Renaming) (s s' : Schedule) : Prop where
  phases_eq : s'.phases = s.phases.map ρ.phase
  peaks : Moved ρ.classId (fun _ e => e) s.peaks s'.peaks
  allocations : Moved ρ.buffer (fun _ => Option.map ρ.allocation) s.allocations s'.allocations
  resolution_eq : s'.resolution = s.resolution
  fixed : ∀ id e, s.peaks[id]? = some e → ∀ k, e.2 ≤ k → ρ.slot id k = k

section
variable {ρ : Renaming} {s s' : Schedule}

theorem Schedule.Renamed.peaks_eq (h : s.Renamed ρ s') (hρ : ρ.KeepsSlots) :
    s'.peaks = s.peaks := by
  apply List.ext_getElem?
  intro id
  have hentry := h.peaks id
  rwa [hρ.classId_eq, Option.map_id'] at hentry

theorem Schedule.Renamed.allocations_eq (h : s.Renamed ρ s') (hρ : ρ.KeepsSlots) (b : Nat) :
    s'.allocations[ρ.buffer b]? = s.allocations[b]? := by
  rw [h.allocations b, hρ.allocation_eq_id, Option.map_id, Option.map_id, id]

end

/-- Both results are schedules, the second one renamed, or both are the same
error, but for the order in which unresolved buffers are listed. -/
inductive SameOutcome (ρ : Renaming) :
    Except GraphError Schedule → Except GraphError Schedule → Prop
  | scheduled {s s' : Schedule} : s.Renamed ρ s' → SameOutcome ρ (.ok s) (.ok s')
  | failed {e : GraphError} : SameOutcome ρ (.error e) (.error e)
  | unrealizable {buffers buffers' operations : List String} : buffers'.Perm buffers →
      ((∀ b, ρ.buffer b = b) → buffers' = buffers) →
      SameOutcome ρ (.error (.unrealizable buffers operations))
        (.error (.unrealizable buffers' operations))

/-- Errors are the same when they list the same buffers by the numbers of each. -/
theorem SameOutcome.of_listed {ρ : Renaming} {bs bs' : List Nat} {name name' : Nat → String}
    (operations : List String) (hbs : bs.Pairwise (· < ·)) (hbs' : bs'.Pairwise (· < ·))
    (hmem : ∀ b, ρ.buffer b ∈ bs' ↔ b ∈ bs) (hname : ∀ b, name' (ρ.buffer b) = name b) :
    SameOutcome ρ (.error (.unrealizable (bs.map name) operations))
      (.error (.unrealizable (bs'.map name') operations)) := by
  apply SameOutcome.unrealizable
  · have hperm : bs'.Perm (bs.map ρ.buffer) := by
      have hnodup : bs.Nodup := hbs.imp Nat.ne_of_lt
      rw [List.perm_ext_iff_of_nodup (hbs'.imp Nat.ne_of_lt) (hnodup.map ρ.buffer.injective)]
      intro c
      obtain ⟨b, rfl⟩ := ρ.buffer.surjective c
      rw [hmem, List.mem_map_of_injective ρ.buffer.injective]
    have hnames := hperm.map name'
    rw [List.map_map] at hnames
    simpa only [Function.comp_def, hname] using hnames
  · intro hbuffer
    have hsame : bs' = bs := by
      apply hbs'.eq_of_mem_iff hbs
      intro b
      rw [← hmem, hbuffer]
    rw [hsame]
    apply List.map_congr_left
    intro b _
    rw [← hname, hbuffer]

namespace Workload.Renamed

variable {ρ : Renaming} {w w' : Workload} {l l' m : Ledger} {p : Pass}

section
variable (h : w.Renamed ρ w') (hl : l.Renamed ρ l')
include h

theorem discards_eq (o : PassOutput) : w'.discards (ρ.output o) = w.discards o := by
  unfold discards
  rw [Renaming.buffer_output, h.consumersOf_eq, Renaming.optional_output]

theorem lt_of_reads (hp : p ∈ w.passes) {b : Nat} (hb : b ∈ p.reads) : b < w.tableSize :=
  (h.valid p hp).reads_lt b hb

/-- The check of the bindings gives the same result. -/
theorem checkBindings_eq {ps : List Pass} (hps : ∀ p ∈ ps, p ∈ w.passes) :
    w'.checkBindings (ps.map ρ.pass) = w.checkBindings ps := by
  induction ps with
  | nil => rfl
  | cons p ps ih =>
      rw [List.forall_mem_cons] at hps
      have hmatch : ∀ e ∈ p.sharing,
          (w'.classId (ρ.port e.1).buffer != w'.classId (ρ.output e.2).buffer) =
            (w.classId e.1.buffer != w.classId e.2.buffer) := by
        intro e he
        have hread : e.1.buffer ∈ p.reads := List.mem_map_of_mem (Pass.mem_inputs_of_sharing he)
        have hwrite : e.2.buffer ∈ p.writes := List.mem_map_of_mem (Pass.mem_outputs_of_sharing he)
        rw [Renaming.buffer_port, Renaming.buffer_output,
          h.classId_eq _ (h.lt_of_reads hps.1 hread),
          h.classId_eq _ ((h.valid p hps.1).writes_lt _ hwrite), Bool.eq_iff_iff, bne_iff_ne,
          bne_iff_ne, Ne, Ne, ρ.classId.apply_eq_iff_eq]
      have hfind : (ρ.pass p).sharing.find?
            (fun e => w'.classId e.1.buffer != w'.classId e.2.buffer) =
          (p.sharing.find? fun e => w.classId e.1.buffer != w.classId e.2.buffer).map
            (Prod.map ρ.port ρ.output) := by
        rw [Renaming.sharing_pass, List.find?_map]
        exact congrArg _ (List.find?_congr hmatch)
      have hsharing : w'.checkSharing (ρ.pass p) = w.checkSharing p := by
        unfold checkSharing
        rw [hfind]
        cases p.sharing.find? fun e => w.classId e.1.buffer != w.classId e.2.buffer with
        | none => rfl
        | some e =>
            dsimp only [Option.map_some, Prod.map]
            rw [Renaming.buffer_port, Renaming.buffer_output, h.bufferName_eq, h.bufferName_eq]
            rfl
      rw [List.map_cons, checkBindings, checkBindings, hsharing, ih hps.2]

include hl

theorem ready_eq (p : Pass) : w'.ready l' (ρ.pass p) = w.ready l p := by
  unfold ready
  rw [Renaming.pass, List.all_map]
  apply congrArg (fun test => List.all p.outputs test)
  funext o
  simp only [Function.comp_apply, Renaming.buffer_output, Renaming.optional_output,
    h.consumersOf_eq, hl.demand?_eq]
  cases l.demand? o.buffer <;> rfl

theorem inPlace_eq (p : Pass) :
    w'.inPlace l' (ρ.pass p) = (w.inPlace l p).map (Prod.map ρ.port ρ.output) := by
  unfold inPlace
  rw [Renaming.sharing_pass, List.filter_map]
  congr 1
  apply List.filter_congr
  intro e _
  simp [h.discards_eq, hl.demand?_eq]

theorem freshInputs_eq (p : Pass) :
    w'.freshInputs l' (ρ.pass p) = (w.freshInputs l p).map ρ.buffer := by
  unfold freshInputs
  rw [Renaming.reads_pass, List.filter_map, h.inPlace_eq hl]
  congr 1
  apply List.filter_congr
  intro b _
  simp [Renaming.donor?_map, hl.demand?_eq]

theorem freedOutputs_eq (p : Pass) :
    w'.freedOutputs l' (ρ.pass p) = (w.freedOutputs l p).map ρ.buffer := by
  unfold freedOutputs
  rw [h.inPlace_eq hl, Renaming.pass, List.filter_map, List.map_map, List.map_map]
  simp only [Function.comp_def, h.discards_eq, Renaming.buffer_output, Renaming.donates_map]

theorem classGrowth_eq (ids : List Nat) (id : Nat) :
    w'.classGrowth l' (ids.map ρ.classId) (ρ.classId id) = w.classGrowth l ids id := by
  unfold classGrowth
  rw [h.unitCost_eq, List.count_map_of_injective ids ρ.classId ρ.classId.injective,
    hl.slots.freeCount_eq]

theorem growth_eq {fresh : List Nat} (hfresh : ∀ b ∈ fresh, b < w.tableSize) :
    w'.growth l' (fresh.map ρ.buffer) = w.growth l fresh := by
  have hids : (fresh.map ρ.buffer).map w'.classId = (fresh.map w.classId).map ρ.classId := by
    rw [List.map_map, List.map_map]
    exact List.map_congr_left fun b hb => h.classId_eq b (hfresh b hb)
  unfold growth
  dsimp only
  rw [hids, eraseDups_map ρ.classId.injective, List.foldl_map]
  simp only [h.classGrowth_eq hl]

omit hl in
theorem liveChange_eq (fresh freed : List Nat) :
    w'.liveChange (fresh.map ρ.buffer) (freed.map ρ.buffer) = w.liveChange fresh freed := by
  unfold liveChange
  rw [List.foldl_map, List.foldl_map]
  simp only [h.cost_eq]

/-- A pass costs the same and applies the same bindings. -/
theorem plan_eq (hp : p ∈ w.passes) : w'.plan l' (ρ.pass p) = ρ.plan (w.plan l p) := by
  have hfresh : ∀ b ∈ w.freshInputs l p, b < w.tableSize := fun b hb =>
    h.lt_of_reads hp (List.mem_of_mem_filter hb)
  unfold plan Renaming.plan
  rw [h.freshInputs_eq hl, h.freedOutputs_eq hl, h.growth_eq hl hfresh, h.liveChange_eq,
    h.config_eq, h.inPlace_eq hl]

end

theorem collectOutput (h : w.Renamed ρ w') (p : Pass) {o : PassOutput} {q : PortSlot}
    (hl : l.Renamed ρ l') (hcollect : w.collectOutput p l o = .ok (m, q)) :
    ∃ m', w'.collectOutput (ρ.pass p) l' (ρ.output o) = .ok (m', ρ.portSlot q) ∧
      m.Renamed ρ m' := by
  unfold Workload.collectOutput at hcollect ⊢
  rw [h.discards_eq, Renaming.buffer_output, hl.demand?_eq, h.consumersOf_eq]
  split_ifs at hcollect ⊢ with hdiscards
  · cases hcollect
    exact ⟨l', rfl, hl⟩
  · cases hd : l.demand? o.buffer with
    | none => simp [hd] at hcollect
    | some d =>
        rw [hd] at hcollect
        dsimp only [Option.map_some] at hcollect ⊢
        have huses : (ρ.demand d).uses = d.uses := rfl
        rw [huses]
        split_ifs at hcollect ⊢ with hserved
        cases hcollect
        exact ⟨_, rfl, hl.closeDemand o.buffer⟩

theorem supplyInput (h : w.Renamed ρ w') (plan : Plan) (outputs : List PortSlot)
    {i : PresentPort} {q : PortSlot × Option Allocation} (hi : i.buffer < w.tableSize)
    (hl : l.Renamed ρ l') (hsupply : w.supplyInput plan outputs l i = .ok (m, q)) :
    ∃ m', w'.supplyInput (ρ.plan plan) (outputs.map ρ.portSlot) l' (ρ.port i) =
        .ok (m', Prod.map ρ.portSlot (Option.map ρ.allocation) q) ∧ m.Renamed ρ m' := by
  have hdonated : (Plan.donor? (ρ.plan plan).inPlace (ρ.port i).buffer).bind
      (Phase.slotOf (outputs.map ρ.portSlot)) =
      ((Plan.donor? plan.inPlace i.buffer).bind (Phase.slotOf outputs)).map ρ.allocation := by
    rw [Renaming.plan, Renaming.buffer_port, Renaming.donor?_map]
    cases Plan.donor? plan.inPlace i.buffer with
    | none => rfl
    | some b => exact ρ.slotOf_map outputs b
  unfold Workload.supplyInput at hsupply ⊢
  rw [hdonated, Renaming.buffer_port, hl.demand?_eq, h.consumersOf_eq, h.classId_eq _ hi]
  cases hx : (Plan.donor? plan.inPlace i.buffer).bind (Phase.slotOf outputs) with
  | some x =>
      rw [hx] at hsupply
      cases hsupply
      exact ⟨_, rfl, hl.openDemand i.buffer x⟩
  | none =>
      rw [hx] at hsupply
      dsimp only [Option.map_none] at hsupply ⊢
      cases hd : l.demand? i.buffer with
      | some d =>
          rw [hd] at hsupply
          dsimp only [Option.map_some] at hsupply ⊢
          have huses : (ρ.demand d).uses = d.uses := rfl
          rw [huses]
          split_ifs at hsupply ⊢ with hlt
          cases hsupply
          exact ⟨_, rfl, hl.addUse i.buffer d⟩
      | none =>
          rw [hd] at hsupply
          cases hsupply
          obtain ⟨hslot, hledger⟩ := hl.acquire (w.classId i.buffer)
          rw [Option.map_none]
          dsimp only
          rw [hslot]
          exact ⟨_, rfl, hledger.openDemand i.buffer _⟩

/-- The slots given back: those of the kept outputs that are not handed on. -/
theorem released_map (ρ : Renaming) (inPlace : List (PresentPort × PassOutput))
    (outputs : List PortSlot) :
    (((outputs.map ρ.portSlot).filter fun o =>
        !Plan.donates (inPlace.map (Prod.map ρ.port ρ.output)) o.buffer).filterMap
          (·.allocation)) =
      ((outputs.filter fun o => !Plan.donates inPlace o.buffer).filterMap (·.allocation)).map
        ρ.allocation := by
  rw [List.filter_map, List.filterMap_map, List.map_filterMap]
  simp only [Function.comp_def, Renaming.buffer_portSlot, Renaming.donates_map,
    Renaming.allocation_portSlot]

/-- A pass leaves the pending ones under its new index. -/
theorem eraseP_pending (h : w.Renamed ρ w') {ps : List Pass} (hps : ∀ p ∈ ps, p ∈ w.passes)
    (hp : p ∈ w.passes) : (ps.map ρ.pass).eraseP (·.index == (ρ.pass p).index) =
      (ps.eraseP (·.index == p.index)).map ρ.pass := by
  apply eraseP_map
  intro q hq
  rw [Bool.eq_iff_iff, beq_iff_eq, beq_iff_eq]
  constructor
  · exact h.index_injective q (hps q hq) p hp
  · exact congrArg ρ.index

theorem place (h : w.Renamed ρ w') {s s' next : Progress} (hs : s.Renamed ρ w s')
    {weighed : List Candidate} {c : Candidate} (hc : c.pass ∈ w.passes)
    (hplace : w.place s weighed c = .ok next) (weighed' : List Candidate) :
    ∃ next', w'.place s' weighed' (ρ.candidate c) = .ok next' ∧ next.Renamed ρ w next' := by
  obtain ⟨⟨l₁, outputs⟩, hcollect, hplace⟩ := bind_eq_ok.mp hplace
  obtain ⟨⟨l₂, supplied⟩, hsupply, hplace⟩ := bind_eq_ok.mp hplace
  obtain ⟨l₃, hrelease, hplace⟩ := bind_eq_ok.mp hplace
  cases hplace
  obtain ⟨m₁, hm₁, hl₁⟩ := thread_related (R := Ledger.Renamed ρ) (f := ρ.output)
    (g := ρ.portSlot) (fun o _ l l' m q hl hq => h.collectOutput c.pass hl hq) hs.ledger hcollect
  obtain ⟨m₂, hm₂, hl₂⟩ := thread_related (R := Ledger.Renamed ρ) (f := ρ.port)
    (fun i hi l l' m q hl hq =>
      h.supplyInput c.plan outputs (h.lt_of_reads hc (List.mem_map_of_mem hi)) hl hq) hl₁ hsupply
  obtain ⟨m₃, hm₃, hl₃⟩ := hl₂.releaseAll hrelease
  rw [← released_map] at hm₃
  refine ⟨_, bind_eq_ok.mpr ⟨_, hm₁, bind_eq_ok.mpr ⟨_, hm₂, bind_eq_ok.mpr ⟨_, hm₃, rfl⟩⟩⟩, ?_⟩
  constructor
  · exact hl₃
  · dsimp only
    rw [hs.pending_eq]
    exact h.eraseP_pending hs.pending_mem hc
  · exact fun p hp => hs.pending_mem p (List.mem_of_mem_eraseP hp)
  · dsimp only
    rw [List.map_cons, List.map_cons, List.map_cons, hs.phases_eq]
    congr 1
    simp [Renaming.phase, Renaming.candidate, Renaming.pass, Function.comp_def]

theorem candidates_eq (h : w.Renamed ρ w') {s s' : Progress} (hs : s.Renamed ρ w s') :
    w'.candidates s' = (w.candidates s).map ρ.candidate := by
  have hready : ∀ p, w'.ready s'.ledger (ρ.pass p) = w.ready s.ledger p := h.ready_eq hs.ledger
  unfold candidates
  rw [hs.pending_eq, List.filter_map, List.map_map, List.map_map]
  simp only [Function.comp_def, hready]
  apply List.map_congr_left
  intro p hp
  rw [h.plan_eq hs.ledger (hs.pending_mem p (List.mem_of_mem_filter hp))]
  rfl

/-- A round places the renamed pass, or none. -/
theorem round (h : w.Renamed ρ w') {s s' : Progress} (hs : s.Renamed ρ w s')
    {result : Option Progress} (hround : w.round s = .ok result) :
    ∃ result', w'.round s' = .ok result' ∧ Option.Rel (Progress.Renamed ρ w) result result' := by
  unfold Workload.round at hround ⊢
  dsimp only at hround ⊢
  rw [hs.ledger.openCount_eq, h.candidates_eq hs, Renaming.leastCost_map]
  split_ifs at hround ⊢ with hopen
  · cases hround
    exact ⟨none, rfl, .none⟩
  · cases hleast : leastCost (w.candidates s) with
    | none =>
        simp only [hleast] at hround
        cases hround
        exact ⟨none, rfl, .none⟩
    | some c =>
        simp only [hleast] at hround
        obtain ⟨next, hplace, hround⟩ := bind_eq_ok.mp hround
        cases hround
        have hc := hs.pending_mem _ (mem_candidates.mp (mem_of_leastCost hleast)).1
        obtain ⟨next', hplace', hnext⟩ := h.place hs hc hplace ((w.candidates s).map ρ.candidate)
        exact ⟨some next', bind_eq_ok.mpr ⟨next', hplace', rfl⟩, .some hnext⟩

theorem rounds (h : w.Renamed ρ w') {s s' last : Progress} (hs : s.Renamed ρ w s') {bound : Nat}
    (hrounds : w.rounds bound s = .ok last) :
    ∃ last', w'.rounds bound s' = .ok last' ∧ last.Renamed ρ w last' := by
  induction bound generalizing s s' with
  | zero =>
      cases hrounds
      exact ⟨s', rfl, hs⟩
  | succ bound ih =>
      obtain ⟨result, hround, hrest⟩ := bind_eq_ok.mp hrounds
      obtain ⟨result', hround', hresult⟩ := h.round hs hround
      cases hresult with
      | none =>
          cases hrest
          exact ⟨s', bind_eq_ok.mpr ⟨none, hround', rfl⟩, hs⟩
      | some hnext =>
          obtain ⟨last', hlast', hlast⟩ := ih hnext hrest
          exact ⟨last', bind_eq_ok.mpr ⟨_, hround', hlast'⟩, hlast⟩

/-- What is left open and pending is reported under the old names. -/
theorem conclude (h : w.Renamed ρ w') {s s' : Progress} (hs : s.Renamed ρ w s') :
    SameOutcome ρ (w.conclude s) (w'.conclude s') := by
  have hnames : s'.pending.map (·.name) = s.pending.map (·.name) := by
    rw [hs.pending_eq, List.map_map]
    rfl
  unfold Workload.conclude
  rw [hs.ledger.openCount_eq]
  split_ifs with hopen hpending hpending' hpending'
  · rw [hnames]
    exact .of_listed _ (Ledger.ascending_openBuffers s.ledger)
      (Ledger.ascending_openBuffers s'.ledger) hs.ledger.mem_openBuffers_iff h.bufferName_eq
  · rw [hs.pending_eq, List.length_map]
    exact .failed
  · simp [hs.pending_eq, hpending] at hpending'
  · simp [hs.pending_eq, hpending] at hpending'
  · apply SameOutcome.scheduled
    constructor
    · exact hs.phases_eq
    · exact hs.ledger.slots.peaks_moved
    · exact hs.ledger.allocations
    · exact congrArg (·.resolution) h.config_eq
    · intro id e he
      obtain ⟨c, -, hentry⟩ :=
        Option.bind_eq_some_iff.mp ((SlotAllocator.getElem?_peaks ..).symm.trans he)
      obtain ⟨pool, hpool, rfl⟩ := Option.map_eq_some_iff.mp hentry
      exact hs.ledger.slots.fixed_of_pool? hpool

/-- Renamed workloads that start with renamed ledgers have the same outcome. -/
theorem outcome (h : w.Renamed ρ w') (hw : w.WellFormed)
    (hstart : w.startLedger.Renamed ρ w'.startLedger) : SameOutcome ρ w.outcome w'.outcome := by
  obtain ⟨last, hlast, -⟩ := finish_spec hw
  have hrenamed : w.start.Renamed ρ w w'.start := ⟨hstart, h.passes_eq, fun _ hp => hp, rfl⟩
  obtain ⟨last', hlast', hs⟩ := h.rounds hrenamed hlast
  have hfinish : w'.finish = .ok last' := by
    unfold finish
    rw [h.passes_eq, List.length_map]
    exact hlast'
  unfold Workload.outcome
  rw [hlast, hfinish]
  exact h.conclude hs

end Workload.Renamed
end FrameGraph
