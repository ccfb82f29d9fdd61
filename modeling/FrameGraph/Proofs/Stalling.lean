import FrameGraph.Proofs.Compilation
import Mathlib.Data.Fintype.Card
import Mathlib.Data.Set.Finite.List
import Mathlib.Logic.Relation

/-!
# When a placement stalls

Two things keep a reachable operation from ever being ready: an output that must
be consumed and has no consumer, or a cycle of operations that wait for one
another. `Description.Consumed` and `Description.Acyclic` exclude them, in terms
of the declarations alone.

They also keep every operation from being ready that such an operation depends
on. `Description.Blocked` says that a path of dependencies leads to one of them.
Blocked operations are never placed, and as long as a pass is pending that is
not blocked, some pass is ready. So a placement goes on until only blocked
passes are left.
-/
namespace FrameGraph

/-- In a finite list, some member has no successor in the list, unless there is
a cycle. -/
theorem exists_last_of_acyclic {r : Nat → Nat → Prop} (hr : ∀ i, ¬Relation.TransGen r i i)
    {is : List Nat} (his : is ≠ []) : ∃ i ∈ is, ∀ j ∈ is, ¬r i j := by
  obtain ⟨first, hfirst⟩ := List.exists_mem_of_ne_nil is his
  have hfinite : Finite {i // i ∈ is} := List.finite_toSet is
  let after : {i // i ∈ is} → {i // i ∈ is} → Prop := fun i j => Relation.TransGen r j.1 i.1
  have htrans : IsTrans _ after := ⟨fun _ _ _ hij hjk => hjk.trans hij⟩
  have hirrefl : Std.Irrefl after := ⟨fun i => hr i.1⟩
  obtain ⟨⟨i, hi⟩, -, hmin⟩ :=
    (Finite.wellFounded_of_trans_of_irrefl after).has_min Set.univ ⟨⟨first, hfirst⟩, trivial⟩
  exact ⟨i, hi, fun j hj hij => hmin ⟨j, hj⟩ trivial (.single hij)⟩

namespace Description

/-- Every output of a reachable operation is optional, required or read by a
reachable operation. -/
def Consumed (d : Description) (required : List Nat) : Prop :=
  ∀ i op, d.operations[i]? = some op → d.Reachable required i →
    ∀ port ∈ op.outputs, ∀ b, port.buffer? = some b → op.isOptional port.name = false →
      b ∈ required ∨ ∃ j, d.Reachable required j ∧ d.Reads j b

/-- A reachable operation writes what another reachable operation reads. -/
def Feeds (d : Description) (required : List Nat) (i j : Nat) : Prop :=
  d.Reachable required i ∧ d.Reachable required j ∧ ∃ b, d.Writes i b ∧ d.Reads j b

/-- No reachable operation depends on itself. -/
def Acyclic (d : Description) (required : List Nat) : Prop :=
  ∀ i, ¬Relation.TransGen (d.Feeds required) i i

/-- A reachable operation has an output that must be consumed and is neither
required nor read by a reachable operation. -/
def Wasted (d : Description) (required : List Nat) (i : Nat) : Prop :=
  d.Reachable required i ∧ ∃ op, d.operations[i]? = some op ∧
    ∃ port ∈ op.outputs, ∃ b, port.buffer? = some b ∧ op.isOptional port.name = false ∧
      b ∉ required ∧ ∀ j, d.Reachable required j → ¬d.Reads j b

/-- A path of dependencies leads from an operation to a cycle or to an output
that is wasted. -/
def Blocked (d : Description) (required : List Nat) (i : Nat) : Prop :=
  ∃ j, Relation.ReflTransGen (d.Feeds required) i j ∧
    (Relation.TransGen (d.Feeds required) j j ∨ d.Wasted required j)

section
variable {d : Description} {required : List Nat} {i j : Nat}

theorem consumed_iff_not_wasted : d.Consumed required ↔ ∀ i, ¬d.Wasted required i := by
  constructor
  · intro hconsumed i hwasted
    obtain ⟨hi, op, hop, port, hport, b, hb, hmust, hnot, hno⟩ := hwasted
    rcases hconsumed i op hop hi port hport b hb hmust with hreq | ⟨j, hj, hreads⟩
    · exact hnot hreq
    · exact hno j hj hreads
  · intro hnone i op hop hi port hport b hb hmust
    by_contra hunused
    rw [not_or, not_exists] at hunused
    exact hnone i ⟨hi, op, hop, port, hport, b, hb, hmust, hunused.1,
      fun j hj hreads => hunused.2 j ⟨hj, hreads⟩⟩

theorem Wasted.blocked (h : d.Wasted required i) : d.Blocked required i := ⟨i, .refl, .inr h⟩

theorem blocked_of_cycle (h : Relation.TransGen (d.Feeds required) i i) : d.Blocked required i :=
  ⟨i, .refl, .inl h⟩

theorem Feeds.blocked (hij : d.Feeds required i j) (h : d.Blocked required j) :
    d.Blocked required i := by
  obtain ⟨k, hjk, hfault⟩ := h
  exact ⟨k, hjk.head hij, hfault⟩

theorem Blocked.reachable (h : d.Blocked required i) : d.Reachable required i := by
  obtain ⟨j, hij, hfault⟩ := h
  rcases Relation.ReflTransGen.cases_head hij with rfl | ⟨k, hik, -⟩
  · rcases hfault with hcycle | hwasted
    · obtain ⟨k, hik, -⟩ := Relation.TransGen.head'_iff.mp hcycle
      exact hik.1
    · exact hwasted.1
  · exact hik.1

theorem not_blocked_iff :
    (∀ i, ¬d.Blocked required i) ↔ d.Consumed required ∧ d.Acyclic required := by
  rw [consumed_iff_not_wasted]
  constructor
  · intro hfree
    exact ⟨fun i hi => hfree i hi.blocked, fun i hi => hfree i (blocked_of_cycle hi)⟩
  · intro hsound i hblocked
    obtain ⟨j, -, hcycle | hwasted⟩ := hblocked
    · exact hsound.2 j hcycle
    · exact hsound.1 j hwasted

end

namespace Selects

variable {d : Description} {required : List Nat} {config : Config} {passes selected : List Pass}
  {p q : Pass} {b : Nat}

theorem feeds (h : d.Selects required passes selected) (hp : p ∈ selected) (hq : q ∈ selected)
    (hbp : b ∈ p.writes) (hbq : b ∈ q.reads) : d.Feeds required p.index q.index :=
  ⟨h.reachable hp, h.reachable hq, b, (writes_iff h.accepted (h.mem_passes hp) b).mpr hbp,
    (reads_iff h.accepted (h.mem_passes hq) b).mpr hbq⟩

theorem exists_passes_of_feeds (h : d.Selects required passes selected) {i j : Nat}
    (hij : d.Feeds required i j) : ∃ p ∈ selected, ∃ q ∈ selected, p.index = i ∧ q.index = j ∧
      ∃ b ∈ p.writes, b ∈ q.reads := by
  obtain ⟨hi, hj, b, hwrites, hreads⟩ := hij
  obtain ⟨p, hp, rfl⟩ := h.exists_pass hi
  obtain ⟨q, hq, rfl⟩ := h.exists_pass hj
  exact ⟨p, hp, q, hq, rfl, rfl, b, (writes_iff h.accepted (h.mem_passes hp) b).mp hwrites,
    (reads_iff h.accepted (h.mem_passes hq) b).mp hreads⟩

theorem consumersOf_eq_zero (h : d.Selects required passes selected) (config : Config)
    (hb : b < d.buffers.length) :
    (Workload.ofPasses d config required selected).consumersOf b = 0 ↔
      b ∉ required ∧ ∀ i, d.Reachable required i → ¬d.Reads i b := by
  rw [Workload.consumersOf_ofPasses d config required selected hb,
    Workload.countConsumers_eq_zero, List.mem_eraseDups]
  refine and_congr_right fun _ => ?_
  constructor
  · intro hno i hi hreads
    obtain ⟨p, hp, rfl⟩ := h.exists_pass hi
    exact hno p hp ((reads_iff h.accepted (h.mem_passes hp) b).mp hreads)
  · intro hno p hp hbp
    exact hno p.index (h.reachable hp) ((reads_iff h.accepted (h.mem_passes hp) b).mpr hbp)

theorem wasted_iff (h : d.Selects required passes selected) (config : Config) (hp : p ∈ selected) :
    d.Wasted required p.index ↔ ∃ o ∈ p.outputs,
      (Workload.ofPasses d config required selected).consumersOf o.buffer = 0 ∧
        o.optional = false := by
  obtain ⟨op, hop, -, haccepted⟩ := accepted_of_mem h.accepted (h.mem_passes hp)
  constructor
  · intro hwasted
    obtain ⟨-, op', hop', port, hport, b, hb, hmust, hunused⟩ := hwasted
    obtain rfl : op = op' := Option.some.inj (hop.symm.trans hop')
    obtain ⟨place, hplace⟩ := List.mem_iff_getElem?.mp hport
    have ho : (⟨⟨place, b⟩, op.isOptional port.name⟩ : PassOutput) ∈ p.outputs :=
      haccepted.mem_outputs.mpr ⟨port, hplace, hb, rfl⟩
    have hlt := haccepted.writes_lt b (List.mem_map_of_mem ho)
    exact ⟨_, ho, (h.consumersOf_eq_zero config hlt).mpr hunused, hmust⟩
  · intro hoff
    obtain ⟨o, ho, hzero, hmust⟩ := hoff
    obtain ⟨port, hport, hb, hoptional⟩ := haccepted.mem_outputs.mp ho
    have hlt := haccepted.writes_lt o.buffer (List.mem_map_of_mem ho)
    exact ⟨h.reachable hp, op, hop, port, List.mem_of_getElem? hport, o.buffer, hb,
      hoptional.symm.trans hmust, (h.consumersOf_eq_zero config hlt).mp hzero⟩

/-- An open demand is for a buffer whose producer is pending. -/
theorem pending_of_demand (h : d.Selects required passes selected) {s : Progress}
    (hs : (Workload.ofPasses d config required selected).Sound s) {demand : Demand}
    (hb : s.ledger.demand? b = some demand) : ∃ p ∈ s.pending, b ∈ p.writes := by
  obtain ⟨hcount, hunwritten⟩ := (hs.demanded b).mp (by simp [hb])
  have hwanted : d.Wanted required b := by
    by_contra hnot
    refine hcount (Workload.countConsumers_eq_zero.mpr
      ⟨fun hreq => hnot ?_, fun q hq hbq => hnot ?_⟩)
    · exact .required ((Workload.mem_required_ofPasses ..).mp hreq)
    · exact h.wanted_of_reads (hs.mem_of_order hq) hbq
  obtain ⟨p, hp, hbp⟩ := h.exists_writer hwanted
  rcases hs.mem_cases hp with hp | hp
  · exact (hunwritten p hp hbp).elim
  · exact ⟨p, hp, hbp⟩

section
variable {s : Progress} (h : d.Selects required passes selected)
  (hw : (Workload.ofPasses d config required selected).WellFormed)
  (hs : (Workload.ofPasses d config required selected).Sound s)
include h hw hs

/-- A pending pass all of whose consumers have been placed is ready, unless an
output of it is wasted. -/
theorem ready_of_served (hkept : ¬d.Wasted required p.index) (hp : p ∈ s.pending)
    (hserved : ∀ q ∈ s.pending, ∀ b ∈ p.writes, b ∉ q.reads) :
    (Workload.ofPasses d config required selected).ready s.ledger p = true := by
  rw [Workload.ready_iff]
  intro o ho
  have hmem := hs.mem_of_pending hp
  have hwrites : o.buffer ∈ p.writes := List.mem_map_of_mem ho
  constructor
  · intro hzero
    by_contra hmust
    exact hkept ((h.wasted_iff config hmem).mpr ⟨o, ho, hzero, by simpa using hmust⟩)
  · intro hne
    have hnone : s.pending.countP (fun q => q.reads.contains o.buffer) = 0 := by
      rw [List.countP_eq_zero]
      intro q hq
      simpa using hserved q hq _ hwrites
    have hcount := hs.consumersOf_eq hw ((hw.valid p hmem).writes_lt _ hwrites)
    rw [hnone, Nat.add_zero] at hcount
    rw [hcount] at hne ⊢
    obtain ⟨d, hd⟩ := Option.isSome_iff_exists.mp ((hs.demanded_of_writes hw hp hwrites).mpr hne)
    exact ⟨d, hd, hs.uses _ d hd⟩

/-- While a pass is pending that is not blocked, some pass is ready. -/
theorem exists_ready (hp : p ∈ s.pending) (hfree : ¬d.Blocked required p.index) :
    ∃ q ∈ s.pending, (Workload.ofPasses d config required selected).ready s.ledger q = true := by
  classical
  -- Among the operations that are not blocked there is no cycle, so one of those
  -- that are left feeds none of the others.
  have hacyclic : ∀ i, ¬Relation.TransGen
      (fun i j => d.Feeds required i j ∧ ¬d.Blocked required i) i i := by
    intro i hcycle
    obtain ⟨-, ⟨-, hi⟩, -⟩ := Relation.TransGen.head'_iff.mp hcycle
    exact hi (blocked_of_cycle (Relation.TransGen.mono (fun _ _ hij => hij.1) i i hcycle))
  have hmem : p.index ∈ (s.pending.map (·.index)).filter (¬d.Blocked required ·) := by
    simpa [hfree] using ⟨p, hp, rfl⟩
  obtain ⟨i, hi, hlast⟩ := exists_last_of_acyclic hacyclic (List.ne_nil_of_mem hmem)
  obtain ⟨hi, hifree⟩ := List.mem_filter.mp hi
  simp only [decide_not, Bool.not_eq_true', decide_eq_false_iff_not] at hifree
  obtain ⟨q, hq, rfl⟩ := List.mem_map.mp hi
  refine ⟨q, hq, h.ready_of_served hw hs (fun hwasted => hifree hwasted.blocked) hq ?_⟩
  intro t ht b hbq hbt
  have hfeeds := h.feeds (hs.mem_of_pending hq) (hs.mem_of_pending ht) hbq hbt
  have htfree : ¬d.Blocked required t.index := fun hblocked => hifree (hfeeds.blocked hblocked)
  exact hlast t.index (by simpa [htfree] using ⟨t, ht, rfl⟩) ⟨hfeeds, hifree⟩

/-- What a placed pass feeds has been placed before and runs after it. -/
theorem placed_of_feeds (hp : p ∈ s.order) {j : Nat} (hij : d.Feeds required p.index j) :
    ∃ q ∈ s.order, q.index = j ∧ s.order.idxOf p < s.order.idxOf q := by
  obtain ⟨p', hp', q, hq, hpp', rfl, b, hbp, hbq⟩ := h.exists_passes_of_feeds hij
  obtain rfl : p = p' := (hw.index_injective hp' (hs.mem_of_order hp) hpp').symm
  rcases hs.mem_cases hq with hq | hq
  · refine ⟨q, hq, rfl, ?_⟩
    by_contra hle
    have hlt := List.idxOf_lt_length_of_mem hq
    have hlt' := List.idxOf_lt_length_of_mem hp
    rcases Nat.lt_or_eq_of_le (Nat.le_of_not_lt hle) with hbefore | heq
    · have hapart := List.pairwise_iff_getElem.mp hs.ordered _ _ hlt hlt' hbefore
      rw [List.getElem_idxOf, List.getElem_idxOf] at hapart
      exact hapart b hbp hbq
    · obtain rfl : q = p := (List.idxOf_inj hq).mp heq
      exact (hw.valid q hp').disjoint b hbq hbp
  · exact (hs.served p hp b hbp q hq hbq).elim

theorem placed_of_path (hp : p ∈ s.order) {j : Nat}
    (hij : Relation.TransGen (d.Feeds required) p.index j) :
    ∃ q ∈ s.order, q.index = j ∧ s.order.idxOf p < s.order.idxOf q := by
  induction hij with
  | single hij => exact h.placed_of_feeds hw hs hp hij
  | tail _ hjk ih =>
      obtain ⟨q, hq, rfl, hpq⟩ := ih
      obtain ⟨r, hr, hrk, hqr⟩ := h.placed_of_feeds hw hs hq hjk
      exact ⟨r, hr, hrk, hpq.trans hqr⟩

theorem not_blocked_of_placed (hp : p ∈ s.order) : ¬d.Blocked required p.index := by
  intro hblocked
  obtain ⟨j, hpath, hfault⟩ := hblocked
  obtain ⟨q, hq, rfl⟩ : ∃ q ∈ s.order, q.index = j := by
    rcases Relation.reflTransGen_iff_eq_or_transGen.mp hpath with rfl | hpath
    · exact ⟨p, hp, rfl⟩
    · obtain ⟨q, hq, hqj, -⟩ := h.placed_of_path hw hs hp hpath
      exact ⟨q, hq, hqj⟩
  rcases hfault with hcycle | hwasted
  · obtain ⟨r, hr, hrq, hlt⟩ := h.placed_of_path hw hs hq hcycle
    rw [hw.index_injective (hs.mem_of_order hr) (hs.mem_of_order hq) hrq] at hlt
    exact Nat.lt_irrefl _ hlt
  · obtain ⟨o, ho, hzero, hmust⟩ := (h.wasted_iff config (hs.mem_of_order hq)).mp hwasted
    rw [hs.wanted q hq o ho hzero] at hmust
    cases hmust

/-- Where no pass is ready, the pending passes are the blocked ones. -/
theorem pending_iff_blocked
    (hnone : ∀ q ∈ s.pending,
      (Workload.ofPasses d config required selected).ready s.ledger q = false)
    (hp : p ∈ selected) : p ∈ s.pending ↔ d.Blocked required p.index := by
  constructor
  · intro hpending
    by_contra hfree
    obtain ⟨q, hq, hready⟩ := h.exists_ready hw hs hpending hfree
    simp [hnone q hq] at hready
  · intro hblocked
    rcases hs.mem_cases hp with hplaced | hpending
    · exact (h.not_blocked_of_placed hw hs hplaced hblocked).elim
    · exact hpending

end

end Selects
end Description

namespace Compilation

variable {d : Description} {required : List Nat} {config : Config} {passes selected : List Pass}
  {last : Progress} {s : Schedule}

theorem not_blocked (h : Compilation d required config passes selected last s) (i : Nat) :
    ¬d.Blocked required i := by
  intro hblocked
  obtain ⟨p, hp, rfl⟩ := h.selects.exists_pass hblocked.reachable
  exact h.selects.not_blocked_of_placed h.wellFormed h.sound (h.mem_order.mpr hp) hblocked

theorem consumed (h : Compilation d required config passes selected last s) :
    d.Consumed required :=
  (Description.not_blocked_iff.mp h.not_blocked).1

theorem acyclic (h : Compilation d required config passes selected last s) :
    d.Acyclic required :=
  (Description.not_blocked_iff.mp h.not_blocked).2

end Compilation
end FrameGraph
