import FrameGraph.Proofs.StallDiagnosis

/-!
# Which descriptions compile

`compile` succeeds exactly on the realizable descriptions: the handles and
operations are accepted, every wanted buffer has a producer, bindings join
buffers of one class, and no placement stalls. Where it fails, the first
condition that does not hold decides the error. `Verdict` lists the
possibilities, one constructor for each.

An inconsistency of the placement is not among them.
-/
namespace FrameGraph

/-- The errors that the checks of a declaration report. -/
def GraphError.IsRejection (e : GraphError) : Prop :=
  (∃ operation defect, e = .malformed operation defect) ∨ ∃ b, e = .invalidHandle b

namespace Operation

variable {op : Operation} {e : GraphError}

theorem checkNames_error {side : Side} {ports : List Port}
    (h : op.checkNames side ports = .error e) : e.IsRejection := by
  unfold checkNames at h
  split at h
  · cases h
    exact .inl ⟨_, _, rfl⟩
  · cases h

theorem presentFrom_error {side : Side} {tableSize place : Nat} {seen : List Nat}
    {ports : List Port} (h : op.presentFrom side tableSize seen place ports = .error e) :
    e.IsRejection := by
  induction ports generalizing seen place with
  | nil => cases h
  | cons p ports ih =>
      cases hp : p.buffer? with
      | none =>
          simp only [presentFrom, hp] at h
          exact ih h
      | some b =>
          simp only [presentFrom, hp] at h
          split_ifs at h
          · cases h
            exact .inr ⟨b, rfl⟩
          · cases h
            exact .inl ⟨_, _, rfl⟩
          · rcases bind_eq_error.mp h with h | ⟨_, -, h⟩
            · exact ih h
            · cases h

theorem checkDisjoint_error {d : Description} {inputs outputs : List PresentPort}
    (h : op.checkDisjoint d inputs outputs = .error e) : e.IsRejection := by
  unfold checkDisjoint at h
  split at h
  · cases h
    exact .inl ⟨_, _, rfl⟩
  · cases h

theorem checkOptional_error (h : op.checkOptional = .error e) : e.IsRejection := by
  unfold checkOptional at h
  split at h
  · cases h
    exact .inl ⟨_, _, rfl⟩
  · cases h

theorem bindingPosition_error {ports : List Port} {present : List PresentPort} {name : String}
    (h : op.bindingPosition ports present name = .error e) : e.IsRejection := by
  unfold bindingPosition at h
  split at h
  · cases h
    exact .inl ⟨_, _, rfl⟩
  · split at h
    · cases h
      exact .inl ⟨_, _, rfl⟩
    · cases h

theorem bindingsFrom_error {inputs outputs : List PresentPort} {done : List (Nat × Nat)}
    {names : List (String × String)} (h : op.bindingsFrom inputs outputs done names = .error e) :
    e.IsRejection := by
  induction names generalizing done with
  | nil => cases h
  | cons n names ih =>
      rcases bind_eq_error.mp h with h | ⟨i, -, h⟩
      · exact bindingPosition_error h
      · rcases bind_eq_error.mp h with h | ⟨o, -, h⟩
        · exact bindingPosition_error h
        · split_ifs at h
          · cases h
            exact .inl ⟨_, _, rfl⟩
          · cases h
            exact .inl ⟨_, _, rfl⟩
          · exact ih h

theorem toPass_error {d : Description} {index : Nat} (h : op.toPass d index = .error e) :
    e.IsRejection := by
  rcases bind_eq_error.mp h with h | ⟨_, -, h⟩
  · exact checkNames_error h
  rcases bind_eq_error.mp h with h | ⟨_, -, h⟩
  · exact checkNames_error h
  rcases bind_eq_error.mp h with h | ⟨_, -, h⟩
  · exact presentFrom_error h
  rcases bind_eq_error.mp h with h | ⟨_, -, h⟩
  · exact presentFrom_error h
  rcases bind_eq_error.mp h with h | ⟨_, -, h⟩
  · exact checkDisjoint_error h
  rcases bind_eq_error.mp h with h | ⟨_, -, h⟩
  · exact checkOptional_error h
  rcases bind_eq_error.mp h with h | ⟨_, -, h⟩
  · exact bindingsFrom_error h
  · cases h

end Operation

theorem Pass.checkFresh_error {p : Pass} {d : Description} {done : List Pass} {bs : List Nat}
    {e : GraphError} (h : p.checkFresh d done bs = .error e) : e.IsRejection := by
  induction bs with
  | nil => cases h
  | cons b bs ih =>
      rw [checkFresh] at h
      split at h
      · cases h
        exact .inl ⟨_, _, rfl⟩
      · exact ih h

namespace Description

variable {d : Description} {required : List Nat}

theorem passesFrom_error {done : List Pass} {ops : List Operation} {e : GraphError}
    (h : d.passesFrom done ops = .error e) : e.IsRejection := by
  induction ops generalizing done with
  | nil => cases h
  | cons op ops ih =>
      rcases bind_eq_error.mp h with h | ⟨p, -, h⟩
      · exact Operation.toPass_error h
      · rcases bind_eq_error.mp h with h | ⟨_, -, h⟩
        · exact Pass.checkFresh_error h
        · exact ih h

/-- Every handle is that of a buffer in the table. -/
def InRange (d : Description) (required : List Nat) : Prop := ∀ b ∈ required, b < d.buffers.length

/-- All operations pass the checks. -/
def Accepted (d : Description) : Prop := ∃ passes, d.passes = .ok passes

/-- Every binding of a reachable operation joins two buffers of one class. -/
def Matched (d : Description) (required : List Nat) (resolution : Extent) : Prop :=
  ∀ i op, d.operations[i]? = some op → d.Reachable required i →
    ∀ x y, op.Joins x y → d.classOf? resolution x = d.classOf? resolution y

/-- What it takes for a description to compile. -/
structure Realizable (d : Description) (required : List Nat) (resolution : Extent) : Prop where
  in_range : d.InRange required
  accepted : d.Accepted
  produced : d.Produced required
  matched : d.Matched required resolution
  consumed : d.Consumed required
  acyclic : d.Acyclic required

theorem checkHandles_error (h : ¬d.InRange required) :
    ∃ b ∈ required, d.buffers.length ≤ b ∧ d.checkHandles required = .error (.invalidHandle b) := by
  induction required with
  | nil => simp [InRange] at h
  | cons b required ih =>
      by_cases hb : b < d.buffers.length
      · have hrest : ¬d.InRange required := by
          intro hrest
          exact h (List.forall_mem_cons.mpr ⟨hb, hrest⟩)
        obtain ⟨c, hc, hle, herror⟩ := ih hrest
        exact ⟨c, by simp [hc], hle, by rw [checkHandles, if_pos hb, herror]⟩
      · exact ⟨b, by simp, Nat.le_of_not_lt hb, by rw [checkHandles, if_neg hb]⟩

/-- The check of the bindings, said of the declarations. -/
theorem Selects.checkBindings_iff {passes selected : List Pass}
    (h : d.Selects required passes selected) (config : Config) :
    (Workload.ofPasses d config required selected).checkBindings selected = .ok () ↔
      d.Matched required config.resolution := by
  have hclass : ∀ p ∈ selected, ∀ e ∈ p.sharing,
      (Workload.ofPasses d config required selected).classId e.1.buffer =
          (Workload.ofPasses d config required selected).classId e.2.buffer ↔
        d.classOf? config.resolution e.1.buffer = d.classOf? config.resolution e.2.buffer := by
    intro p hp e he
    have hvalid := valid_of_mem h.accepted (h.mem_passes hp)
    have hread : e.1.buffer ∈ p.reads := List.mem_map_of_mem (Pass.mem_inputs_of_sharing he)
    have hwrite : e.2.buffer ∈ p.writes := List.mem_map_of_mem (Pass.mem_outputs_of_sharing he)
    exact Workload.classId_eq_iff (hvalid.reads_lt _ hread) (hvalid.writes_lt _ hwrite)
      (Workload.mem_meetingOrder.mpr (.inr ⟨p, hp, .inr hread⟩))
  rw [Workload.checkBindings_eq_ok]
  constructor
  · intro hshared i op hop hi x y hjoins
    obtain ⟨p, hp, rfl⟩ := h.exists_pass hi
    obtain ⟨op', hop', -, haccepted⟩ := accepted_of_mem h.accepted (h.mem_passes hp)
    obtain rfl : op = op' := Option.some.inj (hop.symm.trans hop')
    obtain ⟨e, he, rfl, rfl⟩ := (haccepted.joins_iff x y).mp hjoins
    exact (hclass p hp e he).mp (hshared p hp e he)
  · intro hmatched p hp e he
    obtain ⟨op, hop, -, haccepted⟩ := accepted_of_mem h.accepted (h.mem_passes hp)
    have hjoins := (haccepted.joins_iff _ _).mpr ⟨e, he, rfl, rfl⟩
    exact (hclass p hp e he).mpr (hmatched p.index op hop (h.reachable hp) _ _ hjoins)

end Description

open Description in
/-- What a compilation returns, by the first condition that fails. -/
inductive Verdict (d : Description) (required : List Nat) (resolution : Extent) :
    Except GraphError Schedule → Prop
  | outOfRange {b : Nat} : b ∈ required → d.buffers.length ≤ b →
      Verdict d required resolution (.error (.invalidHandle b))
  | rejected {e : GraphError} : d.InRange required → d.passes = .error e →
      Verdict d required resolution (.error e)
  | unproduced {buffers : List String} : d.InRange required → d.Accepted →
      ¬d.Produced required → Verdict d required resolution (.error (.unrealizable buffers []))
  | mismatched {operation input output : String} : d.InRange required → d.Accepted →
      d.Produced required → ¬d.Matched required resolution →
      Verdict d required resolution
        (.error (.malformed operation (.mismatchedBinding input output)))
  | stalled {buffers operations : List String} : d.InRange required → d.Accepted →
      d.Produced required → d.Matched required resolution →
      ¬(d.Consumed required ∧ d.Acyclic required) → operations ≠ [] →
      Verdict d required resolution (.error (.unrealizable buffers operations))
  | realized {s : Schedule} : d.Realizable required resolution →
      Verdict d required resolution (.ok s)

/-- The end of a compilation whose bindings are in order. -/
theorem Description.Selects.verdict {d : Description} {required : List Nat} {config : Config}
    {passes selected : List Pass} (h : d.Selects required passes selected)
    (hmatched : d.Matched required config.resolution) :
    Verdict d required config.resolution
      (Workload.ofPasses d config required selected).outcome := by
  rcases h.schedules ((h.checkBindings_iff config).mpr hmatched) with
    ⟨last, s, hcompilation, hok⟩ | ⟨e, i, hblocked, hdiagnosed, herror⟩
  · rw [hok]
    exact .realized ⟨h.in_range, ⟨passes, h.accepted⟩, h.produced, hmatched,
      hcompilation.consumed, hcompilation.acyclic⟩
  · rw [herror]
    obtain ⟨is, bs, his, -, rfl⟩ := hdiagnosed
    refine .stalled h.in_range ⟨passes, h.accepted⟩ h.produced hmatched ?_ ?_
    · exact fun hsound => not_blocked_iff.mpr hsound i hblocked
    · exact operationNames_ne_nil hblocked.reachable ((his.mem_iff i).mpr hblocked)

theorem compile_verdict (d : Description) (required : List Nat) (config : Config) :
    Verdict d required config.resolution (compile d required config) := by
  by_cases hrange : d.InRange required
  · have hhandles : d.checkHandles required = .ok () := Description.checkHandles_eq_ok.mpr hrange
    cases hpasses : d.passes with
    | error e =>
        have herror : compile d required config = .error e := by
          simp only [compile, Description.selection, hhandles, hpasses, bind, Except.bind]
        exact herror ▸ .rejected hrange hpasses
    | ok passes =>
        by_cases hproduced : d.Produced required
        · obtain ⟨selection, hselect, -⟩ := Description.select_of_produced hpasses hproduced
          have hselects := Description.selects_of_select hpasses hrange hselect
          by_cases hmatched : d.Matched required config.resolution
          · have hbindings := (hselects.checkBindings_iff config).mpr hmatched
            have hcompile : compile d required config =
                (Workload.ofPasses d config required selection.passes).outcome := by
              simp only [compile, Description.selection, hhandles, hpasses, hselect, hbindings,
                Workload.passes_ofPasses, Workload.outcome, bind, Except.bind]
            rw [hcompile]
            exact hselects.verdict hmatched
          · cases hbindings : (Workload.ofPasses d config required selection.passes).checkBindings
                selection.passes with
            | ok => exact (hmatched ((hselects.checkBindings_iff config).mp hbindings)).elim
            | error e =>
                have herror : compile d required config = .error e := by
                  simp only [compile, Description.selection, hhandles, hpasses, hselect, hbindings,
                    Workload.passes_ofPasses, bind, Except.bind]
                obtain ⟨operation, input, output, rfl⟩ := Workload.checkBindings_error hbindings
                exact herror ▸ .mismatched hrange ⟨passes, hpasses⟩ hproduced hmatched
        · obtain ⟨missing, -, hselect⟩ := Description.select_of_not_produced hpasses hproduced
          have herror : compile d required config =
              .error (.unrealizable (d.namesInTable missing) []) := by
            simp only [compile, Description.selection, hhandles, hpasses, hselect, bind,
              Except.bind]
          exact herror ▸ .unproduced hrange ⟨passes, hpasses⟩ hproduced
  · obtain ⟨b, hb, hle, hhandles⟩ := Description.checkHandles_error hrange
    have herror : compile d required config = .error (.invalidHandle b) := by
      simp only [compile, Description.selection, hhandles, bind, Except.bind]
    exact herror ▸ .outOfRange hb hle

namespace Verdict

variable {d : Description} {required : List Nat} {resolution : Extent}
  {r : Except GraphError Schedule}

theorem ok_iff (h : Verdict d required resolution r) :
    (∃ s, r = .ok s) ↔ d.Realizable required resolution := by
  cases h with
  | outOfRange hb hle =>
      simp only [reduceCtorEq, exists_false, false_iff]
      exact fun hreal => Nat.not_lt.mpr hle (hreal.in_range _ hb)
  | rejected _ hpasses =>
      simp only [reduceCtorEq, exists_false, false_iff]
      intro hreal
      obtain ⟨passes, haccepted⟩ := hreal.accepted
      simp [hpasses] at haccepted
  | unproduced _ _ hproduced =>
      simp only [reduceCtorEq, exists_false, false_iff]
      exact fun hreal => hproduced hreal.produced
  | mismatched _ _ _ hmatched =>
      simp only [reduceCtorEq, exists_false, false_iff]
      exact fun hreal => hmatched hreal.matched
  | stalled _ _ _ _ hstalled =>
      simp only [reduceCtorEq, exists_false, false_iff]
      exact fun hreal => hstalled ⟨hreal.consumed, hreal.acyclic⟩
  | @realized s hreal => exact ⟨fun _ => hreal, fun _ => ⟨s, rfl⟩⟩

theorem invalidHandle_of (h : Verdict d required resolution r) (hrange : ¬d.InRange required) :
    ∃ b ∈ required, d.buffers.length ≤ b ∧ r = .error (.invalidHandle b) := by
  cases h with
  | outOfRange hb hle => exact ⟨_, hb, hle, rfl⟩
  | rejected hin | unproduced hin | mismatched hin | stalled hin => exact (hrange hin).elim
  | realized hreal => exact (hrange hreal.in_range).elim

theorem rejected_of (h : Verdict d required resolution r) (hrange : d.InRange required)
    {e : GraphError} (hpasses : d.passes = .error e) : r = .error e := by
  have hnot : ¬d.Accepted := by
    intro hall
    rcases hall with ⟨passes, haccepted⟩
    simp [hpasses] at haccepted
  cases h with
  | outOfRange hb hle => exact absurd (hrange _ hb) (Nat.not_lt.mpr hle)
  | rejected _ hother =>
      rw [hpasses] at hother
      cases hother
      rfl
  | unproduced _ haccepted | mismatched _ haccepted | stalled _ haccepted =>
      exact (hnot haccepted).elim
  | realized hreal => exact (hnot hreal.accepted).elim

theorem unproduced_of (h : Verdict d required resolution r) (hrange : d.InRange required)
    (haccepted : d.Accepted) (hproduced : ¬d.Produced required) :
    ∃ buffers, r = .error (.unrealizable buffers []) := by
  cases h with
  | outOfRange hb hle => exact absurd (hrange _ hb) (Nat.not_lt.mpr hle)
  | rejected _ hpasses =>
      obtain ⟨passes, haccepted⟩ := haccepted
      simp [hpasses] at haccepted
  | unproduced => exact ⟨_, rfl⟩
  | mismatched _ _ hall | stalled _ _ hall => exact (hproduced hall).elim
  | realized hreal => exact (hproduced hreal.produced).elim

theorem mismatched_of (h : Verdict d required resolution r) (hrange : d.InRange required)
    (haccepted : d.Accepted) (hproduced : d.Produced required)
    (hmatched : ¬d.Matched required resolution) :
    ∃ operation input output,
      r = .error (.malformed operation (.mismatchedBinding input output)) := by
  cases h with
  | outOfRange hb hle => exact absurd (hrange _ hb) (Nat.not_lt.mpr hle)
  | rejected _ hpasses =>
      obtain ⟨passes, haccepted⟩ := haccepted
      simp [hpasses] at haccepted
  | unproduced _ _ hnot => exact (hnot hproduced).elim
  | mismatched => exact ⟨_, _, _, rfl⟩
  | stalled _ _ _ hall => exact (hmatched hall).elim
  | realized hreal => exact (hmatched hreal.matched).elim

theorem stalled_of (h : Verdict d required resolution r) (hrange : d.InRange required)
    (haccepted : d.Accepted) (hproduced : d.Produced required)
    (hmatched : d.Matched required resolution)
    (hstalled : ¬(d.Consumed required ∧ d.Acyclic required)) :
    ∃ buffers operations, operations ≠ [] ∧ r = .error (.unrealizable buffers operations) := by
  cases h with
  | outOfRange hb hle => exact absurd (hrange _ hb) (Nat.not_lt.mpr hle)
  | rejected _ hpasses =>
      obtain ⟨passes, haccepted⟩ := haccepted
      simp [hpasses] at haccepted
  | unproduced _ _ hnot => exact (hnot hproduced).elim
  | mismatched _ _ _ hnot => exact (hnot hmatched).elim
  | stalled _ _ _ _ _ hoperations => exact ⟨_, _, hoperations, rfl⟩
  | realized hreal => exact (hstalled ⟨hreal.consumed, hreal.acyclic⟩).elim

theorem ne_inconsistent (h : Verdict d required resolution r) (fault : Fault) :
    r ≠ .error (.inconsistent fault) := by
  cases h with
  | rejected _ hpasses =>
      rcases Description.passesFrom_error hpasses with ⟨_, _, rfl⟩ | ⟨_, rfl⟩ <;> simp
  | outOfRange | unproduced | mismatched | stalled | realized => simp

end Verdict

/-- A description compiles exactly if it is realizable; otherwise the first
condition that fails decides the error, and it is never an inconsistency. -/
theorem compile_exact (d : Description) (required : List Nat) (config : Config) :
    ((∃ s, compile d required config = .ok s) ↔ d.Realizable required config.resolution) ∧
      (¬d.InRange required → ∃ b ∈ required, d.buffers.length ≤ b ∧
        compile d required config = .error (.invalidHandle b)) ∧
      (d.InRange required → ∀ e, d.passes = .error e → compile d required config = .error e) ∧
      (d.InRange required → d.Accepted → ¬d.Produced required →
        ∃ buffers, compile d required config = .error (.unrealizable buffers [])) ∧
      (d.InRange required → d.Accepted → d.Produced required →
        ¬d.Matched required config.resolution →
        ∃ operation input output, compile d required config =
          .error (.malformed operation (.mismatchedBinding input output))) ∧
      (d.InRange required → d.Accepted → d.Produced required →
        d.Matched required config.resolution → ¬(d.Consumed required ∧ d.Acyclic required) →
        ∃ buffers operations, operations ≠ [] ∧
          compile d required config = .error (.unrealizable buffers operations)) ∧
      ∀ fault, compile d required config ≠ .error (.inconsistent fault) := by
  have hverdict := compile_verdict d required config
  refine ⟨hverdict.ok_iff, hverdict.invalidHandle_of, ?_, hverdict.unproduced_of,
    hverdict.mismatched_of, hverdict.stalled_of, hverdict.ne_inconsistent⟩
  exact fun hrange e hpasses => hverdict.rejected_of hrange hpasses

end FrameGraph
