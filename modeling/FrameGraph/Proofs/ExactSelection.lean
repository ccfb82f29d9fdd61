import FrameGraph.Proofs.Confluence
import FrameGraph.Proofs.Realizability

/-!
# The selection is exact

The operations that the required buffers depend on are the least set that
contains the producers of the required buffers and, with an operation, the
producers of its inputs. The selection is this set, in declaration order, or the
list of all buffers that are missing, in the order of the table.

A search marks and unmarks buffers while it sweeps, so what is marked in between
depends on the order of the operations; what is left when a sweep selects nothing
does not. As every other sweep selects an operation, the bound of the search is
never what ends it.
-/
namespace FrameGraph

namespace Description

variable {d : Description} {required : List Nat} {passes : List Pass} {i b : Nat}

/-- A set of operations that contains the producers of the required buffers and
those of the inputs of its members. -/
structure Closed (d : Description) (required : List Nat) (t : Nat → Prop) : Prop where
  required : ∀ b ∈ required, ∀ i, d.Writes i b → t i
  input : ∀ i b j, t i → d.Reads i b → d.Writes j b → t j

theorem closed_reachable (d : Description) (required : List Nat) :
    d.Closed required (d.Reachable required) where
  required := fun b hb i hwrites => ⟨b, .required hb, hwrites⟩
  input := by
    rintro i b j ⟨c, hc, hwritesc⟩ hreads hwrites
    exact ⟨b, .read hc hwritesc hreads, hwrites⟩

/-- The producer of a wanted buffer is in every such set. -/
theorem Closed.of_writes {t : Nat → Prop} (h : d.Closed required t) (hb : d.Wanted required b)
    (hi : d.Writes i b) : t i := by
  induction hb generalizing i with
  | required hb => exact h.required _ hb i hi
  | read _ hwrites hreads ih => exact h.input _ _ i (ih hwrites) hreads hi

theorem Closed.of_reachable {t : Nat → Prop} (h : d.Closed required t)
    (hi : d.Reachable required i) : t i := by
  obtain ⟨b, hb, hwrites⟩ := hi
  exact h.of_writes hb hwrites

theorem wanted_iff_read :
    d.Wanted required b ↔ b ∈ required ∨ ∃ i, d.Reachable required i ∧ d.Reads i b := by
  constructor
  · intro hb
    cases hb with
    | required hb => exact .inl hb
    | @read i c _ hc hwrites hreads => exact .inr ⟨i, ⟨c, hc, hwrites⟩, hreads⟩
  · rintro (hb | ⟨i, ⟨c, hc, hwrites⟩, hreads⟩)
    · exact .required hb
    · exact .read hc hwrites hreads

theorem Wanted.lt_length (hb : d.Wanted required b) (h : d.passes = .ok passes)
    (hrange : d.InRange required) : b < d.buffers.length := by
  cases hb with
  | required hb => exact hrange b hb
  | read _ _ hreads =>
      obtain ⟨op, hop, hmem⟩ := hreads
      obtain ⟨p, -, -, haccepted⟩ := exists_pass_of_operation h hop
      exact haccepted.reads_lt b (haccepted.reads_eq ▸ hmem)

theorem lists_inTable {bs : List Nat} {P : Nat → Prop} (hmem : ∀ b, b ∈ bs ↔ P b)
    (hlt : ∀ b, P b → b < d.buffers.length) :
    Lists ((List.range d.buffers.length).filter fun b => bs.contains b) P where
  ascending := List.pairwise_lt_range.filter _
  mem_iff := by
    intro b
    rw [List.mem_filter, List.mem_range, List.contains_iff_mem, hmem]
    exact and_iff_right_of_imp (hlt b)

end Description

namespace Search

variable {passes : List Pass}

theorem sweeps_settle_le (passes : List Pass) (bound made : Nat) (s : Search) :
    (settle passes bound made s).sweeps ≤ made + bound := by
  induction bound generalizing made s with
  | zero => exact Nat.le_refl _
  | succ bound ih =>
      unfold settle
      dsimp only
      split_ifs
      · dsimp only
        omega
      · have hrest := ih (made + 1) (s.sweep passes)
        omega

/-- A search that settled within its bound takes the same course under a higher one. -/
theorem settle_of_le {bound more made : Nat} {s : Search} (hle : bound ≤ more)
    (h : (settle passes bound made s).settled = true) :
    settle passes more made s = settle passes bound made s := by
  induction bound generalizing more made s with
  | zero => cases h
  | succ bound ih =>
      obtain ⟨more, rfl⟩ : ∃ n, more = n + 1 := ⟨more - 1, by omega⟩
      unfold settle at h ⊢
      dsimp only at h ⊢
      split_ifs at h ⊢
      · rfl
      · exact ih (by omega) h

end Search

namespace Description

variable {d : Description} {required : List Nat} {passes : List Pass} {selection : Selection}

theorem sweeps_of_select (h : d.select passes required = .ok selection) :
    selection.sweeps ≤ passes.length + 1 := by
  have hsweeps := Search.sweeps_settle_le passes (passes.length + 1) 0 { wanted := required }
  unfold select at h
  dsimp only at h
  split_ifs at h
  cases h
  rwa [Nat.zero_add] at hsweeps

theorem lists_selected (h : d.passes = .ok passes) (hsublist : selection.passes.Sublist passes)
    (hmem : ∀ p ∈ passes, p ∈ selection.passes ↔ d.Reachable required p.index) :
    Lists (selection.passes.map (·.index)) (d.Reachable required) where
  ascending := List.pairwise_map.mpr ((passes_pairwise h).sublist hsublist)
  mem_iff := by
    intro i
    rw [List.mem_map]
    constructor
    · rintro ⟨p, hp, rfl⟩
      exact (hmem p (hsublist.subset hp)).mp hp
    · intro hi
      obtain ⟨b, hb, hwrites⟩ := id hi
      obtain ⟨p, hp, rfl, -⟩ := exists_pass_of_writes h hwrites
      exact ⟨p, (hmem p hp).mpr hi, rfl⟩

/-- Whether a selection succeeds and what it selects. The reachable operations are
the least set closed under producers, whatever order they are declared in and
whether or not they form cycles. The search settles within its bound; a higher one
would change nothing. If every buffer that is wanted has a producer, exactly the
reachable operations are selected; otherwise the error lists exactly the wanted
buffers that have none. -/
theorem select_exact (h : d.passes = .ok passes) (hrange : d.InRange required) :
    (d.Closed required (d.Reachable required) ∧
      ∀ t, d.Closed required t → ∀ i, d.Reachable required i → t i) ∧
    (∀ b, d.Wanted required b ↔ b ∈ required ∨ ∃ i, d.Reachable required i ∧ d.Reads i b) ∧
    (∃ last : Search.Result, last.settled = true ∧ last.sweeps ≤ d.operations.length + 1 ∧
      ∀ bound, d.operations.length + 1 ≤ bound →
        Search.settle passes bound 0 { wanted := required } = last) ∧
    (d.Produced required → ∃ selection, d.select passes required = .ok selection ∧
      selection.passes.Sublist passes ∧ selection.sweeps ≤ d.operations.length + 1 ∧
      Lists (selection.passes.map (·.index)) (d.Reachable required)) ∧
    (¬d.Produced required → ∃ bs,
      Lists bs (fun b => d.Wanted required b ∧ ∀ i, ¬d.Writes i b) ∧
      d.select passes required = .error (.unrealizable (bs.map d.bufferName) [])) := by
  have hlength : passes.length = d.operations.length := (passes_spec h).2.1
  refine ⟨⟨d.closed_reachable required, fun t ht i hi => ht.of_reachable hi⟩,
    fun b => wanted_iff_read, ?_, ?_, ?_⟩
  · have hstart : Search.Sound d required { wanted := required } := Search.sound_start
    have hsettled := (Search.settle_spec h hstart (d.operations.length + 1) 0 (by simp [hlength])).1
    refine ⟨_, hsettled, ?_, fun bound hle => Search.settle_of_le hle hsettled⟩
    have hsweeps :=
      Search.sweeps_settle_le passes (d.operations.length + 1) 0 { wanted := required }
    rwa [Nat.zero_add] at hsweeps
  · intro hproduced
    obtain ⟨selection, hselect, hsublist, hmem⟩ := select_of_produced h hproduced
    exact ⟨selection, hselect, hsublist, hlength ▸ sweeps_of_select hselect,
      lists_selected h hsublist hmem⟩
  · intro hno
    obtain ⟨missing, hmissing, hselect⟩ := select_of_not_produced h hno
    exact ⟨_, lists_inTable hmissing fun c hc => hc.1.lt_length h hrange, hselect⟩

/-- All operations of the feedback are reachable. The last one is selected first,
so it takes three sweeps to see that there are no more. -/
theorem select_feedback : ∃ passes selection, feedback.passes = .ok passes ∧
    feedback.InRange [2] ∧ feedback.select passes [2] = .ok selection ∧ selection.sweeps = 3 ∧
    Lists [0, 1, 2] (feedback.Reachable [2]) := by
  have hrange : feedback.InRange [2] := by
    unfold InRange
    decide
  obtain ⟨-, -, -, hselects, hmissing⟩ := select_exact rfl hrange
  have hproduced : feedback.Produced [2] := by
    by_contra hno
    obtain ⟨bs, -, herror⟩ := hmissing hno
    cases herror
  obtain ⟨selection, hselect, -, -, hlists⟩ := hselects hproduced
  cases hselect
  exact ⟨_, _, rfl, hrange, rfl, rfl, hlists⟩

end Description
end FrameGraph
