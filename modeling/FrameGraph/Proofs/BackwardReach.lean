import FrameGraph.Proofs.AcceptedPasses
import FrameGraph.Reachability
import Mathlib.Data.List.Nodup
import Mathlib.Data.List.Pairwise
import Mathlib.Data.List.Perm.Subperm

/-!
# Backward reachability

What a frame depends on, said of the declarations alone: a buffer is wanted if
it is required or read by an operation that writes a wanted buffer, and an
operation is reachable if it writes a wanted buffer.

The search of `FrameGraph.Reachability` is compared with this. It keeps
`Search.Sound` from visit to visit, it always settles within its bound, and when
it has settled the selected passes are exactly the reachable ones and the
buffers left over exactly the wanted ones without a producer.
-/
namespace FrameGraph

namespace Description

/-- The operation at a place declares the buffer as an output. -/
def Writes (d : Description) (i b : Nat) : Prop := ∃ op, d.operations[i]? = some op ∧ b ∈ op.writes

/-- The operation at a place declares the buffer as an input. -/
def Reads (d : Description) (i b : Nat) : Prop := ∃ op, d.operations[i]? = some op ∧ b ∈ op.reads

/-- Required buffers are wanted, and so are the inputs of an operation that
writes a wanted buffer. -/
inductive Wanted (d : Description) (required : List Nat) : Nat → Prop
  | required {b : Nat} : b ∈ required → Wanted d required b
  | read {i b c : Nat} : Wanted d required b → d.Writes i b → d.Reads i c → Wanted d required c

/-- An operation that the required buffers depend on. -/
def Reachable (d : Description) (required : List Nat) (i : Nat) : Prop :=
  ∃ b, d.Wanted required b ∧ d.Writes i b

section
variable {d : Description} {passes : List Pass}

/-- A pass of the list, and the operation it comes from. -/
theorem accepted_of_mem (h : d.passes = .ok passes) {p : Pass} (hp : p ∈ passes) :
    ∃ op, d.operations[p.index]? = some op ∧ passes[p.index]? = some p ∧
      op.Accepted d.buffers.length p.index p := by
  obtain ⟨-, hlength, haccepted⟩ := passes_spec h
  obtain ⟨i, hi⟩ := List.mem_iff_getElem?.mp hp
  have hlt : i < d.operations.length := by
    rw [← hlength]
    exact (List.getElem?_eq_some_iff.mp hi).choose
  have hop := List.getElem?_eq_getElem hlt
  obtain ⟨q, hq, hacc⟩ := haccepted i _ hop
  obtain rfl : p = q := Option.some.inj (hi.symm.trans hq)
  have hindex := hacc.index_eq
  subst hindex
  exact ⟨_, hop, hq, hacc⟩

theorem exists_pass_of_operation (h : d.passes = .ok passes) {i : Nat} {op : Operation}
    (hop : d.operations[i]? = some op) :
    ∃ p ∈ passes, p.index = i ∧ op.Accepted d.buffers.length i p := by
  obtain ⟨p, hp, hacc⟩ := (passes_spec h).2.2 i op hop
  exact ⟨p, List.mem_of_getElem? hp, hacc.index_eq, hacc⟩

theorem valid_of_mem (h : d.passes = .ok passes) {p : Pass} (hp : p ∈ passes) :
    p.Valid d.buffers.length := by
  obtain ⟨_, -, -, hacc⟩ := accepted_of_mem h hp
  exact hacc.valid

theorem index_lt (h : d.passes = .ok passes) {p : Pass} (hp : p ∈ passes) :
    p.index < passes.length := by
  obtain ⟨_, -, hp', -⟩ := accepted_of_mem h hp
  exact (List.getElem?_eq_some_iff.mp hp').choose

/-- Passes stand in the order of their indices. -/
theorem passes_pairwise (h : d.passes = .ok passes) :
    passes.Pairwise fun p q => p.index < q.index := by
  have hindex : ∀ i (hi : i < passes.length), passes[i].index = i := by
    intro i hi
    obtain ⟨_, hop⟩ : ∃ op, d.operations[i]? = some op :=
      ⟨_, List.getElem?_eq_getElem ((passes_spec h).2.1 ▸ hi)⟩
    obtain ⟨p, hp, hacc⟩ := (passes_spec h).2.2 i _ hop
    rw [List.getElem?_eq_getElem hi] at hp
    rw [Option.some.inj hp, hacc.index_eq]
  rw [List.pairwise_iff_getElem]
  intro i j hi hj hij
  rwa [hindex, hindex]

theorem writes_iff (h : d.passes = .ok passes) {p : Pass} (hp : p ∈ passes) (b : Nat) :
    d.Writes p.index b ↔ b ∈ p.writes := by
  obtain ⟨op, hop, -, hacc⟩ := accepted_of_mem h hp
  simp [Writes, hop, hacc.writes_eq]

theorem reads_iff (h : d.passes = .ok passes) {p : Pass} (hp : p ∈ passes) (b : Nat) :
    d.Reads p.index b ↔ b ∈ p.reads := by
  obtain ⟨op, hop, -, hacc⟩ := accepted_of_mem h hp
  simp [Reads, hop, hacc.reads_eq]

theorem exists_pass_of_writes (h : d.passes = .ok passes) {i b : Nat} (hb : d.Writes i b) :
    ∃ p ∈ passes, p.index = i ∧ b ∈ p.writes := by
  obtain ⟨op, hop, hmem⟩ := hb
  obtain ⟨p, hp, hi, hacc⟩ := exists_pass_of_operation h hop
  exact ⟨p, hp, hi, hacc.writes_eq ▸ hmem⟩

/-- A buffer has one producer at most. -/
theorem producer_unique (h : d.passes = .ok passes) {p q : Pass} (hp : p ∈ passes)
    (hq : q ∈ passes) {b : Nat} (hbp : b ∈ p.writes) (hbq : b ∈ q.writes) : p = q := by
  by_contra hne
  have hsep : Std.Symm Pass.Separate := ⟨fun p q hpq b hb hb' => hpq b hb' hb⟩
  exact (passes_spec h).1.forall hp hq hne b hbp hbq

theorem writer_unique (h : d.passes = .ok passes) {i j b : Nat} (hi : d.Writes i b)
    (hj : d.Writes j b) : i = j := by
  obtain ⟨p, hp, rfl, hbp⟩ := exists_pass_of_writes h hi
  obtain ⟨q, hq, rfl, hbq⟩ := exists_pass_of_writes h hj
  rw [producer_unique h hp hq hbp hbq]

end
end Description

namespace Search

/-- What every state of a search keeps. A buffer that was required or read by a
selected pass is either still wanted or has been produced. -/
structure Sound (d : Description) (required : List Nat) (s : Search) : Prop where
  wanted : ∀ b ∈ s.wanted, d.Wanted required b
  reachable : ∀ i ∈ s.selected, d.Reachable required i
  distinct : s.selected.Nodup
  produced : ∀ b, b ∈ s.produced ↔ ∃ i ∈ s.selected, d.Writes i b
  unproduced : ∀ b ∈ s.wanted, b ∉ s.produced
  required : ∀ b ∈ required, b ∈ s.wanted ∨ b ∈ s.produced
  read : ∀ i ∈ s.selected, ∀ b, d.Reads i b → b ∈ s.wanted ∨ b ∈ s.produced

variable {d : Description} {passes : List Pass} {required : List Nat} {s : Search}

theorem sound_start : Sound d required { wanted := required } where
  wanted b hb := .required hb
  reachable := by simp
  distinct := .nil
  produced := by simp
  unproduced := by simp
  required b hb := .inl hb
  read := by simp

theorem picks_iff {p : Pass} :
    s.picks p = true ↔ (∃ b ∈ p.writes, b ∈ s.wanted) ∧ p.index ∉ s.selected := by
  simp [picks]

theorem mem_select_wanted {p : Pass} {b : Nat} :
    b ∈ (s.select p).wanted ↔
      b ∈ s.wanted ∧ b ∉ p.writes ∨ b ∈ p.reads ∧ b ∉ p.writes ∧ b ∉ s.produced := by
  simp only [select, List.mem_append, List.mem_filter, Bool.not_eq_true', Bool.and_eq_true,
    List.contains_eq_mem, decide_eq_false_iff_not]
  tauto

theorem mem_select_produced {p : Pass} {b : Nat} :
    b ∈ (s.select p).produced ↔ b ∈ p.writes ∨ b ∈ s.produced := by
  simp [select]

theorem mem_select_selected {p : Pass} {i : Nat} :
    i ∈ (s.select p).selected ↔ i = p.index ∨ i ∈ s.selected := by
  simp [select]

theorem Sound.select (h : d.passes = .ok passes) (hs : Sound d required s) {p : Pass}
    (hp : p ∈ passes) (hpick : s.picks p = true) : Sound d required (s.select p) := by
  obtain ⟨⟨b, hb, hwanted⟩, hnew⟩ := picks_iff.mp hpick
  have hwrites := Description.writes_iff h hp
  have hreads := Description.reads_iff h hp
  have hw : d.Wanted required b := hs.wanted b hwanted
  have hmoved : ∀ c, c ∈ s.wanted ∨ c ∈ s.produced →
      c ∈ (s.select p).wanted ∨ c ∈ (s.select p).produced := by
    intro c hc
    rw [mem_select_wanted, mem_select_produced]
    tauto
  exact {
    wanted := by
      intro c hc
      rcases mem_select_wanted.mp hc with hc | hc
      · exact hs.wanted c hc.1
      · exact .read hw ((hwrites b).mpr hb) ((hreads c).mpr hc.1)
    reachable := by
      intro i hi
      rcases mem_select_selected.mp hi with rfl | hi
      · exact ⟨b, hw, (hwrites b).mpr hb⟩
      · exact hs.reachable i hi
    distinct := List.nodup_cons.mpr ⟨hnew, hs.distinct⟩
    produced := by
      intro c
      simp only [mem_select_produced, mem_select_selected, exists_eq_or_imp, hwrites, hs.produced]
    unproduced := by
      intro c hc
      rw [mem_select_produced, not_or]
      rcases mem_select_wanted.mp hc with hc | hc
      · exact ⟨hc.2, hs.unproduced c hc.1⟩
      · exact hc.2
    required := fun c hc => hmoved c (hs.required c hc)
    read := by
      intro i hi c hc
      rcases mem_select_selected.mp hi with rfl | hi
      · rw [mem_select_wanted, mem_select_produced]
        have := (hreads c).mp hc
        tauto
      · exact hmoved c (hs.read i hi c hc) }

theorem Sound.visit (h : d.passes = .ok passes) (hs : Sound d required s) {p : Pass}
    (hp : p ∈ passes) : Sound d required (s.visit p) := by
  unfold Search.visit
  split_ifs with hpick
  · exact hs.select h hp hpick
  · exact hs

theorem Sound.sweep (h : d.passes = .ok passes) (hs : Sound d required s) {ps : List Pass}
    (hps : ∀ p ∈ ps, p ∈ passes) : Sound d required (s.sweep ps) := by
  unfold Search.sweep
  induction ps generalizing s with
  | nil => exact hs
  | cons p ps ih =>
      exact ih (hs.visit h (hps p (by simp))) fun q hq => hps q (by simp [hq])

theorem length_selected_le (h : d.passes = .ok passes) (hs : Sound d required s) :
    s.selected.length ≤ passes.length := by
  have hsub : s.selected ⊆ List.range passes.length := by
    intro i hi
    obtain ⟨b, -, hb⟩ := hs.reachable i hi
    obtain ⟨p, hp, rfl, -⟩ := Description.exists_pass_of_writes h hb
    exact List.mem_range.mpr (Description.index_lt h hp)
  simpa using (hs.distinct.subperm hsub).length_le

theorem length_selected_visit (s : Search) (p : Pass) :
    (s.visit p).selected.length = s.selected.length + if s.picks p then 1 else 0 := by
  unfold visit
  split_ifs <;> simp [select]

theorem length_selected_sweep (s : Search) (ps : List Pass) :
    s.selected.length ≤ (s.sweep ps).selected.length := by
  unfold sweep
  induction ps generalizing s with
  | nil => exact Nat.le_refl _
  | cons p ps ih =>
      have hp := length_selected_visit s p
      have hps := ih (s.visit p)
      simp only [List.foldl_cons]
      omega

/-- A sweep that selects nothing changes nothing, because no pass is to be
selected. -/
theorem sweep_idle {ps : List Pass}
    (h : (s.sweep ps).selected.length = s.selected.length) :
    s.sweep ps = s ∧ ∀ p ∈ ps, s.picks p = false := by
  induction ps generalizing s with
  | nil => simp [sweep]
  | cons p ps ih =>
      have hstep : s.sweep (p :: ps) = (s.visit p).sweep ps := rfl
      rw [hstep] at h ⊢
      have hp := length_selected_visit s p
      have hps := length_selected_sweep (s.visit p) ps
      have hpick : s.picks p = false := by
        by_contra hpick
        simp only [Bool.not_eq_false] at hpick
        simp only [hpick, if_true] at hp
        omega
      have hvisit : s.visit p = s := by simp [visit, hpick]
      rw [hvisit] at h ⊢
      obtain ⟨hsweep, hidle⟩ := ih h
      refine ⟨hsweep, ?_⟩
      intro q hq
      rcases List.mem_cons.mp hq with rfl | hq
      · exact hpick
      · exact hidle q hq

/-- The end of a search that settled: nothing is left to be selected. -/
theorem settle_spec (h : d.passes = .ok passes) (hs : Sound d required s) (bound made : Nat)
    (hbound : passes.length < bound + s.selected.length) :
    (settle passes bound made s).settled = true ∧
      Sound d required (settle passes bound made s).search ∧
      ∀ p ∈ passes, (settle passes bound made s).search.picks p = false := by
  induction bound generalizing s made with
  | zero =>
      have hlength := length_selected_le h hs
      omega
  | succ bound ih =>
      have ht : Sound d required (s.sweep passes) := hs.sweep h fun p hp => hp
      unfold settle
      simp only
      split_ifs with hidle
      · obtain ⟨hsame, hpicks⟩ := sweep_idle hidle
        exact ⟨rfl, ht, by rwa [hsame]⟩
      · refine ih ht (made + 1) ?_
        have hgrow := length_selected_sweep s passes
        omega

/-- When no pass is to be selected, everything wanted has been met. -/
theorem Sound.complete (h : d.passes = .ok passes) (hs : Sound d required s)
    (hidle : ∀ p ∈ passes, s.picks p = false) {b : Nat} (hb : d.Wanted required b) :
    b ∈ s.wanted ∨ b ∈ s.produced := by
  induction hb with
  | required hb => exact hs.required _ hb
  | @read i b c _ hwrites hreads ih =>
      obtain ⟨p, hp, rfl, hbp⟩ := Description.exists_pass_of_writes h hwrites
      rcases ih with hwanted | hproduced
      · have hselected : p.index ∈ s.selected := by
          by_contra hnew
          have hpick := picks_iff.mpr ⟨⟨b, hbp, hwanted⟩, hnew⟩
          simp [hidle p hp] at hpick
        exact hs.read _ hselected c hreads
      · obtain ⟨j, hj, hwrites'⟩ := (hs.produced b).mp hproduced
        obtain rfl := Description.writer_unique h hwrites hwrites'
        exact hs.read _ hj c hreads

theorem Sound.wanted_iff (h : d.passes = .ok passes) (hs : Sound d required s)
    (hidle : ∀ p ∈ passes, s.picks p = false) (b : Nat) :
    b ∈ s.wanted ↔ d.Wanted required b ∧ ∀ i, ¬d.Writes i b := by
  constructor
  · intro hb
    refine ⟨hs.wanted b hb, ?_⟩
    intro i hwrites
    obtain ⟨p, hp, rfl, hbp⟩ := Description.exists_pass_of_writes h hwrites
    have hselected : p.index ∈ s.selected := by
      by_contra hnew
      have hpick := picks_iff.mpr ⟨⟨b, hbp, hb⟩, hnew⟩
      simp [hidle p hp] at hpick
    exact hs.unproduced b hb ((hs.produced b).mpr ⟨_, hselected, hwrites⟩)
  · intro hmissing
    rcases hmissing with ⟨hb, hno⟩
    rcases hs.complete h hidle hb with hb | hb
    · exact hb
    · obtain ⟨i, -, hwrites⟩ := (hs.produced b).mp hb
      exact (hno i hwrites).elim

theorem Sound.selected_iff (h : d.passes = .ok passes) (hs : Sound d required s)
    (hidle : ∀ p ∈ passes, s.picks p = false) (i : Nat) :
    i ∈ s.selected ↔ d.Reachable required i := by
  refine ⟨hs.reachable i, ?_⟩
  intro hreachable
  rcases hreachable with ⟨b, hb, hwrites⟩
  have hproduced : b ∈ s.produced := by
    refine (hs.complete h hidle hb).resolve_left fun hw => ?_
    exact ((hs.wanted_iff h hidle b).mp hw).2 i hwrites
  obtain ⟨j, hj, hwrites'⟩ := (hs.produced b).mp hproduced
  exact Description.writer_unique h hwrites hwrites' ▸ hj

end Search

namespace Description

variable {d : Description} {passes : List Pass} {required : List Nat}

/-- What a selection is when every wanted buffer has a producer. -/
theorem select_of_produced (h : d.passes = .ok passes)
    (hall : ∀ b, d.Wanted required b → ∃ i, d.Writes i b) :
    ∃ selection, d.select passes required = .ok selection ∧
      selection.passes.Sublist passes ∧
      ∀ p ∈ passes, p ∈ selection.passes ↔ d.Reachable required p.index := by
  obtain ⟨hsettled, hsound, hidle⟩ :=
    Search.settle_spec h Search.sound_start (passes.length + 1) 0 (by simp)
  have hempty : (Search.settle passes (passes.length + 1) 0
      { wanted := required }).search.wanted = [] := by
    refine List.eq_nil_iff_forall_not_mem.mpr fun b hb => ?_
    obtain ⟨hwanted, hno⟩ := (hsound.wanted_iff h hidle b).mp hb
    obtain ⟨i, hwrites⟩ := hall b hwanted
    exact hno i hwrites
  simp only [select, hsettled, hempty, List.isEmpty_nil, Bool.and_self, if_true, Except.ok.injEq,
    exists_eq_left']
  refine ⟨List.filter_sublist, ?_⟩
  intro p hp
  simp only [List.mem_filter, hp, List.contains_eq_mem, decide_eq_true_eq, true_and]
  exact hsound.selected_iff h hidle p.index

/-- What a selection is otherwise: the wanted buffers without a producer. -/
theorem select_of_unproduced (h : d.passes = .ok passes) {b : Nat} (hb : d.Wanted required b)
    (hno : ∀ i, ¬d.Writes i b) :
    ∃ missing, (∀ c, c ∈ missing ↔ d.Wanted required c ∧ ∀ i, ¬d.Writes i c) ∧
      d.select passes required = .error (.unrealizable (d.namesInTable missing) []) := by
  obtain ⟨-, hsound, hidle⟩ :=
    Search.settle_spec h Search.sound_start (passes.length + 1) 0 (by simp)
  have hmem := (hsound.wanted_iff h hidle b).mpr ⟨hb, hno⟩
  refine ⟨_, hsound.wanted_iff h hidle, ?_⟩
  simp only [select]
  rw [if_neg]
  simp only [Bool.and_eq_true, List.isEmpty_iff, not_and]
  intro _ hempty
  simp [hempty] at hmem

end Description
end FrameGraph
