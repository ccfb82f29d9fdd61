import FrameGraph.Proofs.StallDiagnosis

/-!
# The weights do not matter

A configuration's weights decide in which order passes are placed, and with it
which slots the buffers get. What has been placed in the end does not depend on
them. So two configurations with one resolution both succeed, with the same
phases but for their order and slots, or both fail with the same error.

Up to the placement nothing reads the weights. From there on both placements go
as far as the blocked operations allow: if none is blocked, all selected passes
are placed, and an output is discarded if nothing consumes it; otherwise the
diagnosis is the same.
-/
namespace FrameGraph

/-- The operation of a phase and the buffers that it discards. -/
def Phase.outline (p : Phase) : Nat × List Nat :=
  (p.operation, (p.outputs.filter (·.allocation.isNone)).map (·.buffer))

theorem compile_of_selection {d : Description} {required : List Nat} {selection : Selection}
    (h : d.selection required = .ok selection) (config : Config) :
    compile d required config =
      ((Workload.ofPasses d config required selection.passes).checkBindings selection.passes >>=
        fun _ => (Workload.ofPasses d config required selection.passes).outcome) := by
  rw [compile, h]
  rfl

theorem Workload.checkBindings_withConfig (w : Workload) (config : Config) (ps : List Pass) :
    { w with config := config }.checkBindings ps = w.checkBindings ps := by
  induction ps with
  | nil => rfl
  | cons p ps ih =>
      rw [checkBindings, checkBindings, ih]
      rfl

theorem Workload.checkBindings_congr {d : Description} {required : List Nat} {c₁ c₂ : Config}
    (hres : c₁.resolution = c₂.resolution) (ps qs : List Pass) :
    (ofPasses d c₁ required ps).checkBindings qs =
      (ofPasses d c₂ required ps).checkBindings qs := by
  have hconfig : ofPasses d c₁ required ps = { ofPasses d c₂ required ps with config := c₁ } := by
    unfold ofPasses
    rw [hres]
  rw [hconfig, checkBindings_withConfig]

namespace Compilation

variable {d : Description} {required : List Nat} {config c₁ c₂ : Config}
  {passes selected : List Pass} {last last₁ last₂ : Progress} {s s₁ s₂ : Schedule}

theorem allocation_isNone (h : Compilation d required config passes selected last s) (b : Nat) :
    (s.allocation b).isNone =
      decide (Workload.countConsumers required.eraseDups selected b = 0) := by
  have hmet := h.sound.met b
  rw [← h.allocation_eq, Workload.countConsumers_perm h.order_perm] at hmet
  rw [Bool.eq_iff_iff, decide_eq_true_iff, Option.isNone_iff_eq_none,
    ← Option.not_isSome_iff_eq_none, hmet, not_not]
  rfl

theorem outlines_eq (h : Compilation d required config passes selected last s) :
    s.phases.map Phase.outline = last.order.map fun p => (p.index, p.writes.filter fun b =>
      Workload.countConsumers required.eraseDups selected b = 0) := by
  rw [h.phases_eq, List.map_map]
  refine List.map_congr_left fun p _ => Prod.ext rfl ?_
  rw [Pass.writes, List.filter_map]
  simp [Phase.outline, Pass.phase, List.filter_map, Function.comp_def, h.allocation_isNone]

/-- Two compilations of one selection have the same phases, in some order. -/
theorem outlines_perm (h₁ : Compilation d required c₁ passes selected last₁ s₁)
    (h₂ : Compilation d required c₂ passes selected last₂ s₂) :
    (s₁.phases.map Phase.outline).Perm (s₂.phases.map Phase.outline) := by
  rw [h₁.outlines_eq, h₂.outlines_eq]
  exact (h₁.order_perm.trans h₂.order_perm.symm).map _

end Compilation

/-- The placements of one selection both succeed, or both fail with the diagnosis. -/
theorem Description.Selects.outcomes_agree {d : Description} {required : List Nat}
    {c₁ c₂ : Config} {passes selected : List Pass} (h : d.Selects required passes selected)
    (hres : c₁.resolution = c₂.resolution)
    (hbindings : (Workload.ofPasses d c₁ required selected).checkBindings selected = .ok ()) :
    (∃ s₁ s₂, (Workload.ofPasses d c₁ required selected).outcome = .ok s₁ ∧
        (Workload.ofPasses d c₂ required selected).outcome = .ok s₂ ∧
        (s₁.phases.map Phase.outline).Perm (s₂.phases.map Phase.outline)) ∨
      ∃ e, d.Diagnosed required e ∧ (Workload.ofPasses d c₁ required selected).outcome = .error e ∧
        (Workload.ofPasses d c₂ required selected).outcome = .error e := by
  have hbindings' := hbindings
  rw [Workload.checkBindings_congr hres] at hbindings'
  rcases h.schedules hbindings with
      ⟨last₁, s₁, hs₁, hok₁⟩ | ⟨e₁, i, hblocked₁, hdiagnosed₁, herror₁⟩ <;>
    rcases h.schedules hbindings' with
      ⟨last₂, s₂, hs₂, hok₂⟩ | ⟨e₂, j, hblocked₂, hdiagnosed₂, herror₂⟩
  · exact .inl ⟨s₁, s₂, hok₁, hok₂, hs₁.outlines_perm hs₂⟩
  · exact (hs₁.not_blocked j hblocked₂).elim
  · exact (hs₂.not_blocked i hblocked₁).elim
  · rw [← hdiagnosed₁.unique hdiagnosed₂] at herror₂
    exact .inr ⟨e₁, hdiagnosed₁, herror₁, herror₂⟩

/-- Whether and how a compilation fails does not depend on the weights, nor does
what the phases do; if the placement fails, the error names the blocked
operations and the awaited buffers. -/
theorem confluence_of_compile (d : Description) (required : List Nat) {c₁ c₂ : Config}
    (hres : c₁.resolution = c₂.resolution) :
    ((∃ s₁ s₂, compile d required c₁ = .ok s₁ ∧ compile d required c₂ = .ok s₂ ∧
        (s₁.phases.map Phase.outline).Perm (s₂.phases.map Phase.outline)) ∨
      ∃ e, compile d required c₁ = .error e ∧ compile d required c₂ = .error e) ∧
    ∀ selection e, d.selection required = .ok selection →
      (Workload.ofPasses d c₁ required selection.passes).checkBindings selection.passes = .ok () →
      compile d required c₁ = .error e → d.Diagnosed required e := by
  cases hselection : d.selection required with
  | error e =>
      refine ⟨.inr ⟨e, ?_, ?_⟩, fun _ _ hother => by cases hother⟩ <;>
        · rw [compile, hselection]
          rfl
  | ok selection =>
      obtain ⟨passes, hselects⟩ := Description.selects_of_selection hselection
      rw [compile_of_selection hselection, compile_of_selection hselection,
        ← Workload.checkBindings_congr hres]
      cases hbindings : (Workload.ofPasses d c₁ required selection.passes).checkBindings
          selection.passes with
      | error e =>
          refine ⟨.inr ⟨e, rfl, rfl⟩, fun other _ hother hok => ?_⟩
          obtain rfl := Except.ok.inj hother
          rw [hbindings] at hok
          cases hok
      | ok =>
          rcases hselects.outcomes_agree hres hbindings with
            hboth | ⟨e, hdiagnosed, herror₁, herror₂⟩
          · refine ⟨.inl hboth, fun _ e _ _ herror => ?_⟩
            obtain ⟨s₁, -, hok, -⟩ := hboth
            exact absurd (hok.symm.trans herror) (by simp)
          · refine ⟨.inr ⟨e, herror₁, herror₂⟩, fun _ e' _ _ herror => ?_⟩
            obtain rfl : e = e' := Except.error.inj (herror₁.symm.trans herror)
            exact hdiagnosed

/-- A picture made of a sound that feeds back into itself. -/
def feedback : Description where
  buffers := [.texture "sound" (.absolute ⟨4, 4⟩) .rgba8Unorm,
    .texture "echo" (.absolute ⟨4, 4⟩) .rgba8Unorm,
    .texture "picture" (.absolute ⟨4, 4⟩) .rgba8Unorm]
  operations := [
    { name := "mix", inputs := [⟨"echo", some 1⟩], outputs := [⟨"out", some 0⟩] },
    { name := "delay", inputs := [⟨"in", some 0⟩], outputs := [⟨"out", some 1⟩] },
    { name := "plot", inputs := [⟨"in", some 0⟩], outputs := [⟨"out", some 2⟩] }]

theorem confluence_feedback :
    ({} : Config).resolution = ({ capacityWeight := 0, countWeight := -7 } : Config).resolution ∧
      (∃ e, compile feedback [2] {} = .error e ∧
        compile feedback [2] { capacityWeight := 0, countWeight := -7 } = .error e) ∧
      feedback.Diagnosed [2] (.unrealizable ["sound"] ["mix", "delay"]) := by
  have hfails : compile feedback [2] {} =
      .error (.unrealizable ["sound"] ["mix", "delay"]) := by rfl
  obtain ⟨hagree, hdiagnosed⟩ := confluence_of_compile feedback [2]
    (show ({} : Config).resolution =
      ({ capacityWeight := 0, countWeight := -7 } : Config).resolution from rfl)
  refine ⟨rfl, hagree.resolve_left ?_, hdiagnosed _ _ rfl rfl hfails⟩
  intro hboth
  obtain ⟨s, -, hok, -⟩ := hboth
  exact absurd (hok.symm.trans hfails) (by simp)

end FrameGraph
