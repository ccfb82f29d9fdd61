import FrameGraph.Proofs.RenamedDeclarations

/-!
# Pruned operations

An operation that the required buffers do not depend on might as well not have
been declared. The selected operations alone are accepted again and selected
again, under the indices of their places among the selected ones, and nothing
else about the compilation changes.
-/
namespace FrameGraph

/-- Passes get other indices and nothing else changes. -/
def Renaming.reindexing (f : Nat → Nat) : Renaming := ⟨.refl Nat, f, .refl Nat, fun _ => .refl Nat⟩

namespace Renaming

variable (f : Nat → Nat)

theorem keepsSlots_reindexing : (reindexing f).KeepsSlots := ⟨fun _ => rfl, fun _ _ => rfl⟩

theorem pass_reindexing (p : Pass) : (reindexing f).pass p = { p with index := f p.index } :=
  (reindexing f).pass_of_buffer_eq (fun _ => rfl) p

theorem writes_reindexing (p : Pass) : ((reindexing f).pass p).writes = p.writes := by
  rw [pass_reindexing]
  rfl

end Renaming

/-- The places of the passes of a selection in the description. -/
def Selection.indices (s : Selection) : List Nat := s.passes.map (·.index)

/-- The schedule with other indices for its operations. -/
def Schedule.reindex (f : Nat → Nat) (s : Schedule) : Schedule :=
  { s with phases := s.phases.map fun p => { p with operation := f p.operation } }

theorem Schedule.Renamed.eq_reindex {f : Nat → Nat} {s s' : Schedule}
    (h : s.Renamed (.reindexing f) s') : s' = s.reindex f := by
  have hphases : s'.phases = (s.reindex f).phases := by
    rw [h.phases_eq]
    apply List.map_congr_left
    intro p _
    have hportSlot : (Renaming.reindexing f).portSlot = id :=
      Renaming.portSlot_eq_id _ (fun _ => rfl) (Renaming.keepsSlots_reindexing f)
    rw [Renaming.phase, hportSlot, List.map_id, List.map_id]
    rfl
  have hpeaks : s'.peaks = s.peaks := h.peaks_eq (Renaming.keepsSlots_reindexing f)
  have hallocations : s'.allocations = s.allocations :=
    List.ext_getElem? (h.allocations_eq (Renaming.keepsSlots_reindexing f))
  have hresolution : s'.resolution = s.resolution := h.resolution_eq
  cases s'
  simp only at hphases hpeaks hallocations hresolution
  rw [hphases, hpeaks, hallocations, hresolution]
  rfl

namespace Description

/-- The description with the operations at the listed places only. -/
def keep (d : Description) (places : List Nat) : Description :=
  { d with operations := places.filterMap fun i => d.operations[i]? }

theorem tableRenamed_keep (d : Description) (places : List Nat) (f : Nat → Nat) :
    d.TableRenamed (.reindexing f) (d.keep places) :=
  ⟨fun _ => rfl, fun _ _ => rfl⟩

variable {d : Description} {passes : List Pass}

/-- The operation that a pass was accepted from. -/
theorem exists_operation (h : d.passes = .ok passes) {p : Pass} (hp : p ∈ passes) :
    ∃ op, d.operations[p.index]? = some op ∧ op.toPass d p.index = .ok p := by
  obtain ⟨op, hop, hplace, -⟩ := accepted_of_mem h hp
  obtain ⟨-, new, rfl, -, hpasses⟩ := passesFrom_spec h .nil
  obtain ⟨q, hq, htoPass⟩ := hpasses p.index op hop
  rw [List.length_nil, Nat.zero_add] at htoPass
  cases hplace.symm.trans hq
  exact ⟨op, hop, htoPass⟩

/-- Passes that were accepted among others are accepted on their own, each under
the index of its place. -/
theorem passesFrom_keep (h : d.passes = .ok passes) {places : List Nat} {f : Nat → Nat}
    {done rest : List Pass} (hsublist : (done ++ rest).Sublist passes)
    (hplace : ∀ k p, (done ++ rest)[k]? = some p → f p.index = k) :
    (d.keep places).passesFrom (done.map (Renaming.reindexing f).pass)
        ((rest.map (·.index)).filterMap fun i => d.operations[i]?) =
      .ok ((done ++ rest).map (Renaming.reindexing f).pass) := by
  induction rest generalizing done with
  | nil => simp [passesFrom]
  | cons p rest ih =>
      have hp : p ∈ passes := hsublist.subset (by simp)
      obtain ⟨op, hop, htoPass⟩ := exists_operation h hp
      have hindex : f p.index = done.length := hplace done.length p (by simp)
      have haccepted : op.toPass (d.keep places) (done.map (Renaming.reindexing f).pass).length =
          .ok ((Renaming.reindexing f).pass p) := by
        have hmap := (d.tableRenamed_keep places f).toPass_map op p.index
        rw [Renaming.operation_eq _ (fun _ => rfl), htoPass] at hmap
        rw [List.length_map, ← hindex]
        exact hmap
      have hfresh : ((Renaming.reindexing f).pass p).checkFresh (d.keep places)
          (done.map (Renaming.reindexing f).pass) ((Renaming.reindexing f).pass p).writes =
          .ok () := by
        have hseparate := (passes_spec h).1.sublist hsublist
        rw [Pass.checkFresh_eq_ok]
        intro b hb q hq
        obtain ⟨r, hr, rfl⟩ := List.mem_map.mp hq
        rw [Renaming.writes_reindexing] at hb ⊢
        exact fun hbr => (List.pairwise_append.mp hseparate).2.2 r hr p (by simp) b hbr hb
      have hsplit : done ++ p :: rest = (done ++ [p]) ++ rest := by simp
      rw [hsplit] at hsublist hplace ⊢
      have hrest := ih hsublist hplace
      rw [List.map_append] at hrest
      simp only [List.map_cons, List.filterMap_cons, hop, passesFrom]
      exact bind_eq_ok.mpr ⟨_, haccepted, bind_eq_ok.mpr ⟨_, hfresh, hrest⟩⟩

theorem passes_keep (h : d.passes = .ok passes) {ps : List Pass} (hsublist : ps.Sublist passes) :
    (d.keep (ps.map (·.index))).passes =
      .ok (ps.map (Renaming.reindexing fun i => (ps.map (·.index)).idxOf i).pass) := by
  have hnodup : (ps.map (·.index)).Nodup :=
    (List.pairwise_map.mpr ((passes_pairwise h).sublist hsublist)).imp Nat.ne_of_lt
  have hplace : ∀ k p, ([] ++ ps)[k]? = some p → (ps.map (·.index)).idxOf p.index = k := by
    intro k p hp
    have hindex : (ps.map (·.index))[k]? = some p.index := by
      rw [List.getElem?_map]
      exact congrArg (Option.map (·.index)) hp
    obtain ⟨hk, hat⟩ := List.getElem?_eq_some_iff.mp hindex
    rw [← hat, hnodup.idxOf_getElem]
  have hall : ([] ++ ps).Sublist passes := hsublist
  exact passesFrom_keep h hall hplace

theorem covers_keep {required : List Nat} {selection : Selection}
    (h : d.Selects required passes selection.passes) :
    d.Covers (.reindexing fun i => selection.indices.idxOf i) (d.keep selection.indices) required
      required passes selection.passes where
  toTableRenamed := d.tableRenamed_keep _ _
  accepted := h.accepted
  accepted_renamed := passes_keep h.accepted h.sublist
  sublist := h.sublist
  reachable := fun p hp hreachable => (h.mem_iff p hp).mpr hreachable
  required_iff := fun _ => Iff.rfl

end Description

/-- Compiling the selected operations alone gives the same result, with the
places among the selected operations for the places in the description. -/
theorem compile_keep {d : Description} {required : List Nat} {selection : Selection}
    (hselection : d.selection required = .ok selection) (config : Config) :
    compile (d.keep selection.indices) required config =
      (compile d required config).map
        (Schedule.reindex fun i => selection.indices.idxOf i) := by
  obtain ⟨passes, hselects⟩ := Description.selects_of_selection hselection
  have hrequired : required = required.map (Renaming.reindexing
      fun i => selection.indices.idxOf i).buffer := (List.map_id required).symm
  have hsame := (Description.covers_keep hselects).sameOutcome hrequired
    (Renaming.keepsSlots_reindexing _) config
  generalize compile d required config = result at hsame
  generalize compile (d.keep selection.indices) required config = result' at hsame
  cases hsame with
  | scheduled hrenamed => exact congrArg Except.ok hrenamed.eq_reindex
  | failed => rfl
  | unrealizable _ hequal =>
      rw [hequal fun _ => rfl]
      rfl

/-- The picture is tinted, and a sketch is made from it that nobody asked for. -/
def sketched : Description where
  buffers := tintInPlace.buffers ++ [.dummy "sketch"]
  operations := [
    { name := "draw", outputs := [⟨"out", some 0⟩] },
    { name := "sketch", inputs := [⟨"in", some 0⟩], outputs := [⟨"out", some 2⟩] },
    { name := "tint", inputs := [⟨"in", some 0⟩], outputs := [⟨"out", some 1⟩],
      bindings := [("in", "out")] }]

/-- What is left without the sketch. -/
def unsketched : Selection where
  passes := [⟨0, "draw", [], [⟨⟨0, 0⟩, false⟩], []⟩,
    ⟨2, "tint", [⟨0, 0⟩], [⟨⟨0, 1⟩, false⟩], [(0, 0)]⟩]
  sweeps := 3

theorem compile_unsketched :
    sketched.selection [1] = .ok unsketched ∧ unsketched.indices = [0, 2] ∧
      compile (sketched.keep [0, 2]) [1] {} =
        (compile sketched [1] {}).map (Schedule.reindex fun i => [0, 2].idxOf i) := by
  have hselection : sketched.selection [1] = .ok unsketched := by rfl
  exact ⟨hselection, rfl, compile_keep hselection {}⟩

end FrameGraph
