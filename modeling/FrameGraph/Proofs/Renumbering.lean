import FrameGraph.Proofs.RenamedDeclarations
import Mathlib.Data.Fin.Basic
import Mathlib.Logic.Equiv.Basic

/-!
# The numbers of the buffers

The numbers that buffers get in the table mean nothing. Permuting the table, and
the numbers at the ports and among the required buffers with it, permutes the
buffers of the schedule and leaves everything else as it is: the order of the
phases, the classes with their peaks, and the slots. Only the list of buffers in
an error of an unrealizable frame is in the order of the table.

A port or a requirement can name a number that is not in the table. Such a number
stays, and so does the error about it.
-/
namespace FrameGraph

/-- Buffers get other numbers and nothing else changes. A number that is not in
the table stays. -/
def Renaming.renumbering {n : Nat} (π : Equiv.Perm (Fin n)) : Renaming where
  buffer := π.extendDomain Fin.equivSubtype
  index := id
  classId := .refl Nat
  slot := fun _ => .refl Nat

namespace Renaming

variable {n : Nat} (π : Equiv.Perm (Fin n))

theorem keepsSlots_renumbering : (renumbering π).KeepsSlots := ⟨fun _ => rfl, fun _ _ => rfl⟩

theorem buffer_renumbering (b : Fin n) : (renumbering π).buffer b = π b :=
  Equiv.Perm.extendDomain_apply_subtype π Fin.equivSubtype b.isLt

theorem buffer_renumbering_of_le {b : Nat} (hb : n ≤ b) : (renumbering π).buffer b = b :=
  Equiv.Perm.extendDomain_apply_not_subtype π Fin.equivSubtype (Nat.not_lt.mpr hb)

end Renaming

/-- The table permuted, and every port with it. -/
def Description.renumber (d : Description) (π : Equiv.Perm (Fin d.buffers.length)) :
    Description where
  buffers := List.ofFn fun b => d.buffers[π.symm b]
  operations := d.operations.map (Renaming.renumbering π).operation

theorem Description.tableRenamed_renumber (d : Description)
    (π : Equiv.Perm (Fin d.buffers.length)) :
    d.TableRenamed (.renumbering π) (d.renumber π) where
  fixed := fun b hb => Renaming.buffer_renumbering_of_le π hb
  buffers := by
    intro b
    by_cases hb : b < d.buffers.length
    · have hplace : (Renaming.renumbering π).buffer b = π ⟨b, hb⟩ :=
        Renaming.buffer_renumbering π ⟨b, hb⟩
      rw [hplace, renumber, List.getElem?_ofFn, dif_pos (π ⟨b, hb⟩).isLt]
      simp only [Fin.eta, π.symm_apply_apply]
      exact (List.getElem?_eq_getElem hb).symm
    · have hle := Nat.not_lt.mp hb
      rw [Renaming.buffer_renumbering_of_le π hle, List.getElem?_eq_none hle,
        List.getElem?_eq_none (by simpa [renumber] using hle)]

section
variable {ρ : Renaming} {d d' : Description}

/-- Renamed operations are accepted as the renamed passes, one after the other. -/
theorem Description.TableRenamed.passesFrom_map (h : d.TableRenamed ρ d')
    (hindex : ∀ i, ρ.index i = i) (done : List Pass) (ops : List Operation) :
    d'.passesFrom (done.map ρ.pass) (ops.map ρ.operation) =
      List.map ρ.pass <$> d.passesFrom done ops := by
  induction ops generalizing done with
  | nil => rfl
  | cons op ops ih =>
      have htoPass := h.toPass_map op done.length
      rw [hindex] at htoPass
      simp only [List.map_cons, passesFrom, List.length_map, htoPass, bind_map_left, map_bind]
      refine bind_congr fun p => ?_
      have hfresh := h.checkFresh_map p done p.writes
      have hrest := ih (done ++ [p])
      rw [← ρ.writes_pass] at hfresh
      rw [List.map_append] at hrest
      rw [hfresh]
      exact bind_congr fun _ => hrest

theorem Description.TableRenamed.sameOutcome (h : d.TableRenamed ρ d') (hρ : ρ.KeepsSlots)
    (hindex : ∀ i, ρ.index i = i) (hoperations : d'.operations = d.operations.map ρ.operation)
    (required : List Nat) (config : Config) :
    SameOutcome ρ (compile d required config) (compile d' (required.map ρ.buffer) config) := by
  have hpasses : d'.passes = List.map ρ.pass <$> d.passes := by
    have hmap := h.passesFrom_map hindex [] d.operations
    rwa [← hoperations] at hmap
  cases haccepted : d.passes with
  | error e =>
      rw [haccepted] at hpasses
      unfold compile selection
      rw [h.checkHandles_map, haccepted, hpasses]
      cases d.checkHandles required <;> exact .failed
  | ok passes =>
      rw [haccepted] at hpasses
      have hcovers : d.Covers ρ d' required (required.map ρ.buffer) passes passes :=
        ⟨h, haccepted, hpasses, .refl passes, fun p hp _ => hp, fun b =>
          List.mem_map_of_injective ρ.buffer.injective⟩
      exact hcovers.sameOutcome rfl hρ config

end

/-- The phase with other numbers for its buffers. -/
def Phase.renumber (σ : Equiv.Perm Nat) (p : Phase) : Phase :=
  { p with
    inputs := p.inputs.map fun q => { q with buffer := σ q.buffer }
    outputs := p.outputs.map fun q => { q with buffer := σ q.buffer } }

/-- The second schedule is the first one with other numbers for its buffers. -/
structure Schedule.Renumbered (σ : Equiv.Perm Nat) (s s' : Schedule) : Prop where
  phases : s'.phases = s.phases.map (Phase.renumber σ)
  peaks : s'.peaks = s.peaks
  allocations : ∀ b, s'.allocation (σ b) = s.allocation b
  resolution : s'.resolution = s.resolution

/-- The errors are the same, but the order of the buffers that an unrealizable frame
lacks. -/
inductive GraphError.Agrees : GraphError → GraphError → Prop
  | refl (e : GraphError) : Agrees e e
  | unrealizable {buffers buffers' : List String} (operations : List String) :
      buffers'.Perm buffers →
      Agrees (.unrealizable buffers operations) (.unrealizable buffers' operations)

theorem Schedule.Renamed.renumbered {n : Nat} {π : Equiv.Perm (Fin n)} {s s' : Schedule}
    (h : s.Renamed (.renumbering π) s') :
    s.Renumbered (Renaming.renumbering π).buffer s' := by
  have hρ := Renaming.keepsSlots_renumbering π
  constructor
  · rw [h.phases_eq]
    apply List.map_congr_left
    intro p _
    unfold Renaming.phase Renaming.portSlot Phase.renumber
    rw [hρ.allocation_eq_id, Option.map_id]
    rfl
  · exact h.peaks_eq hρ
  · intro b
    unfold allocation
    rw [h.allocations_eq hρ]
  · exact h.resolution_eq

/-- Compiling a renumbered description gives the renumbered schedule, or both
compilations fail for the same reason. -/
theorem compile_renumber (d : Description) (π : Equiv.Perm (Fin d.buffers.length))
    (required : List Nat) (config : Config) :
    (∃ s s', compile d required config = .ok s ∧
        compile (d.renumber π) (required.map (Renaming.renumbering π).buffer) config = .ok s' ∧
        s.Renumbered (Renaming.renumbering π).buffer s') ∨
      ∃ e e', compile d required config = .error e ∧
        compile (d.renumber π) (required.map (Renaming.renumbering π).buffer) config = .error e' ∧
        e.Agrees e' := by
  have hsame := (d.tableRenamed_renumber π).sameOutcome (Renaming.keepsSlots_renumbering π)
    (fun _ => rfl) rfl required config
  generalize compile d required config = result at hsame
  generalize compile (d.renumber π) (required.map (Renaming.renumbering π).buffer) config =
    result' at hsame
  cases hsame with
  | scheduled hrenamed => exact .inl ⟨_, _, rfl, rfl, hrenamed.renumbered⟩
  | failed => exact .inr ⟨_, _, rfl, rfl, .refl _⟩
  | unrealizable hperm _ => exact .inr ⟨_, _, rfl, rfl, .unrealizable _ hperm⟩

end FrameGraph
