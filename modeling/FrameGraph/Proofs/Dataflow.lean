import FrameGraph.Proofs.Compilation
import Mathlib.Logic.Function.Basic

/-!
# Data flow through slots

What a schedule does to the contents of the slots. A phase first finds its
inputs and then stores its outputs; a run of the phases is a replay if every
input is found in its slot.

The phases were placed from the last to the first, so the induction follows the
placement: whenever the slots of all open demands hold their buffers, the phases
placed so far replay and leave the required buffers in their slots. In the end
no demand is open, and nothing is asked of the contents any more.
-/
namespace FrameGraph

/-- The buffer in each slot, if it has been written at all. -/
abbrev Storage := Allocation → Option Nat

/-- A port without a slot is discarded. -/
def PortSlot.store (m : Storage) (o : PortSlot) : Storage :=
  match o.allocation with
  | some x => Function.update m x (some o.buffer)
  | none => m

namespace Phase

def Finds (p : Phase) (m : Storage) : Prop :=
  ∀ i ∈ p.inputs, ∃ x, i.allocation = some x ∧ m x = some i.buffer

def store (p : Phase) (m : Storage) : Storage := p.outputs.foldl PortSlot.store m

end Phase

/-- The phases run one after another, and every one of them finds its inputs. -/
inductive Replays : Storage → List Phase → Storage → Prop
  | nil (m : Storage) : Replays m [] m
  | cons {p : Phase} {ps : List Phase} {m m' : Storage} :
      p.Finds m → Replays (p.store m) ps m' → Replays m (p :: ps) m'

/-- What is in a slot after storing: the slot held the buffer before or is
stored to, and nothing else is stored there. -/
theorem foldl_store_eq {ports : List PortSlot} {m : Storage} {x : Allocation} {b : Nat}
    (hm : m x = some b ∨ ∃ o ∈ ports, o.allocation = some x)
    (hports : ∀ o ∈ ports, o.allocation = some x → o.buffer = b) :
    ports.foldl PortSlot.store m x = some b := by
  induction ports generalizing m with
  | nil => simpa using hm
  | cons o ports ih =>
      refine ih ?_ fun o' ho' => hports o' (by simp [ho'])
      by_cases hx : o.allocation = some x
      · left
        simp [PortSlot.store, hx, hports o (by simp) hx]
      · have hsame : o.store m x = m x := by
          cases ho : o.allocation with
          | none => simp [PortSlot.store, ho]
          | some y =>
              have hne : x ≠ y := by
                intro heq
                subst heq
                exact hx ho
              simp [PortSlot.store, ho, hne]
        rw [hsame]
        rcases hm with hm | ⟨o', ho', hx'⟩
        · exact .inl hm
        · rcases List.mem_cons.mp ho' with rfl | ho'
          · exact (hx hx').elim
          · exact .inr ⟨o', ho', hx'⟩

def Ledger.HeldIn (l : Ledger) (m : Storage) : Prop := ∀ b x, l.slot? b = some x → m x = some b

namespace Workload

variable {w : Workload} {s next : Progress} {p : Pass}

namespace Places

theorem finds (h : w.Places s p next) {m : Storage} (hm : next.ledger.HeldIn m) (phase : Phase)
    (hinputs : phase.inputs = p.inputs.map fun i =>
      ⟨i.port, i.buffer, next.ledger.slot? i.buffer⟩) :
    phase.Finds m := by
  intro port hport
  rw [hinputs] at hport
  obtain ⟨i, hi, rfl⟩ := List.mem_map.mp hport
  obtain ⟨d, hd, -⟩ := h.supplied (List.mem_map_of_mem hi)
  have hslot : next.ledger.slot? i.buffer = some d.allocation := by simp [Ledger.slot?, hd]
  exact ⟨d.allocation, hslot, hm _ _ hslot⟩

theorem slot?_eq (h : w.Places s p next) {b : Nat} {x : Allocation}
    (hb : s.ledger.slot? b = some x) (hwrites : b ∉ p.writes) : next.ledger.slot? b = some x := by
  by_cases hread : b ∈ p.reads
  · obtain ⟨d, hd, hsupplied⟩ := h.supplied hread
    cases hsupplied with
    | again hbefore => simpa [Ledger.slot?, hd, hbefore] using hb
    | donated hnone => simp [Ledger.slot?, hnone] at hb
    | fresh hnone => simp [Ledger.slot?, hnone] at hb
  · rwa [Ledger.slot?, h.settled.other b hread hwrites]

theorem store_held (hs : w.Sound s) (h : w.Places s p next) {m : Storage}
    (hm : next.ledger.HeldIn m) (phase : Phase)
    (houtputs : phase.outputs =
      p.outputs.map fun o => ⟨o.port, o.buffer, s.ledger.slot? o.buffer⟩) :
    s.ledger.HeldIn (phase.store m) := by
  intro b x hb
  rw [Phase.store, houtputs]
  refine foldl_store_eq ?_ ?_
  · by_cases hwrites : b ∈ p.writes
    · obtain ⟨o, ho, rfl⟩ := List.mem_map.mp hwrites
      exact .inr ⟨_, List.mem_map_of_mem ho, hb⟩
    · exact .inl (hm b x (h.slot?_eq hb hwrites))
  · intro port hport hx
    obtain ⟨o, -, rfl⟩ := List.mem_map.mp hport
    exact hs.balanced.slot?_injective hx hb

end Places

/-- From any contents in which the demanded buffers are in their slots, the
phases placed so far replay, and the required buffers end up in theirs. -/
theorem Head.replays (hw : w.WellFormed) (h : w.Head s) {m : Storage} (hm : s.ledger.HeldIn m) :
    ∃ m', Replays m (s.placed.map (·.phase)) m' ∧
      ∀ b ∈ w.required, ∃ x, s.ledger.allocation? b = some x ∧ m' x = some b := by
  refine (h.induction hw (motive := fun s => ∀ m, s.ledger.HeldIn m →
    ∃ m', Replays m (s.placed.map (·.phase)) m' ∧
      ∀ b ∈ w.required, ∃ x, s.ledger.allocation? b = some x ∧ m' x = some b) ?_ ?_).2 m hm
  · intro m hm
    refine ⟨m, .nil m, fun b hb => ?_⟩
    have hopening := opening_startLedger hw
    obtain ⟨d, hd⟩ := Option.isSome_iff_exists.mp ((hopening.demanded b).mpr hb)
    have hslot : w.start.ledger.slot? b = some d.allocation :=
      Ledger.slot?_eq_some.mpr ⟨d, hd, rfl⟩
    exact ⟨d.allocation, hopening.balanced.recorded b d hd, hm b _ hslot⟩
  · intro s p next hs hplaces ih m hm
    obtain ⟨placement, hplaced, -, hphase⟩ := hplaces.placed
    have hfinds := hplaces.finds hm placement.phase (by rw [hphase])
    obtain ⟨m', hreplays, hrequired⟩ :=
      ih _ (hplaces.store_held hs hm placement.phase (by rw [hphase]))
    refine ⟨m', ?_, ?_⟩
    · rw [hplaced, List.map_cons]
      exact .cons hfinds hreplays
    · intro b hb
      obtain ⟨x, hx, hmx⟩ := hrequired b hb
      exact ⟨x, (hplaces.allocation?_of_isSome hs (by simp [hx])).trans hx, hmx⟩

end Workload

theorem Compilation.replays {d : Description} {required : List Nat} {config : Config}
    {passes selected : List Pass} {last : Progress} {s : Schedule}
    (h : Compilation d required config passes selected last s) (m : Storage) :
    ∃ m', Replays m s.phases m' ∧
      ∀ b ∈ required, ∃ x, s.allocation b = some x ∧ m' x = some b := by
  have hm : last.ledger.HeldIn m := by
    intro b x hb
    simp [Ledger.slot?, h.closed b] at hb
  obtain ⟨m', hreplays, hrequired⟩ := h.head.replays h.wellFormed hm
  refine ⟨m', by rwa [h.schedule_eq], fun b hb => ?_⟩
  rw [h.allocation_eq]
  exact hrequired b ((Workload.mem_required_ofPasses ..).mpr hb)

/-- A schedule moves every buffer from its producer to all its consumers: from
any contents of the slots each phase finds its inputs, and at the end the
required buffers are in their slots. -/
theorem dataflow_of_compile {d : Description} {required : List Nat} {config : Config} {s : Schedule}
    (h : compile d required config = .ok s) (m : Storage) :
    ∃ m', Replays m s.phases m' ∧
      ∀ b ∈ required, ∃ x, s.allocation b = some x ∧ m' x = some b := by
  obtain ⟨passes, selected, last, hcompilation⟩ := compilation_of_compile h
  exact hcompilation.replays m

theorem dataflow_tintInPlace :
    compile tintInPlace [1] {} = .ok tintedSchedule ∧
      ∃ m', Replays (fun _ => none) tintedSchedule.phases m' ∧
        ∀ b ∈ [1], ∃ x, tintedSchedule.allocation b = some x ∧ m' x = some b :=
  ⟨compile_tintInPlace, dataflow_of_compile compile_tintInPlace _⟩

end FrameGraph
