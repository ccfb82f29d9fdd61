import FrameGraph.Ledger
import FrameGraph.Proofs.WellFormedWorkloads

/-!
# The balance of a ledger

A slot in use belongs to exactly one open demand, or it is held: taken from a
demand that was closed and not yet handed on or given back. `Ledger.Balanced`
says so, and there is one lemma for each operation of the ledger. Between two
placements nothing is held.
-/
namespace FrameGraph

namespace Ledger

variable {l : Ledger} {b : Nat} {x : Allocation} {d : Demand}

theorem demand?_openDemand (hb : b < l.demands.length) (c : Nat) :
    (l.openDemand b x).demand? c = if c = b then some ⟨1, x⟩ else l.demand? c := by
  by_cases h : c = b
  · subst h
    simp [demand?, openDemand, hb]
  · simp [demand?, openDemand, h, Ne.symm h]

theorem demand?_addUse (hb : b < l.demands.length) (c : Nat) :
    (l.addUse b d).demand? c =
      if c = b then some { d with uses := d.uses + 1 } else l.demand? c := by
  by_cases h : c = b
  · subst h
    simp [demand?, addUse, hb]
  · simp [demand?, addUse, h, Ne.symm h]

theorem demand?_closeDemand (l : Ledger) (b c : Nat) :
    (l.closeDemand b).demand? c = if c = b then none else l.demand? c := by
  by_cases h : c = b
  · subst h
    simp only [demand?, closeDemand, List.getElem?_set_self', if_true]
    cases l.demands[c]? <;> rfl
  · simp [demand?, closeDemand, h, Ne.symm h]

theorem allocation?_openDemand (hb : b < l.allocations.length) (c : Nat) :
    (l.openDemand b x).allocation? c = if c = b then some x else l.allocation? c := by
  by_cases h : c = b
  · subst h
    simp [allocation?, openDemand, hb]
  · simp [allocation?, openDemand, h, Ne.symm h]

theorem of_demand?_closeDemand {c : Nat} {e : Demand} (he : (l.closeDemand b).demand? c = some e) :
    c ≠ b ∧ l.demand? c = some e := by
  rw [demand?_closeDemand] at he
  split_ifs at he with hc
  exact ⟨hc, he⟩

theorem of_demand?_openDemand (hb : b < l.demands.length) {c : Nat} {e : Demand}
    (he : (l.openDemand b x).demand? c = some e) :
    c = b ∧ e = ⟨1, x⟩ ∨ c ≠ b ∧ l.demand? c = some e := by
  rw [demand?_openDemand hb] at he
  split_ifs at he with hc
  · exact .inl ⟨hc, (Option.some.inj he).symm⟩
  · exact .inr ⟨hc, he⟩

theorem of_allocation?_openDemand (hb : b < l.allocations.length) {c : Nat} {y : Allocation}
    (hy : (l.openDemand b x).allocation? c = some y) :
    c = b ∧ y = x ∨ l.allocation? c = some y := by
  rw [allocation?_openDemand hb] at hy
  split_ifs at hy with hc
  · exact .inl ⟨hc, (Option.some.inj hy).symm⟩
  · exact .inr hy

/-- An open demand has the slot. -/
def Demanded (l : Ledger) (x : Allocation) : Prop :=
  ∃ b d, l.demand? b = some d ∧ d.allocation = x

theorem demanded_openDemand (hb : b < l.demands.length) (hnone : l.demand? b = none)
    (y : Allocation) : (l.openDemand b x).Demanded y ↔ y = x ∨ l.Demanded y := by
  constructor
  · intro howner
    rcases howner with ⟨c, e, he, rfl⟩
    rcases of_demand?_openDemand hb he with ⟨-, rfl⟩ | ⟨-, he⟩
    · exact .inl rfl
    · exact .inr ⟨c, e, he, rfl⟩
  · intro howner
    rcases howner with rfl | ⟨c, e, he, rfl⟩
    · exact ⟨b, ⟨1, y⟩, by rw [demand?_openDemand hb, if_pos rfl], rfl⟩
    · have hc : c ≠ b := by
        intro heq
        rw [heq, hnone] at he
        cases he
      exact ⟨c, e, by rw [demand?_openDemand hb, if_neg hc, he], rfl⟩

theorem demanded_addUse (hb : b < l.demands.length) (hd : l.demand? b = some d) (y : Allocation) :
    (l.addUse b d).Demanded y ↔ l.Demanded y := by
  constructor
  · intro howner
    rcases howner with ⟨c, e, he, rfl⟩
    rw [demand?_addUse hb] at he
    split_ifs at he with hc
    · rw [← Option.some.inj he]
      exact ⟨b, d, hd, rfl⟩
    · exact ⟨c, e, he, rfl⟩
  · intro howner
    rcases howner with ⟨c, e, he, rfl⟩
    by_cases hc : c = b
    · rw [hc, hd] at he
      rw [← Option.some.inj he]
      exact ⟨b, { d with uses := d.uses + 1 }, by rw [demand?_addUse hb, if_pos rfl], rfl⟩
    · exact ⟨c, e, by rw [demand?_addUse hb, if_neg hc, he], rfl⟩

theorem lt_of_demand? (h : l.demand? b = some d) : b < l.demands.length := by
  by_contra hb
  simp [demand?, List.getElem?_eq_none (Nat.le_of_not_lt hb)] at h

/-- Every slot in use has one owner: an open demand or the predicate `held`. -/
structure Balanced (w : Workload) (l : Ledger) (held : Allocation → Prop) : Prop where
  demands_length : l.demands.length = w.tableSize
  allocations_length : l.allocations.length = w.tableSize
  openCount : l.openCount = l.demands.countP Option.isSome
  classes : l.slots.classes = w.slots.classes
  valid : l.slots.Valid
  live : ∀ x, l.slots.Live x ↔ held x ∨ l.Demanded x
  apart : ∀ b d, l.demand? b = some d → ¬held d.allocation
  injective : ∀ b c d e, l.demand? b = some d → l.demand? c = some e →
    d.allocation = e.allocation → b = c
  recorded : ∀ b d, l.demand? b = some d → l.allocation? b = some d.allocation
  classed : ∀ b x, l.allocation? b = some x → x.classId = w.classId b
  minted : ∀ b x, l.allocation? b = some x → l.slots.Minted x

namespace Balanced

variable {w : Workload} {held held' : Allocation → Prop}

theorem congr (h : Balanced w l held) (hh : ∀ x, held x ↔ held' x) : Balanced w l held' := by
  obtain rfl : held = held' := funext fun x => propext (hh x)
  exact h

/-- The count of open demands is right, so it is zero when there is none. -/
theorem openCount_eq_zero (h : Balanced w l held) :
    l.openCount = 0 ↔ ∀ b, l.demand? b = none := by
  rw [h.openCount, List.countP_eq_zero]
  constructor
  · intro hclosed b
    cases hd : l.demand? b with
    | none => rfl
    | some d =>
        have hmem : some d ∈ l.demands := List.mem_of_getElem? (Option.join_eq_some_iff.mp hd)
        simpa using hclosed _ hmem
  · intro hclosed demand hmem
    cases demand with
    | none => simp
    | some d =>
        obtain ⟨b, hb⟩ := List.mem_iff_getElem?.mp hmem
        have hd : l.demand? b = some d := Option.join_eq_some_iff.mpr hb
        simp [hclosed b] at hd

/-- A closed demand leaves its slot held. -/
theorem closeDemand (h : Balanced w l held) (hd : l.demand? b = some d) :
    Balanced w (l.closeDemand b) fun x => held x ∨ x = d.allocation := by
  have hlt := lt_of_demand? hd
  have hget : l.demands[b] = some d := by simpa [demand?, hlt] using hd
  refine { demands_length := by simpa [Ledger.closeDemand] using h.demands_length,
           allocations_length := h.allocations_length, openCount := ?_, classes := h.classes,
           valid := h.valid, live := ?_, apart := ?_, injective := ?_, recorded := ?_,
           classed := h.classed, minted := h.minted }
  · simp only [Ledger.closeDemand, h.openCount, List.countP_set hlt, hget, Option.isSome_some,
      Option.isSome_none, if_true, Bool.false_eq_true, if_false, Nat.add_zero]
  · intro x
    refine (h.live x).trans ?_
    constructor
    · intro howner
      rcases howner with hx | ⟨c, e, he, rfl⟩
      · exact .inl (.inl hx)
      · by_cases hc : c = b
        · subst hc
          obtain rfl : d = e := Option.some.inj (hd.symm.trans he)
          exact .inl (.inr rfl)
        · exact .inr ⟨c, e, by rw [demand?_closeDemand, if_neg hc, he], rfl⟩
    · intro howner
      rcases howner with (hx | rfl) | ⟨c, e, he, rfl⟩
      · exact .inl hx
      · exact .inr ⟨b, d, hd, rfl⟩
      · exact .inr ⟨c, e, (of_demand?_closeDemand he).2, rfl⟩
  · intro c e he
    obtain ⟨hc, he⟩ := of_demand?_closeDemand he
    intro hheld
    rcases hheld with hx | hx
    · exact h.apart c e he hx
    · exact hc (h.injective c b e d he hd hx)
  · intro c c' e e' he he' hx
    exact h.injective c c' e e' (of_demand?_closeDemand he).2 (of_demand?_closeDemand he').2 hx
  · exact fun c e he => h.recorded c e (of_demand?_closeDemand he).2

/-- A demand opened on a slot in use takes it over. -/
theorem openDemand (h : Balanced w l held) (hb : b < w.tableSize) (hnone : l.demand? b = none)
    (hx : held x) (hclass : x.classId = w.classId b) :
    Balanced w (l.openDemand b x) fun y => held y ∧ y ≠ x := by
  have hlt : b < l.demands.length := h.demands_length ▸ hb
  have hlt' : b < l.allocations.length := h.allocations_length ▸ hb
  have hget : l.demands[b] = none := by simpa [demand?, hlt] using hnone
  refine { demands_length := by simpa [Ledger.openDemand] using h.demands_length,
           allocations_length := by simpa [Ledger.openDemand] using h.allocations_length,
           openCount := ?_, classes := h.classes, valid := h.valid, live := ?_, apart := ?_,
           injective := ?_, recorded := ?_, classed := ?_, minted := ?_ }
  · simp [Ledger.openDemand, h.openCount, List.countP_set hlt, hget]
  · intro y
    refine (h.live y).trans ?_
    rw [demanded_openDemand hlt hnone]
    by_cases hy : y = x
    · simp [hy, hx]
    · simp [hy]
  · intro c e he
    rcases of_demand?_openDemand hlt he with ⟨-, rfl⟩ | ⟨-, he⟩
    · exact fun hy => hy.2 rfl
    · exact fun hy => h.apart c e he hy.1
  · intro c c' e e' he he' hee
    rcases of_demand?_openDemand hlt he with ⟨rfl, rfl⟩ | ⟨-, hold⟩ <;>
      rcases of_demand?_openDemand hlt he' with ⟨rfl, rfl⟩ | ⟨-, hold'⟩
    · rfl
    · exact (h.apart c' e' hold' (hee ▸ hx)).elim
    · exact (h.apart c e hold (by rw [hee]; exact hx)).elim
    · exact h.injective c c' e e' hold hold' hee
  · intro c e he
    rw [allocation?_openDemand hlt']
    rcases of_demand?_openDemand hlt he with ⟨rfl, rfl⟩ | ⟨hc, he⟩
    · simp
    · rw [if_neg hc]
      exact h.recorded c e he
  · intro c y hy
    rcases of_allocation?_openDemand hlt' hy with ⟨rfl, rfl⟩ | hy
    · exact hclass
    · exact h.classed c y hy
  · intro c y hy
    rcases of_allocation?_openDemand hlt' hy with ⟨-, rfl⟩ | hy
    · exact ((h.live y).mpr (.inl hx)).minted
    · exact h.minted c y hy

/-- A slot handed out is held until a demand takes it over. -/
theorem acquire (h : Balanced w l held) {id : Nat} (hid : id < w.slots.classes.length) :
    (l.acquire id).1.classId = id ∧ ¬l.slots.Live (l.acquire id).1 ∧
      l.slots.HandsOut (l.acquire id).2.slots ∧
      Balanced w (l.acquire id).2 fun y => held y ∨ y = (l.acquire id).1 := by
  obtain ⟨hclass, hvalid, hclasses, hfresh, hlive, hminted⟩ :=
    SlotAllocator.acquire_spec h.valid (h.classes ▸ hid)
  refine ⟨hclass, hfresh, SlotAllocator.handsOut_acquire h.valid (h.classes ▸ hid), ?_⟩
  refine { h with classes := hclasses.trans h.classes, valid := hvalid, live := ?_, apart := ?_,
                  minted := fun c y hy => (hminted y).mpr (.inl (h.minted c y hy)) }
  · intro y
    refine (hlive y).trans ?_
    rw [h.live]
    exact or_right_comm
  · intro c e he hy
    rcases hy with hy | hy
    · exact h.apart c e he hy
    · exact hfresh (hy ▸ (h.live _).mpr (.inr ⟨c, e, he, rfl⟩))

/-- One more consumer does not move any slot. -/
theorem addUse (h : Balanced w l held) (hd : l.demand? b = some d) :
    Balanced w (l.addUse b d) held := by
  have hlt := lt_of_demand? hd
  have hget : l.demands[b] = some d := by simpa [demand?, hlt] using hd
  have hsame : ∀ {c e}, (l.addUse b d).demand? c = some e →
      ∃ e', l.demand? c = some e' ∧ e'.allocation = e.allocation := by
    intro c e he
    rw [demand?_addUse hlt] at he
    split_ifs at he with hc
    · subst hc
      exact ⟨d, hd, by rw [← Option.some.inj he]⟩
    · exact ⟨e, he, rfl⟩
  refine { demands_length := by simpa [Ledger.addUse] using h.demands_length,
           allocations_length := h.allocations_length, openCount := ?_, classes := h.classes,
           valid := h.valid, live := ?_, apart := ?_, injective := ?_, recorded := ?_,
           classed := h.classed, minted := h.minted }
  · have hpos : 0 < l.demands.countP Option.isSome :=
      List.countP_pos_iff.mpr ⟨some d, hget ▸ List.getElem_mem hlt, rfl⟩
    simp only [Ledger.addUse, h.openCount, List.countP_set hlt, hget, Option.isSome_some, if_true]
    omega
  · intro y
    refine (h.live y).trans ?_
    rw [demanded_addUse hlt hd]
  · intro c e he
    obtain ⟨e', he', hx⟩ := hsame he
    exact hx ▸ h.apart c e' he'
  · intro c c' e e' he he' hee
    obtain ⟨f, hf, hx⟩ := hsame he
    obtain ⟨f', hf', hx'⟩ := hsame he'
    exact h.injective c c' f f' hf hf' (by rw [hx, hx', hee])
  · intro c e he
    obtain ⟨e', he', hx⟩ := hsame he
    exact hx ▸ h.recorded c e' he'

/-- A held slot can be given back. -/
theorem release (h : Balanced w l held) (hx : held x) :
    ∃ slots, l.slots.release x = .ok slots ∧ (∀ y, slots.Minted y ↔ l.slots.Minted y) ∧
      Balanced w { l with slots := slots } fun y => held y ∧ y ≠ x := by
  obtain ⟨slots, hrelease, hvalid, hclasses, hlive, hminted⟩ :=
    SlotAllocator.release_spec h.valid ((h.live x).mpr (.inl hx))
  refine ⟨slots, hrelease, hminted, ?_⟩
  refine { h with classes := hclasses.trans h.classes, valid := hvalid, live := ?_, apart := ?_,
                  minted := fun c y hy => (hminted y).mpr (h.minted c y hy) }
  · intro y
    refine (hlive y).trans ?_
    rw [h.live]
    constructor
    · intro howner
      rcases howner with ⟨hy | hy, hne⟩
      · exact .inl ⟨hy, hne⟩
      · exact .inr hy
    · intro howner
      rcases howner with ⟨hy, hne⟩ | ⟨c, e, he, rfl⟩
      · exact ⟨.inl hy, hne⟩
      · refine ⟨.inr ⟨c, e, he, rfl⟩, ?_⟩
        intro heq
        subst heq
        exact h.apart c e he hx
  · exact fun c e he hy => h.apart c e he hy.1

/-- All held slots can be given back, each once. -/
theorem releaseAll {xs : List Allocation} (h : Balanced w l fun y => y ∈ xs) (hxs : xs.Nodup) :
    ∃ l', l.releaseAll xs = .ok l' ∧ l'.demands = l.demands ∧ l'.allocations = l.allocations ∧
      (∀ y, l'.slots.Minted y ↔ l.slots.Minted y) ∧ Balanced w l' fun _ => False := by
  induction xs generalizing l with
  | nil => exact ⟨l, rfl, rfl, rfl, fun _ => Iff.rfl, h.congr (by simp)⟩
  | cons x xs ih =>
      obtain ⟨hx, hnodup⟩ := List.nodup_cons.mp hxs
      obtain ⟨slots, hrelease, hsame, hbalanced⟩ := h.release (x := x) (by simp)
      have hrest : Balanced w { l with slots := slots } fun y => y ∈ xs := by
        refine hbalanced.congr fun y => ?_
        simp only [List.mem_cons]
        constructor
        · intro howner
          rcases howner with ⟨hy | hy, hne⟩
          · exact absurd hy hne
          · exact hy
        · exact fun hy => ⟨.inr hy, fun hyx => hx (hyx ▸ hy)⟩
      obtain ⟨l', hl', hdemands, hallocations, hminted, hdone⟩ := ih hrest hnodup
      exact ⟨l', bind_eq_ok.mpr ⟨slots, hrelease, hl'⟩, hdemands, hallocations,
        fun y => (hminted y).trans (hsame y), hdone⟩

end Balanced
end Ledger
end FrameGraph
