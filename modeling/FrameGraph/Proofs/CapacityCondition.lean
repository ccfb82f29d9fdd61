import FrameGraph.Proofs.MinimalChurn
import Mathlib.Algebra.Order.BigOperators.Group.List
import Mathlib.Algebra.Order.Group.Nat

/-!
# When a reconciliation fits into the backend

With a capacity of `k` resources, classes are dropped first, and then the classes
of the schedule are resized in their order. `Inventory.resizedAll_ok_iff` says when
a run of resizes goes all the way, in terms of what is alive when it begins:
a class that reaches its size changes what is alive by the difference of its sizes.
`Inventory.Fits` is the condition on the whole call.
-/
namespace FrameGraph

/-- What holds of every way to cut a list in front of an entry. -/
theorem forall_cut_cons {α : Type} {a : α} {l : List α} {P : List α → α → List α → Prop} :
    (∀ before e after, a :: l = before ++ e :: after → P before e after) ↔
      P [] a l ∧ ∀ before e after, l = before ++ e :: after → P (a :: before) e after := by
  constructor
  · intro h
    refine ⟨h [] a l rfl, fun before e after hcut => h (a :: before) e after ?_⟩
    rw [hcut, List.cons_append]
  · intro h before e after hcut
    cases before with
    | nil =>
        obtain ⟨rfl, rfl⟩ := List.cons.inj hcut
        exact h.1
    | cons f before =>
        obtain ⟨rfl, hrest⟩ := List.cons.inj hcut
        exact h.2 before e after hrest

theorem forall_cut_congr {α : Type} {l : List α} {P Q : List α → α → List α → Prop}
    (h : ∀ before e after, l = before ++ e :: after → (P before e after ↔ Q before e after)) :
    (∀ before e after, l = before ++ e :: after → P before e after) ↔
      ∀ before e after, l = before ++ e :: after → Q before e after := by
  constructor
  · exact fun hall before e after hcut => (h before e after hcut).mp (hall before e after hcut)
  · exact fun hall before e after hcut => (h before e after hcut).mpr (hall before e after hcut)

namespace Backend

variable {b : Backend} {c : StorageClass} {k missing : Nat}

theorem answer_ok_iff_le (hk : b.capacity = some k) :
    b.answer c missing = .ok () ↔ (0 < missing → b.live.length + missing ≤ k) := by
  rw [answer_eq_ok, granted, hk]
  dsimp only
  omega

end Backend

namespace Pools

theorem count_set {p : Pools} (h : p.Sorted) (c : StorageClass) (resources : List Nat) :
    (p.set c resources).count + (p.resourcesOf c).length = p.count + resources.length := by
  have hset := (resources_set_perm h c resources).length_eq
  have hold := (resources_perm h c).length_eq
  rw [List.length_append] at hset hold
  unfold count
  omega

end Pools

namespace Inventory

variable {i : Inventory} {others : List Nat} {c : StorageClass} {needed k : Nat}
  {sizes : List (StorageClass × Nat)} {s : Schedule} {e : StorageClass × Nat}

def held (i : Inventory) (e : StorageClass × Nat) : Nat := (i.pools.resourcesOf e.1).length

/-- The resources that are left to the class of an entry when the classes that
are not needed have been dropped. -/
def retained (i : Inventory) (e : StorageClass × Nat) : Nat := if e.2 = 0 then 0 else i.held e

theorem Booked.live_length (h : i.Booked others) :
    i.backend.live.length = others.length + i.pools.count := by
  have hlength := h.holds.perm.length_eq
  rw [List.length_map, List.length_append] at hlength
  unfold Pools.count
  omega

/-- A class reaches its size if it does not have to grow, or the backend has room
for what it is short of. -/
theorem answer_ok_iff (hk : i.backend.capacity = some k) :
    i.answer e.1 e.2 = .ok () ↔
      (i.held e < e.2 → i.backend.live.length + e.2 ≤ k + i.held e) := by
  have hcapacity : (i.trimmed e.1 e.2).capacity = some k :=
    (Backend.capacity_strikeAll _ _).trans hk
  rw [answer, Backend.answer_ok_iff_le hcapacity]
  change (0 < e.2 - i.held e → (i.trimmed e.1 e.2).live.length + (e.2 - i.held e) ≤ k) ↔ _
  rcases Nat.lt_or_ge (i.held e) e.2 with hlt | hle
  · rw [(trimmed_of_le (Nat.le_of_lt hlt)).1]
    omega
  · omega

theorem Booked.live_resized (h : i.Booked others) (hanswer : i.answer e.1 e.2 = .ok ()) :
    (i.resized e.1 e.2).backend.live.length + i.held e = i.backend.live.length + e.2 := by
  have hbefore := h.live_length
  have hafter := (h.resized e.1 e.2).booked.live_length
  have hlength := length_resized hanswer
  have hcount := Pools.count_set h.sorted e.1
    ((i.pools.resourcesOf e.1).take e.2 ++ i.additions e.1 e.2)
  rw [resourcesOf_resized, if_pos rfl] at hlength
  unfold held
  change _ = others.length + (i.pools.set e.1 _).count at hafter
  omega

theorem held_resized (hne : c ≠ e.1) : (i.resized c needed).held e = i.held e := by
  unfold held
  rw [resourcesOf_resized, if_neg (Ne.symm hne)]

/-- Resizing goes all the way if at every class that has to grow there is room,
the classes in front of it having reached their sizes. -/
theorem resizedAll_ok_iff (h : i.Booked others) (hk : i.backend.capacity = some k)
    (hsizes : (sizes.map (·.1)).Nodup) : (i.resizedAll sizes).1 = .ok () ↔
      ∀ before e after, sizes = before ++ e :: after → i.held e < e.2 →
        i.backend.live.length + (before.map (·.2)).sum + e.2 ≤
          k + (before.map i.held).sum + i.held e := by
  induction sizes generalizing i with
  | nil => simp [resizedAll]
  | cons f sizes ih =>
      obtain ⟨hnew, hrest⟩ := List.nodup_cons.mp hsizes
      rw [forall_cut_cons]
      cases hanswer : i.answer f.1 f.2 with
      | ok _ =>
          have hroom := (answer_ok_iff hk).mp hanswer
          have hlive := h.live_resized hanswer
          have hcapacity : (i.resized f.1 f.2).backend.capacity = some k :=
            (Backend.capacity_strikeAll _ _).trans hk
          have hheld : ∀ g ∈ sizes, (i.resized f.1 f.2).held g = i.held g := by
            intro g hg
            apply held_resized
            intro heq
            exact hnew (List.mem_map.mpr ⟨g, hg, heq.symm⟩)
          rw [resizedAll_of_ok hanswer, ih (h.resized f.1 f.2).booked hcapacity hrest]
          simp only [List.map_nil, List.sum_nil, Nat.add_zero, List.map_cons, List.sum_cons]
          rw [and_iff_right hroom]
          refine forall_cut_congr fun before e after hcut => ?_
          have hbefore : before.map (i.resized f.1 f.2).held = before.map i.held :=
            List.map_congr_left fun g hg => hheld g (by simp [hcut, hg])
          rw [hheld e (by simp [hcut]), hbefore]
          omega
      | error error =>
          rw [resizedAll_of_error hanswer]
          simp only [reduceCtorEq, false_iff, not_and]
          intro hroom
          have hok := (answer_ok_iff hk).mpr (by simpa using hroom)
          rw [hanswer] at hok
          cases hok

theorem held_without_stale (hpeaks : (s.peaks.map (·.1)).Nodup) (he : e ∈ s.peaks) :
    (i.without (i.stale s)).held e = i.retained e := by
  rw [held, resourcesOf_without_stale, Schedule.peak_of_mem hpeaks he]
  unfold retained held
  split_ifs <;> rfl

theorem Booked.live_without_stale (h : i.Booked others) (hpeaks : (s.peaks.map (·.1)).Nodup) :
    (i.without (i.stale s)).backend.live.length =
      others.length + (s.peaks.map i.retained).sum := by
  have hkept := (h.without_stale s).booked
  have hclasses : ((s.peaks.map fun e => (e.1, i.retained e)).map (·.1)) = s.peaks.map (·.1) := by
    simp
  have hcount : (i.without (i.stale s)).pools.count =
      ((s.peaks.map fun e => (e.1, i.retained e)).map (·.2)).sum := by
    apply Pools.count_eq_sum hkept.sorted
    · rw [hclasses]
      exact hpeaks
    · intro f hf
      obtain ⟨e, he, rfl⟩ := List.mem_map.mp hf
      exact held_without_stale hpeaks he
    · intro c hc
      rw [hclasses] at hc
      rw [resourcesOf_without_stale, if_pos (Schedule.peak_of_not_mem hc)]
  rw [hkept.live_length, hcount, List.map_map]
  rfl

/-- At every class that has to grow there is room for what is then alive: the
resources of others, the classes up to this one in the sizes that the schedule
needs, and the classes after it as they were, the ones not needed gone. -/
def Fits (i : Inventory) (s : Schedule) (extra k : Nat) : Prop :=
  ∀ before e after, s.peaks = before ++ e :: after → i.held e < e.2 →
    extra + ((before ++ [e]).map (·.2)).sum + (after.map i.retained).sum ≤ k

theorem reconcile_ok_iff (h : i.Booked others) (hk : i.backend.capacity = some k)
    (hpeaks : (s.peaks.map (·.1)).Nodup) :
    ((reconcile s).run i).result = .ok () ↔ i.Fits s others.length k := by
  have hcapacity : (i.without (i.stale s)).backend.capacity = some k :=
    (Backend.capacity_strikeAll _ _).trans hk
  rw [(reconcile_run i s).1, resizedAll_ok_iff (h.without_stale s).booked hcapacity hpeaks]
  unfold Fits
  refine forall_cut_congr fun before e after hcut => ?_
  have hmem : ∀ f ∈ before ++ e :: after, (i.without (i.stale s)).held f = i.retained f :=
    fun f hf => held_without_stale hpeaks (hcut ▸ hf)
  have hbefore : before.map (i.without (i.stale s)).held = before.map i.retained :=
    List.map_congr_left fun f hf => hmem f (by simp [hf])
  rw [hbefore, hmem e (by simp), h.live_without_stale hpeaks, hcut]
  -- A class that has to grow is needed, so it retains what it has.
  have hgrows : i.retained e < e.2 ↔ i.held e < e.2 := by
    unfold retained
    split_ifs with hzero <;> omega
  have hretained : i.held e < e.2 → i.retained e = i.held e := by
    intro hlt
    exact if_neg (by omega)
  rw [hgrows]
  refine forall_congr' fun hlt => ?_
  simp only [List.map_append, List.map_cons, List.map_nil, List.sum_append, List.sum_cons,
    List.sum_nil, hretained hlt]
  omega

/-- If the resources fit in the end but not on the way, a class that has to grow
stands in front of one that is to shrink. -/
theorem grows_before_shrinking (hfinal : others.length + s.resourceCount ≤ k)
    (hfits : ¬ i.Fits s others.length k) : ∃ before e after f, s.peaks = before ++ e :: after ∧
      i.held e < e.2 ∧ f ∈ after ∧ 0 < f.2 ∧ f.2 < i.held f := by
  unfold Fits at hfits
  push Not at hfits
  obtain ⟨before, e, after, hcut, hlt, hover⟩ := hfits
  by_contra hnone
  push Not at hnone
  have hretained : ∀ f ∈ after, i.retained f ≤ f.2 := by
    intro f hf
    unfold retained
    split_ifs with hzero
    · exact Nat.zero_le _
    · exact hnone before e after f hcut hlt hf (Nat.pos_of_ne_zero hzero)
  have hsum : (after.map i.retained).sum ≤ (after.map (·.2)).sum := List.sum_le_sum hretained
  rw [Schedule.resourceCount_eq, hcut] at hfinal
  simp only [List.map_append, List.map_cons, List.map_nil, List.sum_append, List.sum_cons,
    List.sum_nil] at hfinal hover
  omega

end Inventory

open Inventory in
/-- Whether a reconciliation with a compiled schedule succeeds under a capacity is
decided by what is alive when a class has grown, not by what is alive in the end.
The classes reach their sizes one after another, in the order of the schedule, so
a class that grows may still find the surplus of a later one in its way. There is
no other way to fail. -/
theorem reconcile_succeeds_iff_fits {d : Description} {required : List Nat} {config : Config}
    {s : Schedule} (hcompile : compile d required config = .ok s) {i : Inventory}
    {others : List Nat} (hbooked : i.Booked others) {k : Nat}
    (hk : i.backend.capacity = some k) :
    (((reconcile s).run i).result = .ok () ↔ i.Fits s others.length k) ∧
    (∀ error, ((reconcile s).run i).result = .error error →
      ∃ c ∈ s.peaks.map (·.1), error = .creationFailed (.capacityExhausted k c)) ∧
    (((reconcile s).run i).result ≠ .ok () → others.length + s.resourceCount ≤ k →
      ∃ before e after f, s.peaks = before ++ e :: after ∧ i.held e < e.2 ∧ f ∈ after ∧
        0 < f.2 ∧ f.2 < i.held f) := by
  obtain ⟨passes, selected, last, hs⟩ := compilation_of_compile hcompile
  have hiff := reconcile_ok_iff hbooked hk hs.peaks_nodup
  refine ⟨hiff, ?_, ?_⟩
  · intro error herror
    obtain ⟨l, hl, hrefusal⟩ := reconcile_refusal i s error herror
    obtain rfl : k = l := Option.some.inj (hk.symm.trans hl)
    exact hrefusal
  · intro hfailed hfinal
    exact grows_before_shrinking hfinal (mt hiff.mpr hfailed)

/-- The tinted copy of a texture, with a mark that says that it is there. -/
def markedCopy : Description where
  buffers := [.texture "raw" (.absolute ⟨4, 4⟩) .rgba8Unorm,
    .texture "tinted" (.absolute ⟨4, 4⟩) .rgba8Unorm, .dummy "mark"]
  operations := [
    { name := "draw", outputs := [⟨"out", some 0⟩] },
    { name := "tint", inputs := [⟨"in", some 0⟩],
      outputs := [⟨"out", some 1⟩, ⟨"mark", some 2⟩] }]

def markedSchedule : Schedule where
  phases := [⟨0, "draw", [], [⟨0, 0, some ⟨0, 1⟩⟩]⟩,
    ⟨1, "tint", [⟨0, 0, some ⟨0, 1⟩⟩], [⟨0, 1, some ⟨0, 0⟩⟩, ⟨1, 2, some ⟨1, 0⟩⟩]⟩]
  peaks := [(.texture ⟨4, 4⟩ .rgba8Unorm, 2), (.dummy, 1)]
  allocations := [some ⟨0, 1⟩, some ⟨0, 0⟩, some ⟨1, 0⟩]
  resolution := ⟨1280, 720⟩

/-- An inventory with two marks, beside a resource that it does not own. -/
def twoMarks (capacity : Nat) : Inventory where
  backend := {
    live := [(0, .dummy), (1, .dummy), (2, .dummy)], nextId := 3, createdCount := 3,
    capacity := some capacity }
  pools := ⟨[(.dummy, [0, 1])]⟩

open Inventory in
/-- Four resources are what is alive in the end, but the textures come before the
mark that is too many. -/
theorem reconcile_markedCopy : ∃ before e after f,
    compile markedCopy [1, 2] {} = .ok markedSchedule ∧ 1 + markedSchedule.resourceCount = 4 ∧
      ((reconcile markedSchedule).run (twoMarks 4)).result =
        .error (.creationFailed (.capacityExhausted 4 (.texture ⟨4, 4⟩ .rgba8Unorm))) ∧
      ((reconcile markedSchedule).run (twoMarks 5)).result = .ok () ∧
      markedSchedule.peaks = before ++ e :: after ∧ (twoMarks 4).held e < e.2 ∧ f ∈ after ∧
      0 < f.2 ∧ f.2 < (twoMarks 4).held f := by
  have hcompile : compile markedCopy [1, 2] {} = .ok markedSchedule := by rfl
  have hbooked : (twoMarks 4).Booked [2] :=
    ⟨List.pairwise_singleton _ _, .refl _, by decide, by decide, rfl⟩
  obtain ⟨-, -, hshrinks⟩ := reconcile_succeeds_iff_fits hcompile hbooked rfl
  obtain ⟨before, e, after, f, hshrinks⟩ := hshrinks (by decide) (by decide)
  exact ⟨before, e, after, f, hcompile, rfl, rfl, rfl, hshrinks⟩

end FrameGraph
