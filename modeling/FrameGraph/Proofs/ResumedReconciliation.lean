import FrameGraph.Proofs.PoolChanges
import FrameGraph.Proofs.SlotPeaks

/-!
# Reconciling again after a failure

A reconciliation that the backend stops for want of capacity can be made again
when the capacity has been raised, and the outcome is that of a single one under
the higher capacity. The second one finds the classes before the point of
failure as they have to be; the class at that point gets exactly the resources
that the first one still owed it, with the numbers they would have had; and the
classes behind it were not touched.

In between the table of pools may hold empty pools, which it would not have
after a single reconciliation. `Inventory.Alike` overlooks them; in the end all
empty pools are forgotten, and the states are equal.
-/
namespace FrameGraph

namespace Pools

variable {p q : Pools}

theorem mem_entries_iff (h : p.Sorted) (hfull : ∀ e ∈ p.entries, e.2 ≠ [])
    (e : StorageClass × List Nat) : e ∈ p.entries ↔ e.2 ≠ [] ∧ p.resourcesOf e.1 = e.2 := by
  constructor
  · intro he
    exact ⟨hfull e he, resourcesOf_of_mem h he⟩
  · intro hpool
    obtain ⟨hne, hresources⟩ := hpool
    unfold resourcesOf at hresources
    cases hfind : p.entries.find? (·.1 == e.1) with
    | none =>
        rw [hfind] at hresources
        exact absurd hresources.symm hne
    | some f =>
        rw [hfind] at hresources
        have hclass : f.1 = e.1 := by simpa using List.find?_some hfind
        have hf := List.mem_of_find?_eq_some hfind
        rwa [Prod.ext hclass hresources] at hf

/-- A table without empty pools is known from the resources of the classes. -/
theorem eq_of_resourcesOf (hp : p.Sorted) (hq : q.Sorted) (hfull : ∀ e ∈ p.entries, e.2 ≠ [])
    (hfull' : ∀ e ∈ q.entries, e.2 ≠ []) (h : ∀ c, p.resourcesOf c = q.resourcesOf c) : p = q := by
  have hasymm : Std.Asymm fun e f : StorageClass × List Nat => e.1.before f.1 = true :=
    ⟨fun e f hef hfe => by
      simpa [StorageClass.before_irrefl] using StorageClass.before_trans hef hfe⟩
  have hentries : p.entries = q.entries := by
    refine hp.eq_of_mem_iff hq fun e => ?_
    rw [mem_entries_iff hp hfull, mem_entries_iff hq hfull', h]
  cases p
  cases q
  exact congrArg _ hentries

theorem ne_nil_of_mem_compact {e : StorageClass × List Nat} (he : e ∈ p.compact.entries) :
    e.2 ≠ [] := by
  simpa using (List.mem_filter.mp he).2

theorem compact_eq_compact (hp : p.Sorted) (hq : q.Sorted)
    (h : ∀ c, p.resourcesOf c = q.resourcesOf c) : p.compact = q.compact := by
  refine eq_of_resourcesOf (sorted_compact hp) (sorted_compact hq)
    (fun _ he => ne_nil_of_mem_compact he) (fun _ he => ne_nil_of_mem_compact he) fun c => ?_
  rw [resourcesOf_compact hp, resourcesOf_compact hq, h]

end Pools

namespace Backend

variable {b : Backend} {limit : Option Nat} {k : Nat}

def withLimit (b : Backend) (limit : Option Nat) : Backend := { b with capacity := limit }

theorem strikeAll_withLimit (b : Backend) (limit : Option Nat) (resources : List Nat) :
    (b.withLimit limit).strikeAll resources = (b.strikeAll resources).withLimit limit := by
  induction resources generalizing b with
  | nil => rfl
  | cons resource rest ih =>
      have hone : (b.withLimit limit).strike resource = (b.strike resource).withLimit limit := by
        have halive : (b.withLimit limit).isAlive resource = b.isAlive resource := rfl
        unfold strike
        rw [halive]
        split <;> rfl
      exact (congrArg (strikeAll · rest) hone).trans (ih _)

theorem granted_withLimit {missing : Nat} (hraised : ∀ l ∈ limit, k ≤ l)
    (h : (b.withLimit (some k)).granted missing = missing) :
    (b.withLimit limit).granted missing = missing := by
  cases limit with
  | none => rfl
  | some l =>
      have hle := hraised l rfl
      simp only [granted, withLimit] at h ⊢
      omega

/-- What is left of a request that was cut short is granted in full only if the
whole request is. -/
theorem granted_of_rest {c : StorageClass} {missing first : Nat} (hlt : first < missing)
    (h : ((b.supply c first).withLimit limit).granted (missing - first) = missing - first) :
    (b.withLimit limit).granted missing = missing := by
  cases limit with
  | none => rfl
  | some l =>
      simp only [granted, withLimit, supply, List.length_append, List.length_map,
        List.length_range'] at h ⊢
      omega

end Backend

namespace Inventory

variable {i j : Inventory} {c : StorageClass} {needed k : Nat} {limit : Option Nat}
  {sizes : List (StorageClass × Nat)} {s : Schedule}

def withLimit (i : Inventory) (limit : Option Nat) : Inventory :=
  { i with backend := i.backend.withLimit limit }

/-- The same backend, and the same resources in every class. -/
structure Alike (i j : Inventory) : Prop where
  backend : i.backend = j.backend
  builtCount : i.builtCount = j.builtCount
  sorted : i.pools.Sorted
  sorted' : j.pools.Sorted
  resources : ∀ c, i.pools.resourcesOf c = j.pools.resourcesOf c

namespace Alike

theorem refl (h : i.pools.Sorted) : i.Alike i := ⟨rfl, rfl, h, h, fun _ => rfl⟩

theorem trans {l : Inventory} (h : i.Alike j) (h' : j.Alike l) : i.Alike l :=
  ⟨h.backend.trans h'.backend, h.builtCount.trans h'.builtCount, h.sorted, h'.sorted',
    fun c => (h.resources c).trans (h'.resources c)⟩

theorem trimmed (h : i.Alike j) (c : StorageClass) (needed : Nat) :
    i.trimmed c needed = j.trimmed c needed := by
  simp only [Inventory.trimmed, surplusOf, h.backend, h.resources]

theorem answer (h : i.Alike j) (c : StorageClass) (needed : Nat) :
    i.answer c needed = j.answer c needed := by
  simp only [Inventory.answer, h.trimmed, missing, h.resources]

theorem resized (h : i.Alike j) (c : StorageClass) (needed : Nat) :
    (i.resized c needed).Alike (j.resized c needed) where
  backend := by simp only [Inventory.resized, h.trimmed, missing, h.resources]
  builtCount := h.builtCount
  sorted := Pools.sorted_set h.sorted _ _
  sorted' := Pools.sorted_set h.sorted' _ _
  resources := by
    intro k
    simp only [Inventory.resized, Pools.resourcesOf_set, additions, h.trimmed, missing, h.resources]

/-- Nothing that matters to resizing is overlooked. -/
theorem resizedAll (h : i.Alike j) (sizes : List (StorageClass × Nat)) :
    (i.resizedAll sizes).1 = (j.resizedAll sizes).1 ∧
      (i.resizedAll sizes).2.Alike (j.resizedAll sizes).2 := by
  induction sizes generalizing i j with
  | nil => exact ⟨rfl, h⟩
  | cons e sizes ih =>
      cases hanswer : i.answer e.1 e.2 with
      | ok _ =>
          rw [resizedAll_of_ok hanswer, resizedAll_of_ok ((h.answer ..).symm.trans hanswer)]
          exact ih (h.resized e.1 e.2)
      | error error =>
          rw [resizedAll_of_error hanswer, resizedAll_of_error ((h.answer ..).symm.trans hanswer)]
          exact ⟨rfl, h.resized e.1 e.2⟩

theorem compact_eq (h : i.Alike j) :
    { i with pools := i.pools.compact } = { j with pools := j.pools.compact } := by
  rw [h.backend, h.builtCount, Pools.compact_eq_compact h.sorted h.sorted' h.resources]

end Alike

theorem sorted_resizedAll (h : i.pools.Sorted) (sizes : List (StorageClass × Nat)) :
    (i.resizedAll sizes).2.pools.Sorted :=
  ((Alike.refl h).resizedAll sizes).2.sorted

/-- The inventory with the pool of a class brought to its size, the backend going
all the way. -/
def filled (i : Inventory) (c : StorageClass) (needed : Nat) : Inventory :=
  { i with
    backend := (i.trimmed c needed).supply c (i.missing c needed)
    pools := i.pools.set c ((i.pools.resourcesOf c).take needed ++
      List.range' (i.trimmed c needed).nextId (i.missing c needed)) }

theorem resized_eq_filled (h : i.answer c needed = .ok ()) :
    i.resized c needed = i.filled c needed := by
  rw [answer, Backend.answer_eq_ok] at h
  simp only [resized, filled, additions, h]

theorem resized_of_length (h : i.pools.Sorted) (hlength : (i.pools.resourcesOf c).length = needed) :
    i.answer c needed = .ok () ∧ (i.resized c needed).Alike i := by
  obtain ⟨htrimmed, htake⟩ := trimmed_of_le (Nat.le_of_eq hlength)
  have hmissing : i.missing c needed = 0 := by simp [missing, ← hlength]
  have hanswer : i.answer c needed = .ok () := by
    rw [answer, htrimmed, hmissing, Backend.answer_eq_ok]
    exact Nat.le_zero.mp (i.backend.granted_le 0)
  refine ⟨hanswer, ?_⟩
  rw [resized_eq_filled hanswer, filled, htrimmed, htake, hmissing, Backend.supply_zero,
    List.range'_zero, List.append_nil]
  refine ⟨rfl, rfl, Pools.sorted_set h _ _, h, fun k => ?_⟩
  rw [Pools.resourcesOf_set]
  split_ifs with hk
  · rw [hk]
  · rfl

theorem trimmed_withLimit (i : Inventory) (limit : Option Nat) (c : StorageClass) (needed : Nat) :
    (i.withLimit limit).trimmed c needed = (i.trimmed c needed).withLimit limit :=
  Backend.strikeAll_withLimit ..

theorem filled_withLimit (i : Inventory) (limit : Option Nat) (c : StorageClass) (needed : Nat) :
    (i.withLimit limit).filled c needed = (i.filled c needed).withLimit limit := by
  simp only [filled, trimmed_withLimit]
  rfl

/-- What succeeds under a limit succeeds under a higher one, with the same outcome. -/
theorem resized_withLimit (hraised : ∀ l ∈ limit, k ≤ l)
    (h : (i.withLimit (some k)).answer c needed = .ok ()) :
    (i.withLimit limit).answer c needed = .ok () ∧
      ((i.withLimit (some k)).resized c needed).withLimit limit =
        (i.withLimit limit).resized c needed := by
  have hanswer : (i.withLimit limit).answer c needed = .ok () := by
    rw [answer, Backend.answer_eq_ok, trimmed_withLimit] at h ⊢
    exact Backend.granted_withLimit hraised h
  refine ⟨hanswer, ?_⟩
  rw [resized_eq_filled h, resized_eq_filled hanswer, filled_withLimit, filled_withLimit]
  rfl

/-- A pool that is not too large gets what the backend grants. -/
theorem resized_of_le (h : (i.pools.resourcesOf c).length ≤ needed) {n : Nat}
    (hgranted : i.backend.granted (i.missing c needed) = n) :
    i.resized c needed = { i with
      backend := i.backend.supply c n
      pools := i.pools.set c (i.pools.resourcesOf c ++ List.range' i.backend.nextId n) } := by
  obtain ⟨htrimmed, htake⟩ := trimmed_of_le h
  simp only [resized, additions, htrimmed, htake, hgranted]

/-- What was cut short is completed under a higher limit, and the outcome is as if
it had not been cut short. -/
theorem resized_again {error : GraphError}
    (h : (i.withLimit (some k)).answer c needed = .error error)
    (hagain : (((i.withLimit (some k)).resized c needed).withLimit limit).answer c needed =
      .ok ()) :
    (i.withLimit limit).answer c needed = .ok () ∧
      (((i.withLimit (some k)).resized c needed).withLimit limit).resized c needed =
        (i.withLimit limit).resized c needed := by
  have hne : (i.withLimit (some k)).answer c needed ≠ .ok () := by simp [h]
  rw [answer, Ne, Backend.answer_eq_ok, trimmed_withLimit] at hne
  have hcut := Nat.lt_of_le_of_ne (Backend.granted_le _ _) hne
  have hmissing : (i.withLimit (some k)).missing c needed =
      needed - (i.pools.resourcesOf c).length := rfl
  have hle : (i.pools.resourcesOf c).length ≤ needed := by omega
  rw [(trimmed_of_le hle).1] at hcut
  generalize hfirst :
    (i.backend.withLimit (some k)).granted ((i.withLimit (some k)).missing c needed) = first at hcut
  rw [resized_of_le (i := i.withLimit (some k)) hle hfirst] at hagain ⊢
  -- The first attempt leaves the pool with `first` of the missing resources.
  generalize hleft : withLimit { i.withLimit (some k) with
    backend := (i.withLimit (some k)).backend.supply c first
    pools := (i.withLimit (some k)).pools.set c ((i.withLimit (some k)).pools.resourcesOf c ++
      List.range' (i.withLimit (some k)).backend.nextId first) } limit = j at hagain ⊢
  have hpool : j.pools.resourcesOf c =
      i.pools.resourcesOf c ++ List.range' i.backend.nextId first := by
    rw [← hleft]
    exact (Pools.resourcesOf_set ..).trans (if_pos rfl)
  have hlength : (j.pools.resourcesOf c).length = (i.pools.resourcesOf c).length + first := by
    rw [hpool, List.length_append, List.length_range']
  have hle' : (j.pools.resourcesOf c).length ≤ needed := by omega
  have hrest : j.missing c needed = i.missing c needed - first := by
    unfold missing
    omega
  rw [answer, (trimmed_of_le hle').1, hrest, Backend.answer_eq_ok] at hagain
  have hbackend : j.backend = (i.backend.supply c first).withLimit limit := by
    rw [← hleft]
    rfl
  have hall : (i.withLimit limit).backend.granted ((i.withLimit limit).missing c needed) =
      i.missing c needed := Backend.granted_of_rest hcut (hbackend ▸ hagain)
  constructor
  · rw [answer, (trimmed_of_le (i := i.withLimit limit) hle).1, Backend.answer_eq_ok]
    exact hall
  · rw [resized_of_le hle' (hrest ▸ hagain), resized_of_le (i := i.withLimit limit) hle hall]
    have hsum : first + (i.missing c needed - first) = i.missing c needed := by
      have hlt : first < i.missing c needed := hcut
      omega
    have hsupplied : j.backend.supply c (i.missing c needed - first) =
        (i.withLimit limit).backend.supply c (i.missing c needed) := by
      rw [hbackend, ← hsum, ← Backend.supply_supply, Nat.add_sub_cancel_left]
      rfl
    have hrange : List.range' i.backend.nextId (i.missing c needed) =
        List.range' i.backend.nextId first ++
          List.range' j.backend.nextId (i.missing c needed - first) := by
      rw [hbackend, ← hsum, ← List.range'_append_1, Nat.add_sub_cancel_left]
      rfl
    have hpools : ∀ xs, j.pools.set c xs = i.pools.set c xs := by
      intro xs
      rw [← hleft]
      exact Pools.set_set ..
    rw [hrest, hsupplied, hpool, hpools, List.append_assoc, ← hrange, ← hleft]
    rfl

/-- Resizing that was stopped is resumed under a higher limit. The second attempt
starts from what the first one left, but for empty pools. -/
theorem resizedAll_again (hraised : ∀ l ∈ limit, k ≤ l) (hsizes : (sizes.map (·.1)).Nodup)
    (hsorted : i.pools.Sorted) {error : GraphError}
    (hstopped : ((i.withLimit (some k)).resizedAll sizes).1 = .error error)
    (hleft : j.Alike (((i.withLimit (some k)).resizedAll sizes).2.withLimit limit))
    (hagain : (j.resizedAll sizes).1 = .ok ()) :
    ((i.withLimit limit).resizedAll sizes).1 = .ok () ∧
      (j.resizedAll sizes).2.Alike ((i.withLimit limit).resizedAll sizes).2 := by
  induction sizes generalizing i j with
  | nil => cases hstopped
  | cons e sizes ih =>
      obtain ⟨hnew, hrest⟩ := List.nodup_cons.mp hsizes
      cases hanswer : (i.withLimit (some k)).answer e.1 e.2 with
      | error error' =>
          -- The first attempt stopped at this class.
          rw [resizedAll_of_error hanswer] at hleft
          cases hanswer' : j.answer e.1 e.2 with
          | error error'' =>
              rw [resizedAll_of_error hanswer'] at hagain
              cases hagain
          | ok _ =>
              obtain ⟨hok, heq⟩ := resized_again hanswer ((hleft.answer ..).symm.trans hanswer')
              have hone := hleft.resized e.1 e.2
              rw [heq] at hone
              rw [resizedAll_of_ok hanswer'] at hagain ⊢
              rw [resizedAll_of_ok hok]
              obtain ⟨hresult, halike⟩ := hone.resizedAll sizes
              exact ⟨hresult.symm.trans hagain, halike⟩
      | ok _ =>
          -- The class is as it has to be, and the second attempt leaves it alone.
          rw [resizedAll_of_ok hanswer] at hstopped hleft
          have hlength : (j.pools.resourcesOf e.1).length = e.2 := by
            rw [hleft.resources]
            exact (congrArg _ (resourcesOf_resizedAll hnew)).trans (length_resized hanswer)
          obtain ⟨hanswer', hsame⟩ := resized_of_length hleft.sorted hlength
          obtain ⟨hok, heq⟩ := resized_withLimit hraised hanswer
          obtain ⟨-, hlimit⟩ :=
            resized_withLimit (fun l hl => Nat.le_of_eq (Option.some.inj hl)) hanswer
          rw [resizedAll_of_ok hanswer'] at hagain ⊢
          rw [resizedAll_of_ok hok, ← heq]
          rw [← hlimit] at hstopped hleft
          exact ih hrest (Pools.sorted_set hsorted _ _) hstopped (hsame.trans hleft) hagain

theorem without_withLimit (i : Inventory) (limit : Option Nat)
    (dropped : List (StorageClass × List Nat)) :
    (i.withLimit limit).without dropped = (i.without dropped).withLimit limit := by
  have hstruck : (i.withLimit limit).backend.strikeAll (dropped.flatMap (·.2.reverse)) = _ :=
    Backend.strikeAll_withLimit ..
  simp only [without, hstruck]
  rfl

/-- Classes that have vanished stay without resources. -/
theorem resizedAll_vanished (h : i.pools.resourcesOf c = [])
    (hsizes : ∀ e ∈ sizes, e.1 = c → e.2 = 0) :
    (i.resizedAll sizes).2.pools.resourcesOf c = [] := by
  induction sizes generalizing i with
  | nil => exact h
  | cons e sizes ih =>
      obtain ⟨hhead, hsizes⟩ := List.forall_mem_cons.mp hsizes
      have hone : (i.resized e.1 e.2).pools.resourcesOf c = [] := by
        rw [resourcesOf_resized]
        split_ifs with hc
        · have hadditions : i.additions e.1 e.2 = [] := by
            have hmissing : i.missing e.1 e.2 = 0 := by simp [missing, hhead hc.symm]
            rw [additions, hmissing, Nat.le_zero.mp (Backend.granted_le _ 0), List.range'_zero]
          rw [hhead hc.symm, List.take_zero, ← hhead hc.symm, hadditions]
          rfl
        · exact h
      cases hanswer : i.answer e.1 e.2 with
      | ok _ =>
          rw [resizedAll_of_ok hanswer]
          exact ih hone hsizes
      | error error =>
          rw [resizedAll_of_error hanswer]
          exact hone

/-- Where no class that the schedule does not need has resources, dropping those
classes changes nothing that matters. -/
theorem without_stale_alike (h : i.pools.Sorted)
    (hvanished : ∀ c, s.peak c = 0 → i.pools.resourcesOf c = []) :
    (i.without (i.stale s)).Alike i := by
  refine ⟨?_, rfl, sorted_without h _, h, fun c => ?_⟩
  · have hempty : ∀ e ∈ i.stale s, e.2 = [] := by
      intro e he
      obtain ⟨hmem, hpeak⟩ := List.mem_filter.mp he
      rw [← Pools.resourcesOf_of_mem h hmem]
      exact hvanished e.1 (by simpa using hpeak)
    have hnone : (i.stale s).flatMap (·.2.reverse) = [] := by
      rw [List.flatMap_eq_nil_iff]
      intro e he
      rw [hempty e he, List.reverse_nil]
    rw [without, hnone]
    rfl
  · rw [resourcesOf_without_stale]
    split_ifs with hpeak
    · exact (hvanished c hpeak).symm
    · rfl

end Inventory

open Inventory in
/-- A reconciliation that was stopped for want of capacity and is made again under
a higher limit ends like a single one under that limit. -/
theorem reconcile_resumes {d : Description} {required : List Nat} {config : Config}
    {s : Schedule} (hcompile : compile d required config = .ok s) {i i₁ i₂ : Inventory}
    (hsorted : i.pools.Sorted) {k : Nat} {limit : Option Nat} (hraised : ∀ l ∈ limit, k ≤ l)
    {error : GraphError} {es₁ es₂ : List Event}
    (hstopped : (reconcile s).run (i.withLimit (some k)) = ⟨.error error, i₁, es₁⟩)
    (hagain : (reconcile s).run (i₁.withLimit limit) = ⟨.ok (), i₂, es₂⟩) :
    ∃ es, (reconcile s).run (i.withLimit limit) = ⟨.ok (), i₂, es⟩ := by
  obtain ⟨passes, selected, last, hs⟩ := compilation_of_compile hcompile
  have hclasses := hs.peaks_nodup
  -- What the first attempt, the second one and a single one do after dropping classes.
  generalize hkept : i.without (i.stale s) = kept
  have hdropped : ∀ limit : Option Nat,
      (i.withLimit limit).without ((i.withLimit limit).stale s) = kept.withLimit limit := by
    intro limit
    rw [← hkept, ← without_withLimit]
    rfl
  have hfirst := reconcile_run (i.withLimit (some k)) s
  have hsecond := reconcile_run (i₁.withLimit limit) s
  have hsingle := reconcile_run (i.withLimit limit) s
  rw [hdropped] at hfirst hsingle
  unfold Act.Ends at hfirst hsecond hsingle
  rw [hstopped] at hfirst
  rw [hagain] at hsecond
  obtain ⟨hresult₁, hstate₁, -⟩ := hfirst
  obtain ⟨hresult₂, hstate₂, -⟩ := hsecond
  dsimp only at hstate₁ hstate₂
  have hsorted₀ : kept.pools.Sorted := hkept ▸ sorted_without hsorted _
  have hsorted₁ : i₁.pools.Sorted := by
    rw [hstate₁]
    exact sorted_resizedAll (i := kept.withLimit (some k)) hsorted₀ _
  have hvanished : ∀ c, s.peak c = 0 → i₁.pools.resourcesOf c = [] := by
    intro c hc
    rw [hstate₁]
    apply resizedAll_vanished
    · rw [← hkept]
      exact (resourcesOf_without_stale ..).trans (if_pos hc)
    · intro e he hec
      rw [← Schedule.peak_of_mem hclasses he, hec, hc]
  have halike := without_stale_alike (i := i₁.withLimit limit) hsorted₁ hvanished
  rw [hstate₁] at halike
  obtain ⟨hok, hend⟩ := resizedAll_again hraised hclasses hsorted₀ hresult₁.symm halike
    (hstate₁ ▸ hresult₂.symm)
  rw [hok] at hsingle
  obtain ⟨hresult, hstate, -⟩ := hsingle
  cases hrun : (reconcile s).run (i.withLimit limit) with
  | mk result j es =>
      rw [hrun] at hresult hstate
      dsimp only at hresult hstate
      subst hresult
      rw [← hstate₁] at hend
      exact ⟨es, by rw [hstate₂, hstate, hend.compact_eq]⟩

/-- An inventory with one resource that the copy has no use for. -/
def usedInventory : Inventory where
  backend := { live := [(0, .dummy)], nextId := 1, createdCount := 1 }
  pools := ⟨[(.dummy, [0])]⟩

open Inventory in
/-- With room for one resource the second texture is missing; with room for two
the reconciliation goes on where it stopped. -/
theorem reconcile_resumes_tintedCopy :
    ∃ error i₁ es₁ i₂ es₂ es,
      (reconcile copySchedule).run (usedInventory.withLimit (some 1)) = ⟨.error error, i₁, es₁⟩ ∧
      i₁.pools.entries = [(.texture ⟨4, 4⟩ .rgba8Unorm, [1])] ∧
      (reconcile copySchedule).run (i₁.withLimit (some 2)) = ⟨.ok (), i₂, es₂⟩ ∧
      i₂.pools.entries = [(.texture ⟨4, 4⟩ .rgba8Unorm, [1, 2])] ∧
      (reconcile copySchedule).run (usedInventory.withLimit (some 2)) = ⟨.ok (), i₂, es⟩ := by
  have hsorted : usedInventory.pools.Sorted := List.pairwise_singleton _ _
  have hraised : ∀ l ∈ some 2, 1 ≤ l := by simp
  obtain ⟨es, hsingle⟩ := reconcile_resumes compile_tintedCopy hsorted hraised rfl rfl
  exact ⟨_, _, _, _, _, es, rfl, rfl, rfl, rfl, hsingle⟩

end FrameGraph
