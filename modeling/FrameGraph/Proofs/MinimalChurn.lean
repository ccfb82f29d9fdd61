import FrameGraph.Proofs.PoolChanges
import FrameGraph.Proofs.RendererHistories
import Mathlib.Algebra.Ring.Nat

/-!
# Reconciling changes no more than it has to

A reconciliation that succeeds leaves every class with as many resources as the
schedule needs. The ones it had stay in their slots as far as they are needed;
those beyond are destroyed, the last slot first, and new ones are created only
for slots that had none. So no class both loses and gains.

`Inventory.Exact` says this of every class, `Inventory.Reached` describes the
inventories it is said of: those that any sequence of reconciliations and
disposals leaves behind, successful or not.
-/
namespace FrameGraph

namespace Event

def createdFor (c : StorageClass) (es : List Event) : List Nat :=
  ((es.filterMap made?).filter (·.2 = c)).map (·.1)

theorem createdFor_append (c : StorageClass) (es es' : List Event) :
    createdFor c (es ++ es') = createdFor c es ++ createdFor c es' := by
  simp [createdFor]

theorem createdFor_loud (c : StorageClass) (es : List Event) :
    createdFor c (loud es) = createdFor c es := by
  rw [createdFor, filterMap_loud fun _ => made?_of_isSilent, createdFor]

theorem Trades.createdFor {es : List Event} {lost : List Nat} {made : List (Nat × StorageClass)}
    (h : Trades es lost made) (c : StorageClass) :
    createdFor c es = (made.filter (·.2 = c)).map (·.1) := by
  rw [Event.createdFor, h.made]

theorem filterMap_lost? {es : List Event} (h : ∀ r, .unknownDestroyed r ∉ es) :
    es.filterMap lost? = destroyedIn es := by
  refine List.filterMap_congr fun e he => ?_
  cases e with
  | unknownDestroyed r => exact absurd he (h r)
  | _ => rfl

end Event

namespace Pools

variable {p : Pools} {α : Type}

/-- Of resources listed class by class, those of one class are found in its place. -/
theorem filter_flatMap (h : p.Sorted) (hnodup : p.resources.Nodup) {l : List (StorageClass × α)}
    (hclasses : (l.map (·.1)).Nodup) {f : StorageClass × α → List Nat}
    (hf : ∀ e ∈ l, ∀ r ∈ f e, r ∈ p.resourcesOf e.1) (c : StorageClass) :
    (∀ e ∈ l, e.1 = c → (l.flatMap f).filter (· ∈ p.resourcesOf c) = f e) ∧
      (c ∉ l.map (·.1) → (l.flatMap f).filter (· ∈ p.resourcesOf c) = []) := by
  have hother : ∀ e ∈ l, e.1 ≠ c → (f e).filter (· ∈ p.resourcesOf c) = [] := by
    intro e he hne
    rw [List.filter_eq_nil_iff]
    intro r hr hrc
    exact hne (class_unique h hnodup (hf e he r hr) (by simpa using hrc))
  induction l with
  | nil => simp
  | cons e l ih =>
      obtain ⟨hnew, hrest⟩ := List.nodup_cons.mp hclasses
      obtain ⟨hhead, hf⟩ := List.forall_mem_cons.mp hf
      obtain ⟨hotherHead, hother⟩ := List.forall_mem_cons.mp hother
      obtain ⟨hone, hnone⟩ := ih hrest hf hother
      rw [List.flatMap_cons, List.filter_append, List.forall_mem_cons, List.map_cons,
        List.mem_cons, not_or]
      refine ⟨⟨fun hc => ?_, fun g hg hc => ?_⟩, fun hc => ?_⟩
      · subst hc
        rw [hnone hnew, List.append_nil, List.filter_eq_self]
        exact fun r hr => by simpa using hhead r hr
      · have hne : e.1 ≠ c := by
          intro heq
          exact hnew (List.mem_map.mpr ⟨g, hg, hc.trans heq.symm⟩)
        rw [hotherHead hne, List.nil_append, hone g hg hc]
      · rw [hotherHead (Ne.symm hc.1), List.nil_append, hnone hc.2]

theorem count_eq_sum (h : p.Sorted) {sizes : List (StorageClass × Nat)}
    (hclasses : (sizes.map (·.1)).Nodup)
    (hlisted : ∀ e ∈ sizes, (p.resourcesOf e.1).length = e.2)
    (hother : ∀ c, c ∉ sizes.map (·.1) → p.resourcesOf c = []) :
    p.count = (sizes.map (·.2)).sum := by
  induction sizes generalizing p with
  | nil =>
      have hempty : p.resources = [] := by
        rw [resources, List.flatMap_eq_nil_iff]
        intro e he
        rw [← resourcesOf_of_mem h he]
        exact hother e.1 (by simp)
      rw [count, hempty]
      rfl
  | cons e sizes ih =>
      obtain ⟨hnew, hrest⟩ := List.nodup_cons.mp hclasses
      obtain ⟨hhead, hlisted⟩ := List.forall_mem_cons.mp hlisted
      have herased : (p.erase e.1).count = (sizes.map (·.2)).sum := by
        apply ih (sorted_erase h e.1) hrest
        · intro f hf
          have hne : f.1 ≠ e.1 := fun heq => hnew (List.mem_map.mpr ⟨f, hf, heq⟩)
          rw [resourcesOf_erase p hne]
          exact hlisted f hf
        · intro c hc
          by_cases heq : c = e.1
          · rw [heq, resourcesOf_erase_self]
          · rw [resourcesOf_erase p heq]
            exact hother c (by simpa [heq] using hc)
      rw [count, (resources_perm h e.1).length_eq, List.length_append, hhead, List.map_cons,
        List.sum_cons, ← herased]
      rfl

end Pools

theorem Schedule.resourceCount_eq (s : Schedule) : s.resourceCount = (s.peaks.map (·.2)).sum := by
  rw [resourceCount, List.sum_eq_foldl, List.foldl_map]

namespace Inventory

variable {i j : Inventory} {others : List Nat} {s : Schedule} {es : List Event}
  {sizes : List (StorageClass × Nat)}

/-- Resources are created only for the class that is resized. -/
theorem createdFor_changes (i : Inventory) (c : StorageClass) (needed : Nat) (k : StorageClass) :
    Event.createdFor k (i.changes c needed) = if k = c then i.additions c needed else [] := by
  rw [(i.trades_changes c needed).createdFor]
  split_ifs with hk
  · rw [hk, List.filter_eq_self.mpr (by simp), List.map_map]
    exact List.map_id _
  · rw [List.map_eq_nil_iff, List.filter_eq_nil_iff]
    simp [Ne.symm hk]

/-- The listed classes have been resized, one after another. -/
structure Settles (i : Inventory) (sizes : List (StorageClass × Nat)) (es : List Event)
    (j : Inventory) : Prop where
  lost : es.filterMap Event.lost? = sizes.flatMap fun e => i.surplusOf e.1 e.2
  listed : ∀ e ∈ sizes, (Event.createdFor e.1 es).length = i.missing e.1 e.2 ∧
    j.pools.resourcesOf e.1 = (i.pools.resourcesOf e.1).take e.2 ++ Event.createdFor e.1 es
  other : ∀ c, c ∉ sizes.map (·.1) →
    Event.createdFor c es = [] ∧ j.pools.resourcesOf c = i.pools.resourcesOf c

/-- Where the backend goes all the way, what is seen of resizing settles the classes. -/
theorem settles_resizedAll (i : Inventory) (hsizes : (sizes.map (·.1)).Nodup)
    (hok : (i.resizedAll sizes).1 = .ok ()) :
    i.Settles sizes (i.changesAll sizes) (i.resizedAll sizes).2 := by
  induction sizes generalizing i with
  | nil => exact ⟨rfl, by simp, fun c _ => ⟨rfl, rfl⟩⟩
  | cons e sizes ih =>
      obtain ⟨hnew, hrest⟩ := List.nodup_cons.mp hsizes
      cases hanswer : i.answer e.1 e.2 with
      | error error =>
          rw [resizedAll_of_error hanswer] at hok
          cases hok
      | ok _ =>
          rw [resizedAll_of_ok hanswer] at hok ⊢
          rw [changesAll_of_ok hanswer]
          obtain ⟨hlost, hlisted, hother⟩ := ih _ hrest hok
          have hne : ∀ f ∈ sizes, f.1 ≠ e.1 := by
            intro f hf heq
            exact hnew (List.mem_map.mpr ⟨f, hf, heq⟩)
          obtain ⟨hnone, hkept⟩ := hother e.1 hnew
          refine ⟨?_, List.forall_mem_cons.mpr ⟨?_, fun f hf => ?_⟩, fun c hc => ?_⟩
          · rw [List.filterMap_append, (i.trades_changes e.1 e.2).lost, hlost, List.flatMap_cons]
            congr 1
            refine List.flatMap_congr fun f hf => ?_
            rw [surplusOf, resourcesOf_resized, if_neg (hne f hf), surplusOf]
          · rw [Event.createdFor_append, hnone, List.append_nil, createdFor_changes, if_pos rfl,
              hkept, resourcesOf_resized, if_pos rfl]
            constructor
            · rw [additions, List.length_range']
              exact Backend.answer_eq_ok.mp hanswer
            · rfl
          · have hlisted := hlisted f hf
            rw [missing, resourcesOf_resized, if_neg (hne f hf)] at hlisted
            rwa [Event.createdFor_append, createdFor_changes, if_neg (hne f hf), List.nil_append]
          · rw [List.map_cons, List.mem_cons, not_or] at hc
            obtain ⟨hnone, hkept⟩ := hother c hc.2
            rw [Event.createdFor_append, createdFor_changes, if_neg hc.1, hnone, hkept,
              resourcesOf_resized, if_neg hc.1]
            exact ⟨rfl, rfl⟩

theorem Settles.compact (h : i.Settles sizes es j) (hsorted : j.pools.Sorted) :
    i.Settles sizes es { j with pools := j.pools.compact } := by
  refine ⟨h.lost, ?_, ?_⟩
  · intro f hf
    rw [Pools.resourcesOf_compact hsorted]
    exact h.listed f hf
  · intro c hc
    rw [Pools.resourcesOf_compact hsorted]
    exact h.other c hc

/-- A reconciliation that succeeds has dropped what was stale and then resized the
classes of the schedule. -/
theorem reconcile_settles (h : i.Booked others) (hpeaks : (s.peaks.map (·.1)).Nodup) :
    (reconcile s).Ends i fun result j es => result = .ok () →
      ∃ es₁ es₂, Event.loud es = es₁ ++ es₂ ∧
        Event.Trades es₁ ((i.stale s).flatMap (·.2.reverse)) [] ∧
        (i.without (i.stale s)).Settles s.peaks es₂ j := by
  apply (reconcile_run i s).mono
  rintro _ j es ⟨hsized, hstate, hes⟩ rfl
  dsimp only at hstate
  subst hstate
  have hsorted := ((h.without_stale s).booked.resizedAll s.peaks).booked.sorted
  exact ⟨_, _, hes, i.backend.trades_farewells _,
    (settles_resizedAll _ hpeaks hsized.symm).compact hsorted⟩

/-- What a reconciliation did to the resources of each class. -/
structure Exact (i : Inventory) (s : Schedule) (es : List Event) (j : Inventory) : Prop where
  size : ∀ c, (j.pools.resourcesOf c).length = s.peak c
  kept : ∀ c, (j.pools.resourcesOf c).take (min (i.pools.resourcesOf c).length (s.peak c)) =
    (i.pools.resourcesOf c).take (min (i.pools.resourcesOf c).length (s.peak c))
  destroyed : ∀ c, (Event.destroyedIn es).filter (· ∈ i.pools.resourcesOf c) =
    ((i.pools.resourcesOf c).drop (s.peak c)).reverse
  owned : ∀ r ∈ Event.destroyedIn es, ∃ c, r ∈ i.pools.resourcesOf c
  known : ∀ r, .unknownDestroyed r ∉ es
  created : ∀ c, Event.createdFor c es =
    (j.pools.resourcesOf c).drop (i.pools.resourcesOf c).length
  createdCount : ∀ c, (Event.createdFor c es).length = s.peak c - (i.pools.resourcesOf c).length
  apart : ∀ c, (Event.destroyedIn es).filter (· ∈ i.pools.resourcesOf c) = [] ∨
    Event.createdFor c es = []
  count : j.pools.count = s.resourceCount

section
variable {es₁ es₂ : List Event}

/-- Every class keeps its first resources, as many as are needed, and gets the
number that it is short of. -/
theorem Settles.pool (h : (i.without (i.stale s)).Settles s.peaks es j)
    (hpeaks : (s.peaks.map (·.1)).Nodup) (c : StorageClass) :
    (Event.createdFor c es).length = s.peak c - (i.pools.resourcesOf c).length ∧
      j.pools.resourcesOf c =
        (i.pools.resourcesOf c).take (s.peak c) ++ Event.createdFor c es := by
  by_cases hc : c ∈ s.peaks.map (·.1)
  · obtain ⟨e, he, rfl⟩ := List.mem_map.mp hc
    obtain ⟨hcount, hpool⟩ := h.listed e he
    rw [missing, resourcesOf_without_stale] at hcount
    rw [resourcesOf_without_stale] at hpool
    rw [Schedule.peak_of_mem hpeaks he] at hcount hpool ⊢
    split_ifs at hcount hpool with hzero
    · rw [hzero] at hcount hpool ⊢
      exact ⟨by simpa using hcount, by simpa using hpool⟩
    · exact ⟨hcount, hpool⟩
  · have hzero := Schedule.peak_of_not_mem hc
    obtain ⟨hnone, hpool⟩ := h.other c hc
    rw [resourcesOf_without_stale, if_pos hzero] at hpool
    rw [hnone, hpool, hzero]
    exact ⟨(Nat.zero_sub _).symm, rfl⟩

theorem mem_stale (hsorted : i.pools.Sorted) {e : StorageClass × List Nat} (he : e ∈ i.stale s) :
    ∀ r ∈ e.2.reverse, r ∈ i.pools.resourcesOf e.1 := by
  intro r hr
  rw [Pools.resourcesOf_of_mem hsorted (List.mem_filter.mp he).1]
  exact List.mem_reverse.mp hr

theorem mem_surplusOf (e : StorageClass × Nat) :
    ∀ r ∈ (i.without (i.stale s)).surplusOf e.1 e.2, r ∈ i.pools.resourcesOf e.1 := by
  intro r hr
  have hmem := List.mem_of_mem_drop (List.mem_reverse.mp hr)
  rw [resourcesOf_without_stale] at hmem
  split_ifs at hmem
  · cases hmem
  · exact hmem

/-- The resources of a class that are given up are those beyond the ones needed. -/
theorem Settles.lost_eq (h : (i.without (i.stale s)).Settles s.peaks es₂ j)
    (hbooked : i.Booked others) (hpeaks : (s.peaks.map (·.1)).Nodup)
    (hes₁ : Event.Trades es₁ ((i.stale s).flatMap (·.2.reverse)) []) (c : StorageClass) :
    ((es₁ ++ es₂).filterMap Event.lost?).filter (· ∈ i.pools.resourcesOf c) =
      ((i.pools.resourcesOf c).drop (s.peak c)).reverse := by
  have hstale : ((i.stale s).map (·.1)).Nodup :=
    (Pools.classes_nodup hbooked.sorted).sublist (List.filter_sublist.map _)
  obtain ⟨hdropped, hkept⟩ := Pools.filter_flatMap hbooked.sorted hbooked.resources_nodup hstale
    (fun _ he => mem_stale hbooked.sorted he) c
  obtain ⟨htrimmed, hunlisted⟩ := Pools.filter_flatMap hbooked.sorted hbooked.resources_nodup hpeaks
    (fun e _ => mem_surplusOf e) c
  rw [List.filterMap_append, hes₁.lost, h.lost, List.filter_append]
  by_cases hzero : s.peak c = 0
  · -- The class is dropped with all it has.
    have hrest : (s.peaks.flatMap fun e => (i.without (i.stale s)).surplusOf e.1 e.2).filter
        (· ∈ i.pools.resourcesOf c) = [] := by
      by_cases hc : c ∈ s.peaks.map (·.1)
      · obtain ⟨e, he, rfl⟩ := List.mem_map.mp hc
        rw [htrimmed e he rfl, surplusOf, resourcesOf_without_stale, if_pos hzero]
        simp
      · exact hunlisted hc
    rw [hrest, List.append_nil, hzero, List.drop_zero]
    by_cases hc : c ∈ (i.stale s).map (·.1)
    · obtain ⟨e, he, rfl⟩ := List.mem_map.mp hc
      rw [hdropped e he rfl, Pools.resourcesOf_of_mem hbooked.sorted (List.mem_filter.mp he).1]
    · have hempty := resourcesOf_without_stale i s c
      rw [resourcesOf_without, if_neg hc, if_pos hzero] at hempty
      rw [hkept hc, hempty]
      rfl
  · -- The class stays, and loses the slots beyond its peak.
    have hc : c ∉ (i.stale s).map (·.1) := by
      intro hmem
      obtain ⟨e, he, rfl⟩ := List.mem_map.mp hmem
      exact hzero (by simpa using (List.mem_filter.mp he).2)
    have hlisted : c ∈ s.peaks.map (·.1) := by
      by_contra hno
      exact hzero (Schedule.peak_of_not_mem hno)
    obtain ⟨e, he, rfl⟩ := List.mem_map.mp hlisted
    rw [hkept hc, List.nil_append, htrimmed e he rfl, surplusOf, resourcesOf_without_stale,
      if_neg hzero, Schedule.peak_of_mem hpeaks he]

theorem Settles.owned (h : (i.without (i.stale s)).Settles s.peaks es₂ j)
    (hbooked : i.Booked others)
    (hes₁ : Event.Trades es₁ ((i.stale s).flatMap (·.2.reverse)) []) :
    ∀ r ∈ (es₁ ++ es₂).filterMap Event.lost?, ∃ c, r ∈ i.pools.resourcesOf c := by
  intro r hr
  rw [List.filterMap_append, hes₁.lost, h.lost, List.mem_append, List.mem_flatMap,
    List.mem_flatMap] at hr
  rcases hr with ⟨e, he, hr⟩ | ⟨e, -, hr⟩
  · exact ⟨e.1, mem_stale hbooked.sorted he r hr⟩
  · exact ⟨e.1, mem_surplusOf e r hr⟩

end

/-- A class either loses its last resources or gains some behind those it has. -/
theorem loses_or_gains {old new : List Nat} {needed : Nat}
    (hlength : new.length = needed - old.length) :
    needed ≤ old.length ∧ new = [] ∨ old.length ≤ needed ∧ old.take needed = old := by
  rcases Nat.le_total needed old.length with hle | hle
  · left
    refine ⟨hle, List.eq_nil_of_length_eq_zero ?_⟩
    rw [hlength, Nat.sub_eq_zero_of_le hle]
  · exact .inr ⟨hle, List.take_of_length_le hle⟩

theorem reconcile_exact (h : i.Booked others) (hpeaks : (s.peaks.map (·.1)).Nodup) :
    (reconcile s).Ends i fun result j es => result = .ok () → i.Exact s es j := by
  apply ((reconcile_ends h hpeaks).and (reconcile_settles h hpeaks)).mono
  rintro result j es ⟨⟨hconserves, -⟩, hsettles⟩ hresult
  obtain ⟨es₁, es₂, hes, hes₁, hsettles⟩ := hsettles hresult
  have hknown := hconserves.accounts.known
  have hlost : (es₁ ++ es₂).filterMap Event.lost? = Event.destroyedIn es := by
    rw [← hes, Event.filterMap_loud fun _ => Event.lost?_of_isSilent, Event.filterMap_lost? hknown]
  have hcreated : ∀ c, Event.createdFor c es = Event.createdFor c es₂ := by
    intro c
    rw [← Event.createdFor_loud, hes, Event.createdFor_append, hes₁.createdFor]
    rfl
  have hpool : ∀ c, (Event.createdFor c es).length = s.peak c - (i.pools.resourcesOf c).length ∧
      j.pools.resourcesOf c =
        (i.pools.resourcesOf c).take (s.peak c) ++ Event.createdFor c es := by
    intro c
    rw [hcreated]
    exact hsettles.pool hpeaks c
  have hdestroyed : ∀ c, (Event.destroyedIn es).filter (· ∈ i.pools.resourcesOf c) =
      ((i.pools.resourcesOf c).drop (s.peak c)).reverse := by
    intro c
    rw [← hlost]
    exact hsettles.lost_eq h hpeaks hes₁ c
  have hsize : ∀ c, (j.pools.resourcesOf c).length = s.peak c := by
    intro c
    obtain ⟨hlength, hpool⟩ := hpool c
    rw [hpool, List.length_append, List.length_take, hlength]
    omega
  refine { size := hsize, kept := ?_, destroyed := hdestroyed, owned := ?_, known := hknown,
           created := ?_, createdCount := fun c => (hpool c).1, apart := ?_, count := ?_ }
  · intro c
    obtain ⟨hlength, hpool⟩ := hpool c
    rcases loses_or_gains hlength with ⟨hle, hnone⟩ | ⟨hle, hall⟩
    · rw [hpool, hnone, List.append_nil, Nat.min_eq_right hle, List.take_take, Nat.min_self]
    · rw [hpool, hall, Nat.min_eq_left hle, List.take_left, List.take_length]
  · rw [← hlost]
    exact hsettles.owned h hes₁
  · intro c
    obtain ⟨hlength, hpool⟩ := hpool c
    rcases loses_or_gains hlength with ⟨hle, hnone⟩ | ⟨hle, hall⟩
    · rw [hpool, hnone, List.append_nil, List.drop_of_length_le (List.length_take_le' ..)]
    · rw [hpool, hall, List.drop_left]
  · intro c
    rcases loses_or_gains (hpool c).1 with ⟨hle, hnone⟩ | ⟨hle, hall⟩
    · exact .inr hnone
    · left
      rw [hdestroyed, List.drop_of_length_le hle]
      rfl
  · rw [Schedule.resourceCount_eq]
    apply Pools.count_eq_sum hconserves.booked.sorted hpeaks
    · intro e he
      rw [hsize, Schedule.peak_of_mem hpeaks he]
    · intro c hc
      exact List.eq_nil_of_length_eq_zero ((hsize c).trans (Schedule.peak_of_not_mem hc))

/-- The inventories that reconciliations and disposals leave behind, successful or
not, while others create and destroy resources of their own in the backend and
its limit changes. -/
inductive Reached : Inventory → Prop
  | start {i : Inventory} {others : List Nat} : i.pools = {} → i.backend.Holds others → Reached i
  | reconcile {i : Inventory} {d : Description} {required : List Nat} {config : Config}
      {s : Schedule} : Reached i → compile d required config = .ok s →
      Reached ((Inventory.reconcile s).run i).state
  | dispose {i : Inventory} : Reached i → Reached (Inventory.dispose.run i).state
  | limit {i : Inventory} (limit : Option Nat) : Reached i →
      Reached { i with backend := { i.backend with capacity := limit } }
  | create {i : Inventory} (c : StorageClass) : Reached i →
      Reached ((onBackend (Backend.create c)).run i).state
  | destroy {i : Inventory} {r : Nat} : Reached i → r ∉ i.pools.resources →
      Reached ((onBackend (Backend.destroy r)).run i).state

theorem Booked.destroy (h : i.Booked others) {r : Nat} (hr : r ∉ i.pools.resources) :
    ∃ others', (((onBackend (Backend.destroy r)).run i).state).Booked others' := by
  have hstate : ((onBackend (Backend.destroy r)).run i).state =
      { i with backend := i.backend.strike r } := (destroy_run i r).2.1
  rw [hstate]
  by_cases halive : r ∈ others
  · have hperm : (i.pools.resources ++ others).Perm (r :: (i.pools.resources ++ others.erase r)) :=
      ((List.perm_cons_erase halive).append_left _).trans List.perm_middle
    exact ⟨others.erase r, h.sorted, (h.holds.congr hperm).strike⟩
  · have hunknown : ¬i.backend.isAlive r = true := by
      rw [h.holds.isAlive_iff, List.mem_append, not_or]
      exact ⟨hr, halive⟩
    rw [Backend.strike, if_neg hunknown]
    exact ⟨others, h⟩

theorem Reached.booked (h : Reached i) : ∃ others, i.Booked others := by
  induction h with
  | @start i others hpools hholds =>
      refine ⟨others, ?_, ?_⟩
      · rw [hpools]
        exact Pools.sorted_empty
      · rw [hpools]
        exact hholds
  | reconcile _ hcompile ih =>
      obtain ⟨others, hbooked⟩ := ih
      obtain ⟨passes, selected, last, hs⟩ := compilation_of_compile hcompile
      exact ⟨others, (reconcile_ends hbooked hs.peaks_nodup).1.booked⟩
  | dispose _ ih =>
      obtain ⟨others, hbooked⟩ := ih
      exact ⟨others, (dispose_ends hbooked).2.1.booked⟩
  | limit limit _ ih =>
      obtain ⟨others, h⟩ := ih
      exact ⟨others, h.sorted, h.holds.perm, h.holds.nodup, h.holds.fresh, h.holds.counted⟩
  | create c _ ih =>
      obtain ⟨others, hbooked⟩ := ih
      exact ⟨_, (create_ends hbooked c).2.1⟩
  | destroy _ hr ih =>
      obtain ⟨others, hbooked⟩ := ih
      exact hbooked.destroy hr

end Inventory

open Inventory in
/-- Whatever has been done with an inventory before, a reconciliation with a
compiled schedule that succeeds is exact. -/
theorem exact_of_reached {i j : Inventory} (hreached : Reached i) {d : Description}
    {required : List Nat} {config : Config} {s : Schedule}
    (hcompile : compile d required config = .ok s) {es : List Event}
    (hrun : (reconcile s).run i = ⟨.ok (), j, es⟩) : i.Exact s es j := by
  obtain ⟨others, hbooked⟩ := hreached.booked
  obtain ⟨passes, selected, last, hs⟩ := compilation_of_compile hcompile
  have hexact := reconcile_exact hbooked hs.peaks_nodup
  unfold Act.Ends at hexact
  rw [hrun] at hexact
  exact hexact rfl

open Inventory in
/-- After a setup with two textures, one that needs a single texture keeps the
first and destroys the second. -/
theorem exact_tintInPlace :
    ∃ i j es, Reached i ∧ i.pools.entries = [(.texture ⟨4, 4⟩ .rgba8Unorm, [0, 1])] ∧
      (reconcile tintedSchedule).run i = ⟨.ok (), j, es⟩ ∧ i.Exact tintedSchedule es j ∧
      j.pools.entries = [(.texture ⟨4, 4⟩ .rgba8Unorm, [0])] ∧ Event.destroyedIn es = [1] := by
  have hreached : Reached ((reconcile copySchedule).run {}).state :=
    .reconcile (.start rfl (Backend.holds_empty none)) compile_tintedCopy
  exact ⟨_, _, _, hreached, rfl, rfl, exact_of_reached hreached compile_tintInPlace rfl, rfl, rfl⟩

end FrameGraph
