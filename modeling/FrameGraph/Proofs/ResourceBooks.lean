import FrameGraph.Proofs.PoolChanges

/-!
# Resource books

The books of an inventory: its backend keeps alive exactly the resources in the
pools and those listed as others, each once. Others are the resources that the
inventory does not own, and for the length of an act those that it has given up
and not yet destroyed.

Resources leave the pools by being given up and enter them by being created. Each
of the two keeps the books, and what is seen of it accounts for the change of the
pools; this is what `Inventory.Conserves` says. The outcome of a reconciliation is
known in closed form as such changes one after another, so it keeps the books too,
whether it succeeds or stops for want of capacity. When it succeeds, every class has
the size that the schedule needs.
-/
namespace FrameGraph

namespace Backend

variable {b : Backend} {ids : List Nat} {resource : Nat}

/-- Exactly the listed resources are alive, each once, the next one is new, and
all that were created have been destroyed or are alive. -/
structure Holds (b : Backend) (ids : List Nat) : Prop where
  perm : (b.live.map (·.1)).Perm ids
  nodup : ids.Nodup
  fresh : ∀ r ∈ ids, r < b.nextId
  counted : b.createdCount = b.destroyedCount + ids.length

theorem holds_empty (capacity : Option Nat) : Holds { capacity := capacity } [] :=
  ⟨.refl _, .nil, by simp, rfl⟩

theorem Holds.congr {ids' : List Nat} (h : b.Holds ids) (hids : ids.Perm ids') : b.Holds ids' where
  perm := h.perm.trans hids
  nodup := hids.nodup_iff.mp h.nodup
  fresh := fun r hr => h.fresh r (hids.symm.subset hr)
  counted := hids.length_eq ▸ h.counted

theorem Holds.isAlive_iff (h : b.Holds ids) : b.isAlive resource = true ↔ resource ∈ ids := by
  rw [← h.perm.mem_iff]
  simp [isAlive]

theorem Holds.strike (h : b.Holds (resource :: ids)) : (b.strike resource).Holds ids := by
  have halive : b.isAlive resource = true := h.isAlive_iff.mpr List.mem_cons_self
  have hnodup := List.nodup_cons.mp h.nodup
  rw [Backend.strike, if_pos halive]
  refine ⟨?_, hnodup.2, ?_, ?_⟩
  · have hmap : (b.live.filter (·.1 != resource)).map (·.1) =
        (b.live.map (·.1)).filter (· != resource) := by
      rw [List.filter_map]
      rfl
    have hids : (resource :: ids).filter (· != resource) = ids := by
      rw [List.filter_cons_of_neg (by simp), List.filter_eq_self]
      intro r hr
      simpa using fun hrr : r = resource => hnodup.1 (hrr ▸ hr)
    have hperm := h.perm.filter (· != resource)
    rw [hids] at hperm
    exact hmap ▸ hperm
  · exact fun r hr => h.fresh r (List.mem_cons_of_mem _ hr)
  · have hcounted := h.counted
    rw [List.length_cons] at hcounted
    dsimp only
    omega

theorem Holds.strikeAll {resources : List Nat} (h : b.Holds (resources ++ ids)) :
    (b.strikeAll resources).Holds ids := by
  induction resources generalizing b with
  | nil => exact h
  | cons resource rest ih => exact ih h.strike

theorem nextId_strike (b : Backend) (resource : Nat) : (b.strike resource).nextId = b.nextId := by
  unfold strike
  split <;> rfl

theorem nextId_strikeAll (b : Backend) (resources : List Nat) :
    (b.strikeAll resources).nextId = b.nextId := by
  induction resources generalizing b with
  | nil => rfl
  | cons resource rest ih => exact (ih (b.strike resource)).trans (b.nextId_strike resource)

/-- Resources that are alive are destroyed, and nothing else is seen. -/
theorem Holds.accounts_farewells {resources : List Nat} (h : b.Holds (resources ++ ids)) :
    Event.Accounts b.nextId resources (b.farewells resources) b.nextId [] := by
  induction resources generalizing b with
  | nil => exact .refl _ _
  | cons resource rest ih =>
      have halive : b.isAlive resource = true := h.isAlive_iff.mpr List.mem_cons_self
      have hrest := ih h.strike
      rw [nextId_strike] at hrest
      rw [farewells, farewell, if_pos halive]
      exact .destroyed (.refl _) hrest

theorem Holds.supply_one (h : b.Holds ids) (c : StorageClass) :
    (b.supply c 1).Holds (b.nextId :: ids) where
  perm := by
    rw [supply, List.map_append]
    exact (h.perm.append_right _).trans List.perm_append_comm
  nodup := List.nodup_cons.mpr ⟨fun hmem => Nat.lt_irrefl _ (h.fresh _ hmem), h.nodup⟩
  fresh := by
    intro r hr
    rcases List.mem_cons.mp hr with hr | hr
    · rw [hr]
      exact Nat.lt_succ_self _
    · exact Nat.lt_succ_of_lt (h.fresh r hr)
  counted := congrArg (· + 1) h.counted

theorem Holds.supply (h : b.Holds ids) (c : StorageClass) (n : Nat) :
    (b.supply c n).Holds (List.range' b.nextId n ++ ids) := by
  induction n generalizing b ids with
  | zero =>
      rw [supply_zero]
      exact h
  | succ n ih =>
      have hrest := ih (h.supply_one c)
      rw [supply_supply, Nat.add_comm] at hrest
      exact hrest.congr List.perm_middle

/-- Resources are created one by one. -/
theorem accounts_arrivals (c : StorageClass) (next n : Nat) (ids : List Nat) :
    Event.Accounts next ids (arrivals c (List.range' next n)) (next + n)
      (List.range' next n ++ ids) := by
  induction n generalizing next ids with
  | zero => exact .refl _ _
  | succ n ih =>
      have hrest := ih (next + 1) (next :: ids)
      rw [Nat.add_assoc, Nat.add_comm 1] at hrest
      exact .created (hrest.perm_right List.perm_middle)

end Backend

/-- What is in the pools of different classes, and the rest of the table. -/
theorem Pools.resources_perm_without {p : Pools} (h : p.Sorted)
    {dropped : List (StorageClass × List Nat)} (hclasses : (dropped.map (·.1)).Nodup)
    (hdropped : ∀ e ∈ dropped, p.resourcesOf e.1 = e.2) :
    p.resources.Perm (dropped.flatMap (·.2.reverse) ++
      (dropped.foldl (fun p e => p.erase e.1) p).resources) := by
  induction dropped generalizing p with
  | nil => exact .refl _
  | cons e dropped ih =>
      obtain ⟨hnew, hclasses⟩ := List.nodup_cons.mp hclasses
      obtain ⟨hhead, hdropped⟩ := List.forall_mem_cons.mp hdropped
      have hrest := ih (Pools.sorted_erase h e.1) hclasses fun f hf => by
        have hne : f.1 ≠ e.1 := fun heq => hnew (List.mem_map.mpr ⟨f, hf, heq⟩)
        rw [Pools.resourcesOf_erase _ hne]
        exact hdropped f hf
      have hfirst := Pools.resources_perm h e.1
      rw [hhead] at hfirst
      rw [List.flatMap_cons, List.foldl_cons, List.append_assoc]
      exact hfirst.trans (e.2.reverse_perm.symm.append hrest)

namespace Inventory

variable {i j k : Inventory} {others : List Nat} {c : StorageClass} {s : Schedule}
  {es es' : List Event}

/-- The pools are in order, and the backend holds what is in them and the others. -/
structure Booked (i : Inventory) (others : List Nat) : Prop where
  sorted : i.pools.Sorted
  holds : i.backend.Holds (i.pools.resources ++ others)

namespace Booked

theorem resources_nodup (h : i.Booked others) : i.pools.resources.Nodup :=
  (List.nodup_append.mp h.holds.nodup).1

theorem isAlive (h : i.Booked others) {resource : Nat} (hr : resource ∈ i.pools.resources) :
    i.backend.isAlive resource = true :=
  h.holds.isAlive_iff.mpr (List.mem_append_left _ hr)

theorem congr (h : i.Booked others) (hpools : j.pools = i.pools)
    (hbackend : j.backend = i.backend) : j.Booked others where
  sorted := by
    rw [hpools]
    exact h.sorted
  holds := by
    rw [hpools, hbackend]
    exact h.holds

theorem compact (h : i.Booked others) : Booked { i with pools := i.pools.compact } others where
  sorted := Pools.sorted_compact h.sorted
  holds := by
    rw [Pools.resources_compact]
    exact h.holds

end Booked

/-- The books are in order in the end, and the events account for the change of
the pools. -/
structure Conserves (i : Inventory) (others : List Nat) (es : List Event) (j : Inventory) :
    Prop where
  booked : j.Booked others
  accounts : Event.Accounts i.backend.nextId i.pools.resources es j.backend.nextId
    j.pools.resources

namespace Conserves

/-- Nothing was created or destroyed. -/
theorem of_eq (h : i.Booked others) (hpools : j.pools = i.pools) (hbackend : j.backend = i.backend)
    (hes : ∀ e ∈ es, e.isSilent = true) : i.Conserves others es j where
  booked := h.congr hpools hbackend
  accounts := by
    rw [hpools, hbackend]
    exact .of_silent hes

theorem refl (h : i.Booked others) : i.Conserves others [] i := .of_eq h rfl rfl (by simp)

theorem append (h : i.Conserves others es j) (h' : j.Conserves others es' k) :
    i.Conserves others (es ++ es') k where
  booked := h'.booked
  accounts := h.accounts.append h'.accounts

theorem cons {e : Event} (he : e.isSilent = true) (h : i.Conserves others es j) :
    i.Conserves others (e :: es) j where
  booked := h.booked
  accounts := .silent he h.accounts

theorem of_loud (h : i.Conserves others (Event.loud es) j) : i.Conserves others es j where
  booked := h.booked
  accounts := h.accounts.of_loud

end Conserves

/-- Resources are given up and destroyed. -/
theorem Booked.giveUp (h : i.Booked others) {given : List Nat} {q : Pools} (hq : q.Sorted)
    (hperm : i.pools.resources.Perm (given ++ q.resources)) :
    i.Conserves others (i.backend.farewells given)
      { i with backend := i.backend.strikeAll given, pools := q } := by
  have hholds := h.holds.congr (hperm.append_right others)
  rw [List.append_assoc] at hholds
  refine ⟨⟨hq, hholds.strikeAll⟩, ?_⟩
  dsimp only
  rw [Backend.nextId_strikeAll]
  exact (hholds.accounts_farewells.frame q.resources).perm_left hperm

/-- New resources are put into the pools. -/
theorem Booked.takeIn (h : i.Booked others) (c : StorageClass) {n : Nat} {q : Pools}
    (hq : q.Sorted)
    (hperm : (List.range' i.backend.nextId n ++ i.pools.resources).Perm q.resources) :
    i.Conserves others (Backend.arrivals c (List.range' i.backend.nextId n))
      { i with backend := i.backend.supply c n, pools := q } := by
  have hholds := h.holds.supply c n
  rw [← List.append_assoc] at hholds
  refine ⟨⟨hq, hholds.congr (hperm.append_right others)⟩, ?_⟩
  exact (Backend.accounts_arrivals c _ n _).perm_right hperm

/-- A pool that is brought to its size first gives up what is too much and then takes
in what is new. -/
theorem Booked.resized (h : i.Booked others) (c : StorageClass) (needed : Nat) :
    i.Conserves others (i.changes c needed) (i.resized c needed) := by
  have hsorted := Pools.sorted_set h.sorted c ((i.pools.resourcesOf c).take needed)
  have hshrunk : i.Conserves others (i.backend.farewells (i.surplusOf c needed))
      { i with
        backend := i.trimmed c needed
        pools := i.pools.set c ((i.pools.resourcesOf c).take needed) } := by
    apply h.giveUp hsorted
    have hkept : ((i.pools.resourcesOf c).take needed ++ i.surplusOf c needed).Perm
        (i.pools.resourcesOf c ++ []) := by
      have hreverse := (((i.pools.resourcesOf c).drop needed).reverse_perm).append_left
        ((i.pools.resourcesOf c).take needed)
      rw [List.take_append_drop] at hreverse
      rwa [List.append_nil]
    have hexchange := Pools.resources_set_exchange h.sorted hkept
    rw [List.append_nil] at hexchange
    exact hexchange.symm.trans List.perm_append_comm
  apply hshrunk.append
  apply hshrunk.booked.takeIn c (Pools.sorted_set h.sorted c _)
  have hadded : ((i.pools.resourcesOf c).take needed ++ i.additions c needed ++ []).Perm
      ((i.pools.set c ((i.pools.resourcesOf c).take needed)).resourcesOf c ++
        i.additions c needed) := by
    rw [Pools.resourcesOf_set, if_pos rfl, List.append_nil]
  have hexchange := Pools.resources_set_exchange hsorted hadded
  rw [Pools.set_set, List.append_nil] at hexchange
  exact List.perm_append_comm.trans hexchange.symm

theorem Booked.resizedAll (h : i.Booked others) (sizes : List (StorageClass × Nat)) :
    i.Conserves others (i.changesAll sizes) (i.resizedAll sizes).2 := by
  induction sizes generalizing i with
  | nil => exact .refl h
  | cons e sizes ih =>
      have hone := h.resized e.1 e.2
      cases hanswer : i.answer e.1 e.2 with
      | ok _ =>
          rw [resizedAll_of_ok hanswer, changesAll_of_ok hanswer]
          exact hone.append (ih hone.booked)
      | error error =>
          rw [resizedAll_of_error hanswer, changesAll_of_error hanswer]
          exact hone

/-- The pools of different classes can be given up. -/
theorem Booked.without (h : i.Booked others) {dropped : List (StorageClass × List Nat)}
    (hclasses : (dropped.map (·.1)).Nodup)
    (hdropped : ∀ e ∈ dropped, i.pools.resourcesOf e.1 = e.2) :
    i.Conserves others (i.backend.farewells (dropped.flatMap (·.2.reverse)))
      (i.without dropped) :=
  h.giveUp (sorted_without h.sorted dropped)
    (Pools.resources_perm_without h.sorted hclasses hdropped)

theorem Booked.without_stale (h : i.Booked others) (s : Schedule) :
    i.Conserves others (i.backend.farewells ((i.stale s).flatMap (·.2.reverse)))
      (i.without (i.stale s)) := by
  apply h.without
  · exact (Pools.classes_nodup h.sorted).sublist (List.filter_sublist.map _)
  · intro e he
    exact Pools.resourcesOf_of_mem h.sorted (List.mem_of_mem_filter he)

/-- A created resource is another one until it is put into a pool. -/
theorem create_ends (h : i.Booked others) (c : StorageClass) :
    (onBackend (Backend.create c)).Ends i fun result j es => j.pools = i.pools ∧
      j.Booked (result.toOption.toList ++ others) ∧
      Event.Accounts i.backend.nextId [] es j.backend.nextId result.toOption.toList := by
  apply (create_run i c 0).mono
  rintro (e | resource) _ es ⟨b, rfl, hb⟩
  · obtain ⟨rfl, hes, -⟩ := hb
    refine ⟨rfl, h, .of_loud ?_⟩
    rw [hes]
    exact .refl _ _
  · obtain ⟨rfl, rfl, hes, -⟩ := hb
    refine ⟨rfl, ⟨h.sorted, ?_⟩, .of_loud ?_⟩
    · exact (h.holds.supply_one c).congr List.perm_middle.symm
    · rw [hes]
      exact .created (.refl _ _)

/-- Every class of the schedule has a resource for each of its slots, and no more. -/
def Backs (i : Inventory) (s : Schedule) : Prop :=
  ∀ e ∈ s.peaks, (i.pools.resourcesOf e.1).length = e.2

/-- Empty pools hold no resources, so they may be forgotten. -/
theorem Conserves.compact (h : i.Conserves others es j) :
    i.Conserves others es { j with pools := j.pools.compact } where
  booked := h.booked.compact
  accounts := by
    rw [Pools.resources_compact]
    exact h.accounts

theorem reconcile_ends (h : i.Booked others) (hpeaks : (s.peaks.map (·.1)).Nodup) :
    (reconcile s).Ends i fun result j es => i.Conserves others es j ∧
      (result = .ok () → j.Backs s) := by
  apply (reconcile_run i s).mono
  rintro result j es ⟨hresult, hstate, hes⟩
  have hdropped := h.without_stale s
  have hsized := hdropped.booked.resizedAll s.peaks
  have hconserves := hdropped.append hsized
  rw [← hes] at hconserves
  cases result with
  | ok _ =>
      dsimp only at hstate
      subst hstate
      refine ⟨hconserves.of_loud.compact, fun _ e he => ?_⟩
      dsimp only
      rw [Pools.resourcesOf_compact hsized.booked.sorted]
      exact length_resizedAll hpeaks hresult.symm e he
  | error error =>
      dsimp only at hstate
      subst hstate
      exact ⟨hconserves.of_loud, fun hok => by cases hok⟩

/-- Everything owned is destroyed. -/
theorem dispose_ends (h : i.Booked others) :
    dispose.Ends i fun result j es =>
      result = .ok () ∧ i.Conserves others es j ∧ j.pools = {} := by
  apply (dispose_run i).mono
  rintro result _ es ⟨hresult, rfl, hes⟩
  have hperm : i.pools.resources.Perm
      (i.pools.entries.flatMap (·.2.reverse) ++ ({} : Pools).resources) := by
    rw [show ({} : Pools).resources = [] from rfl, List.append_nil]
    exact List.Perm.flatMap_left _ fun e _ => e.2.reverse_perm.symm
  have hconserves := h.giveUp Pools.sorted_empty hperm
  rw [← hes] at hconserves
  exact ⟨hresult, hconserves.of_loud, rfl⟩

end Inventory
end FrameGraph
