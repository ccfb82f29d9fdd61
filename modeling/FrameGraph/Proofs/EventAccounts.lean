import FrameGraph.Compile
import Mathlib.Data.List.Nodup
import Mathlib.Data.List.Range

/-!
# Accounts of resources

What a sequence of events says about the resources of one owner. `Event.Accounts`
reads it as a ledger: a created resource carries the next number and is added, a
destroyed one has to be there and is struck off, and no other event may touch a
resource. The destruction of an unknown resource has no place in such a ledger.

Numbers are never used twice, so nothing is destroyed twice either.
-/
namespace FrameGraph

namespace Event

/-- The event leaves all resources alone. -/
def isSilent : Event → Bool
  | .created .. | .destroyed .. | .unknownDestroyed .. => false
  | _ => true

/-- The event is one of a compilation. -/
def isPlanning : Event → Bool
  | .selected .. | .slotAcquired .. | .slotReleased .. | .weighed .. | .placed ..
  | .compiled .. => true
  | _ => false

theorem isSilent_of_isPlanning {e : Event} (h : e.isPlanning = true) : e.isSilent = true := by
  cases e <;> first | rfl | cases h

def created? : Event → Option Nat
  | .created resource _ => some resource
  | _ => none

def destroyed? : Event → Option Nat
  | .destroyed resource => some resource
  | _ => none

/-- The resources created, in the order of their creation. -/
def createdIn (es : List Event) : List Nat := es.filterMap created?

/-- The resources destroyed, in the order of their destruction. -/
def destroyedIn (es : List Event) : List Nat := es.filterMap destroyed?

theorem destroyedIn_append (es es' : List Event) :
    destroyedIn (es ++ es') = destroyedIn es ++ destroyedIn es' :=
  List.filterMap_append

theorem destroyedIn_destroyed (r : Nat) (es : List Event) :
    destroyedIn (.destroyed r :: es) = r :: destroyedIn es := rfl

/-- The events that touch resources. -/
def loud (es : List Event) : List Event := es.filter fun e => !e.isSilent

theorem loud_append (es es' : List Event) : loud (es ++ es') = loud es ++ loud es' :=
  List.filter_append ..

theorem loud_cons_of_silent {e : Event} (h : e.isSilent = true) (es : List Event) :
    loud (e :: es) = loud es := by
  simp [loud, h]

theorem loud_cons_of_not_silent {e : Event} (h : ¬e.isSilent = true) (es : List Event) :
    loud (e :: es) = e :: loud es := by
  simp [loud, h]

/-- Nothing is read off other events. -/
theorem filterMap_loud {α : Type} {f : Event → Option α}
    (h : ∀ e, e.isSilent = true → f e = none) (es : List Event) :
    (loud es).filterMap f = es.filterMap f := by
  induction es with
  | nil => rfl
  | cons e es ih =>
      by_cases he : e.isSilent = true
      · rw [loud_cons_of_silent he, ih, List.filterMap_cons_none (h e he)]
      · rw [loud_cons_of_not_silent he, List.filterMap_cons, List.filterMap_cons, ih]

theorem created?_of_isSilent {e : Event} (h : e.isSilent = true) : e.created? = none := by
  cases e <;> first | rfl | cases h

theorem destroyed?_of_isSilent {e : Event} (h : e.isSilent = true) : e.destroyed? = none := by
  cases e <;> first | rfl | cases h

/-- From the next number and the resources before to those after, event by event. -/
inductive Accounts : Nat → List Nat → List Event → Nat → List Nat → Prop
  | nil {n : Nat} {ids ids' : List Nat} : ids.Perm ids' → Accounts n ids [] n ids'
  | silent {n n' : Nat} {ids ids' : List Nat} {e : Event} {es : List Event} :
      e.isSilent = true → Accounts n ids es n' ids' → Accounts n ids (e :: es) n' ids'
  | created {n n' : Nat} {ids ids' : List Nat} {c : StorageClass} {es : List Event} :
      Accounts (n + 1) (n :: ids) es n' ids' → Accounts n ids (.created n c :: es) n' ids'
  | destroyed {n n' r : Nat} {ids rest ids' : List Nat} {es : List Event} :
      ids.Perm (r :: rest) → Accounts n rest es n' ids' →
      Accounts n ids (.destroyed r :: es) n' ids'

namespace Accounts

variable {n m k r : Nat} {ids ids' jds kds : List Nat} {es es' : List Event}

theorem refl (n : Nat) (ids : List Nat) : Accounts n ids [] n ids := .nil (.refl _)

theorem of_silent (h : ∀ e ∈ es, e.isSilent = true) : Accounts n ids es n ids := by
  induction es with
  | nil => exact .refl n ids
  | cons e es ih =>
      rw [List.forall_mem_cons] at h
      exact .silent h.1 (ih h.2)

/-- Only the events that touch resources matter. -/
theorem of_loud (h : Accounts n ids (loud es) m jds) : Accounts n ids es m jds := by
  induction es generalizing n ids with
  | nil => exact h
  | cons e es ih =>
      by_cases he : e.isSilent = true
      · rw [loud_cons_of_silent he] at h
        exact .silent he (ih h)
      · rw [loud_cons_of_not_silent he] at h
        cases h with
        | silent hsilent => exact (he hsilent).elim
        | created h => exact .created (ih h)
        | destroyed hperm h => exact .destroyed hperm (ih h)

/-- The order of the resources does not matter. -/
theorem perm_left (h : Accounts n ids es m jds) (hids : ids'.Perm ids) :
    Accounts n ids' es m jds := by
  induction h generalizing ids' with
  | nil hperm => exact .nil (hids.trans hperm)
  | silent he _ ih => exact .silent he (ih hids)
  | created _ ih => exact .created (ih (hids.cons _))
  | destroyed hperm hrest _ => exact .destroyed (hids.trans hperm) hrest

theorem append (h : Accounts n ids es m jds) (h' : Accounts m jds es' k kds) :
    Accounts n ids (es ++ es') k kds := by
  induction h with
  | nil hperm => exact h'.perm_left hperm
  | silent he _ ih => exact .silent he (ih h')
  | created _ ih => exact .created (ih h')
  | destroyed hperm _ ih => exact .destroyed hperm (ih h')

theorem perm_right (h : Accounts n ids es m jds) (hjds : jds.Perm kds) :
    Accounts n ids es m kds := by
  have hrest := h.append (.nil hjds)
  rwa [List.append_nil] at hrest

/-- Resources that play no part can be added. -/
theorem frame (h : Accounts n ids es m jds) (others : List Nat) :
    Accounts n (ids ++ others) es m (jds ++ others) := by
  induction h with
  | nil hperm => exact .nil (hperm.append_right _)
  | silent he _ ih => exact .silent he ih
  | created _ ih => exact .created ih
  | destroyed hperm _ ih => exact .destroyed (hperm.append_right _) ih

theorem known (h : Accounts n ids es m jds) (r : Nat) : .unknownDestroyed r ∉ es := by
  induction h with
  | nil => exact List.not_mem_nil
  | @silent _ _ _ _ e _ he _ ih =>
      rw [List.mem_cons, not_or]
      refine ⟨?_, ih⟩
      intro heq
      rw [← heq] at he
      cases he
  | created _ ih | destroyed _ _ ih => simpa using ih

/-- Created resources are numbered one by one. -/
theorem range_append_createdIn (h : Accounts n ids es m jds) :
    List.range n ++ createdIn es = List.range m := by
  induction h with
  | nil => exact List.append_nil _
  | silent he _ ih =>
      rw [← ih, createdIn, List.filterMap_cons_none (created?_of_isSilent he)]
      rfl
  | @created n _ _ _ _ es _ ih =>
      rw [← ih, List.range_succ, List.append_assoc]
      rfl
  | destroyed _ _ ih => exact ih

/-- What was there and what was created has been destroyed or is there. -/
theorem perm (h : Accounts n ids es m jds) :
    (destroyedIn es ++ jds).Perm (createdIn es ++ ids) := by
  induction h with
  | nil hperm => exact hperm.symm
  | silent he _ ih =>
      rwa [createdIn, destroyedIn, List.filterMap_cons_none (created?_of_isSilent he),
        List.filterMap_cons_none (destroyed?_of_isSilent he)]
  | created _ ih => exact ih.trans List.perm_middle
  | destroyed hperm _ ih =>
      exact (ih.cons _).trans (List.perm_middle.symm.trans (hperm.symm.append_left _))

/-- When a resource is destroyed it is there. -/
theorem exists_before {before after : List Event}
    (h : Accounts n ids (before ++ .destroyed r :: after) m jds) :
    ∃ k rest, Accounts n ids before k (r :: rest) := by
  induction before generalizing n ids with
  | nil =>
      cases h with
      | silent he => cases he
      | destroyed hperm _ => exact ⟨n, _, .nil hperm⟩
  | cons e before ih =>
      cases h with
      | silent he h =>
          obtain ⟨k, rest, hbefore⟩ := ih h
          exact ⟨k, rest, .silent he hbefore⟩
      | created h =>
          obtain ⟨k, rest, hbefore⟩ := ih h
          exact ⟨k, rest, .created hbefore⟩
      | destroyed hperm h =>
          obtain ⟨k, rest, hbefore⟩ := ih h
          exact ⟨k, rest, .destroyed hperm hbefore⟩

/-- In a ledger that starts with nothing, the resources destroyed and those that
are there are distinct. -/
theorem nodup_of_start (h : Accounts 0 [] es m jds) : (destroyedIn es ++ jds).Nodup := by
  have hcreated : createdIn es = List.range m := by simpa using h.range_append_createdIn
  have hperm : (destroyedIn es ++ jds).Perm (List.range m) := by simpa [hcreated] using h.perm
  exact hperm.nodup_iff.mpr List.nodup_range

/-- In a ledger that starts with nothing, what is there in the end are the
resources that were created and never destroyed. -/
theorem mem_iff_of_start (h : Accounts 0 [] es m jds) :
    r ∈ jds ↔ r ∈ createdIn es ∧ r ∉ destroyedIn es := by
  have hcreated : r ∈ destroyedIn es ++ jds ↔ r ∈ createdIn es := by
    simpa using h.perm.mem_iff (a := r)
  have hdisjoint := List.disjoint_of_nodup_append h.nodup_of_start
  rw [← hcreated, List.mem_append]
  constructor
  · exact fun hr => ⟨.inr hr, fun hgone => hdisjoint hgone hr⟩
  · exact fun hr => hr.1.resolve_left hr.2

/-- In a ledger that starts with nothing, a resource that is destroyed has been
created, has not been destroyed before, and is not there in the end. -/
theorem destroyed_once {before after : List Event}
    (h : Accounts 0 [] (before ++ .destroyed r :: after) m jds) :
    r ∈ createdIn before ∧ r ∉ destroyedIn before ∧ r ∉ jds := by
  obtain ⟨k, rest, hbefore⟩ := h.exists_before
  have hcreated : (destroyedIn before ++ r :: rest).Perm (createdIn before) := by
    simpa using hbefore.perm
  have hall := h.nodup_of_start
  rw [destroyedIn_append, destroyedIn_destroyed, List.append_assoc, List.cons_append,
    List.nodup_middle, List.nodup_cons, List.mem_append, List.mem_append, not_or, not_or] at hall
  exact ⟨hcreated.subset (by simp), hall.1.1, hall.1.2.2⟩

end Accounts
end Event

namespace Workload

variable (w : Workload)

theorem slotEvents_planning {event : Nat → StorageClass → Event}
    (hevent : ∀ slot c, (event slot c).isPlanning = true) (slots : List Allocation) :
    ∀ e ∈ w.slotEvents event slots, e.isPlanning = true := by
  intro e he
  obtain ⟨x, -, hx⟩ := List.mem_filterMap.mp he
  obtain ⟨c, -, rfl⟩ := Option.map_eq_some_iff.mp hx
  exact hevent x.slot c

theorem placementEvents_planning (p : Placement) :
    ∀ e ∈ w.placementEvents p, e.isPlanning = true := by
  unfold placementEvents
  rw [List.forall_mem_append, List.forall_mem_append, List.forall_mem_append]
  refine ⟨⟨⟨?_, ?_⟩, ?_⟩, ?_⟩
  · exact List.forall_mem_map.mpr fun _ _ => rfl
  · exact w.slotEvents_planning (fun _ _ => rfl) _
  · exact w.slotEvents_planning (fun _ _ => rfl) _
  · exact List.forall_mem_singleton.mpr rfl

theorem events_planning : ∀ e ∈ w.events, e.isPlanning = true := by
  unfold events progressEvents
  split
  · exact List.forall_mem_nil _
  · rw [List.forall_mem_append, List.forall_mem_append]
    refine ⟨⟨?_, ?_⟩, ?_⟩
    · exact w.slotEvents_planning (fun _ _ => rfl) _
    · intro e he
      obtain ⟨p, -, he⟩ := List.mem_flatMap.mp he
      exact w.placementEvents_planning p e he
    · split
      · exact List.forall_mem_nil _
      · exact List.forall_mem_singleton.mpr rfl

end Workload

theorem compileEvents_planning (d : Description) (required : List Nat) (config : Config) :
    ∀ e ∈ compileEvents d required config, e.isPlanning = true := by
  unfold compileEvents
  split
  · exact List.forall_mem_nil _
  · refine List.forall_mem_cons.mpr ⟨rfl, ?_⟩
    split
    · exact List.forall_mem_nil _
    · exact Workload.events_planning _

/-- A compilation touches no resource. -/
theorem compileEvents_silent (d : Description) (required : List Nat) (config : Config) :
    ∀ e ∈ compileEvents d required config, e.isSilent = true :=
  fun e he => Event.isSilent_of_isPlanning (compileEvents_planning d required config e he)

end FrameGraph
