import FrameGraph.Inventory
import FrameGraph.Proofs.EventAccounts
import FrameGraph.Proofs.Postconditions
import FrameGraph.Proofs.SortedPools

/-!
# What reconciling does, step by step

The outcome of each step of a reconciliation as a function of the state in which
it starts: what pools and backend are like afterwards, and which events tell of
resources given up and created, in their order. Nothing is assumed of the state. A
resource given up may be unknown to the backend, and the capacity may be too small
from the start.

A pool is brought to its size by two loops, each of which compares the two sizes
before every round. Their outcome is in closed form here: a pool that is too large
loses all from the size needed on, the last slot first, and one that is too small
gets as many of the missing resources as the backend grants.

`Event.Trades` reads the resources given up and those created off the events.
-/
namespace FrameGraph

namespace Event

/-- The resource that the backend is told to destroy, known or not. -/
def lost? : Event → Option Nat
  | .destroyed resource => some resource
  | .unknownDestroyed resource => some resource
  | _ => none

/-- The resource that the backend creates, with its class. -/
def made? : Event → Option (Nat × StorageClass)
  | .created resource storage => some (resource, storage)
  | _ => none

theorem lost?_of_isSilent {e : Event} (h : e.isSilent = true) : e.lost? = none := by
  cases e <;> first | rfl | cases h

theorem made?_of_isSilent {e : Event} (h : e.isSilent = true) : e.made? = none := by
  cases e <;> first | rfl | cases h

/-- The resources given up and those created, each in their order. -/
structure Trades (es : List Event) (lost : List Nat) (made : List (Nat × StorageClass)) : Prop where
  lost : es.filterMap lost? = lost
  made : es.filterMap made? = made

namespace Trades

variable {es es' : List Event} {lost lost' : List Nat} {made made' : List (Nat × StorageClass)}

theorem append (h : Trades es lost made) (h' : Trades es' lost' made') :
    Trades (es ++ es') (lost ++ lost') (made ++ made') :=
  ⟨by rw [List.filterMap_append, h.lost, h'.lost], by rw [List.filterMap_append, h.made, h'.made]⟩


end Trades
end Event

open Event (Trades loud)

namespace Backend

variable {b : Backend} {c : StorageClass}

def strike (b : Backend) (resource : Nat) : Backend :=
  if b.isAlive resource then
    { b with
      live := b.live.filter (·.1 != resource)
      destroyedCount := b.destroyedCount + 1 }
  else b

def strikeAll (b : Backend) (resources : List Nat) : Backend := resources.foldl strike b

/-- What is seen when a resource is to be destroyed. -/
def farewell (b : Backend) (resource : Nat) : Event :=
  if b.isAlive resource then .destroyed resource else .unknownDestroyed resource

/-- What is seen when the listed resources are to be destroyed, one after another. -/
def farewells (b : Backend) : List Nat → List Event
  | [] => []
  | resource :: rest => b.farewell resource :: (b.strike resource).farewells rest

/-- What is seen when resources are created. -/
def arrivals (c : StorageClass) (resources : List Nat) : List Event :=
  resources.map fun resource => .created resource c

/-- The backend with so many more resources of a class. -/
def supply (b : Backend) (c : StorageClass) (n : Nat) : Backend :=
  { b with
    live := b.live ++ (List.range' b.nextId n).map (·, c)
    nextId := b.nextId + n
    createdCount := b.createdCount + n }

/-- How many resources the capacity leaves room for, of those that are missing. -/
def granted (b : Backend) (missing : Nat) : Nat :=
  match b.capacity with
  | none => missing
  | some k => min missing (k - b.live.length)

/-- The answer to a request for the resources that are missing. -/
def answer (b : Backend) (c : StorageClass) (missing : Nat) : Except GraphError Unit :=
  if b.granted missing = missing then .ok ()
  else .error (.creationFailed (.capacityExhausted (b.capacity.getD 0) c))

theorem granted_le (b : Backend) (missing : Nat) : b.granted missing ≤ missing := by
  unfold granted
  split
  · exact Nat.le_refl _
  · exact Nat.min_le_left _ _

theorem granted_zero (b : Backend) : b.granted 0 = 0 := Nat.le_zero.mp (b.granted_le 0)

theorem answer_eq_ok {missing : Nat} :
    b.answer c missing = .ok () ↔ b.granted missing = missing := by
  unfold answer
  split_ifs with h <;> simp [h]

theorem answer_zero (b : Backend) (c : StorageClass) : b.answer c 0 = .ok () :=
  answer_eq_ok.mpr b.granted_zero

/-- A refusal names the capacity in force and the class that was asked for. -/
theorem refusal_of_answer {missing : Nat} {e : GraphError} (h : b.answer c missing = .error e) :
    ∃ k, b.capacity = some k ∧ e = .creationFailed (.capacityExhausted k c) := by
  unfold answer at h
  split_ifs at h with hall
  cases h
  cases hcapacity : b.capacity with
  | none =>
      have hgranted : b.granted missing = missing := by rw [granted, hcapacity]
      exact absurd hgranted hall
  | some k => exact ⟨k, rfl, rfl⟩

theorem capacity_strikeAll (b : Backend) (resources : List Nat) :
    (b.strikeAll resources).capacity = b.capacity := by
  induction resources generalizing b with
  | nil => rfl
  | cons resource rest ih =>
      refine (ih (b.strike resource)).trans ?_
      unfold strike
      split <;> rfl

theorem farewells_append (b : Backend) (resources resources' : List Nat) :
    b.farewells (resources ++ resources') =
      b.farewells resources ++ (b.strikeAll resources).farewells resources' := by
  induction resources generalizing b with
  | nil => rfl
  | cons resource rest ih => exact congrArg (b.farewell resource :: ·) (ih _)

theorem trades_farewells (b : Backend) (resources : List Nat) :
    Trades (b.farewells resources) resources [] := by
  induction resources generalizing b with
  | nil => exact ⟨rfl, rfl⟩
  | cons resource rest ih =>
      have hfirst : Trades [b.farewell resource] [resource] [] := by
        unfold farewell
        split_ifs <;> exact ⟨rfl, rfl⟩
      exact hfirst.append (ih _)

theorem trades_arrivals (c : StorageClass) (resources : List Nat) :
    Trades (arrivals c resources) [] (resources.map (·, c)) := by
  constructor
  · exact (List.filterMap_map ..).trans (List.filterMap_eq_nil_iff.mpr fun _ _ => rfl)
  · exact (List.filterMap_map ..).trans (congrFun List.filterMap_eq_map _)

theorem supply_zero (b : Backend) (c : StorageClass) : b.supply c 0 = b := by
  simp [supply]

theorem supply_supply (b : Backend) (c : StorageClass) (m n : Nat) :
    (b.supply c m).supply c n = b.supply c (m + n) := by
  simp [supply, ← List.range'_append_1, Nat.add_assoc]

/-- The first of the missing resources is created, if there is room for one. -/
theorem create_run (b : Backend) (c : StorageClass) (missing : Nat) :
    (create c).Ends b fun result b' es =>
      match result with
      | .ok resource => resource = b.nextId ∧ b' = b.supply c 1 ∧
          loud es = [.created b.nextId c] ∧
          b.granted (missing + 1) = (b.supply c 1).granted missing + 1 ∧
          b.answer c (missing + 1) = (b.supply c 1).answer c missing
      | .error e => b' = b ∧ loud es = [] ∧ b.granted (missing + 1) = 0 ∧
          b.answer c (missing + 1) = .error e := by
  unfold create exhausted?
  rw [Act.ends_get_bind]
  cases hcapacity : b.capacity with
  | none =>
      rw [Option.filter_none]
      refine ⟨rfl, rfl, rfl, ?_, ?_⟩ <;> simp [granted, answer, supply, hcapacity]
  | some k =>
      by_cases hfull : k ≤ b.live.length
      · rw [Option.filter_some_pos (by simpa using hfull)]
        refine ⟨rfl, rfl, ?_, ?_⟩ <;> simp [granted, answer, hcapacity, hfull]
      · rw [Option.filter_some_neg (by simpa using hfull)]
        have hgranted : b.granted (missing + 1) = (b.supply c 1).granted missing + 1 := by
          simp only [granted, supply, hcapacity, List.length_append, List.length_map,
            List.length_range']
          omega
        refine ⟨rfl, rfl, rfl, hgranted, ?_⟩
        simp only [answer, hgranted, Nat.add_right_cancel_iff]
        rfl

theorem destroy_run (b : Backend) (resource : Nat) :
    (destroy resource).Ends b fun result b' es =>
      result = .ok () ∧ b' = b.strike resource ∧ loud es = [b.farewell resource] := by
  unfold destroy strike farewell
  rw [Act.ends_get_bind]
  split_ifs
  · exact ⟨rfl, rfl, rfl⟩
  · exact ⟨rfl, rfl, rfl⟩

theorem destroyAll_run (b : Backend) (resources : List Nat) :
    (destroyAll resources).Ends b fun result b' es =>
      result = .ok () ∧ b' = b.strikeAll resources ∧ loud es = b.farewells resources := by
  induction resources generalizing b with
  | nil => exact ⟨rfl, rfl, rfl⟩
  | cons resource rest ih =>
      unfold destroyAll
      apply (destroy_run b resource).bind_of_ok
      rintro _ es ⟨rfl, hes⟩
      apply (ih (b.strike resource)).mono
      rintro result _ es' ⟨hresult, rfl, hes'⟩
      refine ⟨hresult, rfl, ?_⟩
      rw [Event.loud_append, hes, hes']
      rfl

end Backend

namespace Pools

variable {p q : Pools} {c : StorageClass}

theorem set_set (p : Pools) (c : StorageClass) (xs ys : List Nat) :
    (p.set c xs).set c ys = p.set c ys := by
  obtain ⟨entries⟩ := p
  simp only [set, Pools.mk.injEq]
  induction entries with
  | nil => simp [setEntry]
  | cons e entries ih =>
      simp only [setEntry]
      split_ifs with heq hlt
      · simp [setEntry]
      · simp [setEntry]
      · simp only [setEntry, if_neg heq, if_neg hlt, ih]

end Pools

namespace Inventory

variable {i : Inventory} {c : StorageClass} {needed : Nat}

/-- The resources of a class that are too many, the last slot first. -/
def surplusOf (i : Inventory) (c : StorageClass) (needed : Nat) : List Nat :=
  ((i.pools.resourcesOf c).drop needed).reverse

def trimmed (i : Inventory) (c : StorageClass) (needed : Nat) : Backend :=
  i.backend.strikeAll (i.surplusOf c needed)

def missing (i : Inventory) (c : StorageClass) (needed : Nat) : Nat :=
  needed - (i.pools.resourcesOf c).length

/-- The resources that the backend then creates. -/
def additions (i : Inventory) (c : StorageClass) (needed : Nat) : List Nat :=
  List.range' (i.trimmed c needed).nextId ((i.trimmed c needed).granted (i.missing c needed))

/-- The inventory with the pool of a class brought to the size it is needed in,
as far as the backend goes along. -/
def resized (i : Inventory) (c : StorageClass) (needed : Nat) : Inventory :=
  { i with
    backend := (i.trimmed c needed).supply c ((i.trimmed c needed).granted (i.missing c needed))
    pools := i.pools.set c ((i.pools.resourcesOf c).take needed ++ i.additions c needed) }

/-- Whether the backend goes all the way. -/
def answer (i : Inventory) (c : StorageClass) (needed : Nat) : Except GraphError Unit :=
  (i.trimmed c needed).answer c (i.missing c needed)

theorem trimmed_of_le (h : (i.pools.resourcesOf c).length ≤ needed) :
    i.trimmed c needed = i.backend ∧
      (i.pools.resourcesOf c).take needed = i.pools.resourcesOf c := by
  constructor
  · rw [trimmed, surplusOf, List.drop_of_length_le h]
    rfl
  · exact List.take_of_length_le h

theorem resourcesOf_resized (i : Inventory) (c : StorageClass) (needed : Nat) (k : StorageClass) :
    (i.resized c needed).pools.resourcesOf k =
      if k = c then (i.pools.resourcesOf c).take needed ++ i.additions c needed
      else i.pools.resourcesOf k :=
  Pools.resourcesOf_set ..

theorem length_resized (h : i.answer c needed = .ok ()) :
    ((i.resized c needed).pools.resourcesOf c).length = needed := by
  rw [answer, Backend.answer_eq_ok] at h
  rw [resourcesOf_resized, if_pos rfl, List.length_append, List.length_take, additions,
    List.length_range', h, missing]
  omega

def changes (i : Inventory) (c : StorageClass) (needed : Nat) : List Event :=
  i.backend.farewells (i.surplusOf c needed) ++ Backend.arrivals c (i.additions c needed)

theorem trades_changes (i : Inventory) (c : StorageClass) (needed : Nat) :
    Trades (i.changes c needed) (i.surplusOf c needed) ((i.additions c needed).map (·, c)) := by
  have hboth := (i.backend.trades_farewells (i.surplusOf c needed)).append
    (Backend.trades_arrivals c (i.additions c needed))
  rwa [List.append_nil] at hboth

theorem destroy_run (i : Inventory) (resource : Nat) :
    (onBackend (Backend.destroy resource)).Ends i fun result j es => result = .ok () ∧
      j = { i with backend := i.backend.strike resource } ∧
        loud es = [i.backend.farewell resource] := by
  unfold onBackend
  rw [Act.ends_on]
  apply (Backend.destroy_run i.backend resource).mono
  rintro result _ es ⟨hresult, rfl, hes⟩
  exact ⟨hresult, rfl, hes⟩

/-- The loop that takes resources from the end of a pool stops when the pool has the
size needed. -/
theorem popSurplus_run (needed : Nat) {p : Pools} {stack : List Nat}
    (h : i.pools = p.set c stack.reverse) :
    (popSurplus c needed stack).Ends i fun result j es =>
      result = .ok (stack.length - needed) ∧
      j = { i with
        backend := i.backend.strikeAll (stack.take (stack.length - needed))
        pools := p.set c (stack.drop (stack.length - needed)).reverse } ∧
      loud es = i.backend.farewells (stack.take (stack.length - needed)) := by
  induction stack generalizing i with
  | nil =>
      rw [popSurplus, Act.ends_pure, List.take_nil, List.drop_nil, ← h, List.length_nil,
        Nat.zero_sub]
      exact ⟨rfl, rfl, rfl⟩
  | cons last others ih =>
      unfold popSurplus setPool
      split_ifs with hlarge
      · have hcount : (last :: others).length - needed = others.length - needed + 1 := by
          simp only [List.length_cons] at hlarge ⊢
          omega
        rw [hcount, List.take_succ_cons, List.drop_succ_cons, Act.ends_modify_bind,
          Act.ends_emit_bind]
        apply (destroy_run _ last).bind_of_ok
        rintro _ es ⟨rfl, hes⟩
        rw [Act.ends_bind_pure]
        apply (ih ?_).mono
        · rintro result _ es' ⟨rfl, rfl, hes'⟩
          refine ⟨rfl, rfl, ?_⟩
          rw [Event.loud_cons_of_silent rfl, Event.loud_append, hes, hes']
          rfl
        · dsimp only
          rw [h, Pools.set_set]
      · have hcount : (last :: others).length - needed = 0 := by omega
        rw [hcount]
        refine ⟨rfl, ?_, rfl⟩
        rw [List.take_zero, List.drop_zero, ← h]
        rfl

theorem create_run (i : Inventory) (c : StorageClass) (missing : Nat) :
    (onBackend (Backend.create c)).Ends i fun result j es => ∃ b, j = { i with backend := b } ∧
      match result with
      | .ok resource => resource = i.backend.nextId ∧ b = i.backend.supply c 1 ∧
          loud es = [.created i.backend.nextId c] ∧
          i.backend.granted (missing + 1) = (i.backend.supply c 1).granted missing + 1 ∧
          i.backend.answer c (missing + 1) = (i.backend.supply c 1).answer c missing
      | .error e => b = i.backend ∧ loud es = [] ∧ i.backend.granted (missing + 1) = 0 ∧
          i.backend.answer c (missing + 1) = .error e := by
  unfold onBackend
  rw [Act.ends_on]
  apply (Backend.create_run i.backend c missing).mono
  intro result b es hb
  exact ⟨b, rfl, hb⟩

/-- The inventory after its pool of a class has got what the backend grants of the
resources missing. -/
def pushed (i : Inventory) (c : StorageClass) (p : Pools) (xs : List Nat) (missing : Nat) :
    Inventory :=
  { i with
    backend := i.backend.supply c (i.backend.granted missing)
    pools := p.set c (xs ++ List.range' i.backend.nextId (i.backend.granted missing)) }

section
variable {p : Pools} {xs : List Nat} {missing : Nat}

theorem pushed_of_none (h : i.pools = p.set c xs) (hnone : i.backend.granted missing = 0) :
    i.pushed c p xs missing = i := by
  rw [pushed, hnone, Backend.supply_zero, List.range'_zero, List.append_nil, ← h]

/-- The first of the resources granted may be put into the pool before the others. -/
theorem pushed_succ
    (hgranted : i.backend.granted (missing + 1) = (i.backend.supply c 1).granted missing + 1) :
    i.pushed c p xs (missing + 1) =
      pushed { i with
        backend := i.backend.supply c 1
        pools := p.set c (xs ++ [i.backend.nextId]) } c p (xs ++ [i.backend.nextId]) missing := by
  unfold pushed
  rw [hgranted, List.range'_succ, Nat.add_comm, ← Backend.supply_supply, List.append_assoc]
  rfl

/-- The loop that adds resources to the end of a pool stops when the pool has the
size needed or the backend refuses one. The rounds allowed do not stop it. -/
theorem pushMissing_run (needed rounds : Nat) (h : i.pools = p.set c xs)
    (hrounds : needed ≤ xs.length + rounds) :
    (pushMissing c needed rounds).Ends i fun result j es =>
      result = (i.backend.answer c (needed - xs.length)).map (fun _ => needed - xs.length) ∧
      j = i.pushed c p xs (needed - xs.length) ∧
      loud es = Backend.arrivals c
        (List.range' i.backend.nextId (i.backend.granted (needed - xs.length))) := by
  induction rounds generalizing i xs with
  | zero =>
      have hnone : needed - xs.length = 0 := by omega
      rw [pushMissing, Act.ends_pure, hnone, pushed_of_none h i.backend.granted_zero,
        Backend.answer_zero, Backend.granted_zero]
      exact ⟨rfl, rfl, rfl⟩
  | succ rounds ih =>
      rw [pushMissing, Act.ends_get_bind, h, Pools.resourcesOf_set, if_pos rfl]
      split_ifs with hsmall
      · obtain ⟨missing, hmissing⟩ : ∃ missing, needed - xs.length = missing + 1 :=
          ⟨needed - xs.length - 1, by omega⟩
        rw [hmissing]
        apply (create_run i c missing).bind
        · rintro _ _ es ⟨_, rfl, rfl, rfl, hes, hgranted, hanswer⟩
          rw [Act.ends_emit_bind, setPool, Act.ends_modify_bind, Act.ends_bind_pure]
          dsimp only
          rw [h, Pools.set_set]
          have hlength : (xs ++ [i.backend.nextId]).length = xs.length + 1 := List.length_append
          have hrest : needed - (xs ++ [i.backend.nextId]).length = missing := by omega
          have hnext := ih (i := { i with
            backend := i.backend.supply c 1
            pools := p.set c (xs ++ [i.backend.nextId]) }) rfl (by omega)
          rw [hrest] at hnext
          apply hnext.mono
          rintro result _ es' ⟨rfl, rfl, hes'⟩
          refine ⟨?_, (pushed_succ hgranted).symm, ?_⟩
          · rw [hanswer]
            cases (i.backend.supply c 1).answer c missing <;> rfl
          · rw [Event.loud_append, Event.loud_cons_of_silent rfl, hes, hes', hgranted,
              List.range'_succ]
            rfl
        · rintro e _ es ⟨_, rfl, rfl, hes, hrefused, hanswer⟩
          rw [hanswer, pushed_of_none h hrefused, hrefused]
          exact ⟨rfl, rfl, hes⟩
      · have hnone : needed - xs.length = 0 := by omega
        rw [Act.ends_pure, hnone, pushed_of_none h i.backend.granted_zero, Backend.answer_zero,
          Backend.granted_zero]
        exact ⟨rfl, rfl, rfl⟩

end

/-- The two loops bring a pool to its size, as far as the backend goes along. -/
theorem resize_run (i : Inventory) (c : StorageClass) (needed : Nat) :
    (resize c needed).Ends i fun result j es =>
      result = (i.answer c needed).map (fun _ =>
        (i.missing c needed, (i.surplusOf c needed).length)) ∧
      j = i.resized c needed ∧ loud es = i.changes c needed := by
  unfold resize setPool
  rw [Act.ends_get_bind, Act.ends_modify_bind]
  -- The last slots come first in the list that the loop runs over.
  have htake : (i.pools.resourcesOf c).reverse.take ((i.pools.resourcesOf c).length - needed) =
      i.surplusOf c needed := by
    rw [List.take_reverse, surplusOf, List.reverse_inj, List.drop_eq_drop_iff]
    omega
  have hdrop : ((i.pools.resourcesOf c).reverse.drop
      ((i.pools.resourcesOf c).length - needed)).reverse = (i.pools.resourcesOf c).take needed := by
    rw [List.drop_reverse, List.reverse_reverse, List.take_eq_take_iff]
    omega
  have hlisted : ({ i with pools := i.pools.set c (i.pools.resourcesOf c) } : Inventory).pools =
      i.pools.set c (i.pools.resourcesOf c).reverse.reverse := by rw [List.reverse_reverse]
  have hpop := popSurplus_run needed hlisted
  rw [List.length_reverse, htake, hdrop] at hpop
  apply hpop.bind_of_ok
  rintro _ es ⟨rfl, hes⟩
  rw [Act.ends_bind_pure]
  have hpush := pushMissing_run (c := c) (i := { i with
    backend := i.backend.strikeAll (i.surplusOf c needed)
    pools := i.pools.set c ((i.pools.resourcesOf c).take needed) }) needed needed rfl
      (Nat.le_add_left ..)
  have hmissing : needed - ((i.pools.resourcesOf c).take needed).length = i.missing c needed := by
    rw [List.length_take, missing]
    omega
  rw [hmissing] at hpush
  apply hpush.mono
  rintro result _ es' ⟨rfl, rfl, hes'⟩
  refine ⟨?_, rfl, ?_⟩
  · have hlost : (i.surplusOf c needed).length = (i.pools.resourcesOf c).length - needed := by
      rw [surplusOf, List.length_reverse, List.length_drop]
    rw [hlost]
    change ((i.answer c needed).map _).map _ = _
    cases i.answer c needed <;> rfl
  · rw [Event.loud_append, hes, hes']
    rfl

theorem dropPool_run (i : Inventory) (e : StorageClass × List Nat) :
    (dropPool e.1 e.2).Ends i fun result j es => result = .ok () ∧
      j = { i with backend := i.backend.strikeAll e.2.reverse, pools := i.pools.erase e.1 } ∧
      loud es = i.backend.farewells e.2.reverse := by
  unfold dropPool onBackend
  rw [Act.ends_emit_bind, Act.ends_modify_bind, Act.ends_on]
  apply (Backend.destroyAll_run i.backend e.2.reverse).mono
  rintro result _ es ⟨hresult, rfl, hes⟩
  refine ⟨hresult, rfl, ?_⟩
  rw [Event.loud_cons_of_silent rfl, hes]

def without (i : Inventory) (dropped : List (StorageClass × List Nat)) : Inventory :=
  { i with
    backend := i.backend.strikeAll (dropped.flatMap (·.2.reverse))
    pools := dropped.foldl (fun p e => p.erase e.1) i.pools }

theorem dropPools_run (i : Inventory) (dropped : List (StorageClass × List Nat)) :
    (dropPools dropped).Ends i fun result j es => result = .ok () ∧ j = i.without dropped ∧
      loud es = i.backend.farewells (dropped.flatMap (·.2.reverse)) := by
  induction dropped generalizing i with
  | nil => exact ⟨rfl, rfl, rfl⟩
  | cons e dropped ih =>
      unfold dropPools
      apply (dropPool_run i e).bind_of_ok
      rintro _ es ⟨rfl, hes⟩
      apply (ih _).mono
      rintro result _ es' ⟨hresult, rfl, hes'⟩
      refine ⟨hresult, ?_, ?_⟩
      · simp [without, Backend.strikeAll]
      · rw [Event.loud_append, hes, hes', List.flatMap_cons, Backend.farewells_append]

/-- Dropped classes have no resources, and the others keep theirs. -/
theorem resourcesOf_without (i : Inventory) (dropped : List (StorageClass × List Nat))
    (c : StorageClass) : (i.without dropped).pools.resourcesOf c =
      if c ∈ dropped.map (·.1) then [] else i.pools.resourcesOf c := by
  unfold without
  dsimp only
  induction dropped generalizing i with
  | nil => rfl
  | cons e dropped ih =>
      rw [List.foldl_cons, ih { i with pools := i.pools.erase e.1 }, List.map_cons]
      by_cases hc : c = e.1
      · rw [hc, Pools.resourcesOf_erase_self, ite_self, if_pos List.mem_cons_self]
      · rw [Pools.resourcesOf_erase _ hc]
        simp only [List.mem_cons, hc, false_or]

theorem sorted_without (h : i.pools.Sorted) (dropped : List (StorageClass × List Nat)) :
    (i.without dropped).pools.Sorted := by
  unfold without
  dsimp only
  generalize i.pools = p at h
  induction dropped generalizing p with
  | nil => exact h
  | cons e dropped ih => exact ih _ (Pools.sorted_erase h e.1)

/-- Classes that the schedule does not need are left without resources. -/
theorem resourcesOf_without_stale (i : Inventory) (s : Schedule) (c : StorageClass) :
    (i.without (i.stale s)).pools.resourcesOf c =
      if s.peak c = 0 then [] else i.pools.resourcesOf c := by
  rw [resourcesOf_without]
  by_cases hpeak : s.peak c = 0
  · rw [if_pos hpeak, ite_eq_left_iff]
    intro hstale
    apply Pools.resourcesOf_eq_nil
    intro e he hclass
    apply hstale
    rw [← hclass]
    apply List.mem_map_of_mem
    unfold stale
    rw [List.mem_filter, hclass, hpeak]
    exact ⟨he, rfl⟩
  · rw [if_neg hpeak, if_neg]
    intro hstale
    obtain ⟨e, he, rfl⟩ := List.mem_map.mp hstale
    exact hpeak (by simpa using (List.mem_filter.mp he).2)

/-- One class after another is resized, up to the first for which the backend does
not go all the way. -/
def resizedAll (i : Inventory) : List (StorageClass × Nat) → Except GraphError Unit × Inventory
  | [] => (.ok (), i)
  | e :: sizes =>
      match i.answer e.1 e.2 with
      | .ok _ => (i.resized e.1 e.2).resizedAll sizes
      | .error error => (.error error, i.resized e.1 e.2)

theorem resizedAll_of_ok {e : StorageClass × Nat} {sizes : List (StorageClass × Nat)}
    (h : i.answer e.1 e.2 = .ok ()) :
    i.resizedAll (e :: sizes) = (i.resized e.1 e.2).resizedAll sizes := by
  simp only [resizedAll, h]

theorem resizedAll_of_error {e : StorageClass × Nat} {sizes : List (StorageClass × Nat)}
    {error : GraphError} (h : i.answer e.1 e.2 = .error error) :
    i.resizedAll (e :: sizes) = (.error error, i.resized e.1 e.2) := by
  simp only [resizedAll, h]

theorem resourcesOf_resizedAll {sizes : List (StorageClass × Nat)} (h : c ∉ sizes.map (·.1)) :
    (i.resizedAll sizes).2.pools.resourcesOf c = i.pools.resourcesOf c := by
  induction sizes generalizing i with
  | nil => rfl
  | cons e sizes ih =>
      rw [List.map_cons, List.mem_cons, not_or] at h
      have hone : (i.resized e.1 e.2).pools.resourcesOf c = i.pools.resourcesOf c := by
        rw [resourcesOf_resized, if_neg h.1]
      cases hanswer : i.answer e.1 e.2 with
      | ok _ =>
          rw [resizedAll_of_ok hanswer, ih h.2, hone]
      | error error =>
          rw [resizedAll_of_error hanswer, hone]

/-- Where the backend goes all the way, the listed classes have the listed sizes. -/
theorem length_resizedAll {sizes : List (StorageClass × Nat)} (hsizes : (sizes.map (·.1)).Nodup)
    (h : (i.resizedAll sizes).1 = .ok ()) :
    ∀ e ∈ sizes, ((i.resizedAll sizes).2.pools.resourcesOf e.1).length = e.2 := by
  induction sizes generalizing i with
  | nil => simp
  | cons e sizes ih =>
      obtain ⟨hnew, hrest⟩ := List.nodup_cons.mp hsizes
      cases hanswer : i.answer e.1 e.2 with
      | ok _ =>
          rw [resizedAll_of_ok hanswer] at h ⊢
          refine List.forall_mem_cons.mpr ⟨?_, ih hrest h⟩
          rw [resourcesOf_resizedAll hnew]
          exact length_resized hanswer
      | error error =>
          rw [resizedAll_of_error hanswer] at h
          cases h

/-- Only the backend stops it, for want of capacity for one of the classes. -/
theorem refusal_of_resizedAll {sizes : List (StorageClass × Nat)} {error : GraphError}
    (h : (i.resizedAll sizes).1 = .error error) : ∃ k, i.backend.capacity = some k ∧
      ∃ c ∈ sizes.map (·.1), error = .creationFailed (.capacityExhausted k c) := by
  induction sizes generalizing i with
  | nil => cases h
  | cons e sizes ih =>
      cases hanswer : i.answer e.1 e.2 with
      | ok _ =>
          rw [resizedAll_of_ok hanswer] at h
          obtain ⟨k, hk, c, hc, herror⟩ := ih h
          have hcapacity : (i.resized e.1 e.2).backend.capacity = i.backend.capacity :=
            Backend.capacity_strikeAll _ _
          exact ⟨k, hcapacity.symm.trans hk, c, List.mem_cons_of_mem _ hc, herror⟩
      | error refused =>
          rw [resizedAll_of_error hanswer] at h
          cases h
          obtain ⟨k, hk, herror⟩ := Backend.refusal_of_answer hanswer
          have hcapacity := Backend.capacity_strikeAll i.backend (i.surplusOf e.1 e.2)
          exact ⟨k, hcapacity.symm.trans hk, e.1, List.mem_cons_self, herror⟩

def changesAll (i : Inventory) : List (StorageClass × Nat) → List Event
  | [] => []
  | e :: sizes =>
      match i.answer e.1 e.2 with
      | .ok _ => i.changes e.1 e.2 ++ (i.resized e.1 e.2).changesAll sizes
      | .error _ => i.changes e.1 e.2

theorem changesAll_of_ok {e : StorageClass × Nat} {sizes : List (StorageClass × Nat)}
    (h : i.answer e.1 e.2 = .ok ()) :
    i.changesAll (e :: sizes) = i.changes e.1 e.2 ++ (i.resized e.1 e.2).changesAll sizes := by
  simp only [changesAll, h]

theorem changesAll_of_error {e : StorageClass × Nat} {sizes : List (StorageClass × Nat)}
    {error : GraphError} (h : i.answer e.1 e.2 = .error error) :
    i.changesAll (e :: sizes) = i.changes e.1 e.2 := by
  simp only [changesAll, h]

theorem resizeAll_run (i : Inventory) (sizes : List (StorageClass × Nat)) :
    (resizeAll sizes).Ends i fun result j es =>
      (result.map (fun _ => ()), j) = i.resizedAll sizes ∧ loud es = i.changesAll sizes := by
  induction sizes generalizing i with
  | nil => exact ⟨rfl, rfl⟩
  | cons e sizes ih =>
      unfold resizeAll
      apply (resize_run i e.1 e.2).bind
      · rintro _ _ es ⟨hresult, rfl, hes⟩
        cases hanswer : i.answer e.1 e.2 with
        | error error =>
            rw [hanswer] at hresult
            cases hresult
        | ok _ =>
            rw [resizedAll_of_ok hanswer, changesAll_of_ok hanswer, Act.ends_bind_pure]
            apply (ih _).mono
            rintro result j es' ⟨hrest, hes'⟩
            rw [← hrest, Event.loud_append, hes, hes']
            cases result <;> exact ⟨rfl, rfl⟩
      · rintro error _ es ⟨hresult, rfl, hes⟩
        cases hanswer : i.answer e.1 e.2 with
        | error refused =>
            rw [hanswer] at hresult
            cases hresult
            rw [resizedAll_of_error hanswer, changesAll_of_error hanswer]
            exact ⟨rfl, hes⟩
        | ok _ =>
            rw [hanswer] at hresult
            cases hresult

/-- A reconciliation drops what is stale and resizes the classes of the schedule;
if this succeeds it forgets the pools that are empty. -/
theorem reconcile_run (i : Inventory) (s : Schedule) :
    (reconcile s).Ends i fun result j es =>
      result = ((i.without (i.stale s)).resizedAll s.peaks).1 ∧
      (match result with
      | .ok _ => j = { ((i.without (i.stale s)).resizedAll s.peaks).2 with
          pools := ((i.without (i.stale s)).resizedAll s.peaks).2.pools.compact }
      | .error _ => j = ((i.without (i.stale s)).resizedAll s.peaks).2) ∧
      loud es = i.backend.farewells ((i.stale s).flatMap (·.2.reverse)) ++
        (i.without (i.stale s)).changesAll s.peaks := by
  unfold reconcile
  rw [Act.ends_get_bind]
  apply (dropPools_run i _).bind_of_ok
  rintro _ es ⟨rfl, hes⟩
  apply (resizeAll_run _ s.peaks).bind
  · rintro counts sized es' ⟨hsized, hes'⟩
    rw [Act.ends_modify_bind, Act.ends_get_bind, Act.ends_emit, ← hsized]
    refine ⟨rfl, rfl, ?_⟩
    rw [Event.loud_append, Event.loud_append, hes, hes']
    exact congrArg _ (List.append_nil _)
  · rintro error sized es' ⟨hsized, hes'⟩
    rw [← hsized, Event.loud_append, hes, hes']
    exact ⟨rfl, rfl, rfl⟩

/-- A reconciliation fails only for want of capacity, for a class of the schedule. -/
theorem reconcile_refusal (i : Inventory) (s : Schedule) :
    (reconcile s).Ends i fun result _ _ => ∀ error, result = .error error →
      ∃ k, i.backend.capacity = some k ∧
        ∃ c ∈ s.peaks.map (·.1), error = .creationFailed (.capacityExhausted k c) := by
  apply (reconcile_run i s).mono
  rintro result j es ⟨hresult, -⟩ error herror
  obtain ⟨k, hk, hrefusal⟩ := refusal_of_resizedAll (hresult.symm.trans herror)
  exact ⟨k, (Backend.capacity_strikeAll _ _).symm.trans hk, hrefusal⟩

theorem dispose_run (i : Inventory) :
    dispose.Ends i fun result j es => result = .ok () ∧
      j = { i with
        backend := i.backend.strikeAll (i.pools.entries.flatMap (·.2.reverse))
        pools := {} } ∧
      loud es = i.backend.farewells (i.pools.entries.flatMap (·.2.reverse)) := by
  unfold dispose onBackend
  rw [Act.ends_get_bind, Act.ends_modify_bind, Act.ends_on]
  apply (Backend.destroyAll_run i.backend _).mono
  rintro result _ es ⟨hresult, rfl, hes⟩
  exact ⟨hresult, rfl, hes⟩

end Inventory
end FrameGraph
