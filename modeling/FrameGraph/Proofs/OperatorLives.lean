import FrameGraph.Proofs.ResourceHistories
import FrameGraph.Proofs.SlotPeaks

/-!
# The lives of operators

What a renderer does with its operators over any sequence of commands. An event
that concerns an operator is a `Call`: the operator's number and the stage it
goes through. A command does one of three things to the operators, which
`Renderer.Turn` lists: it leaves them alone, it runs one frame, or it dismisses
all of them and employs others with the next numbers.

From this every operator has one life. It is built, takes part in some number of
frames and is retired, and nothing is done with it before or after.
-/
namespace FrameGraph

/-- What is done with an operator. -/
inductive Stage where
  | built
  | prepared
  | performed
  | finalized
  | retired
deriving DecidableEq, Repr

/-- An operator, by its number, and what is done with it. -/
structure Call where
  serial : Nat
  stage : Stage
deriving DecidableEq, Repr

/-- The stages of an operator that is employed and has taken part in some frames. -/
def Stage.career (frames : Nat) : List Stage :=
  .built :: (List.replicate frames [.prepared, .performed, .finalized]).flatten

theorem Stage.career_succ (frames : Nat) :
    career (frames + 1) = career frames ++ [.prepared, .performed, .finalized] := by
  simp [career, List.replicate_succ', List.flatten_append]

namespace Event

def call? : Event → Option Call
  | .built serial .. => some ⟨serial, .built⟩
  | .prepared serial _ => some ⟨serial, .prepared⟩
  | .performed serial .. => some ⟨serial, .performed⟩
  | .finalized serial _ => some ⟨serial, .finalized⟩
  | .retired serial _ => some ⟨serial, .retired⟩
  | _ => none

theorem call?_of_isPlanning {e : Event} (h : e.isPlanning = true) : e.call? = none := by
  cases e <;> first | rfl | cases h

/-- The calls of operators, in their order. -/
def calls (es : List Event) : List Call := es.filterMap call?

theorem calls_append (es es' : List Event) : calls (es ++ es') = calls es ++ calls es' :=
  List.filterMap_append

theorem calls_eq_nil {es : List Event} (h : ∀ e ∈ es, e.call? = none) : calls es = [] :=
  List.filterMap_eq_nil_iff.mpr h

end Event

namespace Call

/-- What is done with one operator. -/
def stages (k : Nat) (cs : List Call) : List Stage := (cs.filter (·.serial = k)).map (·.stage)

theorem stages_append (k : Nat) (cs cs' : List Call) :
    stages k (cs ++ cs') = stages k cs ++ stages k cs' := by
  simp [stages]

/-- The same is done with all operators of a list. -/
def sweep (stage : Stage) (os : List Operator) : List Call := os.map fun o => ⟨o.serial, stage⟩

theorem stages_sweep {os : List Operator} (h : (os.map (·.serial)).Nodup) (stage : Stage)
    (k : Nat) : stages k (sweep stage os) = if k ∈ os.map (·.serial) then [stage] else [] := by
  induction os with
  | nil => rfl
  | cons o os ih =>
      have hsplit := List.nodup_cons.mp h
      have htail := ih hsplit.2
      unfold stages sweep at htail ⊢
      by_cases hk : o.serial = k
      · subst hk
        rw [if_neg hsplit.1] at htail
        simp [htail]
      · simp [hk, Ne.symm hk, htail]

/-- All operators of a list prepare, then all perform, then all finalize. -/
def frame (os : List Operator) : List Call :=
  sweep .prepared os ++ (sweep .performed os ++ sweep .finalized os)

end Call

/-- The act calls no operator and builds none. -/
def Act.Unmanned {σ α : Type} (built : σ → Nat) (a : Act σ α) : Prop :=
  ∀ s, a.Ends s fun _ t es => built t = built s ∧ Event.calls es = []

namespace Act.Unmanned

variable {σ α β : Type} {built : σ → Nat}

theorem of_pure (v : α) : Unmanned built (pure v) := fun _ => ⟨rfl, rfl⟩

theorem of_get : Unmanned built get := fun _ => ⟨rfl, rfl⟩

theorem of_emit {e : Event} (h : e.call? = none) : Unmanned built (emit e) :=
  fun _ => ⟨rfl, Event.calls_eq_nil (List.forall_mem_singleton.mpr h)⟩

theorem of_fail (e : GraphError) : Unmanned built (fail e : Act σ α) := fun _ => ⟨rfl, rfl⟩

theorem of_modify {f : σ → σ} (h : ∀ s, built (f s) = built s) : Unmanned built (modify f) :=
  fun s => ⟨h s, rfl⟩

theorem bind {a : Act σ α} {next : α → Act σ β} (ha : Unmanned built a)
    (hnext : ∀ v, Unmanned built (next v)) : Unmanned built (a >>= next) := by
  intro s
  apply (ha s).bind
  · intro v t es ht
    apply (hnext v t).mono
    intro _ u es' hu
    rw [Event.calls_append, ht.2, hu.2]
    exact ⟨hu.1.trans ht.1, rfl⟩
  · exact fun _ _ _ ht => ht

end Act.Unmanned

namespace Backend
open Act

theorem create_unmanned (c : StorageClass) : Unmanned (fun _ => 0) (create c) := by
  unfold create
  refine .bind .of_get fun b => ?_
  split
  · exact .bind (.of_emit rfl) fun _ => .of_fail _
  · refine .bind (.of_modify fun _ => rfl) fun _ => ?_
    exact .bind (.of_emit rfl) fun _ => .of_pure _

theorem destroy_unmanned (resource : Nat) : Unmanned (fun _ => 0) (destroy resource) := by
  unfold destroy
  refine .bind .of_get fun b => ?_
  split
  · exact .bind (.of_modify fun _ => rfl) fun _ => .of_emit rfl
  · exact .of_emit rfl

theorem destroyAll_unmanned (resources : List Nat) :
    Unmanned (fun _ => 0) (destroyAll resources) := by
  induction resources with
  | nil => exact .of_pure ()
  | cons resource rest ih => exact .bind (destroy_unmanned resource) fun _ => ih

end Backend

namespace Inventory
open Act

variable {c : StorageClass}

theorem onBackend_unmanned {α : Type} {a : Act Backend α} (h : Unmanned (fun _ => 0) a) :
    Unmanned builtCount (onBackend a) := fun i => ⟨rfl, (h i.backend).2⟩

theorem dropPools_unmanned (dropped : List (StorageClass × List Nat)) :
    Unmanned builtCount (dropPools dropped) := by
  induction dropped with
  | nil => exact .of_pure ()
  | cons e dropped ih =>
      unfold dropPools dropPool
      refine .bind (.bind (.of_emit rfl) fun _ => ?_) fun _ => ih
      exact .bind (.of_modify fun _ => rfl) fun _ =>
        onBackend_unmanned (Backend.destroyAll_unmanned _)

theorem setPool_unmanned (resources : List Nat) : Unmanned builtCount (setPool c resources) :=
  .of_modify fun _ => rfl

theorem popSurplus_unmanned (needed : Nat) (stack : List Nat) :
    Unmanned builtCount (popSurplus c needed stack) := by
  induction stack with
  | nil => exact .of_pure 0
  | cons last others ih =>
      unfold popSurplus
      split
      · refine .bind (setPool_unmanned _) fun _ => ?_
        refine .bind (.of_emit rfl) fun _ => ?_
        refine .bind (onBackend_unmanned (Backend.destroy_unmanned last)) fun _ => ?_
        exact .bind ih fun _ => .of_pure _
      · exact .of_pure 0

theorem pushMissing_unmanned (needed rounds : Nat) :
    Unmanned builtCount (pushMissing c needed rounds) := by
  induction rounds with
  | zero => exact .of_pure 0
  | succ rounds ih =>
      unfold pushMissing
      refine .bind .of_get fun i => ?_
      split
      · refine .bind (onBackend_unmanned (Backend.create_unmanned c)) fun resource => ?_
        refine .bind (.of_emit rfl) fun _ => ?_
        refine .bind (setPool_unmanned _) fun _ => ?_
        exact .bind ih fun _ => .of_pure _
      · exact .of_pure 0

theorem resize_unmanned (needed : Nat) : Unmanned builtCount (resize c needed) := by
  unfold resize
  refine .bind .of_get fun i => ?_
  refine .bind (setPool_unmanned _) fun _ => ?_
  refine .bind (popSurplus_unmanned _ _) fun _ => ?_
  exact .bind (pushMissing_unmanned _ _) fun _ => .of_pure _

theorem resizeAll_unmanned (sizes : List (StorageClass × Nat)) :
    Unmanned builtCount (resizeAll sizes) := by
  induction sizes with
  | nil => exact .of_pure (0, 0)
  | cons e sizes ih =>
      unfold resizeAll
      exact .bind (resize_unmanned _) fun _ => .bind ih fun _ => .of_pure _

theorem reconcile_unmanned (s : Schedule) : Unmanned builtCount (reconcile s) := by
  unfold reconcile
  refine .bind .of_get fun i => ?_
  refine .bind (dropPools_unmanned _) fun _ => ?_
  refine .bind (resizeAll_unmanned _) fun _ => ?_
  refine .bind (.of_modify fun _ => rfl) fun _ => ?_
  exact .bind .of_get fun _ => .of_emit rfl

theorem dispose_unmanned : Unmanned builtCount dispose := by
  unfold dispose
  refine .bind .of_get fun i => ?_
  refine .bind (.of_modify fun _ => rfl) fun _ => ?_
  exact onBackend_unmanned (Backend.destroyAll_unmanned _)

/-- The operators built have the next numbers, in their order. -/
theorem buildAll_calls (i : Inventory) (d : Description) (s : Schedule) (phases : List Phase) :
    (buildAll d s phases).Ends i fun result j es => j.pools = i.pools ∧ ∀ os, result = .ok os →
      Event.calls es = Call.sweep .built os ∧
        os.map (·.serial) = List.range' i.builtCount os.length ∧
        j.builtCount = i.builtCount + os.length := by
  induction phases generalizing i with
  | nil =>
      refine ⟨rfl, fun os hos => ?_⟩
      cases hos
      exact ⟨rfl, rfl, rfl⟩
  | cons p phases ih =>
      have hbuild : (build d s p).Ends i fun result j es => j.pools = i.pools ∧
          ∀ o, result = .ok o → Event.calls es = [⟨o.serial, .built⟩] ∧ o.serial = i.builtCount ∧
            j.builtCount = i.builtCount + 1 := by
        unfold build
        rw [Act.ends_get_bind]
        dsimp only
        cases i.resolvePorts s (d.operations.getD p.operation { name := p.name }) p with
        | error e =>
            rw [Act.ends_ofExcept_error_bind]
            exact ⟨rfl, fun o ho => by cases ho⟩
        | ok ports =>
            rw [Act.ends_ofExcept_ok_bind, Act.ends_modify_bind, Act.ends_emit_bind, Act.ends_pure]
            refine ⟨rfl, fun o ho => ?_⟩
            cases ho
            exact ⟨rfl, rfl, rfl⟩
      unfold buildAll
      apply hbuild.bind
      · intro o j es hj
        obtain ⟨hcalls, hserial, hcount⟩ := hj.2 o rfl
        apply (ih j).bind
        · intro os l es' hl
          obtain ⟨hcalls', hserials, hcount'⟩ := hl.2 os rfl
          rw [Act.ends_pure]
          refine ⟨hl.1.trans hj.1, fun os' hos' => ?_⟩
          cases hos'
          rw [List.append_nil, Event.calls_append, hcalls, hcalls', List.map_cons, hserials,
            hcount', hcount, hserial, List.length_cons, List.range'_succ]
          refine ⟨?_, rfl, ?_⟩
          · rw [← hserial]
            rfl
          · omega
        · exact fun e l es' hl => ⟨hl.1.trans hj.1, fun os hos => by cases hos⟩
      · exact fun e j es hj => ⟨hj.1, fun os hos => by cases hos⟩

end Inventory

namespace Crew

theorem calls_map {event : Operator → Event} {stage : Stage}
    (h : ∀ o, (event o).call? = some ⟨o.serial, stage⟩) (os : List Operator) :
    Event.calls (os.map event) = Call.sweep stage os := by
  unfold Event.calls Call.sweep
  rw [List.filterMap_map, ← List.filterMap_eq_map]
  exact List.filterMap_congr fun o _ => h o

theorem calls_performances (m : Memory Nat) (os : List Operator) :
    Event.calls (performances m os) = Call.sweep .performed os := by
  induction os generalizing m with
  | nil => rfl
  | cons o os ih => exact congrArg (⟨o.serial, .performed⟩ :: ·) (ih (o.apply m))

theorem retire_calls (c : Crew) : retire.Ends c fun result c' es => result = .ok () ∧
    c'.operators = [] ∧ Event.calls es = Call.sweep .retired c.operators := by
  unfold retire
  rw [Act.ends_get_bind, Act.ends_emitAll_bind, Act.ends_modify, List.append_nil]
  exact ⟨rfl, rfl, calls_map (fun _ => rfl) _⟩

/-- New operators do not relieve anybody when the others have been dismissed before. -/
theorem install_calls {c : Crew} (h : c.operators = []) (os : List Operator) :
    (install os).Ends c fun result c' es => result = .ok () ∧
      c'.operators = os ∧ Event.calls es = [] := by
  unfold install
  apply (retire_calls c).bind_of_ok
  intro c' es hc'
  rw [Act.ends_emit_bind, Act.ends_modify, Event.calls_append, hc'.2, h]
  exact ⟨rfl, rfl, rfl⟩

/-- One frame: all prepare, all perform, all finalize. -/
theorem execute_calls (c : Crew) : execute.Ends c fun result c' es => result = .ok () ∧
    c'.operators = c.operators ∧ c'.frames = c.frames + 1 ∧
    Event.calls es = Call.frame c.operators := by
  unfold Act.Ends
  rw [run_execute]
  refine ⟨rfl, rfl, rfl, ?_⟩
  change Event.calls (_ ++ (_ ++ _)) = _
  rw [Event.calls_append, Event.calls_append, calls_map fun _ => rfl, calls_performances,
    calls_map fun _ => rfl]
  rfl

end Crew

namespace Renderer

variable {r r' : Renderer} {others : List Nat}

def serials (r : Renderer) : List Nat := r.crew.operators.map (·.serial)

/-- What a command does to the operators. -/
inductive Turn (r r' : Renderer) : List Call → Prop
  | idle : r'.crew.operators = r.crew.operators →
      r'.inventory.builtCount = r.inventory.builtCount → Turn r r' []
  | frame : r'.crew.operators = r.crew.operators →
      r'.inventory.builtCount = r.inventory.builtCount → Turn r r' (Call.frame r.crew.operators)
  | relieved : r'.serials = List.range' r.inventory.builtCount r'.crew.operators.length →
      r'.inventory.builtCount = r.inventory.builtCount + r'.crew.operators.length →
      Turn r r' (Call.sweep .retired r.crew.operators ++ Call.sweep .built r'.crew.operators)

/-- Operators are dismissed and none is employed. -/
theorem Turn.dismissed (hoperators : r'.crew.operators = [])
    (hcount : r'.inventory.builtCount = r.inventory.builtCount) :
    Turn r r' (Call.sweep .retired r.crew.operators) := by
  have hturn : Turn r r' (Call.sweep .retired r.crew.operators ++
      Call.sweep .built r'.crew.operators) := by
    apply Turn.relieved
    · simp [serials, hoperators]
    · simp [hoperators, hcount]
  rw [hoperators] at hturn
  simpa [Call.sweep] using hturn

theorem retire_calls (r : Renderer) : (onCrew Crew.retire).Ends r fun result r' es =>
    result = .ok () ∧ r'.inventory = r.inventory ∧ r'.crew.operators = [] ∧
      Event.calls es = Call.sweep .retired r.crew.operators := by
  unfold onCrew
  rw [Act.ends_on]
  apply (Crew.retire_calls r.crew).mono
  intro result c es hc
  exact ⟨hc.1, rfl, hc.2⟩

theorem install_calls (h : r.crew.operators = []) (os : List Operator) :
    (onCrew (Crew.install os)).Ends r fun result r' es =>
      result = .ok () ∧ r'.inventory = r.inventory ∧ r'.crew.operators = os ∧
        Event.calls es = [] := by
  unfold onCrew
  rw [Act.ends_on]
  apply (Crew.install_calls h os).mono
  intro result c es hc
  exact ⟨hc.1, rfl, hc.2⟩

theorem onInventory_unmanned {α : Type} {a : Act Inventory α}
    (h : Act.Unmanned Inventory.builtCount a) (r : Renderer) :
    (onInventory a).Ends r fun _ r' es => r'.crew = r.crew ∧
      r'.inventory.builtCount = r.inventory.builtCount ∧ Event.calls es = [] :=
  ⟨rfl, h r.inventory⟩

theorem instantiate_calls (r : Renderer) (d : Description) (s : Schedule) :
    (onInventory (Inventory.instantiate d s)).Ends r fun result r' es => r'.crew = r.crew ∧
      r'.inventory.pools = r.inventory.pools ∧
      ∀ os, result = .ok os → Event.calls es = Call.sweep .built os ∧
        os.map (·.serial) = List.range' r.inventory.builtCount os.length ∧
        r'.inventory.builtCount = r.inventory.builtCount + os.length :=
  ⟨rfl, Inventory.buildAll_calls r.inventory d s s.phases⟩

/-- The careers of the operators after some calls: one in service is in the
middle of its career, one that has been built and is not in service is retired,
and nothing was done with others. -/
structure Staffed (r : Renderer) (cs : List Call) : Prop where
  nodup : r.serials.Nodup
  numbered : ∀ k ∈ r.serials, k < r.inventory.builtCount
  serving : ∀ k ∈ r.serials, ∃ n, Call.stages k cs = Stage.career n
  retired : ∀ k, k < r.inventory.builtCount → k ∉ r.serials →
    ∃ n, Call.stages k cs = Stage.career n ++ [.retired]
  unborn : ∀ k, r.inventory.builtCount ≤ k → Call.stages k cs = []

theorem staffed_start (config : Config) : Staffed { config := config } [] where
  nodup := .nil
  numbered := by simp [serials]
  serving := by simp [serials]
  retired := by simp
  unborn := fun _ _ => rfl

namespace Staffed

variable {cs cs' : List Call}

theorem idle (h : r.Staffed cs) (hoperators : r'.crew.operators = r.crew.operators)
    (hcount : r'.inventory.builtCount = r.inventory.builtCount) : r'.Staffed cs := by
  have hserials : r'.serials = r.serials := by
    unfold serials
    rw [hoperators]
  constructor
  · rw [hserials]
    exact h.nodup
  · rw [hserials, hcount]
    exact h.numbered
  · rw [hserials]
    exact h.serving
  · rw [hserials, hcount]
    exact h.retired
  · rw [hcount]
    exact h.unborn

/-- Everybody in service takes part in a frame. -/
theorem frame (h : r.Staffed cs) : r.Staffed (cs ++ Call.frame r.crew.operators) := by
  have hframe : ∀ k, Call.stages k (Call.frame r.crew.operators) =
      if k ∈ r.serials then [.prepared, .performed, .finalized] else [] := by
    intro k
    unfold Call.frame
    rw [Call.stages_append, Call.stages_append, Call.stages_sweep h.nodup,
      Call.stages_sweep h.nodup, Call.stages_sweep h.nodup]
    unfold serials
    split <;> rfl
  constructor
  · exact h.nodup
  · exact h.numbered
  · intro k hk
    obtain ⟨n, hn⟩ := h.serving k hk
    use n + 1
    rw [Call.stages_append, hn, hframe, if_pos hk, Stage.career_succ]
  · intro k hlt hk
    obtain ⟨n, hn⟩ := h.retired k hlt hk
    use n
    rw [Call.stages_append, hn, hframe, if_neg hk, List.append_nil]
  · intro k hk
    have hnew : k ∉ r.serials := fun hmem => Nat.not_lt.mpr hk (h.numbered k hmem)
    rw [Call.stages_append, h.unborn k hk, hframe, if_neg hnew]
    rfl

/-- Those in service are retired, and the next ones take their place. -/
theorem relieved (h : r.Staffed cs)
    (hserials : r'.serials = List.range' r.inventory.builtCount r'.crew.operators.length)
    (hcount : r'.inventory.builtCount = r.inventory.builtCount + r'.crew.operators.length) :
    r'.Staffed (cs ++ (Call.sweep .retired r.crew.operators ++
      Call.sweep .built r'.crew.operators)) := by
  have hnodup : r'.serials.Nodup := hserials ▸ List.nodup_range'
  have hnew : ∀ k, k ∈ r'.serials ↔
      r.inventory.builtCount ≤ k ∧ k < r'.inventory.builtCount := by
    intro k
    rw [hserials, hcount]
    exact List.mem_range'_1
  have hcalls : ∀ k, Call.stages k (Call.sweep .retired r.crew.operators ++
      Call.sweep .built r'.crew.operators) =
      (if k ∈ r.serials then [.retired] else []) ++ if k ∈ r'.serials then [.built] else [] := by
    intro k
    rw [Call.stages_append, Call.stages_sweep h.nodup, Call.stages_sweep hnodup]
    rfl
  have hlater : ∀ k, r.inventory.builtCount ≤ k → k ∉ r.serials :=
    fun k hk hmem => Nat.not_lt.mpr hk (h.numbered k hmem)
  constructor
  · exact hnodup
  · exact fun k hk => ((hnew k).mp hk).2
  · intro k hk
    have hge := ((hnew k).mp hk).1
    use 0
    rw [Call.stages_append, h.unborn k hge, hcalls, if_neg (hlater k hge), if_pos hk]
    rfl
  · intro k hlt hk
    have hold : k < r.inventory.builtCount := by
      by_contra hge
      exact hk ((hnew k).mpr ⟨Nat.not_lt.mp hge, hlt⟩)
    rw [Call.stages_append, hcalls, if_neg hk, List.append_nil]
    by_cases hserving : k ∈ r.serials
    · obtain ⟨n, hn⟩ := h.serving k hserving
      use n
      rw [hn, if_pos hserving]
    · obtain ⟨n, hn⟩ := h.retired k hold hserving
      use n
      rw [hn, if_neg hserving, List.append_nil]
  · intro k hk
    have hge : r.inventory.builtCount ≤ k := by omega
    have hout : k ∉ r'.serials := fun hmem => Nat.not_lt.mpr hk ((hnew k).mp hmem).2
    rw [Call.stages_append, h.unborn k hge, hcalls, if_neg (hlater k hge), if_neg hout]
    rfl

/-- Whatever a command does to the operators, their careers go on. -/
theorem turn (h : r.Staffed cs) (hturn : r.Turn r' cs') : r'.Staffed (cs ++ cs') := by
  cases hturn with
  | idle hoperators hcount =>
      rw [List.append_nil]
      exact h.idle hoperators hcount
  | frame hoperators hcount => exact h.frame.idle hoperators hcount
  | relieved hserials hcount => exact h.relieved hserials hcount

/-- When nobody is in service, everybody of whom anything was seen has been built,
has taken part in some frames and has been retired. -/
theorem closed (h : r.Staffed cs) (hempty : r.crew.operators = []) {c : Call} (hc : c ∈ cs) :
    ∃ n, Call.stages c.serial cs = Stage.career n ++ [.retired] := by
  have hbuilt : c.serial < r.inventory.builtCount := by
    by_contra hge
    have hmem : c.stage ∈ Call.stages c.serial cs :=
      List.mem_map_of_mem (List.mem_filter.mpr ⟨hc, by simp⟩)
    rw [h.unborn _ (Nat.not_lt.mp hge)] at hmem
    cases hmem
  exact h.retired _ hbuilt (by simp [serials, hempty])

end Staffed
end Renderer

end FrameGraph
