import FrameGraph.Proofs.RendererHistories

/-!
# What a setup promises

A setup compiles, dismisses the operators, reconciles the inventory, and builds
and installs other operators. Compiling, reconciling and building may fail, and a
failure keeps what has been done before it. `History.Contract` says how a setup
ends in any state that a renderer gets into: a description that does not compile
leaves everything as it was; a refused resource leaves no schedule and no
operators, and no resource is lost; and there is no third way to fail, since the
resources of a reconciled inventory suffice for every operator of the schedule.
-/
namespace FrameGraph

variable {d : Description} {required : List Nat} {s : Schedule} {others : List Nat}

/-- An inventory reconciled with a schedule has what its operators are built with. -/
theorem Inventory.instantiates {i : Inventory} {config : Config} (h : i.Booked others)
    (hcompile : compile d required config = .ok s)
    (hreconciled : ((reconcile s).run i).result = .ok ()) :
    ∃ os, ((instantiate d s).run ((reconcile s).run i).state).result = .ok os := by
  obtain ⟨passes, selected, last, hs⟩ := compilation_of_compile hcompile
  obtain ⟨hconserves, hbacks⟩ := reconcile_ends h hs.peaks_nodup
  have hhouses := hconserves.booked.houses (hbacks hreconciled) hs
  obtain ⟨-, -, -, os, hos, -⟩ :=
    buildAll_ends (fun p hp => hs.exists_carriesOut hp) hhouses.total
  exact ⟨os, hos⟩

namespace Renderer

variable {r : Renderer} {e : GraphError}

theorem setup_rejected (hcompile : compile d required r.config = .error e) :
    (Renderer.setup d required).Ends r fun result r' es =>
      result = .error e ∧ r' = r ∧ es = compileEvents d required r.config := by
  unfold Renderer.setup
  rw [Act.ends_get_bind, Act.ends_emitAll_bind, hcompile, Act.ends_ofExcept_error_bind]
  exact ⟨rfl, rfl, List.append_nil _⟩

def vacated (r : Renderer) : Renderer :=
  { r with crew := { r.crew with operators := [] }, schedule := none }

theorem setup_compiled (h : r.inventory.Booked others)
    (hcompile : compile d required r.config = .ok s) :
    (Renderer.setup d required).Ends r fun result r' es =>
      result = ((Inventory.reconcile s).run r.inventory).result ∧
      r'.config = r.config ∧ r'.crew.frames = r.crew.frames ∧
      match result with
      | .ok _ => r'.schedule = some s
      | .error _ => r'.schedule = none ∧ r'.crew.operators = [] ∧
          r'.inventory.builtCount = r.inventory.builtCount ∧
          Event.calls es = Call.sweep .retired r.crew.operators := by
  have hretire : (onCrew Crew.retire).Ends r fun result r' es => result = .ok () ∧
      r' = { r with crew := { r.crew with operators := [] } } ∧
      Event.calls es = Call.sweep .retired r.crew.operators :=
    ⟨rfl, rfl, (Crew.retire_calls r.crew).2.2⟩
  unfold Renderer.setup
  rw [Act.ends_get_bind, Act.ends_emitAll_bind, hcompile, Act.ends_ofExcept_ok_bind]
  apply hretire.bind_of_ok
  rintro _ es₁ ⟨rfl, hretired⟩
  rw [Act.ends_modify_bind]
  have hreconcile : (onInventory (Inventory.reconcile s)).Ends
      r.vacated fun result r' es => result = ((Inventory.reconcile s).run r.inventory).result ∧
        r' = { r.vacated with inventory := ((Inventory.reconcile s).run r.inventory).state } ∧
        r'.inventory.builtCount = r.inventory.builtCount ∧ Event.calls es = [] :=
    ⟨rfl, rfl, Inventory.reconcile_unmanned s r.inventory⟩
  apply hreconcile.bind
  · rintro ⟨⟩ _ es₂ ⟨hresult, rfl, -⟩
    obtain ⟨os, hos⟩ := Inventory.instantiates h hcompile hresult.symm
    have hinstantiate : (onInventory (Inventory.instantiate d s)).Ends
        { r.vacated with inventory := ((Inventory.reconcile s).run r.inventory).state }
        fun result r' _ =>
          result = .ok os ∧ r'.config = r.config ∧ r'.crew.frames = r.crew.frames :=
      ⟨hos, rfl, rfl⟩
    apply hinstantiate.bind
    · rintro built r' es₃ ⟨-, hconfig, hframes⟩
      have hinstall : (onCrew (Crew.install built)).Ends r' fun result r'' _ =>
          result = .ok () ∧ r''.config = r'.config ∧ r''.crew.frames = r'.crew.frames :=
        ⟨rfl, rfl, rfl⟩
      apply hinstall.bind_of_ok
      rintro r'' es₄ ⟨hconfig', hframes'⟩
      rw [Act.ends_modify]
      exact ⟨hresult, hconfig'.trans hconfig, hframes'.trans hframes, rfl⟩
    · rintro error r' es₃ ⟨hfailed, -⟩
      cases hfailed
  · rintro error _ es₂ ⟨hresult, rfl, hcount, hcalls⟩
    refine ⟨hresult, rfl, rfl, rfl, rfl, hcount, ?_⟩
    rw [Event.calls_append, Event.calls_append, calls_compileEvents, hretired, hcalls,
      List.append_nil, List.nil_append]

end Renderer

namespace History

variable {h : History} {e : GraphError}

def setup (h : History) (d : Description) (required : List Nat) : History :=
  h.step (.setup d required)

def answer (h : History) (d : Description) (required : List Nat) : Except GraphError Unit :=
  ((Renderer.setup d required).run h.session.renderer).result

/-- The description does not compile. The renderer with its backend is as it was,
and nothing is seen but the compilation. -/
structure Rejected (h : History) (d : Description) (required : List Nat) (e : GraphError) :
    Prop where
  compiled : compile d required h.session.renderer.config = .error e
  answered : h.answer d required = .error e
  unchanged : (h.setup d required).session = h.session
  planning : ∀ event ∈ h.session.seen (.setup d required), event.isPlanning = true

/-- The description compiles, and the backend refuses a resource. The operators
have been retired, each of them once, and no other is built; the resources that
were created and never destroyed are those in the pools and those that were
created directly. -/
structure Starved (h : History) (d : Description) (required : List Nat) (s : Schedule)
    (e : GraphError) : Prop where
  compiled : compile d required h.session.renderer.config = .ok s
  refused : ∃ k, h.inventory.backend.capacity = some k ∧
    ∃ c ∈ s.peaks.map (·.1), e = .creationFailed (.capacityExhausted k c)
  answered : h.answer d required = .error e
  unscheduled : (h.setup d required).session.renderer.schedule = none
  dismissed : (h.setup d required).session.renderer.crew.operators = []
  distinct : h.session.renderer.serials.Nodup
  retired : Event.calls (h.session.seen (.setup d required)) =
    Call.sweep .retired h.session.renderer.crew.operators
  unbuilt : (h.setup d required).inventory.builtCount = h.inventory.builtCount
  ended : ∀ o ∈ h.session.renderer.crew.operators,
    ∃ n, Call.stages o.serial (Event.calls (h.setup d required).events) =
      Stage.career n ++ [.retired]
  owned : ∀ resource, resource ∈ Event.createdIn (h.setup d required).events ∧
      resource ∉ Event.destroyedIn (h.setup d required).events ↔
    resource ∈ (h.setup d required).inventory.pools.resources ∨
      resource ∈ (h.setup d required).foreign

/-- The setup succeeds: the schedule of the description is in force. -/
structure Installed (h : History) (d : Description) (required : List Nat) (s : Schedule) :
    Prop where
  compiled : compile d required h.session.renderer.config = .ok s
  answered : h.answer d required = .ok ()
  scheduled : (h.setup d required).session.renderer.schedule = some s
  named : (h.setup d required).session.renderer.crew.names = s.operationNames

/-- A setup is rejected by the compilation, starved by the backend, or it succeeds;
it never changes the configuration or the number of frames. Building operators
for the schedule just compiled does not fail once the inventory is reconciled. -/
structure Contract (h : History) (d : Description) (required : List Nat) : Prop where
  outcome : (∃ e, h.Rejected d required e) ∨ (∃ s e, h.Starved d required s e) ∨
    ∃ s, h.Installed d required s
  config : (h.setup d required).session.renderer.config = h.session.renderer.config
  frames : (h.setup d required).session.renderer.crew.frames = h.session.renderer.crew.frames
  instantiates : ∀ s, compile d required h.session.renderer.config = .ok s →
    ((Inventory.reconcile s).run h.inventory).result = .ok () →
    ∃ os, ((Inventory.instantiate d s).run
      ((Inventory.reconcile s).run h.inventory).state).result = .ok os

theorem rejected_of_compile (hcompile : compile d required h.session.renderer.config = .error e) :
    h.Rejected d required e := by
  obtain ⟨hresult, hstate, hevents⟩ := Renderer.setup_rejected hcompile
  constructor
  · exact hcompile
  · exact hresult
  · unfold History.setup History.step Session.step
    dsimp only
    rw [hresult, hstate]
  · unfold Session.seen
    dsimp only
    rw [hevents]
    exact compileEvents_planning d required _

theorem Staffed.starved (hs : h.Staffed) (hsound : h.Sound)
    (hcompile : compile d required h.session.renderer.config = .ok s)
    (hreconcile : ((Inventory.reconcile s).run h.inventory).result = .error e) :
    h.Starved d required s e := by
  have hends := Renderer.setup_compiled hsound.booked hcompile
  have hanswered : h.answer d required = .error e := hends.1.trans hreconcile
  have hrenderer := h.session.step_setup d required
  unfold Act.Ends at hends
  unfold answer at hanswered
  rw [hanswered, ← hrenderer] at hends
  obtain ⟨-, -, -, hunscheduled, hdismissed, hcount, hretired⟩ := hends
  have hstaffed := (hs.step hsound (.setup d required)).staffed
  constructor
  · exact hcompile
  · exact Inventory.reconcile_refusal h.inventory s e hreconcile
  · exact hanswered
  · exact hunscheduled
  · exact hdismissed
  · exact hs.staffed.nodup
  · exact hretired
  · exact hcount
  · intro o ho
    apply hstaffed.retired
    · exact Nat.lt_of_lt_of_eq (hs.staffed.numbered _ (List.mem_map_of_mem ho)) hcount.symm
    · intro hserving
      obtain ⟨o', ho', -⟩ := List.mem_map.mp hserving
      exact List.not_mem_nil (hdismissed ▸ ho')
  · intro resource
    rw [← List.mem_append]
    exact (hsound.step (.setup d required)).accounts.mem_iff_of_start.symm

theorem Sound.installed (hsound : h.Sound) (hready : h.session.Sound)
    (hcompile : compile d required h.session.renderer.config = .ok s)
    (hreconcile : ((Inventory.reconcile s).run h.inventory).result = .ok ()) :
    h.Installed d required s := by
  have hends := Renderer.setup_compiled hsound.booked hcompile
  have hanswered : h.answer d required = .ok () := hends.1.trans hreconcile
  have hrenderer := h.session.step_setup d required
  unfold Act.Ends at hends
  unfold answer at hanswered
  rw [hanswered, ← hrenderer] at hends
  obtain ⟨-, -, -, hscheduled⟩ := hends
  obtain ⟨setup, -, hstaffed⟩ := (Session.step_sound hready (.setup d required)).ready s hscheduled
  constructor
  · exact hcompile
  · exact hanswered
  · exact hscheduled
  · exact Operator.names_eq hstaffed.staffed

theorem Staffed.contract (hs : h.Staffed) (hsound : h.Sound) (hready : h.session.Sound)
    (d : Description) (required : List Nat) : h.Contract d required := by
  have hrenderer := h.session.step_setup d required
  cases hcompile : compile d required h.session.renderer.config with
  | error e =>
      have hrejected := rejected_of_compile hcompile
      constructor
      · exact .inl ⟨e, hrejected⟩
      · rw [hrejected.unchanged]
      · rw [hrejected.unchanged]
      · intro s hs'
        cases hcompile.symm.trans hs'
  | ok s =>
      obtain ⟨-, hconfig, hframes, -⟩ := Renderer.setup_compiled hsound.booked hcompile
      rw [← hrenderer] at hconfig hframes
      constructor
      · cases hreconcile : ((Inventory.reconcile s).run h.inventory).result with
        | error e => exact .inr (.inl ⟨s, e, hs.starved hsound hcompile hreconcile⟩)
        | ok _ => exact .inr (.inr ⟨s, hsound.installed hready hcompile hreconcile⟩)
      · exact hconfig
      · exact hframes
      · intro s' hs'
        exact Inventory.instantiates hsound.booked hs'

end History

/-- Whatever was done with a renderer before, a setup keeps its contract. -/
theorem setup_contract (config : Config) (commands : List Command) (d : Description)
    (required : List Nat) : (History.run config commands).session = Session.run config commands ∧
      (History.run config commands).Contract d required := by
  have hsession := History.session_run config commands
  constructor
  · exact hsession
  · apply (History.run_staffed config commands).contract (History.run_sound config commands)
    rw [hsession]
    exact Session.run_sound config commands

/-- Two textures are needed where there is room for the one of the setup before. -/
example : (History.run {} [.setup tintInPlace [1], .limit 1]).answer tintedCopy [1] =
    .error (.creationFailed (.capacityExhausted 1 (.texture ⟨4, 4⟩ .rgba8Unorm))) := by
  decide +kernel

end FrameGraph
