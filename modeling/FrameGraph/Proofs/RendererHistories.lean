import FrameGraph.Proofs.OperatorLives
import FrameGraph.Proofs.PoolChanges

/-!
# Renderers in a run

A renderer keeps its schedule, its pools and its operators apart, and setups may
fail between the changes of one and the next. `Renderer.Fitted` says in which
way they belong together, and every command keeps it: a schedule in force has
exactly the resources that it needs, and without a schedule there are no
operators.

With the schedule goes the setup it was compiled from, and with the operators go
their careers, so the state of a renderer after any sequence of commands and the
lives of its operators are known.
-/
namespace FrameGraph

theorem Schedule.peak_of_not_mem {s : Schedule} {c : StorageClass} (h : c ∉ s.peaks.map (·.1)) :
    s.peak c = 0 := by
  have hfind : s.peaks.find? (·.1 == c) = none := by
    rw [List.find?_eq_none]
    intro e he heq
    exact h (List.mem_map.mpr ⟨e, he, by simpa using heq⟩)
  simp [peak, hfind]

namespace Inventory

variable {i : Inventory} {others : List Nat} {s : Schedule}

/-- After a reconciliation every class has the resources that the schedule needs,
and no others. -/
theorem reconcile_pools (h : i.Booked others) (hpeaks : (s.peaks.map (·.1)).Nodup) :
    (reconcile s).Ends i fun result j _ => result = .ok () → ∀ c,
      (j.pools.resourcesOf c).length = s.peak c := by
  apply (reconcile_run i s).mono
  rintro _ j es ⟨hsized, hstate, -⟩ rfl c
  have hsorted := ((h.without_stale s).booked.resizedAll s.peaks).booked.sorted
  dsimp only at hstate
  rw [hstate]
  dsimp only
  rw [Pools.resourcesOf_compact hsorted]
  by_cases hc : c ∈ s.peaks.map (·.1)
  · obtain ⟨e, he, rfl⟩ := List.mem_map.mp hc
    rw [length_resizedAll hpeaks hsized.symm e he, Schedule.peak_of_mem hpeaks he]
  · have hzero := Schedule.peak_of_not_mem hc
    rw [resourcesOf_resizedAll hc, resourcesOf_without_stale, if_pos hzero, hzero]
    rfl

end Inventory

namespace Renderer

variable {r r' : Renderer} {others : List Nat} {s : Schedule}

/-- A schedule in force has the resources it needs, and no others; without a
schedule there are no operators. -/
structure Fitted (r : Renderer) : Prop where
  sizes : ∀ s, r.schedule = some s → ∀ c, (r.inventory.pools.resourcesOf c).length = s.peak c
  idle : r.schedule = none → r.crew.operators = []

theorem fitted_start (config : Config) : Fitted { config := config } where
  sizes := by
    intro s hs
    cases hs
  idle := fun _ => rfl

theorem Fitted.congr (h : r.Fitted) (hpools : r'.inventory.pools = r.inventory.pools)
    (hschedule : r'.schedule = r.schedule) (hoperators : r'.crew.operators = r.crew.operators) :
    r'.Fitted where
  sizes := by
    rw [hpools, hschedule]
    exact h.sizes
  idle := by
    rw [hschedule, hoperators]
    exact h.idle

theorem fitted_of_dismissed (hschedule : r.schedule = none) (hoperators : r.crew.operators = []) :
    r.Fitted where
  sizes := by
    intro s hs
    cases hschedule.symm.trans hs
  idle := fun _ => hoperators

theorem calls_compileEvents (d : Description) (required : List Nat) (config : Config) :
    Event.calls (compileEvents d required config) = [] := by
  apply Event.calls_eq_nil
  intro e he
  exact Event.call?_of_isPlanning (compileEvents_planning d required config e he)

theorem reconcile_pools (h : r.inventory.Booked others) (hpeaks : (s.peaks.map (·.1)).Nodup) :
    (onInventory (Inventory.reconcile s)).Ends r fun result r' _ => result = .ok () → ∀ c,
      (r'.inventory.pools.resourcesOf c).length = s.peak c := by
  unfold onInventory
  rw [Act.ends_on]
  exact Inventory.reconcile_pools h hpeaks

/-- Between two setups nobody is employed, so what is done to the operators in the
next one follows their dismissal. -/
theorem Turn.after_retired {r₁ : Renderer} {cs : List Call} (h : r₁.Turn r' cs)
    (hidle : r₁.crew.operators = [])
    (hcount : r₁.inventory.builtCount = r.inventory.builtCount) :
    r.Turn r' (Call.sweep .retired r.crew.operators ++ cs) := by
  cases h with
  | idle hoperators hbuilt =>
      rw [List.append_nil]
      exact .dismissed (hoperators.trans hidle) (hbuilt.trans hcount)
  | frame hoperators hbuilt =>
      have hnone : Call.frame r₁.crew.operators = [] := by rw [hidle]; rfl
      rw [hnone, List.append_nil]
      exact .dismissed (hoperators.trans hidle) (hbuilt.trans hcount)
  | relieved hserials hbuilt =>
      have hnone : Call.sweep .retired r₁.crew.operators = [] := by rw [hidle]; rfl
      rw [hcount] at hserials hbuilt
      rw [hnone, List.nil_append]
      exact .relieved hserials hbuilt

section
variable {d : Description} {required : List Nat} {config : Config}

/-- Operators for a schedule that is backed are built and installed, and the
schedule is put in force. -/
theorem employ_turn (h : r.inventory.Booked others) (hbacks : r.inventory.Backs s)
    (hcompile : compile d required config = .ok s) (hidle : r.crew.operators = [])
    (hsizes : ∀ c, (r.inventory.pools.resourcesOf c).length = s.peak c) :
    Act.Ends (do
      let operators ← onInventory (Inventory.instantiate d s)
      onCrew (Crew.install operators)
      Act.modify fun r => { r with schedule := some s }) r fun _ r' es =>
        r'.Fitted ∧ r.Turn r' (Event.calls es) := by
  have hinstantiate := (instantiate_calls r d s).and (instantiate_ends h hbacks hcompile)
  apply hinstantiate.bind
  · intro os r₁ es₁ hr₁
    obtain ⟨⟨hcrew₁, hpools₁, hbuilt⟩, -⟩ := hr₁
    obtain ⟨hcalls₁, hserials, hcount⟩ := hbuilt os rfl
    have hidle₁ : r₁.crew.operators = [] := by
      rw [hcrew₁]
      exact hidle
    apply (install_calls hidle₁ os).bind_of_ok
    intro r₂ es₂ hr₂
    obtain ⟨hinventory₂, hoperators₂, hcalls₂⟩ := hr₂
    rw [Act.ends_modify]
    simp only [Event.calls_append, hcalls₁, hcalls₂, List.append_nil]
    constructor
    · constructor
      · intro s' hs'
        cases hs'
        dsimp only
        rw [hinventory₂, hpools₁]
        exact hsizes
      · intro hnone
        cases hnone
    · have hnone : Call.sweep .built os = Call.sweep .retired r.crew.operators ++
          Call.sweep .built r₂.crew.operators := by
        rw [hidle, hoperators₂]
        rfl
      rw [hnone]
      rw [← hoperators₂] at hserials
      rw [← hoperators₂, ← hinventory₂] at hcount
      exact .relieved hserials hcount
  · intro e r₁ es₁ hr₁
    obtain ⟨-, -, -, os, hos, -⟩ := hr₁
    cases hos

/-- A renderer without operators gets the resources and the operators of a
schedule, or it is left without both a schedule and operators. -/
theorem refit_turn (h : r.inventory.Booked others)
    (hcompile : compile d required config = .ok s) (hidle : r.crew.operators = [])
    (hschedule : r.schedule = none) :
    Act.Ends (do
      onInventory (Inventory.reconcile s)
      let operators ← onInventory (Inventory.instantiate d s)
      onCrew (Crew.install operators)
      Act.modify fun r => { r with schedule := some s }) r fun _ r' es =>
        r'.Fitted ∧ r.Turn r' (Event.calls es) := by
  obtain ⟨passes, selected, last, hs⟩ := compilation_of_compile hcompile
  have hnone : Call.sweep .retired r.crew.operators = [] := by
    rw [hidle]
    rfl
  have hreconcile := ((onInventory_unmanned (Inventory.reconcile_unmanned s) r).and
    (reconcile_ends h hs.peaks_nodup)).and (reconcile_pools h hs.peaks_nodup)
  apply hreconcile.bind
  · intro _ r₁ es₁ hr₁
    obtain ⟨⟨⟨hcrew, hcount, hcalls⟩, hconserves, -, hbacks⟩, hsizes⟩ := hr₁
    have hidle₁ : r₁.crew.operators = [] := by
      rw [hcrew]
      exact hidle
    apply (employ_turn hconserves.booked (hbacks rfl) hcompile hidle₁ (hsizes rfl)).mono
    intro _ r₂ es₂ hr₂
    have hturn := hr₂.2.after_retired hidle₁ hcount
    rw [hnone, List.nil_append] at hturn
    rw [Event.calls_append, hcalls, List.nil_append]
    exact ⟨hr₂.1, hturn⟩
  · intro e r₁ es₁ hr₁
    obtain ⟨⟨⟨hcrew, hcount, hcalls⟩, -, hkept, -⟩, -⟩ := hr₁
    have hoperators : r₁.crew.operators = r.crew.operators := by rw [hcrew]
    rw [hcalls]
    exact ⟨fitted_of_dismissed (hkept.trans hschedule) (hoperators.trans hidle),
      .idle hoperators hcount⟩

end

/-- A setup relieves the operators, or it fails and leaves the renderer as it was. -/
theorem setup_turn (h : r.inventory.Booked others) (hfitted : r.Fitted) (d : Description)
    (required : List Nat) : (Renderer.setup d required).Ends r fun _ r' es =>
      r'.Fitted ∧ r.Turn r' (Event.calls es) := by
  unfold Renderer.setup
  rw [Act.ends_get_bind, Act.ends_emitAll_bind]
  cases hcompile : compile d required r.config with
  | error e =>
      rw [Act.ends_ofExcept_error_bind, List.append_nil, calls_compileEvents]
      exact ⟨hfitted, .idle rfl rfl⟩
  | ok s =>
      rw [Act.ends_ofExcept_ok_bind]
      apply (retire_calls r).bind_of_ok
      intro r₁ es₁ hr₁
      obtain ⟨hinventory, hidle, hcalls⟩ := hr₁
      rw [Act.ends_modify_bind]
      have hbooked : (Renderer.inventory { r₁ with schedule := none }).Booked others :=
        h.congr (congrArg _ hinventory) (congrArg _ hinventory)
      apply (refit_turn hbooked hcompile hidle rfl).mono
      intro _ r₂ es₂ hr₂
      have hturn := hr₂.2.after_retired hidle (congrArg _ hinventory)
      rw [Event.calls_append, Event.calls_append, calls_compileEvents, hcalls, List.nil_append]
      exact ⟨hr₂.1, hturn⟩

theorem dispose_turn (h : r.inventory.Booked others) : dispose.Ends r fun _ r' es =>
    r'.crew.operators = [] ∧ r'.Fitted ∧ r.Turn r' (Event.calls es) := by
  unfold dispose
  apply (retire_calls r).bind_of_ok
  intro r₁ es₁ hr₁
  obtain ⟨hinventory₁, hoperators₁, hcalls₁⟩ := hr₁
  have hbooked₁ : r₁.inventory.Booked others :=
    h.congr (congrArg _ hinventory₁) (congrArg _ hinventory₁)
  have hgiven : (onInventory Inventory.dispose).Ends r₁ fun result r' es => result = .ok () ∧
      r'.crew = r₁.crew ∧ r'.inventory.builtCount = r₁.inventory.builtCount ∧
        Event.calls es = [] :=
    ⟨(Inventory.dispose_ends hbooked₁).1, onInventory_unmanned Inventory.dispose_unmanned r₁⟩
  apply hgiven.bind_of_ok
  intro r₂ es₂ hr₂
  obtain ⟨hcrew₂, hcount₂, hcalls₂⟩ := hr₂
  have hoperators₂ : r₂.crew.operators = [] := by
    rw [hcrew₂]
    exact hoperators₁
  have hcount : r₂.inventory.builtCount = r.inventory.builtCount := by
    rw [hcount₂]
    exact congrArg _ hinventory₁
  rw [Act.ends_get_bind, Act.ends_modify_bind]
  split
  · rw [Act.ends_emit, Event.calls_append, Event.calls_append, hcalls₁, hcalls₂]
    refine ⟨hoperators₂, fitted_of_dismissed rfl hoperators₂, ?_⟩
    rw [Event.calls_eq_nil (List.forall_mem_singleton.mpr rfl), List.append_nil, List.append_nil]
    exact .dismissed hoperators₂ hcount
  · rw [Act.ends_pure, List.append_nil, Event.calls_append, hcalls₁, hcalls₂, List.append_nil]
    exact ⟨hoperators₂, fitted_of_dismissed rfl hoperators₂, .dismissed hoperators₂ hcount⟩

/-- What a frame does: with a schedule it goes over the operators three times and
is counted, without one it is refused. -/
theorem render_turn (r : Renderer) : render.Ends r fun result r' es =>
    match r.schedule with
    | some _ => result = .ok () ∧ Event.calls es = Call.frame r.crew.operators ∧
        r'.crew.operators = r.crew.operators ∧ r'.crew.frames = r.crew.frames + 1 ∧
        r'.inventory = r.inventory
    | none => result = .error .notCompiled ∧ Event.calls es = [] ∧ r' = r := by
  cases hs : r.schedule with
  | some s =>
      obtain ⟨hresult, hoperators, hframes, hcalls⟩ := Crew.execute_calls r.crew
      unfold Act.Ends
      rw [run_render hs]
      exact ⟨rfl, hcalls, hoperators, hframes, rfl⟩
  | none =>
      have hcompiled : ¬r.isCompiled = true := by simp [isCompiled, hs]
      unfold render
      rw [Act.ends_get_bind, if_neg hcompiled, Act.ends_emit_bind]
      exact ⟨rfl, rfl, rfl⟩

theorem resize_turn (r : Renderer) (resolution : Extent) : (resize resolution).Ends r fun _ r' es =>
    r.Turn r' (Event.calls es) := by
  unfold resize
  rw [Act.ends_get_bind]
  dsimp only
  split
  · exact .idle rfl rfl
  · rw [Act.ends_emit_bind, Act.ends_modify_bind, Act.ends_pure]
    exact .idle rfl rfl

theorem onBackend_turn {α : Type} {a : Act Backend α} (h : Act.Unmanned (fun _ => 0) a)
    (r : Renderer) : (onInventory (Inventory.onBackend a)).Ends r fun _ r' es =>
      r.Turn r' (Event.calls es) := by
  apply (onInventory_unmanned (Inventory.onBackend_unmanned h) r).mono
  intro result r' es hr'
  obtain ⟨hcrew, hcount, hcalls⟩ := hr'
  rw [hcalls]
  exact .idle (congrArg _ hcrew) hcount

end Renderer

theorem Operator.names_eq {i : Inventory} {d : Description} {s : Schedule} {phases : List Phase}
    {os : List Operator}
    (h : List.Forall₂ (fun p o => ∃ op, Operator.Serves o i d s p op) phases os) :
    os.map (·.name) = phases.map (·.name) := by
  induction h with
  | nil => rfl
  | cons hserves _ ih =>
      obtain ⟨op, hop⟩ := hserves
      rw [List.map_cons, List.map_cons, hop.name_eq, ih]

namespace Session

variable {session : Session} {others : List Nat}

/-- Every command keeps schedule, pools and operators together, and the careers
of the operators go on. -/
theorem step_turn (h : session.inventory.Booked others) (hfitted : session.renderer.Fitted)
    (command : Command) : (session.step command).renderer.Fitted ∧
      session.renderer.Turn (session.step command).renderer
        (Event.calls (session.seen command)) := by
  cases command with
  | setup d required =>
      rw [step_setup]
      exact Renderer.setup_turn h hfitted d required
  | render =>
      have hends := Renderer.render_ends session.renderer
      have hturn := Renderer.render_turn session.renderer
      constructor
      · exact hfitted.congr (congrArg _ hends.1) hends.2.1 hends.2.2.1
      · unfold Act.Ends at hturn
        unfold seen
        cases hs : session.renderer.schedule with
        | some s =>
            rw [hs] at hturn
            rw [hturn.2.1]
            exact .frame hends.2.2.1 (congrArg _ hends.1)
        | none =>
            rw [hs] at hturn
            rw [hturn.2.1]
            exact .idle hends.2.2.1 (congrArg _ hends.1)
  | resize resolution =>
      have hends := Renderer.resize_ends session.renderer resolution
      constructor
      · exact hfitted.congr (congrArg _ hends.1) hends.2.1 (congrArg _ hends.2.2.1)
      · exact Renderer.resize_turn session.renderer resolution
  | dispose => exact (Renderer.dispose_turn h).2
  | limit capacity =>
      have hends := Renderer.limit_ends h capacity
      constructor
      · exact hfitted.congr hends.2.1 hends.2.2.1 (congrArg _ hends.2.2.2)
      · exact Renderer.onBackend_turn (.of_modify fun _ => rfl) session.renderer
  | createForeign c =>
      have hends := Renderer.createForeign_ends h c
      constructor
      · exact hfitted.congr hends.2.2.1 hends.2.2.2.1 (congrArg _ hends.2.2.2.2)
      · exact Renderer.onBackend_turn (Backend.create_unmanned c) session.renderer

end Session

namespace History

variable {h : History}

/-- Schedule, pools and operators belong together, and all operators are on record. -/
structure Staffed (h : History) : Prop where
  fitted : h.session.renderer.Fitted
  staffed : h.session.renderer.Staffed (Event.calls h.events)

theorem staffed_start (config : Config) : Staffed { session := .start config } where
  fitted := Renderer.fitted_start config
  staffed := Renderer.staffed_start config

theorem Staffed.step (hs : h.Staffed) (hsound : h.Sound) (command : Command) :
    (h.step command).Staffed := by
  obtain ⟨hfitted, hturn⟩ := Session.step_turn hsound.booked hs.fitted command
  constructor
  · exact hfitted
  · have hcalls : Event.calls (h.step command).events =
        Event.calls h.events ++ Event.calls (h.session.seen command) := Event.calls_append _ _
    rw [hcalls]
    exact hs.staffed.turn hturn

theorem run_staffed (config : Config) (commands : List Command) :
    (run config commands).Staffed := by
  have hsteps : ∀ h : History, h.Sound → h.Staffed → (commands.foldl History.step h).Staffed := by
    induction commands with
    | nil => exact fun _ _ hs => hs
    | cons command commands ih =>
        exact fun _ hsound hs => ih _ (hsound.step command) (hs.step hsound command)
  exact hsteps _ (sound_start config) (staffed_start config)

/-- A schedule in force is that of the last setup that succeeded, with an
operator for each phase and the resources that it needs; without a schedule
there are no operators. A frame goes over all operators three times, and is
refused without a schedule. Once the renderer is disposed of, every operator has
been built, has taken part in some frames and has been retired, in this order,
and nothing else was ever done with it. -/
structure Attended (h : History) : Prop where
  scheduled : ∀ s, h.session.renderer.schedule = some s →
    ∃ setup, h.session.lastSetup = some setup ∧
      compile setup.description setup.required setup.config = .ok s ∧
      h.session.renderer.crew.names = s.operationNames ∧
      ∀ c, (h.inventory.pools.resourcesOf c).length = s.peak c
  unscheduled : h.session.renderer.schedule = none → h.session.renderer.crew.operators = []
  rendered : ∀ s, h.session.renderer.schedule = some s →
    (Renderer.render.run h.session.renderer).result = .ok () ∧
      Event.calls (Renderer.render.run h.session.renderer).events =
        Call.sweep .prepared h.session.renderer.crew.operators ++
          (Call.sweep .performed h.session.renderer.crew.operators ++
            Call.sweep .finalized h.session.renderer.crew.operators) ∧
      (Renderer.render.run h.session.renderer).state.crew.frames =
        h.session.renderer.crew.frames + 1
  refused : h.session.renderer.schedule = none →
    (Renderer.render.run h.session.renderer).result = .error .notCompiled ∧
      Event.calls (Renderer.render.run h.session.renderer).events = [] ∧
      (Renderer.render.run h.session.renderer).state.crew.frames =
        h.session.renderer.crew.frames
  lives : ∀ c ∈ Event.calls (h.step .dispose).events,
    ∃ n, Call.stages c.serial (Event.calls (h.step .dispose).events) =
      Stage.career n ++ [.retired]

theorem Staffed.attended (hs : h.Staffed) (hsound : h.Sound) (hready : h.session.Sound) :
    h.Attended where
  scheduled := by
    intro s hschedule
    obtain ⟨setup, hsetup, hready⟩ := hready.ready s hschedule
    exact ⟨setup, hsetup, hready.compiled, Operator.names_eq hready.staffed,
      hs.fitted.sizes s hschedule⟩
  unscheduled := hs.fitted.idle
  rendered := by
    intro s hschedule
    have hturn := Renderer.render_turn h.session.renderer
    rw [hschedule] at hturn
    exact ⟨hturn.1, hturn.2.1, hturn.2.2.2.1⟩
  refused := by
    intro hschedule
    have hturn := Renderer.render_turn h.session.renderer
    rw [hschedule] at hturn
    exact ⟨hturn.1, hturn.2.1, congrArg (·.crew.frames) hturn.2.2⟩
  lives := by
    intro c hc
    have hempty : (h.step .dispose).session.renderer.crew.operators = [] :=
      (Renderer.dispose_turn hsound.booked).1
    exact (hs.step hsound .dispose).staffed.closed hempty hc

end History

/-- Whatever is done with a renderer, its schedule, its pools and its operators
stay together, and every operator lives one life. -/
theorem operators_attended (config : Config) (commands : List Command) :
    (History.run config commands).session = Session.run config commands ∧
      (History.run config commands).Attended := by
  have hsession := History.session_run config commands
  constructor
  · exact hsession
  · apply (History.run_staffed config commands).attended (History.run_sound config commands)
    rw [hsession]
    exact Session.run_sound config commands

end FrameGraph
