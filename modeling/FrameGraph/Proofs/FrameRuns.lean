import FrameGraph.Proofs.FramePlay

/-!
# Frames in a run

A renderer goes through any sequence of setups, frames, changes of resolution,
disposals, changes of the backend's capacity and creations of resources that it
does not own. Every one of these steps keeps a session sound: the books of the
inventory are in order, and a schedule in force is that of the last setup that
succeeded, with resources for all its slots and an operator for each of its
phases. A frame rendered in a sound session plays without fault.
-/
namespace FrameGraph

/-- A setup that was carried out, with the configuration at its time. -/
structure Setup where
  description : Description
  required : List Nat
  config : Config

inductive Command where
  | setup (d : Description) (required : List Nat)
  | render
  | resize (resolution : Extent)
  | dispose
  | limit (capacity : Nat)
  | createForeign (c : StorageClass)

/-- A renderer in use, and the last setup that succeeded. -/
structure Session where
  renderer : Renderer
  lastSetup : Option Setup := none

namespace Session

def start (config : Config) : Session := { renderer := { config := config } }

/-- What a command leaves behind, whether it succeeds or fails. -/
def step (session : Session) : Command → Session
  | .setup d required =>
      let outcome := (Renderer.setup d required).run session.renderer
      match outcome.result with
      | .ok _ => ⟨outcome.state, some ⟨d, required, session.renderer.config⟩⟩
      | .error _ => ⟨outcome.state, session.lastSetup⟩
  | .render => ⟨(Renderer.render.run session.renderer).state, session.lastSetup⟩
  | .resize resolution =>
      ⟨((Renderer.resize resolution).run session.renderer).state, session.lastSetup⟩
  | .dispose => ⟨(Renderer.dispose.run session.renderer).state, session.lastSetup⟩
  | .limit capacity => ⟨((Renderer.limit capacity).run session.renderer).state, session.lastSetup⟩
  | .createForeign c => ⟨((Renderer.createForeign c).run session.renderer).state, session.lastSetup⟩

/-- A new renderer after a sequence of commands. -/
def run (config : Config) (commands : List Command) : Session :=
  commands.foldl step (start config)

end Session

namespace Crew

theorem retire_ends (c : Crew) : retire.Ends c fun result c' es =>
    result = .ok () ∧ c' = { c with operators := [] } ∧ ∀ e ∈ es, e.isSilent = true := by
  unfold retire
  rw [Act.ends_get_bind, Act.ends_emitAll_bind, Act.ends_modify, List.append_nil]
  exact ⟨rfl, rfl, List.forall_mem_map.mpr fun _ _ => rfl⟩

theorem install_ends (c : Crew) (os : List Operator) : (install os).Ends c fun result c' es =>
    result = .ok () ∧ c' = { c with operators := os } ∧ ∀ e ∈ es, e.isSilent = true := by
  unfold install
  apply (retire_ends c).bind_of_ok
  intro c' es hc'
  rw [Act.ends_emit_bind, Act.ends_modify, hc'.1]
  exact ⟨rfl, rfl, List.forall_mem_append.mpr ⟨hc'.2, List.forall_mem_singleton.mpr rfl⟩⟩

theorem performances_silent (m : Memory Nat) (os : List Operator) :
    ∀ e ∈ performances m os, e.isSilent = true := by
  induction os generalizing m with
  | nil => exact List.forall_mem_nil _
  | cons o os ih => exact List.forall_mem_cons.mpr ⟨rfl, ih _⟩

theorem execute_ends (c : Crew) : execute.Ends c fun _ c' es =>
    c'.operators = c.operators ∧ ∀ e ∈ es, e.isSilent = true := by
  unfold Act.Ends
  rw [run_execute]
  refine ⟨rfl, List.forall_mem_cons.mpr ⟨rfl, ?_⟩⟩
  rw [List.forall_mem_append, List.forall_mem_append]
  refine ⟨?_, performances_silent _ _, ?_⟩
  · exact List.forall_mem_map.mpr fun _ _ => rfl
  · exact List.forall_mem_map.mpr fun _ _ => rfl

end Crew

namespace Renderer

variable {r : Renderer} {others : List Nat} {s : Schedule} {setup : Setup}

/-- The renderer has what it takes to render the frames of a setup. -/
structure Ready (r : Renderer) (setup : Setup) (s : Schedule) : Prop where
  compiled : compile setup.description setup.required setup.config = .ok s
  backed : r.inventory.Backs s
  staffed : List.Forall₂ (fun p o => ∃ op, Operator.Serves o r.inventory setup.description s p op)
    s.phases r.crew.operators

theorem Ready.congr {r' : Renderer} (h : r.Ready setup s)
    (hpools : r'.inventory.pools = r.inventory.pools)
    (hoperators : r'.crew.operators = r.crew.operators) : r'.Ready setup s where
  compiled := h.compiled
  backed := by
    unfold Inventory.Backs
    rw [hpools]
    exact h.backed
  staffed := by
    rw [hoperators]
    refine h.staffed.imp fun p o ho => ?_
    obtain ⟨op, hop⟩ := ho
    exact ⟨op, hop.congr hpools⟩

theorem retire_ends (r : Renderer) : (onCrew Crew.retire).Ends r fun result r' es =>
    result = .ok () ∧ r'.inventory = r.inventory ∧ ∀ e ∈ es, e.isSilent = true := by
  unfold onCrew
  rw [Act.ends_on]
  apply (Crew.retire_ends r.crew).mono
  intro result c es hc
  exact ⟨hc.1, rfl, hc.2.2⟩

theorem install_ends (r : Renderer) (os : List Operator) :
    (onCrew (Crew.install os)).Ends r fun result r' es =>
      result = .ok () ∧ r'.inventory = r.inventory ∧ r'.crew.operators = os ∧
        ∀ e ∈ es, e.isSilent = true := by
  unfold onCrew
  rw [Act.ends_on]
  apply (Crew.install_ends r.crew os).mono
  intro result c es hc
  rw [hc.2.1]
  exact ⟨hc.1, rfl, rfl, hc.2.2⟩

theorem reconcile_ends (h : r.inventory.Booked others) (hpeaks : (s.peaks.map (·.1)).Nodup) :
    (onInventory (Inventory.reconcile s)).Ends r fun result r' es =>
      r.inventory.Conserves others es r'.inventory ∧ r'.schedule = r.schedule ∧
        (result = .ok () → r'.inventory.Backs s) := by
  unfold onInventory
  rw [Act.ends_on]
  apply (Inventory.reconcile_ends h hpeaks).mono
  intro result i es hi
  exact ⟨hi.1, rfl, hi.2⟩

theorem instantiate_ends {d : Description} (h : r.inventory.Booked others)
    (hbacks : r.inventory.Backs s) {required : List Nat} {config : Config}
    (hcompile : compile d required config = .ok s) :
    (onInventory (Inventory.instantiate d s)).Ends r fun result r' es =>
      r.inventory.Conserves others es r'.inventory ∧ r'.inventory.Backs s ∧ ∃ os, result = .ok os ∧
        List.Forall₂ (fun p o => ∃ op, Operator.Serves o r'.inventory d s p op) s.phases os := by
  obtain ⟨passes, selected, last, hs⟩ := compilation_of_compile hcompile
  have hhouses : r.inventory.Houses s := h.houses hbacks hs
  unfold onInventory Inventory.instantiate
  rw [Act.ends_on]
  apply (Inventory.buildAll_ends (fun p hp => hs.exists_carriesOut hp) hhouses.total).mono
  intro result i es hi
  obtain ⟨hpools, hbackend, hsilent, os, hos, hserves⟩ := hi
  refine ⟨?_, ?_, os, hos, ?_⟩
  · exact .of_eq h hpools hbackend hsilent
  · unfold Inventory.Backs
    rw [hpools]
    exact hbacks
  · refine hserves.imp fun p o ho => ?_
    obtain ⟨op, hop⟩ := ho
    exact ⟨op, hop.congr hpools⟩

/-- A setup succeeds and leaves the renderer ready, or it fails and leaves the
renderer as it was or without a schedule. -/
theorem setup_ends (h : r.inventory.Booked others) (d : Description) (required : List Nat) :
    (Renderer.setup d required).Ends r fun result r' es =>
      r.inventory.Conserves others es r'.inventory ∧
      match result with
      | .ok _ => ∃ s, r'.schedule = some s ∧ r'.Ready ⟨d, required, r.config⟩ s
      | .error _ => r' = r ∨ r'.schedule = none := by
  unfold Renderer.setup
  rw [Act.ends_get_bind, Act.ends_emitAll_bind]
  have hcompiled : r.inventory.Conserves others (compileEvents d required r.config) r.inventory :=
    .of_eq h rfl rfl (compileEvents_silent d required r.config)
  cases hcompile : compile d required r.config with
  | error e =>
      rw [Act.ends_ofExcept_error_bind, List.append_nil]
      exact ⟨hcompiled, .inl rfl⟩
  | ok s =>
      obtain ⟨passes, selected, last, hs⟩ := compilation_of_compile hcompile
      rw [Act.ends_ofExcept_ok_bind]
      apply (retire_ends r).bind_of_ok
      intro r₁ es₁ hr₁
      rw [Act.ends_modify_bind]
      have hretired : r.inventory.Conserves others (compileEvents d required r.config ++ es₁)
          (Renderer.inventory { r₁ with schedule := none }) :=
        hcompiled.append (.of_eq h (congrArg _ hr₁.1) (congrArg _ hr₁.1) hr₁.2)
      simp only [← List.append_assoc]
      apply (reconcile_ends hretired.booked hs.peaks_nodup).bind
      · intro _ r₂ es₂ hr₂
        have hreconciled := hretired.append hr₂.1
        apply (instantiate_ends hreconciled.booked (hr₂.2.2 rfl) hcompile).bind
        · intro os r₃ es₃ hr₃
          obtain ⟨hconserves, hbacks, os', hos, hserves⟩ := hr₃
          cases hos
          have hbuilt := hreconciled.append hconserves
          apply (install_ends r₃ os).bind_of_ok
          intro r₄ es₄ hr₄
          have hinstalled := hbuilt.append
            (.of_eq hbuilt.booked (congrArg _ hr₄.1) (congrArg _ hr₄.1) hr₄.2.2)
          rw [← hr₄.1] at hbacks hserves
          rw [← hr₄.2.1] at hserves
          rw [Act.ends_modify, List.append_nil]
          simp only [List.append_assoc] at hinstalled ⊢
          exact ⟨hinstalled, s, rfl, hcompile, hbacks, hserves⟩
        · intro e r₃ es₃ hr₃
          obtain ⟨-, -, os, hos, -⟩ := hr₃
          cases hos
      · intro e r₂ es₂ hr₂
        exact ⟨hretired.append hr₂.1, .inr hr₂.2.1⟩

theorem dispose_ends (h : r.inventory.Booked others) :
    dispose.Ends r fun _ r' es => r.inventory.Conserves others es r'.inventory ∧
      r'.inventory.pools = {} ∧ r'.schedule = none := by
  unfold dispose
  apply (retire_ends r).bind_of_ok
  intro r₁ es₁ hr₁
  have hretired : r.inventory.Conserves others es₁ r₁.inventory :=
    .of_eq h (congrArg _ hr₁.1) (congrArg _ hr₁.1) hr₁.2
  have hgiven : (onInventory Inventory.dispose).Ends r₁ fun result r' es =>
      result = .ok () ∧ r₁.inventory.Conserves others es r'.inventory ∧
        r'.inventory.pools = {} := by
    unfold onInventory
    rw [Act.ends_on]
    exact Inventory.dispose_ends hretired.booked
  apply hgiven.bind_of_ok
  intro r₂ es₂ hr₂
  have hdisposed := hretired.append hr₂.1
  rw [Act.ends_get_bind, Act.ends_modify_bind]
  split
  · rw [Act.ends_emit, ← List.append_assoc]
    exact ⟨hdisposed.append (.cons rfl (.refl hdisposed.booked)), hr₂.2, rfl⟩
  · rw [Act.ends_pure, List.append_nil]
    exact ⟨hdisposed, hr₂.2, rfl⟩

theorem render_ends (r : Renderer) : render.Ends r fun _ r' es =>
    r'.inventory = r.inventory ∧ r'.schedule = r.schedule ∧
      r'.crew.operators = r.crew.operators ∧ ∀ e ∈ es, e.isSilent = true := by
  unfold render
  rw [Act.ends_get_bind]
  split
  · unfold onCrew
    rw [Act.ends_on]
    apply (Crew.execute_ends r.crew).mono
    intro result c es hc
    exact ⟨rfl, rfl, hc⟩
  · rw [Act.ends_emit_bind]
    exact ⟨rfl, rfl, rfl, List.forall_mem_singleton.mpr rfl⟩

theorem resize_ends (r : Renderer) (resolution : Extent) :
    (resize resolution).Ends r fun _ r' es =>
      r'.inventory = r.inventory ∧ r'.schedule = r.schedule ∧ r'.crew = r.crew ∧
        ∀ e ∈ es, e.isSilent = true := by
  unfold resize
  rw [Act.ends_get_bind]
  dsimp only
  split
  · exact ⟨rfl, rfl, rfl, List.forall_mem_nil _⟩
  · rw [Act.ends_emit_bind, Act.ends_modify_bind, Act.ends_pure]
    exact ⟨rfl, rfl, rfl, List.forall_mem_singleton.mpr rfl⟩

theorem limit_ends (h : r.inventory.Booked others) (capacity : Nat) :
    (limit capacity).Ends r fun _ r' es => r.inventory.Conserves others es r'.inventory ∧
      r'.inventory.pools = r.inventory.pools ∧ r'.schedule = r.schedule ∧ r'.crew = r.crew :=
  ⟨⟨⟨h.sorted, h.holds.perm, h.holds.nodup, h.holds.fresh, h.holds.counted⟩, .refl _ _⟩,
    rfl, rfl, rfl⟩

theorem createForeign_ends (h : r.inventory.Booked others) (c : StorageClass) :
    (createForeign c).Ends r fun result r' es =>
      r'.inventory.Booked (result.toOption.toList ++ others) ∧
      Event.Accounts r.inventory.backend.nextId [] es r'.inventory.backend.nextId
        result.toOption.toList ∧
      r'.inventory.pools = r.inventory.pools ∧ r'.schedule = r.schedule ∧ r'.crew = r.crew := by
  unfold createForeign onInventory
  rw [Act.ends_on]
  apply (Inventory.create_ends h c).mono
  intro result i es hi
  exact ⟨hi.2.1, hi.2.2, hi.1, rfl, rfl⟩

end Renderer

namespace Session

variable {session : Session}

/-- The inventory is in order, and a schedule in force is that of the last setup
that succeeded. -/
structure Sound (session : Session) : Prop where
  booked : ∃ others, session.renderer.inventory.Booked others
  ready : ∀ s, session.renderer.schedule = some s →
    ∃ setup, session.lastSetup = some setup ∧ session.renderer.Ready setup s

theorem sound_start (config : Config) : (start config).Sound where
  booked := ⟨[], Pools.sorted_empty, Backend.holds_empty none⟩
  ready := by
    intro s hs
    cases hs

/-- A step that keeps pools, operators and schedule keeps the rest as well. -/
theorem Sound.congr (h : session.Sound) {r : Renderer}
    (hbooked : ∃ others, r.inventory.Booked others)
    (hpools : r.inventory.pools = session.renderer.inventory.pools)
    (hschedule : r.schedule = session.renderer.schedule)
    (hoperators : r.crew.operators = session.renderer.crew.operators) :
    Sound ⟨r, session.lastSetup⟩ where
  booked := hbooked
  ready := by
    intro s hs
    obtain ⟨setup, hsetup, hready⟩ := h.ready s (hschedule.symm.trans hs)
    exact ⟨setup, hsetup, hready.congr hpools hoperators⟩

theorem Sound.setup (h : session.Sound) (d : Description) (required : List Nat) :
    (session.step (.setup d required)).Sound := by
  obtain ⟨others, hbooked⟩ := h.booked
  have hends := Renderer.setup_ends hbooked d required
  unfold Act.Ends at hends
  unfold step
  dsimp only
  cases hresult : ((Renderer.setup d required).run session.renderer).result with
  | ok _ =>
      rw [hresult] at hends
      obtain ⟨hbooked', s, hschedule, hready⟩ := hends
      constructor
      · exact ⟨others, hbooked'.booked⟩
      · intro s' hs'
        dsimp only at hs'
        rw [hschedule] at hs'
        cases hs'
        exact ⟨_, rfl, hready⟩
  | error e =>
      rw [hresult] at hends
      obtain ⟨hbooked', hkept | hnone⟩ := hends
      · dsimp only
        rw [hkept]
        exact h
      · constructor
        · exact ⟨others, hbooked'.booked⟩
        · intro s hs
          dsimp only at hs
          rw [hnone] at hs
          cases hs

theorem step_sound (h : session.Sound) (command : Command) : (session.step command).Sound := by
  obtain ⟨others, hbooked⟩ := h.booked
  cases command with
  | setup d required => exact h.setup d required
  | render =>
      have hends := Renderer.render_ends session.renderer
      apply h.congr
      · exact ⟨others, hbooked.congr (congrArg _ hends.1) (congrArg _ hends.1)⟩
      · exact congrArg _ hends.1
      · exact hends.2.1
      · exact hends.2.2.1
  | resize resolution =>
      have hends := Renderer.resize_ends session.renderer resolution
      apply h.congr
      · exact ⟨others, hbooked.congr (congrArg _ hends.1) (congrArg _ hends.1)⟩
      · exact congrArg _ hends.1
      · exact hends.2.1
      · exact congrArg _ hends.2.2.1
  | dispose =>
      have hends := Renderer.dispose_ends hbooked
      constructor
      · exact ⟨others, hends.1.booked⟩
      · intro s hs
        cases hends.2.2.symm.trans hs
  | limit capacity =>
      have hends := Renderer.limit_ends hbooked capacity
      apply h.congr
      · exact ⟨others, hends.1.booked⟩
      · exact hends.2.1
      · exact hends.2.2.1
      · exact congrArg _ hends.2.2.2
  | createForeign c =>
      have hends := Renderer.createForeign_ends hbooked c
      apply h.congr
      · exact ⟨_, hends.1⟩
      · exact hends.2.2.1
      · exact hends.2.2.2.1
      · exact congrArg _ hends.2.2.2.2

theorem run_sound (config : Config) (commands : List Command) : (run config commands).Sound := by
  have hsteps : ∀ session : Session, session.Sound → (commands.foldl step session).Sound := by
    induction commands with
    | nil => exact fun _ h => h
    | cons command commands ih => exact fun _ h => ih _ (step_sound h command)
  exact hsteps _ (sound_start config)

end Session

def Event.isPerformance : Event → Bool
  | .performed .. => true
  | _ => false

namespace Crew

theorem performances_eq_filter (os : List Operator) (m : Memory Nat) :
    (performances m os).filter (·.isPerformance) = performances m os := by
  induction os generalizing m with
  | nil => rfl
  | cons o os ih =>
      unfold performances
      rw [List.filter_cons_of_pos rfl, ih]

theorem filter_execute (c : Crew) :
    (execute.run c).events.filter (·.isPerformance) = performances c.memory c.operators := by
  have hprepared : (c.operators.map fun o => Event.prepared o.serial o.name).filter
      (·.isPerformance) = [] := by
    simp [List.filter_map, Function.comp_def, Event.isPerformance]
  have hfinalized : (c.operators.map fun o => Event.finalized o.serial o.name).filter
      (·.isPerformance) = [] := by
    simp [List.filter_map, Function.comp_def, Event.isPerformance]
  rw [run_execute]
  dsimp only
  rw [List.filter_cons_of_neg Bool.false_ne_true, List.filter_append, List.filter_append, hprepared,
    hfinalized, performances_eq_filter, List.nil_append, List.append_nil]

end Crew

namespace Renderer

variable {r : Renderer} {s : Schedule} {outcome : Outcome Renderer Unit}

theorem run_render (hs : r.schedule = some s) : render.run r =
    ⟨.ok (), { r with crew := (Crew.execute.run r.crew).state },
      (Crew.execute.run r.crew).events⟩ := by
  have hcompiled : r.isCompiled = true := by
    unfold isCompiled
    rw [hs]
    rfl
  unfold render
  rw [Act.run_bind_ok (Act.run_get r), if_pos hcompiled]
  unfold onCrew
  rw [Act.run_on, Crew.run_execute]
  rfl

theorem schedule_of_render (hrender : render.run r = outcome) (hok : outcome.result = .ok ()) :
    ∃ s, r.schedule = some s := by
  cases hs : r.schedule with
  | some s => exact ⟨s, rfl⟩
  | none =>
      have hcompiled : ¬r.isCompiled = true := by
        unfold isCompiled
        rw [hs]
        exact Bool.false_ne_true
      unfold render at hrender
      rw [Act.run_bind_ok (Act.run_get r), if_neg hcompiled] at hrender
      rw [← hrender] at hok
      cases hok

end Renderer

/-- A frame of a renderer that is ready plays without fault and leaves every
required buffer in its resource. -/
theorem Renderer.Ready.plays {r : Renderer} {others : List Nat} {setup : Setup} {s : Schedule}
    (h : r.Ready setup s) (hbooked : r.inventory.Booked others) :
    Plays r.inventory setup.description s r.crew.memory s.phases
        (Crew.performances r.crew.memory r.crew.operators)
        (Crew.applyAll r.crew.operators r.crew.memory) ∧
      ∀ b ∈ setup.required, ∃ resource, r.inventory.physical? s b = some resource ∧
        (Crew.applyAll r.crew.operators r.crew.memory).read resource = some b := by
  obtain ⟨passes, selected, last, hs⟩ := compilation_of_compile h.compiled
  have hhouses : r.inventory.Houses s := hbooked.houses h.backed hs
  obtain ⟨contents, hreplays, hrequired⟩ := hs.replays (r.inventory.view s r.crew.memory)
  obtain ⟨hplays, hview⟩ := hhouses.plays hreplays h.staffed
  constructor
  · exact hplays
  · intro b hb
    obtain ⟨x, hx, hcontents⟩ := hrequired b hb
    obtain ⟨resource, hresource⟩ := hhouses.total b x hx
    rw [← hview, Inventory.view_of_resolve hresource] at hcontents
    exact ⟨resource, Inventory.physical?_eq_some.mpr ⟨x, hx, hresource⟩, hcontents⟩

/-- Whatever was done with a renderer before, a frame that it renders is one of
the last setup that succeeded. Every phase of its schedule is performed without
fault, on resources that the inventory owns and that are alive; after the frame
every required buffer is in its resource. -/
theorem frames_correct (config : Config) (commands : List Command) {session : Session}
    {outcome : Outcome Renderer Unit} (hsession : Session.run config commands = session)
    (hrender : Renderer.render.run session.renderer = outcome) (hok : outcome.result = .ok ()) :
    ∃ setup s, session.lastSetup = some setup ∧
      compile setup.description setup.required setup.config = .ok s ∧
      session.renderer.schedule = some s ∧
      outcome.state.inventory = session.renderer.inventory ∧
      Plays session.renderer.inventory setup.description s session.renderer.crew.memory s.phases
        (outcome.events.filter (·.isPerformance)) outcome.state.crew.memory ∧
      ∀ b ∈ setup.required, ∃ resource, session.renderer.inventory.physical? s b = some resource ∧
        outcome.state.crew.memory.read resource = some b := by
  have hsound : session.Sound := by
    rw [← hsession]
    exact Session.run_sound config commands
  obtain ⟨others, hbooked⟩ := hsound.booked
  obtain ⟨s, hs⟩ := Renderer.schedule_of_render hrender hok
  obtain ⟨setup, hsetup, hready⟩ := hsound.ready s hs
  obtain ⟨hplays, hrequired⟩ := hready.plays hbooked
  have hframe := Renderer.run_render hs
  rw [hrender] at hframe
  rw [hframe]
  refine ⟨setup, s, hsetup, hready.compiled, hs, rfl, ?_, ?_⟩
  · dsimp only
    rw [Crew.filter_execute, Crew.run_execute]
    exact hplays
  · dsimp only
    rw [Crew.run_execute]
    exact hrequired

/-- A history with a setup that is refused a resource and one that succeeds. -/
def tintedHistory : List Command :=
  [.limit 0, .setup tintInPlace [1], .limit 2, .createForeign .dummy, .setup tintInPlace [1],
    .render, .resize ⟨8, 8⟩]

theorem frames_tintedHistory :
    (Renderer.render.run (Session.run {} tintedHistory).renderer).result = .ok () ∧
      ∃ setup s, (Session.run {} tintedHistory).lastSetup = some setup ∧
        compile setup.description setup.required setup.config = .ok s ∧
        ∀ b ∈ setup.required, ∃ resource,
          (Session.run {} tintedHistory).renderer.inventory.physical? s b = some resource ∧
          (Renderer.render.run (Session.run {} tintedHistory).renderer).state.crew.memory.read
            resource = some b := by
  have hok : (Renderer.render.run (Session.run {} tintedHistory).renderer).result = .ok () := by
    decide +kernel
  obtain ⟨setup, s, hsetup, hcompile, -, -, -, hrequired⟩ :=
    frames_correct {} tintedHistory rfl rfl hok
  exact ⟨hok, setup, s, hsetup, hcompile, hrequired⟩

end FrameGraph
