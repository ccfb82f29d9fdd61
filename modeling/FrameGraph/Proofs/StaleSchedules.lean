import FrameGraph.Proofs.SetupContract

/-!
# Changes of resolution and the schedule in force

A renderer answers a change of resolution by whether it is one: the new
resolution is compared with the one last recorded, and not with the one that the
schedule in force was compiled at. The two part with the first change, and they
meet again in the next setup that succeeds; a setup that fails keeps them apart.
So a resolution that is asked for twice is answered with false the second time,
and the schedule is still that of the resolution before.

In a settled history every change of resolution has been followed by a setup that
succeeded. There the last setup was compiled under the configuration of the
renderer, and the answer tells whether the schedule in force is out of date.
-/
namespace FrameGraph

namespace Renderer

variable {r : Renderer} {others : List Nat}

theorem run_resize (r : Renderer) (resolution : Extent) : (resize resolution).run r =
    if resolution.atLeastOne = r.config.resolution then ⟨.ok false, r, []⟩
    else ⟨.ok true, { r with config := { r.config with resolution := resolution.atLeastOne } },
      [.resized r.config.resolution resolution.atLeastOne]⟩ := by
  unfold resize
  rw [Act.run_bind_ok (Act.run_get r)]
  dsimp only
  split_ifs <;> rfl

theorem schedule_resize (r : Renderer) (resolution : Extent) :
    ((resize resolution).run r).state.schedule = r.schedule :=
  (resize_ends r resolution).2.1

theorem resize_eq_false {resolution : Extent} : ((resize resolution).run r).result = .ok false ↔
    r.config.resolution = ((resize resolution).run r).state.config.resolution := by
  rw [run_resize]
  split_ifs with heq
  · exact iff_of_true rfl rfl
  · apply iff_of_false
    · intro hfalse
      cases hfalse
    · intro hresolution
      exact heq hresolution.symm

theorem config_of_resize_ne_true {resolution : Extent}
    (h : ((resize resolution).run r).result ≠ .ok true) :
    ((resize resolution).run r).state.config = r.config := by
  rw [run_resize] at h ⊢
  split_ifs with heq
  · rfl
  · rw [if_neg heq] at h
    exact absurd rfl h

theorem config_setup (h : r.inventory.Booked others) (d : Description) (required : List Nat) :
    ((Renderer.setup d required).run r).state.config = r.config := by
  cases hcompile : compile d required r.config with
  | error e => exact congrArg Renderer.config (setup_rejected hcompile).2.1
  | ok s => exact (setup_compiled h hcompile).2.1

theorem config_render (r : Renderer) : (render.run r).state.config = r.config := by
  cases hs : r.schedule with
  | some s => rw [run_render hs]
  | none =>
      have hends := render_turn r
      unfold Act.Ends at hends
      rw [hs] at hends
      rw [hends.2.2]

theorem config_dispose (h : r.inventory.Booked others) :
    (dispose.run r).state.config = r.config := by
  have hdispose : dispose.Ends r fun _ r' _ => r'.config = r.config := by
    unfold dispose
    have hretire : (onCrew Crew.retire).Ends r fun result r' _ => result = .ok () ∧
        r'.inventory = r.inventory ∧ r'.config = r.config :=
      ⟨rfl, rfl, rfl⟩
    apply hretire.bind_of_ok
    rintro r₁ es₁ ⟨hinventory, hconfig⟩
    have hgiven : (onInventory Inventory.dispose).Ends r₁ fun result r' _ => result = .ok () ∧
        r'.config = r.config :=
      ⟨(Inventory.dispose_ends (hinventory ▸ h)).1, hconfig⟩
    apply hgiven.bind_of_ok
    intro r₂ es₂ hr₂
    rw [Act.ends_get_bind, Act.ends_modify_bind]
    split
    · exact hr₂
    · exact hr₂
  exact hdispose

end Renderer

namespace Session

variable {session : Session} {d : Description} {required : List Nat} {resolution : Extent}

/-- A setup of the description would succeed. -/
def Installs (session : Session) (d : Description) (required : List Nat) : Prop :=
  ((Renderer.setup d required).run session.renderer).result = .ok ()

/-- The resolution would be answered with true. -/
def Changes (session : Session) (resolution : Extent) : Prop :=
  ((Renderer.resize resolution).run session.renderer).result = .ok true

/-- The last setup that succeeded was compiled under the present configuration. -/
def Current (session : Session) : Prop :=
  ∀ setup, session.lastSetup = some setup → setup.config = session.renderer.config

theorem Current.congr (h : session.Current) {r : Renderer}
    (hconfig : r.config = session.renderer.config) : Current ⟨r, session.lastSetup⟩ := by
  intro setup hsetup
  exact (h setup hsetup).trans hconfig.symm

theorem current_of_installs (hsound : session.Sound) (h : session.Installs d required) :
    (session.step (.setup d required)).Current := by
  obtain ⟨others, hbooked⟩ := hsound.booked
  have hconfig := Renderer.config_setup hbooked d required
  unfold Installs at h
  unfold step
  dsimp only
  rw [h]
  intro setup hsetup
  cases hsetup
  exact hconfig.symm

/-- Every command but a change of the resolution keeps the last setup current. -/
theorem Current.step (h : session.Current) (hsound : session.Sound) {command : Command}
    (hkept : ∀ resolution, command = .resize resolution → ¬session.Changes resolution) :
    (session.step command).Current := by
  obtain ⟨others, hbooked⟩ := hsound.booked
  cases command with
  | setup d required =>
      cases hresult : ((Renderer.setup d required).run session.renderer).result with
      | ok _ => exact current_of_installs hsound hresult
      | error e =>
          unfold Session.step
          dsimp only
          rw [hresult]
          exact h.congr (Renderer.config_setup hbooked d required)
  | render => exact h.congr (Renderer.config_render session.renderer)
  | resize resolution =>
      exact h.congr (Renderer.config_of_resize_ne_true (hkept resolution rfl))
  | dispose => exact h.congr (Renderer.config_dispose hbooked)
  | limit capacity => exact h.congr rfl
  | createForeign c => exact h.congr rfl

theorem run_concat (config : Config) (commands : List Command) (command : Command) :
    run config (commands ++ [command]) = (run config commands).step command :=
  List.foldl_concat ..

end Session

/-- Every change of resolution, that is every `resize` answered with true, has
been followed by a setup that succeeded. -/
def Settled (config : Config) (commands : List Command) : Prop :=
  ∀ before resolution after, commands = before ++ .resize resolution :: after →
    (Session.run config before).Changes resolution →
    ∃ between d required rest, after = between ++ .setup d required :: rest ∧
      (Session.run config (before ++ .resize resolution :: between)).Installs d required

namespace Settled

variable {config : Config} {commands : List Command} {command : Command} {d : Description}
  {required : List Nat} {resolution : Extent}

/-- A setup that succeeds settles all changes before it. -/
theorem of_installs (h : (Session.run config commands).Installs d required) :
    Settled config (commands ++ [.setup d required]) := by
  intro before resolution after hcommands _
  cases after using List.reverseRecOn with
  | nil =>
      obtain ⟨-, hcommand⟩ := List.append_inj' hcommands rfl
      cases hcommand
  | append_singleton between last _ =>
      rw [← List.cons_append, ← List.append_assoc] at hcommands
      obtain ⟨rfl, hcommand⟩ := List.append_inj' hcommands rfl
      cases hcommand
      exact ⟨between, d, required, [], rfl, h⟩

theorem not_changes (h : Settled config (commands ++ [.resize resolution])) :
    ¬(Session.run config commands).Changes resolution := by
  intro hchanges
  obtain ⟨between, d, required, rest, hafter, -⟩ := h commands resolution [] rfl hchanges
  exact List.append_ne_nil_of_right_ne_nil _ (List.cons_ne_nil _ _) hafter.symm

theorem of_concat (h : Settled config (commands ++ [command]))
    (hlast : ∀ d required, command = .setup d required →
      ¬(Session.run config commands).Installs d required) : Settled config commands := by
  intro before resolution after hcommands hchanges
  subst hcommands
  obtain ⟨between, d, required, rest, hafter, hinstalls⟩ :=
    h before resolution (after ++ [command]) (by simp) hchanges
  cases rest using List.reverseRecOn with
  | nil =>
      obtain ⟨rfl, hcommand⟩ := List.append_inj' hafter rfl
      cases hcommand
      exact absurd hinstalls (hlast d required rfl)
  | append_singleton rest last _ =>
      rw [← List.cons_append, ← List.append_assoc] at hafter
      obtain ⟨rfl, -⟩ := List.append_inj' hafter rfl
      exact ⟨between, d, required, rest, rfl, hinstalls⟩

theorem current (h : Settled config commands) : (Session.run config commands).Current := by
  induction commands using List.reverseRecOn with
  | nil =>
      intro setup hsetup
      cases hsetup
  | append_singleton commands command ih =>
      have hsound := Session.run_sound config commands
      rw [Session.run_concat]
      -- A setup that succeeds is current whatever was before it. Any other command settles
      -- nothing, so the history was settled without it.
      by_cases hinstalled : ∃ d required, command = .setup d required ∧
          (Session.run config commands).Installs d required
      · obtain ⟨d, required, rfl, hinstalls⟩ := hinstalled
        exact Session.current_of_installs hsound hinstalls
      · have hcurrent : (Session.run config commands).Current := by
          apply ih
          apply h.of_concat
          intro d required hcommand hinstalls
          exact hinstalled ⟨d, required, hcommand, hinstalls⟩
        apply hcurrent.step hsound
        rintro resolution rfl
        exact h.not_changes

end Settled

def fullScreen : Description where
  buffers := [.texture "picture" .full .rgba8Unorm]
  operations := [{ name := "draw", outputs := [⟨"out", some 0⟩] }]

/-- The schedule of the texture at a resolution. -/
def fullScreenSchedule (resolution : Extent) : Schedule where
  phases := [⟨0, "draw", [], [⟨0, 0, some ⟨0, 0⟩⟩]⟩]
  peaks := [(.texture resolution .rgba8Unorm, 1)]
  allocations := [some ⟨0, 0⟩]
  resolution := resolution

def resizedHistory : List Command := [.setup fullScreen [0], .resize ⟨640, 360⟩]

/-- Outside a settled history a change is not answered with true a second time: the
resolution recorded is the new one, and the schedule in force, with its storage, is
that of the old one. -/
theorem resize_twice :
    (Session.run {} resizedHistory).renderer.schedule = some (fullScreenSchedule ⟨1280, 720⟩) ∧
    (Session.run {} resizedHistory).lastSetup.map (·.config.resolution) = some ⟨1280, 720⟩ ∧
    ((Renderer.resize ⟨640, 360⟩).run (Session.run {} resizedHistory).renderer).result =
      .ok false ∧
    ((Renderer.resize ⟨640, 360⟩).run
      (Session.run {} resizedHistory).renderer).state.config.resolution = ⟨640, 360⟩ ∧
    (fullScreenSchedule ⟨1280, 720⟩).resolution ≠ ⟨640, 360⟩ ∧
    compile fullScreen [0] { resolution := ⟨640, 360⟩ } = .ok (fullScreenSchedule ⟨640, 360⟩) := by
  decide +kernel

/-- In a settled history the schedule in force was compiled under the configuration
of the renderer. So a resolution is answered with false exactly if it is the one
that the schedule was compiled at, and then another compilation would give the same
schedule. -/
theorem resize_settled (config : Config) (commands : List Command) (resolution : Extent)
    {session : Session} {s : Schedule} {outcome : Outcome Renderer Bool}
    (hsession : Session.run config commands = session) (hsettled : Settled config commands)
    (hs : session.renderer.schedule = some s)
    (hresize : (Renderer.resize resolution).run session.renderer = outcome) :
    ∃ setup, session.lastSetup = some setup ∧
      compile setup.description setup.required setup.config = .ok s ∧
      outcome.state.schedule = some s ∧
      (outcome.result = .ok false ↔
        setup.config.resolution = outcome.state.config.resolution) ∧
      (outcome.result = .ok false →
        compile setup.description setup.required outcome.state.config = .ok s) := by
  subst hsession hresize
  obtain ⟨setup, hsetup, hready⟩ := (Session.run_sound config commands).ready s hs
  have hconfig := hsettled.current setup hsetup
  refine ⟨setup, hsetup, hready.compiled, ?_, ?_, ?_⟩
  · rw [Renderer.schedule_resize]
    exact hs
  · rw [hconfig]
    exact Renderer.resize_eq_false
  · intro hfalse
    have hunchanged := Renderer.config_of_resize_ne_true (hfalse.trans_ne (by simp))
    rw [hunchanged, ← hconfig]
    exact hready.compiled

/-- The setup that settles the change. -/
def settledHistory : List Command := resizedHistory ++ [.setup fullScreen [0]]

theorem resize_settled_fullScreen :
    Settled {} settledHistory ∧
    ((Renderer.resize ⟨640, 360⟩).run (Session.run {} settledHistory).renderer).result =
      .ok false ∧
    ∃ setup, (Session.run {} settledHistory).lastSetup = some setup ∧
      compile setup.description setup.required setup.config =
        .ok (fullScreenSchedule ⟨640, 360⟩) ∧
      setup.config.resolution = ((Renderer.resize ⟨640, 360⟩).run
        (Session.run {} settledHistory).renderer).state.config.resolution := by
  have hsettled : Settled {} settledHistory := by
    apply Settled.of_installs
    unfold Session.Installs
    decide +kernel
  have hs : (Session.run {} settledHistory).renderer.schedule =
      some (fullScreenSchedule ⟨640, 360⟩) := by
    decide +kernel
  have hfalse : ((Renderer.resize ⟨640, 360⟩).run
      (Session.run {} settledHistory).renderer).result = .ok false := by
    decide +kernel
  obtain ⟨setup, hsetup, hcompile, -, hanswer, -⟩ :=
    resize_settled {} settledHistory ⟨640, 360⟩ rfl hsettled hs rfl
  exact ⟨hsettled, hfalse, setup, hsetup, hcompile, hanswer.mp hfalse⟩

end FrameGraph
