import LocalDevProxy.FileOwners
import LocalDevProxy.Survivors

namespace LocalDevProxy.ManagerFiles

open Lib.Interaction Lib.Fallible Paths Toml Config Routes Os LogRotation LogFamilies Process Listen
  AcceptedManifests ServiceOperations KeptServices ManagerCore ManagerSteps Lifecycle FileOwners Survivors

section

variable {own : Path → Prop} {ctx : Context} {m : Manager ctx.glob}

theorem Aside.fileless {c : Call} (h : Survivors.Aside c) : Fileless c := by
  cases c <;> trivial

theorem aside_spares {α : Type} {p : Io α} (hp : p.Only Survivors.Aside) : Spares own p :=
  spares_of_only (hp.mono fun _ => Aside.fileless)

theorem monitorPolls_spares (services : ServiceManager) : Spares own (Manager.monitorPolls services) := by
  have htimes (n : Nat) : ∀ services, Spares own (Manager.pollTimes services n) := by
    induction n with
    | zero => exact fun _ => spares_pure _
    | succ n ih => exact fun services => spares_bind (pollExits_spares services) ih
  unfold Manager.monitorPolls
  split
  · exact spares_bind (spares_of_only (Prog.only_perform trivial)) fun n => htimes n services
  · exact spares_pure _

theorem stopServices_spares (m : Manager ctx.glob) : Spares own m.stopServices := by
  unfold Manager.stopServices
  cases m.services with
  | none => exact spares_pure _
  | some services => exact spares_bind (stopAll_spares services) fun _ => spares_pure _

theorem stop_spares (m : Manager ctx.glob) : Spares own m.stop := by
  apply spares_bind (aside_spares (shutdownProxy_aside m))
  exact fun _ => spares_bind (stopServices_spares m) fun _ => spares_pure _

theorem stop_paths (m : Manager ctx.glob) : m.stop.Yields fun m' => m'.paths = m.paths :=
  Prog.yields_then _ fun _ => Prog.yields_then _ fun _ => rfl

theorem stopIfRunning_spares (m : Manager ctx.glob) : Spares own m.stopIfRunning := by
  unfold Manager.stopIfRunning
  split
  · exact stop_spares m
  · exact spares_pure _

theorem stopIfRunning_keeps (m : Manager ctx.glob) : m.stopIfRunning.Yields fun m' => m'.paths = m.paths := by
  unfold Manager.stopIfRunning
  split
  · exact stop_paths m
  · rfl

theorem serve_spares {manifest : Manifest} {routes : RouteTable ctx.glob} {services : ServiceManager}
    (hclear : ∀ info ∈ services.services, Clear own (services.shared.logPath info.name)) :
    Spares own (m.serve manifest routes services) := by
  apply spares_bind (startAll_spares fun info hinfo _ => hclear info hinfo)
  intro started
  apply spares_bind (stopServices_spares m)
  intro _
  apply spares_bind (aside_spares (bind_aside routes manifest.httpPort manifest.bind))
  intro bound
  apply spares_bind (monitorPolls_spares started)
  intro polled
  cases bound with
  | ok proxy => exact spares_pure _
  | error err => exact spares_bind (stop_spares _) fun _ => spares_pure _

theorem new_yields (penv : Environment.OsEnv) (manifest : Manifest) (logDir cwd : Path) (limits : LogLimits) :
    (ServiceManager.new penv manifest logDir cwd limits).Yields fun made => ∀ services, made = .ok services →
      services.shared = ⟨logDir, cwd, limits⟩ ∧ newServices penv manifest = .ok services.services := by
  intro created
  cases created with
  | error err => exact nofun
  | ok _ =>
      intro services hmade
      cases hfresh : newServices penv manifest with
      | error err =>
          rw [hfresh] at hmade
          cases hmade
      | ok fresh =>
          rw [hfresh] at hmade
          cases hmade
          exact ⟨rfl, rfl⟩

def Loaded (ctx : Context) (manifest : Manifest) : Prop := ∃ text, parseManifest ctx.toml text = .ok manifest

theorem loadManifest_yields (path : Path) :
    (loadManifest ctx.toml path).Yields fun loaded => ∀ manifest, loaded = .ok manifest → Loaded ctx manifest := by
  apply Prog.yields_then
  intro got
  cases got with
  | ok text => exact fun manifest hparse => ⟨text, hparse⟩
  | error err =>
      dsimp only
      split
      · exact fun _ => nofun
      · exact fun _ => nofun

def LogsClear (own : Path → Prop) (paths : ProjectPaths) : Prop :=
  ∀ limits name, Plain name → Clear own (serviceLog paths limits name)

theorem launch_spares {manifest : Manifest} (hloaded : Loaded ctx manifest) (hclear : LogsClear own m.paths) :
    Spares own (m.launch ctx manifest) := by
  obtain ⟨text, hparse⟩ := hloaded
  unfold Manager.launch
  cases routesOf ctx m.paths manifest with
  | error err => exact spares_pure _
  | ok routes =>
      apply spares_bind_yields (aside_spares (new_aside _ _ _ _ _)) (new_yields _ _ _ _ _)
      intro made hmade
      cases made with
      | error err => exact spares_pure _
      | ok services =>
          obtain ⟨hshared, hnew⟩ := hmade services rfl
          refine serve_spares fun info hinfo => ?_
          rw [hshared]
          exact hclear _ _ (plain_of_new hparse hnew info hinfo)

theorem start_spares (hclear : LogsClear own m.paths) : Spares own (m.start ctx) := by
  apply spares_bind_yields (stopIfRunning_spares m) (stopIfRunning_keeps m)
  intro m' hpaths
  apply spares_bind_yields (aside_spares (loadManifest_aside _ _)) (loadManifest_yields _)
  intro loaded hloaded
  cases loaded with
  | error err => exact spares_pure _
  | ok manifest => exact launch_spares (hloaded manifest rfl) (hpaths ▸ hclear)

theorem apply_spares (hclear : LogsClear own m.paths) : Spares own (m.apply ctx) := by
  have hstart (applied : Applied) : Spares own (m.startAs ctx applied) :=
    spares_bind (start_spares hclear) fun _ => spares_pure _
  unfold Manager.apply
  cases m.running with
  | none => exact hstart _
  | some running =>
      apply spares_bind (aside_spares (loadManifest_aside _ _))
      intro loaded
      cases loaded with
      | error err => exact spares_pure _
      | ok manifest =>
          dsimp only
          split
          · exact spares_pure _
          · exact hstart _

theorem onService_spares {action : ServiceManager → Io (ServiceManager × Except ServiceError Unit)}
    (haction : ∀ services, m.runningServices = .ok services → Spares own (action services)) :
    Spares own (m.onService action) := by
  unfold Manager.onService
  cases hservices : m.runningServices with
  | error err => exact spares_pure _
  | ok services => exact spares_bind (haction services hservices) fun _ => spares_pure _

theorem monitorTick_spares (m : Manager ctx.glob) : Spares own (monitorTick m) := by
  unfold monitorTick
  cases m.services with
  | none => exact spares_pure _
  | some services => exact spares_bind (monitorPolls_spares services) fun _ => spares_pure _

/-- The services that run have their logs in the profile of the manager. -/
theorem runningServices_clear (hi : Sound ctx m) (hloaded : ∀ manifest, m.running = some manifest → Loaded ctx manifest)
    (hclear : LogsClear own m.paths) {services : ServiceManager} (h : m.runningServices = .ok services) :
    ∀ info ∈ services.services, Clear own (services.shared.logPath info.name) := by
  have hrunning : m.services = some services ∧ m.proxy.isSome = true := by
    unfold Manager.runningServices at h
    cases hs : m.services with
    | none =>
        rw [hs] at h
        cases h
    | some held =>
        rw [hs] at h
        dsimp only at h
        split at h
        · rename_i hproxy
          cases h
          exact ⟨rfl, hproxy⟩
        · cases h
  obtain ⟨manifest, hmanifest⟩ := Option.isSome_iff_exists.mp (hi.running_iff.mpr hrunning.2)
  obtain ⟨text, hparse⟩ := hloaded manifest hmanifest
  obtain ⟨built, proxy, hbuilt, _, hfrom⟩ := hi.built manifest hmanifest
  obtain rfl := Option.some.inj (hrunning.1.symm.trans hbuilt)
  obtain ⟨fresh, hfresh, hkept⟩ := hfrom.services
  intro info hinfo
  obtain ⟨old, hold, hk⟩ := exists_of_forall₂ hkept info hinfo
  rw [hfrom.shared, hk.name]
  exact hclear _ _ (plain_of_new hparse hfresh old hold)

/-- Every operation but a save leaves alone what is no log of a service. -/
theorem op_spares (hi : Sound ctx m) (hloaded : ∀ manifest, m.running = some manifest → Loaded ctx manifest)
    (hclear : LogsClear own m.paths) {op : ManagerOp} (hop : ∀ text, op ≠ .saveConfig text) :
    Spares own (op.run ctx m) := by
  cases op with
  | start => exact spares_bind (start_spares hclear) fun _ => spares_pure _
  | apply => exact spares_bind (apply_spares hclear) fun _ => spares_pure _
  | stop => exact spares_bind (stop_spares m) fun _ => spares_pure _
  | startService name =>
      refine spares_bind (onService_spares fun services h => ?_) fun _ => spares_pure _
      exact startService_spares fun info hinfo _ => runningServices_clear hi hloaded hclear h info hinfo
  | stopService name =>
      refine spares_bind (onService_spares fun services _ => ?_) fun _ => spares_pure _
      exact stopService_spares name
  | restartService name =>
      refine spares_bind (onService_spares fun services h => ?_) fun _ => spares_pure _
      exact restartService_spares fun info hinfo _ => runningServices_clear hi hloaded hclear h info hinfo
  | saveConfig text => exact absurd rfl (hop text)
  | tick => exact spares_bind (monitorTick_spares m) fun _ => spares_pure _

theorem serve_keeps (manifest : Manifest) (routes : RouteTable ctx.glob) (services : ServiceManager) :
    (m.serve manifest routes services).Yields fun r => r.1.paths = m.paths := by
  apply Prog.yields_then
  intro started
  apply Prog.yields_then
  intro _
  apply Prog.yields_then
  intro bound
  apply Prog.yields_then
  intro polled
  cases bound with
  | ok proxy => rfl
  | error err => exact Prog.yields_bind (stop_paths _) fun _ hpaths => hpaths

theorem launch_keeps (manifest : Manifest) : (m.launch ctx manifest).Yields fun r => r.1.paths = m.paths := by
  unfold Manager.launch
  cases routesOf ctx m.paths manifest with
  | error err => rfl
  | ok routes =>
      apply Prog.yields_then
      intro made
      cases made with
      | error err => rfl
      | ok services => exact serve_keeps manifest routes services

theorem start_keeps (m : Manager ctx.glob) : (m.start ctx).Yields fun r => r.1.paths = m.paths := by
  apply Prog.yields_bind (stopIfRunning_keeps m)
  intro m' hpaths
  apply Prog.yields_then
  intro loaded
  cases loaded with
  | error err => exact hpaths
  | ok manifest => exact (launch_keeps manifest).mono fun _ hsame => hsame.trans hpaths

theorem apply_keeps (m : Manager ctx.glob) : (m.apply ctx).Yields fun r => r.1.paths = m.paths := by
  have hstart (applied : Applied) : (m.startAs ctx applied).Yields fun r => r.1.paths = m.paths :=
    Prog.yields_bind (start_keeps m) fun _ hpaths => hpaths
  unfold Manager.apply
  cases m.running with
  | none => exact hstart _
  | some running =>
      apply Prog.yields_then
      intro loaded
      cases loaded with
      | error err => rfl
      | ok manifest =>
          dsimp only
          split
          · rfl
          · exact hstart _

theorem onService_keeps (action : ServiceManager → Io (ServiceManager × Except ServiceError Unit)) :
    (m.onService action).Yields fun r => r.1.paths = m.paths := by
  unfold Manager.onService
  cases m.runningServices with
  | error err => rfl
  | ok services => exact Prog.yields_then _ fun _ => rfl

theorem op_keeps (op : ManagerOp) (m : Manager ctx.glob) : (op.run ctx m).Yields fun r => r.1.paths = m.paths := by
  cases op with
  | start => exact Prog.yields_bind (start_keeps m) fun _ hpaths => hpaths
  | apply => exact Prog.yields_bind (apply_keeps m) fun _ hpaths => hpaths
  | stop => exact Prog.yields_bind (stop_paths m) fun _ hpaths => hpaths
  | startService name => exact Prog.yields_bind (onService_keeps _) fun _ hpaths => hpaths
  | stopService name => exact Prog.yields_bind (onService_keeps _) fun _ hpaths => hpaths
  | restartService name => exact Prog.yields_bind (onService_keeps _) fun _ hpaths => hpaths
  | saveConfig text => exact Prog.yields_then _ fun _ => rfl
  | tick =>
      have htick : (monitorTick m).Yields fun m' => m'.paths = m.paths := by
        unfold monitorTick
        cases m.services with
        | none => rfl
        | some services => exact Prog.yields_then _ fun _ => rfl
      exact Prog.yields_bind htick fun _ hpaths => hpaths

end

end LocalDevProxy.ManagerFiles
