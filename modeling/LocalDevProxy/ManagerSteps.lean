import LocalDevProxy.ManagerCore

namespace LocalDevProxy.ManagerSteps

open Lib.Interaction Paths Config Routes Os Process Listen ManagerCore

variable {M : Machine sys World} {ctx : Context} {w w' : World}

theorem stop_run {G : Glob} {m m' : Manager G} (h : Runs M m.stop w m' w') :
    ∃ services w₁, Runs M m.shutdownProxy w () w₁ ∧ Runs M m.stopServices w₁ services w' ∧
      m' = { m with services, proxy := none, running := none } := by
  obtain ⟨_, w₁, hp, h⟩ := runs_bind.mp h
  obtain ⟨services, w₂, hs, h⟩ := runs_bind.mp h
  obtain ⟨rfl, hd⟩ := runs_pure.mp h
  exact ⟨services, w₁, hp, hs.drift_right hd, rfl⟩

theorem stopServices_run {G : Glob} {m : Manager G} {stopped : Option ServiceManager}
    (h : Runs M m.stopServices w stopped w') :
    (m.services = none ∧ stopped = none ∧ M.drift w w') ∨
      ∃ services services', m.services = some services ∧ stopped = some services' ∧
        Runs M services.stopAll w services' w' := by
  unfold Manager.stopServices at h
  cases hs : m.services with
  | none =>
      rw [hs] at h
      obtain ⟨rfl, hd⟩ := runs_pure.mp h
      exact .inl ⟨rfl, rfl, hd⟩
  | some services =>
      rw [hs] at h
      obtain ⟨services', w₁, hstop, h⟩ := runs_bind.mp h
      obtain ⟨rfl, hd⟩ := runs_pure.mp h
      exact .inr ⟨services, services', rfl, rfl, hstop.drift_right hd⟩

theorem stopIfRunning_run {G : Glob} {m m' : Manager G} (h : Runs M m.stopIfRunning w m' w') :
    (m.isRunning = true ∧ Runs M m.stop w m' w') ∨ (m.isRunning = false ∧ m' = m ∧ M.drift w w') := by
  unfold Manager.stopIfRunning at h
  split at h
  · rename_i hr
    exact .inl ⟨hr, h⟩
  · rename_i hr
    exact .inr ⟨by simpa using hr, runs_pure.mp h⟩

theorem stopIfRunning_paths {G : Glob} {m m' : Manager G} (h : Runs M m.stopIfRunning w m' w') :
    m'.paths = m.paths ∧ m'.logLimits = m.logLimits := by
  rcases stopIfRunning_run h with ⟨_, hs⟩ | ⟨_, rfl, _⟩
  · obtain ⟨_, _, _, _, rfl⟩ := stop_run hs
    exact ⟨rfl, rfl⟩
  · exact ⟨rfl, rfl⟩

/-- How serving prepared services can end. The services of before are stopped
on the way, and the new ones too when no proxy is bound. -/
inductive Served {G : Glob} (M : Machine sys World) (m : Manager G) (manifest : Manifest)
    (routes : RouteTable G) (services : ServiceManager) (u : World) :
    Manager G → Except ManagerError Manifest → World → Prop
  | bound (started polled : ServiceManager) (old : Option ServiceManager) (proxy : ProxyServer G)
      {u₁ u₂ u₃ v : World} : Runs M services.startAll u started u₁ → Runs M m.stopServices u₁ old u₂ →
      Runs M (ProxyServer.bind routes manifest.httpPort manifest.bind) u₂ (.ok proxy) u₃ →
      Runs M (Manager.monitorPolls started) u₃ polled v →
      Served M m manifest routes services u
        { m with services := some polled, proxy := some proxy, running := some manifest }
        (.ok manifest) v
  | unbound (started polled : ServiceManager) (old : Option ServiceManager) (err : ProxyError)
      {m' : Manager G} {u₁ u₂ u₃ u₄ v : World} : Runs M services.startAll u started u₁ →
      Runs M m.stopServices u₁ old u₂ →
      Runs M (ProxyServer.bind routes manifest.httpPort manifest.bind) u₂ (.error err) u₃ →
      Runs M (Manager.monitorPolls started) u₃ polled u₄ →
      Runs M (Manager.stop { m with services := some polled }) u₄ m' v →
      Served M m manifest routes services u m' (.error (.proxy err)) v

theorem serve_run {G : Glob} {m m' : Manager G} {manifest : Manifest} {routes : RouteTable G}
    {services : ServiceManager} {r : Except ManagerError Manifest}
    (h : Runs M (m.serve manifest routes services) w (m', r) w') :
    Served M m manifest routes services w m' r w' := by
  obtain ⟨started, w₁, hstart, h⟩ := runs_bind.mp h
  obtain ⟨old, w₂, hold, h⟩ := runs_bind.mp h
  obtain ⟨bound, w₃, hbind, h⟩ := runs_bind.mp h
  obtain ⟨polled, w₄, hpoll, h⟩ := runs_bind.mp h
  cases bound with
  | ok proxy =>
      obtain ⟨he, hd⟩ := runs_pure.mp h
      cases he
      exact .bound started polled old proxy hstart hold hbind (hpoll.drift_right hd)
  | error err =>
      obtain ⟨stopped, w₅, hstop, h⟩ := runs_bind.mp h
      obtain ⟨he, hd⟩ := runs_pure.mp h
      cases he
      exact .unbound started polled old err hstart hold hbind hpoll (hstop.drift_right hd)

/-- How launching a manifest can end. Nothing has happened before the routes
and the services are prepared. -/
inductive Begun (M : Machine sys World) (ctx : Context) (m : Manager ctx.glob) (manifest : Manifest)
    (u : World) : Manager ctx.glob → Except ManagerError Manifest → World → Prop
  | unroutable (err : ConfigError) {v : World} : routesOf ctx m.paths manifest = .error err →
      M.drift u v → Begun M ctx m manifest u m (.error (.config err)) v
  | unprepared (routes : RouteTable ctx.glob) (err : ConfigError) {v : World} :
      routesOf ctx m.paths manifest = .ok routes →
      Runs M (ServiceManager.new ctx.env manifest m.paths.logsDir m.paths.root m.logLimits) u
        (.error err) v →
      Begun M ctx m manifest u m (.error (.config err)) v
  | served (routes : RouteTable ctx.glob) (services : ServiceManager) {m' : Manager ctx.glob}
      {r : Except ManagerError Manifest} {u' v : World} :
      routesOf ctx m.paths manifest = .ok routes →
      Runs M (ServiceManager.new ctx.env manifest m.paths.logsDir m.paths.root m.logLimits) u
        (.ok services) u' →
      Served M m manifest routes services u' m' r v → Begun M ctx m manifest u m' r v

theorem launch_run {m m' : Manager ctx.glob} {manifest : Manifest} {r : Except ManagerError Manifest}
    (h : Runs M (m.launch ctx manifest) w (m', r) w') : Begun M ctx m manifest w m' r w' := by
  unfold Manager.launch at h
  cases hroutes : routesOf ctx m.paths manifest with
  | error err =>
      rw [hroutes] at h
      obtain ⟨he, hd⟩ := runs_pure.mp h
      cases he
      exact .unroutable err hroutes hd
  | ok routes =>
      rw [hroutes] at h
      obtain ⟨prepared, w₁, hnew, h⟩ := runs_bind.mp h
      cases prepared with
      | error err =>
          obtain ⟨he, hd⟩ := runs_pure.mp h
          cases he
          exact .unprepared routes err hroutes (hnew.drift_right hd)
      | ok services => exact .served routes services hroutes hnew (serve_run h)

/-- A start stops what runs, loads the manifest and launches it. -/
theorem start_run {m m' : Manager ctx.glob} {r : Except ManagerError Manifest}
    (h : Runs M (m.start ctx) w (m', r) w') :
    ∃ m₁ w₁, Runs M m.stopIfRunning w m₁ w₁ ∧
      ((∃ err, Runs M (loadManifest ctx.toml m₁.paths.servicesFile) w₁ (.error err) w' ∧ m' = m₁ ∧
          r = .error (.config err)) ∨
        ∃ manifest w₂, Runs M (loadManifest ctx.toml m₁.paths.servicesFile) w₁ (.ok manifest) w₂ ∧
          Begun M ctx m₁ manifest w₂ m' r w') := by
  obtain ⟨m₁, w₁, hstop, h⟩ := runs_bind.mp h
  obtain ⟨loaded, w₂, hload, h⟩ := runs_bind.mp h
  refine ⟨m₁, w₁, hstop, ?_⟩
  cases loaded with
  | error err =>
      obtain ⟨he, hd⟩ := runs_pure.mp h
      cases he
      exact .inl ⟨err, hload.drift_right hd, rfl, rfl⟩
  | ok manifest => exact .inr ⟨manifest, w₂, hload, launch_run h⟩

theorem startAs_run {m m' : Manager ctx.glob} {applied : Applied} {r : Except ManagerError Applied}
    (h : Runs M (m.startAs ctx applied) w (m', r) w') :
    ∃ started, Runs M (m.start ctx) w (m', started) w' ∧ r = started.map fun _ => applied := by
  obtain ⟨⟨m₁, started⟩, w₁, hstart, h⟩ := runs_bind.mp h
  obtain ⟨he, hd⟩ := runs_pure.mp h
  cases he
  exact ⟨started, hstart.drift_right hd, rfl⟩

/-- How applying can end: it starts, or it stops at its comparison of the file
with what runs. -/
inductive AppliedAs (M : Machine sys World) (ctx : Context) (m : Manager ctx.glob) (u : World) :
    Manager ctx.glob → Except ManagerError Applied → World → Prop
  | started {m' : Manager ctx.glob} {r : Except ManagerError Manifest} {v : World} :
      m.running = none → Runs M (m.start ctx) u (m', r) v →
      AppliedAs M ctx m u m' (r.map fun _ => .started) v
  | unloaded (running : Manifest) (err : ConfigError) {v : World} : m.running = some running →
      Runs M (loadManifest ctx.toml m.paths.servicesFile) u (.error err) v →
      AppliedAs M ctx m u m (.error (.config err)) v
  | unchanged (running : Manifest) {v : World} : m.running = some running →
      Runs M (loadManifest ctx.toml m.paths.servicesFile) u (.ok running) v →
      AppliedAs M ctx m u m (.ok .unchanged) v
  | restarted (running manifest : Manifest) {m' : Manager ctx.glob} {r : Except ManagerError Manifest}
      {u' v : World} : m.running = some running → running ≠ manifest →
      Runs M (loadManifest ctx.toml m.paths.servicesFile) u (.ok manifest) u' →
      Runs M (m.start ctx) u' (m', r) v →
      AppliedAs M ctx m u m' (r.map fun _ => .restarted) v

theorem apply_run {m m' : Manager ctx.glob} {r : Except ManagerError Applied}
    (h : Runs M (m.apply ctx) w (m', r) w') : AppliedAs M ctx m w m' r w' := by
  unfold Manager.apply at h
  cases hrunning : m.running with
  | none =>
      rw [hrunning] at h
      obtain ⟨started, hstart, rfl⟩ := startAs_run h
      exact .started hrunning hstart
  | some running =>
      rw [hrunning] at h
      obtain ⟨loaded, w₁, hload, h⟩ := runs_bind.mp h
      cases loaded with
      | error err =>
          obtain ⟨he, hd⟩ := runs_pure.mp h
          cases he
          exact .unloaded running err hrunning (hload.drift_right hd)
      | ok manifest =>
          by_cases hsame : running = manifest
          · subst hsame
            simp only [if_true] at h
            obtain ⟨he, hd⟩ := runs_pure.mp h
            cases he
            exact .unchanged running hrunning (hload.drift_right hd)
          · simp only [hsame, if_false] at h
            obtain ⟨started, hstart, rfl⟩ := startAs_run h
            exact .restarted running manifest hrunning hsame hload hstart

end LocalDevProxy.ManagerSteps
