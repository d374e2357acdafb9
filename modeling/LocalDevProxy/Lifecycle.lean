import LocalDevProxy.KeptServices
import LocalDevProxy.ManagerSteps
import LocalDevProxy.ServiceStates

namespace LocalDevProxy.Lifecycle

open Lib.Interaction Paths Environment Toml Config Routes Os Process Listen ManagerCore ManagerSteps
  ServiceOperations KeptServices
open ChildHandles (idleText idleReader idleManifest parse_idle unwritable)

/-- What a frontend asks of the manager. Between two requests the crash
monitor, where there is one, polls the services. -/
inductive ManagerOp
  | start
  | apply
  | stop
  | startService (name : String)
  | stopService (name : String)
  | restartService (name : String)
  | saveConfig (text : String)
  | tick

inductive Outcome
  | started (r : Except ManagerError Manifest)
  | applied (r : Except ManagerError Applied)
  | done (r : Except ManagerError Unit)

variable {ctx : Context}

def monitorTick (m : Manager ctx.glob) : Io (Manager ctx.glob) :=
  match m.services with
  | some services => do
      let services ← Manager.monitorPolls services
      return { m with services := some services }
  | none => return m

namespace ManagerOp

def run (ctx : Context) : ManagerOp → Manager ctx.glob → Io (Manager ctx.glob × Outcome)
  | .start, m => do
      let (m, r) ← m.start ctx
      return (m, .started r)
  | .apply, m => do
      let (m, r) ← m.apply ctx
      return (m, .applied r)
  | .stop, m => do
      let m ← m.stop
      return (m, .done (.ok ()))
  | .startService name, m => do
      let (m, r) ← m.startService name
      return (m, .done r)
  | .stopService name, m => do
      let (m, r) ← m.stopService name
      return (m, .done r)
  | .restartService name, m => do
      let (m, r) ← m.restartService name
      return (m, .done r)
  | .saveConfig text, m => do
      let r ← m.saveConfig ctx text
      return (m, .done r)
  | .tick, m => do
      let m ← monitorTick m
      return (m, .done (.ok ()))

def onOne : ManagerOp → Bool
  | .startService _ | .stopService _ | .restartService _ => true
  | _ => false

end ManagerOp

/-- The services and the routes of the manager are those of the manifest. -/
structure BuiltFrom (ctx : Context) (m : Manager ctx.glob) (manifest : Manifest)
    (services : ServiceManager) (proxy : ProxyServer ctx.glob) : Prop where
  routes : routesOf ctx m.paths manifest = .ok proxy.routes
  shared : services.shared = ⟨m.paths.logsDir, m.paths.root, m.logLimits⟩
  services : ∃ fresh, newServices ctx.env manifest = .ok fresh ∧ List.Forall₂ Kept fresh services.services

theorem BuiltFrom.carried {m : Manager ctx.glob} {manifest : Manifest} {services services' : ServiceManager}
    {proxy : ProxyServer ctx.glob} (h : BuiltFrom ctx m manifest services proxy)
    (hc : Carried services services') : BuiltFrom ctx m manifest services' proxy := by
  obtain ⟨fresh, hfresh, hkept⟩ := h.services
  exact ⟨h.routes, hc.shared.trans h.shared, fresh, hfresh, forall₂_kept_trans hkept hc.services⟩

/-- What holds of the manager between any two requests. -/
structure Sound (ctx : Context) (m : Manager ctx.glob) : Prop where
  running_iff : m.running.isSome ↔ m.proxy.isSome
  grounded : ∀ services, m.services = some services → AllGrounded services
  quiet : m.proxy = none → ∀ services, m.services = some services → Quiet services
  built : ∀ manifest, m.running = some manifest → ∃ services proxy, m.services = some services ∧
    m.proxy = some proxy ∧ BuiltFrom ctx m manifest services proxy

theorem new_sound (ctx : Context) (paths : ProjectPaths) : Sound ctx (.new ctx.glob paths) where
  running_iff := Iff.rfl
  grounded := fun _ h => by cases h
  quiet := fun _ _ h => by cases h
  built := fun _ h => by cases h

/-- Other records of the services can take their place while the proxy runs. -/
theorem Sound.carried {m : Manager ctx.glob} {services services' : ServiceManager} (h : Sound ctx m)
    (hservices : m.services = some services) (hc : Carried services services')
    (hquiet : m.proxy = none → Quiet services') : Sound ctx { m with services := some services' } where
  running_iff := h.running_iff
  grounded := by
    rintro _ ⟨⟩
    exact hc.grounded (h.grounded services hservices)
  quiet := by
    rintro hp _ ⟨⟩
    exact hquiet hp
  built := by
    intro manifest hm
    obtain ⟨services₀, proxy, hs, hp, hb⟩ := h.built manifest hm
    rw [hservices] at hs
    cases hs
    obtain ⟨hroutes, hshared, hfresh⟩ := hb.carried hc
    exact ⟨services', proxy, rfl, hp, hroutes, hshared, hfresh⟩

variable {shared : Bool} {P : (c : Call) → Ans c → Prop} {m m' : Manager ctx.glob} {w w' : World}

theorem monitorPolls_carried {services services' : ServiceManager}
    (h : Runs ((machine shared).restrict P) (Manager.monitorPolls services) w services' w') :
    Carried services services' ∧ (services.monitor = false → services' = services) := by
  have htimes : ∀ n {services services' w w'},
      Runs ((machine shared).restrict P) (Manager.pollTimes services n) w services' w' →
        Carried services services' := by
    intro n
    induction n with
    | zero =>
        intro services services' w w' h
        obtain ⟨rfl, _⟩ := runs_pure.mp h
        exact .refl _
    | succ n ih =>
        intro services services' w w' h
        obtain ⟨polled, w₁, hp, h⟩ := runs_bind.mp h
        exact (pollExits_carried hp).trans (ih h)
  unfold Manager.monitorPolls at h
  split at h
  · rename_i hm
    obtain ⟨n, w₁, _, h⟩ := runs_bind.mp h
    exact ⟨htimes n h, fun hf => absurd (hm.symm.trans hf) (by decide)⟩
  · obtain ⟨rfl, _⟩ := runs_pure.mp h
    exact ⟨.refl _, fun _ => rfl⟩

theorem bind_run {G : Glob} {M : Machine sys World} {routes : RouteTable G} {port : Port}
    {hosts : List String} {proxy : ProxyServer G}
    (h : Runs M (ProxyServer.bind routes port hosts) w (.ok proxy) w') : proxy.routes = routes := by
  rcases runs_tryThen.mp h with ⟨_, he, _⟩ | ⟨addrs, w₁, _, h⟩
  · cases he
  · rcases runs_tryThen.mp h with ⟨_, he, _⟩ | ⟨bound, w₂, _, h⟩
    · cases he
    · obtain ⟨he, _⟩ := runs_pure.mp h
      cases he
      rfl

/-- A stop leaves nothing running, whatever ran. -/
theorem stop_sound (hg : ∀ services, m.services = some services → AllGrounded services)
    (h : Runs ((machine shared).restrict P) m.stop w m' w') : Sound ctx m' ∧ m'.proxy = none := by
  obtain ⟨stopped, w₁, _, hs, rfl⟩ := stop_run h
  refine ⟨⟨Iff.rfl, ?_, ?_, fun _ hm => by cases hm⟩, rfl⟩
  · rcases stopServices_run hs with ⟨_, rfl, _⟩ | ⟨services, services', hm, rfl, hstop⟩
    · exact fun _ h => by cases h
    · rintro _ ⟨⟩
      exact (stopAll_carried hstop).1.grounded (hg services hm)
  · rcases stopServices_run hs with ⟨_, rfl, _⟩ | ⟨services, services', hm, rfl, hstop⟩
    · exact fun _ _ h => by cases h
    · rintro _ _ ⟨⟩
      exact (stopAll_carried hstop).2 (hg services hm)

theorem stopIfRunning_sound (hi : Sound ctx m)
    (h : Runs ((machine shared).restrict P) m.stopIfRunning w m' w') :
    Sound ctx m' ∧ m'.proxy = none := by
  rcases stopIfRunning_run h with ⟨_, hs⟩ | ⟨hr, rfl, _⟩
  · exact stop_sound hi.grounded hs
  · exact ⟨hi, by simpa [Manager.isRunning] using hr⟩

theorem fresh_grounded {services : ServiceManager} {env : OsEnv} {manifest : Manifest}
    (h : newServices env manifest = .ok services.services) : AllGrounded services :=
  fun info hinfo _ => fresh_childless h info hinfo

/-- Serving freshly prepared services ends with the proxy running or with nothing running. -/
theorem served_sound {manifest : Manifest} {routes : RouteTable ctx.glob} {services : ServiceManager}
    {r : Except ManagerError Manifest} (hroutes : routesOf ctx m.paths manifest = .ok routes)
    (hnew : newServices ctx.env manifest = .ok services.services)
    (hshared : services.shared = ⟨m.paths.logsDir, m.paths.root, m.logLimits⟩)
    (h : Served ((machine shared).restrict P) m manifest routes services w m' r w') : Sound ctx m' := by
  have hcarried : ∀ {started polled : ServiceManager} {u₁ u₂ u₃ : World},
      Runs ((machine shared).restrict P) services.startAll w started u₁ →
      Runs ((machine shared).restrict P) (Manager.monitorPolls started) u₂ polled u₃ →
      Carried services polled := by
    intro started polled u₁ u₂ u₃ hstart hpoll
    exact (startAll_carried hstart).trans (monitorPolls_carried hpoll).1
  cases h with
  | bound started polled old proxy hstart _ hbind hpoll =>
      have hc := hcarried hstart hpoll
      refine ⟨Iff.rfl, ?_, nofun, ?_⟩
      · rintro _ ⟨⟩
        exact hc.grounded (fresh_grounded hnew)
      · rintro _ ⟨⟩
        have hproxy := bind_run hbind
        exact ⟨polled, proxy, rfl, rfl, by rw [hproxy]; exact hroutes, hc.shared.trans hshared,
          services.services, hnew, hc.services⟩
  | unbound started polled old err hstart _ _ hpoll hstop =>
      have hc := hcarried hstart hpoll
      refine (stop_sound ?_ hstop).1
      rintro _ ⟨⟩
      exact hc.grounded (fresh_grounded hnew)

theorem start_sound (hi : Sound ctx m) {r : Except ManagerError Manifest}
    (h : Runs ((machine shared).restrict P) (m.start ctx) w (m', r) w') : Sound ctx m' := by
  obtain ⟨m₁, w₁, hstop, h⟩ := start_run h
  have hi₁ := (stopIfRunning_sound hi hstop).1
  rcases h with ⟨err, _, rfl, _⟩ | ⟨manifest, w₂, _, hbegun⟩
  · exact hi₁
  · cases hbegun with
    | unroutable _ _ _ => exact hi₁
    | unprepared _ _ _ _ => exact hi₁
    | served routes services hroutes hnew hserved =>
        obtain ⟨hshared, hservices, _⟩ := new_run hnew
        exact served_sound hroutes hservices hshared hserved

theorem onService_run {M : Machine sys World}
    {action : ServiceManager → Io (ServiceManager × Except ServiceError Unit)} {r : Except ManagerError Unit}
    (h : Runs M (m.onService action) w (m', r) w') :
    (m.isRunning = true ∧ ∃ services services' r', m.services = some services ∧
        Runs M (action services) w (services', r') w' ∧ m' = { m with services := some services' }) ∨
      (m' = m ∧ r = .error .notRunning ∧ M.drift w w') := by
  unfold Manager.onService Manager.runningServices at h
  cases hs : m.services with
  | none =>
      rw [hs] at h
      obtain ⟨he, hd⟩ := runs_pure.mp h
      cases he
      exact .inr ⟨rfl, rfl, hd⟩
  | some services =>
      rw [hs] at h
      by_cases hr : m.isRunning = true
      · simp only [hr, if_true] at h
        obtain ⟨⟨services', r'⟩, w₁, ha, h⟩ := runs_bind.mp h
        obtain ⟨he, hd⟩ := runs_pure.mp h
        cases he
        exact .inl ⟨hr, services, services', r', rfl, ha.drift_right hd, rfl⟩
      · simp only [hr] at h
        obtain ⟨he, hd⟩ := runs_pure.mp h
        cases he
        exact .inr ⟨rfl, rfl, hd⟩

theorem onService_stopped {M : Machine sys World}
    {action : ServiceManager → Io (ServiceManager × Except ServiceError Unit)} {r : Except ManagerError Unit}
    (hr : m.isRunning = false) (h : Runs M (m.onService action) w (m', r) w') :
    m' = m ∧ r = .error .notRunning ∧ M.drift w w' := by
  rcases onService_run h with ⟨ht, _⟩ | hn
  · rw [hr] at ht
    cases ht
  · exact hn

theorem onService_sound (hi : Sound ctx m)
    {action : ServiceManager → Io (ServiceManager × Except ServiceError Unit)} {r : Except ManagerError Unit}
    (haction : ∀ {services services' r}, Runs ((machine shared).restrict P) (action services) w
      (services', r) w' → Carried services services')
    (h : Runs ((machine shared).restrict P) (m.onService action) w (m', r) w') : Sound ctx m' := by
  rcases onService_run h with ⟨hr, services, services', r', hs, ha, rfl⟩ | ⟨rfl, _, _⟩
  · refine hi.carried hs (haction ha) (fun hp => ?_)
    rw [Manager.isRunning, hp] at hr
    cases hr
  · exact hi

theorem monitorTick_sound (hi : Sound ctx m)
    (h : Runs ((machine shared).restrict P) (monitorTick m) w m' w') : Sound ctx m' := by
  unfold monitorTick at h
  cases hs : m.services with
  | none =>
      rw [hs] at h
      obtain ⟨rfl, _⟩ := runs_pure.mp h
      exact hi
  | some services =>
      rw [hs] at h
      obtain ⟨services', w₁, hp, h⟩ := runs_bind.mp h
      obtain ⟨rfl, _⟩ := runs_pure.mp h
      obtain ⟨hc, hidle⟩ := monitorPolls_carried hp
      refine hi.carried hs hc (fun hproxy => ?_)
      have hquiet := hi.quiet hproxy services hs
      rw [hidle hquiet.monitor]
      exact hquiet

theorem apply_sound (hi : Sound ctx m) {r : Except ManagerError Applied}
    (h : Runs ((machine shared).restrict P) (m.apply ctx) w (m', r) w') : Sound ctx m' := by
  cases apply_run h with
  | started _ hstart => exact start_sound hi hstart
  | unloaded _ _ _ _ => exact hi
  | unchanged _ _ _ => exact hi
  | restarted _ _ _ _ _ hstart => exact start_sound hi hstart

theorem labelled_run {M : Machine sys World} {α : Type} {p : Io (Manager ctx.glob × α)} {f : α → Outcome}
    {o : Outcome} (h : Runs M (do let (m, r) ← p; return (m, f r)) w (m', o) w') :
    ∃ r, Runs M p w (m', r) w' ∧ o = f r := by
  obtain ⟨⟨m₁, r⟩, w₁, hp, h⟩ := runs_bind.mp h
  obtain ⟨he, hd⟩ := runs_pure.mp h
  cases he
  exact ⟨r, hp.drift_right hd, rfl⟩

theorem op_sound (hi : Sound ctx m) {op : ManagerOp} {o : Outcome}
    (h : Runs ((machine shared).restrict P) (op.run ctx m) w (m', o) w') : Sound ctx m' := by
  cases op with
  | start =>
      obtain ⟨r, hr, _⟩ := labelled_run h
      exact start_sound hi hr
  | apply =>
      obtain ⟨r, hr, _⟩ := labelled_run h
      exact apply_sound hi hr
  | stop =>
      obtain ⟨m₁, w₁, hs, h⟩ := runs_bind.mp h
      obtain ⟨he, _⟩ := runs_pure.mp h
      cases he
      exact (stop_sound hi.grounded hs).1
  | startService name =>
      obtain ⟨r, hr, _⟩ := labelled_run h
      exact onService_sound hi (fun ha => onManaged_carried startLocked_kept ha) hr
  | stopService name =>
      obtain ⟨r, hr, _⟩ := labelled_run h
      exact onService_sound hi (fun ha => onManaged_carried stopAction_kept ha) hr
  | restartService name =>
      obtain ⟨r, hr, _⟩ := labelled_run h
      exact onService_sound hi (fun ha => onManaged_carried restartAction_kept ha) hr
  | saveConfig text =>
      obtain ⟨r, w₁, _, h⟩ := runs_bind.mp h
      obtain ⟨he, _⟩ := runs_pure.mp h
      cases he
      exact hi
  | tick =>
      obtain ⟨m₁, w₁, ht, h⟩ := runs_bind.mp h
      obtain ⟨he, _⟩ := runs_pure.mp h
      cases he
      exact monitorTick_sound hi ht

theorem onOne_stopped {M : Machine sys World} {op : ManagerOp} {o : Outcome} (hop : op.onOne = true)
    (hr : m.isRunning = false) (h : Runs M (op.run ctx m) w (m', o) w') :
    m' = m ∧ o = .done (.error .notRunning) ∧ M.drift w w' := by
  have hdone : ∀ {action}, Runs M (do let (m, r) ← m.onService action; return (m, Outcome.done r)) w
      (m', o) w' → m' = m ∧ o = .done (.error .notRunning) ∧ M.drift w w' := by
    intro action h
    obtain ⟨r, hs, rfl⟩ := labelled_run h
    obtain ⟨hm, rfl, hd⟩ := onService_stopped hr hs
    exact ⟨hm, rfl, hd⟩
  cases op with
  | startService name => exact hdone h
  | stopService name => exact hdone h
  | restartService name => exact hdone h
  | _ => cases hop

def Holds (w : World) (path : Path) (text : String) : Prop :=
  ∃ file, w.disk.names path = some file ∧ w.disk.data file = bytesOf text

/-- What apply does while running: it compares the manifest that the file holds
at one moment with the one that runs, and touches nothing before they differ. -/
inductive Compared (M : Machine sys World) (ctx : Context) (m : Manager ctx.glob) (running : Manifest)
    (u : World) : Manager ctx.glob → Except ManagerError Applied → World → Prop
  | unloaded (err : ConfigError) {v : World} :
      Runs M (loadManifest ctx.toml m.paths.servicesFile) u (.error err) v → M.drift u v →
      Compared M ctx m running u m (.error (.config err)) v
  | same (text : String) {read v : World} : M.drift u read → Holds read m.paths.servicesFile text →
      parseManifest ctx.toml text = .ok running → M.drift read v →
      Compared M ctx m running u m (.ok .unchanged) v
  | differs (text : String) (manifest : Manifest) {m' : Manager ctx.glob}
      {r : Except ManagerError Manifest} {read u' v : World} : M.drift u read →
      Holds read m.paths.servicesFile text → parseManifest ctx.toml text = .ok manifest →
      running ≠ manifest → M.drift read u' → Runs M (m.start ctx) u' (m', r) v →
      Compared M ctx m running u m' (r.map fun _ => .restarted) v

theorem loadManifest_run {toml : Reader} {path : Path} {loaded : Except ConfigError Manifest}
    (h : Runs ((machine shared).restrict P) (loadManifest toml path) w loaded w') :
    (machine shared).drift w w' ∧ ∀ manifest, loaded = .ok manifest → ∃ text read,
      (machine shared).drift w read ∧ Holds read path text ∧ parseManifest toml text = .ok manifest ∧
        (machine shared).drift read w' := by
  obtain ⟨got, w₁, hr, h⟩ := runs_bind.mp h
  obtain ⟨u, v, hd, ha, hd'⟩ := runs_perform.mp hr
  cases got with
  | ok text =>
      obtain ⟨⟨hholds, rfl⟩, _⟩ := ha
      obtain ⟨rfl, hd''⟩ := runs_pure.mp h
      have hafter := (machine shared).drift_trans hd' hd''
      refine ⟨(machine shared).drift_trans hd hafter, fun manifest hm => ?_⟩
      exact ⟨text, v, hd, hholds, hm, hafter⟩
  | error err =>
      obtain ⟨⟨_, rfl⟩, _⟩ := ha
      have hpure : (∃ e, loaded = .error e) ∧ (machine shared).drift w₁ w' := by
        simp only at h
        split at h
        · exact ⟨⟨_, (runs_pure.mp h).1⟩, (runs_pure.mp h).2⟩
        · exact ⟨⟨_, (runs_pure.mp h).1⟩, (runs_pure.mp h).2⟩
      obtain ⟨⟨e, rfl⟩, hd''⟩ := hpure
      have hafter := (machine shared).drift_trans hd' hd''
      exact ⟨(machine shared).drift_trans hd hafter, fun _ he => by cases he⟩

theorem apply_compared {running : Manifest} {r : Except ManagerError Applied}
    (hrunning : m.running = some running)
    (h : Runs ((machine shared).restrict P) (m.apply ctx) w (m', r) w') :
    Compared ((machine shared).restrict P) ctx m running w m' r w' := by
  cases apply_run h with
  | started hn _ =>
      rw [hrunning] at hn
      cases hn
  | unloaded _ err _ hload => exact .unloaded err hload (loadManifest_run hload).1
  | unchanged running' hr hload =>
      rw [hrunning] at hr
      cases hr
      obtain ⟨text, read, hd, hholds, hparse, hd'⟩ := (loadManifest_run hload).2 running rfl
      exact .same text hd hholds hparse hd'
  | restarted running' manifest hr hne hload hstart =>
      rw [hrunning] at hr
      cases hr
      obtain ⟨text, read, hd, hholds, hparse, hd'⟩ := (loadManifest_run hload).2 manifest rfl
      exact .differs text manifest hd hholds hparse hne hd' hstart

theorem Compared.unchanged {M : Machine sys World} {running : Manifest} {r : Except ManagerError Applied}
    (h : Compared M ctx m running w m' r w') (hr : r = .ok .unchanged) :
    m' = m ∧ M.drift w w' ∧ ∃ text read, M.drift w read ∧ Holds read m.paths.servicesFile text ∧
      parseManifest ctx.toml text = .ok running := by
  cases h with
  | unloaded _ _ _ => cases hr
  | same text hd hholds hparse hd' =>
      exact ⟨rfl, M.drift_trans hd hd', text, _, hd, hholds, hparse⟩
  | @differs text manifest _ started =>
      cases started with
      | ok _ => cases hr
      | error _ => cases hr

/-- In every state that requests in any order lead to, the proxy and what it
was started from go together, nothing is left of a stopped manager, and the
operations on one service and apply keep to what they promise. -/
theorem lifecycle (shared : Bool) (P : (c : Call) → Ans c → Prop) (ctx : Context) (paths : ProjectPaths)
    (trace : List (ManagerOp × Outcome)) (m : Manager ctx.glob) (w₀ w : World)
    (hrun : Session ((machine shared).restrict P) (ManagerOp.run ctx) (.new ctx.glob paths) w₀ trace m w) :
    (m.running.isSome ↔ m.proxy.isSome) ∧
    (m.isRunning = false → ∀ services, m.services = some services → Quiet services) ∧
    (∀ manifest, m.running = some manifest → ∃ services proxy, m.services = some services ∧
      m.proxy = some proxy ∧ BuiltFrom ctx m manifest services proxy) ∧
    (∀ (op : ManagerOp) (m' : Manager ctx.glob) (o : Outcome) (w' : World), op.onOne = true →
      m.isRunning = false → Runs ((machine shared).restrict P) (op.run ctx m) w (m', o) w' →
      m' = m ∧ o = .done (.error .notRunning) ∧ (machine shared).drift w w') ∧
    ∀ (running : Manifest) (m' : Manager ctx.glob) (r : Except ManagerError Applied) (w' : World),
      m.running = some running → Runs ((machine shared).restrict P) (m.apply ctx) w (m', r) w' →
      Compared ((machine shared).restrict P) ctx m running w m' r w' ∧
        (r = .ok .unchanged → m' = m ∧ (machine shared).drift w w' ∧ ∃ text read,
          (machine shared).drift w read ∧ Holds read m.paths.servicesFile text ∧
            parseManifest ctx.toml text = .ok running) := by
  have hi : Sound ctx m := hrun.invariant (fun _ m _ => Sound ctx m) (fun _ _ => new_sound ctx paths)
    (fun _ _ _ _ _ _ _ hi hr => op_sound hi hr)
  refine ⟨hi.running_iff, ?_, hi.built, fun op m' o w' => onOne_stopped, ?_⟩
  · intro hr
    exact hi.quiet (by simpa [Manager.isRunning] using hr)
  · intro running m' r w' hrunning hr
    have hc := apply_compared hrunning hr
    exact ⟨hc, hc.unchanged⟩

def externalContext : Context := ⟨ServiceStates.externalReader, literalGlob, fun _ => none, none⟩

def savedWorld : World :=
  ⟨fun _ => none, ⟨fun path => if path = profile.servicesFile then some 0 else none,
    fun _ => bytesOf ServiceStates.externalText, 1⟩⟩

def idleContext : Context := ⟨idleReader, literalGlob, fun _ => none, none⟩

def keptDisk (text : String) : Disk :=
  ⟨fun path => if path = profile.servicesFile then some 0 else none, fun _ => bytesOf text, 1⟩

def idleWorld : World := ⟨fun _ => none, keptDisk idleText⟩

theorem keptDisk_holds (groups : Nat → Option Group) (text : String) :
    Holds ⟨groups, keptDisk text⟩ profile.servicesFile text :=
  ⟨0, by simp [keptDisk], rfl⟩

/-- The text that the file holds is parsed. -/
theorem load_holding {w : World} {text : String} (h : Holds w profile.servicesFile text) :
    Runs ((machine true).restrict startsPolled) (loadManifest idleReader profile.servicesFile) w
      (parseManifest idleReader text) w := by
  have hd := Machine.drift_refl ((machine true).restrict startsPolled) w
  refine runs_bind.mpr ⟨.ok text, w, runs_perform.mpr ⟨w, w, hd, ⟨⟨h, rfl⟩, trivial⟩, hd⟩, ?_⟩
  exact runs_pure.mpr ⟨rfl, hd⟩

theorem load_idle {w : World} (h : Holds w profile.servicesFile idleText) :
    Runs ((machine true).restrict startsPolled) (loadManifest idleReader profile.servicesFile) w
      (.ok idleManifest) w := by
  rw [← parse_idle]
  exact load_holding h

theorem unwritable_polled (child : Child) : unwritable (.tryWait .startLocked child) = false := rfl

def idleDriver : Driver ((machine true).restrict startsPolled) :=
  Steady.polledDriver true unwritable unwritable_polled

def launched (w : World) : (Manager literalGlob × Except ManagerError Manifest) × World :=
  idleDriver.run (Manager.launch idleContext (.new literalGlob profile) idleManifest) w

theorem launched_run {w : World} (h : Holds w profile.servicesFile idleText) :
    Runs ((machine true).restrict startsPolled) (Manager.start idleContext (.new literalGlob profile)) w
      (launched w).1 (launched w).2 :=
  runs_bind.mpr ⟨_, _, runs_pure.mpr ⟨rfl, Machine.drift_refl _ _⟩,
    runs_bind.mpr ⟨_, _, load_idle h, (idleDriver.runs _ trivial).1⟩⟩

def runningManager : Manager literalGlob := (launched idleWorld).1.1

def emptied : World := { (launched idleWorld).2 with disk := keptDisk "" }

def unparsed : ConfigError := ⟨"Invalid TOML: unknown text"⟩

theorem parse_empty : parseManifest idleReader "" = .error unparsed := rfl

theorem apply_failed :
    Runs ((machine true).restrict startsPolled) (runningManager.apply idleContext) emptied
      (runningManager, .error (.config unparsed)) emptied := by
  have hload := load_holding (keptDisk_holds (launched idleWorld).2.groups "")
  rw [parse_empty] at hload
  exact runs_bind.mpr ⟨_, _, hload, runs_pure.mpr ⟨rfl, Machine.drift_refl _ _⟩⟩

def stoppedRun : Manager literalGlob × World := idleDriver.run runningManager.stop emptied

theorem failed_session :
    Session ((machine true).restrict startsPolled) (ManagerOp.run idleContext) (.new literalGlob profile) idleWorld
      ([] ++ [(.start, .started (launched idleWorld).1.2)] ++
        [(.apply, .applied (.error (.config unparsed)))]) runningManager emptied := by
  have hd := Machine.drift_refl ((machine true).restrict startsPolled)
  have hstart := launched_run (keptDisk_holds (fun _ => none) idleText)
  have hedited : (machine true).drift (launched idleWorld).2 emptied := ⟨fun _ => .refl _, fun h => (by cases h)⟩
  refine .step (.step (.start (hd _)) (runs_bind.mpr ⟨_, _, hstart, runs_pure.mpr ⟨rfl, hd _⟩⟩)) ?_
  exact runs_bind.mpr ⟨_, _, apply_failed.drift_left hedited, runs_pure.mpr ⟨rfl, hd _⟩⟩

theorem stopped_session :
    Session ((machine true).restrict startsPolled) (ManagerOp.run idleContext) (.new literalGlob profile) idleWorld
      ([] ++ [(.start, .started (launched idleWorld).1.2)] ++
        [(.apply, .applied (.error (.config unparsed)))] ++ [(.stop, .done (.ok ()))])
      stoppedRun.1 stoppedRun.2 :=
  failed_session.step (runs_bind.mpr ⟨_, _, (idleDriver.runs runningManager.stop trivial).1,
    runs_pure.mpr ⟨rfl, Machine.drift_refl ((machine true).restrict startsPolled) _⟩⟩)

/-- A managed service is started, the file is emptied and applied, and then all is stopped. -/
theorem lifecycle_stopped :
    (∃ services proxy, runningManager.services = some services ∧ runningManager.proxy = some proxy ∧
      BuiltFrom idleContext runningManager idleManifest services proxy) ∧
    Compared ((machine true).restrict startsPolled) idleContext runningManager idleManifest emptied runningManager
      (.error (.config unparsed)) emptied ∧
    stoppedRun.1.running = none ∧ stoppedRun.1.proxy.isSome = false ∧
    ∃ services, stoppedRun.1.services = some services ∧ Quiet services := by
  obtain ⟨_, _, hbuilt, _, hcompared⟩ := lifecycle true startsPolled idleContext profile _ runningManager idleWorld
    emptied failed_session
  obtain ⟨hproxy, hquiet, _⟩ := lifecycle true startsPolled idleContext profile _ stoppedRun.1 idleWorld
    stoppedRun.2 stopped_session
  have hrunning : stoppedRun.1.running = none := rfl
  refine ⟨hbuilt _ rfl, (hcompared _ _ _ _ rfl apply_failed).1, hrunning, ?_, _, rfl, hquiet rfl _ rfl⟩
  rw [hrunning] at hproxy
  exact Bool.eq_false_iff.mpr fun h => absurd (hproxy.mpr h) Bool.false_ne_true

end LocalDevProxy.Lifecycle
