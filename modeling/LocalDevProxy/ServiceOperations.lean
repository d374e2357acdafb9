import LocalDevProxy.ServiceSteps

namespace LocalDevProxy.ServiceOperations

open Lib.Interaction Lib.Fallible Paths Environment Config Os LogRotation Process ServiceSteps

/-- What can be asked of a service manager. The crash monitor polls as well. -/
inductive ServiceOp
  | startAll
  | stopAll
  | startService (name : String)
  | stopService (name : String)
  | restartService (name : String)
  | pollExits
deriving DecidableEq

namespace ServiceOp

def run : ServiceOp → ServiceManager → Io (ServiceManager × Except ServiceError Unit)
  | .startAll, m => do
      let m ← m.startAll
      return (m, .ok ())
  | .stopAll, m => do
      let m ← m.stopAll
      return (m, .ok ())
  | .startService name, m => m.startService name
  | .stopService name, m => m.stopService name
  | .restartService name, m => m.restartService name
  | .pollExits, m => do
      let m ← m.pollExits
      return (m, .ok ())

def target : ServiceOp → Option String
  | .startService name => some name
  | .stopService name => some name
  | .restartService name => some name
  | _ => none

end ServiceOp

variable {M : Machine sys World} {w w' : World}

/-- A service addressed by name: none has the name, or the first that has it
is not managed, or it goes through the action. -/
inductive Addressed (M : Machine sys World) (name : String)
    (action : ServiceInfo → Io (ServiceInfo × Except ServiceError Unit)) (services : List ServiceInfo)
    (w : World) : List ServiceInfo → Except ServiceError Unit → World → Prop
  | unknown (w' : World) : (∀ info ∈ services, info.name ≠ name) → M.drift w w' →
      Addressed M name action services w services (.error (.unknown name)) w'
  | unmanaged (info : ServiceInfo) (w' : World) : info ∈ services → info.name = name →
      info.launch = none → M.drift w w' →
      Addressed M name action services w services (.error (.unmanaged name)) w'
  | managed (before after : List ServiceInfo) (info info' : ServiceInfo)
      (r : Except ServiceError Unit) (w' : World) : services = before ++ info :: after →
      (∀ i ∈ before, i.name ≠ name) → info.name = name → info.launch.isSome →
      Runs M (action info) w (info', r) w' →
      Addressed M name action services w (before ++ info' :: after) r w'

theorem withManaged_run {name : String}
    {action : ServiceInfo → Io (ServiceInfo × Except ServiceError Unit)}
    {services services' : List ServiceInfo} {r : Except ServiceError Unit}
    (h : Runs M (withManaged name action services) w (services', r) w') :
    Addressed M name action services w services' r w' := by
  induction services generalizing w services' r with
  | nil =>
      obtain ⟨he, hd⟩ := runs_pure.mp h
      cases he
      exact .unknown w' (fun _ hi => absurd hi List.not_mem_nil) hd
  | cons info rest ih =>
      unfold withManaged at h
      split at h
      · rename_i hname
        split at h
        · rename_i hlaunch
          obtain ⟨he, hd⟩ := runs_pure.mp h
          cases he
          exact .unmanaged info w' (List.mem_cons_self ..) hname (by simpa using hlaunch) hd
        · rename_i hlaunch
          obtain ⟨⟨info', r'⟩, w₁, ha, h⟩ := runs_bind.mp h
          obtain ⟨he, hd⟩ := runs_pure.mp h
          cases he
          exact .managed [] rest info info' _ w' rfl (fun _ hi => absurd hi List.not_mem_nil) hname
            (by cases hl : info.launch <;> simp_all) (ha.drift_right hd)
      · rename_i hname
        obtain ⟨⟨rest', r'⟩, w₁, ha, h⟩ := runs_bind.mp h
        obtain ⟨he, hd⟩ := runs_pure.mp h
        cases he
        cases ih (ha.drift_right hd) with
        | unknown _ hn hd => exact .unknown w' (by simpa using ⟨hname, hn⟩) hd
        | unmanaged i _ hi hn hl hd => exact .unmanaged i w' (List.mem_cons_of_mem _ hi) hn hl hd
        | managed before after i i' _ _ hs hb hn hl hr =>
            exact .managed (info :: before) after i i' _ w' (by rw [hs, List.cons_append])
              (by simpa using ⟨hname, hb⟩) hn hl hr

theorem onManaged_run {m m' : ServiceManager} {name : String}
    {action : ServiceInfo → Io (ServiceInfo × Except ServiceError Unit)} {r : Except ServiceError Unit}
    (h : Runs M (m.onManaged name action) w (m', r) w') :
    ∃ services, m' = { m with services } ∧
      Addressed M name action m.services w services r w' := by
  obtain ⟨⟨services, r'⟩, w₁, ha, h⟩ := runs_bind.mp h
  obtain ⟨he, hd⟩ := runs_pure.mp h
  cases he
  exact ⟨services, rfl, withManaged_run (ha.drift_right hd)⟩

variable {shared : Bool} {P : (c : Call) → Ans c → Prop}

theorem startMonitor_run {m m' : ServiceManager}
    (h : Runs ((machine shared).restrict P) m.startMonitor w m' w') :
    m'.shared = m.shared ∧ m'.services = m.services ∧ Still w w' := by
  have hstill : Still w w' := by
    refine harmless_still ?_ h.of_restrict
    unfold ServiceManager.startMonitor
    split
    · exact Prog.only_pure _ _
    · exact Prog.only_bind (Prog.only_perform trivial) (fun _ => Prog.only_pure _ _)
  unfold ServiceManager.startMonitor at h
  split at h
  · obtain ⟨rfl, _⟩ := runs_pure.mp h
    exact ⟨rfl, rfl, hstill⟩
  · obtain ⟨monitor, w₁, _, h⟩ := runs_bind.mp h
    obtain ⟨rfl, _⟩ := runs_pure.mp h
    exact ⟨rfl, rfl, hstill⟩

theorem stopMonitor_run {m m' : ServiceManager}
    (h : Runs ((machine shared).restrict P) m.stopMonitor w m' w') :
    m' = { m with monitor := false } ∧ Still w w' := by
  have hstill : Still w w' := by
    refine harmless_still ?_ h.of_restrict
    unfold ServiceManager.stopMonitor
    split
    · exact Prog.only_bind (Prog.only_perform trivial) (fun _ => Prog.only_pure _ _)
    · exact Prog.only_pure _ _
  unfold ServiceManager.stopMonitor at h
  split at h
  · obtain ⟨_, w₁, _, h⟩ := runs_bind.mp h
    exact ⟨(runs_pure.mp h).1, hstill⟩
  · rename_i hm
    obtain ⟨rfl, _⟩ := runs_pure.mp h
    exact ⟨by rw [← Bool.eq_false_iff.mpr hm], hstill⟩

theorem startAll_run {m m' : ServiceManager}
    (h : Runs ((machine shared).restrict P) m.startAll w m' w') :
    ∃ w₁, Runs ((machine shared).restrict P) (Prog.traverse (startAuto m.shared) m.services) w
      m'.services w₁ ∧ m'.shared = m.shared ∧ Still w₁ w' := by
  obtain ⟨services, w₁, ht, h⟩ := runs_bind.mp h
  obtain ⟨hshared, hservices, hs⟩ := startMonitor_run h
  exact ⟨w₁, hservices ▸ ht, hshared, hs⟩

theorem stopAll_run {m m' : ServiceManager}
    (h : Runs ((machine shared).restrict P) m.stopAll w m' w') :
    ∃ w₁, Still w w₁ ∧ Runs ((machine shared).restrict P) (Prog.traverse stopManaged m.services) w₁
      m'.services w' ∧ m'.shared = m.shared ∧ m'.monitor = false := by
  obtain ⟨quiet, w₁, hq, h⟩ := runs_bind.mp h
  obtain ⟨services, w₂, ht, h⟩ := runs_bind.mp h
  obtain ⟨rfl, hd⟩ := runs_pure.mp h
  obtain ⟨rfl, hs⟩ := stopMonitor_run hq
  exact ⟨w₁, hs, ht.drift_right hd, rfl, rfl⟩

theorem pollExits_run {m m' : ServiceManager}
    (h : Runs ((machine shared).restrict P) m.pollExits w m' w') :
    Runs ((machine shared).restrict P) (Prog.traverse pollInfo m.services) w m'.services w' ∧
      m'.shared = m.shared ∧ m'.monitor = m.monitor := by
  obtain ⟨services, w₁, ht, h⟩ := runs_bind.mp h
  obtain ⟨rfl, hd⟩ := runs_pure.mp h
  exact ⟨ht.drift_right hd, rfl, rfl⟩

theorem run_of_unit {p : Io ServiceManager} {m : ServiceManager} {r : Except ServiceError Unit}
    (h : Runs M (do let m ← p; return (m, .ok ())) w (m, r) w') : Runs M p w m w' ∧ r = .ok () := by
  obtain ⟨_, w₁, hp, h⟩ := runs_bind.mp h
  obtain ⟨he, hd⟩ := runs_pure.mp h
  cases he
  exact ⟨hp.drift_right hd, rfl⟩

/-- Where the log directory can be made, making a manager depends on its services alone. -/
theorem new_runs (penv : OsEnv) (manifest : Manifest) {logDir : Path} (cwd : Path) (limits : LogLimits)
    (hmade : M.answers (.createDirAll logDir) w (.ok ()) w) :
    Runs M (ServiceManager.new penv manifest logDir cwd limits) w
      ((newServices penv manifest).map fun services => ⟨⟨logDir, cwd, limits⟩, services, false⟩) w :=
  runs_step (.createDirAll logDir) (.ok ()) hmade (.pure (M.drift_refl w))

theorem new_run {penv : OsEnv} {manifest : Manifest} {logDir cwd : Path} {limits : LogLimits}
    {m : ServiceManager}
    (h : Runs M (ServiceManager.new penv manifest logDir cwd limits) w (.ok m) w') :
    m.shared = ⟨logDir, cwd, limits⟩ ∧ newServices penv manifest = .ok m.services ∧
      m.monitor = false := by
  obtain ⟨created, w₁, _, h⟩ := runs_bind.mp h
  cases created with
  | error err => cases (runs_pure.mp h).1
  | ok _ =>
      obtain ⟨he, _⟩ := runs_pure.mp h
      cases hs : newServices penv manifest with
      | error err =>
          rw [hs] at he
          cases he
      | ok services =>
          rw [hs] at he
          cases he
          exact ⟨rfl, rfl, rfl⟩

/-- A new service has not been started, and it is managed exactly when it is
enabled and has a command. -/
theorem newService_run {penv : OsEnv} {service : ServiceDef} {info : ServiceInfo}
    (h : newService penv service = .ok info) :
    info.name = service.name ∧ info.exitCode = none ∧ info.restartCount = 0 ∧ info.child = none ∧
      info.capture = none ∧ newLaunch penv service = .ok (info.launch, info.status) := by
  obtain ⟨⟨launch, status⟩, hl, h⟩ := bind_eq_ok.mp h
  cases h
  exact ⟨rfl, rfl, rfl, rfl, rfl, hl⟩

theorem newLaunch_status {penv : OsEnv} {service : ServiceDef} {launch : Option Launch}
    {status : ServiceStatus} (h : newLaunch penv service = .ok (launch, status)) :
    (launch = none ∧ (status = .unmanaged ∨ status = .disabled)) ∨
      (launch.isSome ∧ status = .stopped) := by
  unfold newLaunch at h
  split at h
  · cases h
    exact .inl ⟨rfl, .inr rfl⟩
  · cases h
    exact .inl ⟨rfl, .inl rfl⟩
  · obtain ⟨command, _, h⟩ := bind_eq_ok.mp h
    cases h
    exact .inr ⟨rfl, rfl⟩

theorem newServices_names {penv : OsEnv} {manifest : Manifest} {services : List ServiceInfo}
    (h : newServices penv manifest = .ok services) :
    services.map ServiceInfo.name = manifest.services.map ServiceDef.name := by
  have hall := collect_eq_ok.mp h
  clear h
  generalize manifest.services = defs at hall
  induction hall with
  | nil => rfl
  | cons hs _ ih => rw [List.map_cons, List.map_cons, (newService_run hs).1, ih]

theorem fresh_childless {penv : OsEnv} {manifest : Manifest} {services : List ServiceInfo}
    (h : newServices penv manifest = .ok services) : ∀ i ∈ services, i.child = none := by
  intro i hi
  obtain ⟨service, _, hs⟩ := mem_of_collect_eq_ok h hi
  exact (newService_run hs).2.2.2.1

end LocalDevProxy.ServiceOperations
