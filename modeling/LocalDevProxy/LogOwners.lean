import LocalDevProxy.ChildHandles
import LocalDevProxy.FileOwners
import LocalDevProxy.KeptServices

namespace LocalDevProxy.LogOwners

open Lib.Interaction Lib.Fallible Paths Environment Toml Config Os LogRotation LogFamilies LogSlots Process
  AcceptedManifests ServiceOperations KeptServices ChildHandles FileOwners

def starts (services : List ServiceInfo) (name : String) : ServiceOp → Bool
  | .startService other | .restartService other => other = name
  | .startAll => services.any fun info => info.name = name && info.launch.any Launch.autoStart
  | .stopAll | .stopService _ | .pollExits => false

variable {paths : ProjectPaths} {limits : LogLimits} {name : String}

/-- The log of a service has nothing of the log of another. -/
theorem serviceLog_clear {other : String} (h : Plain name) (hother : Plain other) (hne : other ≠ name) :
    Clear (InFamily (serviceLog paths limits name)) (serviceLog paths limits other) := by
  have hseparate : SeparateFamilies false (serviceLog paths limits other) (serviceLog paths limits name) :=
    (separate_iff hother h).mpr hne
  exact fun p hp hown => hseparate p p hp hown ⟨rfl, rfl⟩

variable {cwd : Path} {services : List ServiceInfo} {m : ServiceManager}

/-- An operation that cannot start the service leaves its log alone. -/
theorem op_spares (h : Plain name) (hplain : ∀ info ∈ services, Plain info.name)
    (hkept : Carried ⟨⟨paths.logsDir, cwd, limits⟩, services, false⟩ m) {op : ServiceOp}
    (hop : starts services name op = false) : Spares (InFamily (serviceLog paths limits name)) (op.run m) := by
  have hclear {info : ServiceInfo} (hinfo : info ∈ m.services) (hne : info.name ≠ name) :
      Clear (InFamily (serviceLog paths limits name)) (m.shared.logPath info.name) := by
    obtain ⟨old, hold, hk⟩ := exists_of_forall₂ hkept.services info hinfo
    rw [hkept.shared]
    exact serviceLog_clear h (hk.name ▸ hplain old hold) hne
  cases op with
  | startAll =>
      refine spares_bind (startAll_spares fun info hinfo hauto => hclear hinfo fun hsame => ?_) fun _ => spares_pure _
      obtain ⟨old, hold, hk⟩ := exists_of_forall₂ hkept.services info hinfo
      rw [hk.name] at hsame
      rw [hk.launch] at hauto
      refine Bool.eq_false_iff.mp hop (List.any_eq_true.mpr ⟨old, hold, ?_⟩)
      rw [hauto, decide_eq_true hsame]
      rfl
  | stopAll => exact spares_bind (stopAll_spares m) fun _ => spares_pure _
  | startService other =>
      have hne : other ≠ name := of_decide_eq_false hop
      exact startService_spares fun info hinfo hsame => hclear hinfo (hsame ▸ hne)
  | stopService other => exact stopService_spares other
  | restartService other =>
      have hne : other ≠ name := of_decide_eq_false hop
      exact restartService_spares fun info hinfo hsame => hclear hinfo (hsame ▸ hne)
  | pollExits => exact spares_bind (pollExits_spares m) fun _ => spares_pure _

theorem run_carried {P : (c : Call) → Ans c → Prop} {shared : Bool} {m' : ServiceManager} {op : ServiceOp}
    {r : Except ServiceError Unit} {w w' : World}
    (h : Runs ((machine shared).restrict P) (op.run m) w (m', r) w') : Carried m m' := by
  have hunit {p : Io ServiceManager} (hp : ∀ {m'}, Runs ((machine shared).restrict P) p w m' w' → Carried m m')
      (h : Runs ((machine shared).restrict P) (do let m ← p; return (m, .ok ())) w (m', r) w') : Carried m m' := by
    obtain ⟨m₁, x, hr, h⟩ := runs_bind.mp h
    obtain ⟨he, hd⟩ := runs_pure.mp h
    cases he
    exact hp (hr.drift_right hd)
  cases op with
  | startAll => exact hunit startAll_carried h
  | stopAll => exact hunit (fun hs => (stopAll_carried hs).1) h
  | startService name => exact onManaged_carried startLocked_kept h
  | stopService name => exact onManaged_carried stopAction_kept h
  | restartService name => exact onManaged_carried restartAction_kept h
  | pollExits => exact hunit pollExits_carried h

/-- While nobody else writes to the log of a service, its files are at every moment what they
were, whatever the manager of the services is asked for and whatever fails, until it is asked
to start that service. -/
theorem log_changes_by_its_starts {toml : Reader} {text : String} {manifest : Manifest} {env : OsEnv}
    (hparse : parseManifest toml text = .ok manifest) (hnew : newServices env manifest = .ok services)
    (hname : ∃ service ∈ manifest.services, service.name = name)
    {trace : List (ServiceOp × Except ServiceError Unit)} {w₀ w v : World} {op : ServiceOp}
    (hr : Reserved (InFamily (serviceLog paths limits name)) w₀.disk)
    (h : Session (undisturbed (InFamily (serviceLog paths limits name))) ServiceOp.run
      ⟨⟨paths.logsDir, cwd, limits⟩, services, false⟩ w₀ trace m w)
    (hops : ∀ entry ∈ trace, starts services name entry.1 = false) (hop : starts services name op = false)
    (hv : Visits (undisturbed (InFamily (serviceLog paths limits name))) (op.run m) w v) :
    ∀ p, InFamily (serviceLog paths limits name) p →
      v.disk.names p = w₀.disk.names p ∧ content v.disk p = content w₀.disk p := by
  have hplain := plain_of_accepted hparse (.inr hname)
  have hothers := plain_of_new hparse hnew
  have hsession := h.invariant
    (fun trace m w => (∀ entry ∈ trace, starts services name entry.1 = false) →
      Carried ⟨⟨paths.logsDir, cwd, limits⟩, services, false⟩ m ∧
        LeftAlone (InFamily (serviceLog paths limits name)) w₀.disk w.disk)
    (fun u hd _ => ⟨.refl _, hd.2⟩)
    (fun trace m u op m' r u' hi hrun hops => by
      obtain ⟨hcarried, halone⟩ := hi fun entry hentry => hops entry (List.mem_append_left _ hentry)
      have hspares := op_spares hplain hothers hcarried (hops (op, r) (List.mem_append_right _ List.mem_cons_self))
      refine ⟨hcarried.trans (run_carried (runs_anyhow hrun)), ?_⟩
      exact halone.trans (spares_run hspares (halone.reserved hr) hrun))
  obtain ⟨hcarried, halone⟩ := hsession hops
  have hmoment := halone.trans (spares_visits (op_spares hplain hothers hcarried hop) (halone.reserved hr) hv)
  exact fun p hp => ⟨hmoment.names p hp, hmoment.content hp⟩

def pairText : String :=
  withHeader <|
    "[services.app]\n" ++
    "command = [\"idle\"]\n" ++
    "[services.web]\n" ++
    "command = [\"serve\"]\n"

def pairTable : Table :=
  headedTable [("app", .table [("command", .array [.string "idle"])]),
    ("web", .table [("command", .array [.string "serve"])])]

def pairReader : Reader :=
  .knowing pairText pairTable (distinctKeys_headedTable (by simp))

def pairManifest : Manifest :=
  headedManifest [⟨"app", some ["idle"], [], [], false, true⟩, ⟨"web", some ["serve"], [], [], false, true⟩]

theorem parse_pair : parseManifest pairReader pairText = .ok pairManifest :=
  parseManifest_knowing _ _ _

def pairServices : List ServiceInfo :=
  [⟨"app", some ⟨["idle"], childEnv (fun _ => none) ⟨"app", some ["idle"], [], [], false, true⟩, true⟩,
      .stopped, none, 0, none, none⟩,
    ⟨"web", some ⟨["serve"], childEnv (fun _ => none) ⟨"web", some ["serve"], [], [], false, true⟩, true⟩,
      .stopped, none, 0, none, none⟩]

def pairManager : ServiceManager := ⟨⟨profile.logsDir, parse "/p", .default⟩, pairServices, false⟩

def appWorld : World :=
  ⟨fun _ => none, ⟨fun path => if path = profile.logsDir.join "app.log" then some 0 else none,
    fun _ => bytesOf "started\n", 1⟩⟩

def quietDriver : Driver (undisturbed (InFamily (serviceLog profile .default "app"))) := steady _ fun _ => false

def startedWeb : (ServiceManager × Except ServiceError Unit) × World :=
  quietDriver.run (ServiceOp.run (.startService "web") pairManager) appWorld

theorem startedWeb_session : Session (undisturbed (InFamily (serviceLog profile .default "app"))) ServiceOp.run
    pairManager appWorld [(.startService "web", startedWeb.1.2)] startedWeb.1.1 startedWeb.2 :=
  .single (quietDriver.runs _ trivial).1

/-- Another service is started, with a log of its own, and all are stopped. -/
theorem log_changes_by_its_starts_web :
    startedWeb.2.disk.names (profile.logsDir.join "web.log") = some 1 ∧
      content (quietDriver.run (ServiceOp.run .stopAll startedWeb.1.1) startedWeb.2).2.disk
        (profile.logsDir.join "app.log") = some (bytesOf "started\n") := by
  have hkept := log_changes_by_its_starts parse_pair rfl ⟨_, List.mem_cons_self, rfl⟩ (reserved_single _ _ _)
    startedWeb_session (fun entry hentry => by rw [List.mem_singleton.mp hentry]; rfl) rfl
    (quietDriver.runs (ServiceOp.run .stopAll startedWeb.1.1) trivial).1.visits
  exact ⟨rfl, (hkept _ (.inl rfl)).2⟩

end LocalDevProxy.LogOwners
