import LocalDevProxy.ChildHandles
import LocalDevProxy.Lifecycle

namespace LocalDevProxy.Survivors

open Lib.Interaction Lib.Fallible Paths Environment Toml Config Routes Os Process ProcessGroups ServiceSteps
  ServiceOperations AcceptedManifests KeptServices ChildHandles Listen ManagerCore ManagerSteps Lifecycle
  HarmlessCalls

variable {ctx : Context} {shared : Bool} {u v w w' : World}

def Cleared (origin w : World) : Prop :=
  ∀ id g, origin.groups id = none → w.groups id = some g → Accounted g

theorem Cleared.still {origin : World} (h : Cleared origin u) (hs : Still u v) : Cleared origin v := by
  intro id g hn hg
  cases hu : u.groups id with
  | none =>
      rw [hs.spawnless id hu] at hg
      cases hg
  | some g₁ =>
      obtain ⟨g', hg', ha⟩ := hs.persists id g₁ hu
      obtain rfl : g' = g := Option.some.inj (hg'.symm.trans hg)
      exact ha.accounted (h id g₁ hn hu)

theorem cleared_refl (w : World) : Cleared w w := by
  intro id g hn hg
  rw [hn] at hg
  cases hg

def records {G : Glob} (m : Manager G) : List ServiceInfo :=
  match m.services with
  | some services => services.services
  | none => []

theorem tracked_cleared {origin : World} {names : List String} {services : List ServiceInfo}
    (h : Tracked origin names services w) (hchild : ∀ info ∈ services, info.child = none) :
    Cleared origin w := by
  intro id g hn hg
  rcases h.traced id g hn hg with ⟨info, hinfo, _, c, hc, _⟩ | ha
  · rw [hchild info hinfo] at hc
    cases hc
  · exact ha

/-- Where the names differ, a live process is the only one of its service. -/
theorem tracked_one_live {origin : World} {names : List String} {services : List ServiceInfo}
    (h : Tracked origin names services w) (hnames : names.Nodup) {id id' : Nat} {g g' : Group}
    (hn : origin.groups id = none) (hg : w.groups id = some g) (hl : g.HasLive)
    (hn' : origin.groups id' = none) (hg' : w.groups id' = some g') (hl' : g'.HasLive)
    (ho : g.owner = g'.owner) : id = id' := by
  rcases h.traced id g hn hg with ⟨i, hi, hiname, c, hc, rfl⟩ | ha
  · rcases h.traced id' g' hn' hg' with ⟨j, hj, hjname, c', hc', rfl⟩ | ha
    · have hij : i = j := List.inj_on_of_nodup_map (h.names ▸ hnames) hi hj (hiname.trans (ho.trans hjname.symm))
      subst hij
      rw [hc] at hc'
      cases hc'
      rfl
    · exact absurd hl' ha.1
  · exact absurd hl ha.1

/-- Services without a child can be begun with once nothing of before is left. -/
theorem cleared_tracked {origin : World} {services : List ServiceInfo} (h : Cleared origin w)
    (hchild : ∀ info ∈ services, info.child = none) :
    Tracked origin (services.map ServiceInfo.name) services w := by
  constructor
  · rfl
  · intro info hinfo c hc
    rw [hchild info hinfo] at hc
    cases hc
  · intro info hinfo hc
    rw [hchild info hinfo] at hc
    cases hc
  · exact fun id g hn hg => .inr (h id g hn hg)

theorem unit_run {M : Machine sys World} {p : Io ServiceManager} {m : ServiceManager} (h : Runs M p w m w') :
    Runs M (do let m ← p; return (m, (.ok () : Except ServiceError Unit))) w (m, .ok ()) w' :=
  runs_bind.mpr ⟨m, w', h, runs_pure.mpr ⟨rfl, M.drift_refl w'⟩⟩

section

variable {origin : World} {names : List String} {services services' : ServiceManager}

theorem run_tracked (op : ServiceOp) {r : Except ServiceError Unit} (ht : Tracked origin names services.services w)
    (h : Runs ((machine shared).restrict startsPolled) (op.run services) w (services', r) w') :
    Tracked origin names services'.services w' :=
  op_tracked ht h

theorem startAll_tracked (ht : Tracked origin names services.services w)
    (h : Runs ((machine shared).restrict startsPolled) services.startAll w services' w') :
    Tracked origin names services'.services w' :=
  run_tracked .startAll ht (unit_run h)

theorem stopAll_tracked (ht : Tracked origin names services.services w)
    (h : Runs ((machine shared).restrict startsPolled) services.stopAll w services' w') :
    Tracked origin names services'.services w' :=
  run_tracked .stopAll ht (unit_run h)

theorem monitorPolls_tracked (ht : Tracked origin names services.services w)
    (h : Runs ((machine shared).restrict startsPolled) (Manager.monitorPolls services) w services' w') :
    Tracked origin names services'.services w' := by
  have htimes : ∀ n {services services' w w'}, Tracked origin names services.services w →
      Runs ((machine shared).restrict startsPolled) (Manager.pollTimes services n) w services' w' →
        Tracked origin names services'.services w' := by
    intro n
    induction n with
    | zero =>
        intro services services' w w' ht h
        obtain ⟨rfl, hd⟩ := runs_pure.mp h
        exact ht.still (still_drift hd)
    | succ n ih =>
        intro services services' w w' ht h
        obtain ⟨polled, w₁, hp, h⟩ := runs_bind.mp h
        exact ih (run_tracked .pollExits ht (unit_run hp)) h
  unfold Manager.monitorPolls at h
  split at h
  · obtain ⟨n, w₁, hn, h⟩ := runs_bind.mp h
    exact htimes n (ht.still (perform_still hn.of_restrict trivial)) h
  · obtain ⟨rfl, hd⟩ := runs_pure.mp h
    exact ht.still (still_drift hd)

end

/-- The calls that touch no process and write no file. -/
def Aside : Call → Prop
  | .lookupHost _ _ | .listen _ | .localAddr _ | .closeListeners _ | .readToString _ | .createDirAll _ => True
  | _ => False

theorem Aside.harmless {c : Call} (h : Aside c) : Harmless c := by
  cases c <;> trivial

theorem aside_still {α : Type} {p : Io α} {a : α} (hp : p.Only Aside) (h : Runs (machine shared) p w a w') :
    Still w w' :=
  harmless_still (hp.mono fun _ => Aside.harmless) h

theorem listenAll_aside (addrs : List SocketAddr) : (listenAll addrs).Only Aside := by
  induction addrs with
  | nil => exact Prog.only_pure _ _
  | cons addr rest ih =>
      refine Prog.only_bind (Prog.only_perform trivial) (fun listening => ?_)
      cases listening with
      | error source => exact Prog.only_pure _ _
      | ok _ => exact ih

theorem resolveBindHost_aside (host : String) (port : Port) : (resolveBindHost host port).Only Aside := by
  unfold resolveBindHost
  split
  · exact Prog.only_pure _ _
  · refine Prog.only_bind (Prog.only_perform trivial) (fun looked => ?_)
    cases looked with
    | error source => exact Prog.only_pure _ _
    | ok addrs => by_cases haddrs : addrs = [] <;> simp only [haddrs, if_true, if_false] <;> exact Prog.only_pure _ _

theorem listenHosts_aside (port : Port) (hosts : List String) : (listenHosts port hosts).Only Aside := by
  induction hosts with
  | nil => exact Prog.only_pure _ _
  | cons host hosts ih =>
      refine Prog.only_tryThen (resolveBindHost_aside host port) (fun addrs => ?_)
      refine Prog.only_tryThen (listenAll_aside addrs) (fun _ => ?_)
      exact Prog.only_tryThen ih (fun _ => Prog.only_pure _ _)

theorem acceptAll_aside (port : Port) (addrs : List SocketAddr) : (acceptAll port addrs).Only Aside := by
  induction addrs with
  | nil => exact Prog.only_pure _ _
  | cons addr rest ih =>
      refine Prog.only_bind (Prog.only_perform trivial) (fun bound => ?_)
      cases bound with
      | error source => exact Prog.only_pure _ _
      | ok _ => exact Prog.only_tryThen ih (fun _ => Prog.only_pure _ _)

theorem bind_aside {G : Glob} (routes : RouteTable G) (port : Port) (hosts : List String) :
    (ProxyServer.bind routes port hosts).Only Aside := by
  refine Prog.only_tryThen (listenHosts_aside port hosts) (fun addrs => ?_)
  exact Prog.only_tryThen (acceptAll_aside port addrs) (fun _ => Prog.only_pure _ _)

theorem shutdownProxy_aside {G : Glob} (m : Manager G) : m.shutdownProxy.Only Aside := by
  unfold Manager.shutdownProxy
  split
  · exact Prog.only_perform trivial
  · exact Prog.only_pure _ _

theorem loadManifest_aside (toml : Reader) (path : Path) : (loadManifest toml path).Only Aside := by
  refine Prog.only_bind (Prog.only_perform trivial) (fun got => ?_)
  cases got with
  | ok text => exact Prog.only_pure _ _
  | error err => dsimp only; split <;> exact Prog.only_pure _ _

theorem new_aside (penv : OsEnv) (manifest : Manifest) (logDir cwd : Path) (limits : LogRotation.LogLimits) :
    (ServiceManager.new penv manifest logDir cwd limits).Only Aside := by
  refine Prog.only_bind (Prog.only_perform trivial) (fun made => ?_)
  cases made with
  | error err => exact Prog.only_pure _ _
  | ok _ => exact Prog.only_pure _ _

/-- Stopping services that hold no child touches no process. -/
theorem stopAll_quiet {services services' : ServiceManager} (hq : Quiet services)
    (h : Runs ((machine shared).restrict startsPolled) services.stopAll w services' w') : Still w w' := by
  obtain ⟨w₁, hs, ht, _, _⟩ := stopAll_run h
  have hall := ht.traverse_rule
    (fun _ rest v => Still w₁ v ∧ ∀ info ∈ rest, info.child = none)
    ⟨still_drift ((machine shared).drift_refl w₁), hq.childless⟩ (fun hi hd => ⟨hi.1.trans (still_drift hd), hi.2⟩) ?_
  · exact hs.trans hall.1
  · rintro done info rest u info' v ⟨hstill, hchild⟩ hr
    refine ⟨hstill.trans ?_, fun i hi => hchild i (List.mem_cons_of_mem _ hi)⟩
    have hnone := hchild info (List.mem_cons_self ..)
    unfold stopManaged at hr
    split at hr
    · cases stopLocked_run hr.of_restrict with
      | idle _ _ hs => exact hs
      | ended child _ _ hc _ _ =>
          rw [hnone] at hc
          cases hc
    · exact still_drift (runs_pure.mp hr).2

/-- What holds of the processes of the manager between any two requests. -/
structure Attended (ctx : Context) (origin : World) (m : Manager ctx.glob) (w : World) : Prop where
  sound : Sound ctx m
  tracked : Tracked origin ((records m).map ServiceInfo.name) (records m) w
  distinct : ((records m).map ServiceInfo.name).Nodup

variable {origin : World} {m m' : Manager ctx.glob}

theorem records_childless (hi : Sound ctx m) (hp : m.proxy = none) : ∀ info ∈ records m, info.child = none := by
  intro info hinfo
  unfold records at hinfo
  cases hs : m.services with
  | none =>
      rw [hs] at hinfo
      cases hinfo
  | some services =>
      rw [hs] at hinfo
      exact (hi.quiet hp services hs).childless info hinfo

theorem Attended.cleared (h : Attended ctx origin m w) (hp : m.proxy = none) : Cleared origin w :=
  tracked_cleared h.tracked (records_childless h.sound hp)

theorem Attended.still (h : Attended ctx origin m u) (hs : Still u v) : Attended ctx origin m v :=
  ⟨h.sound, h.tracked.still hs, h.distinct⟩

/-- The records can be replaced by later ones of the same services. -/
theorem attended_of_tracked {names : List String} (hsound : Sound ctx m') (hnames : names.Nodup)
    (ht : Tracked origin names (records m') w) : Attended ctx origin m' w := by
  obtain rfl := ht.names
  exact ⟨hsound, ht, hnames⟩

theorem new_attended (ctx : Context) (paths : ProjectPaths) (h : Cleared origin w) :
    Attended ctx origin (.new ctx.glob paths) w :=
  ⟨new_sound ctx paths, cleared_tracked h (fun _ hinfo => by cases hinfo), List.nodup_nil⟩

theorem stop_tracked {names : List String} (ht : Tracked origin names (records m) w)
    (h : Runs ((machine shared).restrict startsPolled) m.stop w m' w') :
    Tracked origin names (records m') w' := by
  obtain ⟨stopped, w₁, hp, hs, rfl⟩ := stop_run h
  have ht := ht.still (aside_still (shutdownProxy_aside m) hp.of_restrict)
  unfold records at ht ⊢
  rcases stopServices_run hs with ⟨hnone, rfl, hd⟩ | ⟨services, services', hm, rfl, hstop⟩
  · rw [hnone] at ht
    exact ht.still (still_drift hd)
  · rw [hm] at ht
    exact stopAll_tracked ht hstop

theorem stop_attended (hi : Attended ctx origin m w)
    (h : Runs ((machine shared).restrict startsPolled) m.stop w m' w') :
    Attended ctx origin m' w' ∧ m'.proxy = none := by
  obtain ⟨hsound, hp⟩ := stop_sound hi.sound.grounded h
  exact ⟨attended_of_tracked hsound hi.distinct (stop_tracked hi.tracked h), hp⟩

theorem stopIfRunning_attended (hi : Attended ctx origin m w)
    (h : Runs ((machine shared).restrict startsPolled) m.stopIfRunning w m' w') :
    Attended ctx origin m' w' ∧ m'.proxy = none := by
  have hproxy := (stopIfRunning_sound hi.sound h).2
  rcases stopIfRunning_run h with ⟨_, hs⟩ | ⟨_, rfl, hd⟩
  · exact stop_attended hi hs
  · exact ⟨hi.still (still_drift hd), hproxy⟩

/-- The services of before hold nothing, so the ones that are served are all that matter. -/
theorem served_tracked {manifest : Manifest} {routes : RouteTable ctx.glob} {services : ServiceManager}
    {r : Except ManagerError Manifest} (hi : Attended ctx origin m w) (hproxy : m.proxy = none)
    (hchild : ∀ info ∈ services.services, info.child = none)
    (h : Served ((machine shared).restrict startsPolled) m manifest routes services w m' r w') :
    Tracked origin (services.services.map ServiceInfo.name) (records m') w' := by
  have ht := cleared_tracked (hi.cleared hproxy) hchild
  have hpolled : ∀ {started polled : ServiceManager} {old : Option ServiceManager}
      {bound : Except ProxyError (ProxyServer ctx.glob)} {u₁ u₂ u₃ u₄ : World},
      Runs ((machine shared).restrict startsPolled) services.startAll w started u₁ →
      Runs ((machine shared).restrict startsPolled) m.stopServices u₁ old u₂ →
      Runs ((machine shared).restrict startsPolled)
        (ProxyServer.bind routes manifest.httpPort manifest.bind) u₂ bound u₃ →
      Runs ((machine shared).restrict startsPolled) (Manager.monitorPolls started) u₃ polled u₄ →
      Tracked origin (services.services.map ServiceInfo.name) polled.services u₄ := by
    intro started polled old bound u₁ u₂ u₃ u₄ hstart hold hbind hpoll
    have hstarted := startAll_tracked ht hstart
    have hstill : Still u₁ u₂ := by
      rcases stopServices_run hold with ⟨_, _, hd⟩ | ⟨before, after, hm, _, hstop⟩
      · exact still_drift hd
      · exact stopAll_quiet (hi.sound.quiet hproxy before hm) hstop
    have hbound := aside_still (bind_aside routes manifest.httpPort manifest.bind) hbind.of_restrict
    exact monitorPolls_tracked ((hstarted.still hstill).still hbound) hpoll
  cases h with
  | bound started polled old proxy hstart hold hbind hpoll => exact hpolled hstart hold hbind hpoll
  | unbound started polled old err hstart hold hbind hpoll hstop =>
      exact stop_tracked (m := { m with services := some polled }) (hpolled hstart hold hbind hpoll) hstop

theorem loadManifest_names {toml : Reader} {path : Path} {manifest : Manifest}
    (h : Runs ((machine shared).restrict startsPolled) (loadManifest toml path) w (.ok manifest) w') :
    (manifest.services.map ServiceDef.name).Nodup := by
  obtain ⟨text, _, _, _, hparse, _⟩ := (loadManifest_run h).2 manifest rfl
  exact (parseManifest_names hparse).1

/-- However a start ends, what was started is attended to, and after a failure nothing runs. -/
theorem start_attended (hi : Attended ctx origin m w) {r : Except ManagerError Manifest}
    (h : Runs ((machine shared).restrict startsPolled) (m.start ctx) w (m', r) w') :
    Attended ctx origin m' w' ∧ ∀ err, r = .error err → m'.proxy = none := by
  have hsound := start_sound hi.sound h
  obtain ⟨m₁, w₁, hstop, h⟩ := start_run h
  obtain ⟨hi₁, hproxy⟩ := stopIfRunning_attended hi hstop
  rcases h with ⟨err, hload, rfl, rfl⟩ | ⟨manifest, w₂, hload, hbegun⟩
  · exact ⟨hi₁.still (aside_still (loadManifest_aside _ _) hload.of_restrict), fun _ _ => hproxy⟩
  · have hi₂ := hi₁.still (aside_still (loadManifest_aside _ _) hload.of_restrict)
    cases hbegun with
    | unroutable err _ hd => exact ⟨hi₂.still (still_drift hd), fun _ _ => hproxy⟩
    | unprepared routes err _ hnew =>
        exact ⟨hi₂.still (aside_still (new_aside _ _ _ _ _) hnew.of_restrict), fun _ _ => hproxy⟩
    | served routes services hroutes hnew hserved =>
        have hi₃ := hi₂.still (aside_still (new_aside _ _ _ _ _) hnew.of_restrict)
        obtain ⟨_, hservices, _⟩ := new_run hnew
        have hnames := loadManifest_names hload
        rw [← newServices_names hservices] at hnames
        have ht := served_tracked hi₃ hproxy (fresh_childless hservices) hserved
        refine ⟨attended_of_tracked hsound hnames ht, fun err hr => ?_⟩
        cases hserved with
        | bound _ _ _ _ _ _ _ _ => cases hr
        | unbound _ _ _ _ _ _ _ _ hstop =>
            obtain ⟨_, _, _, _, rfl⟩ := stop_run hstop
            rfl

theorem apply_attended (hi : Attended ctx origin m w) {r : Except ManagerError Applied}
    (h : Runs ((machine shared).restrict startsPolled) (m.apply ctx) w (m', r) w') :
    Attended ctx origin m' w' := by
  have hloaded : ∀ {loaded u}, Runs ((machine shared).restrict startsPolled)
      (loadManifest ctx.toml m.paths.servicesFile) w loaded u → Attended ctx origin m u :=
    fun hload => hi.still (aside_still (loadManifest_aside _ _) hload.of_restrict)
  cases apply_run h with
  | started _ hstart => exact (start_attended hi hstart).1
  | unloaded _ _ _ hload => exact hloaded hload
  | unchanged _ _ hload => exact hloaded hload
  | restarted _ _ _ _ hload hstart => exact (start_attended (hloaded hload) hstart).1

/-- An operation on one service, which is carried out only while the proxy runs. -/
theorem onService_attended (hi : Attended ctx origin m w)
    {action : ServiceManager → Io (ServiceManager × Except ServiceError Unit)} {r : Except ManagerError Unit}
    (hcarried : ∀ {services services' r}, Runs ((machine shared).restrict startsPolled) (action services) w
      (services', r) w' → Carried services services')
    (htracked : ∀ {names services services' r}, Tracked origin names services.services w →
      Runs ((machine shared).restrict startsPolled) (action services) w (services', r) w' →
        Tracked origin names services'.services w')
    (h : Runs ((machine shared).restrict startsPolled) (m.onService action) w (m', r) w') :
    Attended ctx origin m' w' := by
  have hsound := onService_sound hi.sound hcarried h
  rcases onService_run h with ⟨_, services, services', r', hs, ha, rfl⟩ | ⟨rfl, _, hd⟩
  · refine attended_of_tracked hsound hi.distinct (htracked ?_ ha)
    have ht := hi.tracked
    unfold records at ht ⊢
    rw [hs] at ht ⊢
    exact ht
  · exact hi.still (still_drift hd)

section

variable {name : String} {r : Except ManagerError Unit}

theorem startService_attended (hi : Attended ctx origin m w)
    (h : Runs ((machine shared).restrict startsPolled) (m.startService name) w (m', r) w') :
    Attended ctx origin m' w' :=
  onService_attended hi (fun ha => onManaged_carried startLocked_kept ha)
    (fun ht ha => run_tracked (.startService name) ht ha) h

theorem stopService_attended (hi : Attended ctx origin m w)
    (h : Runs ((machine shared).restrict startsPolled) (m.stopService name) w (m', r) w') :
    Attended ctx origin m' w' :=
  onService_attended hi (fun ha => onManaged_carried stopAction_kept ha)
    (fun ht ha => run_tracked (.stopService name) ht ha) h

theorem restartService_attended (hi : Attended ctx origin m w)
    (h : Runs ((machine shared).restrict startsPolled) (m.restartService name) w (m', r) w') :
    Attended ctx origin m' w' :=
  onService_attended hi (fun ha => onManaged_carried restartAction_kept ha)
    (fun ht ha => run_tracked (.restartService name) ht ha) h

end

theorem monitorTick_attended (hi : Attended ctx origin m w)
    (h : Runs ((machine shared).restrict startsPolled) (monitorTick m) w m' w') :
    Attended ctx origin m' w' := by
  have hsound := monitorTick_sound hi.sound h
  unfold monitorTick at h
  cases hs : m.services with
  | none =>
      rw [hs] at h
      obtain ⟨rfl, hd⟩ := runs_pure.mp h
      exact hi.still (still_drift hd)
  | some services =>
      rw [hs] at h
      obtain ⟨services', w₁, hp, h⟩ := runs_bind.mp h
      obtain ⟨rfl, hd⟩ := runs_pure.mp h
      refine attended_of_tracked hsound hi.distinct ?_
      have ht := hi.tracked
      unfold records at ht ⊢
      rw [hs] at ht ⊢
      exact (monitorPolls_tracked ht hp).still (still_drift hd)

theorem saveConfig_harmless (m : Manager ctx.glob) (text : String) : (m.saveConfig ctx text).Only Harmless := by
  unfold Manager.saveConfig
  split
  · exact Prog.only_pure _ _
  · refine Prog.only_bind ?_ (fun _ => Prog.only_pure _ _)
    exact Prog.only_tryThen (Prog.only_perform trivial) (fun _ => Prog.only_perform trivial)

theorem op_attended (hi : Attended ctx origin m w) {op : ManagerOp} {o : Outcome}
    (h : Runs ((machine shared).restrict startsPolled) (op.run ctx m) w (m', o) w') :
    Attended ctx origin m' w' := by
  cases op with
  | start =>
      obtain ⟨r, hr, _⟩ := labelled_run h
      exact (start_attended hi hr).1
  | apply =>
      obtain ⟨r, hr, _⟩ := labelled_run h
      exact apply_attended hi hr
  | stop =>
      obtain ⟨m₁, w₁, hs, h⟩ := runs_bind.mp h
      obtain ⟨he, hd⟩ := runs_pure.mp h
      cases he
      exact (stop_attended hi hs).1.still (still_drift hd)
  | startService name =>
      obtain ⟨r, hr, _⟩ := labelled_run h
      exact startService_attended hi hr
  | stopService name =>
      obtain ⟨r, hr, _⟩ := labelled_run h
      exact stopService_attended hi hr
  | restartService name =>
      obtain ⟨r, hr, _⟩ := labelled_run h
      exact restartService_attended hi hr
  | saveConfig text =>
      obtain ⟨r, w₁, hs, h⟩ := runs_bind.mp h
      obtain ⟨he, hd⟩ := runs_pure.mp h
      cases he
      exact (hi.still (harmless_still (saveConfig_harmless m text) hs.of_restrict)).still (still_drift hd)
  | tick =>
      obtain ⟨m₁, w₁, ht, h⟩ := runs_bind.mp h
      obtain ⟨he, hd⟩ := runs_pure.mp h
      cases he
      exact (monitorTick_attended hi ht).still (still_drift hd)

theorem session_attended {paths : ProjectPaths} {trace : List (ManagerOp × Outcome)}
    (h : Session ((machine shared).restrict startsPolled) (ManagerOp.run ctx) (.new ctx.glob paths) origin trace
      m w) : Attended ctx origin m w :=
  h.invariant (fun _ m w => Attended ctx origin m w)
    (fun _ hd => new_attended ctx paths ((cleared_refl origin).still (still_drift hd)))
    (fun _ _ _ _ _ _ _ hi hr => op_attended hi hr)

/-- Whatever was asked of the manager and however it ended, each process is held by
the service it was started for, which is reported as running, or it is accounted for.
No service has two live processes, and none is left while the manager does not run,
as after a stop or a start that failed. -/
theorem manager_leaves_none (shared : Bool) (ctx : Context) (paths : ProjectPaths)
    (trace : List (ManagerOp × Outcome)) (m : Manager ctx.glob) (w₀ w : World)
    (hrun : Session ((machine shared).restrict startsPolled) (ManagerOp.run ctx) (.new ctx.glob paths) w₀ trace
      m w) :
    (∀ id g, w₀.groups id = none → w.groups id = some g →
      (∃ services info c, m.services = some services ∧ info ∈ services.services ∧ info.name = g.owner ∧
        info.status = .running ∧ info.child = some c ∧ c.id = id) ∨ Accounted g) ∧
    (∀ id id' g g', w₀.groups id = none → w.groups id = some g → g.HasLive →
      w₀.groups id' = none → w.groups id' = some g' → g'.HasLive → g.owner = g'.owner → id = id') ∧
    (m.isRunning = false → Cleared w₀ w) ∧
    ∀ (m' : Manager ctx.glob) (err : ManagerError) (w' : World),
      Runs ((machine shared).restrict startsPolled) (m.start ctx) w (m', .error err) w' →
        m'.isRunning = false ∧ Cleared w₀ w' := by
  have hi := session_attended hrun
  have hstopped : ∀ {m : Manager ctx.glob}, m.isRunning = false → m.proxy = none := by
    intro m hr
    simpa [Manager.isRunning] using hr
  refine ⟨?_, ?_, fun hr => hi.cleared (hstopped hr), ?_⟩
  · intro id g hn hg
    rcases hi.tracked.traced id g hn hg with ⟨info, hinfo, hname, c, hc, hid⟩ | ha
    · have hreported := hi.tracked.reported info hinfo (by rw [hc]; rfl)
      unfold records at hinfo
      cases hs : m.services with
      | none =>
          rw [hs] at hinfo
          cases hinfo
      | some services =>
          rw [hs] at hinfo
          exact .inl ⟨services, info, c, rfl, hinfo, hname, hreported, hc, hid⟩
    · exact .inr ha
  · exact fun id id' g g' => tracked_one_live hi.tracked hi.distinct
  · intro m' err w' hstart
    obtain ⟨hi', hfailed⟩ := start_attended hi hstart
    have hproxy := hfailed err rfl
    exact ⟨by rw [Manager.isRunning, hproxy]; rfl, hi'.cleared hproxy⟩

def halted : Manager literalGlob × World := idleDriver.run (launched idleWorld).1.1.stop (launched idleWorld).2

theorem halted_session :
    Session ((machine true).restrict startsPolled) (ManagerOp.run idleContext) (.new literalGlob profile) idleWorld
      ([] ++ [(.start, .started (launched idleWorld).1.2)] ++ [(.stop, .done (.ok ()))]) halted.1 halted.2 := by
  have hd := Machine.drift_refl ((machine true).restrict startsPolled)
  have hstart := launched_run (keptDisk_holds (fun _ => none) idleText)
  have hstop := (idleDriver.runs (launched idleWorld).1.1.stop (w := (launched idleWorld).2) trivial).1
  refine .step (.step (.start (hd _)) (runs_bind.mpr ⟨_, _, hstart, runs_pure.mpr ⟨rfl, hd _⟩⟩)) ?_
  exact runs_bind.mpr ⟨_, _, hstop, runs_pure.mpr ⟨rfl, hd _⟩⟩

theorem manager_leaves_none_idle :
    ∃ g, halted.2.groups 1 = some g ∧ g.owner = "app" ∧ Accounted g :=
  ⟨_, rfl, rfl, (manager_leaves_none true idleContext profile _ halted.1 idleWorld halted.2 halted_session).2.2.1
    rfl 1 _ rfl rfl⟩

/-- Stopping a service again leaves its record as it is and makes no call. -/
theorem stopManaged_again {P : (c : Call) → Ans c → Prop} {info info' : ServiceInfo}
    (h : Runs ((machine shared).restrict P) (stopManaged info) w info' w') :
    stopManaged info' = return info' := by
  have hsettled : ∀ {i : ServiceInfo}, i.child = none → i.capture = none → i.status = .stopped →
      stopManaged i = return i := by
    intro i hchild hcapture hstatus
    obtain ⟨name, launch, status, exitCode, restarts, child, capture⟩ := i
    obtain rfl : child = none := hchild
    obtain rfl : capture = none := hcapture
    obtain rfl : status = .stopped := hstatus
    cases launch with
    | none => rfl
    | some launch => rfl
  unfold stopManaged at h
  split at h
  · cases stopLocked_run h.of_restrict with
    | idle _ hchild _ => exact hsettled hchild rfl rfl
    | ended child status _ _ _ _ => exact hsettled rfl rfl rfl
  · rename_i hl
    obtain ⟨rfl, _⟩ := runs_pure.mp h
    rw [stopManaged, if_neg hl]

theorem stopAll_again {P : (c : Call) → Ans c → Prop} {services services' : ServiceManager}
    (h : Runs ((machine shared).restrict P) services.stopAll w services' w') :
    services'.stopAll = return services' := by
  obtain ⟨_, _, ht, _, hmonitor⟩ := stopAll_run h
  have hfixed : ∀ info ∈ services'.services, stopManaged info = return info := by
    intro info hinfo
    obtain ⟨_, _, _, _, hr⟩ := exists_of_forall₂ ht.traverse_forall₂ info hinfo
    exact stopManaged_again hr
  rw [ServiceManager.stopAll, ServiceManager.stopMonitor, if_neg (by rw [hmonitor]; decide)]
  change (Prog.traverse stopManaged services'.services >>= fun services => return { services' with services }) = _
  rw [Prog.traverse_pure hfixed]
  rfl

/-- The services a stopped manager still has are stopped, so that stopping them does nothing. -/
theorem stopAll_of_stop {P : (c : Call) → Ans c → Prop} {G : Glob} {m m' : Manager G}
    (h : Runs ((machine shared).restrict P) m.stop w m' w') {services : ServiceManager}
    (hsome : m'.services = some services) : services.stopAll = pure services := by
  obtain ⟨stopped, w₁, _, hs, rfl⟩ := stop_run h
  rcases stopServices_run hs with ⟨_, rfl, _⟩ | ⟨services₀, services₁, _, rfl, hstop⟩
  · cases hsome
  · cases hsome
    exact stopAll_again hstop

/-- Once a stop has returned, neither the stop of a manager that is dropped nor the
one of its services makes a call or changes anything. -/
theorem stop_again (shared : Bool) (P : (c : Call) → Ans c → Prop) {G : Glob} (m m' : Manager G) (w w' : World)
    (h : Runs ((machine shared).restrict P) m.stop w m' w') :
    m'.stop = pure m' ∧ ∀ services, m'.services = some services → services.stopAll = pure services := by
  refine ⟨?_, fun services hsome => stopAll_of_stop h hsome⟩
  obtain ⟨stopped, w₁, _, hs, rfl⟩ := stop_run h
  rcases stopServices_run hs with ⟨_, rfl, _⟩ | ⟨services, services', _, rfl, hstop⟩
  · rfl
  · have hagain := stopAll_again hstop
    simp only [Manager.stop, Manager.shutdownProxy, Manager.stopServices, hagain]
    rfl

theorem stop_again_halted : halted.1.stop = pure halted.1 :=
  (stop_again true startsPolled (launched idleWorld).1.1 halted.1 (launched idleWorld).2 halted.2
    (idleDriver.runs (launched idleWorld).1.1.stop trivial).1).1

end LocalDevProxy.Survivors
