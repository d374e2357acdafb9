import LocalDevProxy.Survivors

namespace LocalDevProxy.Headless

open Lib.Interaction Paths Config Routes Os Process ProcessGroups ServiceSteps HarmlessCalls LogRotation ManagerCore
  Lifecycle Survivors

inductive AppEvent
  | activate
  | shutdown
deriving DecidableEq

inductive ExitCode
  | success
  | failure
deriving DecidableEq

variable {G : Glob}

/-- A manager that goes out of scope stops, and then its services do. -/
def dropManager (m : Manager G) : Io Unit := do
  let m ← m.stop
  match m.services with
  | some services => do
      let _ ← services.stopAll
      return ()
  | none => return ()

section

variable (ctx : Context)

/-- The events that are received, until every sender has dropped. While the frontend
waits for the next one, the crash monitor polls. -/
def waitShutdown (m : Manager ctx.glob) : List AppEvent → Io (Manager ctx.glob)
  | [] => monitorTick m
  | event :: events => do
      let m ← monitorTick m
      if event = .activate then waitShutdown m events else return m

def run (m : Manager ctx.glob) (events : List AppEvent) : Io ExitCode := do
  if ← m.hasConfig then
    match ← m.start ctx with
    | (m, .error _) => do
        dropManager m
        return .failure
    | (m, .ok _) => do
        let m ← waitShutdown ctx m events
        let m ← m.stop
        dropManager m
        return .success
  else do
    dropManager m
    return .failure

end

inductive LockError
  | alreadyRunning
  | io (source : IoError)

/-- What a launch asks for, the calls of the frontend among them. -/
inductive LaunchCall
  | os (c : Call)
  | profile
  | acquireInstanceLock
  | activateRunningInstance
  | restoreLoginShellPath
  | newRuntime
  | startActivation
  | dropActivation
  | dropLock

@[reducible]
def LaunchAns : LaunchCall → Type
  | .os c => Ans c
  | .profile => Except IoError ProjectPaths
  | .acquireInstanceLock => Except LockError Unit
  | .activateRunningInstance => Bool
  | .newRuntime | .startActivation => Except IoError Unit
  | .restoreLoginShellPath | .dropActivation | .dropLock => Unit

abbrev launchSys : Signature := ⟨LaunchCall, LaunchAns⟩

abbrev Launch (α : Type) : Type := Prog launchSys α

def ask (c : LaunchCall) : Launch (LaunchAns c) := Prog.perform (S := launchSys) c

def onSystem {α : Type} (p : Io α) : Launch α := p.lift (T := launchSys) LaunchCall.os fun _ b => b

variable (ctx : Context)

def serve (paths : ProjectPaths) (events : List AppEvent) : Launch ExitCode := do
  match ← onSystem (RotatingLogWriter.openWriter paths.managerLog .default) with
  | .error _ => return .failure
  | .ok _ => do
      ask .restoreLoginShellPath
      match ← ask .newRuntime with
      | .error _ => return .failure
      | .ok _ =>
          match ← ask .startActivation with
          | .error _ => do
              onSystem (dropManager (.new ctx.glob paths))
              return .failure
          | .ok _ => do
              let code ← onSystem (run ctx (.new ctx.glob paths) events)
              ask .dropActivation
              return code

/-- A launch without a window. The lock is released when everything else is over. -/
def launch (events : List AppEvent) : Launch ExitCode := do
  match ← ask .profile with
  | .error _ => return .failure
  | .ok paths =>
      match ← ask .acquireInstanceLock with
      | .error .alreadyRunning => do
          let _ ← ask .activateRunningInstance
          return .success
      | .error (.io _) => return .failure
      | .ok _ => do
          let code ← serve ctx paths events
          ask .dropLock
          return code

structure LaunchWorld where
  system : World
  /-- Whether the launch holds the lock of its profile. -/
  lock : Bool

/-- The system answers as ever, where a start can poll the child it finds. -/
def launchAnswers (shared : Bool) : (c : LaunchCall) → LaunchWorld → LaunchAns c → LaunchWorld → Prop
  | .os c, w, b, w' => ((machine shared).restrict startsPolled).answers c w.system b w'.system ∧ w'.lock = w.lock
  | .acquireInstanceLock, w, .ok _, w' => w' = { w with lock := true }
  | .dropLock, w, _, w' => w' = { w with lock := false }
  | _, w, _, w' => w' = w

def launchMachine (shared : Bool) : Machine launchSys LaunchWorld where
  answers := launchAnswers shared
  drift := fun w w' => (machine shared).drift w.system w'.system ∧ w'.lock = w.lock
  drift_refl := fun w => ⟨(machine shared).drift_refl w.system, rfl⟩
  drift_trans := fun h h' => ⟨(machine shared).drift_trans h.1 h'.1, h'.2.trans h.2⟩

variable {ctx : Context} {shared : Bool} {origin : World} {m : Manager ctx.glob}

theorem dropManager_attended {w w' : World} (hi : Attended ctx origin m w) {a : Unit}
    (h : Runs ((machine shared).restrict startsPolled) (dropManager m) w a w') : Cleared origin w' := by
  obtain ⟨m', w₁, hstop, h⟩ := runs_bind.mp h
  obtain ⟨hi', hproxy⟩ := stop_attended hi hstop
  cases hs : m'.services with
  | none =>
      rw [hs] at h
      exact (hi'.still (still_drift (runs_pure.mp h).2)).cleared hproxy
  | some services =>
      rw [hs] at h
      simp only [stopAll_of_stop hstop hs] at h
      exact (hi'.still (still_drift (runs_pure.mp h).2)).cleared hproxy

theorem waitShutdown_attended {events : List AppEvent} {m' : Manager ctx.glob} {w w' : World}
    (hi : Attended ctx origin m w)
    (h : Runs ((machine shared).restrict startsPolled) (waitShutdown ctx m events) w m' w') :
    Attended ctx origin m' w' := by
  induction events generalizing m w with
  | nil => exact monitorTick_attended hi h
  | cons event events ih =>
      obtain ⟨m₁, w₁, htick, h⟩ := runs_bind.mp h
      have hi₁ := monitorTick_attended hi htick
      split at h
      · exact ih hi₁ h
      · obtain ⟨rfl, hd⟩ := runs_pure.mp h
        exact hi₁.still (still_drift hd)

/-- However the frontend ends, nothing that was started is left. -/
theorem run_cleared {events : List AppEvent} {code : ExitCode} {w w' : World} (hi : Attended ctx origin m w)
    (h : Runs ((machine shared).restrict startsPolled) (run ctx m events) w code w') : Cleared origin w' := by
  obtain ⟨configured, w₁, hconfig, h⟩ := runs_bind.mp h
  have hi₁ := hi.still (harmless_still (pathExists_only trivial) hconfig.of_restrict)
  cases configured with
  | false =>
      obtain ⟨_, w₂, hdrop, h⟩ := runs_bind.mp h
      exact dropManager_attended hi₁ (hdrop.drift_right (runs_pure.mp h).2)
  | true =>
      obtain ⟨⟨m₁, started⟩, w₂, hstart, h⟩ := runs_bind.mp h
      have hi₂ := (start_attended hi₁ hstart).1
      cases started with
      | error err =>
          obtain ⟨_, w₃, hdrop, h⟩ := runs_bind.mp h
          exact dropManager_attended hi₂ (hdrop.drift_right (runs_pure.mp h).2)
      | ok manifest =>
          obtain ⟨m₂, w₃, hwait, h⟩ := runs_bind.mp h
          obtain ⟨m₃, w₄, hstop, h⟩ := runs_bind.mp h
          obtain ⟨_, w₅, hdrop, h⟩ := runs_bind.mp h
          have hi₃ := (stop_attended (waitShutdown_attended hi₂ hwait) hstop).1
          exact dropManager_attended hi₃ (hdrop.drift_right (runs_pure.mp h).2)

/-- A program of the system alone runs there as it does in a launch, and keeps the lock. -/
theorem onSystem_run {α : Type} {p : Io α} {a : α} {w w' : LaunchWorld}
    (h : Runs (launchMachine shared) (onSystem p) w a w') :
    Runs ((machine shared).restrict startsPolled) p w.system a w'.system ∧ w'.lock = w.lock := by
  have hr := runs_lift.mp h
  refine ⟨hr.simulate LaunchWorld.system And.left ?_, ?_⟩
  · rintro c u b v ⟨_, rfl, ha⟩
    exact ha.1
  · refine hr.frame (R := fun u v => v.lock = u.lock) (Prog.only_of_forall (fun _ => trivial) p)
      (fun {u v x} (huv : v.lock = u.lock) (hvx : x.lock = v.lock) => hvx.trans huv) And.right ?_
    rintro c u b v _ ⟨_, rfl, ha⟩
    exact ha.2

def KeepsLock : LaunchCall → Prop
  | .acquireInstanceLock | .dropLock => False
  | _ => True

theorem onSystem_keepsLock {α : Type} (p : Io α) : (onSystem p).Only KeepsLock := by
  induction p with
  | pure a => exact Prog.only_pure _ _
  | call c next ih => exact ⟨trivial, ih⟩

theorem serve_keepsLock (paths : ProjectPaths) (events : List AppEvent) :
    (serve ctx paths events).Only KeepsLock := by
  refine Prog.only_bind (onSystem_keepsLock _) (fun opened => ?_)
  cases opened with
  | error err => exact Prog.only_pure _ _
  | ok log =>
      refine Prog.only_bind (Prog.only_perform trivial) (fun _ => ?_)
      refine Prog.only_bind (Prog.only_perform trivial) (fun runtime => ?_)
      cases runtime with
      | error err => exact Prog.only_pure _ _
      | ok _ =>
          refine Prog.only_bind (Prog.only_perform trivial) (fun activation => ?_)
          cases activation with
          | error err => exact Prog.only_bind (onSystem_keepsLock _) (fun _ => Prog.only_pure _ _)
          | ok _ =>
              refine Prog.only_bind (onSystem_keepsLock _) (fun code => ?_)
              exact Prog.only_bind (Prog.only_perform trivial) (fun _ => Prog.only_pure _ _)

theorem keepsLock_visits {α : Type} {p : Launch α} (hp : p.Only KeepsLock) {w v : LaunchWorld}
    (h : Visits (launchMachine shared) p w v) : v.lock = w.lock := by
  refine h.frame (R := fun u v => v.lock = u.lock) hp
    (fun {u v x} (huv : v.lock = u.lock) (hvx : x.lock = v.lock) => hvx.trans huv) And.right ?_
  intro c u b v hc ha
  cases c with
  | os c => exact ha.2
  | acquireInstanceLock => exact hc.elim
  | dropLock => exact hc.elim
  | _ => exact congrArg LaunchWorld.lock ha

def Outside : LaunchCall → Prop
  | .os _ => False
  | _ => True

theorem outside_visits {α : Type} {p : Launch α} (hp : p.Only Outside) {w v : LaunchWorld}
    (h : Visits (launchMachine shared) p w v) : Still w.system v.system := by
  refine h.frame (R := fun u v => Still u.system v.system) hp Still.trans (fun hd => still_drift hd.1) ?_
  intro c u b v hc ha
  have hsame : v.system = u.system := by
    cases c with
    | os c => exact hc.elim
    | acquireInstanceLock =>
        cases b with
        | ok _ =>
            obtain rfl : v = { u with lock := true } := ha
            rfl
        | error err => exact congrArg LaunchWorld.system (show v = u from ha)
    | dropLock =>
        obtain rfl : v = { u with lock := false } := ha
        rfl
    | _ => exact congrArg LaunchWorld.system ha
  rw [hsame]
  exact still_drift ((machine shared).drift_refl _)

theorem ask_visits {c : LaunchCall} (hc : Outside c) {w v : LaunchWorld}
    (h : Visits (launchMachine shared) (ask c) w v) : Still w.system v.system :=
  outside_visits (Prog.only_perform hc) h

/-- When the part with the lock is over, nothing that was started is left. -/
theorem serve_cleared {paths : ProjectPaths} {events : List AppEvent} {code : ExitCode} {w w' : LaunchWorld}
    (hi : Cleared origin w.system) (h : Runs (launchMachine shared) (serve ctx paths events) w code w') :
    Cleared origin w'.system := by
  obtain ⟨opened, w₁, hopen, h⟩ := runs_bind.mp h
  have hi := hi.still (harmless_still (openWriter_harmless _ _) (onSystem_run hopen).1.of_restrict)
  cases opened with
  | error err => exact hi.still (still_drift (runs_pure.mp h).2.1)
  | ok log =>
      obtain ⟨_, w₂, hrestore, h⟩ := runs_bind.mp h
      have hi := hi.still (ask_visits (c := .restoreLoginShellPath) trivial hrestore.visits)
      obtain ⟨runtime, w₃, hruntime, h⟩ := runs_bind.mp h
      have hi := hi.still (ask_visits (c := .newRuntime) trivial hruntime.visits)
      cases runtime with
      | error err => exact hi.still (still_drift (runs_pure.mp h).2.1)
      | ok _ =>
          obtain ⟨activation, w₄, hactivation, h⟩ := runs_bind.mp h
          have hi := hi.still (ask_visits (c := .startActivation) trivial hactivation.visits)
          have hnew := new_attended ctx paths hi
          cases activation with
          | error err =>
              obtain ⟨_, w₅, hdrop, h⟩ := runs_bind.mp h
              exact (dropManager_attended hnew (onSystem_run hdrop).1).still (still_drift (runs_pure.mp h).2.1)
          | ok _ =>
              obtain ⟨code, w₅, hrun, h⟩ := runs_bind.mp h
              have hi := run_cleared hnew (onSystem_run hrun).1
              obtain ⟨_, w₆, hactivation, h⟩ := runs_bind.mp h
              have hi := hi.still (ask_visits (c := .dropActivation) trivial hactivation.visits)
              exact hi.still (still_drift (runs_pure.mp h).2.1)

theorem ask_keepsLock {c : LaunchCall} (hc : KeepsLock c) {w v : LaunchWorld}
    (h : Visits (launchMachine shared) (ask c) w v) : v.lock = w.lock :=
  keepsLock_visits (Prog.only_perform hc) h

theorem acquire_locks {w w' : LaunchWorld} {a : Unit}
    (h : Runs (launchMachine shared) (ask .acquireInstanceLock) w (.ok a) w') : w'.lock = true := by
  obtain ⟨w₁, w₂, _, ha, hd⟩ := runs_perform.mp h
  obtain rfl : w₂ = { w₁ with lock := true } := ha
  exact hd.2

theorem drop_unlocks {w w' : LaunchWorld} {a : Unit} (h : Runs (launchMachine shared) (ask .dropLock) w a w') :
    w'.lock = false := by
  obtain ⟨w₁, w₂, _, ha, hd⟩ := runs_perform.mp h
  obtain rfl : w₂ = { w₁ with lock := false } := ha
  exact hd.2

theorem launch_unlocked {events : List AppEvent} {code : ExitCode} {w w' : LaunchWorld} (hlock : w.lock = false)
    (h : Runs (launchMachine shared) (launch ctx events) w code w') : w'.lock = false := by
  obtain ⟨profile, w₁, hprofile, h⟩ := runs_bind.mp h
  have hlock := (ask_keepsLock (c := .profile) trivial hprofile.visits).trans hlock
  cases profile with
  | error err => exact (runs_pure.mp h).2.2.trans hlock
  | ok paths =>
      obtain ⟨acquired, w₂, hacquire, h⟩ := runs_bind.mp h
      cases acquired with
      | ok _ =>
          obtain ⟨code', w₃, _, h⟩ := runs_bind.mp h
          obtain ⟨_, w₄, hdrop, h⟩ := runs_bind.mp h
          exact (runs_pure.mp h).2.2.trans (drop_unlocks hdrop)
      | error err =>
          have hlock : w₂.lock = false := by
            obtain ⟨u, v, hd, rfl, hd'⟩ := runs_perform.mp hacquire
            exact (hd'.2.trans hd.2).trans hlock
          cases err with
          | alreadyRunning =>
              obtain ⟨_, w₃, hactivate, h⟩ := runs_bind.mp h
              have hkept := ask_keepsLock (c := .activateRunningInstance) trivial hactivate.visits
              exact (runs_pure.mp h).2.2.trans (hkept.trans hlock)
          | io source => exact (runs_pure.mp h).2.2.trans hlock

/-- At every moment of a launch without a window, whether it gets to its end or not,
nothing that it started is left unless it holds the lock of its profile. It ends
without the lock. -/
theorem lock_outlives_processes (shared : Bool) (ctx : Context) (events : List AppEvent) (system : World) :
    (∀ v, Visits (launchMachine shared) (launch ctx events) ⟨system, false⟩ v → v.lock = false →
      Cleared system v.system) ∧
    ∀ code w, Runs (launchMachine shared) (launch ctx events) ⟨system, false⟩ code w →
      w.lock = false ∧ Cleared system w.system := by
  have hvisits : ∀ v, Visits (launchMachine shared) (launch ctx events) ⟨system, false⟩ v → v.lock = false →
      Cleared system v.system := by
    intro v h hlock
    have hi := cleared_refl system
    rcases visits_bind h with h | ⟨profile, w₁, hprofile, h⟩
    · exact hi.still (ask_visits (c := .profile) trivial h)
    have hi := hi.still (ask_visits (c := .profile) trivial hprofile.visits)
    cases profile with
    | error err => exact hi.still (still_drift (visits_pure.mp h).1)
    | ok paths =>
        rcases visits_bind h with h | ⟨acquired, w₂, hacquire, h⟩
        · exact hi.still (ask_visits (c := .acquireInstanceLock) trivial h)
        have hi := hi.still (ask_visits (c := .acquireInstanceLock) trivial hacquire.visits)
        cases acquired with
        | error err =>
            cases err with
            | alreadyRunning =>
                rcases visits_bind h with h | ⟨_, w₃, hactivate, h⟩
                · exact hi.still (ask_visits (c := .activateRunningInstance) trivial h)
                · have hi := hi.still (ask_visits (c := .activateRunningInstance) trivial hactivate.visits)
                  exact hi.still (still_drift (visits_pure.mp h).1)
            | io source => exact hi.still (still_drift (visits_pure.mp h).1)
        | ok _ =>
            have hlocked := acquire_locks hacquire
            rcases visits_bind h with h | ⟨code, w₃, hserve, h⟩
            · -- The lock is held all along, so nothing is claimed of these moments.
              rw [keepsLock_visits (serve_keepsLock paths events) h, hlocked] at hlock
              cases hlock
            have hi := serve_cleared hi hserve
            rcases visits_bind h with h | ⟨_, w₄, hdrop, h⟩
            · exact hi.still (ask_visits (c := .dropLock) trivial h)
            · have hi := hi.still (ask_visits (c := .dropLock) trivial hdrop.visits)
              exact hi.still (still_drift (visits_pure.mp h).1)
  refine ⟨hvisits, fun code w h => ?_⟩
  have hlock := launch_unlocked rfl h
  exact ⟨hlock, hvisits w h.visits hlock⟩

theorem onSystem_runs {α : Type} {p : Io α} {a : α} {w w' : World} (lock : Bool)
    (h : Runs ((machine shared).restrict startsPolled) p w a w') :
    Runs (launchMachine shared) (onSystem p) ⟨w, lock⟩ a ⟨w', lock⟩ := by
  refine runs_lift.mpr (h.simulate (fun w => LaunchWorld.mk w lock) ?_ ?_)
  · intro u v hd
    exact ⟨hd, rfl⟩
  · intro c u b v ha
    exact ⟨b, rfl, ha, rfl⟩

theorem ask_run {c : LaunchCall} {b : LaunchAns c} {w w' : LaunchWorld} (h : launchAnswers shared c w b w') :
    Runs (launchMachine shared) (ask c) w b w' :=
  runs_perform.mpr ⟨w, w', Machine.drift_refl _ _, h, Machine.drift_refl _ _⟩

def loggedWorld : World := (idleDriver.run (RotatingLogWriter.openWriter profile.managerLog .default) idleWorld).2

def endedRun : ExitCode × World :=
  idleDriver.run (do
    let m ← waitShutdown idleContext (launched loggedWorld).1.1 [.activate, .shutdown]
    let m ← m.stop
    dropManager m
    return .success) (launched loggedWorld).2

theorem endedRun_run :
    Runs ((machine true).restrict startsPolled) (run idleContext (.new literalGlob profile) [.activate, .shutdown])
      loggedWorld endedRun.1 endedRun.2 := by
  have hd := Machine.drift_refl ((machine true).restrict startsPolled) loggedWorld
  have hconfig : (loggedWorld.disk.names profile.servicesFile).isSome = true := rfl
  refine runs_bind.mpr ⟨true, loggedWorld, runs_step (.metadata _) (.ok ()) ⟨⟨hconfig, rfl⟩, trivial⟩ (.pure hd), ?_⟩
  refine runs_bind.mpr ⟨_, _, launched_run ⟨0, rfl, rfl⟩, ?_⟩
  exact (idleDriver.runs _ trivial).1

theorem idle_launch :
    Runs (launchMachine true) (launch idleContext [.activate, .shutdown]) ⟨idleWorld, false⟩ endedRun.1
      ⟨endedRun.2, false⟩ := by
  refine runs_bind.mpr ⟨.ok profile, _, ask_run rfl, ?_⟩
  refine runs_bind.mpr ⟨.ok (), ⟨idleWorld, true⟩, ask_run rfl, ?_⟩
  refine runs_bind.mpr ⟨endedRun.1, ⟨endedRun.2, true⟩, ?_, ?_⟩
  · refine runs_bind.mpr ⟨_, ⟨loggedWorld, true⟩, onSystem_runs true (idleDriver.runs _ trivial).1, ?_⟩
    refine runs_bind.mpr ⟨(), _, ask_run rfl, ?_⟩
    refine runs_bind.mpr ⟨.ok (), _, ask_run rfl, ?_⟩
    refine runs_bind.mpr ⟨.ok (), _, ask_run rfl, ?_⟩
    refine runs_bind.mpr ⟨_, _, onSystem_runs true endedRun_run, ?_⟩
    exact runs_bind.mpr ⟨(), _, ask_run rfl, runs_pure.mpr ⟨rfl, Machine.drift_refl _ _⟩⟩
  · exact runs_bind.mpr ⟨(), ⟨endedRun.2, false⟩, ask_run rfl, runs_pure.mpr ⟨rfl, Machine.drift_refl _ _⟩⟩

theorem lock_outlives_processes_idle : ∃ g, endedRun.2.groups 1 = some g ∧ g.owner = "app" ∧ Accounted g :=
  ⟨_, rfl, rfl, ((lock_outlives_processes true idleContext [.activate, .shutdown] idleWorld).2 _ _ idle_launch).2
    1 _ rfl rfl⟩

end LocalDevProxy.Headless
