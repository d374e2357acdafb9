import LocalDevProxy.Survivors
import LocalDevProxy.UnsavedEdits

namespace LocalDevProxy.DesktopExit

open Lib.Interaction Lib.Fallible Paths Os Process ProcessGroups ServiceSteps ServiceOperations
open KeptServices HarmlessCalls
  ManagerCore Lifecycle Survivors Desktop
open UnsavedEdits (Settled editor reached_settled launch_settled react_settled beside_of_drift)

variable {shared : Bool} {ctx : Context} {u v w w' : DeskWorld ctx} {c c' : Controller} {origin : World}

/-- What goes on beside the window thread while a start can poll the child it finds
and no worker panics. -/
inductive Calm (shared : Bool) (ctx : Context) : DeskWorld ctx → DeskWorld ctx → Prop
  | system {w : DeskWorld ctx} {s : World} :
      (machine shared).drift w.system s → Calm shared ctx w { w with system := s }
  | polls {w : DeskWorld ctx} {services services' : ServiceManager} {s : World} :
      w.manager.services = some services →
      Runs ((machine shared).restrict startsPolled) services.pollExits w.system services' s →
      Calm shared ctx w { w with system := s, manager := { w.manager with services := some services' } }
  | takes {w : DeskWorld ctx} {work : Work} {awaited : Bool} :
      w.owner = .free → w.job = some ⟨.waiting work, awaited⟩ →
      Calm shared ctx w { w with owner := .worker, job := some ⟨.holding work, awaited⟩ }
  | works {w : DeskWorld ctx} {work : Work} {awaited : Bool} {m : Manager ctx.glob} {outcome : JobOutcome}
      {s : World} :
      w.job = some ⟨.holding work, awaited⟩ →
      Runs ((machine shared).restrict startsPolled) (work.run ctx w.manager) w.system (m, outcome) s →
      Calm shared ctx w
        { w with system := s, manager := m, owner := .free, job := some ⟨.finished (some outcome), awaited⟩ }

def calmMachine (shared : Bool) (ctx : Context) : Machine deskSys (DeskWorld ctx) where
  answers := deskAnswers shared ctx
  drift := Relation.ReflTransGen (Calm shared ctx)
  drift_refl := fun _ => .refl
  drift_trans := fun h h' => h.trans h'

def CalmlyReached (shared : Bool) (ctx : Context) (paths : ProjectPaths) (system : World) (c : Controller)
    (w : DeskWorld ctx) : Prop :=
  ∃ tray c₁ w₁ trace,
    Runs (calmMachine shared ctx) (newController.launch tray) (openedWorld ctx paths system) c₁ w₁ ∧
      Session (calmMachine shared ctx) handle c₁ w₁ trace c w

/-- The end of the application: the main thread waits for the manager, stops it and
lets it go. Nobody else can get at the manager in between. -/
inductive ShutsDown (shared : Bool) (ctx : Context) : DeskWorld ctx → DeskWorld ctx → Prop
  | intro {w u : DeskWorld ctx} {m : Manager ctx.glob} {s : World} :
      (calmMachine shared ctx).drift w u → u.owner = .free →
      Runs ((machine shared).restrict startsPolled) u.manager.stop u.system m s →
      ShutsDown shared ctx w { u with system := s, manager := m }

theorem Calm.moves (h : Calm shared ctx w w') : Moves shared ctx w w' := by
  cases h with
  | system hd => exact .system hd
  | polls hs hr => exact .polls hs hr.of_restrict
  | takes howner hjob => exact .takes howner hjob
  | works hjob hr => exact .works hjob hr.of_restrict

theorem calm_drift (h : (calmMachine shared ctx).drift w w') : (deskMachine shared ctx).drift w w' :=
  Relation.ReflTransGen.mono (fun _ _ => Calm.moves) _ _ h

theorem calm_run {α : Type} {p : Desk α} {a : α} (h : Runs (calmMachine shared ctx) p w a w') :
    Runs (deskMachine shared ctx) p w a w' :=
  h.mono calm_drift id

def Watched (origin : World) (w : DeskWorld ctx) : Prop := Attended ctx origin w.manager w.system

theorem work_attended {work : Work} {m m' : Manager ctx.glob} {outcome : JobOutcome} {s s' : World}
    (hi : Attended ctx origin m s)
    (h : Runs ((machine shared).restrict startsPolled) (work.run ctx m) s (m', outcome) s') :
    Attended ctx origin m' s' := by
  cases work with
  | start =>
      obtain ⟨⟨m₁, r⟩, s₁, hr, h⟩ := runs_bind.mp h
      obtain ⟨he, hd⟩ := runs_pure.mp h
      cases he
      exact (start_attended hi hr).1.still (still_drift hd)
  | apply =>
      obtain ⟨⟨m₁, r⟩, s₁, hr, h⟩ := runs_bind.mp h
      obtain ⟨he, hd⟩ := runs_pure.mp h
      cases he
      exact (apply_attended hi hr).still (still_drift hd)
  | service action name =>
      obtain ⟨⟨m₁, r⟩, s₁, hr, h⟩ := runs_bind.mp h
      obtain ⟨he, hd⟩ := runs_pure.mp h
      cases he
      refine Attended.still ?_ (still_drift hd)
      cases action with
      | start => exact startService_attended hi hr
      | stop => exact stopService_attended hi hr
      | restart => exact restartService_attended hi hr

theorem polls_attended {m : Manager ctx.glob} {services services' : ServiceManager} {s s' : World}
    (hi : Attended ctx origin m s) (hs : m.services = some services)
    (h : Runs ((machine shared).restrict startsPolled) services.pollExits s services' s') :
    Attended ctx origin { m with services := some services' } s' := by
  have hquiet : m.proxy = none → Quiet services' := by
    intro hproxy
    obtain ⟨hmonitor, hchildless⟩ := hi.sound.quiet hproxy services hs
    obtain ⟨ht, _, hsame⟩ := pollExits_run h
    refine ⟨hsame.trans hmonitor, fun info' hinfo' => ?_⟩
    obtain ⟨info, hinfo, u, v, hr⟩ := exists_of_forall₂ ht.traverse_forall₂ info' hinfo'
    cases pollInfo_run hr.of_restrict with
    | kept _ _ => exact hchildless _ hinfo
    | exited _ _ _ _ _ _ _ => rfl
  refine attended_of_tracked (hi.sound.carried hs (pollExits_carried h) hquiet) hi.distinct ?_
  have ht := hi.tracked
  unfold records at ht ⊢
  rw [hs] at ht ⊢
  exact run_tracked .pollExits ht (unit_run h)

theorem calm_watched (h : Calm shared ctx w w') (hi : Watched origin w) : Watched origin w' := by
  cases h with
  | system hd => exact hi.still (still_drift hd)
  | polls hs hr => exact polls_attended hi hs hr
  | takes _ _ => exact hi
  | works _ hr => exact work_attended hi hr

theorem watched_of_consult {α : Type} {p : Io α} {a : α} (hp : p.Only Harmless)
    (h : Consults shared ctx p w a w') (hi : Watched origin w) : Watched origin w' := by
  obtain ⟨s, hr, rfl⟩ := h
  exact hi.still (harmless_still hp hr)

theorem hasConfig_harmless (m : Manager ctx.glob) : m.hasConfig.Only Harmless := pathExists_only trivial

theorem routes_harmless (m : Manager ctx.glob) : (m.routes ctx).Only Harmless := by
  unfold Manager.routes
  split
  · exact Prog.only_pure _ _
  · exact Prog.only_bind ((loadManifest_aside _ _).mono fun _ => Aside.harmless) (fun _ => Prog.only_pure _ _)

theorem readConfig_harmless (m : Manager ctx.glob) : m.readConfig.Only Harmless := by
  refine Prog.only_bind (Prog.only_perform trivial) (fun got => ?_)
  cases got with
  | ok text => exact Prog.only_pure _ _
  | error err => dsimp only; split <;> exact Prog.only_pure _ _

def IsSpawn : DeskCall → Prop
  | .spawnThread _ => True
  | _ => False

/-- Nothing that the window asks for touches a process, the worker threads apart. -/
theorem answer_watched {call : DeskCall} {b : DeskAns call} (hcall : ¬ IsSpawn call)
    (h : deskAnswers shared ctx call w b w') (hi : Watched origin w) : Watched origin w' := by
  cases call with
  | hasConfig => exact watched_of_consult (hasConfig_harmless _) h hi
  | routes => exact watched_of_consult (routes_harmless _) h hi
  | readConfig => exact watched_of_consult (readConfig_harmless _) h hi
  | saveConfig text =>
      cases b with
      | ok _ =>
          obtain ⟨s, hr, rfl⟩ := h
          exact hi.still (harmless_still (saveConfig_harmless _ text) hr)
      | error err => exact watched_of_consult (saveConfig_harmless _ text) h hi
  | tryLock =>
      cases b <;> obtain ⟨_, rfl⟩ := h <;> exact hi
  | isRunning | services | logNames | validateConfig | tailLog =>
      obtain ⟨_, rfl⟩ := h
      exact hi
  | unlock =>
      obtain rfl : w' = { w with owner := .free } := h
      exact hi
  | spawnThread work => exact absurd trivial hcall
  | spawnLocal =>
      cases b with
      | true =>
          obtain rfl : w' = { w with job := w.job.map fun job => { job with awaited := true } } := h
          exact hi
      | false =>
          obtain rfl : w' = w := h
          exact hi
  | received =>
      cases b with
      | none =>
          obtain rfl : w' = w := h
          exact hi
      | some outcome =>
          obtain ⟨_, rfl⟩ := h
          exact hi

theorem drift_watched (h : (calmMachine shared ctx).drift w w') (hi : Watched origin w) : Watched origin w' := by
  induction h with
  | refl => exact hi
  | tail _ hstep ih => exact calm_watched hstep ih

def Alone (origin : World) (w : DeskWorld ctx) : Prop := w.job = none ∧ Watched origin w

theorem drift_alone (h : (calmMachine shared ctx).drift w w') (hi : Alone origin w) : Alone origin w' :=
  ⟨((beside_of_drift (calm_drift h)).idle hi.1).1, drift_watched h hi.2⟩

theorem answer_alone {call : DeskCall} {b : DeskAns call} (hcall : ¬ IsSpawn call)
    (h : deskAnswers shared ctx call w b w') (hi : Alone origin w) : Alone origin w' := by
  refine ⟨?_, answer_watched hcall h hi.2⟩
  cases call with
  | hasConfig | routes | readConfig =>
      obtain ⟨s, _, rfl⟩ := h
      exact hi.1
  | saveConfig text => cases b <;> obtain ⟨s, _, rfl⟩ := h <;> exact hi.1
  | tryLock => cases b <;> obtain ⟨_, rfl⟩ := h <;> exact hi.1
  | isRunning | services | logNames | validateConfig | tailLog =>
      obtain ⟨_, rfl⟩ := h
      exact hi.1
  | unlock =>
      obtain rfl : w' = { w with owner := .free } := h
      exact hi.1
  | spawnThread work => exact absurd trivial hcall
  | spawnLocal =>
      cases b with
      | true =>
          obtain rfl : w' = { w with job := w.job.map fun job => { job with awaited := true } } := h
          simp [hi.1]
      | false =>
          obtain rfl : w' = w := h
          exact hi.1
  | received =>
      cases b with
      | none =>
          obtain rfl : w' = w := h
          exact hi.1
      | some outcome =>
          obtain ⟨_, rfl⟩ := h
          rfl

/-- A program that starts no worker keeps what is watched. -/
theorem watched_of_only {α : Type} {p : Desk α} {a : α} (hp : p.Only fun call => ¬ IsSpawn call)
    (h : Runs (calmMachine shared ctx) p w a w') (hi : Watched origin w) : Watched origin w' :=
  h.frame (R := fun u v => Watched origin u → Watched origin v) hp (fun huv hvx hu => hvx (huv hu)) drift_watched
    answer_watched hi

/-- So does one that starts a worker once, when there is none before. -/
theorem watched_of_once {α : Type} {p : Desk α} {a : α} (hp : p.Once IsSpawn)
    (h : Runs (calmMachine shared ctx) p w a w') (hi : Alone origin w) : Watched origin w' := by
  refine h.once hp (I := Alone origin) (J := Watched origin) hi And.right
    (fun hd => ⟨drift_alone hd, drift_watched hd⟩) (fun hnot ha => ⟨answer_alone hnot ha, answer_watched hnot ha⟩) ?_
  intro call u b v hspawn ha hu
  cases call with
  | spawnThread work =>
      cases b with
      | ok _ =>
          obtain rfl := ha hu.1
          exact hu.2
      | error err =>
          obtain rfl : v = u := ha
          exact hu.2
  | _ => exact hspawn.elim

section

variable (c : Controller)

abbrev Spawnless {α : Type} (p : Desk α) : Prop := p.Only fun call => ¬ IsSpawn call

theorem spawnless_pure {α : Type} (a : α) : Spawnless (Pure.pure a) := Prog.only_pure _ a

theorem spawnless_ask {call : DeskCall} (h : ¬ IsSpawn call) : Spawnless (ask call) := Prog.only_perform h

theorem spawnless_withManager {α : Type} {p : Desk α} (hp : Spawnless p) : Spawnless (withManager p) := by
  refine Prog.only_bind (spawnless_ask id) (fun locked => ?_)
  cases locked with
  | true => exact Prog.only_bind hp (fun _ => Prog.only_bind (spawnless_ask id) (fun _ => spawnless_pure _))
  | false => exact spawnless_pure _

theorem loadConfig_spawnless : Spawnless c.loadConfig := by
  refine Prog.only_bind (spawnless_withManager (spawnless_ask id)) (fun r => ?_)
  rcases r with _ | (err | (_ | text)) <;> exact spawnless_pure _

theorem setView_spawnless (view : ServiceView) : Spawnless (c.setView view) := by
  cases view with
  | services => exact spawnless_pure _
  | edit => exact Prog.only_bind (loadConfig_spawnless _) (fun _ => spawnless_pure _)

theorem logView_spawnless (index : Int) (lines : Nat) : Spawnless (Controller.logView index lines) := by
  refine Prog.only_bind (spawnless_ask id) (fun names => ?_)
  split
  · exact spawnless_pure _
  · refine Prog.only_bind (spawnless_ask id) (fun answer => ?_)
    split <;> exact spawnless_pure _

theorem refreshLogs_spawnless : Spawnless c.refreshLogs := by
  refine Prog.only_bind (spawnless_withManager (logView_spawnless _ _)) (fun r => ?_)
  rcases r with _ | ⟨names, body⟩ <;> exact spawnless_pure _

theorem syncRunState_spawnless (running : Bool) : Spawnless (c.syncRunState running) := by
  unfold Controller.syncRunState
  split
  · exact spawnless_pure _
  · exact setView_spawnless _ _

theorem snapshot_spawnless : Spawnless Controller.snapshot :=
  Prog.only_bind (spawnless_ask id) fun _ =>
    Prog.only_bind (spawnless_ask id) fun _ => Prog.only_bind (spawnless_ask id) fun _ => spawnless_pure _

theorem refresh_spawnless : Spawnless c.refresh := by
  refine Prog.only_bind (spawnless_withManager snapshot_spawnless) (fun r => ?_)
  rcases r with _ | ⟨running, services, names⟩
  · exact spawnless_pure _
  · refine Prog.only_bind (syncRunState_spawnless c running) (fun d => ?_)
    dsimp only
    split
    · exact refreshLogs_spawnless _
    · exact spawnless_pure _

theorem reloadRoutes_spawnless : Spawnless c.reloadRoutes := by
  refine Prog.only_bind (spawnless_withManager (spawnless_ask id)) (fun r => ?_)
  rcases r with _ | (err | groups) <;> exact spawnless_pure _

theorem finishJob_spawnless (outcome : JobOutcome) : Spawnless (c.finishJob outcome) :=
  Prog.only_bind (reloadRoutes_spawnless _) fun d => refresh_spawnless d

theorem validate_spawnless : Spawnless c.validate := by
  refine Prog.only_bind (spawnless_withManager (spawnless_ask id)) (fun r => ?_)
  rcases r with _ | (err | manifest) <;> exact spawnless_pure _

theorem persist_spawnless : Spawnless c.persist := by
  refine Prog.only_bind (spawnless_withManager (spawnless_ask id)) (fun r => ?_)
  rcases r with _ | (err | _)
  · exact spawnless_pure _
  · cases err <;> exact spawnless_pure _
  · exact spawnless_pure _

theorem cancelEdit_spawnless : Spawnless c.cancelEdit :=
  Prog.only_bind (loadConfig_spawnless _) fun d => setView_spawnless d.1 .services

theorem openServiceLogs_spawnless (index : Int) : Spawnless (c.openServiceLogs index) := by
  unfold Controller.openServiceLogs
  split
  · exact spawnless_pure _
  · refine Prog.only_bind (spawnless_withManager (spawnless_ask id)) (fun r => ?_)
    rcases r with _ | names
    · exact spawnless_pure _
    · dsimp only
      split
      · exact spawnless_pure _
      · exact refreshLogs_spawnless _

theorem job_once (pending : String) (work : Work) : (c.job pending work).Once IsSpawn := by
  unfold Controller.job
  split
  · exact Prog.once_of_only (spawnless_pure _)
  · refine Prog.once_bind_right ?_ (fun spawned => ?_)
    · exact ⟨fun _ => trivial, fun _ _ => trivial⟩
    · cases spawned with
      | error err => exact finishJob_spawnless _ _
      | ok _ => exact Prog.only_bind (spawnless_ask id) (fun _ => spawnless_pure _)

theorem apply_once : c.apply.Once IsSpawn := by
  refine Prog.once_bind_left (persist_spawnless c) (fun r => ?_)
  obtain ⟨d, written⟩ := r
  cases written with
  | false => exact Prog.once_of_only (spawnless_pure _)
  | true =>
      refine Prog.once_bind_left ?_ (fun f => job_once f _ _)
      split
      · exact setView_spawnless d .services
      · exact spawnless_pure _

theorem serviceAction_once (action : ServiceAction) : (c.serviceAction action).Once IsSpawn := by
  unfold Controller.serviceAction
  split
  · exact Prog.once_of_only (spawnless_pure _)
  · exact job_once _ _ _

theorem launch_once (tray : Bool) : (c.launch tray).Once IsSpawn := by
  refine Prog.once_bind_left (spawnless_withManager (spawnless_ask id)) (fun r => ?_)
  split
  · exact job_once _ _ _
  · exact Prog.once_of_only (Prog.only_bind (reloadRoutes_spawnless _) fun d => refresh_spawnless d)

theorem guarded_spawnless {allowed : Bool} {action : Desk Controller} (h : Spawnless action) :
    Spawnless (guarded allowed c action) := by
  unfold guarded
  split
  · exact h
  · exact spawnless_pure _

def starts : Desktop.Event → Bool
  | .apply | .serviceAction _ => true
  | _ => false

theorem react_spawnless {event : Desktop.Event} (h : starts event = false) : Spawnless (react c event) := by
  cases event with
  | apply => cases h
  | serviceAction action => cases h
  | editorEdited text => exact guarded_spawnless c (spawnless_pure _)
  | editConfig => exact guarded_spawnless c (setView_spawnless c .edit)
  | cancelEdit => exact guarded_spawnless c (cancelEdit_spawnless c)
  | validate => exact guarded_spawnless c (Prog.only_bind (validate_spawnless c) fun _ => spawnless_pure _)
  | serviceSelected index => exact guarded_spawnless c (spawnless_pure _)
  | openServiceLogs index => exact guarded_spawnless c (openServiceLogs_spawnless c index)
  | tabSelected tab => exact spawnless_pure _
  | tabChanged =>
      simp only [react]
      split
      · exact refreshLogs_spawnless c
      · split
        · exact reloadRoutes_spawnless c
        · exact spawnless_pure _
  | logSelected index => exact guarded_spawnless c (refreshLogs_spawnless _)
  | logLinesEdited lines => exact guarded_spawnless c (refreshLogs_spawnless _)
  | followToggled checked =>
      refine guarded_spawnless c ?_
      split
      · exact refreshLogs_spawnless _
      · exact spawnless_pure _
  | refreshLogs => exact guarded_spawnless c (refreshLogs_spawnless c)
  | reloadRoutes => exact guarded_spawnless c (reloadRoutes_spawnless c)
  | refresh => exact guarded_spawnless c (refresh_spawnless c)
  | jobReceived =>
      refine Prog.only_bind (spawnless_ask id) (fun answer => ?_)
      cases answer with
      | none => exact spawnless_pure _
      | some outcome => exact finishJob_spawnless c _
  | closeRequested => exact spawnless_pure _
  | quit => exact spawnless_pure _

end

theorem alone_of_idle (hs : Settled (editor c) w) (hi : Watched origin w) (hbusy : c.window.busy = false) :
    Alone origin w :=
  ⟨hs.idle (hs.shown.symm.trans hbusy), hi⟩

theorem react_watched {event : Desktop.Event} (hs : Settled (editor c) w) (hi : Watched origin w)
    (h : Runs (calmMachine shared ctx) (react c event) w c' w') : Watched origin w' := by
  cases hstarts : starts event with
  | false => exact watched_of_only (react_spawnless c hstarts) h hi
  | true =>
      -- an action that starts a worker is only allowed while no other one is about
      have hguarded : ∀ {allowed : Bool} {action : Desk Controller}, action.Once IsSpawn →
          (allowed = true → c.window.busy = false) →
          Runs (calmMachine shared ctx) (guarded allowed c action) w c' w' → Watched origin w' := by
        intro allowed action honce hidle hrun
        unfold guarded at hrun
        split at hrun
        · rename_i hallowed
          exact watched_of_once honce hrun (alone_of_idle hs hi (hidle hallowed))
        · exact drift_watched (runs_pure.mp hrun).2 hi
      cases event with
      | apply =>
          refine hguarded (apply_once c) (fun hallowed => ?_) h
          rw [Bool.and_eq_true, Bool.not_eq_true'] at hallowed
          exact hallowed.2
      | serviceAction action =>
          refine hguarded (serviceAction_once c action) (fun hallowed => ?_) h
          cases action <;>
          · rw [Window.offers, Bool.and_eq_true, Bool.and_eq_true, Window.canControl, Bool.and_eq_true,
              Bool.not_eq_true'] at hallowed
            exact hallowed.1.2.2
      | _ => cases hstarts

theorem reached_watched {paths : ProjectPaths} {system : World} (h : CalmlyReached shared ctx paths system c w) :
    Settled (editor c) w ∧ Watched system w := by
  obtain ⟨tray, c₁, w₁, trace, hlaunch, hsession⟩ := h
  have hopened : Alone system (openedWorld ctx paths system) := ⟨rfl, new_attended ctx paths (cleared_refl system)⟩
  refine hsession.invariant (fun _ c w => Settled (editor c) w ∧ Watched system w) (fun v hdrift => ?_)
    fun _ d v event d' _ v' ⟨hs, hi⟩ hrun => ?_
  · refine ⟨(launch_settled (calm_run hlaunch)).undisturbed (beside_of_drift (calm_drift hdrift)).toUndisturbed, ?_⟩
    exact drift_watched hdrift (watched_of_once (launch_once _ tray) hlaunch hopened)
  · obtain ⟨f, x, hreact, hrun⟩ := runs_bind.mp hrun
    obtain ⟨heq, hdrift⟩ := runs_pure.mp hrun
    cases heq
    exact ⟨(react_settled hs (calm_run hreact)).undisturbed (beside_of_drift (calm_drift hdrift)).toUndisturbed,
      drift_watched hdrift (react_watched hs hi hreact)⟩

/-- A worker whose operation is carried out only while the proxy runs. -/
def Idles (job : Job) : Prop :=
  match job.phase with
  | .waiting work | .holding work => ∃ action name, work = .service action name
  | .finished _ => True

/-- The manager has been stopped, and whoever still waits for it cannot start anything. -/
structure Halted (origin : World) (w : DeskWorld ctx) : Prop where
  watched : Watched origin w
  stopped : w.manager.isRunning = false
  idles : ∀ job, w.job = some job → Idles job

theorem calm_halted (h : Calm shared ctx w w') (hi : Halted origin w) : Halted origin w' := by
  have hwatched := calm_watched h hi.watched
  cases h with
  | system _ => exact ⟨hwatched, hi.stopped, hi.idles⟩
  | polls _ _ => exact ⟨hwatched, hi.stopped, hi.idles⟩
  | takes _ hjob =>
      refine ⟨hwatched, hi.stopped, ?_⟩
      have hwaits := hi.idles _ hjob
      rintro _ ⟨⟩
      exact hwaits
  | @works work awaited m outcome s hjob hr =>
      obtain ⟨action, name, rfl⟩ := hi.idles _ hjob
      obtain ⟨⟨m₁, r⟩, s₁, hdone, hlast⟩ := runs_bind.mp hr
      obtain ⟨he, _⟩ := runs_pure.mp hlast
      cases he
      have hsame : m = w.manager := by
        cases action <;> exact (onService_stopped hi.stopped hdone).1
      refine ⟨hwatched, ?_, ?_⟩
      · rw [hsame]
        exact hi.stopped
      · rintro _ ⟨⟩
        trivial

theorem drift_halted (h : (calmMachine shared ctx).drift w w') (hi : Halted origin w) : Halted origin w' := by
  induction h with
  | refl => exact hi
  | tail _ hstep ih => exact calm_halted hstep ih

theorem Halted.cleared (h : Halted origin w) : Cleared origin w.system :=
  Attended.cleared h.watched (by simpa [Manager.isRunning] using h.stopped)

/-- However the application got here, once its end has stopped the manager nothing is
left running, and nothing is started any more unless a worker was still waiting for
the manager to start or apply. -/
theorem exit_leaves_none (shared : Bool) (ctx : Context) (paths : ProjectPaths) (system : World) (c : Controller)
    (w v : DeskWorld ctx) (h : CalmlyReached shared ctx paths system c w) (hexit : ShutsDown shared ctx w v) :
    v.manager.isRunning = false ∧ Cleared system v.system ∧
      ((∀ work awaited, v.job = some ⟨.waiting work, awaited⟩ → ∃ action name, work = .service action name) →
        ∀ v', (calmMachine shared ctx).drift v v' → v'.manager.isRunning = false ∧ Cleared system v'.system) := by
  obtain ⟨hs, hi⟩ := reached_watched h
  cases hexit with
  | @intro u m s hdrift hfree hstop =>
      have horderly := (beside_of_drift (calm_drift hdrift)).orderly hs.orderly
      obtain ⟨hattended, hproxy⟩ := stop_attended (drift_watched hdrift hi) hstop
      have hstopped : m.isRunning = false := by rw [Manager.isRunning, hproxy]; rfl
      refine ⟨hstopped, hattended.cleared hproxy, fun hwaiting v' hafter => ?_⟩
      have hhalted : Halted system { u with system := s, manager := m } := by
        refine ⟨hattended, hstopped, ?_⟩
        rintro ⟨phase, awaited⟩ hjob
        cases phase with
        | waiting work => exact hwaiting work awaited hjob
        | holding work =>
            have hheld := horderly.exclusive.mpr ⟨work, awaited, hjob⟩
            rw [hfree] at hheld
            cases hheld
        | finished outcome => trivial
      have hend := drift_halted hafter hhalted
      exact ⟨hend.stopped, hend.cleared⟩

def calmDriver : Driver (calmMachine true idleContext) where
  inside := fun _ => True
  answer := UnsavedEdits.deskAnswer true idleContext fun _ => false
  sound := fun call w _ => UnsavedEdits.deskAnswer_sound _ call w
  stays := fun _ _ _ => trivial

/-- A window that has been opened on a profile with a configuration, which a worker is to start. -/
def opened : Controller × DeskWorld idleContext :=
  calmDriver.run (newController.launch true) (openedWorld idleContext profile idleWorld)

theorem opened_reached : CalmlyReached true idleContext profile idleWorld opened.1 opened.2 :=
  ⟨true, opened.1, opened.2, [], (calmDriver.runs _ trivial).1, .start (Machine.drift_refl _ _)⟩

def startedWorld : DeskWorld idleContext :=
  { opened.2 with
    system := (launched idleWorld).2
    manager := (launched idleWorld).1.1
    owner := .free
    job := some ⟨.finished (some (.ok "started ✓")), true⟩ }

theorem start_work :
    Runs ((machine true).restrict startsPolled) (Work.run idleContext (.new idleContext.glob profile) .start) idleWorld
      ((launched idleWorld).1.1, .ok "started ✓") (launched idleWorld).2 :=
  runs_bind.mpr ⟨_, _, launched_run (w := idleWorld) ⟨0, rfl, rfl⟩, runs_pure.mpr ⟨rfl, Machine.drift_refl _ _⟩⟩

theorem opened_started : (calmMachine true idleContext).drift opened.2 startedWorld := by
  refine .tail (.tail .refl (.takes rfl rfl)) ?_
  exact Calm.works rfl start_work

def exitedWorld : DeskWorld idleContext := { startedWorld with system := halted.2, manager := halted.1 }

theorem exit_leaves_none_started : ∃ g, exitedWorld.system.groups 1 = some g ∧ g.owner = "app" ∧ Accounted g :=
  ⟨_, rfl, rfl, (exit_leaves_none true idleContext profile idleWorld opened.1 opened.2 exitedWorld opened_reached
    (.intro opened_started rfl (idleDriver.runs _ trivial).1)).2.1 1 _ rfl rfl⟩

/-- A worker that gets to the manager only after the end of the application has let
it go starts the services all the same. -/
theorem waiting_start_outlives_exit :
    ∃ v v', ShutsDown true idleContext opened.2 v ∧ (calmMachine true idleContext).drift v v' ∧
      ∃ g, v'.system.groups 1 = some g ∧ g.HasLive := by
  refine ⟨opened.2, startedWorld, ?_, opened_started, _, rfl, .inl rfl⟩
  exact .intro .refl rfl (runs_bind.mpr ⟨(), _, runs_pure.mpr ⟨rfl, Machine.drift_refl _ _⟩,
    runs_bind.mpr ⟨none, _, runs_pure.mpr ⟨rfl, Machine.drift_refl _ _⟩, runs_pure.mpr ⟨rfl, Machine.drift_refl _ _⟩⟩⟩)

end LocalDevProxy.DesktopExit
