import LocalDevProxy.UnsavedEdits

namespace LocalDevProxy.LogView

open Lib.Interaction Toml Config Routes Os Process ManagerCore Desktop UnsavedEdits

/-- What the window thread has asked and how it was answered, oldest first. -/
abbrev Record : Type := List ((call : DeskCall) × DeskAns call)

/-- The end of a log, under the name it was asked for. -/
structure Reading where
  name : String
  body : String
deriving DecidableEq

def tailed : (call : DeskCall) × DeskAns call → Option (Option Reading)
  | ⟨.tailLog name _, .ok body⟩ => some (some ⟨name, body⟩)
  | ⟨.tailLog _ _, .error _⟩ => some none
  | _ => none

/-- The last reading of a log, unless it failed. -/
def reading (record : Record) : Option Reading := (record.filterMap tailed).getLast?.join

def namesTold : (call : DeskCall) × DeskAns call → Option (List String)
  | ⟨.logNames, names⟩ => some names
  | _ => none

def servicesTold : (call : DeskCall) × DeskAns call → Option (List ServiceSnapshot)
  | ⟨.services, services⟩ => some services
  | _ => none

def runningTold : (call : DeskCall) × DeskAns call → Option Bool
  | ⟨.isRunning, running⟩ => some running
  | _ => none

def reports (record : Record) : List (List String) := record.filterMap namesTold

def Available (record : Record) : Prop := ∀ entry ∈ record, entry ≠ ⟨.tryLock, false⟩

def nameAt (names : List String) (index : Int) : Option String :=
  (toUsize index).bind fun index => names[index]?

/-- What of the controller the log view depends on. -/
structure Logs where
  shown : List String
  names : List String
  index : Int
  text : String
  follow : Bool
  selected : Option String
  services : List ServiceSnapshot

def logs (c : Controller) : Logs :=
  ⟨c.window.logNames, c.state.logNames, c.window.logIndex, c.window.logText, c.window.logFollow,
    c.state.selected, c.state.services⟩

namespace Logs

def displayed (l : Logs) : Option String := nameAt l.shown l.index

def showNames (l : Logs) (names : List String) : Logs :=
  if l.names = names then l
  else
    let current := (nameAt l.names l.index).bind fun name => names.findIdx? fun candidate => candidate = name
    { l with shown := names, names, index := toIndex (current.or (some 0)) }

def showServices (l : Logs) (services : List ServiceSnapshot) : Logs :=
  let index := l.selected.bind fun name => services.findIdx? fun service => service.name = name
  { l with services, selected := if index.isNone then none else l.selected }

end Logs

theorem logs_showLogNames (c : Controller) (names : List String) :
    logs (c.showLogNames names) = (logs c).showNames names := by
  unfold Controller.showLogNames
  by_cases hsame : c.state.logNames = names
  · rw [if_pos hsame]
    exact (if_pos hsame).symm
  · rw [if_neg hsame]
    exact (if_neg hsame).symm

theorem logs_showServices (c : Controller) (services : List ServiceSnapshot) :
    logs (c.showServices services) = (logs c).showServices services := rfl

theorem follow_showNames (l : Logs) (names : List String) : (l.showNames names).follow = l.follow := by
  by_cases hsame : l.names = names
  · rw [Logs.showNames, if_pos hsame]
  · rw [Logs.showNames, if_neg hsame]

/-- The window shows the names that the controller compares new ones with. -/
def Mirrors (c : Controller) : Prop := (logs c).shown = (logs c).names

section

variable {c : Controller}

theorem Mirrors.of_logs {c' : Controller} (h : logs c' = logs c) (hc : Mirrors c) : Mirrors c' := by
  rw [Mirrors, h]
  exact hc

theorem Mirrors.yields {p : Desk Controller} (hc : Mirrors c) (hp : p.Yields fun d => logs d = logs c) :
    p.Yields Mirrors :=
  hp.mono fun _ hd => hc.of_logs hd

theorem loadConfig_logs (c : Controller) : c.loadConfig.Yields fun r => logs r.1 = logs c := by
  refine Prog.yields_then _ fun r => ?_
  rcases r with _ | (err | (_ | text))
  · exact rfl
  · exact rfl
  · exact rfl
  · exact rfl

theorem setView_logs (c : Controller) (view : ServiceView) :
    (c.setView view).Yields fun c' => logs c' = logs c := by
  cases view with
  | services => exact rfl
  | edit => exact Prog.yields_bind (loadConfig_logs { c with window.currentTab := servicesTab }) fun _ h => h

theorem syncRunState_logs (c : Controller) (running : Bool) :
    (c.syncRunState running).Yields fun c' => logs c' = logs c := by
  unfold Controller.syncRunState
  split
  · exact rfl
  · exact setView_logs { c with state.lastRunning := some running, window.running := running } _

theorem reloadRoutes_logs (c : Controller) : c.reloadRoutes.Yields fun c' => logs c' = logs c := by
  refine Prog.yields_then _ fun r => ?_
  rcases r with _ | (err | groups)
  · exact rfl
  · exact rfl
  · exact rfl

theorem persist_logs (c : Controller) : c.persist.Yields fun r => logs r.1 = logs c := by
  refine Prog.yields_then _ fun r => ?_
  rcases r with _ | (err | _)
  · exact rfl
  · cases err <;> exact rfl
  · exact rfl

theorem validate_logs (c : Controller) : c.validate.Yields fun r => logs r.1 = logs c := by
  refine Prog.yields_then _ fun r => ?_
  rcases r with _ | (err | manifest)
  · exact rfl
  · exact rfl
  · exact rfl

theorem quit_logs (c : Controller) : logs c.quit = logs c := by
  unfold Controller.quit
  split <;> rfl

theorem showLogNames_mirrors (h : Mirrors c) (names : List String) : Mirrors (c.showLogNames names) := by
  unfold Controller.showLogNames
  split
  · exact h
  · exact rfl

theorem refreshLogs_mirrors (h : Mirrors c) : c.refreshLogs.Yields Mirrors := by
  refine Prog.yields_then _ fun r => ?_
  rcases r with _ | ⟨names, body⟩
  · exact h
  · have hshown := showLogNames_mirrors h names
    dsimp only
    split
    · exact hshown
    · exact hshown

theorem refresh_mirrors (h : Mirrors c) : c.refresh.Yields Mirrors := by
  refine Prog.yields_then _ fun r => ?_
  rcases r with _ | ⟨running, services, names⟩
  · exact h
  · refine Prog.yields_bind (syncRunState_logs c running) fun d hd => ?_
    have hd' : Mirrors d := h.of_logs hd
    have hshown : Mirrors ((d.showServices services).showLogNames names) :=
      showLogNames_mirrors (c := d.showServices services) hd' names
    dsimp only
    split
    · exact refreshLogs_mirrors hshown
    · exact hshown

theorem finishJob_mirrors (h : Mirrors c) (outcome : JobOutcome) : (c.finishJob outcome).Yields Mirrors := by
  cases outcome with
  | ok message => exact Prog.yields_bind (reloadRoutes_logs _) fun d hd => refresh_mirrors (h.of_logs hd)
  | error message => exact Prog.yields_bind (reloadRoutes_logs _) fun d hd => refresh_mirrors (h.of_logs hd)

theorem job_mirrors (h : Mirrors c) (pending : String) (work : Work) :
    (c.job pending work).Yields Mirrors := by
  unfold Controller.job
  split
  · exact h
  · refine Prog.yields_then _ fun spawned => ?_
    cases spawned with
    | error err =>
        refine finishJob_mirrors ?_ _
        exact h
    | ok _ => exact Prog.yields_then _ fun _ => h

theorem openServiceLogs_mirrors (h : Mirrors c) (index : Int) : (c.openServiceLogs index).Yields Mirrors := by
  unfold Controller.openServiceLogs
  split
  · exact h
  · refine Prog.yields_then _ fun r => ?_
    rcases r with _ | names
    · exact h
    · dsimp only
      split
      · exact h
      · exact refreshLogs_mirrors (showLogNames_mirrors h names)

theorem serviceAction_mirrors (h : Mirrors c) (action : ServiceAction) :
    (c.serviceAction action).Yields Mirrors := by
  unfold Controller.serviceAction
  split
  · exact h
  · refine job_mirrors ?_ _ _
    exact h

theorem apply_mirrors (h : Mirrors c) : c.apply.Yields Mirrors := by
  refine Prog.yields_bind (persist_logs c) fun ⟨d, written⟩ hd => ?_
  have hpersisted : Mirrors d := h.of_logs hd
  cases written with
  | false =>
      dsimp only
      rw [if_neg Bool.false_ne_true]
      exact hpersisted
  | true =>
      dsimp only
      rw [if_pos rfl]
      have hview : (if d.window.running then d.setView .services else pure d : Desk Controller).Yields Mirrors := by
        split
        · exact hpersisted
        · exact hpersisted
      exact Prog.yields_bind hview fun e he => job_mirrors he _ _

theorem guarded_mirrors {allowed : Bool} {action : Desk Controller} (h : Mirrors c)
    (haction : action.Yields Mirrors) : (guarded allowed c action).Yields Mirrors := by
  unfold guarded
  split
  · exact haction
  · exact h

theorem quit_mirrors (h : Mirrors c) : Mirrors c.quit := h.of_logs (quit_logs c)

theorem react_mirrors (h : Mirrors c) (event : Desktop.Event) : (react c event).Yields Mirrors := by
  cases event with
  | editorEdited text => exact guarded_mirrors h h
  | editConfig => exact guarded_mirrors h (h.yields (setView_logs c .edit))
  | cancelEdit =>
      refine guarded_mirrors h (Prog.yields_bind (loadConfig_logs _) fun r hr => ?_)
      have hloaded : Mirrors r.1 := by
        split at hr
        · exact h.of_logs hr
        · exact h.of_logs hr
      exact hloaded.yields (setView_logs r.1 .services)
  | apply => exact guarded_mirrors h (apply_mirrors h)
  | validate => exact guarded_mirrors h (Prog.yields_bind (validate_logs c) fun d hd => h.of_logs hd)
  | serviceAction action => exact guarded_mirrors h (serviceAction_mirrors h action)
  | serviceSelected index => exact guarded_mirrors h h
  | openServiceLogs index => exact guarded_mirrors h (openServiceLogs_mirrors h index)
  | tabSelected tab => exact h
  | tabChanged =>
      simp only [react]
      split
      · exact refreshLogs_mirrors h
      · split
        · exact h.yields (reloadRoutes_logs c)
        · exact h
  | logSelected index =>
      refine guarded_mirrors h (refreshLogs_mirrors ?_)
      exact h
  | logLinesEdited lines =>
      refine guarded_mirrors h (refreshLogs_mirrors ?_)
      exact h
  | followToggled checked =>
      refine guarded_mirrors h ?_
      split
      · refine refreshLogs_mirrors ?_
        exact h
      · exact h
  | refreshLogs => exact guarded_mirrors h (refreshLogs_mirrors h)
  | reloadRoutes => exact guarded_mirrors h (h.yields (reloadRoutes_logs c))
  | refresh => exact guarded_mirrors h (refresh_mirrors h)
  | jobReceived =>
      refine Prog.yields_then _ fun outcome => ?_
      cases outcome with
      | none => exact h
      | some outcome => exact finishJob_mirrors h _
  | closeRequested =>
      simp only [react]
      split
      · exact h
      · exact quit_mirrors h
  | quit => exact quit_mirrors h

theorem launch_mirrors (tray : Bool) : (newController.launch tray).Yields Mirrors := by
  refine Prog.yields_then _ fun stored => ?_
  split
  · refine job_mirrors ?_ _ _
    exact rfl
  · refine Prog.yields_bind (reloadRoutes_logs _) fun d hd => refresh_mirrors ?_
    exact Mirrors.of_logs hd rfl

end

section

variable {shared : Bool} {ctx : Context} {paths : Paths.ProjectPaths}

theorem reached_mirrors {c : Controller} {w : DeskWorld ctx} (h : Reached shared ctx paths c w) : Mirrors c := by
  obtain ⟨tray, system, c₁, w₁, trace, hlaunch, hsession⟩ := h
  refine hsession.invariant (fun _ c _ => Mirrors c) (fun _ _ => ?_) fun _ d _ event d' _ _ hd hrun => ?_
  · exact hlaunch.yields (launch_mirrors tray)
  · obtain ⟨e, _, hreact, hrun⟩ := runs_bind.mp hrun
    obtain ⟨heq, _⟩ := runs_pure.mp hrun
    cases heq
    exact hreact.yields (react_mirrors hd event)

variable {w w' : DeskWorld ctx × Record} {c c' : Controller}

theorem serviceNames_polled {services services' : ServiceManager} {u v : World}
    (h : Runs (machine shared) services.pollExits u services' v) :
    services'.serviceNames = services.serviceNames := by
  have hcarried := KeptServices.pollExits_carried (P := fun _ _ => True) (h.mono id fun ha => ⟨ha, trivial⟩)
  have hnames : List.Forall₂ (fun info info' => ServiceInfo.name info' = ServiceInfo.name info)
      services.services services'.services := hcarried.services.imp fun _ _ hkept => hkept.name
  unfold ServiceManager.serviceNames
  generalize services.services = before, services'.services = after at hnames
  induction hnames with
  | nil => rfl
  | cons hname _ ih => rw [List.map_cons, List.map_cons, hname, ih]

structure Holding (names : List String) (w : DeskWorld ctx) : Prop where
  exclusive : Exclusive w
  owner : w.owner = .window
  names : w.manager.logNames = names

theorem holding_of_moves {names : List String} {u v : DeskWorld ctx} (hu : Holding names u)
    (h : Moves shared ctx u v) : Holding names v := by
  obtain ⟨hexclusive, howner⟩ := (beside_of_moves h).exclusive hu.exclusive
  refine ⟨hexclusive, howner.mpr hu.owner, ?_⟩
  have hidle : ∀ work awaited, u.job ≠ some ⟨.holding work, awaited⟩ := by
    intro work awaited hjob
    have hworker := hu.exclusive.mpr ⟨work, awaited, hjob⟩
    rw [hu.owner] at hworker
    cases hworker
  cases h with
  | system hd => exact hu.names
  | polls hs hr =>
      have hnames := hu.names
      rw [Manager.logNames, hs] at hnames
      exact (serviceNames_polled hr).trans hnames
  | takes hfree hjob => exact hu.names
  | works hjob hr => exact absurd hjob (hidle _ _)
  | panics m s hjob => exact absurd hjob (hidle _ _)

theorem holding_of_drift {names : List String} {u v : DeskWorld ctx} (hu : Holding names u)
    (h : (deskMachine shared ctx).drift u v) : Holding names v := by
  induction h with
  | refl => exact hu
  | tail _ hmove ih => exact holding_of_moves ih hmove

/-- The manager cannot be taken, or it is taken, asked and released. -/
theorem withManager_recorded {α : Type} {p : Desk α} {r : Option α} (hw : Orderly w.1)
    (h : Runs (deskMachine shared ctx).recorded (withManager p) w r w') :
    (r = none ∧ w'.2 = w.2 ++ [⟨.tryLock, false⟩]) ∨
      ∃ a u v, r = some a ∧ Holding u.1.manager.logNames u.1 ∧ u.2 = w.2 ++ [⟨.tryLock, true⟩] ∧
        Runs (deskMachine shared ctx).recorded p u a v ∧ w'.2 = v.2 ++ [⟨.unlock, ()⟩] := by
  obtain ⟨locked, x, hlock, h⟩ := runs_bind.mp h
  obtain ⟨u, u', hdrift, ⟨hanswer, hadded⟩, hdrift'⟩ := runs_perform.mp hlock
  cases locked with
  | false =>
      obtain ⟨rfl, hd⟩ := runs_pure.mp h
      exact .inl ⟨rfl, by rw [hd.2, hdrift'.2, hadded, hdrift.2]⟩
  | true =>
      obtain ⟨hfree, htaken⟩ := hanswer
      obtain ⟨a, y, hp, h⟩ := runs_bind.mp h
      obtain ⟨_, z, hunlock, h⟩ := runs_bind.mp h
      obtain ⟨v, v', hd, hreleased, hd'⟩ := runs_perform.mp hunlock
      obtain ⟨rfl, hend⟩ := runs_pure.mp h
      have hu := (beside_of_drift hdrift.1).orderly hw
      have hidle : ∀ work awaited, u.1.job ≠ some ⟨.holding work, awaited⟩ := by
        intro work awaited hjob
        have hworker := hu.exclusive.mpr ⟨work, awaited, hjob⟩
        rw [hfree] at hworker
        cases hworker
      have hholding : Holding u'.1.manager.logNames u'.1 := by
        rw [htaken]
        exact ⟨exclusive_of_not_holding nofun hidle, rfl, rfl⟩
      refine .inr ⟨a, u', y, rfl, hholding, by rw [hadded, hdrift.2], hp.drift_left hdrift', ?_⟩
      rw [hend.2, hd'.2, hreleased.2, hd.2]

/-- The name of the log that is read when these names are reported. -/
def chosen (names : List String) (index : Int) : Option String := (nameAt names index).or names.head?

theorem chosen_mem {names : List String} {index : Int} {name : String} (h : chosen names index = some name) :
    name ∈ names := by
  rcases Option.or_eq_some_iff.mp h with hat | ⟨_, hhead⟩
  · obtain ⟨place, _, hplace⟩ := Option.bind_eq_some_iff.mp hat
    exact List.mem_of_getElem? hplace
  · exact List.mem_of_mem_head? hhead

theorem chosen_eq_none {names : List String} {index : Int} (h : chosen names index = none) : names = [] :=
  List.head?_eq_none_iff.mp (Option.or_eq_none_iff.mp h).2

theorem tailLog_reported {m : Manager ctx.glob} {name : String} (h : name ∈ m.logNames)
    (file : Paths.Path → Option LogTail.OpenFile) (lines : Nat) : ∃ body, m.tailLog file name lines = .ok body := by
  unfold Manager.logNames at h
  unfold Manager.tailLog
  cases hservices : m.services with
  | none =>
      rw [hservices] at h
      cases h
  | some services =>
      rw [hservices] at h
      obtain ⟨info, hinfo, hname⟩ := List.mem_map.mp h
      have hlisted : services.logPath name = .ok (services.shared.logPath name) := by
        refine if_pos (List.any_eq_true.mpr ⟨info, hinfo, ?_⟩)
        rw [hname, decide_eq_true rfl]
      dsimp only
      rw [hlisted]
      exact ⟨_, rfl⟩

/-- The names are reported, and unless there are none the log of the chosen one is read. -/
theorem logView_recorded {index : Int} {lines : Nat} {names : List String} {body : String}
    (hw : Holding w.1.manager.logNames w.1)
    (h : Runs (deskMachine shared ctx).recorded (Controller.logView index lines) w (names, body) w') :
    (chosen names index = none ∧ body = "" ∧ w'.2 = w.2 ++ [⟨.logNames, names⟩]) ∨
      ∃ name, chosen names index = some name ∧
        w'.2 = w.2 ++ [⟨.logNames, names⟩, ⟨.tailLog name lines, .ok body⟩] := by
  obtain ⟨told, x, hnames, h⟩ := runs_bind.mp h
  obtain ⟨u, u', hdrift, ⟨⟨htold, hsame⟩, hadded⟩, hdrift'⟩ := runs_perform.mp hnames
  have hx : Holding told x.1 := by
    refine holding_of_drift ?_ hdrift'.1
    rw [hsame, htold, (holding_of_drift hw hdrift.1).names]
    exact holding_of_drift hw hdrift.1
  have hpast : x.2 = w.2 ++ [⟨.logNames, told⟩] := by rw [hdrift'.2, hadded, hdrift.2]
  dsimp only at h
  split at h
  · rename_i hchosen
    obtain ⟨heq, hd⟩ := runs_pure.mp h
    cases heq
    exact .inl ⟨hchosen, rfl, hd.2.trans hpast⟩
  · rename_i name hchosen
    have hlisted : name ∈ told := chosen_mem hchosen
    obtain ⟨answer, y, hread, h⟩ := runs_bind.mp h
    obtain ⟨v, v', hd, ⟨⟨⟨file, hanswer⟩, _⟩, hread⟩, hd'⟩ := runs_perform.mp hread
    obtain ⟨tail, htail⟩ := tailLog_reported (m := v.1.manager)
      (by rw [(holding_of_drift hx hd.1).names]; exact hlisted) file lines
    rw [htail] at hanswer
    subst hanswer
    obtain ⟨heq, hend⟩ := runs_pure.mp h
    cases heq
    refine .inr ⟨name, hchosen, ?_⟩
    rw [hend.2, hd'.2, hread, hd.2, hpast, List.append_assoc]
    rfl

theorem reports_append (as bs : Record) : reports (as ++ bs) = reports as ++ reports bs := List.filterMap_append

/-- The calls that tell nothing of services and logs. -/
def Aside : DeskCall → Prop
  | .isRunning | .services | .logNames | .tailLog _ _ => False
  | _ => True

structure Silent (record : Record) : Prop where
  running : record.filterMap runningTold = []
  services : record.filterMap servicesTold = []
  names : reports record = []
  read : record.filterMap tailed = []

theorem silent_of_aside {record : Record} (h : ∀ e ∈ record, Aside e.1) : Silent record := by
  have hsilent : ∀ e ∈ record, runningTold e = none ∧ servicesTold e = none ∧ namesTold e = none ∧ tailed e = none := by
    rintro ⟨call, answer⟩ he
    have hcall := h _ he
    cases call with
    | isRunning | services | logNames | tailLog => exact hcall.elim
    | _ => exact ⟨rfl, rfl, rfl, rfl⟩
  exact ⟨List.filterMap_eq_nil_iff.mpr fun e he => (hsilent e he).1,
    List.filterMap_eq_nil_iff.mpr fun e he => (hsilent e he).2.1,
    List.filterMap_eq_nil_iff.mpr fun e he => (hsilent e he).2.2.1,
    List.filterMap_eq_nil_iff.mpr fun e he => (hsilent e he).2.2.2⟩

theorem Silent.append {as bs : Record} (ha : Silent as) (hb : Silent bs) : Silent (as ++ bs) := by
  constructor
  · rw [List.filterMap_append, ha.running, hb.running, List.nil_append]
  · rw [List.filterMap_append, ha.services, hb.services, List.nil_append]
  · rw [reports_append, ha.names, hb.names, List.nil_append]
  · rw [List.filterMap_append, ha.read, hb.read, List.nil_append]

theorem withManager_aside {α : Type} {p : Desk α} (hp : p.Only Aside) : (withManager p).Only Aside := by
  refine Prog.only_bind (Prog.only_perform trivial) fun locked => ?_
  cases locked with
  | false => trivial
  | true => exact Prog.only_bind hp fun _ => Prog.only_bind (Prog.only_perform trivial) fun _ => trivial

theorem loadConfig_aside (c : Controller) : c.loadConfig.Only Aside := by
  refine Prog.only_bind (withManager_aside (Prog.only_perform trivial)) fun r => ?_
  rcases r with _ | (err | (_ | text)) <;> trivial

theorem setView_aside (c : Controller) (view : ServiceView) : (c.setView view).Only Aside := by
  cases view with
  | services => trivial
  | edit => exact Prog.only_bind (loadConfig_aside _) fun _ => trivial

theorem syncRunState_aside (c : Controller) (running : Bool) : (c.syncRunState running).Only Aside := by
  unfold Controller.syncRunState
  split
  · trivial
  · exact setView_aside _ _

theorem reloadRoutes_aside (c : Controller) : c.reloadRoutes.Only Aside := by
  refine Prog.only_bind (withManager_aside (Prog.only_perform trivial)) fun r => ?_
  rcases r with _ | (err | groups) <;> trivial

theorem validate_aside (c : Controller) : c.validate.Only Aside := by
  refine Prog.only_bind (withManager_aside (Prog.only_perform trivial)) fun r => ?_
  rcases r with _ | (err | manifest) <;> trivial

theorem persist_aside (c : Controller) : c.persist.Only Aside := by
  refine Prog.only_bind (withManager_aside (Prog.only_perform trivial)) fun r => ?_
  rcases r with _ | (err | _)
  · trivial
  · cases err <;> trivial
  · trivial

/-- The record ends with a reading of the named log, or no name is left and nothing is read. -/
def Read (name : Option String) (body : String) (record : Record) : Prop :=
  name = none ∧ body = "" ∨ ∃ shown, name = some shown ∧ reading record = some ⟨shown, body⟩

theorem reading_append {as bs : Record} {r : Option Reading} (h : (bs.filterMap tailed).getLast? = some r) :
    reading (as ++ bs) = r := by
  rw [reading, List.filterMap_append, List.getLast?_append, h]
  rfl

theorem reading_quiet {as bs : Record} (h : bs.filterMap tailed = []) : reading (as ++ bs) = reading as := by
  rw [reading, List.filterMap_append, h, List.append_nil, reading]

theorem Available.append {as bs : Record} (h : Available (as ++ bs)) : Available as ∧ Available bs :=
  ⟨fun entry hentry => h entry (List.mem_append_left bs hentry),
    fun entry hentry => h entry (List.mem_append_right as hentry)⟩

def refused : Record := [⟨.tryLock, false⟩]

theorem silent_refused : Silent refused := ⟨rfl, rfl, rfl, rfl⟩

theorem not_available_refused : ¬ Available refused := fun h => h _ (List.mem_singleton_self _) rfl

theorem refreshLogs_recorded (hw : Orderly w.1)
    (h : Runs (deskMachine shared ctx).recorded c.refreshLogs w c' w') :
    ∃ added, w'.2 = w.2 ++ added ∧ added.filterMap runningTold = [] ∧ added.filterMap servicesTold = [] ∧
      ((added = refused ∧ logs c' = logs c) ∨
        ∃ names body, reports added = [names] ∧ logs c' = { (logs c).showNames names with text := body } ∧
          Read (chosen names (logs c).index) body w'.2) := by
  obtain ⟨r, x, hasked, h⟩ := runs_bind.mp h
  rcases withManager_recorded hw hasked with ⟨rfl, hadded⟩ | ⟨⟨names, body⟩, u, v, rfl, hu, htaken, hrun, hreleased⟩
  · obtain ⟨rfl, hd⟩ := runs_pure.mp h
    exact ⟨refused, hd.2.trans hadded, rfl, rfl, .inl ⟨rfl, rfl⟩⟩
  · obtain ⟨rfl, hd⟩ := runs_pure.mp h
    have hshown : logs (if (c.showLogNames names).window.logText = body then c.showLogNames names
        else { c.showLogNames names with window.logText := body }) =
        { (logs c).showNames names with text := body } := by
      rw [← logs_showLogNames]
      split
      · rename_i hsame
        rw [← hsame]
        rfl
      · rfl
    rcases logView_recorded hu hrun with ⟨hchosen, rfl, hread⟩ | ⟨name, hchosen, hread⟩
    · refine ⟨[⟨.tryLock, true⟩, ⟨.logNames, names⟩, ⟨.unlock, ()⟩], ?_, rfl, rfl,
        .inr ⟨names, "", rfl, hshown, .inl ⟨hchosen, rfl⟩⟩⟩
      rw [hd.2, hreleased, hread, htaken, List.append_assoc, List.append_assoc]
      rfl
    · have hadded : w'.2 = w.2 ++ [⟨.tryLock, true⟩, ⟨.logNames, names⟩,
          ⟨.tailLog name ((toUsize c.window.logLines).getD 0), .ok body⟩, ⟨.unlock, ()⟩] := by
        rw [hd.2, hreleased, hread, htaken, List.append_assoc, List.append_assoc]
        rfl
      refine ⟨_, hadded, rfl, rfl, .inr ⟨names, body, rfl, hshown, .inr ⟨name, hchosen, ?_⟩⟩⟩
      rw [hadded]
      exact reading_append rfl

/-- The same for one that comes after more was told. -/
theorem refreshLogs_added {past told answers : Record} {v : DeskWorld ctx} (hw : Orderly w.1)
    (hpast : w.2 = past ++ told)
    (h : Runs (deskMachine shared ctx).recorded c.refreshLogs w c' (v, past ++ answers)) :
    ∃ added, answers = told ++ added ∧ added.filterMap runningTold = [] ∧ added.filterMap servicesTold = [] ∧
      ((added = refused ∧ logs c' = logs c) ∨
        ∃ names body, reports added = [names] ∧ logs c' = { (logs c).showNames names with text := body } ∧
          Read (chosen names (logs c).index) body (past ++ answers)) := by
  obtain ⟨added, hadded, hrest⟩ := refreshLogs_recorded hw h
  rw [hpast, List.append_assoc] at hadded
  exact ⟨added, List.append_cancel_left hadded, hrest⟩

theorem snapshot_recorded {running : Bool} {services : List ServiceSnapshot} {names : List String}
    (h : Runs (deskMachine shared ctx).recorded Controller.snapshot w (running, services, names) w') :
    w'.2 = w.2 ++ [⟨.isRunning, running⟩, ⟨.services, services⟩, ⟨.logNames, names⟩] := by
  obtain ⟨_, u, hasked, h⟩ := runs_bind.mp h
  obtain ⟨_, _, hd₁, ⟨_, hrunning⟩, hd₂⟩ := runs_perform.mp hasked
  obtain ⟨_, v, hasked, h⟩ := runs_bind.mp h
  obtain ⟨_, _, hd₃, ⟨_, hservices⟩, hd₄⟩ := runs_perform.mp hasked
  obtain ⟨_, x, hasked, h⟩ := runs_bind.mp h
  obtain ⟨_, _, hd₅, ⟨_, hnames⟩, hd₆⟩ := runs_perform.mp hasked
  obtain ⟨heq, hend⟩ := runs_pure.mp h
  cases heq
  rw [hend.2, hd₆.2, hnames, hd₅.2, hd₄.2, hservices, hd₃.2, hd₂.2, hrunning, hd₁.2, List.append_assoc,
    List.append_assoc]
  rfl

/-- The window has been told the run state, the services and the names, and no log has been read. -/
structure Told (running : Bool) (services : List ServiceSnapshot) (names : List String) (record : Record) : Prop where
  running : record.filterMap runningTold = [running]
  services : record.filterMap servicesTold = [services]
  names : reports record = [names]
  read : record.filterMap tailed = []

theorem told_silent {running : Bool} {services : List ServiceSnapshot} {names : List String} {aside : Record}
    (h : Silent aside) :
    Told running services names
      ([⟨.tryLock, true⟩, ⟨.isRunning, running⟩, ⟨.services, services⟩, ⟨.logNames, names⟩, ⟨.unlock, ()⟩] ++
        aside) := by
  constructor
  · rw [List.filterMap_append, h.running]
    rfl
  · rw [List.filterMap_append, h.services]
    rfl
  · rw [reports_append, h.names]
    rfl
  · rw [List.filterMap_append, h.read]
    rfl

/-- A refresh is told the services and the names, and reads the log while they run and it is to be followed. -/
theorem refresh_recorded (hw : Orderly w.1) (h : Runs (deskMachine shared ctx).recorded c.refresh w c' w') :
    (w'.2 = w.2 ++ refused ∧ logs c' = logs c) ∨
      ∃ running services names told d y, Told running services names told ∧ y.2 = w.2 ++ told ∧ Orderly y.1 ∧
        logs d = ((logs c).showServices services).showNames names ∧
        if running = true ∧ (logs c).follow = true then Runs (deskMachine shared ctx).recorded d.refreshLogs y c' w'
        else c' = d ∧ w'.2 = y.2 := by
  obtain ⟨r, x, hasked, h⟩ := runs_bind.mp h
  rcases withManager_recorded hw hasked with ⟨rfl, hadded⟩ |
    ⟨⟨running, services, names⟩, u, v, rfl, hu, htaken, hrun, hreleased⟩
  · obtain ⟨rfl, hd⟩ := runs_pure.mp h
    exact .inl ⟨hd.2.trans hadded, rfl⟩
  · obtain ⟨d, y, hsync, h⟩ := runs_bind.mp h
    have hd : logs d = logs c := hsync.yields (syncRunState_logs c running)
    obtain ⟨aside, hy, haside⟩ := hsync.extends (syncRunState_aside c running)
    have hpast : y.2 = w.2 ++ ([⟨.tryLock, true⟩, ⟨.isRunning, running⟩, ⟨.services, services⟩, ⟨.logNames, names⟩,
        ⟨.unlock, ()⟩] ++ aside) := by
      rw [hy, hreleased, snapshot_recorded hrun, htaken, List.append_assoc, List.append_assoc, List.append_assoc]
      rfl
    have hy : Orderly y.1 :=
      (syncRunState_run hsync.forget).1.orderly ((consult hasked.forget consulting_snapshot).1.orderly hw)
    have hlogs : logs ((d.showServices services).showLogNames names) =
        ((logs c).showServices services).showNames names := by
      rw [logs_showLogNames, logs_showServices, hd]
    have hfollow : ((d.showServices services).showLogNames names).window.logFollow = (logs c).follow := by
      rw [← hd]
      exact (congrArg Logs.follow (logs_showLogNames (d.showServices services) names)).trans (follow_showNames _ names)
    refine .inr ⟨running, services, names, _, _, y, told_silent (silent_of_aside haside), hpast, hy, hlogs, ?_⟩
    dsimp only at h
    rw [hfollow] at h
    split at h
    · rename_i hreads
      rw [if_pos (Bool.and_eq_true_iff.mp hreads)]
      exact h
    · rename_i hreads
      rw [if_neg fun hboth => hreads (Bool.and_eq_true_iff.mpr hboth)]
      obtain ⟨rfl, hend⟩ := runs_pure.mp h
      exact ⟨rfl, hend.2⟩

def opened (l : Logs) (index : Int) : Option String :=
  ((toUsize index).bind fun index => l.services[index]?).map ServiceSnapshot.name

def Logs.select (l : Logs) (names : List String) (name : String) : Logs :=
  { l.showNames names with index := toIndex (names.findIdx? fun log => log = name) }

theorem logNames_recorded {names : List String}
    (h : Runs (deskMachine shared ctx).recorded (ask .logNames) w names w') : w'.2 = w.2 ++ [⟨.logNames, names⟩] := by
  obtain ⟨u, v, hd, ⟨_, hadded⟩, hd'⟩ := runs_perform.mp h
  rw [hd'.2, hadded, hd.2]

def asked (names : List String) : Record := [⟨.tryLock, true⟩, ⟨.logNames, names⟩, ⟨.unlock, ()⟩]

/-- A service whose log is not there is not opened. Otherwise it is selected and the log read. -/
theorem openServiceLogs_recorded {index : Int} (hw : Orderly w.1)
    (h : Runs (deskMachine shared ctx).recorded (c.openServiceLogs index) w c' w') :
    (logs c' = logs c ∧ ((opened (logs c) index = none ∧ w'.2 = w.2) ∨ w'.2 = w.2 ++ refused ∨
        ∃ name names, opened (logs c) index = some name ∧ name ∉ names ∧ w'.2 = w.2 ++ asked names)) ∨
      ∃ name names d y, opened (logs c) index = some name ∧ name ∈ names ∧ y.2 = w.2 ++ asked names ∧
        Orderly y.1 ∧ logs d = (logs c).select names name ∧
        Runs (deskMachine shared ctx).recorded d.refreshLogs y c' w' := by
  unfold Controller.openServiceLogs at h
  split at h
  · rename_i hunknown
    obtain ⟨rfl, hd⟩ := runs_pure.mp h
    exact .inl ⟨rfl, .inl ⟨hunknown, hd.2⟩⟩
  · rename_i name hopened
    obtain ⟨r, x, hasked, h⟩ := runs_bind.mp h
    rcases withManager_recorded hw hasked with ⟨rfl, hadded⟩ | ⟨names, u, v, rfl, hu, htaken, hrun, hreleased⟩
    · obtain ⟨rfl, hd⟩ := runs_pure.mp h
      exact .inl ⟨rfl, .inr (.inl (hd.2.trans hadded))⟩
    · have hpast : x.2 = w.2 ++ asked names := by
        rw [hreleased, logNames_recorded hrun, htaken, List.append_assoc, List.append_assoc]
        rfl
      dsimp only at h
      split at h
      · rename_i hmissing
        obtain ⟨rfl, hd⟩ := runs_pure.mp h
        refine .inl ⟨rfl, .inr (.inr ⟨name, names, hopened, fun hlisted => ?_, hd.2.trans hpast⟩)⟩
        have hne := List.findIdx?_eq_none_iff.mp hmissing name hlisted
        rw [decide_eq_true rfl] at hne
        cases hne
      · rename_i position hfound
        have hx : Orderly x.1 := (consult hasked.forget (consulting_ask .logNames trivial)).1.orderly hw
        have hlogs : logs { c.showLogNames names with
            window.logIndex := toIndex (some position), window.currentTab := logsTab } =
            (logs c).select names name := by
          unfold Logs.select
          rw [← logs_showLogNames, hfound]
          rfl
        refine .inr ⟨name, names, _, x, hopened, ?_, hpast, hx, hlogs, h⟩
        obtain ⟨hlt, hname, _⟩ := List.findIdx?_eq_some_iff_getElem.mp hfound
        rw [← of_decide_eq_true hname]
        exact List.getElem_mem hlt

end

inductive LogOp
  | refresh
  | refreshLogs
  | openServiceLogs (index : Int)

def LogOp.run (c : Controller) : LogOp → Desk Controller
  | .refresh => c.refresh
  | .refreshLogs => c.refreshLogs
  | .openServiceLogs index => c.openServiceLogs index

/-- The service that is to be seen afterwards, if its log is still there. -/
def LogOp.own (l : Logs) : LogOp → Option String
  | .openServiceLogs index => opened l index
  | _ => l.displayed

/-- The text is the end of the log that is named, as it was when it was last read. -/
def Labelled (l : Logs) (read : Option Reading) : Prop :=
  l.shown = [] ∧ l.text = "" ∨ ∃ name, l.displayed = some name ∧ read = some ⟨name, l.text⟩

/-- The service is the one meant, where each of the lists that were reported has it. -/
def Follows (own : Option String) (told : List (List String)) (shown : Option String) : Prop :=
  ∀ name, own = some name → (∀ names ∈ told, name ∈ names) → shown = some name

/-- After an operation the log shown is the log named, and what was selected and is still
there stays selected. -/
structure Shows (op : LogOp) (l l' : Logs) (past answers : Record) : Prop where
  labelled : Labelled l' (reading (past ++ answers))
  log : Follows (op.own l) (reports answers) l'.displayed
  service : ∀ name, l.selected = some name →
    (∀ services ∈ answers.filterMap servicesTold, ∃ service ∈ services, service.name = name) →
    l'.selected = some name

/-- The service that the selection is on when names are reported: it keeps its place in
the same list, and in another list goes with its service, or to the first one. -/
def kept (l : Logs) (names : List String) : Option String :=
  if l.names = names then nameAt names l.index
  else
    match (nameAt l.names l.index).filter (· ∈ names) with
    | some name => if names.idxOf name ≤ 2147483647 then some name else none
    | none => names.head?

/-- The service at the selected place of the reported list is the one that the selection is on. -/
def Agrees (l : Logs) (names : List String) : Prop := chosen names l.index = kept l names

/-- Names that leave the selection on the service it is on: in the same list, in one that has
that service at a place that an index can hold, or in none where no text is shown. -/
def StaysOn (l : Logs) (names : List String) : Prop :=
  l.names = names ∨ (names = [] ∧ l.text = "") ∨
    ∃ name, l.displayed = some name ∧ name ∈ names ∧ names.idxOf name ≤ 2147483647

/-- A service that both lists have is at a place of the first that an index can hold, or
else the first one of the second. -/
def Fits (name : String) (names again : List String) : Prop :=
  name ∈ names → name ∈ again → names.idxOf name ≤ 2147483647 ∨ again.head? = some name

/-- What an operation is told, by the setting of Follow and the replies of the manager, and
from this when it leaves the log shown that is named. -/
def Decided (l l' : Logs) (past answers : Record) : LogOp → Prop
  | .refreshLogs =>
      ∃ names, reports answers = [names] ∧ (Shows .refreshLogs l l' past answers ↔ Agrees l names)
  | .refresh =>
      ∃ running names, answers.filterMap runningTold = [running] ∧
        if running = true ∧ l.follow = true then
          ∃ again, reports answers = [names, again] ∧
            (Shows .refresh l l' past answers ↔ Agrees (l.showNames names) again ∧
              (l.names = names ∨ ∀ name, l.displayed = some name → Fits name names again))
        else
          reports answers = [names] ∧ (Labelled l (reading past) →
            (StaysOn l names → Shows .refresh l l' past answers) ∧
              (Shows .refresh l l' past answers → StaysOn l names ∨ l.text = ""))
  | .openServiceLogs index =>
      match opened l index with
      | none =>
          reports answers = [] ∧ (Labelled l (reading past) → Shows (.openServiceLogs index) l l' past answers)
      | some name =>
          ∃ names, if name ∈ names then
            ∃ again, reports answers = [names, again] ∧
              (Shows (.openServiceLogs index) l l' past answers ↔
                Agrees (l.select names name) again ∧ Fits name names again)
          else
            reports answers = [names] ∧
              (Labelled l (reading past) → Shows (.openServiceLogs index) l l' past answers)

section

variable {l l' : Logs} {names : List String}

theorem showNames_same (h : l.names = names) : l.showNames names = l := if_pos h

/-- The selection follows the name it was on, and goes to the first one where that is gone. -/
theorem showNames_changed (h : l.names ≠ names) : l.showNames names =
    { l with
      shown := names
      names
      index := toIndex (((nameAt l.names l.index).bind fun name =>
        names.findIdx? fun candidate => candidate = name).or (some 0)) } := if_neg h

theorem shown_showNames (h : l.shown = l.names) (names : List String) : (l.showNames names).shown = names := by
  by_cases hsame : l.names = names
  · rw [showNames_same hsame, h, hsame]
  · rw [showNames_changed hsame]

theorem names_showNames (l : Logs) (names : List String) : (l.showNames names).names = names := by
  by_cases hsame : l.names = names
  · rw [showNames_same hsame, hsame]
  · rw [showNames_changed hsame]

theorem mirrors_showNames (h : l.shown = l.names) (names : List String) :
    (l.showNames names).shown = (l.showNames names).names :=
  (shown_showNames h names).trans (names_showNames l names).symm

theorem nameAt_toIndex (names : List String) (place : Nat) :
    nameAt names (toIndex (some place)) = if place ≤ 2147483647 then names[place]? else none := by
  change nameAt names (if place ≤ 2147483647 then (place : Int) else -1) = _
  split
  · rw [nameAt, toUsize, if_pos (Int.natCast_nonneg place)]
    rfl
  · rfl

theorem findIdx?_name {names : List String} {name : String} (h : name ∈ names) :
    names.findIdx? (fun candidate => candidate = name) = some (names.idxOf name) := by
  refine List.findIdx?_eq_some_iff_findIdx_eq.mpr ⟨?_, rfl⟩
  exact List.idxOf_lt_length_iff.mpr h

theorem findIdx?_no_name {names : List String} {name : String} (h : name ∉ names) :
    names.findIdx? (fun candidate => candidate = name) = none := by
  refine List.findIdx?_eq_none_iff.mpr fun candidate hlisted => decide_eq_false fun hsame => ?_
  rw [hsame] at hlisted
  exact h hlisted

theorem nameAt_first (names : List String) : nameAt names (toIndex (some 0)) = names.head? := by
  rw [nameAt_toIndex, if_pos (Nat.zero_le _), List.head?_eq_getElem?]

theorem displayed_showNames (h : l.shown = l.names) (names : List String) :
    (l.showNames names).displayed = kept l names := by
  rw [kept]
  by_cases hsame : l.names = names
  · rw [showNames_same hsame, if_pos hsame, Logs.displayed, h, hsame]
  · rw [showNames_changed hsame, if_neg hsame, Logs.displayed]
    cases nameAt l.names l.index with
    | none => exact nameAt_first names
    | some name =>
        by_cases hlisted : name ∈ names
        · rw [Option.filter_some, if_pos (decide_eq_true hlisted)]
          change nameAt names (toIndex ((names.findIdx? fun candidate => candidate = name).or (some 0))) = _
          rw [findIdx?_name hlisted, Option.some_or, nameAt_toIndex, List.getElem?_idxOf hlisted]
        · rw [Option.filter_some, if_neg (by simpa using hlisted)]
          change nameAt names (toIndex ((names.findIdx? fun candidate => candidate = name).or (some 0))) = _
          rw [findIdx?_no_name hlisted, Option.none_or]
          exact nameAt_first names

theorem text_showNames (l : Logs) (names : List String) : (l.showNames names).text = l.text := by
  by_cases hsame : l.names = names
  · rw [showNames_same hsame]
  · rw [showNames_changed hsame]

theorem selected_showNames (l : Logs) (names : List String) : (l.showNames names).selected = l.selected := by
  by_cases hsame : l.names = names
  · rw [showNames_same hsame]
  · rw [showNames_changed hsame]

theorem showNames_showServices (l : Logs) (services : List ServiceSnapshot) (names : List String) :
    (l.showServices services).showNames names = (l.showNames names).showServices services := by
  have hnames : (l.showServices services).names = l.names := rfl
  by_cases hsame : l.names = names
  · rw [showNames_same hsame, showNames_same (hnames.trans hsame)]
  · rw [showNames_changed hsame, showNames_changed (hnames ▸ hsame)]
    rfl

theorem selected_showServices {services : List ServiceSnapshot} {name : String} (h : l.selected = some name)
    (hlisted : ∃ service ∈ services, service.name = name) : (l.showServices services).selected = some name := by
  obtain ⟨service, hservice, hname⟩ := hlisted
  rw [Logs.showServices, h, Option.bind_some]
  dsimp only
  rw [if_neg]
  rw [Option.isNone_iff_eq_none, List.findIdx?_eq_none_iff]
  intro hnone
  have hne := hnone service hservice
  rw [hname, decide_eq_true rfl] at hne
  cases hne

theorem labelled_read {again : List String} {body : String} {record : Record} (h : l.shown = l.names)
    (hread : Read (chosen again l.index) body record) :
    Labelled { l.showNames again with text := body } (reading record) ↔ Agrees l again := by
  have hdisplayed : ({ l.showNames again with text := body } : Logs).displayed = kept l again :=
    displayed_showNames h again
  have hshown : ({ l.showNames again with text := body } : Logs).shown = again := shown_showNames h again
  rw [Agrees, Labelled, hdisplayed, hshown]
  rcases hread with ⟨hchosen, rfl⟩ | ⟨name, hchosen, hreading⟩
  · have hempty := chosen_eq_none hchosen
    subst hempty
    refine iff_of_true (.inl ⟨rfl, rfl⟩) ?_
    rw [hchosen, ← hdisplayed, Logs.displayed, hshown, nameAt]
    cases toUsize _ with
    | none => rfl
    | some place => rfl
  · rw [hchosen, hreading]
    constructor
    · rintro (⟨hempty, _⟩ | ⟨shown, hkept, heq⟩)
      · rw [hempty] at hchosen
        cases chosen_mem hchosen
      · cases heq
        exact hkept.symm
    · exact fun hkept => .inr ⟨name, hkept.symm, rfl⟩

/-- A log that is read where the selection is on is that of the selected service, if it is there. -/
theorem Agrees.follows (h : l.shown = l.names) (hagrees : Agrees l names) :
    Follows l.displayed [names] (chosen names l.index) := by
  intro name hname hall
  have hlisted : name ∈ names := hall names (List.mem_singleton_self names)
  have hat : nameAt l.names l.index = some name := h ▸ hname
  rw [hagrees, kept]
  by_cases hsame : l.names = names
  · rw [if_pos hsame, ← hsame, hat]
  · rw [if_neg hsame, hat, Option.filter_some, if_pos (decide_eq_true hlisted)]
    dsimp only
    by_cases hfits : names.idxOf name ≤ 2147483647
    · rw [if_pos hfits]
    · rw [Agrees, kept, if_neg hsame, hat, Option.filter_some, if_pos (decide_eq_true hlisted)] at hagrees
      dsimp only at hagrees
      rw [if_neg hfits] at hagrees
      rw [chosen_eq_none hagrees] at hlisted
      cases hlisted

/-- Where the log is read, the one shown is the one named just when the selected place of the
reported list is that of the service that the selection is on. -/
theorem shows_read {own : Option String} {told : List (List String)} {again : List String} {body : String}
    {record : Record} (h : l.shown = l.names) (hread : Read (chosen again l.index) body record) :
    Labelled { l.showNames again with text := body } (reading record) ∧
        Follows own told ({ l.showNames again with text := body } : Logs).displayed ↔
      Agrees l again ∧ Follows own told (chosen again l.index) := by
  rw [labelled_read h hread]
  have hdisplayed : ({ l.showNames again with text := body } : Logs).displayed = kept l again :=
    displayed_showNames h again
  rw [hdisplayed]
  refine and_congr_right fun hagrees => ?_
  rw [hagrees]

/-- Where the selection is moved to a service by its name, it is then on that service in a
further list just when an index can hold its place, or it is the first one there. -/
theorem moved_follows {again : List String} {name : String} (h : l.shown = l.names) (hlisted : name ∈ l.names)
    (hindex : l.index = toIndex (some (l.names.idxOf name))) (hagrees : Agrees l again) (hstill : name ∈ again) :
    chosen again l.index = some name ↔ l.names.idxOf name ≤ 2147483647 ∨ again.head? = some name := by
  by_cases hfits : l.names.idxOf name ≤ 2147483647
  · refine iff_of_true ?_ (.inl hfits)
    have hdisplayed : l.displayed = some name := by
      rw [Logs.displayed, h, hindex, nameAt_toIndex, if_pos hfits, List.getElem?_idxOf hlisted]
    refine hagrees.follows h name hdisplayed fun names hnames => ?_
    rw [List.mem_singleton.mp hnames]
    exact hstill
  · have hnone : nameAt again l.index = none := by
      rw [hindex, nameAt_toIndex, if_neg hfits]
    rw [chosen, hnone, Option.none_or, or_iff_right hfits]

theorem follows_pair {own shown : Option String} {names again : List String} :
    Follows own [names, again] shown ↔ ∀ name, own = some name → name ∈ names → name ∈ again → shown = some name := by
  simp [Follows]

/-- A displayed service that the lists have is followed, if its place can be held between them. -/
theorem again_follows {again : List String} (h : l.shown = l.names) (hagrees : Agrees (l.showNames names) again) :
    Follows l.displayed [names, again] (chosen again (l.showNames names).index) ↔
      l.names = names ∨ ∀ name, l.displayed = some name → Fits name names again := by
  have hshown : (l.showNames names).shown = (l.showNames names).names := mirrors_showNames h names
  rw [follows_pair]
  by_cases hsame : l.names = names
  · refine iff_of_true (fun name hname _ hstill => ?_) (.inl hsame)
    rw [showNames_same hsame] at hagrees ⊢
    refine hagrees.follows h name hname fun other hother => ?_
    rw [List.mem_singleton.mp hother]
    exact hstill
  · rw [or_iff_right hsame]
    refine forall₂_congr fun name hname => forall₂_congr fun hlisted hstill => ?_
    have hat : nameAt l.names l.index = some name := h ▸ hname
    have hindex : (l.showNames names).index = toIndex (some (names.idxOf name)) := by
      rw [showNames_changed hsame, hat, Option.bind_some]
      dsimp only
      rw [findIdx?_name hlisted, Option.some_or]
    have hnames := names_showNames l names
    rw [moved_follows hshown (hnames.symm ▸ hlisted) (hnames.symm ▸ hindex) hagrees hstill, hnames]

theorem select_follows {again : List String} {name : String} (h : l.shown = l.names) (hlisted : name ∈ names)
    (hagrees : Agrees (l.select names name) again) :
    Follows (some name) [names, again] (chosen again (l.select names name).index) ↔ Fits name names again := by
  have hnames : (l.select names name).names = names := names_showNames l names
  have hshown : (l.select names name).shown = (l.select names name).names := mirrors_showNames h names
  have hindex : (l.select names name).index = toIndex (some (names.idxOf name)) :=
    congrArg toIndex (findIdx?_name hlisted)
  rw [follows_pair]
  constructor
  · intro hfollows _ hstill
    have hchosen := hfollows name rfl hlisted hstill
    rwa [moved_follows hshown (hnames.symm ▸ hlisted) (hnames.symm ▸ hindex) hagrees hstill, hnames] at hchosen
  · rintro hfits _ ⟨⟩ _ hstill
    rw [moved_follows hshown (hnames.symm ▸ hlisted) (hnames.symm ▸ hindex) hagrees hstill, hnames]
    exact hfits hlisted hstill

/-- The service that is displayed when other names are shown. -/
theorem kept_of_displayed {name : String} (h : l.shown = l.names) (hname : l.displayed = some name) :
    kept l names = some name ↔ l.names = names ∨ name ∈ names ∧ names.idxOf name ≤ 2147483647 := by
  have hat : nameAt l.names l.index = some name := h ▸ hname
  rw [kept]
  by_cases hsame : l.names = names
  · rw [if_pos hsame, ← hsame, hat]
    exact iff_of_true rfl (.inl rfl)
  · rw [if_neg hsame, or_iff_right hsame, hat]
    by_cases hlisted : name ∈ names
    · rw [Option.filter_some, if_pos (decide_eq_true hlisted), and_iff_right hlisted]
      dsimp only
      split
      · rename_i hfits
        exact iff_of_true rfl hfits
      · rename_i hfits
        exact iff_of_false nofun hfits
    · rw [Option.filter_some, if_neg (by simpa using hlisted)]
      refine iff_of_false (fun hhead => hlisted (List.mem_of_mem_head? hhead)) fun hboth => hlisted hboth.1

theorem displayed_ne_nil {name : String} (h : l.displayed = some name) : l.shown ≠ [] := by
  intro hempty
  rw [Logs.displayed, hempty, nameAt] at h
  obtain ⟨place, _, hplace⟩ := Option.bind_eq_some_iff.mp h
  cases hplace

/-- A text stays under its name when other names are shown, if the selection stays on the service. -/
theorem labelled_rest {read : Option Reading} (h : l.shown = l.names) (hlabelled : Labelled l read)
    (hstays : StaysOn l names) : Labelled (l.showNames names) read := by
  rcases hstays with hsame | ⟨rfl, hempty⟩ | ⟨name, hname, hlisted, hfits⟩
  · rw [showNames_same hsame]
    exact hlabelled
  · exact .inl ⟨shown_showNames h [], (text_showNames l []).trans hempty⟩
  · rcases hlabelled with ⟨hnone, _⟩ | ⟨other, hother, hread⟩
    · exact absurd hnone (displayed_ne_nil hname)
    · obtain rfl : name = other := Option.some.inj (hname.symm.trans hother)
      refine .inr ⟨name, ?_, by rw [text_showNames, hread]⟩
      rw [displayed_showNames h, kept_of_displayed h hname]
      exact .inr ⟨hlisted, hfits⟩

theorem follows_rest (h : l.shown = l.names) (hstays : StaysOn l names) :
    Follows l.displayed [names] (l.showNames names).displayed := by
  intro name hname hall
  have hlisted : name ∈ names := hall names (List.mem_singleton_self names)
  rw [displayed_showNames h, kept_of_displayed h hname]
  rcases hstays with hsame | ⟨rfl, _⟩ | ⟨other, hother, hboth⟩
  · exact .inl hsame
  · cases hlisted
  · obtain rfl : name = other := Option.some.inj (hname.symm.trans hother)
    exact .inr hboth

theorem stays_of_labelled {read : Option Reading} (h : l.shown = l.names) (hlabelled : Labelled l read)
    (hafter : Labelled (l.showNames names) read) : StaysOn l names ∨ l.text = "" := by
  rcases hlabelled with ⟨_, hempty⟩ | ⟨name, hname, hread⟩
  · exact .inr hempty
  · rw [Labelled, displayed_showNames h, shown_showNames h, text_showNames] at hafter
    rcases hafter with hnone | ⟨other, hkept, hother⟩
    · exact .inl (.inr (.inl hnone))
    · rw [hread] at hother
      cases hother
      refine .inl (((kept_of_displayed h hname).mp hkept).imp_right fun hboth => .inr ⟨name, hname, hboth⟩)

end

section

variable {shared : Bool} {ctx : Context} {w w' : DeskWorld ctx} {past answers : Record} {c c' : Controller}

theorem shows_iff {op : LogOp} {l l' : Logs}
    (hservice : ∀ name, l.selected = some name →
      (∀ services ∈ answers.filterMap servicesTold, ∃ service ∈ services, service.name = name) →
      l'.selected = some name) :
    Shows op l l' past answers ↔
      Labelled l' (reading (past ++ answers)) ∧ Follows (op.own l) (reports answers) l'.displayed :=
  ⟨fun h => ⟨h.labelled, h.log⟩, fun h => ⟨h.1, h.2, hservice⟩⟩

theorem refreshLogs_decided (hmirrors : Mirrors c) (hw : Orderly w)
    (h : Runs (deskMachine shared ctx).recorded c.refreshLogs (w, past) c' (w', past ++ answers))
    (havailable : Available answers) : Decided (logs c) (logs c') past answers .refreshLogs := by
  obtain ⟨added, hadded, _, _, hrest⟩ := refreshLogs_recorded hw h
  obtain rfl : answers = added := List.append_cancel_left hadded
  rcases hrest with ⟨rfl, _⟩ | ⟨names, body, hnames, hc', hread⟩
  · exact absurd havailable not_available_refused
  · refine ⟨names, hnames, ?_⟩
    rw [shows_iff, hnames, hc', shows_read hmirrors hread]
    · exact ⟨fun h => h.1, fun h => ⟨h, h.follows hmirrors⟩⟩
    · intro name hselected _
      rw [hc']
      exact (selected_showNames (logs c) names).trans hselected

theorem refresh_decided (hmirrors : Mirrors c) (hw : Orderly w)
    (h : Runs (deskMachine shared ctx).recorded c.refresh (w, past) c' (w', past ++ answers))
    (havailable : Available answers) : Decided (logs c) (logs c') past answers .refresh := by
  rcases refresh_recorded hw h with ⟨hadded, _⟩ | ⟨running, services, names, told, d, y, htold, hy, horderly, hd, hrest⟩
  · rw [List.append_cancel_left hadded] at havailable
    exact absurd havailable not_available_refused
  · rw [showNames_showServices] at hd
    have hdmirrors : (logs d).shown = (logs d).names := by
      rw [hd]
      exact mirrors_showNames hmirrors names
    have hselected : ∀ name, (logs c).selected = some name →
        (∃ service ∈ services, service.name = name) → (logs d).selected = some name := by
      intro name hname hlisted
      rw [hd]
      exact selected_showServices ((selected_showNames (logs c) names).trans hname) hlisted
    by_cases hreads : running = true ∧ (logs c).follow = true
    · rw [if_pos hreads] at hrest
      obtain ⟨added, rfl, hrunning, hservices, hread⟩ := refreshLogs_added horderly hy hrest
      rcases hread with ⟨rfl, _⟩ | ⟨again, body, hagain, hc', hread⟩
      · exact absurd havailable.append.2 not_available_refused
      · have hreports : reports (told ++ added) = [names, again] := by
          rw [reports_append, htold.names, hagain]
          rfl
        refine ⟨running, names, by rw [List.filterMap_append, htold.running, hrunning, List.append_nil], ?_⟩
        rw [if_pos hreads]
        refine ⟨again, hreports, ?_⟩
        rw [shows_iff, hreports, hc', shows_read hdmirrors hread, hd]
        · exact and_congr_right fun hagrees => again_follows hmirrors hagrees
        · intro name hname hlisted
          rw [List.filterMap_append, htold.services, hservices] at hlisted
          rw [hc']
          refine (selected_showNames _ again).trans (hselected name hname ?_)
          exact hlisted services (List.mem_singleton_self services)
    · rw [if_neg hreads] at hrest
      obtain ⟨rfl, hend⟩ := hrest
      obtain rfl := List.append_cancel_left (hend.trans hy)
      refine ⟨running, names, htold.running, ?_⟩
      rw [if_neg hreads]
      refine ⟨htold.names, fun hlabelled => ?_⟩
      rw [shows_iff, reading_quiet htold.read, htold.names, hd]
      · exact ⟨fun hstays => ⟨labelled_rest hmirrors hlabelled hstays, follows_rest hmirrors hstays⟩,
          fun hafter => stays_of_labelled hmirrors hlabelled hafter.1⟩
      · intro name hname hlisted
        rw [htold.services] at hlisted
        exact hselected name hname (hlisted services (List.mem_singleton_self services))

theorem openServiceLogs_decided {index : Int} (hmirrors : Mirrors c) (hw : Orderly w)
    (h : Runs (deskMachine shared ctx).recorded (c.openServiceLogs index) (w, past) c' (w', past ++ answers))
    (havailable : Available answers) : Decided (logs c) (logs c') past answers (.openServiceLogs index) := by
  have hrested : logs c' = logs c → answers.filterMap tailed = [] →
      Follows (opened (logs c) index) (reports answers) (logs c).displayed → Labelled (logs c) (reading past) →
      Shows (.openServiceLogs index) (logs c) (logs c') past answers := by
    intro hc' hquiet hfollows hlabelled
    refine ⟨?_, ?_, fun name hname _ => by rw [hc', hname]⟩
    · rw [hc', reading_quiet hquiet]
      exact hlabelled
    · rw [hc']
      exact hfollows
  rw [Decided]
  rcases openServiceLogs_recorded hw h with
    ⟨hc', ⟨hunknown, hadded⟩ | hadded | ⟨name, names, hopened, hmissing, hadded⟩⟩ |
    ⟨name, names, d, y, hopened, hlisted, hy, horderly, hd, hread⟩
  · obtain rfl : answers = [] := List.append_cancel_left (hadded.trans (List.append_nil past).symm)
    rw [hunknown] at hrested ⊢
    exact ⟨rfl, hrested hc' rfl nofun⟩
  · rw [List.append_cancel_left hadded] at havailable
    exact absurd havailable not_available_refused
  · obtain rfl := List.append_cancel_left hadded
    rw [hopened] at hrested ⊢
    refine ⟨names, ?_⟩
    rw [if_neg hmissing]
    refine ⟨rfl, hrested hc' rfl fun shown hshown hall => ?_⟩
    obtain rfl : name = shown := Option.some.inj hshown
    exact absurd (hall names (List.mem_singleton_self names)) hmissing
  · have hdmirrors : (logs d).shown = (logs d).names := by
      rw [hd]
      exact mirrors_showNames hmirrors names
    obtain ⟨added, rfl, _, _, hread⟩ := refreshLogs_added horderly hy hread
    rw [hopened]
    refine ⟨names, ?_⟩
    rw [if_pos hlisted]
    rcases hread with ⟨rfl, _⟩ | ⟨again, body, hagain, hc', hread⟩
    · exact absurd havailable.append.2 not_available_refused
    · have hreports : reports (asked names ++ added) = [names, again] := by
        rw [reports_append, hagain]
        rfl
      refine ⟨again, hreports, ?_⟩
      rw [shows_iff, hreports, hc', shows_read hdmirrors hread, hd, LogOp.own, hopened]
      · exact and_congr_right fun hagrees => select_follows hmirrors hlisted hagrees
      · intro shown hselected _
        rw [hc']
        refine (selected_showNames _ again).trans ?_
        rw [hd]
        exact (selected_showNames (logs c) names).trans hselected

end

end LocalDevProxy.LogView
