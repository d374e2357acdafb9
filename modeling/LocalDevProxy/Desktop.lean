import LocalDevProxy.ManagerCore

namespace LocalDevProxy.Desktop

open Lib.Interaction Text Os Config Routes Process ManagerCore

inductive ServiceView
  | services
  | edit
deriving DecidableEq

inductive Level
  | neutral
  | success
  | error
deriving DecidableEq

inductive ServiceAction
  | start
  | stop
  | restart
deriving DecidableEq

structure ServiceRow where
  name : String
  status : String
  pid : String
  restarts : String
  exitCode : String
  controllable : Bool
  running : Bool
deriving DecidableEq

structure RouteRow where
  header : Bool
  label : String
  note : String
  url : String
  host : String
  target : String
  muted : Bool
deriving DecidableEq

def servicesTab : Int := 0

def logsTab : Int := 1

def routesTab : Int := 2

structure Window where
  busy : Bool
  running : Bool
  currentTab : Int
  view : ServiceView
  banner : String
  bannerLevel : Level
  statusText : String
  statusLevel : Level
  services : List ServiceRow
  selectedService : Int
  editorText : String
  dirty : Bool
  logNames : List String
  logIndex : Int
  logLines : Int
  logFollow : Bool
  logText : String
  routes : List RouteRow
  routesBanner : String

structure ViewState where
  view : ServiceView
  modeBanner : String
  lastRunning : Option Bool
  selected : Option String
  services : List ServiceSnapshot
  logNames : List String
  loadedConfig : String

structure Controller where
  window : Window
  refreshTimer : Bool
  busy : Bool
  quitting : Bool
  trayVisible : Bool
  state : ViewState

def newWindow : Window :=
  ⟨false, false, servicesTab, .services, "", .neutral, "", .neutral, [], -1, "", false, [], 0, 200, false, "",
    [], ""⟩

def newController : Controller :=
  ⟨newWindow, false, false, false, false, ⟨.services, "", none, none, [], [], ""⟩⟩

abbrev JobOutcome := Except String String

/-- The operations that run on a worker thread. -/
inductive Work
  | start
  | apply
  | service (action : ServiceAction) (name : String)
deriving DecidableEq

def appliedText : Applied → String
  | .started => "saved & started ✓"
  | .restarted => "saved & restarted ✓"
  | .unchanged => "saved — no changes, nothing restarted"

def ServiceAction.pending : ServiceAction → String
  | .start => "starting"
  | .stop => "stopping"
  | .restart => "restarting"

def ServiceAction.done : ServiceAction → String
  | .start => "started"
  | .stop => "stopped"
  | .restart => "restarted"

def ServiceAction.run {G : Glob} (m : Manager G) (name : String) :
    ServiceAction → Io (Manager G × Except ManagerError Unit)
  | .start => m.startService name
  | .stop => m.stopService name
  | .restart => m.restartService name

def Work.run (ctx : Context) (m : Manager ctx.glob) : Work → Io (Manager ctx.glob × JobOutcome)
  | .start => do
      let (m, result) ← m.start ctx
      return (m, (result.map fun _ => "started ✓").mapError fun err => "start failed: " ++ err.display)
  | .apply => do
      let (m, result) ← m.apply ctx
      return (m, (result.map appliedText).mapError fun err => "apply failed: " ++ err.display)
  | .service action name => do
      let (m, result) ← action.run m name
      return (m, (result.map fun _ => name ++ " " ++ action.done ++ " ✓").mapError fun err =>
        "Error: " ++ err.display)

/-- What the window thread asks for: the lock of the manager, operations of the
manager while it holds the lock, a worker thread, the wait for the outcome of the
worker, and that outcome. -/
inductive DeskCall
  | tryLock
  | unlock
  | isRunning
  | services
  | logNames
  | hasConfig
  | routes
  | readConfig
  | validateConfig (text : String)
  | saveConfig (text : String)
  | tailLog (name : String) (lines : Nat)
  | spawnThread (work : Work)
  | spawnLocal
  | received

@[reducible]
def DeskAns : DeskCall → Type
  | .tryLock | .isRunning | .hasConfig | .spawnLocal => Bool
  | .unlock => Unit
  | .services => List ServiceSnapshot
  | .logNames => List String
  | .routes => Except ConfigError (List RouteGroup)
  | .readConfig => Except IoError (Option String)
  | .validateConfig _ => Except ConfigError Manifest
  | .saveConfig _ => Except ManagerError Unit
  | .tailLog _ _ => Except ManagerError String
  | .spawnThread _ => Except IoError Unit
  | .received => Option (Option JobOutcome)

abbrev deskSys : Signature := ⟨DeskCall, DeskAns⟩

abbrev Desk (α : Type) : Type := Prog deskSys α

def ask (c : DeskCall) : Desk (DeskAns c) := Prog.perform (S := deskSys) c

def withManager {α : Type} (action : Desk α) : Desk (Option α) := do
  if ← ask .tryLock then
    let a ← action
    ask .unlock
    return some a
  else return none

def toUsize (index : Int) : Option Nat := if 0 ≤ index then some index.toNat else none

def toIndex (index : Option Nat) : Int :=
  match index with
  | some index => if index ≤ 2147483647 then index else -1
  | none => -1

def orDash (value : Option String) : String := value.getD "-"

def serviceRow (service : ServiceSnapshot) : ServiceRow where
  name := service.name
  status := service.status.asStr
  pid := orDash (service.pid.map decimal)
  restarts := decimal service.restartCount.toNat
  exitCode := orDash (service.exitCode.map toString)
  controllable := service.status.isControllable
  running := service.status = .running

def headerRow (group : RouteGroup) : RouteRow :=
  ⟨true, group.service, group.kind.note, "", "", "", group.kind = .disabled⟩

def entryRow (entry : RouteEntry) : RouteRow :=
  ⟨false, entry.routeId, "", entry.url.getD "", entry.host, entry.target, entry.url.isNone⟩

def routeRows (groups : List RouteGroup) : List RouteRow :=
  groups.flatMap fun group => headerRow group :: group.entries.map entryRow

namespace Window

def inServiceList (w : Window) : Bool := w.currentTab = servicesTab && w.view = .services

def editing (w : Window) : Bool := w.currentTab = servicesTab && w.view = .edit

def selection (w : Window) : Option ServiceRow :=
  (toUsize w.selectedService).bind fun index => w.services[index]?

def canControl (w : Window) : Bool := w.selection.any ServiceRow.controllable && !w.busy

def selectionRunning (w : Window) : Bool := w.selection.any ServiceRow.running

def offers (w : Window) : ServiceAction → Bool
  | .start => w.inServiceList && w.canControl && !w.selectionRunning
  | .stop | .restart => w.inServiceList && w.canControl && w.selectionRunning

end Window

namespace Controller

def setStatus (c : Controller) (text : String) (level : Level) : Controller :=
  { c with window.statusText := text, window.statusLevel := level }

def setBanner (c : Controller) (text : String) (level : Level) : Controller :=
  { c with window.banner := text, window.bannerLevel := level }

def restoreModeBanner (c : Controller) : Controller := c.setBanner c.state.modeBanner .neutral

/-- What is read from disk becomes the text of the editor, with nothing unsaved. -/
def showConfig (c : Controller) (text : String) : Controller :=
  { c with window.editorText := text, window.dirty := false, state.loadedConfig := text }

def loadConfig (c : Controller) : Desk (Controller × Bool) := do
  match ← withManager (ask .readConfig) with
  | none => return (c, false)
  | some (.ok (some text)) => return (c.showConfig text, true)
  | some (.ok none) => return ((c.setStatus "new configuration" .neutral).showConfig "", false)
  | some (.error err) => return ((c.setStatus ("read error: " ++ err.message) .error).showConfig "", false)

def editBanner (loaded running : Bool) : String :=
  if !loaded then
    "No services.toml exists yet. Enter a configuration, then Start All to create it."
  else if running then
    "Editing configuration — services keep running. Apply validates and saves it, and restarts " ++
      "everything only if the configuration changed."
  else "Editing configuration — Start All validates, saves, and launches it."

def present (c : Controller) (view : ServiceView) (banner : String) : Controller :=
  { c with state.view := view, state.modeBanner := banner, window.view := view }.restoreModeBanner

def setView (c : Controller) : ServiceView → Desk Controller
  | .services => return c.present .services ""
  | .edit => do
      let (c, loaded) ← loadConfig { c with window.currentTab := servicesTab }
      return c.present .edit (editBanner loaded c.window.running)

def syncRunState (c : Controller) (running : Bool) : Desk Controller :=
  if c.state.lastRunning = some running then return c
  else setView { c with state.lastRunning := some running, window.running := running }
    (if running then .services else .edit)

def showServices (c : Controller) (services : List ServiceSnapshot) : Controller :=
  let rows := if c.state.services = services then c.window.services else services.map serviceRow
  let index := c.state.selected.bind fun name => services.findIdx? fun service => service.name = name
  { c with
    window.services := rows
    window.selectedService := toIndex index
    state.services := services
    state.selected := if index.isNone then none else c.state.selected }

def showLogNames (c : Controller) (names : List String) : Controller :=
  if c.state.logNames = names then c
  else
    let current := ((toUsize c.window.logIndex).bind fun index => c.state.logNames[index]?).bind fun name =>
      names.findIdx? fun candidate => candidate = name
    { c with
      window.logNames := names
      window.logIndex := toIndex (current.or (some 0))
      state.logNames := names }

def logView (index : Int) (lines : Nat) : Desk (List String × String) := do
  let names ← ask .logNames
  match ((toUsize index).bind fun index => names[index]?).or names.head? with
  | none => return (names, "")
  | some name =>
      match ← ask (.tailLog name lines) with
      | .ok body => return (names, body)
      | .error err => return (names, "[error] " ++ err.display)

def refreshLogs (c : Controller) : Desk Controller := do
  match ← withManager (logView c.window.logIndex ((toUsize c.window.logLines).getD 0)) with
  | none => return c
  | some (names, body) =>
      let c := c.showLogNames names
      return if c.window.logText = body then c else { c with window.logText := body }

def snapshot : Desk (Bool × List ServiceSnapshot × List String) := do
  let running ← ask .isRunning
  let services ← ask .services
  let names ← ask .logNames
  return (running, services, names)

def refresh (c : Controller) : Desk Controller := do
  match ← withManager snapshot with
  | none => return c
  | some (running, services, names) => do
      let c ← c.syncRunState running
      let c := (c.showServices services).showLogNames names
      if running && c.window.logFollow then c.refreshLogs else return c

def reloadRoutes (c : Controller) : Desk Controller := do
  match ← withManager (ask .routes) with
  | none => return c
  | some (.ok groups) => return { c with window.routesBanner := "", window.routes := routeRows groups }
  | some (.error err) => return { c with window.routesBanner := "Error: " ++ err.message, window.routes := [] }

def finishJob (c : Controller) (outcome : JobOutcome) : Desk Controller := do
  let c := { c with busy := false, window.busy := false }
  let c ← reloadRoutes (match outcome with
    | .ok message => c.setStatus message .success
    | .error message => c.setStatus message .error)
  c.refresh

/-- A worker that cannot be waited for leaves the controls disabled. -/
def job (c : Controller) (pending : String) (work : Work) : Desk Controller :=
  if c.quitting || c.busy then return c
  else do
    let c := { c with busy := true, window.busy := true }.setStatus pending .neutral
    match ← ask (.spawnThread work) with
    | .error err => c.finishJob (.error ("could not start a worker thread: " ++ err.message))
    | .ok _ => do
        let _ ← ask .spawnLocal
        return c

def selectService (c : Controller) (index : Int) : Controller :=
  let name := ((toUsize index).bind fun index => c.state.services[index]?).map ServiceSnapshot.name
  { c with state.selected := name, window.selectedService := if name.isSome then index else -1 }

def serviceAction (c : Controller) (action : ServiceAction) : Desk Controller :=
  match c.state.selected with
  | none => return c.setBanner "Select a service first." .error
  | some name => c.restoreModeBanner.job (action.pending ++ " " ++ name ++ "…") (.service action name)

def validate (c : Controller) : Desk (Controller × Bool) := do
  match ← withManager (ask (.validateConfig c.window.editorText)) with
  | none => return (c, false)
  | some (.ok _) => return ((c.setStatus "valid ✓" .success).restoreModeBanner, true)
  | some (.error err) => return ((c.setStatus "invalid" .error).setBanner err.message .error, false)

def persist (c : Controller) : Desk (Controller × Bool) := do
  let text := c.window.editorText
  match ← withManager (ask (.saveConfig text)) with
  | none => return (c, false)
  | some (.ok _) => return ({ c with state.loadedConfig := text, window.dirty := false }.restoreModeBanner, true)
  | some (.error (.config err)) => return ((c.setStatus "invalid" .error).setBanner err.message .error, false)
  | some (.error err) => return (c.setStatus err.display .error, false)

def apply (c : Controller) : Desk Controller := do
  let (c, written) ← c.persist
  if written then
    let c ← (if c.window.running then c.setView .services else pure c)
    c.job "applying…" .apply
  else return c

def cancelEdit (c : Controller) : Desk Controller := do
  let (c, _) ← loadConfig (if c.window.dirty then c.setStatus "edits discarded" .neutral else c)
  c.setView .services

def openServiceLogs (c : Controller) (index : Int) : Desk Controller :=
  match ((toUsize index).bind fun index => c.state.services[index]?).map ServiceSnapshot.name with
  | none => return c
  | some name => do
      match ← withManager (ask .logNames) with
      | none => return c
      | some names =>
          match names.findIdx? fun log => log = name with
          | none => return c
          | some position =>
              let c := c.showLogNames names
              refreshLogs { c with window.logIndex := toIndex (some position), window.currentTab := logsTab }

def quit (c : Controller) : Controller :=
  if c.quitting then c else { c with quitting := true, refreshTimer := false }

/-- Whether the tray icon could be shown is given. -/
def launch (c : Controller) (tray : Bool) : Desk Controller := do
  let c := { c with trayVisible := tray, refreshTimer := true }
  if (← withManager (ask .hasConfig)).getD false then
    job { c with window.view := .services } "starting…" .start
  else do
    let c ← c.reloadRoutes
    c.refresh

end Controller

/-- What the window reacts to: the user's actions, the timer, the end of the wait
for a worker, and a changed tab, which is noticed at some time after the change. -/
inductive Event
  | editorEdited (text : String)
  | editConfig
  | cancelEdit
  | apply
  | validate
  | serviceAction (action : ServiceAction)
  | serviceSelected (index : Int)
  | openServiceLogs (index : Int)
  | tabSelected (tab : Int)
  | tabChanged
  | logSelected (index : Int)
  | logLinesEdited (lines : Int)
  | followToggled (checked : Bool)
  | refreshLogs
  | reloadRoutes
  | refresh
  | jobReceived
  | closeRequested
  | quit
deriving DecidableEq

/-- An action of the user that its control does not allow at the moment has no effect. -/
def guarded (allowed : Bool) (c : Controller) (action : Desk Controller) : Desk Controller :=
  if allowed then action else return c

def showing (c : Controller) (tab : Int) : Bool := c.window.currentTab = tab && c.window.running

def react (c : Controller) : Event → Desk Controller
  | .editorEdited text => guarded (c.window.editing && !c.window.busy) c
      (return { c with window.editorText := text, window.dirty := text ≠ c.state.loadedConfig })
  | .editConfig => guarded (c.window.inServiceList && !c.window.busy) c (c.setView .edit)
  | .cancelEdit => guarded (c.window.editing && !c.window.busy) c c.cancelEdit
  | .apply => guarded (c.window.editing && !c.window.busy) c c.apply
  | .validate => guarded (c.window.editing && !c.window.busy) c do
      let (c, _) ← c.validate
      return c
  | .serviceAction action => guarded (c.window.offers action) c (c.serviceAction action)
  | .serviceSelected index => guarded c.window.inServiceList c (return c.selectService index)
  | .openServiceLogs index => guarded c.window.inServiceList c (c.openServiceLogs index)
  | .tabSelected tab => return { c with window.currentTab := tab }
  | .tabChanged =>
      if c.window.currentTab = logsTab then c.refreshLogs
      else if c.window.currentTab = routesTab then c.reloadRoutes
      else return c
  | .logSelected index =>
      guarded (showing c logsTab) c (Controller.refreshLogs { c with window.logIndex := index })
  | .logLinesEdited lines =>
      guarded (showing c logsTab) c (Controller.refreshLogs { c with window.logLines := lines })
  | .followToggled checked =>
      let toggled := { c with window.logFollow := checked }
      guarded (showing c logsTab) c (if checked then toggled.refreshLogs else return toggled)
  | .refreshLogs => guarded (showing c logsTab) c c.refreshLogs
  | .reloadRoutes => guarded (showing c routesTab) c c.reloadRoutes
  | .refresh => guarded c.refreshTimer c c.refresh
  | .jobReceived => do
      match ← ask .received with
      | none => return c
      | some outcome => c.finishJob (outcome.getD (.error "the operation failed unexpectedly"))
  | .closeRequested => return if c.trayVisible then c else c.quit
  | .quit => return c.quit

inductive Owner
  | free
  | window
  | worker
deriving DecidableEq

/-- A worker thread waits for the manager, works while it holds it, and has then
released it and sent its outcome, or has panicked and sent none. -/
inductive Phase
  | waiting (work : Work)
  | holding (work : Work)
  | finished (outcome : Option JobOutcome)

structure Job where
  phase : Phase
  awaited : Bool

/-- The worker whose outcome has not been received, and, for statements only, the
texts that have been saved, oldest first. -/
structure DeskWorld (ctx : Context) where
  system : World
  manager : Manager ctx.glob
  owner : Owner
  job : Option Job
  saved : List String

section

variable (shared : Bool) (ctx : Context)

/-- A program of the manager that leaves the manager itself as it is. -/
def Consults {α : Type} (p : Io α) (w : DeskWorld ctx) (a : α) (w' : DeskWorld ctx) : Prop :=
  ∃ s, Runs (machine shared) p w.system a s ∧ w' = { w with system := s }

/-- How calls are answered. What is read of a log file is left open, and so is what
a second worker thread beside one not yet heard of would do. -/
def deskAnswers : (c : DeskCall) → DeskWorld ctx → DeskAns c → DeskWorld ctx → Prop
  | .tryLock, w, true, w' => w.owner = .free ∧ w' = { w with owner := .window }
  | .tryLock, w, false, w' => w.owner ≠ .free ∧ w' = w
  | .unlock, w, _, w' => w' = { w with owner := .free }
  | .isRunning, w, b, w' => b = w.manager.isRunning ∧ w' = w
  | .services, w, b, w' => b = w.manager.snapshots ∧ w' = w
  | .logNames, w, b, w' => b = w.manager.logNames ∧ w' = w
  | .hasConfig, w, b, w' => Consults shared ctx w.manager.hasConfig w b w'
  | .routes, w, b, w' => Consults shared ctx (w.manager.routes ctx) w b w'
  | .readConfig, w, b, w' => Consults shared ctx w.manager.readConfig w b w'
  | .validateConfig text, w, b, w' => b = w.manager.validateConfig ctx text ∧ w' = w
  | .saveConfig text, w, .ok _, w' =>
      ∃ s, Runs (machine shared) (w.manager.saveConfig ctx text) w.system (.ok ()) s ∧
        w' = { w with system := s, saved := w.saved ++ [text] }
  | .saveConfig text, w, .error err, w' =>
      Consults shared ctx (w.manager.saveConfig ctx text) w (.error err) w'
  | .tailLog name lines, w, b, w' => (∃ file, b = w.manager.tailLog file name lines) ∧ w' = w
  | .spawnThread work, w, .ok _, w' => w.job = none → w' = { w with job := some ⟨.waiting work, false⟩ }
  | .spawnThread _, w, .error _, w' => w' = w
  | .spawnLocal, w, true, w' => w' = { w with job := w.job.map fun job => { job with awaited := true } }
  | .spawnLocal, w, false, w' => w' = w
  | .received, w, some outcome, w' => w.job = some ⟨.finished outcome, true⟩ ∧ w' = { w with job := none }
  | .received, w, none, w' => w' = w

/-- What goes on beside the window thread: the system moves, the crash monitor
polls the services, and the worker takes the manager, works, and releases it. What
a worker that panics leaves behind is left open. -/
inductive Moves : DeskWorld ctx → DeskWorld ctx → Prop
  | system {w : DeskWorld ctx} {s : World} :
      (machine shared).drift w.system s → Moves w { w with system := s }
  | polls {w : DeskWorld ctx} {services services' : ServiceManager} {s : World} :
      w.manager.services = some services → Runs (machine shared) services.pollExits w.system services' s →
      Moves w { w with system := s, manager := { w.manager with services := some services' } }
  | takes {w : DeskWorld ctx} {work : Work} {awaited : Bool} :
      w.owner = .free → w.job = some ⟨.waiting work, awaited⟩ →
      Moves w { w with owner := .worker, job := some ⟨.holding work, awaited⟩ }
  | works {w : DeskWorld ctx} {work : Work} {awaited : Bool} {m : Manager ctx.glob} {outcome : JobOutcome}
      {s : World} :
      w.job = some ⟨.holding work, awaited⟩ →
      Runs (machine shared) (work.run ctx w.manager) w.system (m, outcome) s →
      Moves w { w with
        system := s, manager := m, owner := .free, job := some ⟨.finished (some outcome), awaited⟩ }
  | panics {w : DeskWorld ctx} {work : Work} {awaited : Bool} (m : Manager ctx.glob) (s : World) :
      w.job = some ⟨.holding work, awaited⟩ →
      Moves w { w with system := s, manager := m, owner := .free, job := some ⟨.finished none, awaited⟩ }

def deskMachine : Machine deskSys (DeskWorld ctx) where
  answers := deskAnswers shared ctx
  drift := Relation.ReflTransGen (Moves shared ctx)
  drift_refl := fun _ => .refl
  drift_trans := fun h h' => h.trans h'

end

def openedWorld (ctx : Context) (paths : Paths.ProjectPaths) (system : World) : DeskWorld ctx :=
  ⟨system, .new ctx.glob paths, .free, none, []⟩

def handle (event : Event) (c : Controller) : Desk (Controller × Unit) := do
  let c ← react c event
  return (c, ())

def Reached (shared : Bool) (ctx : Context) (paths : Paths.ProjectPaths) (c : Controller)
    (w : DeskWorld ctx) : Prop :=
  ∃ tray system c₁ w₁ trace,
    Runs (deskMachine shared ctx) (newController.launch tray) (openedWorld ctx paths system) c₁ w₁ ∧
      Session (deskMachine shared ctx) handle c₁ w₁ trace c w

end LocalDevProxy.Desktop
