import LocalDevProxy.DesktopExit

namespace LocalDevProxy.Selection

open Lib.Interaction Os Process ManagerCore Desktop DesktopExit
open UnsavedEdits (reached_settled)

/-- What of the controller the list of services depends on. -/
structure Picks where
  rows : List ServiceRow
  index : Int
  services : List ServiceSnapshot
  selected : Option String

def picks (c : Controller) : Picks :=
  ⟨c.window.services, c.window.selectedService, c.state.services, c.state.selected⟩

/-- Nothing but a new list of services or a choice of the user can end it. -/
structure Lasting (I : Controller → Prop) : Prop where
  keep : ∀ {c c' : Controller}, I c → picks c' = picks c → I c'
  showServices : ∀ {c : Controller} (services : List ServiceSnapshot), I c → I (c.showServices services)
  selectService : ∀ {c : Controller} (index : Int), I c → I (c.selectService index)

section

variable {I : Controller → Prop} (hI : Lasting I) {c : Controller}

theorem guarded_lasting {allowed : Bool} {action : Desk Controller} (h : I c) (haction : action.Yields I) :
    (guarded allowed c action).Yields I := by
  unfold guarded
  split
  · exact haction
  · exact h

include hI

theorem loadConfig_lasting (h : I c) : c.loadConfig.Yields fun r => I r.1 := by
  refine Prog.yields_then _ fun r => ?_
  rcases r with _ | (err | (_ | text))
  · exact h
  · exact hI.keep h rfl
  · exact hI.keep h rfl
  · exact hI.keep h rfl

theorem setView_lasting (h : I c) (view : ServiceView) : (c.setView view).Yields I := by
  cases view with
  | services => exact hI.keep h rfl
  | edit =>
      have htab : I { c with window.currentTab := servicesTab } := hI.keep h rfl
      exact Prog.yields_bind (loadConfig_lasting hI htab) fun _ hloaded => hI.keep hloaded rfl

theorem syncRunState_lasting (h : I c) (running : Bool) : (c.syncRunState running).Yields I := by
  unfold Controller.syncRunState
  split
  · exact h
  · refine setView_lasting hI ?_ _
    exact hI.keep h rfl

theorem reloadRoutes_lasting (h : I c) : c.reloadRoutes.Yields I := by
  refine Prog.yields_then _ fun r => ?_
  rcases r with _ | (err | groups)
  · exact h
  · exact hI.keep h rfl
  · exact hI.keep h rfl

theorem showLogNames_lasting (h : I c) (names : List String) : I (c.showLogNames names) := by
  refine hI.keep h ?_
  unfold Controller.showLogNames
  split
  · rfl
  · rfl

theorem refreshLogs_lasting (h : I c) : c.refreshLogs.Yields I := by
  refine Prog.yields_then _ fun r => ?_
  rcases r with _ | ⟨names, body⟩
  · exact h
  · have hshown := showLogNames_lasting hI h names
    dsimp only
    split
    · exact hshown
    · exact hI.keep hshown rfl

theorem refresh_lasting (h : I c) : c.refresh.Yields I := by
  refine Prog.yields_then _ fun r => ?_
  rcases r with _ | ⟨running, services, names⟩
  · exact h
  · refine Prog.yields_bind (syncRunState_lasting hI h running) fun d hd => ?_
    have hshown := showLogNames_lasting hI (hI.showServices services hd) names
    dsimp only
    split
    · exact refreshLogs_lasting hI hshown
    · exact hshown

theorem finishJob_lasting (h : I c) (outcome : JobOutcome) : (c.finishJob outcome).Yields I := by
  refine Prog.yields_bind (reloadRoutes_lasting hI ?_) fun d hd => refresh_lasting hI hd
  cases outcome with
  | ok message => exact hI.keep h rfl
  | error message => exact hI.keep h rfl

theorem job_lasting (h : I c) (pending : String) (work : Work) : (c.job pending work).Yields I := by
  unfold Controller.job
  split
  · exact h
  · refine Prog.yields_then _ fun spawned => ?_
    cases spawned with
    | error err =>
        refine finishJob_lasting hI ?_ _
        exact hI.keep h rfl
    | ok _ => exact Prog.yields_then _ fun _ => hI.keep h rfl

theorem openServiceLogs_lasting (h : I c) (index : Int) : (c.openServiceLogs index).Yields I := by
  unfold Controller.openServiceLogs
  split
  · exact h
  · refine Prog.yields_then _ fun r => ?_
    rcases r with _ | names
    · exact h
    · dsimp only
      split
      · exact h
      · refine refreshLogs_lasting hI ?_
        exact hI.keep (showLogNames_lasting hI h names) rfl

theorem serviceAction_lasting (h : I c) (action : ServiceAction) : (c.serviceAction action).Yields I := by
  unfold Controller.serviceAction
  split
  · exact hI.keep h rfl
  · refine job_lasting hI ?_ _ _
    exact hI.keep h rfl

theorem validate_lasting (h : I c) : c.validate.Yields fun r => I r.1 := by
  refine Prog.yields_then _ fun r => ?_
  rcases r with _ | (err | manifest)
  · exact h
  · exact hI.keep h rfl
  · exact hI.keep h rfl

theorem persist_lasting (h : I c) : c.persist.Yields fun r => I r.1 := by
  refine Prog.yields_then _ fun r => ?_
  rcases r with _ | (err | _)
  · exact h
  · cases err <;> exact hI.keep h rfl
  · exact hI.keep h rfl

theorem apply_lasting (h : I c) : c.apply.Yields I := by
  refine Prog.yields_bind (persist_lasting hI h) fun ⟨d, written⟩ hd => ?_
  cases written with
  | false => exact hd
  | true =>
      have hview : (if d.window.running then d.setView .services else pure d : Desk Controller).Yields I := by
        split
        · exact setView_lasting hI hd .services
        · exact hd
      exact Prog.yields_bind hview fun e he => job_lasting hI he _ _

theorem cancelEdit_lasting (h : I c) : c.cancelEdit.Yields I := by
  refine Prog.yields_bind (loadConfig_lasting hI ?_) fun r hr => setView_lasting hI hr .services
  split
  · exact hI.keep h rfl
  · exact h

theorem quit_lasting (h : I c) : I c.quit := by
  refine hI.keep h ?_
  unfold Controller.quit
  split
  · rfl
  · rfl

theorem react_lasting (h : I c) (event : Desktop.Event) : (react c event).Yields I := by
  cases event with
  | editorEdited text => exact guarded_lasting h (hI.keep h rfl)
  | editConfig => exact guarded_lasting h (setView_lasting hI h .edit)
  | cancelEdit => exact guarded_lasting h (cancelEdit_lasting hI h)
  | apply => exact guarded_lasting h (apply_lasting hI h)
  | validate => exact guarded_lasting h (Prog.yields_bind (validate_lasting hI h) fun _ hd => hd)
  | serviceAction action => exact guarded_lasting h (serviceAction_lasting hI h action)
  | serviceSelected index => exact guarded_lasting h (hI.selectService index h)
  | openServiceLogs index => exact guarded_lasting h (openServiceLogs_lasting hI h index)
  | tabSelected tab => exact hI.keep h rfl
  | tabChanged =>
      simp only [react]
      split
      · exact refreshLogs_lasting hI h
      · split
        · exact reloadRoutes_lasting hI h
        · exact h
  | logSelected index =>
      refine guarded_lasting h (refreshLogs_lasting hI ?_)
      exact hI.keep h rfl
  | logLinesEdited lines =>
      refine guarded_lasting h (refreshLogs_lasting hI ?_)
      exact hI.keep h rfl
  | followToggled checked =>
      refine guarded_lasting h ?_
      split
      · refine refreshLogs_lasting hI ?_
        exact hI.keep h rfl
      · exact hI.keep h rfl
  | refreshLogs => exact guarded_lasting h (refreshLogs_lasting hI h)
  | reloadRoutes => exact guarded_lasting h (reloadRoutes_lasting hI h)
  | refresh => exact guarded_lasting h (refresh_lasting hI h)
  | jobReceived =>
      refine Prog.yields_then _ fun outcome => ?_
      cases outcome with
      | none => exact h
      | some outcome => exact finishJob_lasting hI h _
  | closeRequested =>
      simp only [react]
      split
      · exact h
      · exact quit_lasting hI h
  | quit => exact quit_lasting hI h

theorem launch_lasting (h : I newController) (tray : Bool) : (newController.launch tray).Yields I := by
  refine Prog.yields_then _ fun stored => ?_
  split
  · refine job_lasting hI ?_ _ _
    exact hI.keep h rfl
  · refine Prog.yields_bind (reloadRoutes_lasting hI ?_) fun d hd => refresh_lasting hI hd
    exact hI.keep h rfl

theorem reached_lasting {shared : Bool} {ctx : Context} {paths : Paths.ProjectPaths} {w : DeskWorld ctx}
    (hstart : I newController) (h : Reached shared ctx paths c w) : I c := by
  obtain ⟨tray, system, c₁, w₁, trace, hlaunch, hsession⟩ := h
  refine hsession.invariant (fun _ c _ => I c) (fun _ _ => ?_) fun _ d _ event d' _ _ hd hrun => ?_
  · exact hlaunch.yields (launch_lasting hI hstart tray)
  · obtain ⟨e, _, hreact, hrun⟩ := runs_bind.mp hrun
    obtain ⟨heq, _⟩ := runs_pure.mp hrun
    cases heq
    exact hreact.yields (react_lasting hI hd event)

end

/-- The rows are those of the services, and the highlighted one is that of the service
whose name is remembered. -/
structure Synced (c : Controller) : Prop where
  rows : c.window.services = c.state.services.map serviceRow
  highlighted : ∀ row, c.window.selection = some row → c.state.selected = some row.name
  listed : ∀ name, c.state.selected = some name → ∃ service ∈ c.state.services, service.name = name

variable {c : Controller}

theorem toUsize_toIndex {index : Option Nat} {i : Nat} (h : toUsize (toIndex index) = some i) : index = some i := by
  cases index with
  | none => cases h
  | some n =>
      rw [toIndex] at h
      split at h
      · rw [toUsize, if_pos (Int.natCast_nonneg n), Int.toNat_natCast] at h
        exact h
      · cases h

theorem showServices_rows (h : Synced c) (services : List ServiceSnapshot) :
    (c.showServices services).window.services = services.map serviceRow := by
  change (if c.state.services = services then c.window.services else services.map serviceRow) = _
  split
  · rename_i hsame
    rw [h.rows, hsame]
  · rfl

theorem name_of_findIdx {services : List ServiceSnapshot} {name : String} {i : Nat}
    (h : services.findIdx? (fun service => service.name = name) = some i) :
    ∃ service, services[i]? = some service ∧ service.name = name := by
  obtain ⟨hlt, hname, _⟩ := List.findIdx?_eq_some_iff_getElem.mp h
  exact ⟨services[i], List.getElem?_eq_getElem hlt, of_decide_eq_true hname⟩

/-- What stays remembered with a new list of services is the name of one of them. -/
theorem showServices_selected {services : List ServiceSnapshot} {name : String}
    (h : (c.showServices services).state.selected = some name) :
    c.state.selected = some name ∧ ∃ service ∈ services, service.name = name := by
  let index := c.state.selected.bind fun name => services.findIdx? fun service => service.name = name
  have hselected : (if index.isNone then none else c.state.selected) = some name := h
  cases hindex : index with
  | none =>
      rw [hindex] at hselected
      cases hselected
  | some i =>
      rw [hindex] at hselected
      have hsame : c.state.selected = some name := hselected
      obtain ⟨name', hname', hfound⟩ := Option.bind_eq_some_iff.mp hindex
      rw [hsame] at hname'
      cases hname'
      obtain ⟨service, hservice, hname⟩ := name_of_findIdx hfound
      exact ⟨hsame, service, List.mem_of_getElem? hservice, hname⟩

/-- The row that a list of services highlights is that of the first with the remembered name. -/
theorem showServices_synced (h : Synced c) (services : List ServiceSnapshot) : Synced (c.showServices services) := by
  have hrows := showServices_rows h services
  refine ⟨hrows, fun row hrow => ?_, fun name hname => (showServices_selected hname).2⟩
  obtain ⟨i, hi, hrow⟩ := Option.bind_eq_some_iff.mp hrow
  have hindex := toUsize_toIndex hi
  rw [hrows, List.getElem?_map] at hrow
  obtain ⟨service, hservice, rfl⟩ := Option.map_eq_some_iff.mp hrow
  obtain ⟨name, hname, hfound⟩ := Option.bind_eq_some_iff.mp hindex
  obtain ⟨service', hservice', hname'⟩ := name_of_findIdx hfound
  rw [hservice] at hservice'
  cases hservice'
  have hselected : (c.showServices services).state.selected =
      if (c.state.selected.bind fun name => services.findIdx? fun service => service.name = name).isNone then none
      else c.state.selected := rfl
  rw [hselected, hindex]
  exact hname.trans (congrArg some hname'.symm)

theorem selectService_synced (h : Synced c) (index : Int) : Synced (c.selectService index) := by
  let found := (toUsize index).bind fun index => c.state.services[index]?
  refine ⟨h.rows, fun row hrow => ?_, fun name hname => ?_⟩
  · have hselection : ((toUsize (if (found.map ServiceSnapshot.name).isSome then index else -1)).bind
        fun index => c.window.services[index]?) = some row := hrow
    change found.map ServiceSnapshot.name = some row.name
    cases hfound : found with
    | none =>
        rw [hfound] at hselection
        cases hselection
    | some service =>
        rw [hfound] at hselection
        obtain ⟨i, hi, hservice⟩ := Option.bind_eq_some_iff.mp hfound
        obtain ⟨i', hi', hrow'⟩ := Option.bind_eq_some_iff.mp hselection
        have hsame : toUsize index = some i' := hi'
        rw [hi] at hsame
        cases hsame
        rw [h.rows, List.getElem?_map, hservice] at hrow'
        cases hrow'
        rfl
  · obtain ⟨service, hservice, rfl⟩ := Option.map_eq_some_iff.mp hname
    obtain ⟨i, _, hget⟩ := Option.bind_eq_some_iff.mp hservice
    exact ⟨service, List.mem_of_getElem? hget, rfl⟩

theorem synced_lasting : Lasting Synced where
  keep := fun {c c'} h hpicks => by
    have hrows : c'.window.services = c.window.services := congrArg Picks.rows hpicks
    have hindex : c'.window.selectedService = c.window.selectedService := congrArg Picks.index hpicks
    have hservices : c'.state.services = c.state.services := congrArg Picks.services hpicks
    have hselected : c'.state.selected = c.state.selected := congrArg Picks.selected hpicks
    refine ⟨by rw [hrows, hservices, h.rows], fun row hrow => ?_, fun name hname => ?_⟩
    · rw [hselected]
      refine h.highlighted row ?_
      rw [← hrow, Window.selection, Window.selection, hindex, hrows]
    · rw [hselected] at hname
      rw [hservices]
      exact h.listed name hname
  showServices := fun services h => showServices_synced h services
  selectService := fun index h => selectService_synced h index

def StartsOnly (work : Work) : DeskCall → Prop
  | .spawnThread other => other = work
  | _ => True

theorem startsOnly_of_not_spawn {work : Work} (call : DeskCall) (h : ¬ IsSpawn call) : StartsOnly work call := by
  cases call with
  | spawnThread other => exact absurd trivial h
  | _ => trivial

theorem job_startsOnly (pending : String) (work : Work) : (c.job pending work).Only (StartsOnly work) := by
  unfold Controller.job
  split
  · exact Prog.only_pure _ _
  · refine Prog.only_bind (Prog.only_perform rfl) fun spawned => ?_
    cases spawned with
    | error err => exact (finishJob_spawnless _ _).mono startsOnly_of_not_spawn
    | ok _ => exact Prog.only_bind (Prog.only_perform trivial) fun _ => Prog.only_pure _ _

/-- A free controller begins a job by starting its thread. -/
theorem job_starts (hbusy : c.busy = false) (hquitting : c.quitting = false) (pending : String) (work : Work) :
    ∃ next, c.job pending work = .call (.spawnThread work) next := by
  unfold Controller.job
  rw [hbusy, hquitting]
  exact ⟨_, rfl⟩

theorem newController_synced : Synced newController := ⟨rfl, nofun, nofun⟩

theorem offers_cases {w : Window} {action : ServiceAction} (h : w.offers action = true) :
    w.canControl = true ∧ (w.selectionRunning = true ↔ action ≠ .start) := by
  cases action with
  | start =>
      obtain ⟨hleft, hidle⟩ := Bool.and_eq_true_iff.mp h
      refine ⟨(Bool.and_eq_true_iff.mp hleft).2, iff_of_false (fun hrunning => ?_) (fun hne => hne rfl)⟩
      rw [hrunning] at hidle
      cases hidle
  | stop =>
      obtain ⟨hleft, hrunning⟩ := Bool.and_eq_true_iff.mp h
      exact ⟨(Bool.and_eq_true_iff.mp hleft).2, iff_of_true hrunning nofun⟩
  | restart =>
      obtain ⟨hleft, hrunning⟩ := Bool.and_eq_true_iff.mp h
      exact ⟨(Bool.and_eq_true_iff.mp hleft).2, iff_of_true hrunning nofun⟩

/-- What a button that can be pressed says of the highlighted row. -/
theorem offers_service (h : Synced c) {action : ServiceAction} (hoffers : c.window.offers action = true) :
    ∃ service ∈ c.state.services, c.window.selection = some (serviceRow service) ∧
      service.status.isControllable = true ∧ c.window.busy = false ∧ (service.status = .running ↔ action ≠ .start) := by
  obtain ⟨hcontrol, hrunning⟩ := offers_cases hoffers
  obtain ⟨hany, hidle⟩ := Bool.and_eq_true_iff.mp hcontrol
  obtain ⟨row, hrow, hcontrollable⟩ := (Option.any_eq_true ..).mp hany
  obtain ⟨i, _, hget⟩ := Option.bind_eq_some_iff.mp hrow
  rw [h.rows, List.getElem?_map] at hget
  obtain ⟨service, hservice, rfl⟩ := Option.map_eq_some_iff.mp hget
  refine ⟨service, List.mem_of_getElem? hservice, hrow, hcontrollable, ?_, ?_⟩
  · exact (Bool.not_eq_true' _).mp hidle
  · rw [← hrunning, Window.selectionRunning, hrow]
    exact (decide_eq_true_iff ..).symm

/-- A service button works on the service that is highlighted, and only a button that fits the
status shown can be pressed: in every state of the window, the row is that of a listed service
that can be controlled, a start is offered just for one that does not run, and the press starts
a thread for the action on that service and none for anything else. -/
theorem action_on_highlighted (shared : Bool) (ctx : Context) (paths : Paths.ProjectPaths) (c : Controller)
    (w : DeskWorld ctx) (h : Reached shared ctx paths c w) (action : ServiceAction)
    (hoffers : c.window.offers action = true) :
    ∃ service ∈ c.state.services, c.window.selection = some (serviceRow service) ∧
      service.status.isControllable = true ∧ (service.status = .running ↔ action ≠ .start) ∧
      (react c (.serviceAction action)).Only (StartsOnly (.service action service.name)) ∧
      (c.quitting = false → ∃ next,
        react c (.serviceAction action) = .call (.spawnThread (.service action service.name)) next) := by
  have hsynced : Synced c := reached_lasting synced_lasting newController_synced h
  have hshown : c.window.busy = c.busy := (reached_settled h).shown
  obtain ⟨service, hmem, hrow, hcontrollable, hidle, hrunning⟩ := offers_service hsynced hoffers
  have hselected := hsynced.highlighted _ hrow
  have hreact : react c (.serviceAction action) = c.restoreModeBanner.job
      (action.pending ++ " " ++ service.name ++ "…") (.service action service.name) := by
    rw [react, guarded, if_pos hoffers, Controller.serviceAction, hselected]
    rfl
  refine ⟨service, hmem, hrow, hcontrollable, hrunning, ?_, fun hquitting => ?_⟩
  · rw [hreact]
    exact job_startsOnly _ _
  · rw [hreact]
    have hbusy : c.restoreModeBanner.busy = false := hshown.symm.trans hidle
    exact job_starts hbusy hquitting _ _

def windowDriver : Driver (deskMachine true Lifecycle.idleContext) :=
  UnsavedEdits.deskDriver true Lifecycle.idleContext fun _ => false

def shown : Controller × DeskWorld Lifecycle.idleContext :=
  windowDriver.run (opened.1.finishJob (.ok "started ✓")) { startedWorld with job := none }

def picked : Controller × DeskWorld Lifecycle.idleContext :=
  windowDriver.run (react shown.1 (.serviceSelected 0)) shown.2

theorem shown_runs :
    Runs (deskMachine true Lifecycle.idleContext) (handle .jobReceived opened.1) startedWorld (shown.1, ())
      shown.2 := by
  refine runs_bind.mpr ⟨_, _, runs_bind.mpr ⟨some (some (.ok "started ✓")), { startedWorld with job := none }, ?_, ?_⟩,
    runs_pure.mpr ⟨rfl, .refl⟩⟩
  · exact runs_perform.mpr ⟨startedWorld, _, .refl, ⟨rfl, rfl⟩, .refl⟩
  · exact (windowDriver.runs _ trivial).1

theorem picked_runs :
    Runs (deskMachine true Lifecycle.idleContext) (handle (.serviceSelected 0) shown.1) shown.2 (picked.1, ())
      picked.2 :=
  runs_bind.mpr ⟨_, _, (windowDriver.runs _ trivial).1, runs_pure.mpr ⟨rfl, .refl⟩⟩

theorem picked_reached : Reached true Lifecycle.idleContext Paths.profile picked.1 picked.2 := by
  have hstarted : Session (deskMachine true Lifecycle.idleContext) handle opened.1 opened.2 [] opened.1 startedWorld :=
    .start (calm_drift opened_started)
  have hpicked := (hstarted.step shown_runs).step picked_runs
  exact ⟨true, Lifecycle.idleWorld, opened.1, opened.2, _, (windowDriver.runs _ trivial).1, hpicked⟩

theorem action_on_highlighted_picked :
    ∃ service ∈ picked.1.state.services, picked.1.window.selection = some (serviceRow service) ∧
      service.status = .running := by
  obtain ⟨service, hmem, hrow, _, hrunning, _⟩ := action_on_highlighted true Lifecycle.idleContext Paths.profile
    picked.1 picked.2 picked_reached .stop rfl
  exact ⟨service, hmem, hrow, hrunning.mpr nofun⟩

end LocalDevProxy.Selection
