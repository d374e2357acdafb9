import LocalDevProxy.Desktop
import LocalDevProxy.Lifecycle
import LocalDevProxy.Steady

namespace LocalDevProxy.UnsavedEdits

open Lib.Interaction Os Process ManagerCore Desktop

/-- What the window keeps of the configuration: the text of the editor, the text
last loaded or saved, and what decides when one replaces the other. -/
structure Editor where
  text : String
  loaded : String
  dirty : Bool
  view : ServiceView
  busy : Bool
  shownBusy : Bool
  lastRunning : Option Bool

def editor (c : Controller) : Editor :=
  ⟨c.window.editorText, c.state.loadedConfig, c.window.dirty, c.window.view, c.busy, c.window.busy,
    c.state.lastRunning⟩

namespace Editor

def reload (e : Editor) (text : String) : Editor := { e with text, loaded := text, dirty := false }

/-- The texts are kept, or one that was loaded replaces them. -/
def Reloads (e e' : Editor) : Prop := e' = e ∨ ∃ text, e' = e.reload text

structure Refreshed (e e' : Editor) : Prop where
  busy : e'.busy = e.busy
  shownBusy : e'.shownBusy = e.shownBusy
  texts : e'.text = e.text ∧ e'.loaded = e.loaded ∧ e'.dirty = e.dirty ∨ e'.text = e'.loaded ∧ e'.dirty = false

structure Stays (e e' : Editor) : Prop where
  text : e'.text = e.text
  loaded : e'.loaded = e.loaded
  view : e'.view = e.view

theorem Reloads.lastRunning {e e' : Editor} (h : e.Reloads e') : e'.lastRunning = e.lastRunning := by
  rcases h with rfl | ⟨text, rfl⟩
  · rfl
  · rfl

theorem Reloads.refreshed {e e' : Editor} (h : e.Reloads e') : e.Refreshed e' := by
  rcases h with rfl | ⟨text, rfl⟩
  · exact ⟨rfl, rfl, .inl ⟨rfl, rfl, rfl⟩⟩
  · exact ⟨rfl, rfl, .inr ⟨rfl, rfl⟩⟩

end Editor

section

variable {shared : Bool} {ctx : Context} {u v w w' : DeskWorld ctx} {α : Type} {c c' : Controller}

/-- A worker holds the manager just when it is at work. -/
def Exclusive (w : DeskWorld ctx) : Prop :=
  w.owner = .worker ↔ ∃ work awaited, w.job = some ⟨.holding work, awaited⟩

theorem exclusive_of_not_holding (howner : w.owner ≠ .worker)
    (hjob : ∀ work awaited, w.job ≠ some ⟨.holding work, awaited⟩) : Exclusive w :=
  ⟨fun h => absurd h howner, fun ⟨work, awaited, h⟩ => absurd h (hjob work awaited)⟩

structure Orderly (w : DeskWorld ctx) : Prop where
  exclusive : Exclusive w
  released : w.owner ≠ .window

theorem Orderly.free (h : Orderly w) (hjob : w.job = none) : w.owner = .free := by
  cases howner : w.owner with
  | free => rfl
  | window => exact absurd howner h.released
  | worker =>
      obtain ⟨work, awaited, hholding⟩ := h.exclusive.mp howner
      rw [hjob] at hholding
      cases hholding

/-- The lock stays in order, and with no worker about none appears and the run state is kept. -/
structure Undisturbed (w w' : DeskWorld ctx) : Prop where
  exclusive : Exclusive w → Exclusive w' ∧ (w'.owner = .window ↔ w.owner = .window)
  idle : w.job = none → w'.job = none ∧ w'.manager.isRunning = w.manager.isRunning

theorem Undisturbed.trans (h : Undisturbed u v) (h' : Undisturbed v w) : Undisturbed u w where
  exclusive := by
    intro hu
    obtain ⟨hv, howner⟩ := h.exclusive hu
    obtain ⟨hw, howner'⟩ := h'.exclusive hv
    exact ⟨hw, howner'.trans howner⟩
  idle := by
    intro hjob
    obtain ⟨hv, hrunning⟩ := h.idle hjob
    obtain ⟨hw, hrunning'⟩ := h'.idle hv
    exact ⟨hw, hrunning'.trans hrunning⟩

theorem Undisturbed.orderly (h : Undisturbed w w') (hw : Orderly w) : Orderly w' :=
  ⟨(h.exclusive hw.exclusive).1, fun howner => hw.released ((h.exclusive hw.exclusive).2.mp howner)⟩

/-- A step that leaves the lock, the worker and the run state alone. -/
theorem undisturbed_of_same (howner : w'.owner = w.owner) (hjob : w'.job = w.job)
    (hrunning : w'.manager.isRunning = w.manager.isRunning) : Undisturbed w w' where
  exclusive := by
    intro h
    rw [Exclusive, howner, hjob]
    exact ⟨h, Iff.rfl⟩
  idle := fun h => ⟨hjob.trans h, hrunning⟩

/-- A step in which the worker is done and leaves the lock. -/
theorem undisturbed_of_finished {work : Work} {awaited : Bool} (hjob : w.job = some ⟨.holding work, awaited⟩)
    (howner : w'.owner = .free) (hdone : ∀ work awaited, w'.job ≠ some ⟨.holding work, awaited⟩) :
    Undisturbed w w' where
  exclusive := by
    intro h
    rw [howner, h.mpr ⟨work, awaited, hjob⟩]
    refine ⟨exclusive_of_not_holding ?_ hdone, nofun, nofun⟩
    rw [howner]
    exact nofun
  idle := by
    intro hnone
    rw [hjob] at hnone
    cases hnone

/-- What can happen beside the window thread, and while it consults the manager. -/
structure Beside (w w' : DeskWorld ctx) : Prop extends Undisturbed w w' where
  saved : w'.saved = w.saved

theorem Beside.trans (h : Beside u v) (h' : Beside v w) : Beside u w :=
  ⟨h.toUndisturbed.trans h'.toUndisturbed, h'.saved.trans h.saved⟩

theorem Beside.orderly (h : Beside w w') (hw : Orderly w) : Orderly w' := h.toUndisturbed.orderly hw

theorem Beside.refl (w : DeskWorld ctx) : Beside w w := ⟨undisturbed_of_same rfl rfl rfl, rfl⟩

theorem beside_of_same (howner : w'.owner = w.owner) (hjob : w'.job = w.job)
    (hrunning : w'.manager.isRunning = w.manager.isRunning) (hsaved : w'.saved = w.saved) : Beside w w' :=
  ⟨undisturbed_of_same howner hjob hrunning, hsaved⟩

theorem beside_of_moves (h : Moves shared ctx w w') : Beside w w' := by
  cases h with
  | system hd => exact beside_of_same rfl rfl rfl rfl
  | polls hs hr => exact beside_of_same rfl rfl rfl rfl
  | takes hfree hjob =>
      refine ⟨⟨fun _ => ⟨⟨fun _ => ⟨_, _, rfl⟩, fun _ => rfl⟩, nofun, fun h => ?_⟩, fun h => ?_⟩, rfl⟩
      · rw [hfree] at h
        cases h
      · rw [hjob] at h
        cases h
  | works hjob hr => exact ⟨undisturbed_of_finished hjob rfl nofun, rfl⟩
  | panics m s hjob => exact ⟨undisturbed_of_finished hjob rfl nofun, rfl⟩

theorem beside_of_drift (h : (deskMachine shared ctx).drift w w') : Beside w w' := by
  induction h with
  | refl => exact .refl w
  | tail _ hmove ih => exact ih.trans (beside_of_moves hmove)

def Consulting : DeskCall → Prop
  | .tryLock | .unlock | .saveConfig _ | .spawnThread _ | .spawnLocal | .received => False
  | _ => True

theorem Consults.beside {p : Io α} {a : α} (h : Consults shared ctx p w a w') : Beside w w' := by
  obtain ⟨s, _, rfl⟩ := h
  exact beside_of_same rfl rfl rfl rfl

theorem beside_of_answer {call : DeskCall} {b : DeskAns call} (hcall : Consulting call)
    (h : (deskMachine shared ctx).answers call w b w') : Beside w w' := by
  cases call with
  | tryLock | unlock | saveConfig | spawnThread | spawnLocal | received => exact hcall.elim
  | hasConfig | routes | readConfig => exact Consults.beside h
  | isRunning | services | logNames | validateConfig | tailLog =>
      obtain ⟨_, rfl⟩ := h
      exact .refl _

theorem beside_of_runs {p : Desk α} {a : α} (h : Runs (deskMachine shared ctx) p w a w') (hp : p.Only Consulting) :
    Beside w w' :=
  h.frame hp Beside.trans beside_of_drift beside_of_answer

/-- The manager is held by a worker and nothing is asked of it, or it is taken, asked and released. -/
theorem withManager_cases {p : Desk α} {r : Option α}
    (h : Runs (deskMachine shared ctx) (withManager p) w r w') :
    (r = none ∧ Beside w w' ∧ (Orderly w → w.job ≠ none)) ∨
    ∃ a u v, r = some a ∧ Beside w u ∧ u.owner = .free ∧
      Runs (deskMachine shared ctx) p { u with owner := .window } a v ∧ Beside { v with owner := .free } w' := by
  obtain ⟨locked, x, hlock, h⟩ := runs_bind.mp h
  obtain ⟨u, u', hdrift, hanswer, hdrift'⟩ := runs_perform.mp hlock
  cases locked with
  | false =>
      obtain ⟨rfl, hd⟩ := runs_pure.mp h
      obtain ⟨hheld, rfl⟩ := hanswer
      have hbefore := beside_of_drift hdrift
      refine .inl ⟨rfl, hbefore.trans ((beside_of_drift hdrift').trans (beside_of_drift hd)), fun hw hjob => ?_⟩
      exact hheld ((hbefore.orderly hw).free (hbefore.idle hjob).1)
  | true =>
      obtain ⟨hfree, rfl⟩ := hanswer
      obtain ⟨a, y, hp, h⟩ := runs_bind.mp h
      obtain ⟨_, z, hunlock, h⟩ := runs_bind.mp h
      obtain ⟨v, v', hd, hreleased, hd'⟩ := runs_perform.mp hunlock
      obtain ⟨rfl, hend⟩ := runs_pure.mp h
      obtain rfl : v' = { v with owner := .free } := hreleased
      exact .inr ⟨a, u, v, rfl, beside_of_drift hdrift, hfree, (hp.drift_left hdrift').drift_right hd,
        (beside_of_drift hd').trans (beside_of_drift hend)⟩

theorem undisturbed_locked (hfree : u.owner = .free) (h : Undisturbed { u with owner := .window } v) :
    Undisturbed u { v with owner := .free } where
  exclusive := by
    intro hu
    have hidle : ∀ work awaited, u.job ≠ some ⟨.holding work, awaited⟩ := by
      intro work awaited hjob
      rw [hu.mpr ⟨work, awaited, hjob⟩] at hfree
      cases hfree
    obtain ⟨hv, howner⟩ := h.exclusive (exclusive_of_not_holding nofun hidle)
    refine ⟨exclusive_of_not_holding nofun fun work awaited hjob => ?_, nofun, fun hwindow => ?_⟩
    · have hworker : v.owner = .worker := hv.mpr ⟨work, awaited, hjob⟩
      rw [howner.mpr rfl] at hworker
      cases hworker
    · rw [hfree] at hwindow
      cases hwindow
  idle := h.idle

theorem beside_locked (hfree : u.owner = .free) (h : Beside { u with owner := .window } v) :
    Beside u { v with owner := .free } :=
  ⟨undisturbed_locked hfree h.toUndisturbed, h.saved⟩

theorem consult {p : Desk α} {r : Option α} (h : Runs (deskMachine shared ctx) (withManager p) w r w')
    (hp : p.Only Consulting) : Beside w w' ∧ (Orderly w → w.job = none → ∃ a, r = some a) := by
  rcases withManager_cases h with ⟨_, hbeside, hheld⟩ | ⟨a, u, v, rfl, hbefore, hfree, hrun, hafter⟩
  · exact ⟨hbeside, fun hw hjob => absurd hjob (hheld hw)⟩
  · have hlocked := beside_locked hfree (beside_of_runs hrun hp)
    exact ⟨hbefore.trans (hlocked.trans hafter), fun _ _ => ⟨a, rfl⟩⟩

theorem consulting_ask (call : DeskCall) (h : Consulting call) : (ask call).Only Consulting :=
  Prog.only_perform h

theorem consulting_snapshot : Controller.snapshot.Only Consulting :=
  Prog.only_bind (consulting_ask .isRunning trivial) fun _ =>
    Prog.only_bind (consulting_ask .services trivial) fun _ =>
      Prog.only_bind (consulting_ask .logNames trivial) fun _ => trivial

/-- With no worker about, what a refresh is told of the run state is so. -/
theorem snapshot_running {running : Bool} {services : List ServiceSnapshot} {names : List String}
    (h : Runs (deskMachine shared ctx) (withManager Controller.snapshot) w (some (running, services, names)) w')
    (hjob : w.job = none) : running = w.manager.isRunning := by
  rcases withManager_cases h with ⟨hnone, _, _⟩ | ⟨a, u, v, hsome, hbefore, hfree, hrun, hafter⟩
  · cases hnone
  · cases hsome
    obtain ⟨b, w₁, hasked, hrun⟩ := runs_bind.mp hrun
    obtain ⟨x, y, hdrift, ⟨hb, _⟩, _⟩ := runs_perform.mp hasked
    obtain ⟨_, w₂, _, hrun⟩ := runs_bind.mp hrun
    obtain ⟨_, w₃, _, hrun⟩ := runs_bind.mp hrun
    obtain ⟨heq, _⟩ := runs_pure.mp hrun
    cases heq
    obtain ⟨hujob, hurunning⟩ := hbefore.idle hjob
    exact hb.trans (((beside_of_drift hdrift).idle hujob).2.trans hurunning)

theorem consulting_logView (index : Int) (lines : Nat) :
    (Controller.logView index lines).Only Consulting := by
  refine Prog.only_bind (consulting_ask .logNames trivial) fun names => ?_
  split
  · trivial
  · rename_i name _
    refine Prog.only_bind (consulting_ask (.tailLog name lines) trivial) fun answer => ?_
    split <;> trivial

def Leaves (c : Controller) (w : DeskWorld ctx) (c' : Controller) (w' : DeskWorld ctx) : Prop :=
  editor c' = editor c ∧ Beside w w'

theorem leaves_pure {d : Controller} (hd : editor d = editor c)
    (h : Runs (deskMachine shared ctx) (Pure.pure d) w c' w') : Leaves c w c' w' := by
  obtain ⟨rfl, hdrift⟩ := runs_pure.mp h
  exact ⟨hd, beside_of_drift hdrift⟩

theorem leaves_pair {β : Type} {d : Controller} {b b' : β} (hd : editor d = editor c)
    (h : Runs (deskMachine shared ctx) (Pure.pure (d, b)) w (c', b') w') : b' = b ∧ Leaves c w c' w' := by
  obtain ⟨heq, hdrift⟩ := runs_pure.mp h
  cases heq
  exact ⟨rfl, hd, beside_of_drift hdrift⟩

theorem Leaves.after (hbefore : Beside u w) (h : Leaves c w c' w') : Leaves c u c' w' :=
  ⟨h.1, hbefore.trans h.2⟩

@[simp] theorem editor_showServices (c : Controller) (services : List ServiceSnapshot) :
    editor (c.showServices services) = editor c := rfl

@[simp] theorem editor_showLogNames (c : Controller) (names : List String) :
    editor (c.showLogNames names) = editor c := by
  unfold Controller.showLogNames
  split <;> rfl

@[simp] theorem editor_quit (c : Controller) : editor c.quit = editor c := by
  unfold Controller.quit
  split <;> rfl

theorem reloadRoutes_leaves (h : Runs (deskMachine shared ctx) c.reloadRoutes w c' w') : Leaves c w c' w' := by
  obtain ⟨r, w₁, hasked, h⟩ := runs_bind.mp h
  obtain ⟨hbeside, _⟩ := consult hasked (consulting_ask .routes trivial)
  rcases r with _ | (err | groups)
  · exact (leaves_pure rfl h).after hbeside
  · exact (leaves_pure rfl h).after hbeside
  · exact (leaves_pure rfl h).after hbeside

theorem refreshLogs_leaves (h : Runs (deskMachine shared ctx) c.refreshLogs w c' w') : Leaves c w c' w' := by
  obtain ⟨r, w₁, hasked, h⟩ := runs_bind.mp h
  obtain ⟨hbeside, _⟩ := consult hasked (consulting_logView _ _)
  rcases r with _ | ⟨names, body⟩
  · exact (leaves_pure rfl h).after hbeside
  · refine (leaves_pure ?_ h).after hbeside
    split
    · exact editor_showLogNames c names
    · exact editor_showLogNames c names

theorem validate_leaves {valid : Bool} (h : Runs (deskMachine shared ctx) c.validate w (c', valid) w') :
    Leaves c w c' w' := by
  obtain ⟨r, w₁, hasked, h⟩ := runs_bind.mp h
  obtain ⟨hbeside, _⟩ := consult hasked (consulting_ask (.validateConfig c.window.editorText) trivial)
  rcases r with _ | (err | manifest)
  · exact (leaves_pair rfl h).2.after hbeside
  · exact (leaves_pair rfl h).2.after hbeside
  · exact (leaves_pair rfl h).2.after hbeside

theorem openServiceLogs_leaves {index : Int} (h : Runs (deskMachine shared ctx) (c.openServiceLogs index) w c' w') :
    Leaves c w c' w' := by
  unfold Controller.openServiceLogs at h
  split at h
  · exact leaves_pure rfl h
  · obtain ⟨r, w₁, hasked, h⟩ := runs_bind.mp h
    obtain ⟨hbeside, _⟩ := consult hasked (consulting_ask .logNames trivial)
    rcases r with _ | names
    · exact (leaves_pure rfl h).after hbeside
    · dsimp only at h
      split at h
      · exact (leaves_pure rfl h).after hbeside
      · obtain ⟨hsame, hb⟩ := refreshLogs_leaves h
        exact ⟨hsame.trans (editor_showLogNames c names), hbeside.trans hb⟩

theorem loadConfig_run {loaded : Bool} (h : Runs (deskMachine shared ctx) c.loadConfig w (c', loaded) w') :
    Beside w w' ∧ (editor c).Reloads (editor c') ∧
      (Orderly w → w.job = none → ∃ text, editor c' = (editor c).reload text) := by
  obtain ⟨r, w₁, hasked, h⟩ := runs_bind.mp h
  obtain ⟨hbeside, hfree⟩ := consult hasked (consulting_ask .readConfig trivial)
  rcases r with _ | (err | (_ | text)) <;> obtain ⟨heq, hdrift⟩ := runs_pure.mp h <;> cases heq
  · refine ⟨hbeside.trans (beside_of_drift hdrift), .inl rfl, fun hw hjob => ?_⟩
    obtain ⟨a, hnone⟩ := hfree hw hjob
    cases hnone
  · exact ⟨hbeside.trans (beside_of_drift hdrift), .inr ⟨_, rfl⟩, fun _ _ => ⟨_, rfl⟩⟩
  · exact ⟨hbeside.trans (beside_of_drift hdrift), .inr ⟨_, rfl⟩, fun _ _ => ⟨_, rfl⟩⟩
  · exact ⟨hbeside.trans (beside_of_drift hdrift), .inr ⟨_, rfl⟩, fun _ _ => ⟨_, rfl⟩⟩

theorem setView_run {view : ServiceView} (h : Runs (deskMachine shared ctx) (c.setView view) w c' w') :
    Beside w w' ∧ ∃ e, (editor c).Reloads e ∧ editor c' = { e with view } ∧ (view = .services → e = editor c) := by
  cases view with
  | services =>
      obtain ⟨rfl, hdrift⟩ := runs_pure.mp h
      exact ⟨beside_of_drift hdrift, editor c, .inl rfl, rfl, fun _ => rfl⟩
  | edit =>
      obtain ⟨⟨d, loaded⟩, w₁, hload, h⟩ := runs_bind.mp h
      obtain ⟨rfl, hdrift⟩ := runs_pure.mp h
      obtain ⟨hbeside, hreloads, _⟩ := loadConfig_run hload
      exact ⟨hbeside.trans (beside_of_drift hdrift), editor d, hreloads, rfl, nofun⟩

theorem syncRunState_run {running : Bool} (h : Runs (deskMachine shared ctx) (c.syncRunState running) w c' w') :
    Beside w w' ∧ (editor c).Refreshed (editor c') ∧ (editor c').lastRunning = some running ∧
      ((editor c).lastRunning = some running → editor c' = editor c) := by
  unfold Controller.syncRunState at h
  split at h
  · rename_i hsame
    obtain ⟨rfl, hdrift⟩ := runs_pure.mp h
    exact ⟨beside_of_drift hdrift, Editor.Reloads.refreshed (.inl rfl), hsame, fun _ => rfl⟩
  · rename_i hchanged
    obtain ⟨hbeside, e, hreloads, heditor, _⟩ := setView_run h
    obtain ⟨hbusy, hshown, htexts⟩ := hreloads.refreshed
    rw [heditor]
    refine ⟨hbeside, ⟨hbusy, hshown, htexts⟩, ?_, fun h => absurd h hchanged⟩
    exact hreloads.lastRunning

/-- A refresh reads the run state, and with no worker about it finds out how it is. -/
structure Refreshes (e : Editor) (w : DeskWorld ctx) (e' : Editor) (w' : DeskWorld ctx) : Prop where
  beside : Beside w w'
  refreshed : e.Refreshed e'
  seen : Orderly w → w.job = none → e'.lastRunning = some w'.manager.isRunning
  known : Orderly w → w.job = none → e.lastRunning = some w.manager.isRunning → e' = e

theorem refresh_run (h : Runs (deskMachine shared ctx) c.refresh w c' w') :
    Refreshes (editor c) w (editor c') w' := by
  obtain ⟨r, w₁, hasked, h⟩ := runs_bind.mp h
  obtain ⟨hbefore, hfree⟩ := consult hasked consulting_snapshot
  rcases r with _ | ⟨running, services, names⟩
  · obtain ⟨rfl, hdrift⟩ := runs_pure.mp h
    refine ⟨hbefore.trans (beside_of_drift hdrift), Editor.Reloads.refreshed (.inl rfl), fun hw hjob => ?_,
      fun _ _ _ => rfl⟩
    obtain ⟨a, hnone⟩ := hfree hw hjob
    cases hnone
  · obtain ⟨d, w₂, hsync, h⟩ := runs_bind.mp h
    obtain ⟨hbeside, hrefreshed, hlast, hknown⟩ := syncRunState_run hsync
    have hleaves : Leaves d w₂ c' w' := by
      dsimp only at h
      split at h
      · obtain ⟨hsame, hlogs⟩ := refreshLogs_leaves h
        exact ⟨hsame.trans (by rw [editor_showLogNames, editor_showServices]), hlogs⟩
      · exact leaves_pure (by rw [editor_showLogNames, editor_showServices]) h
    have hworld : Beside w w' := hbefore.trans (hbeside.trans hleaves.2)
    rw [hleaves.1]
    refine ⟨hworld, hrefreshed, fun _ hjob => ?_, fun _ hjob hsame => ?_⟩
    · rw [hlast, snapshot_running hasked hjob, (hworld.idle hjob).2]
    · exact hknown (hsame.trans (congrArg some (snapshot_running hasked hjob).symm))

def Editor.idle (e : Editor) : Editor := { e with busy := false, shownBusy := false }

theorem finishJob_run {outcome : JobOutcome} (h : Runs (deskMachine shared ctx) (c.finishJob outcome) w c' w') :
    Refreshes (editor c).idle w (editor c') w' := by
  obtain ⟨d, w₁, hroutes, h⟩ := runs_bind.mp h
  obtain ⟨heditor, hbeside⟩ := reloadRoutes_leaves hroutes
  have hidle : editor d = (editor c).idle := by
    rw [heditor]
    cases outcome <;> rfl
  obtain ⟨hafter, hrefreshed, hseen, hknown⟩ := refresh_run h
  rw [hidle] at hrefreshed hknown
  refine ⟨hbeside.trans hafter, hrefreshed, fun hw hjob => ?_, fun hw hjob hsame => ?_⟩
  · exact hseen (hbeside.orderly hw) (hbeside.idle hjob).1
  · refine hknown (hbeside.orderly hw) (hbeside.idle hjob).1 ?_
    rw [hsame, (hbeside.idle hjob).2]

/-- Unsaved text can only be there while it can be seen and nothing is at work, and
it is marked. -/
structure Guarded (e : Editor) (w : DeskWorld ctx) : Prop where
  orderly : Orderly w
  shown : e.shownBusy = e.busy
  idle : e.busy = false → w.job = none
  dirty : e.dirty = true ↔ e.text ≠ e.loaded
  clean : e.view = .services ∨ e.busy = true → e.text = e.loaded

/-- The run state has been noticed, unless a worker may be changing it. -/
def Noticed (e : Editor) (w : DeskWorld ctx) : Prop :=
  e.busy = false → e.lastRunning = some w.manager.isRunning

/-- The state between two events. -/
structure Settled (e : Editor) (w : DeskWorld ctx) : Prop extends Guarded e w where
  noticed : Noticed e w

theorem Guarded.undisturbed {e : Editor} (h : Guarded e w) (hb : Undisturbed w w') : Guarded e w' :=
  ⟨hb.orderly h.orderly, h.shown, fun hbusy => (hb.idle (h.idle hbusy)).1, h.dirty, h.clean⟩

theorem Settled.undisturbed {e : Editor} (h : Settled e w) (hb : Undisturbed w w') : Settled e w' where
  toGuarded := h.toGuarded.undisturbed hb
  noticed := by
    intro hbusy
    rw [h.noticed hbusy, (hb.idle (h.idle hbusy)).2]

theorem Leaves.settled (h : Leaves c w c' w') (hs : Settled (editor c) w) : Settled (editor c') w' := by
  rw [h.1]
  exact hs.undisturbed h.2.toUndisturbed

/-- Text that agrees with what was loaded still does after a refresh. -/
theorem Editor.Refreshed.guarded {e e' : Editor} (h : e.Refreshed e') (hb : Undisturbed w w') (hg : Guarded e w)
    (htext : e.text = e.loaded) : Guarded e' w' ∧ e'.text = e'.loaded := by
  have hclean : e'.text = e'.loaded := by
    rcases h.texts with ⟨htext', hloaded, _⟩ | ⟨hsame, _⟩
    · rw [htext', hloaded, htext]
    · exact hsame
  have hdirty : e'.dirty = false := by
    rcases h.texts with ⟨_, _, hdirty⟩ | ⟨_, hdirty⟩
    · rw [hdirty, Bool.eq_false_iff]
      exact fun h => hg.dirty.mp h htext
    · exact hdirty
  refine ⟨⟨hb.orderly hg.orderly, ?_, ?_, ?_, fun _ => hclean⟩, hclean⟩
  · rw [h.busy, h.shownBusy, hg.shown]
  · rw [h.busy]
    exact fun hbusy => (hb.idle (hg.idle hbusy)).1
  · rw [hdirty]
    exact ⟨nofun, fun hne => absurd hclean hne⟩

theorem refresh_settled (h : Runs (deskMachine shared ctx) c.refresh w c' w') (hs : Settled (editor c) w) :
    Settled (editor c') w' ∧ ((editor c).busy = false → editor c' = editor c) := by
  have hrun := refresh_run h
  cases hbusy : (editor c).busy with
  | false =>
      -- nothing is at work, so the run state is the one that was noticed last
      have hsame := hrun.known hs.orderly (hs.idle hbusy) (hs.noticed hbusy)
      rw [hsame]
      exact ⟨hs.undisturbed hrun.beside.toUndisturbed, fun _ => rfl⟩
  | true =>
      -- a worker may have changed the run state, but the text cannot have been edited meanwhile
      obtain ⟨hg, _⟩ :=
        hrun.refreshed.guarded hrun.beside.toUndisturbed hs.toGuarded (hs.clean (.inr hbusy))
      refine ⟨⟨hg, fun hidle => ?_⟩, nofun⟩
      rw [hrun.refreshed.busy, hbusy] at hidle
      cases hidle

theorem finishJob_settled {outcome : JobOutcome}
    (h : Runs (deskMachine shared ctx) (c.finishJob outcome) w c' w') (hw : Orderly w) (hjob : w.job = none)
    (hdirty : (editor c).dirty = true ↔ (editor c).text ≠ (editor c).loaded)
    (htext : (editor c).text = (editor c).loaded) : Settled (editor c') w' ∧ w'.saved = w.saved := by
  have hrun := finishJob_run h
  have hg : Guarded (editor c).idle w := ⟨hw, rfl, fun _ => hjob, hdirty, fun _ => htext⟩
  exact ⟨⟨(hrun.refreshed.guarded hrun.beside.toUndisturbed hg htext).1, fun _ => hrun.seen hw hjob⟩,
    hrun.beside.saved⟩

theorem spawnLocal_orderly {waits : Bool} (h : Runs (deskMachine shared ctx) (ask .spawnLocal) w waits w')
    (hw : Orderly w) : Orderly w' ∧ w'.saved = w.saved := by
  obtain ⟨u, v, hbefore, hanswer, hafter⟩ := runs_perform.mp h
  have hu := (beside_of_drift hbefore).orderly hw
  have hsaved := (beside_of_drift hbefore).saved
  suffices Orderly v ∧ v.saved = u.saved from
    ⟨(beside_of_drift hafter).orderly this.1, ((beside_of_drift hafter).saved.trans this.2).trans hsaved⟩
  cases waits with
  | false =>
      obtain rfl : v = u := hanswer
      exact ⟨hu, rfl⟩
  | true =>
      obtain rfl : v = { u with job := u.job.map fun job => { job with awaited := true } } := hanswer
      refine ⟨⟨hu.exclusive.trans ⟨?_, ?_⟩, hu.released⟩, rfl⟩
      · rintro ⟨work, awaited, hjob⟩
        exact ⟨work, true, by simp [hjob]⟩
      · rintro ⟨work, awaited, hjob⟩
        obtain ⟨⟨phase, was⟩, hwas, heq⟩ := Option.map_eq_some_iff.mp hjob
        cases heq
        exact ⟨work, was, hwas⟩

/-- A job is begun only with nothing unsaved. -/
theorem job_settled {pending : String} {work : Work}
    (h : Runs (deskMachine shared ctx) (c.job pending work) w c' w') (hg : Guarded (editor c) w)
    (htext : (editor c).text = (editor c).loaded)
    (hnoticed : c.quitting = true ∨ c.busy = true → Noticed (editor c) w) :
    Settled (editor c') w' ∧ w'.saved = w.saved := by
  unfold Controller.job at h
  split at h
  · rename_i hrefused
    rw [Bool.or_eq_true] at hrefused
    have hleaves : Leaves c w c' w' := leaves_pure rfl h
    exact ⟨hleaves.settled ⟨hg, hnoticed hrefused⟩, hleaves.2.saved⟩
  · rename_i haccepted
    have hidle : c.busy = false := by
      rw [Bool.or_eq_true, not_or] at haccepted
      exact Bool.eq_false_iff.mpr haccepted.2
    obtain ⟨spawned, w₁, hspawn, h⟩ := runs_bind.mp h
    obtain ⟨u, v, hbefore, hanswer, hafter⟩ := runs_perform.mp hspawn
    have hguarded : Guarded (editor c) u := hg.undisturbed (beside_of_drift hbefore).toUndisturbed
    have hjob : u.job = none := hguarded.idle hidle
    have hsaved : u.saved = w.saved := (beside_of_drift hbefore).saved
    have hb := beside_of_drift hafter
    cases spawned with
    | error err =>
        obtain rfl : v = u := hanswer
        obtain ⟨hsettled, hkept⟩ :=
          finishJob_settled h (hb.orderly hguarded.orderly) (hb.idle hjob).1 hg.dirty htext
        exact ⟨hsettled, hkept.trans (hb.saved.trans hsaved)⟩
    | ok =>
        -- no other worker is about, so the spawned one waits for a manager that is free
        obtain rfl := hanswer hjob
        obtain ⟨waits, w₂, hwait, h⟩ := runs_bind.mp h
        obtain ⟨rfl, hend⟩ := runs_pure.mp h
        have hwaiting : Orderly { u with job := some ⟨.waiting work, false⟩ } := by
          refine ⟨exclusive_of_not_holding ?_ nofun, hguarded.orderly.released⟩
          rw [hguarded.orderly.free hjob]
          nofun
        obtain ⟨horderly, hkept⟩ := spawnLocal_orderly hwait (hb.orderly hwaiting)
        have hafter := beside_of_drift hend
        exact ⟨⟨⟨hafter.orderly horderly, rfl, nofun, hg.dirty, fun _ => htext⟩, nofun⟩,
          hafter.saved.trans (hkept.trans (hb.saved.trans hsaved))⟩

/-- After an event the window is between two events again, and the text that was
unsaved is still in the editor or has just been saved. -/
structure Survives (c : Controller) (w : DeskWorld ctx) (c' : Controller) (w' : DeskWorld ctx) : Prop where
  settled : Settled (editor c') w'
  unsaved : (editor c).text ≠ (editor c).loaded →
    (editor c).Stays (editor c') ∨ w'.saved = w.saved ++ [(editor c).text]

theorem Leaves.survives (h : Leaves c w c' w') (hs : Settled (editor c) w) : Survives c w c' w' where
  settled := h.settled hs
  unsaved := by
    intro _
    rw [h.1]
    exact .inl ⟨rfl, rfl, rfl⟩

theorem pure_survives {d : Controller} (hs : Settled (editor c) w)
    (h : Runs (deskMachine shared ctx) (Pure.pure d) w c' w') (hd : editor d = editor c) : Survives c w c' w' :=
  Leaves.survives (leaves_pure hd h) hs

theorem refreshLogs_survives {d : Controller} (hs : Settled (editor c) w)
    (h : Runs (deskMachine shared ctx) d.refreshLogs w c' w') (hd : editor d = editor c) : Survives c w c' w' :=
  Leaves.survives ⟨(refreshLogs_leaves h).1.trans hd, (refreshLogs_leaves h).2⟩ hs

/-- With nothing unsaved only the state reached matters. -/
theorem survives_of_clean (hs : Settled (editor c') w') (htext : (editor c).text = (editor c).loaded) :
    Survives c w c' w' :=
  ⟨hs, fun hne => absurd htext hne⟩

theorem guarded_cases {allowed : Bool} {action : Desk Controller}
    (h : Runs (deskMachine shared ctx) (guarded allowed c action) w c' w') :
    (allowed = true ∧ Runs (deskMachine shared ctx) action w c' w') ∨ Leaves c w c' w' := by
  unfold guarded at h
  split at h
  · rename_i hallowed
    exact .inl ⟨hallowed, h⟩
  · exact .inr (leaves_pure rfl h)

theorem guarded_survives {allowed : Bool} {action : Desk Controller} (hs : Settled (editor c) w)
    (h : Runs (deskMachine shared ctx) (guarded allowed c action) w c' w')
    (haction : allowed = true → Runs (deskMachine shared ctx) action w c' w' → Survives c w c' w') :
    Survives c w c' w' := by
  rcases guarded_cases h with ⟨hallowed, hrun⟩ | hleaves
  · exact haction hallowed hrun
  · exact hleaves.survives hs

theorem refresh_survives (hs : Settled (editor c) w) (h : Runs (deskMachine shared ctx) c.refresh w c' w') :
    Survives c w c' w' := by
  obtain ⟨hsettled, hsame⟩ := refresh_settled h hs
  refine ⟨hsettled, fun hne => ?_⟩
  have hbusy : (editor c).busy = false := by
    rw [Bool.eq_false_iff]
    exact fun hbusy => hne (hs.clean (.inr hbusy))
  rw [hsame hbusy]
  exact .inl ⟨rfl, rfl, rfl⟩

/-- An outcome is only received while the controls are disabled. -/
theorem received_survives (hs : Settled (editor c) w)
    (h : Runs (deskMachine shared ctx) (react c .jobReceived) w c' w') : Survives c w c' w' := by
  obtain ⟨answer, w₁, hasked, h⟩ := runs_bind.mp h
  obtain ⟨u, v, hbefore, hanswer, hafter⟩ := runs_perform.mp hasked
  have hu := hs.undisturbed (beside_of_drift hbefore).toUndisturbed
  cases answer with
  | none =>
      obtain rfl : v = u := hanswer
      exact ((leaves_pure rfl h).after ((beside_of_drift hbefore).trans (beside_of_drift hafter))).survives hs
  | some outcome =>
      obtain ⟨hjob, rfl⟩ := hanswer
      -- there was a worker, which is only so while the window is busy
      have hbusy : (editor c).busy = true := by
        rw [← Bool.not_eq_false]
        intro hidle
        rw [hu.idle hidle] at hjob
        cases hjob
      have htext := hs.clean (.inr hbusy)
      have hreceived : Orderly { u with job := none } := by
        refine ⟨exclusive_of_not_holding (fun howner => ?_) nofun, hu.orderly.released⟩
        obtain ⟨work, awaited, hholding⟩ := hu.orderly.exclusive.mp howner
        rw [hjob] at hholding
        cases hholding
      have hb := beside_of_drift hafter
      exact survives_of_clean (finishJob_settled h (hb.orderly hreceived) (hb.idle rfl).1 hs.dirty htext).1 htext

theorem editing_view {window : Window} (h : window.editing = true) : window.view = .edit := by
  rw [Window.editing, Bool.and_eq_true, decide_eq_true_eq, decide_eq_true_eq] at h
  exact h.2

theorem inServiceList_view {window : Window} (h : window.inServiceList = true) : window.view = .services := by
  rw [Window.inServiceList, Bool.and_eq_true, decide_eq_true_eq, decide_eq_true_eq] at h
  exact h.2

/-- Typing replaces the text alone. -/
theorem typed_settled {text : String} (hs : Settled (editor c) w)
    (h : Runs (deskMachine shared ctx) (react c (.editorEdited text)) w c' w') :
    Settled (editor c') w' ∧ (editor c').loaded = (editor c).loaded ∧ (editor c').view = (editor c).view ∧
      ((editor c').text = (editor c).text ∨ (editor c').text = text) := by
  rcases guarded_cases h with ⟨hallowed, hrun⟩ | hleaves
  · rw [Bool.and_eq_true, Bool.not_eq_true'] at hallowed
    obtain ⟨rfl, hdrift⟩ := runs_pure.mp hrun
    have hbusy : c.busy = false := hs.shown.symm.trans hallowed.2
    have hw := hs.undisturbed (beside_of_drift hdrift).toUndisturbed
    refine ⟨⟨⟨hw.orderly, hs.shown, hw.idle, decide_eq_true_iff, ?_⟩, hw.noticed⟩, rfl, rfl, .inr rfl⟩
    rintro (hservices | hatwork)
    · cases hservices.symm.trans (editing_view hallowed.1)
    · cases hatwork.symm.trans hbusy
  · refine ⟨hleaves.settled hs, ?_⟩
    rw [hleaves.1]
    exact ⟨rfl, rfl, .inl rfl⟩

/-- A view is changed only with nothing unsaved. -/
theorem setView_settled {view : ServiceView} (h : Runs (deskMachine shared ctx) (c.setView view) w c' w')
    (hs : Settled (editor c) w) (htext : (editor c).text = (editor c).loaded) :
    Settled (editor c') w' ∧ (editor c').text = (editor c').loaded ∧ w'.saved = w.saved := by
  obtain ⟨hbeside, e, hreloads, heditor, _⟩ := setView_run h
  obtain ⟨hg, hclean⟩ := hreloads.refreshed.guarded hbeside.toUndisturbed hs.toGuarded htext
  rw [heditor]
  refine ⟨⟨⟨hg.orderly, hg.shown, hg.idle, hg.dirty, fun _ => hclean⟩, fun hbusy => ?_⟩, hclean, hbeside.saved⟩
  have hidle : (editor c).busy = false := hreloads.refreshed.busy.symm.trans hbusy
  rw [(hbeside.idle (hs.idle hidle)).2, ← hs.noticed hidle]
  exact hreloads.lastRunning

theorem reload_settled {e : Editor} {text : String} (hs : Settled e w) : Settled (e.reload text) w :=
  ⟨⟨hs.orderly, hs.shown, hs.idle, ⟨nofun, fun hne => absurd rfl hne⟩, fun _ => rfl⟩, hs.noticed⟩

theorem cancelEdit_settled (h : Runs (deskMachine shared ctx) c.cancelEdit w c' w') (hs : Settled (editor c) w)
    (hbusy : (editor c).busy = false) : Settled (editor c') w' := by
  obtain ⟨⟨d, loaded⟩, w₁, hload, h⟩ := runs_bind.mp h
  obtain ⟨hbeside, _, hreload⟩ := loadConfig_run hload
  have hsame : editor (if c.window.dirty then c.setStatus "edits discarded" .neutral else c) = editor c := by
    split <;> rfl
  rw [hsame] at hreload
  obtain ⟨text, hd⟩ := hreload hs.orderly (hs.idle hbusy)
  have hreloaded : Settled (editor d) w₁ := by
    rw [hd]
    exact reload_settled (hs.undisturbed hbeside.toUndisturbed)
  have hclean : (editor d).text = (editor d).loaded := by
    rw [hd]
    rfl
  exact (setView_settled h hreloaded hclean).1

/-- The text is either written, and then it is what it is compared with, or left alone. -/
theorem persist_run {written : Bool} (h : Runs (deskMachine shared ctx) c.persist w (c', written) w') :
    (written = false ∧ Leaves c w c' w') ∨
      (written = true ∧ editor c' = (editor c).reload (editor c).text ∧ Undisturbed w w' ∧
        w'.saved = w.saved ++ [(editor c).text]) := by
  obtain ⟨r, w₁, hasked, h⟩ := runs_bind.mp h
  rcases withManager_cases hasked with ⟨rfl, hbeside, _⟩ | ⟨answer, u, v, rfl, hbefore, hfree, hrun, hafter⟩
  · obtain ⟨hwritten, hleaves⟩ := leaves_pair rfl h
    exact .inl ⟨hwritten, hleaves.after hbeside⟩
  · obtain ⟨x, y, hd, hanswer, hd'⟩ := runs_perform.mp hrun
    have htaken := beside_of_drift hd
    have hheld := beside_of_drift hd'
    rcases answer with err | _
    · have hlocked := beside_locked hfree (htaken.trans ((Consults.beside hanswer).trans hheld))
      have hworld := hbefore.trans (hlocked.trans hafter)
      cases err with
      | config err =>
          obtain ⟨hwritten, hleaves⟩ := leaves_pair rfl h
          exact .inl ⟨hwritten, hleaves.after hworld⟩
      | proxy | service | notRunning | write =>
          obtain ⟨hwritten, hleaves⟩ := leaves_pair rfl h
          exact .inl ⟨hwritten, hleaves.after hworld⟩
    · obtain ⟨s, _, rfl⟩ := hanswer
      obtain ⟨heq, hdrift⟩ := runs_pure.mp h
      cases heq
      have hend := hafter.trans (beside_of_drift hdrift)
      have hwrote : Undisturbed x { x with system := s, saved := x.saved ++ [c.window.editorText] } :=
        undisturbed_of_same rfl rfl rfl
      have hlocked := undisturbed_locked hfree
        (htaken.toUndisturbed.trans (hwrote.trans hheld.toUndisturbed))
      refine .inr ⟨rfl, rfl, hbefore.toUndisturbed.trans (hlocked.trans hend.toUndisturbed), ?_⟩
      rw [hend.saved, hheld.saved, htaken.saved, hbefore.saved]
      rfl

theorem apply_survives (hs : Settled (editor c) w) (h : Runs (deskMachine shared ctx) c.apply w c' w') :
    Survives c w c' w' := by
  obtain ⟨⟨d, written⟩, w₁, hpersist, h⟩ := runs_bind.mp h
  rcases persist_run hpersist with ⟨rfl, hleaves⟩ | ⟨rfl, heditor, hworld, hsaved⟩
  · obtain ⟨rfl, hdrift⟩ := runs_pure.mp h
    exact Leaves.survives ⟨hleaves.1, hleaves.2.trans (beside_of_drift hdrift)⟩ hs
  · obtain ⟨f, w₂, hview, h⟩ := runs_bind.mp h
    have hd : Settled (editor d) w₁ := by
      rw [heditor]
      exact reload_settled (hs.undisturbed hworld)
    have hclean : (editor d).text = (editor d).loaded := by
      rw [heditor]
      rfl
    have hf : Settled (editor f) w₂ ∧ (editor f).text = (editor f).loaded ∧ w₂.saved = w₁.saved := by
      split at hview
      · exact setView_settled hview hd hclean
      · have hleaves : Leaves d w₁ f w₂ := leaves_pure rfl hview
        exact ⟨hleaves.settled hd, by rw [hleaves.1, hclean], hleaves.2.saved⟩
    obtain ⟨hsettled, hkept⟩ := job_settled h hf.1.toGuarded hf.2.1 fun _ => hf.1.noticed
    exact ⟨hsettled, fun _ => .inr (hkept.trans (hf.2.2.trans hsaved))⟩

theorem serviceAction_settled {action : ServiceAction}
    (h : Runs (deskMachine shared ctx) (c.serviceAction action) w c' w') (hs : Settled (editor c) w)
    (htext : (editor c).text = (editor c).loaded) : Settled (editor c') w' := by
  unfold Controller.serviceAction at h
  split at h
  · exact (leaves_pure rfl h).settled hs
  · exact (job_settled h hs.toGuarded htext fun _ => hs.noticed).1

theorem offers_view {window : Window} {action : ServiceAction} (h : window.offers action = true) :
    window.view = .services := by
  cases action <;>
  · rw [Window.offers, Bool.and_eq_true, Bool.and_eq_true] at h
    exact inServiceList_view h.1.1

/-- Every event but Cancel and typing leaves unsaved text in the editor, or saves it. -/
theorem react_survives {event : Desktop.Event} (hs : Settled (editor c) w)
    (h : Runs (deskMachine shared ctx) (react c event) w c' w') (hcancel : event ≠ .cancelEdit)
    (htyped : ∀ text, event ≠ .editorEdited text) : Survives c w c' w' := by
  cases event with
  | editorEdited text => exact absurd rfl (htyped text)
  | cancelEdit => exact absurd rfl hcancel
  | editConfig =>
      refine guarded_survives hs h fun hallowed hrun => ?_
      have htext := hs.clean (.inl (inServiceList_view (Bool.and_eq_true_iff.mp hallowed).1))
      exact survives_of_clean (setView_settled hrun hs htext).1 htext
  | apply => exact guarded_survives hs h fun _ hrun => apply_survives hs hrun
  | validate =>
      refine guarded_survives hs h fun _ hrun => ?_
      obtain ⟨⟨d, valid⟩, w₁, hvalidate, hrun⟩ := runs_bind.mp hrun
      obtain ⟨rfl, hdrift⟩ := runs_pure.mp hrun
      obtain ⟨hsame, hbeside⟩ := validate_leaves hvalidate
      exact Leaves.survives ⟨hsame, hbeside.trans (beside_of_drift hdrift)⟩ hs
  | serviceAction action =>
      refine guarded_survives hs h fun hallowed hrun => ?_
      have htext := hs.clean (.inl (offers_view hallowed))
      exact survives_of_clean (serviceAction_settled hrun hs htext) htext
  | serviceSelected index => exact guarded_survives hs h fun _ hrun => pure_survives hs hrun rfl
  | openServiceLogs index => exact guarded_survives hs h fun _ hrun => (openServiceLogs_leaves hrun).survives hs
  | tabSelected tab => exact pure_survives hs h rfl
  | tabChanged =>
      simp only [react] at h
      split at h
      · exact refreshLogs_survives hs h rfl
      · split at h
        · exact (reloadRoutes_leaves h).survives hs
        · exact pure_survives hs h rfl
  | logSelected index => exact guarded_survives hs h fun _ hrun => refreshLogs_survives hs hrun rfl
  | logLinesEdited lines => exact guarded_survives hs h fun _ hrun => refreshLogs_survives hs hrun rfl
  | followToggled checked =>
      refine guarded_survives hs h fun _ hrun => ?_
      split at hrun
      · exact refreshLogs_survives hs hrun rfl
      · exact pure_survives hs hrun rfl
  | refreshLogs => exact guarded_survives hs h fun _ hrun => refreshLogs_survives hs hrun rfl
  | reloadRoutes => exact guarded_survives hs h fun _ hrun => (reloadRoutes_leaves hrun).survives hs
  | refresh => exact guarded_survives hs h fun _ hrun => refresh_survives hs hrun
  | jobReceived => exact received_survives hs h
  | closeRequested =>
      refine pure_survives hs h ?_
      split
      · rfl
      · exact editor_quit c
  | quit => exact pure_survives hs h (editor_quit c)

theorem react_settled {event : Desktop.Event} (hs : Settled (editor c) w)
    (h : Runs (deskMachine shared ctx) (react c event) w c' w') : Settled (editor c') w' := by
  by_cases hcancel : event = .cancelEdit
  · subst hcancel
    rcases guarded_cases h with ⟨hallowed, hrun⟩ | hleaves
    · rw [Bool.and_eq_true, Bool.not_eq_true'] at hallowed
      exact cancelEdit_settled hrun hs (hs.shown.symm.trans hallowed.2)
    · exact hleaves.settled hs
  · by_cases htyped : ∃ text, event = .editorEdited text
    · obtain ⟨text, rfl⟩ := htyped
      exact (typed_settled hs h).1
    · exact (react_survives hs h hcancel fun text heq => htyped ⟨text, heq⟩).settled

theorem launch_settled {tray : Bool} {paths : Paths.ProjectPaths} {system : World}
    (h : Runs (deskMachine shared ctx) (newController.launch tray) (openedWorld ctx paths system) c w) :
    Settled (editor c) w := by
  obtain ⟨r, w₁, hasked, h⟩ := runs_bind.mp h
  obtain ⟨hbeside, _⟩ := consult hasked (consulting_ask .hasConfig trivial)
  have hopened : Guarded (editor newController) w₁ :=
    ⟨hbeside.orderly ⟨exclusive_of_not_holding nofun nofun, nofun⟩, rfl, fun _ => (hbeside.idle rfl).1,
      ⟨nofun, fun hne => absurd rfl hne⟩, fun _ => rfl⟩
  split at h
  · refine (job_settled h hopened rfl fun hrefused => ?_).1
    rcases hrefused with hquitting | hbusy
    · cases hquitting
    · cases hbusy
  · obtain ⟨d, w₂, hroutes, h⟩ := runs_bind.mp h
    obtain ⟨heditor, hafter⟩ := reloadRoutes_leaves hroutes
    have hd : Guarded (editor d) w₂ := by
      rw [heditor]
      exact hopened.undisturbed hafter.toUndisturbed
    have hidle : (editor d).busy = false := by
      rw [heditor]
      rfl
    have hclean : (editor d).text = (editor d).loaded := by
      rw [heditor]
      rfl
    have hrun := refresh_run h
    exact ⟨(hrun.refreshed.guarded hrun.beside.toUndisturbed hd hclean).1,
      fun _ => hrun.seen hd.orderly (hd.idle hidle)⟩

theorem reached_settled {paths : Paths.ProjectPaths} (h : Reached shared ctx paths c w) :
    Settled (editor c) w := by
  obtain ⟨tray, system, c₁, w₁, trace, hlaunch, hsession⟩ := h
  refine hsession.invariant (fun _ c w => Settled (editor c) w) (fun v hdrift => ?_)
    fun _ d v event d' _ v' hd hrun => ?_
  · exact (launch_settled hlaunch).undisturbed (beside_of_drift hdrift).toUndisturbed
  · obtain ⟨f, x, hreact, hrun⟩ := runs_bind.mp hrun
    obtain ⟨heq, hdrift⟩ := runs_pure.mp hrun
    cases heq
    exact (react_settled hd hreact).undisturbed (beside_of_drift hdrift).toUndisturbed

/-- The text stays unsaved in the editor, unless it is typed over. -/
structure Retained (event : Desktop.Event) (c c' : Controller) : Prop where
  loaded : c'.state.loadedConfig = c.state.loadedConfig
  view : c'.window.view = .edit
  text : c'.window.editorText = c.window.editorText ∨ event = .editorEdited c'.window.editorText

theorem unsaved_view (hs : Settled (editor c) w) (hne : (editor c).text ≠ (editor c).loaded) :
    c.window.view = .edit := by
  cases hview : c.window.view with
  | services => exact absurd (hs.clean (.inl hview)) hne
  | edit => rfl

/-- In every state that the window reaches, the marker shows whether the text differs
from what was loaded or saved last, and text that does is only ever given up by Cancel:
any other event leaves it in the editor, or has saved it. -/
theorem unsaved_edits_survive {paths : Paths.ProjectPaths} (h : Reached shared ctx paths c w) :
    (c.window.dirty = true ↔ c.window.editorText ≠ c.state.loadedConfig) ∧
      ∀ (event : Desktop.Event) (c' : Controller) (w' : DeskWorld ctx),
        Runs (deskMachine shared ctx) (react c event) w c' w' →
        c.window.editorText ≠ c.state.loadedConfig → event ≠ .cancelEdit →
        Retained event c c' ∨ w'.saved = w.saved ++ [c.window.editorText] := by
  have hs := reached_settled h
  refine ⟨hs.dirty, fun event c' w' hrun hne hcancel => ?_⟩
  have hview := unsaved_view hs hne
  by_cases htyped : ∃ text, event = .editorEdited text
  · obtain ⟨text, rfl⟩ := htyped
    obtain ⟨_, hloaded, hsame, htext⟩ := typed_settled hs hrun
    refine .inl ⟨hloaded, hsame.trans hview, htext.imp_right fun htext => ?_⟩
    exact congrArg Event.editorEdited htext.symm
  · rcases (react_survives hs hrun hcancel fun text heq => htyped ⟨text, heq⟩).unsaved hne with hstays | hsaved
    · exact .inl ⟨hstays.loaded, hstays.view.trans hview, .inl hstays.text⟩
    · exact .inr hsaved

def consulted (shared : Bool) (fails : Call → Bool) (w : DeskWorld ctx) (p : Io α) : α × DeskWorld ctx :=
  let r := (Steady.driver shared fails).run p w.system
  (r.1, { w with system := r.2 })

theorem consulted_sound (fails : Call → Bool) (w : DeskWorld ctx) (p : Io α) :
    Consults shared ctx p w (consulted shared fails w p).1 (consulted shared fails w p).2 :=
  ⟨_, ((Steady.driver shared fails).runs p trivial).1, rfl⟩

def deskAnswer (shared : Bool) (ctx : Context) (fails : Call → Bool) :
    (c : DeskCall) → DeskWorld ctx → DeskAns c × DeskWorld ctx
  | .tryLock, w => if w.owner = .free then (true, { w with owner := .window }) else (false, w)
  | .unlock, w => ((), { w with owner := .free })
  | .isRunning, w => (w.manager.isRunning, w)
  | .services, w => (w.manager.snapshots, w)
  | .logNames, w => (w.manager.logNames, w)
  | .hasConfig, w => consulted shared fails w w.manager.hasConfig
  | .routes, w => consulted shared fails w (w.manager.routes ctx)
  | .readConfig, w => consulted shared fails w w.manager.readConfig
  | .validateConfig text, w => (w.manager.validateConfig ctx text, w)
  | .saveConfig text, w =>
      let saved := consulted shared fails w (w.manager.saveConfig ctx text)
      (saved.1, if saved.1.isOk then { saved.2 with saved := w.saved ++ [text] } else saved.2)
  | .tailLog name lines, w => (w.manager.tailLog (fun _ => none) name lines, w)
  | .spawnThread work, w => (.ok (), { w with job := some ⟨.waiting work, false⟩ })
  | .spawnLocal, w => (true, { w with job := w.job.map fun job => { job with awaited := true } })
  | .received, w => (none, w)

theorem deskAnswer_sound (fails : Call → Bool) (call : DeskCall) (w : DeskWorld ctx) :
    deskAnswers shared ctx call w (deskAnswer shared ctx fails call w).1
      (deskAnswer shared ctx fails call w).2 := by
  cases call with
  | tryLock =>
      simp only [deskAnswer]
      split
      · rename_i hfree
        exact ⟨hfree, rfl⟩
      · rename_i hheld
        exact ⟨hheld, rfl⟩
  | hasConfig | routes | readConfig => exact consulted_sound fails w _
  | saveConfig text =>
      have hsound : Consults shared ctx (w.manager.saveConfig ctx text) w
          (consulted shared fails w (w.manager.saveConfig ctx text)).1
          (consulted shared fails w (w.manager.saveConfig ctx text)).2 := consulted_sound fails w _
      simp only [deskAnswer]
      revert hsound
      generalize consulted shared fails w (w.manager.saveConfig ctx text) = saved
      obtain ⟨r, v⟩ := saved
      rintro ⟨s, hrun, rfl⟩
      cases r with
      | error err => exact ⟨s, hrun, rfl⟩
      | ok => exact ⟨s, hrun, rfl⟩
  | isRunning | services | logNames | validateConfig => exact ⟨rfl, rfl⟩
  | tailLog name lines => exact ⟨⟨_, rfl⟩, rfl⟩
  | spawnThread work => exact fun _ => rfl
  | unlock | spawnLocal | received => exact rfl

def deskDriver (shared : Bool) (ctx : Context) (fails : Call → Bool) : Driver (deskMachine shared ctx) where
  inside := fun _ => True
  answer := deskAnswer shared ctx fails
  sound := fun call w _ => deskAnswer_sound fails call w
  stays := fun _ _ _ => trivial

end

def quietDesk : Driver (deskMachine false Lifecycle.externalContext) :=
  deskDriver false Lifecycle.externalContext fun _ => false

def launched : Controller × DeskWorld Lifecycle.externalContext :=
  quietDesk.run (newController.launch true) (openedWorld Lifecycle.externalContext Paths.profile emptyWorld)

def typed : (Controller × Unit) × DeskWorld Lifecycle.externalContext :=
  quietDesk.run (handle (.editorEdited "bind = []") launched.1) launched.2

def refreshed : Controller × DeskWorld Lifecycle.externalContext :=
  quietDesk.run (react typed.1.1 .refresh) typed.2

theorem typed_reached : Reached false Lifecycle.externalContext Paths.profile typed.1.1 typed.2 :=
  ⟨true, emptyWorld, launched.1, launched.2, _, (quietDesk.runs _ trivial).1,
    .single (quietDesk.runs _ trivial).1⟩

theorem unsaved_edits_survive_refreshed : typed.1.1.window.dirty = true ∧
    (Retained .refresh typed.1.1 refreshed.1 ∨
      refreshed.2.saved = typed.2.saved ++ [typed.1.1.window.editorText]) := by
  obtain ⟨hdirty, hkept⟩ := unsaved_edits_survive typed_reached
  have hne : typed.1.1.window.editorText ≠ typed.1.1.state.loadedConfig := by decide
  exact ⟨hdirty.mpr hne, hkept .refresh _ _ (quietDesk.runs _ trivial).1 hne nofun⟩

end LocalDevProxy.UnsavedEdits
