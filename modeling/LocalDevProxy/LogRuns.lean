import LocalDevProxy.LogView

namespace LocalDevProxy.LogRuns

open Lib.Interaction Toml Config Routes Os Process ManagerCore Desktop UnsavedEdits LogView

/-- What a refresh is told leaves the log shown that is named: one that reads does so where the
selection is on, and one that does not leaves the selection on its service. -/
def MeetsRefresh (l : Logs) (running : List Bool) (told : List (List String)) : Prop :=
  ∀ names rest, told = names :: rest →
    if running = [true] ∧ l.follow = true ∧ rest ≠ [] then ∀ again ∈ rest, Agrees (l.showNames names) again
    else StaysOn l names

/-- The log of the service that is opened is read where the selection is moved to, or else it
is the one shown before. -/
def MeetsOpening (l : Logs) (index : Int) (told : List (List String)) : Prop :=
  ∀ name names rest, opened l index = some name → told = names :: rest → name ∈ names →
    if rest = [] then l.displayed = some name ∧ names.idxOf name ≤ 2147483647
    else ∀ again ∈ rest, Agrees (l.select names name) again

/-- When an event leaves the log shown that is named, by the setting of Follow, the names
before it and the replies of the manager. -/
def Meets (l : Logs) (answers : Record) : Desktop.Event → Prop
  | .logSelected index =>
      (∀ names ∈ reports answers, Agrees { l with index } names) ∧
        (¬ Available answers → nameAt l.shown index = l.displayed)
  | .tabChanged | .logLinesEdited _ | .followToggled _ | .refreshLogs => ∀ names ∈ reports answers, Agrees l names
  | .openServiceLogs index => MeetsOpening l index (reports answers)
  | _ => MeetsRefresh l (answers.filterMap runningTold) (reports answers)

/-- The log is read in an event: the names are told once, or for a refresh and where a
service is opened twice. -/
def Reads (told : List (List String)) : Desktop.Event → Prop
  | .logSelected _ | .tabChanged | .logLinesEdited _ | .followToggled _ | .refreshLogs => told ≠ []
  | _ => 2 ≤ told.length

section

variable {shared : Bool} {ctx : Context} {paths : Paths.ProjectPaths} {u v w w' : DeskWorld ctx × Record}
variable {c c' d : Controller}

/-- What the log view depends on is left as it is, and nothing is told about it. -/
def Rests (c : Controller) (w : DeskWorld ctx × Record) (c' : Controller) (w' : DeskWorld ctx × Record) : Prop :=
  logs c' = logs c ∧ ∃ added, w'.2 = w.2 ++ added ∧ Silent added

theorem Rests.trans (h : Rests c w d u) (h' : Rests d u c' w') : Rests c w c' w' := by
  obtain ⟨hlogs, added, hadded, hsilent⟩ := h
  obtain ⟨hlogs', added', hadded', hsilent'⟩ := h'
  exact ⟨hlogs'.trans hlogs, added ++ added', by rw [hadded', hadded, List.append_assoc], hsilent.append hsilent'⟩

theorem rests_of_runs {α : Type} {p : Desk α} {f : α → Controller} {a : α}
    (h : Runs (deskMachine shared ctx).recorded p w a w') (haside : p.Only Aside)
    (hlogs : p.Yields fun a => logs (f a) = logs c) : Rests c w (f a) w' := by
  obtain ⟨added, hadded, hall⟩ := h.extends haside
  exact ⟨h.yields hlogs, added, hadded, silent_of_aside hall⟩

theorem rests_pure (h : Runs (deskMachine shared ctx).recorded (Pure.pure d) w c' w') (hlogs : logs d = logs c) :
    Rests c w c' w' :=
  rests_of_runs (f := id) h trivial hlogs

theorem rests_same (h : logs d = logs c) : Rests c w d w :=
  ⟨h, [], (List.append_nil w.2).symm, ⟨rfl, rfl, rfl, rfl⟩⟩

theorem setView_rests {view : ServiceView} (h : Runs (deskMachine shared ctx).recorded (c.setView view) w c' w') :
    Rests c w c' w' :=
  rests_of_runs (f := id) h (setView_aside c view) (setView_logs c view)

theorem reloadRoutes_rests (h : Runs (deskMachine shared ctx).recorded c.reloadRoutes w c' w') :
    Rests c w c' w' :=
  rests_of_runs (f := id) h (reloadRoutes_aside c) (reloadRoutes_logs c)

/-- The log view is left alone, or it is until a refresh. -/
inductive Ends (shared : Bool) (c : Controller) (w : DeskWorld ctx × Record) (c' : Controller)
    (w' : DeskWorld ctx × Record) : Prop
  | rests : Rests c w c' w' → Ends shared c w c' w'
  | refreshes (d : Controller) (u : DeskWorld ctx × Record) : Rests c w d u → Orderly u.1 →
      Runs (deskMachine shared ctx).recorded d.refresh u c' w' → Ends shared c w c' w'

theorem Ends.after (h : Rests c w d u) (hends : Ends shared d u c' w') : Ends shared c w c' w' := by
  cases hends with
  | rests hrests => exact .rests (h.trans hrests)
  | refreshes e v hrests horderly hrun => exact .refreshes e v (h.trans hrests) horderly hrun

theorem finishJob_ends {outcome : JobOutcome} (hw : Orderly w.1)
    (h : Runs (deskMachine shared ctx).recorded (c.finishJob outcome) w c' w') : Ends shared c w c' w' := by
  obtain ⟨d, u, hroutes, h⟩ := runs_bind.mp h
  obtain ⟨_, hbeside⟩ := reloadRoutes_leaves hroutes.forget
  refine .refreshes d u ?_ (hbeside.orderly hw) h
  obtain ⟨hlogs, hsilent⟩ := reloadRoutes_rests hroutes
  refine ⟨hlogs.trans ?_, hsilent⟩
  cases outcome <;> rfl

theorem job_ends {pending : String} {work : Work} (hw : Orderly w.1)
    (h : Runs (deskMachine shared ctx).recorded (c.job pending work) w c' w') : Ends shared c w c' w' := by
  unfold Controller.job at h
  split at h
  · exact .rests (rests_pure h rfl)
  · obtain ⟨spawned, u, hspawn, h⟩ := runs_bind.mp h
    obtain ⟨x, y, hbefore, ⟨hanswer, hadded⟩, hafter⟩ := runs_perform.mp hspawn
    have hspawned : u.2 = w.2 ++ [⟨.spawnThread work, spawned⟩] := by
      rw [hafter.2, hadded, hbefore.2]
    have hrests (e : Controller) (he : logs e = logs c) : Rests c w e u :=
      ⟨he, _, hspawned, silent_of_aside fun e he => by rw [List.mem_singleton.mp he]; trivial⟩
    cases spawned with
    | error err =>
        have hx := (beside_of_drift hbefore.1).orderly hw
        have hy : y.1 = x.1 := hanswer
        have hu : Orderly u.1 := (beside_of_drift hafter.1).orderly (hy ▸ hx)
        refine .after ?_ (finishJob_ends hu h)
        exact hrests _ rfl
    | ok _ =>
        obtain ⟨waits, v, hwait, h⟩ := runs_bind.mp h
        obtain ⟨added, hwaited, hall⟩ := hwait.extends (P := Aside) (Prog.only_perform trivial)
        refine .rests ((hrests c rfl).trans (Rests.trans (d := c) (u := v) ?_ (rests_pure h rfl)))
        exact ⟨rfl, added, hwaited, silent_of_aside hall⟩

theorem serviceAction_ends {action : ServiceAction} (hw : Orderly w.1)
    (h : Runs (deskMachine shared ctx).recorded (c.serviceAction action) w c' w') : Ends shared c w c' w' := by
  unfold Controller.serviceAction at h
  split at h
  · exact .rests (rests_pure h rfl)
  · refine .after ?_ (job_ends hw h)
    exact rests_same rfl

theorem apply_ends (hs : Orderly w.1) (h : Runs (deskMachine shared ctx).recorded c.apply w c' w') :
    Ends shared c w c' w' := by
  obtain ⟨⟨d, written⟩, u, hpersist, h⟩ := runs_bind.mp h
  have hd : Rests c w d u := rests_of_runs (f := Prod.fst) hpersist (persist_aside c) (persist_logs c)
  refine .after hd ?_
  cases written with
  | false => exact .rests (rests_pure h rfl)
  | true =>
      have hu : Orderly u.1 := by
        rcases persist_run hpersist.forget with ⟨hno, _⟩ | ⟨_, _, hworld, _⟩
        · cases hno
        · exact hworld.orderly hs
      obtain ⟨e, v, hview, h⟩ := runs_bind.mp h
      have he : Rests d u e v ∧ Orderly v.1 := by
        split at hview
        · exact ⟨setView_rests hview, (setView_run hview.forget).1.orderly hu⟩
        · exact ⟨rests_pure hview rfl, (beside_of_drift (runs_pure.mp hview.forget).2).orderly hu⟩
      exact .after he.1 (job_ends he.2 h)

/-- Once an outcome has been received, no worker is about. -/
theorem received_orderly {x : DeskWorld ctx} {outcome : Option JobOutcome} (hx : Orderly x)
    (hjob : x.job = some ⟨.finished outcome, true⟩) : Orderly { x with job := none } := by
  refine ⟨exclusive_of_not_holding (fun howner => ?_) nofun, hx.released⟩
  obtain ⟨work, awaited, hholding⟩ := hx.exclusive.mp howner
  rw [hjob] at hholding
  cases hholding

theorem received_ends (hw : Orderly w.1)
    (h : Runs (deskMachine shared ctx).recorded (react c .jobReceived) w c' w') : Ends shared c w c' w' := by
  obtain ⟨answer, u, hasked, h⟩ := runs_bind.mp h
  obtain ⟨x, y, hbefore, ⟨hanswer, hadded⟩, hafter⟩ := runs_perform.mp hasked
  have hx := (beside_of_drift hbefore.1).orderly hw
  have hrests : Rests c w c u := by
    refine ⟨rfl, [⟨.received, answer⟩], ?_, ⟨rfl, rfl, rfl, rfl⟩⟩
    rw [hafter.2, hadded, hbefore.2]
  refine .after hrests ?_
  cases answer with
  | none => exact .rests (rests_pure h rfl)
  | some outcome =>
      obtain ⟨hjob, hy⟩ := hanswer
      have hreceived : Orderly y.1 := hy ▸ received_orderly hx hjob
      exact finishJob_ends ((beside_of_drift hafter.1).orderly hreceived) h

theorem launch_ends {tray : Bool} (hw : Orderly w.1)
    (h : Runs (deskMachine shared ctx).recorded (newController.launch tray) w c' w') :
    Ends shared newController w c' w' := by
  obtain ⟨stored, u, hasked, h⟩ := runs_bind.mp h
  obtain ⟨added, hadded, hall⟩ := hasked.extends (withManager_aside (Prog.only_perform trivial))
  have hu := (consult hasked.forget (consulting_ask .hasConfig trivial)).1.orderly hw
  have hrests (e : Controller) (he : logs e = logs newController) : Rests newController w e u :=
    ⟨he, added, hadded, silent_of_aside hall⟩
  split at h
  · refine .after ?_ (job_ends hu h)
    exact hrests _ rfl
  · obtain ⟨d, v, hroutes, h⟩ := runs_bind.mp h
    obtain ⟨_, hbeside⟩ := reloadRoutes_leaves hroutes.forget
    refine .refreshes d v (Rests.trans ?_ (reloadRoutes_rests hroutes)) (hbeside.orderly hu) h
    exact hrests _ rfl

end

section

variable {shared : Bool} {ctx : Context} {paths : Paths.ProjectPaths} {w w' : DeskWorld ctx} {past answers : Record}
variable {c c' d : Controller} {event : Desktop.Event}

theorem Rests.labelled (h : Rests c (w, past) c' (w', past ++ answers)) (hlabelled : Labelled (logs c) (reading past)) :
    Labelled (logs c') (reading (past ++ answers)) := by
  obtain ⟨hlogs, added, hadded, hsilent⟩ := h
  obtain rfl : answers = added := List.append_cancel_left hadded
  rw [hlogs, reading_quiet hsilent.read]
  exact hlabelled

theorem Rests.unread (h : Rests c (w, past) c' (w', past ++ answers)) : ¬ Reads (reports answers) event := by
  obtain ⟨_, added, hadded, hsilent⟩ := h
  obtain rfl : answers = added := List.append_cancel_left hadded
  rw [hsilent.names]
  cases event with
  | logSelected | tabChanged | logLinesEdited | followToggled | refreshLogs => exact fun hreads => hreads rfl
  | _ => exact Nat.not_succ_le_zero 1

theorem refreshLogs_labelled (hmirrors : Mirrors c) (hw : Orderly w)
    (h : Runs (deskMachine shared ctx).recorded c.refreshLogs (w, past) c' (w', past ++ answers))
    (hagrees : ∀ names ∈ reports answers, Agrees (logs c) names)
    (hbefore : answers = refused → Labelled (logs c) (reading past)) :
    Labelled (logs c') (reading (past ++ answers)) := by
  obtain ⟨added, hadded, _, _, hrest⟩ := refreshLogs_recorded hw h
  obtain rfl : answers = added := List.append_cancel_left hadded
  rcases hrest with ⟨rfl, hc'⟩ | ⟨names, body, hnames, hc', hread⟩
  · rw [hc', reading_quiet rfl]
    exact hbefore rfl
  · rw [hc', labelled_read hmirrors hread]
    exact hagrees names (hnames ▸ List.mem_singleton_self names)

/-- Where the names are told once only, no log was read. -/
theorem labelled_before {l : Logs} {names : List String} {read : Option Reading} (htold : reports answers = [names])
    (h : Labelled l read ∨ 2 ≤ (reports answers).length) : Labelled l read := by
  rw [htold] at h
  exact h.resolve_right (Nat.not_succ_le_self 1)

/-- What a refresh needs for the text it shows: the log is read, or was before. -/
theorem refresh_labelled (hmirrors : Mirrors c) (hw : Orderly w)
    (h : Runs (deskMachine shared ctx).recorded c.refresh (w, past) c' (w', past ++ answers))
    (hmeets : MeetsRefresh (logs c) (answers.filterMap runningTold) (reports answers))
    (hbefore : Labelled (logs c) (reading past) ∨ 2 ≤ (reports answers).length) :
    Labelled (logs c') (reading (past ++ answers)) := by
  rcases refresh_recorded hw h with ⟨hadded, hc'⟩ |
    ⟨running, services, names, told, d, y, htold, hy, horderly, hd, hrest⟩
  · obtain rfl : answers = refused := List.append_cancel_left hadded
    rw [hc', reading_quiet rfl]
    exact hbefore.resolve_right (by decide)
  · rw [showNames_showServices] at hd
    have hdmirrors : Mirrors d := by
      rw [Mirrors, hd]
      exact mirrors_showNames hmirrors names
    have hkept {read : Option Reading} (hlabelled : Labelled (logs c) read) (hstays : StaysOn (logs c) names) :
        Labelled (logs d) read := by
      rw [hd]
      exact labelled_rest hmirrors hlabelled hstays
    by_cases hreads : running = true ∧ (logs c).follow = true
    · rw [if_pos hreads] at hrest
      obtain ⟨added, rfl, hrunning, _, hread⟩ := refreshLogs_added horderly hy hrest
      have hreported : reports (told ++ added) = names :: reports added := by
        rw [reports_append, htold.names]
        rfl
      have hdone := hmeets names (reports added) hreported
      rw [List.filterMap_append, htold.running, hrunning, List.append_nil, hreads.1] at hdone
      rcases hread with ⟨rfl, hc'⟩ | ⟨again, body, hagain, hc', hread⟩
      · rw [if_neg fun hall => hall.2.2 rfl] at hdone
        rw [hc', ← List.append_assoc, reading_quiet rfl, reading_quiet htold.read]
        exact hkept (labelled_before hreported hbefore) hdone
      · rw [if_pos ⟨rfl, hreads.2, hagain ▸ List.cons_ne_nil again []⟩] at hdone
        rw [hc', labelled_read hdmirrors hread, hd]
        exact hdone again (hagain ▸ List.mem_singleton_self again)
    · rw [if_neg hreads] at hrest
      obtain ⟨rfl, hend⟩ := hrest
      obtain rfl := List.append_cancel_left (hend.trans hy)
      have hdone := hmeets names [] htold.names
      rw [if_neg fun hall => hall.2.2 rfl] at hdone
      rw [reading_quiet htold.read]
      exact hkept (labelled_before htold.names hbefore) hdone

theorem openServiceLogs_labelled {index : Int} (hmirrors : Mirrors c) (hw : Orderly w)
    (h : Runs (deskMachine shared ctx).recorded (c.openServiceLogs index) (w, past) c' (w', past ++ answers))
    (hmeets : MeetsOpening (logs c) index (reports answers))
    (hbefore : Labelled (logs c) (reading past) ∨ 2 ≤ (reports answers).length) :
    Labelled (logs c') (reading (past ++ answers)) := by
  rcases openServiceLogs_recorded hw h with
    ⟨hc', ⟨_, hadded⟩ | hadded | ⟨name, names, _, _, hadded⟩⟩ |
    ⟨name, names, d, y, hopened, hlisted, hy, horderly, hd, hread⟩
  · obtain rfl : answers = [] := List.append_cancel_left (hadded.trans (List.append_nil past).symm)
    rw [hc', List.append_nil]
    exact hbefore.resolve_right (by decide)
  · obtain rfl := List.append_cancel_left hadded
    rw [hc', reading_quiet rfl]
    exact hbefore.resolve_right (by decide)
  · obtain rfl := List.append_cancel_left hadded
    rw [hc', reading_quiet rfl]
    exact labelled_before rfl hbefore
  · have hdmirrors : Mirrors d := by
      rw [Mirrors, hd]
      exact mirrors_showNames hmirrors names
    obtain ⟨added, rfl, _, _, hread⟩ := refreshLogs_added horderly hy hread
    have hreported : reports (asked names ++ added) = names :: reports added := by
      rw [reports_append]
      rfl
    have hdone := hmeets name names (reports added) hopened hreported hlisted
    rcases hread with ⟨rfl, hc'⟩ | ⟨again, body, hagain, hc', hread⟩
    · rw [if_pos silent_refused.names] at hdone
      obtain ⟨hname, hfits⟩ := hdone
      rw [hc', ← List.append_assoc, reading_quiet rfl, reading_quiet rfl, hd]
      rcases labelled_before hreported hbefore with ⟨hnone, _⟩ | ⟨other, hother, hreading⟩
      · exact absurd hnone (displayed_ne_nil hname)
      · obtain rfl : name = other := Option.some.inj (hname.symm.trans hother)
        refine .inr ⟨name, ?_, ?_⟩
        · have hindex : ((logs c).select names name).index = toIndex (some (names.idxOf name)) :=
            congrArg toIndex (findIdx?_name hlisted)
          have hshown : ((logs c).select names name).shown = names := shown_showNames hmirrors names
          rw [Logs.displayed, hshown, hindex, nameAt_toIndex, if_pos hfits, List.getElem?_idxOf hlisted]
        · rw [hreading]
          exact congrArg (fun text => some (Reading.mk name text)) (text_showNames (logs c) names).symm
    · rw [if_neg (hagain ▸ List.cons_ne_nil again [])] at hdone
      rw [hc', labelled_read hdmirrors hread, hd]
      exact hdone again (hagain ▸ List.mem_singleton_self again)

theorem Ends.labelled (hmirrors : Mirrors c) (h : Ends shared c (w, past) c' (w', past ++ answers))
    (hmeets : MeetsRefresh (logs c) (answers.filterMap runningTold) (reports answers))
    (hbefore : Labelled (logs c) (reading past) ∨ 2 ≤ (reports answers).length) :
    Labelled (logs c') (reading (past ++ answers)) := by
  cases h with
  | rests hrests =>
      have hunread : ¬ Reads (reports answers) .refresh := hrests.unread
      exact hrests.labelled (hbefore.resolve_right hunread)
  | refreshes d u hrests horderly hrun =>
      obtain ⟨hlogs, aside, haside, hsilent⟩ := hrests
      obtain ⟨added, hadded, _⟩ := hrun.extends (Prog.only_of_forall (P := fun _ => True) (fun _ => trivial) _)
      rw [haside, List.append_assoc] at hadded
      obtain rfl := List.append_cancel_left hadded
      obtain ⟨u, record⟩ := u
      obtain rfl : record = past ++ aside := haside
      rw [← List.append_assoc] at hrun ⊢
      rw [List.filterMap_append, hsilent.running, List.nil_append, reports_append, hsilent.names, List.nil_append,
        ← hlogs] at hmeets
      have hread : reading (past ++ aside) = reading past := reading_quiet hsilent.read
      rw [reports_append, hsilent.names, List.nil_append, ← hlogs, ← hread] at hbefore
      exact refresh_labelled (hmirrors.of_logs hlogs) horderly hrun hmeets hbefore

theorem guarded_rests {allowed : Bool} {action : Desk Controller}
    (h : Runs (deskMachine shared ctx).recorded (guarded allowed c action) (w, past) c' (w', past ++ answers)) :
    Runs (deskMachine shared ctx).recorded action (w, past) c' (w', past ++ answers) ∨
      Rests c (w, past) c' (w', past ++ answers) := by
  unfold guarded at h
  split at h
  · exact .inl h
  · exact .inr (rests_pure h rfl)

end

section

variable {shared : Bool} {ctx : Context} {paths : Paths.ProjectPaths} {w w' : DeskWorld ctx} {past answers : Record}
variable {c c' d : Controller} {event : Desktop.Event}

/-- One event keeps the text under the name of its log, where it meets the condition. -/
theorem react_labelled (hmirrors : Mirrors c) (hw : Orderly w)
    (h : Runs (deskMachine shared ctx).recorded (react c event) (w, past) c' (w', past ++ answers))
    (hmeets : Meets (logs c) answers event)
    (hbefore : Labelled (logs c) (reading past) ∨ Reads (reports answers) event) :
    Labelled (logs c') (reading (past ++ answers)) := by
  have hrested (hrests : Rests c (w, past) c' (w', past ++ answers)) :
      Labelled (logs c') (reading (past ++ answers)) :=
    hrests.labelled (hbefore.resolve_right hrests.unread)
  have hunread {answers : Record} (hrefused : answers = refused)
      (hbefore : Labelled (logs c) (reading past) ∨ reports answers ≠ []) : Labelled (logs c) (reading past) := by
    rw [hrefused] at hbefore
    exact hbefore.resolve_right fun hne => hne rfl
  cases event with
  | editorEdited text =>
      exact hrested ((guarded_rests h).elim (fun hrun => rests_pure hrun rfl) id)
  | editConfig => exact hrested ((guarded_rests h).elim setView_rests id)
  | cancelEdit =>
      rcases guarded_rests h with hrun | hrests
      · obtain ⟨⟨d, loaded⟩, u, hload, hrun⟩ := runs_bind.mp hrun
        have hd : Rests c (w, past) d u := by
          refine rests_of_runs (f := Prod.fst) hload (loadConfig_aside _) ((loadConfig_logs _).mono fun r hr => ?_)
          refine hr.trans ?_
          split <;> rfl
        exact hrested (hd.trans (setView_rests hrun))
      · exact hrested hrests
  | apply =>
      rcases guarded_rests h with hrun | hrests
      · exact (apply_ends hw hrun).labelled hmirrors hmeets hbefore
      · exact hrested hrests
  | validate =>
      rcases guarded_rests h with hrun | hrests
      · obtain ⟨⟨d, valid⟩, u, hvalidate, hrun⟩ := runs_bind.mp hrun
        have hd : Rests c (w, past) d u := rests_of_runs (f := Prod.fst) hvalidate (validate_aside c) (validate_logs c)
        exact hrested (hd.trans (rests_pure hrun rfl))
      · exact hrested hrests
  | serviceAction action =>
      rcases guarded_rests h with hrun | hrests
      · exact (serviceAction_ends hw hrun).labelled hmirrors hmeets hbefore
      · exact hrested hrests
  | serviceSelected index =>
      rcases guarded_rests h with hrun | hrests
      · obtain ⟨rfl, hd⟩ := runs_pure.mp hrun
        obtain rfl : answers = [] := List.append_cancel_left (hd.2.trans (List.append_nil past).symm)
        rw [List.append_nil]
        exact hbefore.resolve_right (Nat.not_succ_le_zero 1)
      · exact hrested hrests
  | openServiceLogs index =>
      rcases guarded_rests h with hrun | hrests
      · exact openServiceLogs_labelled hmirrors hw hrun hmeets hbefore
      · exact hrested hrests
  | tabSelected tab => exact hrested (rests_pure h rfl)
  | tabChanged =>
      simp only [react] at h
      split at h
      · exact refreshLogs_labelled hmirrors hw h hmeets fun hrefused => hunread hrefused hbefore
      · split at h
        · exact hrested (reloadRoutes_rests h)
        · exact hrested (rests_pure h rfl)
  | logSelected index =>
      rcases guarded_rests h with hrun | hrests
      · refine refreshLogs_labelled ?_ hw hrun hmeets.1 fun hrefused => ?_
        · exact hmirrors
        · have hplace : nameAt (logs c).shown index = (logs c).displayed :=
            hmeets.2 (hrefused ▸ not_available_refused)
          rcases hunread hrefused hbefore with hnone | ⟨name, hname, hread⟩
          · exact .inl hnone
          · exact .inr ⟨name, hplace.trans hname, hread⟩
      · exact hrested hrests
  | logLinesEdited lines =>
      rcases guarded_rests h with hrun | hrests
      · refine refreshLogs_labelled ?_ hw hrun hmeets fun hrefused => hunread hrefused hbefore
        exact hmirrors
      · exact hrested hrests
  | followToggled checked =>
      rcases guarded_rests h with hrun | hrests
      · split at hrun
        · refine refreshLogs_labelled ?_ hw hrun hmeets fun hrefused => hunread hrefused hbefore
          exact hmirrors
        · obtain ⟨rfl, hd⟩ := runs_pure.mp hrun
          obtain rfl : answers = [] := List.append_cancel_left (hd.2.trans (List.append_nil past).symm)
          rw [List.append_nil]
          exact hbefore.resolve_right fun hreads => hreads rfl
      · exact hrested hrests
  | refreshLogs =>
      rcases guarded_rests h with hrun | hrests
      · exact refreshLogs_labelled hmirrors hw hrun hmeets fun hrefused => hunread hrefused hbefore
      · exact hrested hrests
  | reloadRoutes => exact hrested ((guarded_rests h).elim reloadRoutes_rests id)
  | refresh =>
      rcases guarded_rests h with hrun | hrests
      · exact refresh_labelled hmirrors hw hrun hmeets hbefore
      · exact hrested hrests
  | jobReceived => exact (received_ends hw h).labelled hmirrors hmeets hbefore
  | closeRequested =>
      refine hrested (rests_pure h ?_)
      split
      · rfl
      · exact quit_logs c
  | quit => exact hrested (rests_pure h (quit_logs c))

theorem reached_react (h : Reached shared ctx paths c w)
    (hrun : Runs (deskMachine shared ctx).recorded (react c event) (w, past) c' (w', past ++ answers)) :
    Reached shared ctx paths c' w' := by
  obtain ⟨tray, system, c₁, w₁, trace, hlaunch, hsession⟩ := h
  refine ⟨tray, system, c₁, w₁, _, hlaunch, hsession.step (l := event) (r := ()) ?_⟩
  exact runs_bind.mpr ⟨c', w', hrun.forget, runs_pure.mpr ⟨rfl, .refl⟩⟩

/-- A run of the window, from its launch or from an event in which the log was read in any
state reached, whose events all meet the condition. -/
inductive Watched (shared : Bool) (ctx : Context) (paths : Paths.ProjectPaths) :
    Controller → DeskWorld ctx → Record → Prop
  | launched {tray : Bool} {system : World} {c : Controller} {w : DeskWorld ctx} {record : Record} :
      Runs (deskMachine shared ctx).recorded (newController.launch tray) (openedWorld ctx paths system, []) c
        (w, record) →
      MeetsRefresh (logs newController) (record.filterMap runningTold) (reports record) →
      Watched shared ctx paths c w record
  | read {c c' : Controller} {w w' : DeskWorld ctx} {past answers : Record} {event : Desktop.Event} :
      Reached shared ctx paths c w →
      Runs (deskMachine shared ctx).recorded (react c event) (w, past) c' (w', past ++ answers) →
      Reads (reports answers) event → Meets (logs c) answers event →
      Watched shared ctx paths c' w' (past ++ answers)
  | handled {c c' : Controller} {w w' : DeskWorld ctx} {past answers : Record} {event : Desktop.Event} :
      Watched shared ctx paths c w past →
      Runs (deskMachine shared ctx).recorded (react c event) (w, past) c' (w', past ++ answers) →
      Meets (logs c) answers event → Watched shared ctx paths c' w' (past ++ answers)

/-- In the states of such a run the text is under the name of its log. -/
theorem Watched.labelled (h : Watched shared ctx paths c w past) :
    Reached shared ctx paths c w ∧ Labelled (logs c) (reading past) := by
  induction h with
  | @launched tray system c w record hrun hmeets =>
      have hopened : Orderly (openedWorld ctx paths system) := ⟨exclusive_of_not_holding nofun nofun, nofun⟩
      have hmirrors : Mirrors newController := rfl
      refine ⟨⟨tray, system, c, w, [], hrun.forget, .start .refl⟩, ?_⟩
      exact Ends.labelled hmirrors (launch_ends hopened hrun) hmeets (.inl (.inl ⟨rfl, rfl⟩))
  | read hreached hrun hreads hmeets =>
      exact ⟨reached_react hreached hrun,
        react_labelled (reached_mirrors hreached) (reached_settled hreached).orderly hrun hmeets (.inr hreads)⟩
  | handled _ hrun hmeets ih =>
      obtain ⟨hreached, hlabelled⟩ := ih
      exact ⟨reached_react hreached hrun,
        react_labelled (reached_mirrors hreached) (reached_settled hreached).orderly hrun hmeets (.inl hlabelled)⟩

end

/-- In a run whose events meet the condition the log shown is the log named in every state.
In the states that the window reaches it shows the names it compares with and the lock is
in order; and wherever both are so, it is decided for an operation on the logs for which
the manager could be taken whether it leaves the log shown that is named. -/
theorem log_shown_is_named (shared : Bool) (ctx : Context) (paths : Paths.ProjectPaths) :
    (∀ (c : Controller) (w : DeskWorld ctx) (record : Record), Watched shared ctx paths c w record →
      Reached shared ctx paths c w ∧ Labelled (logs c) (reading record)) ∧
    (∀ (c : Controller) (w : DeskWorld ctx), Reached shared ctx paths c w → Mirrors c ∧ Orderly w) ∧
    ∀ (c c' : Controller) (w w' : DeskWorld ctx) (past answers : Record) (op : LogOp),
      Mirrors c → Orderly w →
      Runs (deskMachine shared ctx).recorded (op.run c) (w, past) c' (w', past ++ answers) →
      Available answers → Decided (logs c) (logs c') past answers op := by
  refine ⟨fun c w record h => h.labelled, fun c w h => ⟨reached_mirrors h, (reached_settled h).orderly⟩, ?_⟩
  intro c c' w w' past answers op hmirrors hw hrun havailable
  cases op with
  | refresh => exact refresh_decided hmirrors hw hrun havailable
  | refreshLogs => exact refreshLogs_decided hmirrors hw hrun havailable
  | openServiceLogs index => exact openServiceLogs_decided hmirrors hw hrun havailable

def pairText : String := withHeader "[services.assets]\n[services.external]\n"

def pairReader : Reader where
  parse := fun text =>
    if text = pairText then .ok (headedTable [("assets", .table []), ("external", .table [])])
    else ServiceStates.externalReader.parse text
  distinct := by
    intro text table hparse
    split at hparse
    · cases hparse
      exact distinctKeys_headedTable (by simp)
    · exact ServiceStates.externalReader.distinct hparse

def pairContext : Context := ⟨pairReader, literalGlob, fun _ => none, none⟩

def pairDesk : Driver (deskMachine false pairContext) := deskDriver false pairContext fun _ => false

def worked (w : DeskWorld pairContext) : DeskWorld pairContext :=
  match w.job with
  | some ⟨.waiting work, awaited⟩ =>
      let done := (Steady.driver false fun _ => false).run (work.run pairContext w.manager) w.system
      ⟨done.2, done.1.1, .free, some ⟨.finished (some done.1.2), awaited⟩, w.saved⟩
  | _ => w

theorem worked_drift {w : DeskWorld pairContext} {work : Work} {awaited : Bool} (hfree : w.owner = .free)
    (hjob : w.job = some ⟨.waiting work, awaited⟩) : (deskMachine false pairContext).drift w (worked w) := by
  unfold worked
  rw [hjob]
  refine .tail (.single (.takes hfree hjob)) ?_
  exact .works rfl ((Steady.driver false fun _ => false).runs _ trivial).1

def received (c : Controller) (w : DeskWorld pairContext) : Controller × DeskWorld pairContext :=
  match w.job with
  | some ⟨.finished outcome, true⟩ =>
      pairDesk.run (c.finishJob (outcome.getD (.error "the operation failed unexpectedly"))) { w with job := none }
  | _ => (c, w)

theorem received_runs {c : Controller} {w : DeskWorld pairContext} {outcome : Option JobOutcome}
    (hjob : w.job = some ⟨.finished outcome, true⟩) :
    Runs (deskMachine false pairContext) (handle .jobReceived c) w ((received c w).1, ()) (received c w).2 := by
  unfold received
  rw [hjob]
  refine runs_bind.mpr ⟨_, _, runs_bind.mpr ⟨some outcome, { w with job := none }, ?_, ?_⟩, runs_pure.mpr ⟨rfl, .refl⟩⟩
  · exact runs_perform.mpr ⟨w, _, .refl, ⟨hjob, rfl⟩, .refl⟩
  · exact (pairDesk.runs _ trivial).1

theorem handle_runs (event : Desktop.Event) (c : Controller) (w : DeskWorld pairContext) :
    Runs (deskMachine false pairContext) (handle event c) w ((pairDesk.run (react c event) w).1, ())
      (pairDesk.run (react c event) w).2 :=
  runs_bind.mpr ⟨_, _, (pairDesk.runs _ trivial).1, runs_pure.mpr ⟨rfl, .refl⟩⟩

def opening : Controller × DeskWorld pairContext :=
  pairDesk.run (newController.launch true) (openedWorld pairContext Paths.profile Lifecycle.savedWorld)

def served : Controller × DeskWorld pairContext := received opening.1 (worked opening.2)

def editing : Controller × DeskWorld pairContext := pairDesk.run (react served.1 .editConfig) served.2

def rewritten : Controller × DeskWorld pairContext :=
  pairDesk.run (react editing.1 (.editorEdited pairText)) editing.2

def applying : Controller × DeskWorld pairContext := pairDesk.run (react rewritten.1 .apply) rewritten.2

theorem served_session :
    Session (deskMachine false pairContext) handle opening.1 opening.2 [(.jobReceived, ())] served.1 served.2 := by
  have hstarting : opening.2.job = some ⟨.waiting .start, true⟩ := rfl
  have hopening : Session (deskMachine false pairContext) handle opening.1 opening.2 [] opening.1 (worked opening.2) :=
    .start (worked_drift rfl hstarting)
  exact hopening.step (received_runs rfl)

theorem served_reached : Reached false pairContext Paths.profile served.1 served.2 :=
  ⟨true, Lifecycle.savedWorld, opening.1, opening.2, _, (pairDesk.runs _ trivial).1, served_session⟩

theorem applying_reached : Reached false pairContext Paths.profile applying.1 (worked applying.2) := by
  have happlying : applying.2.job = some ⟨.waiting .apply, true⟩ := rfl
  have hediting := served_session.step (handle_runs .editConfig _ _)
  have hrewritten := hediting.step (handle_runs (.editorEdited pairText) _ _)
  have happly := hrewritten.step ((handle_runs .apply _ _).drift_right (worked_drift rfl happlying))
  exact ⟨true, Lifecycle.savedWorld, opening.1, opening.2, _, (pairDesk.runs _ trivial).1, happly⟩

def assetsLog (path : Paths.Path) : Option LogTail.OpenFile :=
  if path = Paths.profile.logsDir.join "assets.log" then some (.holding (bytesOf "assets ready\n")) else none

def misread : Record :=
  [⟨.tryLock, true⟩, ⟨.logNames, ["assets", "external"]⟩, ⟨.tailLog "assets" 200, .ok "assets ready\n"⟩,
    ⟨.unlock, ()⟩]

def mislabelled : Controller :=
  let c := applying.1.showLogNames ["assets", "external"]
  { c with window.logText := "assets ready\n" }

theorem misread_runs (past : Record) :
    Runs (deskMachine false pairContext).recorded (LogOp.run applying.1 .refreshLogs) (worked applying.2, past)
      mislabelled (worked applying.2, past ++ misread) := by
  have hread : (worked applying.2).manager.tailLog assetsLog "assets" 200 = .ok "assets ready\n" := by
    have htail : (worked applying.2).manager.tailLog assetsLog "assets" 200 =
        .ok (LogTail.tailBy LogTail.chunk (some (.holding (bytesOf "assets ready\n"))) 200) := by
      decide +kernel
    rw [htail, LogTail.tailBy_eq]
    decide +kernel
  refine .answered true ⟨rfl, rfl⟩ ?_
  refine .answered ["assets", "external"] ⟨rfl, rfl⟩ ?_
  refine .answered (.ok "assets ready\n") ⟨⟨assetsLog, hread.symm⟩, rfl⟩ ?_
  refine .answered () rfl (.pure ⟨.refl, ?_⟩)
  simp only [List.append_assoc]
  rfl

/-- The list that has changed is asked for its entry at the old place, while the selection moves on. -/
theorem log_shown_under_another_name :
    Reached false pairContext Paths.profile applying.1 (worked applying.2) ∧ Available misread ∧
    ∀ past : Record,
      Runs (deskMachine false pairContext).recorded (LogOp.run applying.1 .refreshLogs)
        (worked applying.2, past) mislabelled (worked applying.2, past ++ misread) ∧
      (logs mislabelled).displayed = some "external" ∧
      reading (past ++ misread) = some ⟨"assets", (logs mislabelled).text⟩ ∧
      ¬ Shows .refreshLogs (logs applying.1) (logs mislabelled) past misread := by
  have hdisplayed : (logs mislabelled).displayed = some "external" := by decide +kernel
  have hshown : (logs mislabelled).shown ≠ [] := by decide +kernel
  refine ⟨applying_reached, ?_, fun past => ?_⟩
  · intro entry hentry heq
    rw [heq] at hentry
    simp [misread] at hentry
  · have hreading : reading (past ++ misread) = some ⟨"assets", (logs mislabelled).text⟩ := reading_append rfl
    refine ⟨misread_runs past, hdisplayed, hreading, fun hshows => ?_⟩
    rcases hshows.labelled with ⟨hempty, _⟩ | ⟨name, hname, hread⟩
    · exact hshown hempty
    · rw [hdisplayed] at hname
      rw [hreading] at hread
      cases hname
      revert hread
      decide

def servedRecord : Record :=
  [⟨.tryLock, true⟩, ⟨.logNames, ["external"]⟩, ⟨.tailLog "external" 200, .ok ""⟩, ⟨.unlock, ()⟩]

def viewing : Controller × DeskWorld pairContext := pairDesk.run (react served.1 (.tabSelected logsTab)) served.2

def tabbed : Controller × DeskWorld pairContext := pairDesk.run (react viewing.1 .tabChanged) viewing.2

def refreshed : Controller × DeskWorld pairContext := pairDesk.run (react tabbed.1 .refresh) tabbed.2

def tabbedRecord : Record := pairDesk.record (react viewing.1 .tabChanged) viewing.2

def refreshedRecord : Record := pairDesk.record (react tabbed.1 .refresh) tabbed.2

theorem viewing_reached : Reached false pairContext Paths.profile viewing.1 viewing.2 :=
  ⟨true, Lifecycle.savedWorld, opening.1, opening.2, _, (pairDesk.runs _ trivial).1,
    served_session.step (handle_runs (.tabSelected logsTab) _ _)⟩

theorem refreshed_watched : Watched false pairContext Paths.profile refreshed.1 refreshed.2
    (tabbedRecord ++ refreshedRecord) := by
  have htold : reports tabbedRecord = [["external"]] := by decide +kernel
  have htold' : reports refreshedRecord = [["external"]] := by decide +kernel
  have htabbed : Watched false pairContext Paths.profile tabbed.1 tabbed.2 ([] ++ tabbedRecord) := by
    refine .read viewing_reached (pairDesk.runs_recorded (react viewing.1 .tabChanged) trivial []) ?_ ?_
    · rw [htold]
      exact List.cons_ne_nil _ _
    · intro names hnames
      rw [htold, List.mem_singleton] at hnames
      rw [hnames]
      change chosen ["external"] viewing.1.window.logIndex = kept (logs viewing.1) ["external"]
      decide +kernel
  refine .handled htabbed (pairDesk.runs_recorded (react tabbed.1 .refresh) trivial _) fun names rest hreported => ?_
  rw [htold'] at hreported
  cases hreported
  rw [if_neg fun hall => hall.2.2 rfl]
  have hsame : (logs tabbed.1).names = ["external"] := by decide +kernel
  exact .inl hsame

theorem log_shown_is_named_served :
    ((logs refreshed.1).displayed = some "external" ∧
      Labelled (logs refreshed.1) (reading (tabbedRecord ++ refreshedRecord))) ∧
    Shows .refreshLogs (logs served.1) (logs served.1) [] servedRecord := by
  obtain ⟨hlabelled, hreached, hdecided⟩ := log_shown_is_named false pairContext Paths.profile
  refine ⟨⟨by decide +kernel, (hlabelled _ _ _ refreshed_watched).2⟩, ?_⟩
  obtain ⟨hmirrors, horderly⟩ := hreached served.1 served.2 served_reached
  have hread : served.2.manager.tailLog (fun _ => none) "external" 200 = .ok "" := by decide +kernel
  have hrun : Runs (deskMachine false pairContext).recorded (LogOp.run served.1 .refreshLogs) (served.2, [])
      served.1 (served.2, [] ++ servedRecord) :=
    .answered true ⟨rfl, rfl⟩ (.answered ["external"] ⟨rfl, rfl⟩
      (.answered (.ok "") ⟨⟨_, hread.symm⟩, rfl⟩ (.answered () rfl (.pure ⟨.refl, rfl⟩))))
  have havailable : Available servedRecord := by
    intro entry hentry heq
    rw [heq] at hentry
    simp [servedRecord] at hentry
  obtain ⟨names, hnames, hshown⟩ := hdecided _ _ _ _ _ _ .refreshLogs hmirrors horderly hrun havailable
  cases hnames
  refine hshown.mpr ?_
  change chosen ["external"] served.1.window.logIndex = kept (logs served.1) ["external"]
  decide +kernel

end LocalDevProxy.LogRuns
