import LocalDevProxy.AcceptedManifests
import LocalDevProxy.ServiceOperations
import LocalDevProxy.Steady
import Mathlib.Data.List.Nodup

namespace LocalDevProxy.ChildHandles

open Lib.Interaction Lib.Fallible Paths Environment Toml Config Os LogRotation Process ProcessGroups
  ServiceSteps ServiceOperations AcceptedManifests

variable {u v x : World}

structure Handles (owner : String) (child : Option Child) (u : World) (child' : Option Child)
    (v : World) : Prop where
  persists : Persists u v
  dropped : ∀ c, child = some c → (u.groups c.id).isSome → child' = some c ∨ AccountedAt v c.id
  origin : ∀ c, child' = some c →
    child = some c ∨ (u.groups c.id = none ∧ ∃ g, v.groups c.id = some g ∧ g.owner = owner)
  fresh : ∀ id g, u.groups id = none → v.groups id = some g →
    (g.owner = owner ∧ ∃ c, child' = some c ∧ c.id = id) ∨ Accounted g

theorem Persists.none_left (h : Persists u v) {id : Nat} (hg : v.groups id = none) :
    u.groups id = none := by
  cases hu : u.groups id with
  | none => rfl
  | some g =>
      obtain ⟨g', hg', _⟩ := h id g hu
      rw [hg] at hg'
      cases hg'

theorem AccountedAt.of_some {id : Nat} {g : Group} (h : AccountedAt v id) (hg : v.groups id = some g) :
    Accounted g := by
  obtain ⟨g', hg', ha⟩ := h
  rw [hg] at hg'
  cases hg'
  exact ha

theorem Handles.trans {owner : String} {child child' child'' : Option Child}
    (h : Handles owner child u child' v) (h' : Handles owner child' v child'' x) :
    Handles owner child u child'' x where
  persists := h.persists.trans h'.persists
  dropped := by
    intro c hc hex
    rcases h.dropped c hc hex with hc' | ha
    · exact h'.dropped c hc' (h.persists.isSome hex)
    · exact .inr (ha.persists h'.persists)
  origin := by
    intro c hc
    rcases h'.origin c hc with hc' | ⟨hn, hg⟩
    · rcases h.origin c hc' with hc | ⟨hn, g, hg, ho⟩
      · exact .inl hc
      · obtain ⟨g', hg', ha⟩ := h'.persists _ g hg
        exact .inr ⟨hn, g', hg', ha.owner.trans ho⟩
    · exact .inr ⟨Persists.none_left h.persists hn, hg⟩
  fresh := by
    intro id g hn hg
    cases hv : v.groups id with
    | none => exact h'.fresh id g hv hg
    | some g₁ =>
        obtain ⟨g', hg', ha⟩ := h'.persists id g₁ hv
        obtain rfl : g' = g := Option.some.inj (hg'.symm.trans hg)
        rcases h.fresh id g₁ hn hv with ⟨ho, c, hc, rfl⟩ | hacc
        · rcases h'.dropped c hc (by rw [hv]; rfl) with hc' | hacc
          · exact .inl ⟨ha.owner.trans ho, c, hc', rfl⟩
          · exact .inr (AccountedAt.of_some hacc hg)
        · exact .inr (ha.accounted hacc)

theorem handles_still (owner : String) (child : Option Child) (h : Still u v) :
    Handles owner child u child v where
  persists := h.persists
  dropped := fun c hc _ => .inl hc
  origin := fun c hc => .inl hc
  fresh := by
    intro id g hn hg
    rw [h.spawnless id hn] at hg
    cases hg

theorem handles_drop {owner : String} {c : Child} (h : Still u v)
    (ha : (u.groups c.id).isSome → AccountedAt v c.id) : Handles owner (some c) u none v where
  persists := h.persists
  dropped := by
    rintro _ ⟨⟩ hex
    exact .inr (ha hex)
  origin := fun _ hc => by cases hc
  fresh := (handles_still owner none h).fresh

theorem handles_spawn {owner : String} {c : Child} (h : Spawned owner c u v) :
    Handles owner none u (some c) v where
  persists := h.persists
  dropped := fun _ hc => by cases hc
  origin := by
    rintro _ ⟨⟩
    exact .inr ⟨h.fresh, h.owned⟩
  fresh := by
    intro id g hn hg
    by_cases hid : id = c.id
    · obtain ⟨g', hg', ho⟩ := h.owned
      subst hid
      obtain rfl : g' = g := Option.some.inj (hg'.symm.trans hg)
      exact .inl ⟨ho, c, rfl, rfl⟩
    · rw [h.others id hid hn] at hg
      cases hg

def Reported (info : ServiceInfo) : Prop := info.child.isSome → info.status = .running

/-- One action on a service keeps its name, its processes and its report. -/
structure Keeps (info : ServiceInfo) (u : World) (info' : ServiceInfo) (v : World) : Prop where
  name : info'.name = info.name
  handles : Handles info.name info.child u info'.child v
  reported : Reported info → Reported info'

variable {info info' info'' : ServiceInfo} {r : Except ServiceError Unit}

theorem Keeps.trans (h : Keeps info u info' v) (h' : Keeps info' v info'' x) : Keeps info u info'' x where
  name := h'.name.trans h.name
  handles := h.handles.trans (h.name ▸ h'.handles)
  reported := fun hr => h'.reported (h.reported hr)

theorem keeps_still (h : Still u v) : Keeps info u info v :=
  ⟨rfl, handles_still _ _ h, fun hr => hr⟩

theorem launched_keeps (hchild : info.child = none) (h : Launched info u info' r v) :
    Keeps info u info' v := by
  cases h with
  | running child capture _ hs => exact ⟨rfl, hchild ▸ handles_spawn hs, fun _ _ => rfl⟩
  | failed message _ hs =>
      refine ⟨rfl, handles_still _ _ hs, ?_⟩
      intro _ hc
      rw [show info.child = none from hchild] at hc
      cases hc

theorem exited_keeps {child : Child} (status : ExitStatus) (hchild : info.child = some child)
    (h : Still u v) (ha : (u.groups child.id).isSome → AccountedAt v child.id) :
    Keeps info u (exited info status) v :=
  ⟨rfl, hchild ▸ handles_drop h ha, fun _ hc => by cases hc⟩

theorem stopped_keeps (h : Stopped info u info' v) : Keeps info u info' v := by
  cases h with
  | idle _ hchild hs =>
      refine ⟨rfl, handles_still _ _ hs, ?_⟩
      intro _ hc
      rw [show info.child = none from hchild] at hc
      cases hc
  | ended child status _ hchild hs ha =>
      exact ⟨rfl, hchild ▸ handles_drop hs ha, fun _ hc => by cases hc⟩

theorem noticed_keeps (h : Noticed info u info' v) : Keeps info u info' v := by
  cases h with
  | kept _ hs => exact keeps_still hs
  | exited child status _ _ hchild hs ha => exact exited_keeps status hchild hs ha

/-- A start that can poll the child it finds loses no process. -/
theorem started_keeps (h : Started startsPolled info u info' r v) : Keeps info u info' v := by
  cases h with
  | inert _ _ hs => exact keeps_still hs
  | already child _ _ _ hs => exact keeps_still hs
  | first _ hchild hl => exact launched_keeps hchild hl
  | again child status _ hchild hs ha hl =>
      exact (exited_keeps status hchild hs (fun _ => ha)).trans (launched_keeps rfl hl)
  | unpolled child _ _ hp _ => exact hp.elim

variable {shared : Bool} {w w' : World}

theorem startAuto_keeps {sh : Shared}
    (h : Runs ((machine shared).restrict startsPolled) (startAuto sh info) w info' w') :
    Keeps info w info' w' := by
  unfold startAuto at h
  split at h
  · obtain ⟨⟨started, r⟩, w₁, hs, h⟩ := runs_bind.mp h
    obtain ⟨rfl, hd⟩ := runs_pure.mp h
    exact (started_keeps (startLocked_run hs)).trans (keeps_still (still_drift hd))
  · obtain ⟨rfl, hd⟩ := runs_pure.mp h
    exact keeps_still (still_drift hd)

theorem stopManaged_keeps
    (h : Runs ((machine shared).restrict startsPolled) (stopManaged info) w info' w') :
    Keeps info w info' w' := by
  unfold stopManaged at h
  split at h
  · exact stopped_keeps (stopLocked_run h.of_restrict)
  · obtain ⟨rfl, hd⟩ := runs_pure.mp h
    exact keeps_still (still_drift hd)

theorem stopAction_keeps
    (h : Runs ((machine shared).restrict startsPolled) (ServiceManager.stopAction info) w (info', r) w') :
    Keeps info w info' w' := by
  obtain ⟨stopped, w₁, hs, h⟩ := runs_bind.mp h
  obtain ⟨he, hd⟩ := runs_pure.mp h
  cases he
  exact (stopped_keeps (stopLocked_run hs.of_restrict)).trans (keeps_still (still_drift hd))

theorem restartAction_keeps {sh : Shared}
    (h : Runs ((machine shared).restrict startsPolled) (ServiceManager.restartAction sh info) w
      (info', r) w') :
    Keeps info w info' w' := by
  obtain ⟨stopped, w₁, hs, h⟩ := runs_bind.mp h
  have hcounted : Keeps stopped w₁ { stopped with restartCount := stopped.restartCount + 1 } w₁ :=
    ⟨rfl, handles_still _ _ (still_drift ((machine shared).drift_refl w₁)), fun hr => hr⟩
  exact ((stopped_keeps (stopLocked_run hs.of_restrict)).trans hcounted).trans
    (started_keeps (startLocked_run h))

/-- Every process spawned since the origin is held by the service it was
spawned for, or it is accounted for. -/
structure Tracked (origin : World) (names : List String) (services : List ServiceInfo) (w : World) :
    Prop where
  names : services.map ServiceInfo.name = names
  held : ∀ info ∈ services, ∀ c, info.child = some c → ∃ g, w.groups c.id = some g ∧ g.owner = info.name
  reported : ∀ info ∈ services, Reported info
  traced : ∀ id g, origin.groups id = none → w.groups id = some g →
    (∃ info ∈ services, info.name = g.owner ∧ ∃ c, info.child = some c ∧ c.id = id) ∨ Accounted g

theorem Tracked.replace {origin : World} {names : List String} {before after : List ServiceInfo}
    (h : Tracked origin names (before ++ info :: after) u) (hk : Keeps info u info' v) :
    Tracked origin names (before ++ info' :: after) v := by
  have hmem : info ∈ before ++ info :: after := List.mem_append_right _ (List.mem_cons_self ..)
  have hrest : ∀ {i}, i ∈ before ++ info' :: after → i = info' ∨ i ∈ before ++ info :: after := by
    intro i hi
    simp only [List.mem_append, List.mem_cons] at hi ⊢
    tauto
  have hkept : ∀ {i}, i ∈ before ++ info :: after → i = info ∨ i ∈ before ++ info' :: after := by
    intro i hi
    simp only [List.mem_append, List.mem_cons] at hi ⊢
    tauto
  constructor
  · rw [← h.names, List.map_append, List.map_append, List.map_cons, List.map_cons, hk.name]
  · intro i hi c hc
    have hold : ∀ {j : ServiceInfo}, j ∈ before ++ info :: after → j.child = some c →
        ∃ g, v.groups c.id = some g ∧ g.owner = j.name := by
      intro j hj hc
      obtain ⟨g, hg, ho⟩ := h.held j hj c hc
      obtain ⟨g', hg', ha⟩ := hk.handles.persists _ g hg
      exact ⟨g', hg', ha.owner.trans ho⟩
    rcases hrest hi with rfl | hi
    · rw [hk.name]
      rcases hk.handles.origin c hc with hc' | ⟨_, hg⟩
      · exact hold hmem hc'
      · exact hg
    · exact hold hi hc
  · intro i hi
    rcases hrest hi with rfl | hi
    · exact hk.reported (h.reported info hmem)
    · exact h.reported i hi
  · intro id g hn hg
    have hmem' : info' ∈ before ++ info' :: after := List.mem_append_right _ (List.mem_cons_self ..)
    cases hu : u.groups id with
    | none =>
        rcases hk.handles.fresh id g hu hg with ⟨ho, hc⟩ | ha
        · exact .inl ⟨info', hmem', hk.name.trans ho.symm, hc⟩
        · exact .inr ha
    | some g₁ =>
        obtain ⟨g', hg', ha⟩ := hk.handles.persists id g₁ hu
        obtain rfl : g' = g := Option.some.inj (hg'.symm.trans hg)
        rcases h.traced id g₁ hn hu with ⟨i, hi, ho, c, hc, rfl⟩ | hacc
        · rcases hkept hi with rfl | hi
          · rcases hk.handles.dropped c hc (by rw [hu]; rfl) with hc' | hacc
            · exact .inl ⟨info', hmem', (hk.name.trans ho).trans ha.owner.symm, c, hc', rfl⟩
            · exact .inr (AccountedAt.of_some hacc hg)
          · exact .inl ⟨i, hi, ho.trans ha.owner.symm, c, hc, rfl⟩
        · exact .inr (ha.accounted hacc)

theorem Tracked.still {origin : World} {names : List String} {services : List ServiceInfo}
    (h : Tracked origin names services u) (hs : Still u v) : Tracked origin names services v := by
  constructor
  · exact h.names
  · intro i hi c hc
    obtain ⟨g, hg, ho⟩ := h.held i hi c hc
    obtain ⟨g', hg', ha⟩ := hs.persists _ g hg
    exact ⟨g', hg', ha.owner.trans ho⟩
  · exact h.reported
  · intro id g hn hg
    cases hu : u.groups id with
    | none =>
        rw [hs.spawnless id hu] at hg
        cases hg
    | some g₁ =>
        obtain ⟨g', hg', ha⟩ := hs.persists id g₁ hu
        obtain rfl : g' = g := Option.some.inj (hg'.symm.trans hg)
        rcases h.traced id g₁ hn hu with ⟨i, hi, ho, hc⟩ | hacc
        · exact .inl ⟨i, hi, ho.trans ha.owner.symm, hc⟩
        · exact .inr (ha.accounted hacc)

theorem Tracked.traverse {origin : World} {names : List String} {f : ServiceInfo → Io ServiceInfo}
    {services services' : List ServiceInfo} (h : Tracked origin names services w)
    (hf : ∀ {i i' w w'}, Runs ((machine shared).restrict startsPolled) (f i) w i' w' → Keeps i w i' w')
    (hr : Runs ((machine shared).restrict startsPolled) (Prog.traverse f services) w services' w') :
    Tracked origin names services' w' := by
  have hall := hr.traverse_rule (fun done rest w => Tracked origin names (done ++ rest) w) h
    (fun ht hd => ht.still (still_drift hd)) ?_
  · simpa using hall
  · intro done i rest w i' w' ht hi
    simpa using ht.replace (hf hi)

theorem Tracked.addressed {origin : World} {names : List String} {name : String}
    {action : ServiceInfo → Io (ServiceInfo × Except ServiceError Unit)}
    {services services' : List ServiceInfo} (h : Tracked origin names services w)
    (hf : ∀ {i i' r w w'}, Runs ((machine shared).restrict startsPolled) (action i) w (i', r) w' →
      Keeps i w i' w')
    (hr : Addressed ((machine shared).restrict startsPolled) name action services w services' r w') :
    Tracked origin names services' w' := by
  cases hr with
  | unknown _ _ hd => exact h.still (still_drift hd)
  | unmanaged _ _ _ _ _ hd => exact h.still (still_drift hd)
  | managed before after i i' _ _ hs _ _ _ hr =>
      subst hs
      exact h.replace (hf hr)

theorem op_tracked {origin : World} {names : List String} {op : ServiceOp} {m m' : ServiceManager}
    (ht : Tracked origin names m.services w)
    (h : Runs ((machine shared).restrict startsPolled) (op.run m) w (m', r) w') :
    Tracked origin names m'.services w' := by
  cases op with
  | startAll =>
      obtain ⟨_, hr, _, hs⟩ := startAll_run (run_of_unit h).1
      exact (ht.traverse startAuto_keeps hr).still hs
  | stopAll =>
      obtain ⟨_, hs, hr, _⟩ := stopAll_run (run_of_unit h).1
      exact (ht.still hs).traverse stopManaged_keeps hr
  | pollExits =>
      have hr := (pollExits_run (run_of_unit h).1).1
      exact ht.traverse (fun hr => noticed_keeps (pollInfo_run hr.of_restrict)) hr
  | startService name =>
      obtain ⟨services, rfl, ha⟩ := onManaged_run h
      exact ht.addressed (fun hr => started_keeps (startLocked_run hr)) ha
  | stopService name =>
      obtain ⟨services, rfl, ha⟩ := onManaged_run h
      exact ht.addressed stopAction_keeps ha
  | restartService name =>
      obtain ⟨services, rfl, ha⟩ := onManaged_run h
      exact ht.addressed restartAction_keeps ha

/-- While every start can poll the child it finds, each process that was
started is held by its service or was seen to exit or to be terminated, no
service has two live processes, and one that holds a child is reported as running. -/
theorem no_process_lost (shared : Bool) (toml : Reader) (text : String) (manifest : Manifest)
    (penv : OsEnv) (logDir cwd : Path) (limits : LogLimits) (m₀ m : ServiceManager) (w w₀ w' : World)
    (trace : List (ServiceOp × Except ServiceError Unit))
    (hmanifest : parseManifest toml text = .ok manifest)
    (hnew : Runs (machine shared) (ServiceManager.new penv manifest logDir cwd limits) w (.ok m₀) w₀)
    (hrun : Session ((machine shared).restrict startsPolled) ServiceOp.run m₀ w₀ trace m w') :
    (∀ id g, w₀.groups id = none → w'.groups id = some g →
      (∃ info ∈ m.services, info.name = g.owner ∧ ∃ c, info.child = some c ∧ c.id = id) ∨
        Accounted g) ∧
    (∀ id id' g g', w₀.groups id = none → w'.groups id = some g → g.HasLive →
      w₀.groups id' = none → w'.groups id' = some g' → g'.HasLive → g.owner = g'.owner → id = id') ∧
    ∀ info ∈ m.services, info.child.isSome → info.status = .running := by
  obtain ⟨_, hservices, _⟩ := new_run hnew
  have hnames := (parseManifest_names hmanifest).1
  rw [← newServices_names hservices] at hnames
  have hstart : Tracked w₀ (m₀.services.map ServiceInfo.name) m₀.services w₀ := by
    have hnone := fresh_childless hservices
    refine ⟨rfl, ?_, ?_, fun id g hn hg => by rw [hn] at hg; cases hg⟩
    · intro i hi c hc
      rw [hnone i hi] at hc
      cases hc
    · intro i hi hc
      rw [hnone i hi] at hc
      cases hc
  have htracked := hrun.invariant
    (fun _ m w => Tracked w₀ (m₀.services.map ServiceInfo.name) m.services w)
    (fun w hd => hstart.still (still_drift hd)) (fun _ _ _ _ _ _ _ ht hr => op_tracked ht hr)
  refine ⟨htracked.traced, ?_, htracked.reported⟩
  intro id id' g g' hn hg hl hn' hg' hl' ho
  rcases htracked.traced id g hn hg with ⟨i, hi, hiname, c, hc, rfl⟩ | ha
  · rcases htracked.traced id' g' hn' hg' with ⟨j, hj, hjname, c', hc', rfl⟩ | ha
    · have hij : i = j := List.inj_on_of_nodup_map (htracked.names ▸ hnames) hi hj
        (hiname.trans (ho.trans hjname.symm))
      subst hij
      rw [hc] at hc'
      cases hc'
      rfl
    · exact absurd hl' ha.1
  · exact absurd hl ha.1

def idleText : String :=
  withHeader <|
    "[services.app]\n" ++
    "command = [\"idle\"]\n"

def idleTable : Table :=
  headedTable [("app", .table [("command", .array [.string "idle"])])]

def idleReader : Reader :=
  .knowing idleText idleTable (distinctKeys_headedTable (by simp))

def idleManifest : Manifest :=
  headedManifest [⟨"app", some ["idle"], [], [], false, true⟩]

theorem parse_idle : parseManifest idleReader idleText = .ok idleManifest :=
  parseManifest_knowing _ _ _

def idleManager : ServiceManager :=
  ⟨⟨parse "/p/logs", parse "/p", .default⟩,
    [⟨"app", some ⟨["idle"], childEnv (fun _ => none) ⟨"app", some ["idle"], [], [], false, true⟩, true⟩,
      .stopped, none, 0, none, none⟩], false⟩

theorem idleManager_new :
    Runs (machine true)
      (ServiceManager.new (fun _ => none) idleManifest (parse "/p/logs") (parse "/p") .default)
      emptyWorld (.ok idleManager) emptyWorld :=
  new_runs (fun _ => none) idleManifest _ _ rfl

def unwritable : Call → Bool
  | .writeAll _ _ => true
  | _ => false

def polledOnce : (ServiceManager × Except ServiceError Unit) × World :=
  (Steady.polledDriver true unwritable (fun _ => rfl)).run (idleManager.startService "app") emptyWorld

def polledTwice : (ServiceManager × Except ServiceError Unit) × World :=
  (Steady.polledDriver true unwritable (fun _ => rfl)).run (polledOnce.1.1.startService "app") polledOnce.2

theorem polledTwice_session :
    Session ((machine true).restrict startsPolled) ServiceOp.run idleManager emptyWorld
      ([] ++ [(.startService "app", polledOnce.1.2)] ++ [(.startService "app", polledTwice.1.2)])
      polledTwice.1.1 polledTwice.2 :=
  .step (.step (.start (Machine.drift_refl _ _))
    ((Steady.polledDriver true unwritable (fun _ => rfl)).runs (idleManager.startService "app") trivial).1)
    ((Steady.polledDriver true unwritable (fun _ => rfl)).runs (polledOnce.1.1.startService "app") trivial).1

theorem no_process_lost_idle :
    (∃ info ∈ polledTwice.1.1.services, info.name = "app" ∧ ∃ c, info.child = some c ∧ c.id = 1) ∨
      Accounted ⟨"app", .alive, 0, []⟩ :=
  (no_process_lost true idleReader idleText idleManifest (fun _ => none) (parse "/p/logs") (parse "/p")
    .default idleManager polledTwice.1.1 emptyWorld emptyWorld polledTwice.2 _ parse_idle idleManager_new
    polledTwice_session).1 1 _ rfl rfl

/-- A system in which nothing can be written and a start cannot poll the child it finds. -/
def pollFailure : Call → Bool
  | .writeAll _ _ => true
  | .tryWait .startLocked _ => true
  | _ => false

def startOnce : (ServiceManager × Except ServiceError Unit) × World :=
  (Steady.driver true pollFailure).run (idleManager.startService "app") emptyWorld

def startTwice : (ServiceManager × Except ServiceError Unit) × World :=
  (Steady.driver true pollFailure).run (startOnce.1.1.startService "app") startOnce.2

theorem startTwice_session :
    Session (machine true) ServiceOp.run idleManager emptyWorld
      ([] ++ [(.startService "app", startOnce.1.2)] ++ [(.startService "app", startTwice.1.2)])
      startTwice.1.1 startTwice.2 :=
  .step (.step (.start (Machine.drift_refl _ _))
    ((Steady.driver true pollFailure).runs (idleManager.startService "app") trivial).1)
    ((Steady.driver true pollFailure).runs (startOnce.1.1.startService "app") trivial).1

/-- A start that cannot poll the child it finds leaves its live process behind. -/
theorem unpolled_start_loses_process :
    parseManifest idleReader idleText = .ok idleManifest ∧
    ∃ trace m w, Session (machine true) ServiceOp.run idleManager emptyWorld trace m w ∧
      ∃ g g', w.groups 1 = some g ∧ g.HasLive ∧ w.groups 2 = some g' ∧ g'.HasLive ∧
        g.owner = g'.owner ∧ ∀ info ∈ m.services, ∀ c, info.child = some c → c.id ≠ 1 :=
  ⟨parse_idle, _, _, _, startTwice_session, ⟨"app", .alive, 0, []⟩, ⟨"app", .alive, 0, []⟩, rfl, .inl rfl,
    rfl, .inl rfl, rfl, by decide⟩

end LocalDevProxy.ChildHandles
