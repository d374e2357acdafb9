import LocalDevProxy.ServiceOperations

namespace LocalDevProxy.KeptServices

open Lib.Interaction Lib.Fallible Os Process ServiceSteps ServiceOperations

def Grounded (info : ServiceInfo) : Prop := info.launch = none → info.child = none

/-- A later record of the same service: what it is named and how it is
launched does not change. -/
structure Kept (info info' : ServiceInfo) : Prop where
  name : info'.name = info.name
  launch : info'.launch = info.launch
  grounded : Grounded info → Grounded info'

theorem Kept.refl (info : ServiceInfo) : Kept info info := ⟨rfl, rfl, fun h => h⟩

theorem Kept.trans {info info' info'' : ServiceInfo} (h : Kept info info') (h' : Kept info' info'') :
    Kept info info'' :=
  ⟨h'.name.trans h.name, h'.launch.trans h.launch, fun hg => h'.grounded (h.grounded hg)⟩

theorem kept_of_childless {info info' : ServiceInfo} (hname : info'.name = info.name)
    (hlaunch : info'.launch = info.launch) (hchild : info'.child = none) : Kept info info' :=
  ⟨hname, hlaunch, fun _ _ => hchild⟩

theorem kept_of_launch {info info' : ServiceInfo} (hl : info.launch.isSome)
    (hname : info'.name = info.name) (hlaunch : info'.launch = info.launch) : Kept info info' := by
  refine ⟨hname, hlaunch, fun _ hn => ?_⟩
  rw [← hlaunch, hn] at hl
  cases hl

variable {info info' : ServiceInfo} {u v : World} {r : Except ServiceError Unit}
  {P : (c : Call) → Ans c → Prop}

theorem launched_kept (hl : info.launch.isSome) (h : Launched info u info' r v) : Kept info info' := by
  cases h with
  | running child capture _ _ => exact kept_of_launch hl rfl rfl
  | failed message _ _ => exact kept_of_launch hl rfl rfl

theorem exited_kept (info : ServiceInfo) (status : ExitStatus) : Kept info (exited info status) :=
  kept_of_childless rfl rfl rfl

theorem started_kept (h : Started P info u info' r v) : Kept info info' := by
  cases h with
  | inert _ _ _ => exact .refl info
  | already _ _ _ _ _ => exact .refl info
  | first hl _ hlaunched => exact launched_kept hl hlaunched
  | again child status hl _ _ _ hlaunched =>
      have hl' : (exited info status).launch.isSome := hl
      exact (exited_kept info status).trans (launched_kept hl' hlaunched)
  | unpolled child hl _ _ hlaunched => exact launched_kept hl hlaunched

theorem stopped_kept (h : Stopped info u info' v) : Kept info info' ∧ info'.child = none := by
  cases h with
  | idle _ hchild _ => exact ⟨kept_of_childless rfl rfl hchild, hchild⟩
  | ended child status _ _ _ _ => exact ⟨kept_of_childless rfl rfl rfl, rfl⟩

theorem noticed_kept (h : Noticed info u info' v) : Kept info info' := by
  cases h with
  | kept _ _ => exact .refl info
  | exited child status _ _ _ _ _ => exact exited_kept info status

structure Carried (m m' : ServiceManager) : Prop where
  shared : m'.shared = m.shared
  services : List.Forall₂ Kept m.services m'.services

theorem forall₂_kept_refl (services : List ServiceInfo) : List.Forall₂ Kept services services :=
  List.forall₂_same.mpr (fun info _ => .refl info)

theorem forall₂_kept_trans {as bs cs : List ServiceInfo} (h : List.Forall₂ Kept as bs)
    (h' : List.Forall₂ Kept bs cs) : List.Forall₂ Kept as cs := by
  induction h generalizing cs with
  | nil => exact h'
  | cons hk _ ih =>
      cases h' with
      | cons hk' h' => exact .cons (hk.trans hk') (ih h')

theorem Carried.refl (m : ServiceManager) : Carried m m := ⟨rfl, forall₂_kept_refl m.services⟩

theorem Carried.trans {m m' m'' : ServiceManager} (h : Carried m m') (h' : Carried m' m'') :
    Carried m m'' :=
  ⟨h'.shared.trans h.shared, forall₂_kept_trans h.services h'.services⟩

def AllGrounded (m : ServiceManager) : Prop := ∀ info ∈ m.services, Grounded info

theorem Carried.grounded {m m' : ServiceManager} (h : Carried m m') (hg : AllGrounded m) :
    AllGrounded m' := by
  intro info' hinfo'
  obtain ⟨info, hinfo, hk⟩ := exists_of_forall₂ h.services info' hinfo'
  exact hk.grounded (hg info hinfo)

variable {shared : Bool} {w w' : World} {m m' : ServiceManager}

theorem startAuto_kept {sh : Shared}
    (h : Runs ((machine shared).restrict P) (startAuto sh info) w info' w') : Kept info info' := by
  unfold startAuto at h
  split at h
  · obtain ⟨⟨started, r⟩, w₁, hs, h⟩ := runs_bind.mp h
    obtain ⟨rfl, _⟩ := runs_pure.mp h
    exact started_kept (startLocked_run hs)
  · obtain ⟨rfl, _⟩ := runs_pure.mp h
    exact .refl info'

theorem startAll_carried (h : Runs ((machine shared).restrict P) m.startAll w m' w') :
    Carried m m' := by
  obtain ⟨_, ht, hshared, _⟩ := startAll_run h
  refine ⟨hshared, ht.traverse_forall₂.imp ?_⟩
  rintro info info' ⟨_, _, hr⟩
  exact startAuto_kept hr

structure Quiet (m : ServiceManager) : Prop where
  monitor : m.monitor = false
  childless : ∀ info ∈ m.services, info.child = none

theorem stopManaged_kept (h : Runs ((machine shared).restrict P) (stopManaged info) w info' w') :
    Kept info info' ∧ (Grounded info → info'.child = none) := by
  unfold stopManaged at h
  split at h
  · obtain ⟨hk, hchild⟩ := stopped_kept (stopLocked_run h.of_restrict)
    exact ⟨hk, fun _ => hchild⟩
  · rename_i hl
    obtain ⟨rfl, _⟩ := runs_pure.mp h
    exact ⟨.refl info', fun hg => hg (by simpa using hl)⟩

theorem stopAll_carried (h : Runs ((machine shared).restrict P) m.stopAll w m' w') :
    Carried m m' ∧ (AllGrounded m → Quiet m') := by
  obtain ⟨_, _, ht, hshared, hmonitor⟩ := stopAll_run h
  have hall := ht.traverse_forall₂
  have hkept : ∀ {info info'}, (∃ u v, Runs ((machine shared).restrict P) (stopManaged info) u info' v) →
      Kept info info' ∧ (Grounded info → info'.child = none) := by
    rintro info info' ⟨_, _, hr⟩
    exact stopManaged_kept hr
  refine ⟨⟨hshared, hall.imp (fun _ _ hr => (hkept hr).1)⟩, fun hg => ⟨hmonitor, ?_⟩⟩
  intro info' hinfo'
  obtain ⟨info, hinfo, hr⟩ := exists_of_forall₂ hall info' hinfo'
  exact (hkept hr).2 (hg info hinfo)

theorem pollExits_carried (h : Runs ((machine shared).restrict P) m.pollExits w m' w') :
    Carried m m' := by
  obtain ⟨ht, hshared, _⟩ := pollExits_run h
  refine ⟨hshared, ht.traverse_forall₂.imp ?_⟩
  rintro info info' ⟨_, _, hr⟩
  exact noticed_kept (pollInfo_run hr.of_restrict)

theorem onManaged_carried {name : String}
    {action : ServiceInfo → Io (ServiceInfo × Except ServiceError Unit)}
    (haction : ∀ {info info' r u v}, Runs ((machine shared).restrict P) (action info) u (info', r) v →
      Kept info info')
    (h : Runs ((machine shared).restrict P) (m.onManaged name action) w (m', r) w') :
    Carried m m' := by
  obtain ⟨services, rfl, ha⟩ := onManaged_run h
  refine ⟨rfl, ?_⟩
  generalize hs : m.services = before at ha
  cases ha with
  | unknown _ _ _ => exact forall₂_kept_refl _
  | unmanaged _ _ _ _ _ _ => exact forall₂_kept_refl _
  | managed front back info info' _ _ he _ _ _ hr =>
      rw [he]
      exact List.rel_append (forall₂_kept_refl front) (.cons (haction hr) (forall₂_kept_refl back))

theorem startLocked_kept {sh : Shared}
    (h : Runs ((machine shared).restrict P) (startLocked sh info) w (info', r) w') : Kept info info' :=
  started_kept (startLocked_run h)

theorem stopAction_kept
    (h : Runs ((machine shared).restrict P) (ServiceManager.stopAction info) w (info', r) w') :
    Kept info info' := by
  obtain ⟨stopped, w₁, hs, h⟩ := runs_bind.mp h
  obtain ⟨he, _⟩ := runs_pure.mp h
  cases he
  exact (stopped_kept (stopLocked_run hs.of_restrict)).1

theorem restartAction_kept {sh : Shared}
    (h : Runs ((machine shared).restrict P) (ServiceManager.restartAction sh info) w (info', r) w') :
    Kept info info' := by
  obtain ⟨stopped, w₁, hs, h⟩ := runs_bind.mp h
  have hstop := (stopped_kept (stopLocked_run hs.of_restrict)).1
  have hcount : Kept stopped { stopped with restartCount := stopped.restartCount + 1 } :=
    ⟨rfl, rfl, fun hg => hg⟩
  exact (hstop.trans hcount).trans (startLocked_kept h)

end LocalDevProxy.KeptServices
