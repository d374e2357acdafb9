import LocalDevProxy.AcceptedManifests
import LocalDevProxy.ChildHandles
import LocalDevProxy.ServiceOperations
import LocalDevProxy.Steady
import Mathlib.Data.List.Nodup

namespace LocalDevProxy.ServiceStates

open Lib.Interaction Lib.Fallible Paths Environment Toml Config Os LogRotation Process ServiceSteps
  ServiceOperations AcceptedManifests
open ChildHandles (idleText idleReader idleManifest parse_idle idleManager unwritable)

/-- The fields of a service record that go together. -/
structure Consistent (info : ServiceInfo) : Prop where
  unlaunched : info.launch = none ↔ info.status = .unmanaged ∨ info.status = .disabled
  child : info.status = .running ↔ info.child.isSome
  capture : info.status = .running ↔ info.capture.isSome
  exitCode : info.status = .running → info.exitCode = none

/-- A later record of the same service, after it was restarted so many times. -/
structure Follows (restarts : Nat) (info info' : ServiceInfo) : Prop where
  name : info'.name = info.name
  launch : info'.launch = info.launch
  restartCount : info.launch.isSome → info'.restartCount = info.restartCount + .ofNat restarts
  inert : info.launch = none → info' = info
  consistent : Consistent info'

theorem Follows.refl {info : ServiceInfo} (h : Consistent info) : Follows 0 info info :=
  ⟨rfl, rfl, fun _ => (UInt32.add_zero _).symm, fun _ => rfl, h⟩

theorem Follows.trans {m n : Nat} {info info' info'' : ServiceInfo} (h : Follows m info info')
    (h' : Follows n info' info'') : Follows (m + n) info info'' where
  name := h'.name.trans h.name
  launch := h'.launch.trans h.launch
  restartCount := fun hl => by
    rw [h'.restartCount (h.launch ▸ hl), h.restartCount hl, UInt32.ofNat_add, UInt32.add_assoc]
  inert := fun hl => (h'.inert (h.launch.trans hl)).trans (h.inert hl)
  consistent := h'.consistent

theorem not_inert {info : ServiceInfo} (hl : info.launch.isSome) : info.launch ≠ none := by
  intro h
  rw [h] at hl
  cases hl

theorem follows_of_launch {info info' : ServiceInfo} (hl : info.launch.isSome)
    (hname : info'.name = info.name) (hlaunch : info'.launch = info.launch)
    (hcount : info'.restartCount = info.restartCount) (hc : Consistent info') :
    Follows 0 info info' :=
  ⟨hname, hlaunch, fun _ => by rw [hcount]; exact (UInt32.add_zero _).symm,
    fun h => absurd h (not_inert hl), hc⟩

variable {info info' : ServiceInfo} {u v : World} {r : Except ServiceError Unit}

/-- A service that holds nothing and is stopped or crashed is consistent. -/
theorem consistent_idle (hl : info.launch.isSome) (hs : info.status = .stopped ∨ info.status = .crashed)
    (hchild : info.child = none) (hcapture : info.capture = none) : Consistent info := by
  have hn := not_inert hl
  constructor <;> rcases hs with hs | hs <;> simp [hs, hn, hchild, hcapture]

theorem launched_follows (hl : info.launch.isSome) (hchild : info.child = none)
    (h : Launched info u info' r v) :
    Follows 0 info info' ∧ (r = .ok () ∧ info'.status = .running ∨
      (∃ message, r = .error (.launch info.name message)) ∧ info'.status = .crashed) := by
  cases h with
  | running child capture _ _ =>
      refine ⟨follows_of_launch hl rfl rfl rfl ?_, .inl ⟨rfl, rfl⟩⟩
      constructor <;> simp [not_inert hl]
  | failed message _ _ =>
      exact ⟨follows_of_launch hl rfl rfl rfl (consistent_idle hl (.inr rfl) hchild rfl),
        .inr ⟨⟨message, rfl⟩, rfl⟩⟩

theorem exited_follows (hl : info.launch.isSome) (status : ExitStatus) :
    Follows 0 info (exited info status) :=
  follows_of_launch hl rfl rfl rfl (consistent_idle hl (.inr rfl) rfl rfl)

theorem running_of_child (hc : Consistent info) {child : Child} (h : info.child = some child) :
    info.status = .running :=
  hc.child.mpr (h ▸ rfl)

theorem started_follows (hc : Consistent info) (h : Started waitsSucceed info u info' r v) :
    Follows 0 info info' ∧ (info.launch.isSome → (r = .ok () ∧ info'.status = .running ∨
      (∃ message, r = .error (.launch info.name message)) ∧ info'.status = .crashed)) := by
  cases h with
  | inert _ hl _ => exact ⟨.refl hc, fun h => absurd hl (not_inert h)⟩
  | already child _ hl hchild _ =>
      exact ⟨.refl hc, fun _ => .inl ⟨rfl, running_of_child hc hchild⟩⟩
  | first hl hchild h =>
      obtain ⟨hf, hr⟩ := launched_follows hl hchild h
      exact ⟨hf, fun _ => hr⟩
  | again child status hl hchild _ _ h =>
      have hl' : (exited info status).launch.isSome := hl
      obtain ⟨hf, hr⟩ := launched_follows hl' rfl h
      exact ⟨(exited_follows hl status).trans hf, fun _ => hr⟩
  | unpolled child hl hchild hp _ => exact hp.elim

theorem stopped_follows (hl : info.launch.isSome) (h : Stopped info u info' v) :
    Follows 0 info info' ∧ info'.status = .stopped := by
  cases h with
  | idle _ hchild _ =>
      exact ⟨follows_of_launch hl rfl rfl rfl (consistent_idle hl (.inl rfl) hchild rfl), rfl⟩
  | ended child status _ _ _ _ =>
      exact ⟨follows_of_launch hl rfl rfl rfl (consistent_idle hl (.inl rfl) rfl rfl), rfl⟩

theorem noticed_follows (hc : Consistent info) (h : Noticed info u info' v) :
    Follows 0 info info' := by
  cases h with
  | kept _ _ => exact .refl hc
  | exited child status _ hrunning _ _ _ =>
      refine exited_follows ?_ status
      cases hl : info.launch with
      | some launch => rfl
      | none =>
          have hs := hc.unlaunched.mp hl
          simp [hrunning] at hs

variable {shared : Bool} {w w' : World}

theorem startAuto_follows {sh : Shared} (hc : Consistent info)
    (h : Runs ((machine shared).restrict waitsSucceed) (startAuto sh info) w info' w') :
    Follows 0 info info' := by
  unfold startAuto at h
  split at h
  · obtain ⟨⟨started, r⟩, w₁, hs, h⟩ := runs_bind.mp h
    obtain ⟨rfl, _⟩ := runs_pure.mp h
    exact (started_follows hc (startLocked_run hs)).1
  · obtain ⟨rfl, _⟩ := runs_pure.mp h
    exact .refl hc

theorem stopManaged_follows (hc : Consistent info)
    (h : Runs ((machine shared).restrict waitsSucceed) (stopManaged info) w info' w') :
    Follows 0 info info' := by
  unfold stopManaged at h
  split at h
  · rename_i hl
    exact (stopped_follows hl (stopLocked_run h.of_restrict)).1
  · obtain ⟨rfl, _⟩ := runs_pure.mp h
    exact .refl hc

theorem stopAction_follows (hl : info.launch.isSome)
    (h : Runs ((machine shared).restrict waitsSucceed) (ServiceManager.stopAction info) w (info', r) w') :
    Follows 0 info info' ∧ info'.status = .stopped ∧ r = .ok () := by
  obtain ⟨stopped, w₁, hs, h⟩ := runs_bind.mp h
  obtain ⟨he, _⟩ := runs_pure.mp h
  cases he
  obtain ⟨hf, hstatus⟩ := stopped_follows hl (stopLocked_run hs.of_restrict)
  exact ⟨hf, hstatus, rfl⟩

theorem counted_follows (hc : Consistent info) (hl : info.launch.isSome) :
    Follows 1 info { info with restartCount := info.restartCount + 1 } :=
  ⟨rfl, rfl, fun _ => rfl, fun h => absurd h (not_inert hl),
    ⟨hc.unlaunched, hc.child, hc.capture, hc.exitCode⟩⟩

theorem restartAction_follows {sh : Shared} (hl : info.launch.isSome)
    (h : Runs ((machine shared).restrict waitsSucceed) (ServiceManager.restartAction sh info) w
      (info', r) w') :
    Follows 1 info info' ∧ (r = .ok () ∧ info'.status = .running ∨
      (∃ message, r = .error (.launch info.name message)) ∧ info'.status = .crashed) := by
  obtain ⟨stopped, w₁, hs, h⟩ := runs_bind.mp h
  obtain ⟨hstop, _⟩ := stopped_follows hl (stopLocked_run hs.of_restrict)
  have hl' : stopped.launch.isSome := hstop.launch ▸ hl
  have hcounted := counted_follows hstop.consistent hl'
  obtain ⟨hstart, hr⟩ := started_follows hcounted.consistent (startLocked_run h)
  refine ⟨(hstop.trans hcounted).trans hstart, ?_⟩
  rw [← hstop.name]
  exact hr hl'

def asked (op : ServiceOp) (name : String) : Nat := if op = .restartService name then 1 else 0

def countRestarts (trace : List (ServiceOp × Except ServiceError Unit)) (name : String) : Nat :=
  trace.countP (fun entry => entry.1 = .restartService name)

theorem countRestarts_snoc (trace : List (ServiceOp × Except ServiceError Unit)) (op : ServiceOp)
    (r : Except ServiceError Unit) (name : String) :
    countRestarts (trace ++ [(op, r)]) name = countRestarts trace name + asked op name := by
  simp [countRestarts, asked, List.countP_append, List.countP_cons]

/-- One action on the service of a name, which leaves every other service as it is. -/
theorem forall₂_addressed {op : ServiceOp} {name : String} {before after : List ServiceInfo}
    (hnames : ((before ++ info :: after).map ServiceInfo.name).Nodup)
    (hc : ∀ i ∈ before ++ info :: after, Consistent i) (hname : info.name = name)
    (hop : ∀ other, other ≠ name → asked op other = 0) (hf : Follows (asked op info.name) info info') :
    List.Forall₂ (fun i i' => Follows (asked op i.name) i i') (before ++ info :: after)
      (before ++ info' :: after) := by
  have hrefl : ∀ {is : List ServiceInfo}, (∀ i ∈ is, Consistent i ∧ i.name ≠ name) →
      List.Forall₂ (fun i i' => Follows (asked op i.name) i i') is is := by
    intro is his
    refine List.forall₂_same.mpr ?_
    intro i hi
    rw [hop i.name (his i hi).2]
    exact .refl (his i hi).1
  rw [List.map_append, List.map_cons, List.nodup_append, List.nodup_cons] at hnames
  obtain ⟨_, ⟨hafter, _⟩, hbefore⟩ := hnames
  refine List.rel_append (hrefl ?_) (.cons hf (hrefl ?_))
  · intro i hi
    refine ⟨hc i (List.mem_append_left _ hi), ?_⟩
    rw [← hname]
    exact hbefore _ (List.mem_map_of_mem hi) _ (List.mem_cons_self ..)
  · intro i hi
    refine ⟨hc i (List.mem_append_right _ (List.mem_cons_of_mem _ hi)), ?_⟩
    rintro rfl
    exact hafter (hname ▸ List.mem_map_of_mem hi)

theorem forall₂_unchanged {op : ServiceOp} {services : List ServiceInfo}
    (hc : ∀ i ∈ services, Consistent i)
    (hop : ∀ i ∈ services, i.launch.isSome → asked op i.name = 0) :
    List.Forall₂ (fun i i' => Follows (asked op i.name) i i') services services := by
  refine List.forall₂_same.mpr ?_
  intro i hi
  refine ⟨rfl, rfl, ?_, fun _ => rfl, hc i hi⟩
  intro hl
  rw [hop i hi hl]
  exact (UInt32.add_zero _).symm

theorem eq_of_name {services : List ServiceInfo} (hnames : (services.map ServiceInfo.name).Nodup)
    {i j : ServiceInfo} (hi : i ∈ services) (hj : j ∈ services) (h : i.name = j.name) : i = j :=
  List.inj_on_of_nodup_map hnames hi hj h

theorem addressed_follows {M : Machine sys World} {op : ServiceOp} {name : String}
    {action : ServiceInfo → Io (ServiceInfo × Except ServiceError Unit)}
    {services services' : List ServiceInfo} (hnames : (services.map ServiceInfo.name).Nodup)
    (hc : ∀ i ∈ services, Consistent i) (hop : ∀ other, other ≠ name → asked op other = 0)
    (hact : ∀ {i i' r w w'}, Consistent i → i.launch.isSome → i.name = name →
      Runs M (action i) w (i', r) w' → Follows (asked op i.name) i i')
    (h : Addressed M name action services w services' r w') :
    List.Forall₂ (fun i i' => Follows (asked op i.name) i i') services services' := by
  cases h with
  | unknown _ hn _ => exact forall₂_unchanged hc (fun i hi _ => hop _ (hn i hi))
  | unmanaged i _ hi hn hl _ =>
      refine forall₂_unchanged hc ?_
      intro j hj hlaunch
      refine hop _ ?_
      intro hname
      rw [eq_of_name hnames hj hi (hname.trans hn.symm), hl] at hlaunch
      cases hlaunch
  | managed before after i i' _ _ hs _ hn hl hr =>
      subst hs
      have hi : Consistent i := hc i (List.mem_append_right _ (List.mem_cons_self ..))
      exact forall₂_addressed hnames hc hn hop (hact hi hl hn hr)

theorem traverse_follows {M : Machine sys World} {op : ServiceOp} {f : ServiceInfo → Io ServiceInfo}
    {services services' : List ServiceInfo} (hc : ∀ i ∈ services, Consistent i)
    (hop : ∀ name, asked op name = 0)
    (hf : ∀ {i i' w w'}, Consistent i → Runs M (f i) w i' w' → Follows 0 i i')
    (h : Runs M (Prog.traverse f services) w services' w') :
    List.Forall₂ (fun i i' => Follows (asked op i.name) i i') services services' := by
  have hall := List.forall₂_and_left _ _ |>.mpr ⟨hc, h.traverse_forall₂⟩
  refine hall.imp ?_
  rintro i i' ⟨hi, u, v, hr⟩
  rw [hop]
  exact hf hi hr

/-- What one operation does to the records of the services. -/
theorem op_follows {op : ServiceOp} {m m' : ServiceManager}
    (hnames : (m.services.map ServiceInfo.name).Nodup) (hc : ∀ i ∈ m.services, Consistent i)
    (h : Runs ((machine shared).restrict waitsSucceed) (op.run m) w (m', r) w') :
    List.Forall₂ (fun i i' => Follows (asked op i.name) i i') m.services m'.services := by
  cases op with
  | startAll =>
      obtain ⟨_, ht, _⟩ := startAll_run (run_of_unit h).1
      exact traverse_follows hc (fun _ => rfl) startAuto_follows ht
  | stopAll =>
      obtain ⟨_, _, ht, _⟩ := stopAll_run (run_of_unit h).1
      exact traverse_follows hc (fun _ => rfl) stopManaged_follows ht
  | pollExits =>
      have ht := (pollExits_run (run_of_unit h).1).1
      exact traverse_follows hc (fun _ => rfl)
        (fun hi hr => noticed_follows hi (pollInfo_run hr.of_restrict)) ht
  | startService name =>
      obtain ⟨services, rfl, ha⟩ := onManaged_run h
      exact addressed_follows hnames hc (fun _ _ => rfl)
        (fun hi _ _ hr => (started_follows hi (startLocked_run hr)).1) ha
  | stopService name =>
      obtain ⟨services, rfl, ha⟩ := onManaged_run h
      exact addressed_follows hnames hc (fun _ _ => rfl)
        (fun _ hl _ hr => (stopAction_follows hl hr).1) ha
  | restartService name =>
      obtain ⟨services, rfl, ha⟩ := onManaged_run h
      refine addressed_follows hnames hc ?_ ?_ ha
      · intro other hne
        exact if_neg (fun he => hne (ServiceOp.restartService.inj he).symm)
      · intro i i' r w w' _ hl hn hr
        rw [hn, asked, if_pos rfl]
        exact (restartAction_follows hl hr).1

/-- The services a manager holds, each with its restarts counted since it was new. -/
def Tracks (fresh : List ServiceInfo) (trace : List (ServiceOp × Except ServiceError Unit))
    (services : List ServiceInfo) : Prop :=
  List.Forall₂ (fun i i' => Follows (countRestarts trace i.name) i i') fresh services

theorem Tracks.names {fresh services : List ServiceInfo}
    {trace : List (ServiceOp × Except ServiceError Unit)} (h : Tracks fresh trace services) :
    services.map ServiceInfo.name = fresh.map ServiceInfo.name := by
  unfold Tracks at h
  generalize countRestarts trace = count at h
  induction h with
  | nil => rfl
  | cons hf _ ih => rw [List.map_cons, List.map_cons, hf.name, ih]

theorem Tracks.consistent {fresh services : List ServiceInfo}
    {trace : List (ServiceOp × Except ServiceError Unit)} (h : Tracks fresh trace services) :
    ∀ i ∈ services, Consistent i := by
  unfold Tracks at h
  generalize countRestarts trace = count at h
  induction h with
  | nil => exact fun _ hi => absurd hi List.not_mem_nil
  | cons hf _ ih =>
      rintro i (_ | ⟨_, hi⟩)
      · exact hf.consistent
      · exact ih i hi

theorem Tracks.step {fresh services services' : List ServiceInfo} {op : ServiceOp}
    {trace : List (ServiceOp × Except ServiceError Unit)} (h : Tracks fresh trace services)
    (hs : List.Forall₂ (fun i i' => Follows (asked op i.name) i i') services services') :
    Tracks fresh (trace ++ [(op, r)]) services' := by
  unfold Tracks at h ⊢
  simp only [countRestarts_snoc]
  generalize countRestarts trace = count at h
  induction h generalizing services' with
  | nil =>
      cases hs
      exact .nil
  | cons hf _ ih =>
      cases hs with
      | cons hf' hs => exact .cons (hf.trans (hf.name ▸ hf')) (ih hs)

theorem fresh_consistent {penv : OsEnv} {manifest : Manifest} {services : List ServiceInfo}
    (h : newServices penv manifest = .ok services) : ∀ i ∈ services, Consistent i := by
  intro i hi
  obtain ⟨service, _, hs⟩ := mem_of_collect_eq_ok h hi
  obtain ⟨_, _, _, hchild, hcapture, hl⟩ := newService_run hs
  rcases newLaunch_status hl with ⟨hl, hstatus⟩ | ⟨hl, hstatus⟩
  · constructor <;> rcases hstatus with hs | hs <;> simp [hl, hs, hchild, hcapture]
  · exact consistent_idle hl (.inl hstatus) hchild hcapture

theorem fresh_count {penv : OsEnv} {manifest : Manifest} {services : List ServiceInfo}
    (h : newServices penv manifest = .ok services) : ∀ i ∈ services, i.restartCount = 0 := by
  intro i hi
  obtain ⟨service, _, hs⟩ := mem_of_collect_eq_ok h hi
  exact (newService_run hs).2.2.1

def Answered (r : Except ServiceError Unit) (info : ServiceInfo) : Prop :=
  (r = .ok () ↔ info.status = .running) ∧
    ((∃ name message, r = .error (.launch name message)) ↔ info.status = .crashed)

theorem answered_of_cases {name : String} (h : r = .ok () ∧ info.status = .running ∨
    (∃ message, r = .error (.launch name message)) ∧ info.status = .crashed) : Answered r info := by
  rcases h with ⟨rfl, hs⟩ | ⟨⟨message, rfl⟩, hs⟩ <;> simp [Answered, hs]

/-- What an operation on one service does to it and to the others. -/
structure SingleLaw (op : ServiceOp) (name : String) (services services' : List ServiceInfo)
    (r : Except ServiceError Unit) : Prop where
  others : ∀ i : Nat, ∀ info : ServiceInfo, services[i]? = some info → info.name ≠ name →
    services'[i]? = some info
  rejected : (∃ n, r = .error (.unknown n) ∨ r = .error (.unmanaged n)) → services' = services
  started : op = .startService name ∨ op = .restartService name → ∀ i : Nat, ∀ info : ServiceInfo,
    services[i]? = some info → info.name = name → info.launch.isSome →
    ∃ info', services'[i]? = some info' ∧ Answered r info'
  stopped : op = .stopService name → ∀ i : Nat, ∀ info : ServiceInfo, services[i]? = some info →
    info.name = name → info.launch.isSome →
    r = .ok () ∧ ∃ info', services'[i]? = some info' ∧ info'.status = .stopped

theorem getElem?_split {before after : List ServiceInfo} {i : Nat} {a : ServiceInfo}
    (h : (before ++ info :: after)[i]? = some a) :
    (i = before.length ∧ a = info) ∨ ∀ info' : ServiceInfo, (before ++ info' :: after)[i]? = some a := by
  by_cases hi : i = before.length
  · subst hi
    exact .inl ⟨rfl, by simpa using h.symm⟩
  · refine .inr (fun info' => ?_)
    rw [← h]
    rcases Nat.lt_or_ge i before.length with hlt | hge
    · rw [List.getElem?_append_left hlt, List.getElem?_append_left hlt]
    · rw [List.getElem?_append_right hge, List.getElem?_append_right hge]
      have hlt : before.length < i := by omega
      obtain ⟨k, hk⟩ := Nat.exists_eq_succ_of_ne_zero (Nat.sub_ne_zero_of_lt hlt)
      rw [hk, List.getElem?_cons_succ, List.getElem?_cons_succ]

structure Acted (op : ServiceOp) (name : String) (r : Except ServiceError Unit) (info : ServiceInfo) :
    Prop where
  known : ¬ ∃ n, r = .error (.unknown n) ∨ r = .error (.unmanaged n)
  started : op = .startService name ∨ op = .restartService name → Answered r info
  stopped : op = .stopService name → r = .ok () ∧ info.status = .stopped

theorem acted_of_start {op : ServiceOp} {name label : String} (hop : op ≠ .stopService name)
    (h : r = .ok () ∧ info.status = .running ∨
      (∃ message, r = .error (.launch label message)) ∧ info.status = .crashed) :
    Acted op name r info := by
  refine ⟨?_, fun _ => answered_of_cases h, fun he => absurd he hop⟩
  rcases h with ⟨rfl, _⟩ | ⟨⟨message, rfl⟩, _⟩ <;> simp

theorem addressed_law {M : Machine sys World} {op : ServiceOp} {name : String}
    {action : ServiceInfo → Io (ServiceInfo × Except ServiceError Unit)}
    {services services' : List ServiceInfo} (hnames : (services.map ServiceInfo.name).Nodup)
    (hact : ∀ {i i' r w w'}, i ∈ services → i.launch.isSome →
      Runs M (action i) w (i', r) w' → Acted op name r i')
    (h : Addressed M name action services w services' r w') :
    SingleLaw op name services services' r := by
  cases h with
  | unknown _ hn _ =>
      have habsent : ∀ i : Nat, ∀ info : ServiceInfo, services[i]? = some info → info.name ≠ name :=
        fun _ info hi => hn info (List.mem_of_getElem? hi)
      exact ⟨fun _ _ hi _ => hi, fun _ => rfl, fun _ i info hi h => absurd h (habsent i info hi),
        fun _ i info hi h => absurd h (habsent i info hi)⟩
  | unmanaged j _ hj hn hl _ =>
      have hinert : ∀ i : Nat, ∀ info : ServiceInfo, services[i]? = some info → info.name = name →
          ¬ info.launch.isSome := by
        intro i info hi hname hlaunch
        rw [eq_of_name hnames (List.mem_of_getElem? hi) hj (hname.trans hn.symm), hl] at hlaunch
        cases hlaunch
      exact ⟨fun _ _ hi _ => hi, fun _ => rfl, fun _ i info hi h hl => absurd hl (hinert i info hi h),
        fun _ i info hi h hl => absurd hl (hinert i info hi h)⟩
  | managed before after j j' _ _ hs _ hn hl hr =>
      subst hs
      have hacted := hact (List.mem_append_right _ (List.mem_cons_self ..)) hl hr
      have hself : ∀ i : Nat, ∀ info : ServiceInfo, (before ++ j :: after)[i]? = some info →
          info.name = name → (before ++ j' :: after)[i]? = some j' := by
        intro i info hi hname
        have hlen : i < ((before ++ j :: after).map ServiceInfo.name).length := by
          rw [List.length_map]
          exact (List.getElem?_eq_some_iff.mp hi).1
        obtain rfl : i = before.length := by
          refine (List.getElem?_inj hlen hnames).mp ?_
          rw [List.getElem?_map, List.getElem?_map, hi]
          simp [hname, hn]
        simp
      refine ⟨?_, fun h => absurd h hacted.known, ?_, ?_⟩
      · intro i info hi hname
        rcases getElem?_split hi with ⟨_, rfl⟩ | h
        · exact absurd hn hname
        · exact h j'
      · exact fun hop i info hi hname _ => ⟨j', hself i info hi hname, hacted.started hop⟩
      · intro hop i info hi hname _
        exact ⟨(hacted.stopped hop).1, j', hself i info hi hname, (hacted.stopped hop).2⟩

/-- The law of the three operations on one service. -/
theorem single_law {op : ServiceOp} {name : String} {m m' : ServiceManager}
    (hnames : (m.services.map ServiceInfo.name).Nodup) (hc : ∀ i ∈ m.services, Consistent i)
    (hop : op.target = some name)
    (h : Runs ((machine shared).restrict waitsSucceed) (op.run m) w (m', r) w') :
    m'.shared = m.shared ∧ m'.monitor = m.monitor ∧ SingleLaw op name m.services m'.services r := by
  cases op with
  | startService name =>
      cases hop
      obtain ⟨services, rfl, ha⟩ := onManaged_run h
      refine ⟨rfl, rfl, addressed_law hnames ?_ ha⟩
      intro i i' r w w' hi hl hr
      exact acted_of_start (by simp) ((started_follows (hc i hi) (startLocked_run hr)).2 hl)
  | restartService name =>
      cases hop
      obtain ⟨services, rfl, ha⟩ := onManaged_run h
      refine ⟨rfl, rfl, addressed_law hnames ?_ ha⟩
      intro i i' r w w' _ hl hr
      exact acted_of_start (by simp) (restartAction_follows hl hr).2
  | stopService name =>
      cases hop
      obtain ⟨services, rfl, ha⟩ := onManaged_run h
      refine ⟨rfl, rfl, addressed_law hnames ?_ ha⟩
      intro i i' r w w' _ hl hr
      obtain ⟨_, hstatus, rfl⟩ := stopAction_follows hl hr
      exact ⟨by simp, by simp, fun _ => ⟨rfl, hstatus⟩⟩
  | _ => cases hop

theorem session_tracks {toml : Reader} {text : String} {manifest : Manifest} {penv : OsEnv}
    {logDir cwd : Path} {limits : LogLimits} {m₀ m : ServiceManager} {w w₀ w' : World}
    {trace : List (ServiceOp × Except ServiceError Unit)}
    (hmanifest : parseManifest toml text = .ok manifest)
    (hnew : Runs ((machine shared).restrict waitsSucceed)
      (ServiceManager.new penv manifest logDir cwd limits) w (.ok m₀) w₀)
    (hrun : Session ((machine shared).restrict waitsSucceed) ServiceOp.run m₀ w₀ trace m w') :
    (m.services.map ServiceInfo.name).Nodup ∧ Tracks m₀.services trace m.services := by
  obtain ⟨_, hservices, _⟩ := new_run hnew
  have hnames : (m₀.services.map ServiceInfo.name).Nodup := by
    rw [newServices_names hservices]
    exact (parseManifest_names hmanifest).1
  have htracks := hrun.invariant (fun trace m _ => Tracks m₀.services trace m.services) ?_ ?_
  · exact ⟨htracks.names ▸ hnames, htracks⟩
  · intro _ _
    refine List.forall₂_same.mpr ?_
    intro i hi
    exact .refl (fresh_consistent hservices i hi)
  · intro trace m _ op m' r _ ht hr
    exact ht.step (op_follows (ht.names ▸ hnames) ht.consistent hr)

/-- In every state that operations on the services reach, every record is
consistent; one that is not managed is as it was at first, and the others have
counted their restarts. Every operation on one service keeps to its law. -/
theorem service_states (shared : Bool) (toml : Reader) (text : String) (manifest : Manifest)
    (penv : OsEnv) (logDir cwd : Path) (limits : LogLimits) (m₀ m : ServiceManager) (w w₀ w' : World)
    (trace : List (ServiceOp × Except ServiceError Unit))
    (hmanifest : parseManifest toml text = .ok manifest)
    (hnew : Runs ((machine shared).restrict waitsSucceed)
      (ServiceManager.new penv manifest logDir cwd limits) w (.ok m₀) w₀)
    (hrun : Session ((machine shared).restrict waitsSucceed) ServiceOp.run m₀ w₀ trace m w') :
    m.services.length = m₀.services.length ∧
    (∀ (i : Nat) (fresh info : ServiceInfo), m₀.services[i]? = some fresh →
      m.services[i]? = some info →
      Consistent info ∧ info.name = fresh.name ∧ (info.launch = none → info = fresh) ∧
        info.restartCount =
          if info.launch.isSome then .ofNat (countRestarts trace info.name) else 0) ∧
    ∀ (op : ServiceOp) (name : String) (m' : ServiceManager) (r : Except ServiceError Unit)
      (w'' : World), op.target = some name →
      Runs ((machine shared).restrict waitsSucceed) (op.run m) w' (m', r) w'' →
      m'.shared = m.shared ∧ m'.monitor = m.monitor ∧
        SingleLaw op name m.services m'.services r := by
  obtain ⟨hnames, htracks⟩ := session_tracks hmanifest hnew hrun
  refine ⟨htracks.length_eq.symm, ?_, ?_⟩
  · intro i fresh info hfresh hinfo
    obtain ⟨hi₀, rfl⟩ := List.getElem?_eq_some_iff.mp hfresh
    obtain ⟨hi, rfl⟩ := List.getElem?_eq_some_iff.mp hinfo
    have hf : Follows (countRestarts trace m₀.services[i].name) m₀.services[i] m.services[i] :=
      htracks.get hi₀ hi
    have hzero : (m₀.services[i]).restartCount = 0 := by
      obtain ⟨_, hservices, _⟩ := new_run hnew
      exact fresh_count hservices _ (List.getElem_mem hi₀)
    refine ⟨hf.consistent, hf.name, fun hl => hf.inert (hf.launch ▸ hl), ?_⟩
    split
    · rename_i hl
      rw [hf.restartCount (hf.launch ▸ hl), hzero, hf.name, UInt32.zero_add]
    · rename_i hl
      have hl : (m.services[i]).launch = none := by simpa using hl
      rw [hf.inert (hf.launch ▸ hl), hzero]
  · intro op name m' r w'' hop hr
    exact single_law hnames htracks.consistent hop hr

def unlogged : Driver (machine true) := Steady.driver true unwritable

def startedOnce : (ServiceManager × Except ServiceError Unit) × World :=
  unlogged.run (ServiceOp.run (.startService "app") idleManager) emptyWorld

def exitedWorld : World := Steady.exitLeader 1 (.code 3) startedOnce.2

def polled : (ServiceManager × Except ServiceError Unit) × World :=
  unlogged.run (ServiceOp.run .pollExits startedOnce.1.1) exitedWorld

def restarted : (ServiceManager × Except ServiceError Unit) × World :=
  unlogged.run (ServiceOp.run (.restartService "app") polled.1.1) polled.2

theorem unlogged_runs {p : Io (ServiceManager × Except ServiceError Unit)} {w : World}
    (h : ∀ e ∈ unlogged.record p w, waitsSucceed e.1 e.2) :
    Runs ((machine true).restrict waitsSucceed) p w (unlogged.run p w).1 (unlogged.run p w).2 :=
  unlogged.runs_restrict p trivial h

theorem restarted_session :
    Session ((machine true).restrict waitsSucceed) ServiceOp.run idleManager emptyWorld
      ([] ++ [(.startService "app", startedOnce.1.2)] ++ [(.pollExits, polled.1.2)] ++
        [(.restartService "app", restarted.1.2)]) restarted.1.1 restarted.2 := by
  have hstart : ∀ e ∈ unlogged.record (ServiceOp.run (.startService "app") idleManager) emptyWorld,
      waitsSucceed e.1 e.2 := by decide +kernel
  have hpoll : ∀ e ∈ unlogged.record (ServiceOp.run .pollExits startedOnce.1.1) exitedWorld,
      waitsSucceed e.1 e.2 := by decide +kernel
  have hrestart : ∀ e ∈ unlogged.record (ServiceOp.run (.restartService "app") polled.1.1) polled.2,
      waitsSucceed e.1 e.2 := by decide +kernel
  have hexit : (machine true).drift startedOnce.2 exitedWorld :=
    Steady.exitLeader_drift (g := ⟨"app", .alive, 0, []⟩) _ rfl rfl
  have hstarted := Session.step (.start (Machine.drift_refl _ _)) (unlogged_runs hstart)
  exact (hstarted.step ((unlogged_runs hpoll).drift_left hexit)).step (unlogged_runs hrestart)

/-- A service that has been started, has exited and was polled, and is then restarted. -/
theorem service_states_restarted :
    ∃ info ∈ restarted.1.1.services, info.name = "app" ∧ info.status = .running ∧ Consistent info ∧
      info.restartCount = 1 := by
  have hnew : Runs ((machine true).restrict waitsSucceed)
      (ServiceManager.new (fun _ => none) idleManifest (parse "/p/logs") (parse "/p") .default) emptyWorld
      (.ok idleManager) emptyWorld := new_runs (fun _ => none) idleManifest _ _ ⟨rfl, trivial⟩
  obtain ⟨_, hrecords, _⟩ := service_states true idleReader idleText idleManifest (fun _ => none) (parse "/p/logs")
    (parse "/p") .default idleManager restarted.1.1 emptyWorld emptyWorld restarted.2 _ parse_idle hnew
    restarted_session
  obtain ⟨hconsistent, hname, _, hcount⟩ := hrecords 0 _ _ rfl rfl
  exact ⟨_, List.mem_of_getElem? (i := 0) rfl, hname, by decide +kernel, hconsistent, hcount⟩

def externalText : String :=
  withHeader <|
    "[services.external]\n"

def externalTable : Table :=
  headedTable [("external", .table [])]

def externalReader : Reader :=
  .knowing externalText externalTable (distinctKeys_headedTable (by simp))

def externalManifest : Manifest :=
  headedManifest [⟨"external", none, [], [], false, true⟩]

theorem parse_external : parseManifest externalReader externalText = .ok externalManifest :=
  parseManifest_knowing _ _ _

def externalManager : ServiceManager :=
  ⟨⟨parse "/p/logs", parse "/p", .default⟩, [⟨"external", none, .unmanaged, none, 0, none, none⟩], false⟩

theorem external_session :
    Session ((machine true).restrict waitsSucceed) ServiceOp.run externalManager emptyWorld
      [(.restartService "external", .error (.unmanaged "external"))] externalManager emptyWorld :=
  .single (.pure (Machine.drift_refl _ _))

/-- A restart asked of a service that is not managed is refused without being counted. -/
theorem restart_uncounted :
    parseManifest externalReader externalText = .ok externalManifest ∧
    ∃ trace m w, Session ((machine true).restrict waitsSucceed) ServiceOp.run externalManager emptyWorld
      trace m w ∧ ∃ info ∈ m.services, info.restartCount.toNat ≠ countRestarts trace info.name :=
  ⟨parse_external, _, _, _, external_session, _, List.mem_cons_self .., by decide⟩

end LocalDevProxy.ServiceStates
