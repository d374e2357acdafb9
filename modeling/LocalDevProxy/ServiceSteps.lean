import LocalDevProxy.TerminateTree

namespace LocalDevProxy.ServiceSteps

open Lib.Interaction Os Process ProcessGroups HarmlessCalls TerminateTree

variable {shared : Bool} {u v w w' : World} {α : Type}

/-- No group appears or goes away. -/
structure Still (u v : World) : Prop where
  persists : Persists u v
  spawnless : Spawnless u v

theorem Still.trans {x : World} (h : Still u v) (h' : Still v x) : Still u x :=
  ⟨h.persists.trans h'.persists, fun id hg => h'.spawnless id (h.spawnless id hg)⟩

theorem still_drift (h : (machine shared).drift u v) : Still u v :=
  ⟨persists_drift h, fun _ hg => drift_none h hg⟩

theorem runs_still {p : Io α} {a : α} (hp : p.Only (fun c : Call => ¬ IsSpawn c))
    (h : Runs (machine shared) p w a w') : Still w w' :=
  ⟨runs_persists h, runs_spawnless hp h⟩

theorem harmless_still {p : Io α} {a : α} (hp : p.Only Harmless)
    (h : Runs (machine shared) p w a w') : Still w w' :=
  runs_still (hp.mono (fun _ hc => hc.not_isSpawn)) h

theorem perform_still {c : Call} {b : Ans c} (h : Runs (machine shared) (perform c) w b w')
    (hc : Harmless c) : Still w w' :=
  harmless_still (Prog.only_perform hc) h

/-- A child was spawned for its owner, and no other group appeared. -/
structure Spawned (owner : String) (child : Child) (u v : World) : Prop where
  persists : Persists u v
  fresh : u.groups child.id = none
  owned : ∃ g, v.groups child.id = some g ∧ g.owner = owner
  others : ∀ id, id ≠ child.id → u.groups id = none → v.groups id = none

theorem Spawned.after {x : World} {owner : String} {child : Child} (h : Still u v)
    (hs : Spawned owner child v x) : Spawned owner child u x where
  persists := h.persists.trans hs.persists
  fresh := by
    cases hg : u.groups child.id with
    | none => rfl
    | some g =>
        obtain ⟨g', hg', _⟩ := h.persists child.id g hg
        rw [hs.fresh] at hg'
        cases hg'
  owned := hs.owned
  others := fun id hne hg => hs.others id hne (h.spawnless id hg)

theorem Spawned.before {x : World} {owner : String} {child : Child}
    (hs : Spawned owner child u v) (h : Still v x) : Spawned owner child u x where
  persists := hs.persists.trans h.persists
  fresh := hs.fresh
  owned := by
    obtain ⟨g, hg, ho⟩ := hs.owned
    obtain ⟨g', hg', ha⟩ := h.persists child.id g hg
    exact ⟨g', hg', ha.owner.trans ho⟩
  others := fun id hne hg => h.spawnless id (hs.others id hne hg)

theorem stopOrphans_still {child : Option Child} {a : Unit}
    (h : Runs (machine shared) (ServiceInfo.stopOrphans child) w a w') : Still w w' := by
  cases child with
  | none => exact still_drift (runs_pure.mp h).2
  | some child => exact runs_still (stopOrphanedGroup_only (by simp [IsSpawn])) h

theorem stopChild_still {child : Child} {status : ExitStatus}
    (h : Runs (machine shared) (stopChild child) w status w') : Still w w' := by
  refine runs_still ?_ h
  apply stopChild_only <;> simp [IsSpawn]

theorem finishCapture_run {info info' : ServiceInfo}
    (h : Runs (machine shared) info.finishCapture w info' w') :
    info' = { info with capture := none } ∧ Still w w' := by
  have hs := harmless_still (finishCapture_harmless info) h
  unfold ServiceInfo.finishCapture at h
  cases hc : info.capture with
  | none =>
      rw [hc] at h
      obtain ⟨rfl, _⟩ := runs_pure.mp h
      exact ⟨by rw [← hc], hs⟩
  | some capture =>
      rw [hc] at h
      obtain ⟨_, _, _, h⟩ := runs_bind.mp h
      exact ⟨(runs_pure.mp h).1, hs⟩

def exited (info : ServiceInfo) (status : ExitStatus) : ServiceInfo :=
  { info with child := none, capture := none, exitCode := exitCode status, status := .crashed }

theorem markExited_run {info info' : ServiceInfo} {status : ExitStatus}
    (h : Runs (machine shared) (info.markExited status) w info' w') :
    info' = exited info status ∧ Still w w' := by
  obtain ⟨_, _, ho, h⟩ := runs_bind.mp h
  obtain ⟨_, _, hf, h⟩ := runs_bind.mp h
  obtain ⟨rfl, hd⟩ := runs_pure.mp h
  obtain ⟨rfl, hs⟩ := finishCapture_run hf
  exact ⟨rfl, ((stopOrphans_still ho).trans hs).trans (still_drift hd)⟩

theorem tryWait_still {site : Site} {child : Child} {polled : Polled}
    (h : Runs (machine shared) (perform (.tryWait site child)) w polled w') : Still w w' :=
  runs_still (Prog.only_perform (by simp [IsSpawn])) h

theorem tryWait_exited {site : Site} {child : Child} {status : ExitStatus}
    (h : Runs (machine shared) (perform (.tryWait site child)) w (.exited status) w') :
    ObservedAt w' child.id := by
  obtain ⟨w₁, w₂, _, ha, hd⟩ := runs_perform.mp h
  obtain ⟨⟨g, hg, _⟩, rfl⟩ := (show (∃ g, w₁.groups child.id = some g ∧
    (g.leader = .exited status ∨ g.leader = .reaped status)) ∧
      w₂ = w₁.modify child.id (fun g => g.reap status) from ha)
  have ho : ObservedAt (w₁.modify child.id (fun g => g.reap status)) child.id :=
    ⟨g.reap status, by rw [modify_groups_self, hg, Option.map_some], .inl (List.mem_cons_self ..)⟩
  exact ho.persists (persists_drift hd)

theorem stopChild_accounted {child : Child} {status : ExitStatus} (hex : (w.groups child.id).isSome)
    (h : Runs (machine shared) (stopChild child) w status w') : AccountedAt w' child.id := by
  refine (stopChild_settles hex h).accounted ?_
  obtain ⟨polled, w₁, ht, h⟩ := runs_bind.mp h
  have hterminated : ∀ {v}, (v.groups child.id).isSome →
      Runs (machine shared) (terminateTree child) v status w' → ObservedAt w' child.id := by
    intro v hv h
    obtain ⟨_, w₂, hr, h⟩ := runs_bind.mp h
    unfold requestTreeStop signalGroup at hr
    rw [pidT_child] at hr
    obtain ⟨v₁, v₂, hd, ha, hd'⟩ := runs_perform.mp hr
    obtain ⟨g, hg⟩ := Option.isSome_iff_exists.mp ((persists_drift hd).isSome hv)
    obtain rfl : v₂ = v₁.modify child.id (fun g => g.receive .term) := ha
    have ho : ObservedAt (v₁.modify child.id (fun g => g.receive .term)) child.id :=
      ⟨g.receive .term, by rw [modify_groups_self, hg, Option.map_some],
        .inr (List.mem_cons_self ..)⟩
    exact ho.persists ((persists_drift hd').trans (runs_persists h))
  cases polled with
  | exited status => exact (tryWait_exited ht).persists (runs_persists h)
  | running => exact hterminated ((runs_persists ht).isSome hex) h
  | error => exact hterminated ((runs_persists ht).isSome hex) h

inductive Launched (info : ServiceInfo) (u : World) :
    ServiceInfo → Except ServiceError Unit → World → Prop
  | running (child : Child) (capture : LogCapture) (v : World) : Spawned info.name child u v →
      Launched info u
        { info with capture := some capture, child := some child, status := .running, exitCode := none }
        (.ok ()) v
  | failed (message : String) (v : World) : Still u v →
      Launched info u { info with capture := none, status := .crashed }
        (.error (.launch info.name message)) v

theorem Launched.after {info info' : ServiceInfo} {r : Except ServiceError Unit} {x : World}
    (hs : Still u v) (h : Launched info v info' r x) : Launched info u info' r x := by
  cases h with
  | running child capture _ hp => exact .running child capture _ (hp.after hs)
  | failed message _ hp => exact .failed message _ (hs.trans hp)

theorem Launched.uncaptured {info info' : ServiceInfo} {r : Except ServiceError Unit}
    (h : Launched { info with capture := none } u info' r v) : Launched info u info' r v := by
  cases h with
  | running child capture _ hp => exact .running child capture _ hp
  | failed message _ hp => exact .failed message _ hp

theorem spawn_spawned {owner : String} {command : List String} {env : Environment.OsEnv}
    {cwd : Paths.Path} {child : Child}
    (h : Runs (machine shared) (perform (.spawn owner command env cwd)) w (.ok child) w') :
    Spawned owner child w w' := by
  obtain ⟨w₁, w₂, hd, ha, hd'⟩ := runs_perform.mp h
  obtain ⟨hn, rfl⟩ := (show w₁.groups child.id = none ∧
    w₂ = w₁.insert child.id ⟨owner, .alive, 0, []⟩ from ha)
  have hp := persists_answers (c := .spawn owner command env cwd) (b := .ok child) ha
  have hs : Spawned owner child w₁ (w₁.insert child.id ⟨owner, .alive, 0, []⟩) :=
    ⟨hp, hn, ⟨_, insert_groups_self .., rfl⟩,
      fun id hne hg => by rw [insert_groups_of_ne w₁ _ hne, hg]⟩
  exact (hs.after (still_drift hd)).before (still_drift hd')

theorem spawnService_run {sh : Shared} {launch : Launch} {info info' : ServiceInfo}
    {log : LogRotation.RotatingLogWriter} {r : Except ServiceError Unit} (hcapture : info.capture = none)
    (h : Runs (machine shared) (spawnService sh launch info log) w (info', r) w') :
    Launched info w info' r w' := by
  obtain ⟨spawned, w₁, hs, h⟩ := runs_bind.mp h
  cases spawned with
  | ok child =>
      obtain ⟨capture, w₂, hp, h⟩ := runs_bind.mp h
      obtain ⟨he, hd⟩ := runs_pure.mp h
      cases he
      have hpump := (perform_still hp trivial).trans (still_drift hd)
      exact .running child capture w' ((spawn_spawned hs).before hpump)
  | error err =>
      have hs : Still w w₁ := by
        obtain ⟨w₀, w₂, hd, rfl, hd'⟩ := runs_perform.mp hs
        exact (still_drift hd).trans (still_drift hd')
      obtain ⟨_, w₂, hw, h⟩ := runs_bind.mp h
      obtain ⟨he, hd⟩ := runs_pure.mp h
      cases he
      have hw := (harmless_still (writeFmt_harmless _ _) hw).trans (still_drift hd)
      have hf : Launched info w _ _ w' :=
        .failed (launchMessage (launch.command.headD "") err) w' (hs.trans hw)
      rwa [← hcapture] at hf

theorem launchService_run {sh : Shared} {launch : Launch} {info info' : ServiceInfo}
    {r : Except ServiceError Unit}
    (h : Runs (machine shared) (launchService sh launch info) w (info', r) w') :
    Launched info w info' r w' := by
  obtain ⟨_, w₁, hf, h⟩ := runs_bind.mp h
  obtain ⟨rfl, hs⟩ := finishCapture_run hf
  refine Launched.uncaptured (.after hs ?_)
  obtain ⟨opened, w₂, ho, h⟩ := runs_bind.mp h
  have hopen := harmless_still (openWriter_harmless _ _) ho
  cases opened with
  | error err =>
      obtain ⟨he, hd⟩ := runs_pure.mp h
      cases he
      exact .failed _ _ (hopen.trans (still_drift hd))
  | ok log =>
      obtain ⟨_, w₃, ht, h⟩ := runs_bind.mp h
      obtain ⟨_, w₄, hw, h⟩ := runs_bind.mp h
      have hheader := (perform_still ht trivial).trans
        (harmless_still (writeFmt_harmless _ _) hw)
      exact .after (hopen.trans hheader) (spawnService_run rfl h)

inductive Stopped (info : ServiceInfo) (u : World) : ServiceInfo → World → Prop
  | idle (v : World) : info.child = none → Still u v →
      Stopped info u { info with capture := none, status := .stopped } v
  | ended (child : Child) (status : ExitStatus) (v : World) : info.child = some child → Still u v →
      ((u.groups child.id).isSome → AccountedAt v child.id) →
      Stopped info u { exited info status with status := .stopped } v

theorem stopLocked_run {info info' : ServiceInfo}
    (h : Runs (machine shared) (stopLocked info) w info' w') : Stopped info w info' w' := by
  unfold stopLocked at h
  cases hc : info.child with
  | none =>
      rw [hc] at h
      obtain ⟨_, w₁, hf, h⟩ := runs_bind.mp h
      obtain ⟨rfl, hd⟩ := runs_pure.mp h
      obtain ⟨rfl, hs⟩ := finishCapture_run hf
      exact .idle w' hc (hs.trans (still_drift hd))
  | some child =>
      rw [hc] at h
      obtain ⟨status, w₁, hs, h⟩ := runs_bind.mp h
      obtain ⟨_, w₂, hf, h⟩ := runs_bind.mp h
      obtain ⟨rfl, hd⟩ := runs_pure.mp h
      obtain ⟨rfl, hfinish⟩ := finishCapture_run hf
      have hafter := hfinish.trans (still_drift hd)
      exact .ended child status w' hc ((stopChild_still hs).trans hafter)
        (fun hex => (stopChild_accounted hex hs).persists hafter.persists)

inductive Noticed (info : ServiceInfo) (u : World) : ServiceInfo → World → Prop
  | kept (v : World) : Still u v → Noticed info u info v
  | exited (child : Child) (status : ExitStatus) (v : World) : info.status = .running →
      info.child = some child → Still u v → ((u.groups child.id).isSome → AccountedAt v child.id) →
      Noticed info u (exited info status) v

theorem markExited_accounted {info info' : ServiceInfo} {child : Child} {status : ExitStatus}
    (hchild : info.child = some child) (hobs : ObservedAt w child.id)
    (h : Runs (machine shared) (info.markExited status) w info' w') : AccountedAt w' child.id := by
  have hex : (w.groups child.id).isSome := by
    obtain ⟨g, hg, _⟩ := hobs
    exact Option.isSome_iff_exists.mpr ⟨g, hg⟩
  exact (markExited_settles hchild hex h).accounted (hobs.persists (runs_persists h))

theorem pollInfo_run {info info' : ServiceInfo}
    (h : Runs (machine shared) (pollInfo info) w info' w') : Noticed info w info' w' := by
  unfold pollInfo at h
  split at h
  · obtain ⟨rfl, hd⟩ := runs_pure.mp h
    exact .kept w' (still_drift hd)
  · rename_i hstatus
    cases hc : info.child with
    | none =>
        rw [hc] at h
        obtain ⟨rfl, hd⟩ := runs_pure.mp h
        exact .kept w' (still_drift hd)
    | some child =>
        rw [hc] at h
        obtain ⟨polled, w₁, ht, h⟩ := runs_bind.mp h
        have hstill := tryWait_still ht
        cases polled with
        | running =>
            obtain ⟨rfl, hd⟩ := runs_pure.mp h
            exact .kept w' (hstill.trans (still_drift hd))
        | error =>
            obtain ⟨rfl, hd⟩ := runs_pure.mp h
            exact .kept w' (hstill.trans (still_drift hd))
        | exited status =>
            obtain ⟨rfl, hm⟩ := markExited_run h
            exact .exited child status w' (by simpa using hstatus) hc (hstill.trans hm)
              (fun _ => markExited_accounted hc (tryWait_exited ht) h)

variable {P : (c : Call) → Ans c → Prop}

/-- How starting a service can end. In the last case the child that the
service held could not be polled. -/
inductive Started (P : (c : Call) → Ans c → Prop) (info : ServiceInfo) (u : World) :
    ServiceInfo → Except ServiceError Unit → World → Prop
  | inert (v : World) : info.launch = none → Still u v → Started P info u info (.ok ()) v
  | already (child : Child) (v : World) : info.launch.isSome → info.child = some child → Still u v →
      Started P info u info (.ok ()) v
  | first {info' : ServiceInfo} {r : Except ServiceError Unit} {v : World} : info.launch.isSome →
      info.child = none → Launched info u info' r v → Started P info u info' r v
  | again (child : Child) (status : ExitStatus) {info' : ServiceInfo} {r : Except ServiceError Unit}
      {u' v : World} : info.launch.isSome → info.child = some child → Still u u' →
      AccountedAt u' child.id → Launched (exited info status) u' info' r v →
      Started P info u info' r v
  | unpolled (child : Child) {info' : ServiceInfo} {r : Except ServiceError Unit} {v : World} :
      info.launch.isSome → info.child = some child → P (.tryWait .startLocked child) .error →
      Launched info u info' r v → Started P info u info' r v

theorem startLocked_run {sh : Shared} {info info' : ServiceInfo} {r : Except ServiceError Unit}
    (h : Runs ((machine shared).restrict P) (startLocked sh info) w (info', r) w') :
    Started P info w info' r w' := by
  unfold startLocked at h
  cases hl : info.launch with
  | none =>
      rw [hl] at h
      obtain ⟨he, hd⟩ := runs_pure.mp h
      cases he
      exact .inert w' hl (still_drift hd)
  | some launch =>
      have hlaunch : info.launch.isSome := Option.isSome_iff_exists.mpr ⟨launch, hl⟩
      rw [hl] at h
      cases hc : info.child with
      | none =>
          rw [hc] at h
          exact .first hlaunch hc (launchService_run h.of_restrict)
      | some child =>
          rw [hc] at h
          obtain ⟨polled, w₁, ht, h⟩ := runs_bind.mp h
          have hstill := tryWait_still ht.of_restrict
          cases polled with
          | running =>
              obtain ⟨he, hd⟩ := runs_pure.mp h
              cases he
              exact .already child w' hlaunch hc (hstill.trans (still_drift hd))
          | exited status =>
              obtain ⟨_, w₂, hm, h⟩ := runs_bind.mp h
              have hacc := markExited_accounted hc (tryWait_exited ht.of_restrict) hm.of_restrict
              obtain ⟨rfl, hmark⟩ := markExited_run hm.of_restrict
              exact .again child status hlaunch hc (hstill.trans hmark) hacc
                (launchService_run h.of_restrict)
          | error =>
              obtain ⟨_, _, _, ha, _⟩ := runs_perform.mp ht
              exact .unpolled child hlaunch hc ha.2 ((launchService_run h.of_restrict).after hstill)

end LocalDevProxy.ServiceSteps
