import LocalDevProxy.ServiceLocks

namespace LocalDevProxy.SerialCalls

open Lib.Interaction Lib.Transitions Os Process ServiceOperations ServiceLocks
open ChildHandles (idleManager)

variable {shared : Shared} {M : Machine sys World} {s s' : Threads} {e : ServiceLocks.Event} {i j k : Nat}

/-- A caller comes in only when every other one is outside, as those of the application do,
which share the manager behind a lock. -/
def OneAtATime (s : Threads) : ServiceLocks.Event → Prop
  | .call _ _ => ∀ k, s.place k = .outside
  | _ => True

/-- The operations of the callers in order, and polls of the monitor between them. -/
inductive Polled : List (ServiceOp × Except ServiceError Unit) → List (ServiceOp × Except ServiceError Unit) → Prop
  | start : Polled [] []
  | own {done trace} (e) : Polled done trace → Polled (done ++ [e]) (trace ++ [e])
  | poll {done trace} : Polled done trace → Polled done (trace ++ [(.pollExits, .ok ())])

def Quiet : Place → Prop
  | .asks task | .works task => task ≠ .change .stopAll
  | .asksSlot side | .holdsSlot side => side = .stopping
  | .outside | .joins _ => True

/-- The services have been started, and the monitor has not. -/
def Launched (p : Place) : Prop := p = .asksSlot .starting ∨ p = .holdsSlot .starting

/-- The monitor has ended, and the services have not been stopped. -/
def Unwatched (p : Place) : Prop := p = .asks (.change .stopAll) ∨ p = .works (.change .stopAll)

def Joins : Place → Bool
  | .joins _ => true
  | _ => false

/-- A manager that is asked for one operation after another, as far as it has come when one caller is in
the middle of an operation: it does the whole operation at once, with the services or with the monitor. -/
inductive Behind (shared : Shared) (M : Machine sys World) (s : Threads) (p : Place) :
    ServiceManager → World → List (ServiceOp × Except ServiceError Unit) → Prop
  | quiet : Quiet p → Behind shared M s p ⟨shared, s.infos, s.slot.isSome || Joins p⟩ s.world s.finished
  | launched {services : List ServiceInfo} {w : World} : Launched p → s.slot = none →
      Runs M (Prog.traverse (startAuto shared) services) w s.infos s.world →
      Behind shared M s p ⟨shared, services, false⟩ w s.finished
  | started {j : Nat} : Launched p → s.slot = some j →
      Behind shared M s p ⟨shared, s.infos, true⟩ s.world (s.finished ++ [(.startAll, .ok ())])
  | unwatched {m : ServiceManager} {w : World} : Unwatched p → s.slot = none →
      Runs M (m.stopMonitor) w ⟨shared, s.infos, false⟩ s.world → Behind shared M s p m w s.finished

/-- What the threads have come to is what the manager comes to in a session. -/
inductive Follows (shared : Shared) (M : Machine sys World) (m₀ : ServiceManager) (w₀ : World) (s : Threads) (i : Nat) :
    Prop
  | intro {m : ServiceManager} {w : World} {done trace : List (ServiceOp × Except ServiceError Unit)}
      (hbehind : Behind shared M s (s.place i) m w done) (hpolled : Polled done trace)
      (hsession : Session M ServiceOp.run m₀ w₀ trace m w)

variable {m m' : ServiceManager} {w w' : World} {done trace : List (ServiceOp × Except ServiceError Unit)}

theorem session_drift {m₀ : ServiceManager} {w₀ : World} (h : Session M ServiceOp.run m₀ w₀ trace m w)
    (hd : M.drift w w') : Session M ServiceOp.run m₀ w₀ trace m w' := by
  cases h with
  | start h => exact .start (M.drift_trans h hd)
  | step h hr => exact .step h (hr.drift_right hd)

theorem runs_startAll {infos infos' : List ServiceInfo} {w₁ : World} {watched b : Bool}
    (h : Runs M (Prog.traverse (startAuto shared) infos) w infos' w₁)
    (hm : Runs M (ServiceManager.startMonitor ⟨shared, infos', watched⟩) w₁ ⟨shared, infos', b⟩ w') :
    Runs M (ServiceOp.startAll.run ⟨shared, infos, watched⟩) w (⟨shared, infos', b⟩, .ok ()) w' := by
  refine runs_bind.mpr ⟨_, _, runs_bind.mpr ⟨infos', w₁, h, hm⟩, runs_pure.mpr ⟨rfl, M.drift_refl _⟩⟩

theorem runs_stopAll {infos : List ServiceInfo} {w₁ : World} {r : Except ServiceError Unit}
    (hm : Runs M m.stopMonitor w m' w₁) (h : Runs M ((Task.change .stopAll).body shared m'.services) w₁ (infos, r) w') :
    Runs M (ServiceOp.stopAll.run m) w ({ m' with services := infos }, r) w' := by
  obtain ⟨infos', w₂, hstop, h⟩ := runs_bind.mp h
  obtain ⟨he, hd⟩ := runs_pure.mp h
  cases he
  have hall : Runs M m.stopAll w { m' with services := infos } w₂ :=
    runs_bind.mpr ⟨m', w₁, hm, runs_bind.mpr ⟨infos, w₂, hstop, runs_pure.mpr ⟨rfl, M.drift_refl _⟩⟩⟩
  exact runs_bind.mpr ⟨_, _, hall, runs_pure.mpr ⟨rfl, hd⟩⟩

theorem runs_pollExits {infos infos' : List ServiceInfo} {watched : Bool}
    (h : Runs M (Prog.traverse pollInfo infos) w infos' w') :
    Runs M (ServiceOp.pollExits.run ⟨shared, infos, watched⟩) w (⟨shared, infos', watched⟩, .ok ()) w' := by
  have hall : Runs M (ServiceManager.pollExits ⟨shared, infos, watched⟩) w ⟨shared, infos', watched⟩ w' :=
    runs_bind.mpr ⟨infos', w', h, runs_pure.mpr ⟨rfl, M.drift_refl _⟩⟩
  exact runs_bind.mpr ⟨_, _, hall, runs_pure.mpr ⟨rfl, M.drift_refl _⟩⟩

/-- An operation with the services alone is what is done while they are locked. -/
theorem runs_body {op : ServiceOp} {infos infos' : List ServiceInfo} {watched : Bool} {r : Except ServiceError Unit}
    (hstart : op ≠ .startAll) (hstop : op ≠ .stopAll)
    (h : Runs M ((Task.change op).body shared infos) w (infos', r) w') :
    Runs M (op.run ⟨shared, infos, watched⟩) w (⟨shared, infos', watched⟩, r) w' := by
  have hd := M.drift_refl w'
  cases op with
  | startAll => exact absurd rfl hstart
  | stopAll => exact absurd rfl hstop
  | pollExits =>
      obtain ⟨infos₁, w₁, hpoll, h⟩ := runs_bind.mp h
      obtain ⟨he, hdrift⟩ := runs_pure.mp h
      cases he
      exact runs_pollExits (hpoll.drift_right hdrift)
  | startService name => exact runs_bind.mpr ⟨_, _, h, runs_pure.mpr ⟨rfl, hd⟩⟩
  | stopService name => exact runs_bind.mpr ⟨_, _, h, runs_pure.mpr ⟨rfl, hd⟩⟩
  | restartService name => exact runs_bind.mpr ⟨_, _, h, runs_pure.mpr ⟨rfl, hd⟩⟩

theorem Behind.move {p p' : Place} (h : Behind shared M s p m w done) (hinfos : s'.infos = s.infos)
    (hworld : s'.world = s.world) (hslot : s'.slot = s.slot) (hfinished : s'.finished = s.finished)
    (hquiet : Quiet p → Quiet p' ∧ Joins p' = Joins p) (hlaunched : Launched p → Launched p')
    (hunwatched : Unwatched p → Unwatched p') : Behind shared M s' p' m w done := by
  cases h with
  | quiet hq =>
      have h' : Behind shared M s' p' ⟨shared, s'.infos, s'.slot.isSome || Joins p'⟩ s'.world s'.finished :=
        .quiet (hquiet hq).1
      rw [hinfos, hworld, hslot, hfinished, (hquiet hq).2] at h'
      exact h'
  | launched hl hnone hrun =>
      rw [← hinfos, ← hworld] at hrun
      rw [← hfinished]
      exact .launched (hlaunched hl) (hslot.trans hnone) hrun
  | started hl hsome =>
      have h' : Behind shared M s' p' ⟨shared, s'.infos, true⟩ s'.world (s'.finished ++ [(.startAll, .ok ())]) :=
        .started (hlaunched hl) (hslot.trans hsome)
      rw [hinfos, hworld, hfinished] at h'
      exact h'
  | unwatched hu hnone hrun =>
      rw [← hinfos, ← hworld] at hrun
      rw [← hfinished]
      exact .unwatched (hunwatched hu) (hslot.trans hnone) hrun

theorem enter_quiet (task : Task) : Quiet task.enter ∧ Joins task.enter = false := by
  cases task with
  | read => exact ⟨nofun, rfl⟩
  | change op =>
      cases op with
      | stopAll => exact ⟨rfl, rfl⟩
      | _ => exact ⟨nofun, rfl⟩

theorem not_launched {p : Place} (hstart : p ≠ .asksSlot .starting) (hhold : p ≠ .holdsSlot .starting) : ¬ Launched p :=
  fun h => h.elim hstart hhold

theorem not_unwatched {p : Place} (hasks : ∀ task, p ≠ .asks task) (hworks : ∀ task, p ≠ .works task) :
    ¬ Unwatched p :=
  fun h => h.elim (hasks _) (hworks _)

variable {m₀ : ServiceManager} {w₀ : World}

theorem Follows.move {p p' : Place} (h : Follows shared M m₀ w₀ s i) (hold : s.place i = p) (hnew : s'.place k = p')
    (hinfos : s'.infos = s.infos) (hworld : s'.world = s.world) (hslot : s'.slot = s.slot)
    (hfinished : s'.finished = s.finished) (hquiet : Quiet p → Quiet p' ∧ Joins p' = Joins p)
    (hlaunched : Launched p → Launched p') (hunwatched : Unwatched p → Unwatched p') :
    Follows shared M m₀ w₀ s' k := by
  obtain ⟨hbehind, hpolled, hsession⟩ := h
  subst hold hnew
  exact ⟨hbehind.move hinfos hworld hslot hfinished hquiet hlaunched hunwatched, hpolled, hsession⟩

/-- The services have been started. Where a monitor runs already, the whole operation is done. -/
theorem follows_launch {infos : List ServiceInfo} {r : Except ServiceError Unit} {world : World}
    (hpolled : Polled s.finished trace)
    (hsession : Session M ServiceOp.run m₀ w₀ trace ⟨shared, s.infos, s.slot.isSome || false⟩ s.world)
    (hrun : Runs M ((Task.change .startAll).body shared s.infos) s.world (infos, r) world)
    (hinfos : s'.infos = infos) (hworld : s'.world = world) (hslot : s'.slot = s.slot)
    (hfinished : s'.finished = s.finished) (hplace : s'.place i = .asksSlot .starting) :
    Follows shared M m₀ w₀ s' i := by
  obtain ⟨infos', w₁, hstarted, h⟩ := runs_bind.mp hrun
  obtain ⟨he, hd⟩ := runs_pure.mp h
  cases he
  subst hinfos hworld
  have hlaunched := hstarted.drift_right hd
  rw [← hfinished] at hpolled
  cases hsome : s.slot with
  | none =>
      rw [hsome] at hsession
      refine ⟨?_, hpolled, hsession⟩
      rw [hplace]
      exact .launched (.inl rfl) (hslot.trans hsome) hlaunched
  | some j =>
      rw [hsome] at hsession
      have hkeeps : Runs M (ServiceManager.startMonitor ⟨shared, s'.infos, true⟩) s'.world
          ⟨shared, s'.infos, true⟩ s'.world := runs_pure.mpr ⟨rfl, M.drift_refl _⟩
      have hall := runs_startAll hlaunched hkeeps
      refine ⟨?_, .own (.startAll, .ok ()) hpolled, .step hsession hall⟩
      rw [hplace]
      exact .started (.inl rfl) (hslot.trans hsome)

/-- What is done with the services is over: they are unlocked. -/
theorem Follows.unlock (h : Follows shared M m₀ w₀ s i) {task : Task} {infos : List ServiceInfo}
    {r : Except ServiceError Unit} {world : World} (hplace : s.place i = .works task)
    (hrun : Runs M (task.body shared s.infos) s.world (infos, r) world) (hinfos : s'.infos = infos)
    (hworld : s'.world = world) (hslot : s'.slot = s.slot) (hfinished : s'.finished = s.finished ++ task.record r)
    (hleave : s'.place i = task.leave) : Follows shared M m₀ w₀ s' i := by
  obtain ⟨hbehind, hpolled, hsession⟩ := h
  subst hinfos hworld
  cases hbehind with
  | launched hl _ _ =>
      rw [hplace] at hl
      exact absurd hl (not_launched nofun nofun)
  | started hl _ =>
      rw [hplace] at hl
      exact absurd hl (not_launched nofun nofun)
  | unwatched hu hnone hstopped =>
      rw [hplace] at hu
      have htask : task = .change .stopAll := by
        rcases hu with hu | hu
        · cases hu
        · cases hu
          rfl
      subst htask
      refine ⟨?_, .own (.stopAll, r) hpolled, .step hsession (runs_stopAll hstopped hrun)⟩
      rw [hleave]
      have h' : Behind shared M s' (Task.leave (.change .stopAll)) ⟨shared, s'.infos, s'.slot.isSome || false⟩
          s'.world s'.finished := .quiet trivial
      rw [hslot, hnone, hfinished] at h'
      exact h'
  | quiet hq =>
      rw [hplace] at hq hsession
      cases task with
      | read =>
          obtain ⟨he, hd⟩ := runs_pure.mp hrun
          obtain ⟨hinfos, hr⟩ := Prod.mk.inj he
          refine ⟨?_, hpolled, session_drift hsession hd⟩
          rw [hleave]
          have h' : Behind shared M s' (Task.leave .read) ⟨shared, s'.infos, s'.slot.isSome || false⟩
              s'.world s'.finished := .quiet trivial
          rw [hslot, hinfos, hfinished] at h'
          rw [← List.append_nil s.finished]
          exact h'
      | change op =>
          have hstop : op ≠ .stopAll := by
            rintro rfl
            exact hq rfl
          by_cases hstart : op = .startAll
          · subst hstart
            exact follows_launch hpolled hsession hrun rfl rfl hslot (hfinished.trans (List.append_nil _)) hleave
          · have hleft : (Task.change op).leave = .outside ∧ (Task.change op).record r = [(op, r)] := by
              cases op with
              | startAll => exact absurd rfl hstart
              | _ => exact ⟨rfl, rfl⟩
            refine ⟨?_, .own (op, r) hpolled, .step hsession (runs_body hstart hstop hrun)⟩
            rw [hleave, hleft.1, ← hleft.2]
            have h' : Behind shared M s' .outside ⟨shared, s'.infos, s'.slot.isSome || false⟩ s'.world s'.finished :=
              .quiet trivial
            rw [hslot, hfinished] at h'
            exact h'

/-- The monitor that a start of all services leaves running: the one there was, a new one, or none. -/
theorem Follows.started (h : Follows shared M m₀ w₀ s i) (hplace : s.place i = .holdsSlot .starting)
    (hinfos : s'.infos = s.infos) (hfinished : s'.finished = s.finished ++ [(.startAll, .ok ())])
    (hleave : s'.place i = .outside)
    (hslot : (∃ j, s.slot = some j) ∧ s'.slot = s.slot ∧ s'.world = s.world ∨
      s.slot = none ∧ Runs M (perform .spawnMonitor) s.world s'.slot.isSome s'.world) :
    Follows shared M m₀ w₀ s' i := by
  obtain ⟨hbehind, hpolled, hsession⟩ := h
  have hquiet : Behind shared M s' .outside ⟨shared, s'.infos, s'.slot.isSome || false⟩ s'.world s'.finished :=
    .quiet trivial
  rw [hinfos, hfinished, Bool.or_false] at hquiet
  rw [hplace] at hbehind
  cases hbehind with
  | quiet hq => cases hq
  | unwatched hu _ _ => exact absurd hu (not_unwatched nofun nofun)
  | launched _ hnone hlaunched =>
      rcases hslot with ⟨⟨j, hsome⟩, _⟩ | ⟨_, hspawn⟩
      · rw [hnone] at hsome
        cases hsome
      · have hmonitor : Runs M (ServiceManager.startMonitor ⟨shared, s.infos, false⟩) s.world
            ⟨shared, s.infos, s'.slot.isSome⟩ s'.world :=
          runs_bind.mpr ⟨_, _, hspawn, runs_pure.mpr ⟨rfl, M.drift_refl _⟩⟩
        refine ⟨?_, .own (.startAll, .ok ()) hpolled, .step hsession (runs_startAll hlaunched hmonitor)⟩
        rw [hleave]
        exact hquiet
  | started _ hsome =>
      rcases hslot with ⟨_, hsame, hworld⟩ | ⟨hnone, _⟩
      · rw [hsame, hsome, hworld] at hquiet
        refine ⟨?_, hpolled, hsession⟩
        rw [hleave]
        exact hquiet
      · rw [hnone] at hsome
        cases hsome

/-- The monitor has been joined, or there was none. -/
theorem Follows.unwatched (h : Follows shared M m₀ w₀ s i) (hquiet : Quiet (s.place i)) (hnone : s.slot = none)
    (hinfos : s'.infos = s.infos) (hslot : s'.slot = none) (hfinished : s'.finished = s.finished)
    (hplace : s'.place i = .asks (.change .stopAll))
    (hjoined : Joins (s.place i) = true ∧ Runs M (perform .joinMonitor) s.world () s'.world ∨
      Joins (s.place i) = false ∧ s'.world = s.world) :
    Follows shared M m₀ w₀ s' i := by
  obtain ⟨hbehind, hpolled, hsession⟩ := h
  cases hbehind with
  | launched hl _ _ => rcases hl with hl | hl <;> rw [hl] at hquiet <;> cases hquiet
  | started hl _ => rcases hl with hl | hl <;> rw [hl] at hquiet <;> cases hquiet
  | unwatched hu _ _ => rcases hu with hu | hu <;> rw [hu] at hquiet <;> exact absurd rfl hquiet
  | quiet _ =>
      rw [← hfinished] at hpolled
      refine ⟨?_, hpolled, hsession⟩
      rw [hplace, hnone]
      refine .unwatched (.inl rfl) hslot ?_
      rw [hinfos]
      rcases hjoined with ⟨hjoins, hjoin⟩ | ⟨hjoins, hworld⟩
      · rw [hjoins]
        exact runs_bind.mpr ⟨(), _, hjoin, runs_pure.mpr ⟨rfl, M.drift_refl _⟩⟩
      · rw [hjoins, hworld]
        exact runs_pure.mpr ⟨rfl, M.drift_refl _⟩

/-- The sender of the monitor in the slot is dropped, and its thread is to be joined. -/
theorem Follows.tells (h : Follows shared M m₀ w₀ s i) (hplace : s.place i = .holdsSlot .stopping)
    (hsome : s.slot = some j) (hinfos : s'.infos = s.infos) (hworld : s'.world = s.world) (hslot : s'.slot = none)
    (hfinished : s'.finished = s.finished) (hplace' : s'.place i = .joins j) : Follows shared M m₀ w₀ s' i := by
  obtain ⟨hbehind, hpolled, hsession⟩ := h
  rw [hplace] at hbehind
  cases hbehind with
  | launched hl _ _ => exact absurd hl (not_launched nofun nofun)
  | started hl _ => exact absurd hl (not_launched nofun nofun)
  | unwatched hu _ _ => exact absurd hu (not_unwatched nofun nofun)
  | quiet _ =>
      refine ⟨?_, hpolled, hsession⟩
      rw [hplace', hsome]
      have h' : Behind shared M s' (.joins j) ⟨shared, s'.infos, s'.slot.isSome || true⟩ s'.world s'.finished :=
        .quiet trivial
      rw [hslot, hinfos, hworld, hfinished] at h'
      exact h'

/-- A poll of the monitor comes before what the caller is in the middle of, or after it. -/
theorem Follows.polls (h : Follows shared M m₀ w₀ s i) (hwatched : s.slot = none → Joins (s.place i) = true)
    (hrun : Runs M (Prog.traverse pollInfo s.infos) s.world s'.infos s'.world) (hslot : s'.slot = s.slot)
    (hfinished : s'.finished = s.finished) (hplace : s'.place = s.place) : Follows shared M m₀ w₀ s' i := by
  obtain ⟨hbehind, hpolled, hsession⟩ := h
  have hsame := congrFun hplace i
  cases hbehind with
  | quiet hq =>
      refine ⟨?_, .poll hpolled, .step hsession (runs_pollExits hrun)⟩
      rw [hsame, ← hslot, ← hfinished]
      exact .quiet hq
  | started hl hsome =>
      refine ⟨?_, .poll hpolled, .step hsession (runs_pollExits hrun)⟩
      rw [hsame, ← hfinished]
      exact .started hl (hslot.trans hsome)
  | launched hl hnone _ =>
      have hjoins := hwatched hnone
      rcases hl with hl | hl <;> rw [hl] at hjoins <;> cases hjoins
  | unwatched hu hnone _ =>
      have hjoins := hwatched hnone
      rcases hu with hu | hu <;> rw [hu] at hjoins <;> cases hjoins

theorem Follows.drift (h : Follows shared M m₀ w₀ s i) {world : World} (hd : M.drift s.world world) :
    Follows shared M m₀ w₀ { s with world } i := by
  obtain ⟨hbehind, hpolled, hsession⟩ := h
  cases hbehind with
  | quiet hq => exact ⟨.quiet hq, hpolled, session_drift hsession hd⟩
  | started hl hsome => exact ⟨.started hl hsome, hpolled, session_drift hsession hd⟩
  | launched hl hnone hrun => exact ⟨.launched hl hnone (hrun.drift_right hd), hpolled, hsession⟩
  | unwatched hu hnone hrun => exact ⟨.unwatched hu hnone (hrun.drift_right hd), hpolled, hsession⟩

/-- One caller at most is inside, and what it has come to is what a manager comes to in a session. -/
def Serial (shared : Shared) (M : Machine sys World) (m₀ : ServiceManager) (w₀ : World) (s : Threads) : Prop :=
  ∃ i, (∀ k, k ≠ i → s.place k = .outside) ∧ Follows shared M m₀ w₀ s i

theorem alone_moves {p : Place} (halone : ∀ k, k ≠ i → s.place k = .outside)
    (hplace : s'.place = Function.update s.place i p) : ∀ k, k ≠ i → s'.place k = .outside := by
  intro k hk
  rw [hplace, Function.update_of_ne hk]
  exact halone k hk

theorem step_serial (hguarded : Guarded s) (h : Serial shared M m₀ w₀ s) (hmeets : OneAtATime s e)
    (hstep : Step shared M s e s') : Serial shared M m₀ w₀ s' := by
  obtain ⟨i, halone, hf⟩ := h
  have hactor : ∀ {k : Nat}, s.place k ≠ .outside → k = i := fun hk => by_contra fun hne => hk (halone _ hne)
  have hself : ∀ (place : Nat → Place) (p : Place) (k : Nat), Function.update place k p k = p := fun _ _ _ =>
    Function.update_self ..
  cases hstep with
  | @call k task hplace =>
      refine ⟨k, alone_moves (fun n _ => hmeets n) rfl, hf.move (hmeets i) (hself ..) rfl rfl rfl rfl ?_ ?_ ?_⟩
      · exact fun _ => enter_quiet task
      · exact fun hl => absurd hl (not_launched nofun nofun)
      · exact fun hu => absurd hu (not_unwatched nofun nofun)
  | @lock k task hplace _ =>
      obtain rfl := hactor (by rw [hplace]; nofun)
      refine ⟨k, alone_moves halone rfl, hf.move hplace (hself ..) rfl rfl rfl rfl ?_ ?_ ?_⟩
      · exact fun hq => ⟨hq, rfl⟩
      · exact fun hl => absurd hl (not_launched nofun nofun)
      · rintro (hu | hu)
        · cases hu
          exact .inr rfl
        · cases hu
  | @unlock k task infos r world hplace hrun =>
      obtain rfl := hactor (by rw [hplace]; nofun)
      exact ⟨k, alone_moves halone rfl, hf.unlock hplace hrun rfl rfl rfl rfl (hself ..)⟩
  | @lockSlot k side hplace _ =>
      obtain rfl := hactor (by rw [hplace]; nofun)
      refine ⟨k, alone_moves halone rfl, hf.move hplace (hself ..) rfl rfl rfl rfl ?_ ?_ ?_⟩
      · exact fun hq => ⟨hq, rfl⟩
      · rintro (hl | hl)
        · cases hl
          exact .inr rfl
        · cases hl
      · exact fun hu => absurd hu (not_unwatched nofun nofun)
  | @watched k j hplace hsome =>
      obtain rfl := hactor (by rw [hplace]; nofun)
      refine ⟨k, alone_moves halone rfl, hf.started hplace rfl rfl (hself ..) (.inl ⟨⟨j, hsome⟩, rfl, rfl⟩)⟩
  | @spawns k j world hplace hnone _ hspawn =>
      obtain rfl := hactor (by rw [hplace]; nofun)
      exact ⟨k, alone_moves halone rfl, hf.started hplace rfl rfl (hself ..) (.inr ⟨hnone, hspawn⟩)⟩
  | @spawnFails k world hplace hnone hspawn =>
      obtain rfl := hactor (by rw [hplace]; nofun)
      rw [← Option.isSome_none (α := Nat), ← hnone] at hspawn
      exact ⟨k, alone_moves halone rfl, hf.started hplace rfl rfl (hself ..) (.inr ⟨hnone, hspawn⟩)⟩
  | @unwatched k hplace hnone =>
      obtain rfl := hactor (by rw [hplace]; nofun)
      refine ⟨k, alone_moves halone rfl, hf.unwatched ?_ hnone rfl hnone rfl (hself ..) (.inr ⟨?_, rfl⟩)⟩
      all_goals rw [hplace]
      · rfl
      · rfl
  | @tells k j hplace hsome =>
      obtain rfl := hactor (by rw [hplace]; nofun)
      exact ⟨k, alone_moves halone rfl, hf.tells hplace hsome rfl rfl rfl rfl (hself ..)⟩
  | @joined k j world hplace _ hjoin =>
      obtain rfl := hactor (by rw [hplace]; nofun)
      have hnone := (hguarded.monitors.joined k j hplace).1
      refine ⟨k, alone_moves halone rfl, hf.unwatched ?_ hnone rfl hnone rfl (hself ..) (.inl ⟨?_, hjoin⟩)⟩
      all_goals rw [hplace]
      · trivial
      · rfl
  | timesOut _ _ => exact ⟨i, halone, hf.move rfl rfl rfl rfl rfl rfl (fun hq => ⟨hq, rfl⟩) id id⟩
  | hears _ _ => exact ⟨i, halone, hf.move rfl rfl rfl rfl rfl rfl (fun hq => ⟨hq, rfl⟩) id id⟩
  | lockWatch _ _ => exact ⟨i, halone, hf.move rfl rfl rfl rfl rfl rfl (fun hq => ⟨hq, rfl⟩) id id⟩
  | @polls j infos world hpolls hrun =>
      refine ⟨i, halone, hf.polls (fun hnone => ?_) hrun rfl rfl rfl⟩
      have halive : Alive (s.watch j) := by
        rw [hpolls]
        trivial
      rcases hguarded.monitors.alive j halive with hsome | ⟨k, hk⟩
      · rw [hnone] at hsome
        cases hsome
      · obtain rfl := hactor (k := k) (by rw [hk]; nofun)
        rw [hk]
        rfl
  | drift hd => exact ⟨i, halone, hf.drift hd⟩

variable {infos : List ServiceInfo} {world : World}

theorem reached_serial (h : Reached (threads shared M infos world) OneAtATime s) :
    Serial shared M ⟨shared, infos, false⟩ world s := by
  induction h with
  | start => exact ⟨0, fun _ _ => rfl, .quiet trivial, .start, .start (M.drift_refl world)⟩
  | step hr hmeets hstep ih => exact step_serial (reached_sound hr).1 ih hmeets hstep

/-- Callers that come one at a time find what a manager without threads would have come to,
with polls between their operations: no step of the monitor is lost or falls into one. -/
theorem calls_one_after_another (onUnix : Bool) (shared : Shared) (infos : List ServiceInfo) (world : World)
    (s : Threads) (h : Reached (threads shared (machine onUnix) infos world) OneAtATime s)
    (hquiet : ∀ k, s.place k = .outside) :
    ∃ trace, Polled s.finished trace ∧ Session (machine onUnix) ServiceOp.run ⟨shared, infos, false⟩ world trace
      ⟨shared, s.infos, s.slot.isSome⟩ s.world := by
  obtain ⟨i, _, hbehind, hpolled, hsession⟩ := reached_serial h
  rw [hquiet i] at hbehind
  cases hbehind with
  | launched hl _ _ => exact absurd hl (not_launched nofun nofun)
  | started hl _ => exact absurd hl (not_launched nofun nofun)
  | unwatched hu _ _ => exact absurd hu (not_unwatched nofun nofun)
  | quiet _ =>
      rw [show (Joins .outside) = false from rfl, Bool.or_false] at hsession
      exact ⟨_, hpolled, hsession⟩

def again : Threads := watched.at 1 (.asks (.change .startAll))

def inside : Threads := { again with held := some (.caller 1) }.at 1 (.works (.change .startAll))

def halfway : Threads := inside.worked 1 (.change .startAll)

/-- Meanwhile a process exits and the monitor polls, and then the second start goes on. -/
def exited : Threads := { halfway with world := Steady.exitLeader 1 (.code 3) halfway.world }

def polls : Threads := { exited.watching 0 .asks with held := some (.monitor 0) }.watching 0 .polls

def polled : Threads :=
  let done := unlogged.run (Prog.traverse pollInfo polls.infos) polls.world
  { polls with infos := done.1, world := done.2, held := none }.watching 0 .waits

def returning : Threads := { polled with slotHeld := some 1 }.at 1 (.holdsSlot .starting)

def returned : Threads := ({ returning with slotHeld := none }.finish [(.startAll, .ok ())]).at 1 .outside

theorem watched_outside (k : Nat) : watched.place k = .outside := by
  by_cases hk : k = 0
  · rw [hk]
    rfl
  · simp only [watched, slotted, started, working, called, Threads.worked, Threads.at, Threads.watching,
      Threads.finish, Function.update_of_ne hk]
    rfl

theorem returned_reached :
    Reached (threads idleShared (machine true) idleManager.services emptyWorld) OneAtATime returned := by
  have hwatched : Reached (threads idleShared (machine true) idleManager.services emptyWorld) OneAtATime watched :=
    watched_reached (fun _ => rfl) fun _ => trivial
  have hcall : Step idleShared (machine true) watched (.call 1 (.change .startAll)) again := .call rfl
  have hlock : Step idleShared (machine true) again (.goOn 1) inside := .lock rfl rfl
  have hunlock : Step idleShared (machine true) inside (.goOn 1) halfway := worked_step rfl
  have hexit : Step idleShared (machine true) halfway .drift exited :=
    .drift (Steady.exitLeader_drift (g := ⟨"app", .alive, 0, []⟩) _ rfl rfl)
  have htick : Step idleShared (machine true) exited (.tick 0) (exited.watching 0 .asks) := .timesOut rfl rfl
  have hwatch : Step idleShared (machine true) (exited.watching 0 .asks) (.tick 0) polls := .lockWatch rfl rfl
  have hpoll : Step idleShared (machine true) polls (.tick 0) polled := .polls rfl (unlogged.runs _ trivial).1
  have hslot : Step idleShared (machine true) polled (.goOn 1) returning := .lockSlot rfl rfl
  have hreturn : Step idleShared (machine true) returning (.goOn 1) returned := .watched rfl rfl
  have hcalled := hwatched.step (e := ServiceLocks.Event.call 1 (.change .startAll)) watched_outside hcall
  have hinside := hcalled.step (e := ServiceLocks.Event.goOn 1) trivial hlock
  have hhalfway := hinside.step (e := ServiceLocks.Event.goOn 1) trivial hunlock
  have hexited := hhalfway.step (e := ServiceLocks.Event.drift) trivial hexit
  have hticked := hexited.step (e := ServiceLocks.Event.tick 0) trivial htick
  have hpolls := hticked.step (e := ServiceLocks.Event.tick 0) trivial hwatch
  have hpolled := hpolls.step (e := ServiceLocks.Event.tick 0) trivial hpoll
  have hreturning := hpolled.step (e := ServiceLocks.Event.goOn 1) trivial hslot
  exact hreturning.step (e := ServiceLocks.Event.goOn 1) trivial hreturn

theorem returned_outside (k : Nat) : returned.place k = .outside := by
  by_cases hk : k = 1
  · rw [hk]
    rfl
  · have hsame : returned.place k = watched.place k := by
      simp only [returned, returning, polled, polls, exited, halfway, inside, again, Threads.worked, Threads.at,
        Threads.watching, Threads.finish, Function.update_of_ne hk]
    rw [hsame, watched_outside]

/-- The poll between the two halves of the second start is one between two operations. -/
theorem calls_one_after_another_polled :
    (∃ info ∈ returned.infos, info.name = "app" ∧ info.status = .crashed ∧ info.exitCode = some 3) ∧
    ∃ trace, Polled [(.startAll, .ok ()), (.startAll, .ok ())] trace ∧
      Session (machine true) ServiceOp.run ⟨idleShared, idleManager.services, false⟩ emptyWorld trace
        ⟨idleShared, returned.infos, true⟩ returned.world :=
  ⟨⟨_, List.mem_of_getElem? (i := 0) rfl, rfl, rfl, rfl⟩,
    calls_one_after_another true idleShared idleManager.services emptyWorld returned returned_reached
      returned_outside⟩

end LocalDevProxy.SerialCalls
