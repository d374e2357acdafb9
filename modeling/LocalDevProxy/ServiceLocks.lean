import LocalDevProxy.ChildHandles
import LocalDevProxy.ServiceOperations
import LocalDevProxy.Lib.Locks
import LocalDevProxy.Lib.Transitions
import LocalDevProxy.Steady

namespace LocalDevProxy.ServiceLocks

open Lib.Interaction Lib.Transitions Lib.Locks Os Process ServiceOperations
open ChildHandles (idleManager unwritable)

/-- A caller changes services or only reads them: their states, names or log paths. -/
inductive Task
  | change (op : ServiceOp)
  | read

inductive Side
  | starting
  | stopping

inductive Place
  | outside
  | asks (task : Task)
  | works (task : Task)
  | asksSlot (side : Side)
  | holdsSlot (side : Side)
  | joins (monitor : Nat)

/-- Where a monitor thread is. Its number is unborn until it is spawned. -/
inductive Watch
  | unborn
  | waits
  | asks
  | polls
  | ended
deriving DecidableEq

inductive Thread
  | caller (i : Nat)
  | monitor (j : Nat)

/-- The services and the slot of the monitor, each behind a lock of its own, and the threads.
A monitor is told to end when its sender is dropped. -/
structure Threads where
  infos : List ServiceInfo
  world : World
  held : Option Thread
  slot : Option Nat
  slotHeld : Option Nat
  told : Nat → Bool
  watch : Nat → Watch
  place : Nat → Place
  finished : List (ServiceOp × Except ServiceError Unit)

def Threads.at (s : Threads) (i : Nat) (place : Place) : Threads :=
  { s with place := Function.update s.place i place }

def Threads.watching (s : Threads) (j : Nat) (watch : Watch) : Threads :=
  { s with watch := Function.update s.watch j watch }

def Threads.finish (s : Threads) (done : List (ServiceOp × Except ServiceError Unit)) : Threads :=
  { s with finished := s.finished ++ done }

namespace Task

def enter : Task → Place
  | .change .stopAll => .asksSlot .stopping
  | task => .asks task

def body (shared : Shared) : Task → List ServiceInfo → Io (List ServiceInfo × Except ServiceError Unit)
  | .change .startAll, infos => do
      let infos ← Prog.traverse (startAuto shared) infos
      return (infos, .ok ())
  | .change .stopAll, infos => do
      let infos ← Prog.traverse stopManaged infos
      return (infos, .ok ())
  | .change (.startService name), infos => withManaged name (startLocked shared) infos
  | .change (.stopService name), infos => withManaged name ServiceManager.stopAction infos
  | .change (.restartService name), infos => withManaged name (ServiceManager.restartAction shared) infos
  | .change .pollExits, infos => do
      let infos ← Prog.traverse pollInfo infos
      return (infos, .ok ())
  | .read, infos => return (infos, .ok ())

def leave : Task → Place
  | .change .startAll => .asksSlot .starting
  | _ => .outside

def record (r : Except ServiceError Unit) : Task → List (ServiceOp × Except ServiceError Unit)
  | .change .startAll => []
  | .change op => [(op, r)]
  | .read => []

end Task

inductive Event
  | call (i : Nat) (task : Task)
  | goOn (i : Nat)
  | tick (j : Nat)
  | drift

/-- One step of one thread. The lock of the slot is kept while the monitor is joined. -/
inductive Step (shared : Shared) (M : Machine sys World) : Threads → Event → Threads → Prop
  | call {s i task} : s.place i = .outside → Step shared M s (.call i task) (s.at i task.enter)
  | lock {s i task} : s.place i = .asks task → s.held = none →
      Step shared M s (.goOn i) ({ s with held := some (.caller i) }.at i (.works task))
  | unlock {s i task infos r world} : s.place i = .works task →
      Runs M (task.body shared s.infos) s.world (infos, r) world →
      Step shared M s (.goOn i) (({ s with infos, world, held := none }.finish (task.record r)).at i task.leave)
  | lockSlot {s i side} : s.place i = .asksSlot side → s.slotHeld = none →
      Step shared M s (.goOn i) ({ s with slotHeld := some i }.at i (.holdsSlot side))
  | watched {s i j} : s.place i = .holdsSlot .starting → s.slot = some j →
      Step shared M s (.goOn i) (({ s with slotHeld := none }.finish [(.startAll, .ok ())]).at i .outside)
  | spawns {s i j world} : s.place i = .holdsSlot .starting → s.slot = none → s.watch j = .unborn →
      Runs M (perform .spawnMonitor) s.world true world →
      Step shared M s (.goOn i)
        ((({ s with slot := some j, slotHeld := none, world }.watching j .waits).finish
          [(.startAll, .ok ())]).at i .outside)
  | spawnFails {s i world} : s.place i = .holdsSlot .starting → s.slot = none →
      Runs M (perform .spawnMonitor) s.world false world →
      Step shared M s (.goOn i) (({ s with slotHeld := none, world }.finish [(.startAll, .ok ())]).at i .outside)
  | unwatched {s i} : s.place i = .holdsSlot .stopping → s.slot = none →
      Step shared M s (.goOn i) ({ s with slotHeld := none }.at i (.asks (.change .stopAll)))
  | tells {s i j} : s.place i = .holdsSlot .stopping → s.slot = some j →
      Step shared M s (.goOn i) ({ s with slot := none, told := Function.update s.told j true }.at i (.joins j))
  | joined {s i j world} : s.place i = .joins j → s.watch j = .ended →
      Runs M (perform .joinMonitor) s.world () world →
      Step shared M s (.goOn i) ({ s with slotHeld := none, world }.at i (.asks (.change .stopAll)))
  | timesOut {s j} : s.watch j = .waits → s.told j = false → Step shared M s (.tick j) (s.watching j .asks)
  | hears {s j} : s.watch j = .waits → s.told j = true → Step shared M s (.tick j) (s.watching j .ended)
  | lockWatch {s j} : s.watch j = .asks → s.held = none →
      Step shared M s (.tick j) ({ s with held := some (.monitor j) }.watching j .polls)
  | polls {s j infos world} : s.watch j = .polls → Runs M (Prog.traverse pollInfo s.infos) s.world infos world →
      Step shared M s (.tick j) ({ s with infos, world, held := none }.watching j .waits)
  | drift {s world} : M.drift s.world world → Step shared M s .drift { s with world }

def start (infos : List ServiceInfo) (world : World) : Threads where
  infos := infos
  world := world
  held := none
  slot := none
  slotHeld := none
  told := fun _ => false
  watch := fun _ => .unborn
  place := fun _ => .outside
  finished := []

def threads (shared : Shared) (M : Machine sys World) (infos : List ServiceInfo) (world : World) :
    System Threads Event where
  start := start infos world
  Step := Step shared M

def Alive : Watch → Prop
  | .unborn | .ended => False
  | _ => True

def Works : Place → Prop
  | .works _ => True
  | _ => False

def InSlot : Place → Prop
  | .holdsSlot _ | .joins _ => True
  | _ => False

def Inside (s : Threads) : Thread → Prop
  | .caller i => Works (s.place i)
  | .monitor j => s.watch j = .polls

/-- A monitor that runs is the one in the slot, or it was told to end and is being joined. -/
structure Monitored (s : Threads) : Prop where
  kept : ∀ j, s.slot = some j → s.told j = false ∧ Alive (s.watch j)
  joined : ∀ i j, s.place i = .joins j → s.slot = none ∧ s.told j = true ∧ s.watch j ≠ .unborn
  alive : ∀ j, Alive (s.watch j) → s.slot = some j ∨ ∃ i, s.place i = .joins j
  unborn : ∀ j, s.watch j = .unborn → s.told j = false

structure Guarded (s : Threads) : Prop where
  services : Held (Inside s) s.held
  slot : Held (fun i => InSlot (s.place i)) s.slotHeld
  monitors : Monitored s

variable {shared : Shared} {M : Machine sys World} {s s' : Threads} {e : Event} {i j k : Nat}
  {p : Place} {watch : Watch} {t : Thread}

theorem start_guarded (infos : List ServiceInfo) (world : World) : Guarded (start infos world) := by
  refine ⟨fun t => ?_, fun i => ?_, ⟨nofun, nofun, nofun, fun _ _ => rfl⟩⟩
  · refine iff_of_false (fun h => ?_) nofun
    cases t with
    | caller i => exact h
    | monitor j => cases h
  · exact iff_of_false id nofun

structure Moves (s s' : Threads) (i : Nat) (p : Place) : Prop where
  place : s'.place = Function.update s.place i p
  watch : s'.watch = s.watch

structure Turns (s s' : Threads) (j : Nat) (watch : Watch) : Prop where
  watch : s'.watch = Function.update s.watch j watch
  place : s'.place = s.place

theorem Moves.self (h : Moves s s' i p) : s'.place i = p := by
  rw [h.place]
  exact Function.update_self ..

theorem Moves.other (h : Moves s s' i p) (hk : k ≠ i) : s'.place k = s.place k := by
  rw [h.place]
  exact Function.update_of_ne hk ..

theorem Turns.self (h : Turns s s' j watch) : s'.watch j = watch := by
  rw [h.watch]
  exact Function.update_self ..

theorem Turns.other (h : Turns s s' j watch) (hk : k ≠ j) : s'.watch k = s.watch k := by
  rw [h.watch]
  exact Function.update_of_ne hk ..

theorem Moves.inside_other (h : Moves s s' i p) (ht : t ≠ .caller i) : Inside s' t ↔ Inside s t := by
  cases t with
  | caller k =>
      have hk : k ≠ i := fun heq => ht (congrArg Thread.caller heq)
      rw [Inside, Inside, h.other hk]
  | monitor j => rw [Inside, Inside, h.watch]

theorem Turns.inside_other (h : Turns s s' j watch) (ht : t ≠ .monitor j) : Inside s' t ↔ Inside s t := by
  cases t with
  | caller k => rw [Inside, Inside, h.place]
  | monitor k =>
      have hk : k ≠ j := fun heq => ht (congrArg Thread.monitor heq)
      rw [Inside, Inside, h.other hk]

/-- A caller that neither comes to the services nor leaves them. -/
theorem Moves.inside (h : Moves s s' i p) (hsame : Works p ↔ Works (s.place i)) : Inside s' t ↔ Inside s t := by
  by_cases ht : t = .caller i
  · subst ht
    rw [Inside, Inside, h.self]
    exact hsame
  · exact h.inside_other ht

theorem Turns.inside (h : Turns s s' j watch) (hsame : watch = .polls ↔ s.watch j = .polls) :
    Inside s' t ↔ Inside s t := by
  by_cases ht : t = .monitor j
  · subst ht
    rw [Inside, Inside, h.self]
    exact hsame
  · exact h.inside_other ht

/-- A caller that neither takes the slot nor leaves it. -/
theorem Moves.inSlot (h : Moves s s' i p) (hsame : InSlot p ↔ InSlot (s.place i)) :
    InSlot (s'.place k) ↔ InSlot (s.place k) := by
  by_cases hk : k = i
  · subst hk
    rw [h.self]
    exact hsame
  · rw [h.other hk]

theorem Moves.joins (h : Moves s s' i p) (hold : ∀ j, s.place i ≠ .joins j) (hnew : ∀ j, p ≠ .joins j) :
    s'.place k = .joins j ↔ s.place k = .joins j := by
  by_cases hk : k = i
  · subst hk
    rw [h.self]
    exact iff_of_false (hnew j) (hold j)
  · rw [h.other hk]

/-- Monitors that live on in the same slot. -/
theorem Monitored.keep (h : Monitored s) (hslot : s'.slot = s.slot) (htold : s'.told = s.told)
    (halive : ∀ j, Alive (s'.watch j) ↔ Alive (s.watch j))
    (hunborn : ∀ j, s'.watch j = .unborn ↔ s.watch j = .unborn)
    (hjoins : ∀ i j, s'.place i = .joins j ↔ s.place i = .joins j) : Monitored s' := by
  refine ⟨fun j hj => ?_, fun i j hij => ?_, fun j hj => ?_, fun j hj => ?_⟩
  · rw [hslot] at hj
    rw [htold, halive]
    exact h.kept j hj
  · rw [hslot, htold, Ne, hunborn]
    exact h.joined i j ((hjoins i j).mp hij)
  · rw [hslot]
    simp only [hjoins]
    exact h.alive j ((halive j).mp hj)
  · rw [htold]
    exact h.unborn j ((hunborn j).mp hj)

theorem Monitored.moves (h : Monitored s) (hm : Moves s s' i p) (hslot : s'.slot = s.slot) (htold : s'.told = s.told)
    (hold : ∀ j, s.place i ≠ .joins j) (hnew : ∀ j, p ≠ .joins j) : Monitored s' := by
  refine h.keep hslot htold (fun j => ?_) (fun j => ?_) (fun _ _ => hm.joins hold hnew)
  · rw [hm.watch]
  · rw [hm.watch]

theorem Alive.born (h : Alive watch) : watch ≠ .unborn := by
  rintro rfl
  exact h

/-- A monitor that runs goes on running. -/
theorem Monitored.turns (h : Monitored s) (ht : Turns s s' j watch) (hslot : s'.slot = s.slot)
    (htold : s'.told = s.told) (hold : Alive (s.watch j)) (hnew : Alive watch) : Monitored s' := by
  refine h.keep hslot htold (fun k => ?_) (fun k => ?_) (fun _ _ => by rw [ht.place])
  · by_cases hk : k = j
    · subst hk
      rw [ht.self]
      exact iff_of_true hnew hold
    · rw [ht.other hk]
  · by_cases hk : k = j
    · subst hk
      rw [ht.self]
      exact iff_of_false hnew.born hold.born
    · rw [ht.other hk]

theorem not_joins (h : ¬ InSlot p) (j : Nat) : p ≠ .joins j := by
  rintro rfl
  exact h trivial

theorem enter_outside (task : Task) : ¬ Works task.enter ∧ ¬ InSlot task.enter := by
  cases task with
  | read => exact ⟨id, id⟩
  | change op => cases op <;> exact ⟨id, id⟩

theorem leave_outside (task : Task) : ¬ Works task.leave ∧ ¬ InSlot task.leave := by
  cases task with
  | read => exact ⟨id, id⟩
  | change op => cases op <;> exact ⟨id, id⟩

/-- While a caller that joins no monitor has the slot, none does. -/
theorem Guarded.joins_none (h : Guarded s) (hi : InSlot (s.place i)) (hno : ∀ j, s.place i ≠ .joins j) :
    s.place k ≠ .joins j := by
  intro hk
  have hin : InSlot (s.place k) := by
    rw [hk]
    trivial
  obtain rfl := h.slot.exclusive hi hin
  exact hno j hk

/-- A caller away from the services stays away from them. -/
theorem Guarded.services_keep (h : Guarded s) (hm : Moves s s' i p) (hheld : s'.held = s.held)
    (hold : ¬ Works (s.place i)) (hnew : ¬ Works p) : Held (Inside s') s'.held := by
  rw [hheld]
  exact h.services.keep fun _ => hm.inside (iff_of_false hnew hold)

theorem Guarded.slot_keep (h : Guarded s) (hm : Moves s s' i p) (hslotHeld : s'.slotHeld = s.slotHeld)
    (hsame : InSlot p ↔ InSlot (s.place i)) : Held (fun i => InSlot (s'.place i)) s'.slotHeld := by
  rw [hslotHeld]
  exact h.slot.keep fun _ => hm.inSlot hsame

theorem Guarded.slot_release (h : Guarded s) (hm : Moves s s' i p) (hslotHeld : s'.slotHeld = none)
    (hold : InSlot (s.place i)) (hnew : ¬ InSlot p) : Held (fun i => InSlot (s'.place i)) s'.slotHeld := by
  rw [hslotHeld]
  refine h.slot.release hold ?_ fun _ hk => by rw [hm.other hk]
  rw [hm.self]
  exact hnew

/-- A caller lets go of the slot without a change to any monitor. -/
theorem Guarded.lets_go (h : Guarded s) (hm : Moves s s' i p) {side : Side} (hplace : s.place i = .holdsSlot side)
    (hheld : s'.held = s.held) (hslotHeld : s'.slotHeld = none) (hslot : s'.slot = s.slot) (htold : s'.told = s.told)
    (hnew : ¬ Works p ∧ ¬ InSlot p) : Guarded s' := by
  have hin : InSlot (s.place i) ∧ ¬ Works (s.place i) ∧ ∀ j, s.place i ≠ .joins j := by
    rw [hplace]
    exact ⟨trivial, id, nofun⟩
  exact ⟨h.services_keep hm hheld hin.2.1 hnew.1, h.slot_release hm hslotHeld hin.1 hnew.2,
    h.monitors.moves hm hslot htold hin.2.2 (not_joins hnew.2)⟩

/-- The new monitor is the one in the slot, and no other one runs. -/
theorem Guarded.spawned (h : Guarded s) (hplace : s.place i = .holdsSlot .starting) (hnone : s.slot = none)
    (hborn : s.watch j = .unborn) (hslot : s'.slot = some j) (htold : s'.told = s.told)
    (hwatch : s'.watch = Function.update s.watch j .waits) (hplace' : s'.place = Function.update s.place i .outside) :
    Monitored s' := by
  have hno : ∀ k n, s.place k ≠ .joins n := by
    intro k n
    refine h.joins_none (i := i) ?_ (fun j => ?_)
    all_goals rw [hplace]
    · trivial
    · nofun
  have hno' : ∀ k n, s'.place k ≠ .joins n := by
    intro k n
    rw [hplace']
    by_cases hk : k = i
    · rw [hk, Function.update_self]
      nofun
    · rw [Function.update_of_ne hk]
      exact hno k n
  refine ⟨fun n hn => ?_, fun k n hk => absurd hk (hno' k n), fun n hn => ?_, fun n hn => ?_⟩
  · rw [hslot] at hn
    obtain rfl := Option.some.inj hn
    rw [htold, hwatch, Function.update_self]
    exact ⟨h.monitors.unborn _ hborn, trivial⟩
  · rw [hwatch] at hn
    by_cases hnj : n = j
    · rw [hnj]
      exact .inl hslot
    · rw [Function.update_of_ne hnj] at hn
      rcases h.monitors.alive n hn with hkept | ⟨k, hk⟩
      · rw [hnone] at hkept
        cases hkept
      · exact absurd hk (hno k n)
  · rw [hwatch] at hn
    by_cases hnj : n = j
    · rw [hnj, Function.update_self] at hn
      cases hn
    · rw [Function.update_of_ne hnj] at hn
      rw [htold]
      exact h.monitors.unborn n hn

/-- The monitor that is told to end leaves the slot and is joined. -/
theorem Guarded.told (h : Guarded s) (hm : Moves s s' i (.joins j)) (hplace : s.place i = .holdsSlot .stopping)
    (hsome : s.slot = some j) (hslot : s'.slot = none) (htold : s'.told = Function.update s.told j true) :
    Monitored s' := by
  have hkept := h.monitors.kept j hsome
  have hno : ∀ k n, s.place k ≠ .joins n := by
    intro k n
    refine h.joins_none (i := i) ?_ (fun j => ?_)
    all_goals rw [hplace]
    · trivial
    · nofun
  refine ⟨fun n hn => ?_, fun k n hk => ?_, fun n hn => ?_, fun n hn => ?_⟩
  · rw [hslot] at hn
    cases hn
  · by_cases hki : k = i
    · rw [hki, hm.self] at hk
      cases hk
      rw [htold, Function.update_self, hm.watch]
      exact ⟨hslot, rfl, hkept.2.born⟩
    · rw [hm.other hki] at hk
      exact absurd hk (hno k n)
  · rw [hm.watch] at hn
    rcases h.monitors.alive n hn with hn' | ⟨k, hk⟩
    · rw [hsome] at hn'
      cases hn'
      exact .inr ⟨i, hm.self⟩
    · exact absurd hk (hno k n)
  · rw [hm.watch] at hn
    have hnj : n ≠ j := by
      rintro rfl
      exact hkept.2.born hn
    rw [htold, Function.update_of_ne hnj]
    exact h.monitors.unborn n hn

/-- A monitor that was joined has ended, so that none runs. -/
theorem Guarded.left (h : Guarded s) (hm : Moves s s' i p) (hplace : s.place i = .joins j)
    (hended : s.watch j = .ended) (hslot : s'.slot = s.slot) (htold : s'.told = s.told)
    (hnew : ∀ j, p ≠ .joins j) : Monitored s' := by
  have hjoined := h.monitors.joined i j hplace
  have hothers : ∀ k n, s.place k = .joins n → k = i := by
    intro k n hk
    refine h.slot.exclusive ?_ ?_
    · rw [hk]
      trivial
    · rw [hplace]
      trivial
  refine ⟨fun n hn => ?_, fun k n hk => ?_, fun n hn => ?_, fun n hn => ?_⟩
  · rw [hslot, hjoined.1] at hn
    cases hn
  · by_cases hki : k = i
    · rw [hki, hm.self] at hk
      exact absurd hk (hnew n)
    · rw [hm.other hki] at hk
      exact absurd (hothers k n hk) hki
  · rw [hm.watch] at hn
    rcases h.monitors.alive n hn with hn' | ⟨k, hk⟩
    · rw [hjoined.1] at hn'
      cases hn'
    · obtain rfl := hothers k n hk
      rw [hplace] at hk
      cases hk
      rw [hended] at hn
      exact hn.elim
  · rw [hm.watch] at hn
    rw [htold]
    exact h.monitors.unborn n hn

/-- A monitor that was told ends. -/
theorem Guarded.ends (h : Guarded s) (ht : Turns s s' j .ended) (hwaits : s.watch j = .waits)
    (htrue : s.told j = true) (hslot : s'.slot = s.slot) (htold : s'.told = s.told) : Monitored s' := by
  refine ⟨fun n hn => ?_, fun k n hk => ?_, fun n hn => ?_, fun n hn => ?_⟩
  · rw [hslot] at hn
    have hkept := h.monitors.kept n hn
    have hnj : n ≠ j := by
      rintro rfl
      rw [htrue] at hkept
      cases hkept.1
    rw [htold, ht.other hnj]
    exact hkept
  · rw [ht.place] at hk
    have hjoined := h.monitors.joined k n hk
    refine ⟨hslot.trans hjoined.1, (congrFun htold n).trans hjoined.2.1, ?_⟩
    by_cases hnj : n = j
    · rw [hnj, ht.self]
      nofun
    · rw [ht.other hnj]
      exact hjoined.2.2
  · have hnj : n ≠ j := by
      rintro rfl
      rw [ht.self] at hn
      exact hn
    rw [ht.other hnj] at hn
    rw [hslot, ht.place]
    exact h.monitors.alive n hn
  · have hnj : n ≠ j := by
      rintro rfl
      rw [ht.self] at hn
      cases hn
    rw [ht.other hnj] at hn
    rw [htold]
    exact h.monitors.unborn n hn

/-- Two monitors do not run at the same time. -/
theorem Guarded.one_monitor (h : Guarded s) (hj : Alive (s.watch j)) (hk : Alive (s.watch k)) : j = k := by
  rcases h.monitors.alive j hj with hj | ⟨i, hi⟩
  · rcases h.monitors.alive k hk with hk | ⟨n, hn⟩
    · rw [hj] at hk
      exact Option.some.inj hk
    · rw [(h.monitors.joined n k hn).1] at hj
      cases hj
  · rcases h.monitors.alive k hk with hk | ⟨n, hn⟩
    · rw [(h.monitors.joined i j hi).1] at hk
      cases hk
    · have hin : ∀ {m n}, s.place m = .joins n → InSlot (s.place m) := by
        intro m n hm
        rw [hm]
        trivial
      obtain rfl := h.slot.exclusive (hin hi) (hin hn)
      rw [hi] at hn
      cases hn
      rfl

theorem step_guarded (h : Guarded s) (hstep : Step shared M s e s') : Guarded s' := by
  cases hstep with
  | @call i task hplace =>
      have hm : Moves s (s.at i task.enter) i task.enter := ⟨rfl, rfl⟩
      have hnew := enter_outside task
      refine ⟨h.services_keep hm rfl ?_ hnew.1, h.slot_keep hm rfl (iff_of_false hnew.2 ?_),
        h.monitors.moves hm rfl rfl ?_ (not_joins hnew.2)⟩
      all_goals rw [hplace]
      · exact id
      · exact id
      · nofun
  | @lock i task hplace hfree =>
      have hm : Moves s ({ s with held := some (.caller i) }.at i (.works task)) i (.works task) := ⟨rfl, rfl⟩
      have hservices := h.services
      rw [hfree] at hservices
      refine ⟨hservices.take (i := .caller i) ?_ fun _ => hm.inside_other,
        h.slot_keep hm rfl (iff_of_false id ?_), h.monitors.moves hm rfl rfl ?_ nofun⟩
      · rw [Inside, hm.self]
        trivial
      all_goals rw [hplace]
      · exact id
      · nofun
  | @unlock i task infos r world hplace _ =>
      have hm : Moves s (({ s with infos, world, held := none }.finish (task.record r)).at i task.leave) i
          task.leave := ⟨rfl, rfl⟩
      have hnew := leave_outside task
      refine ⟨h.services.release (i := .caller i) ?_ ?_ fun _ => hm.inside_other,
        h.slot_keep hm rfl (iff_of_false hnew.2 ?_), h.monitors.moves hm rfl rfl ?_ (not_joins hnew.2)⟩
      · rw [Inside, hplace]
        trivial
      · rw [Inside, hm.self]
        exact hnew.1
      all_goals rw [hplace]
      · exact id
      · nofun
  | @lockSlot i side hplace hfree =>
      have hm : Moves s ({ s with slotHeld := some i }.at i (.holdsSlot side)) i (.holdsSlot side) := ⟨rfl, rfl⟩
      have hslot := h.slot
      rw [hfree] at hslot
      refine ⟨h.services_keep hm rfl ?_ id, hslot.take ?_ fun _ hk => ?_, h.monitors.moves hm rfl rfl ?_ nofun⟩
      · rw [hplace]
        exact id
      · rw [hm.self]
        trivial
      · rw [hm.other hk]
      · rw [hplace]
        nofun
  | watched hplace _ => exact h.lets_go ⟨rfl, rfl⟩ hplace rfl rfl rfl rfl ⟨id, id⟩
  | @spawns i j world hplace hnone hborn _ =>
      refine ⟨h.services.keep fun t => ?_, h.slot.release (i := i) ?_ ?_ fun k hk => ?_,
        h.spawned hplace hnone hborn rfl rfl rfl rfl⟩
      · have ht : Turns s (s.watching j .waits) j .waits := ⟨rfl, rfl⟩
        have hm : Moves (s.watching j .waits) ((s.watching j .waits).at i .outside) i .outside := ⟨rfl, rfl⟩
        refine (hm.inside (t := t) (iff_of_false id ?_)).trans (ht.inside (iff_of_false nofun ?_))
        · rw [ht.place, hplace]
          exact id
        · rw [hborn]
          nofun
      · rw [hplace]
        trivial
      · change ¬ InSlot (Function.update s.place i .outside i)
        rw [Function.update_self]
        exact id
      · change InSlot (Function.update s.place i .outside k) ↔ _
        rw [Function.update_of_ne hk]
  | spawnFails hplace _ _ => exact h.lets_go ⟨rfl, rfl⟩ hplace rfl rfl rfl rfl ⟨id, id⟩
  | unwatched hplace _ => exact h.lets_go ⟨rfl, rfl⟩ hplace rfl rfl rfl rfl ⟨id, id⟩
  | @tells i j hplace hsome =>
      have hm : Moves s ({ s with slot := none, told := Function.update s.told j true }.at i (.joins j)) i (.joins j) :=
        ⟨rfl, rfl⟩
      refine ⟨h.services_keep hm rfl ?_ id, h.slot_keep hm rfl (iff_of_true trivial ?_),
        h.told hm hplace hsome rfl rfl⟩
      all_goals rw [hplace]
      · exact id
      · trivial
  | @joined i j world hplace hended _ =>
      have hm : Moves s ({ s with slotHeld := none, world }.at i (.asks (.change .stopAll))) i
          (.asks (.change .stopAll)) := ⟨rfl, rfl⟩
      refine ⟨h.services_keep hm rfl ?_ id, h.slot_release hm rfl ?_ id, h.left hm hplace hended rfl rfl nofun⟩
      all_goals rw [hplace]
      · exact id
      · trivial
  | @timesOut j hwaits _ =>
      have ht : Turns s (s.watching j .asks) j .asks := ⟨rfl, rfl⟩
      refine ⟨h.services.keep fun _ => ht.inside (iff_of_false nofun ?_), h.slot,
        h.monitors.turns ht rfl rfl ?_ trivial⟩
      all_goals rw [hwaits]
      · nofun
      · trivial
  | @hears j hwaits htrue =>
      have ht : Turns s (s.watching j .ended) j .ended := ⟨rfl, rfl⟩
      refine ⟨h.services.keep fun _ => ht.inside (iff_of_false nofun ?_), h.slot, h.ends ht hwaits htrue rfl rfl⟩
      rw [hwaits]
      nofun
  | @lockWatch j hasks hfree =>
      have ht : Turns s ({ s with held := some (.monitor j) }.watching j .polls) j .polls := ⟨rfl, rfl⟩
      have hservices := h.services
      rw [hfree] at hservices
      refine ⟨hservices.take (i := .monitor j) ht.self fun _ => ht.inside_other, h.slot,
        h.monitors.turns ht rfl rfl ?_ trivial⟩
      rw [hasks]
      trivial
  | @polls j infos world hpolls _ =>
      have ht : Turns s ({ s with infos, world, held := none }.watching j .waits) j .waits := ⟨rfl, rfl⟩
      refine ⟨h.services.release (i := .monitor j) hpolls ?_ fun _ => ht.inside_other, h.slot,
        h.monitors.turns ht rfl rfl ?_ trivial⟩
      · rw [Inside, ht.self]
        nofun
      · rw [hpolls]
        trivial
  | drift _ =>
      refine ⟨h.services, h.slot, ?_⟩
      exact h.monitors.keep rfl rfl (fun _ => Iff.rfl) (fun _ => Iff.rfl) (fun _ _ => Iff.rfl)

def Fresh (s : Threads) : Prop := ∃ n, ∀ j, n ≤ j → s.watch j = .unborn

theorem Fresh.update (h : Fresh s) (hwatch : s'.watch = Function.update s.watch j watch) : Fresh s' := by
  obtain ⟨n, hn⟩ := h
  refine ⟨max n (j + 1), fun k hk => ?_⟩
  rw [hwatch, Function.update_of_ne (by omega)]
  exact hn k (by omega)

theorem step_fresh (h : Fresh s) (hstep : Step shared M s e s') : Fresh s' := by
  cases hstep with
  | spawns _ _ _ _ => exact h.update rfl
  | timesOut _ _ => exact h.update rfl
  | hears _ _ => exact h.update rfl
  | lockWatch _ _ => exact h.update rfl
  | polls _ _ => exact h.update rfl
  | _ => exact h

def Sound (s : Threads) : Prop := Guarded s ∧ Fresh s

/-- A step of a thread, in which nothing new is asked for. -/
def Onward (shared : Shared) (M : Machine sys World) (s s' : Threads) : Prop :=
  (∃ i, Step shared M s (.goOn i) s') ∨ ∃ j, Step shared M s (.tick j) s'

abbrev Leads (shared : Shared) (M : Machine sys World) : Threads → Threads → Prop :=
  Relation.ReflTransGen (Onward shared M)

theorem Sound.step (h : Sound s) (hstep : Step shared M s e s') : Sound s' :=
  ⟨step_guarded h.1 hstep, step_fresh h.2 hstep⟩

theorem Sound.leads (h : Sound s) (hrun : Leads shared M s s') : Sound s' := by
  induction hrun with
  | refl => exact h
  | tail _ hlast ih =>
      rcases hlast with ⟨_, hstep⟩ | ⟨_, hstep⟩
      · exact ih.step hstep
      · exact ih.step hstep

theorem goes (hstep : Step shared M s (.goOn i) s') : Leads shared M s s' := .single (.inl ⟨i, hstep⟩)

theorem ticks (hstep : Step shared M s (.tick j) s') : Leads shared M s s' := .single (.inr ⟨j, hstep⟩)

/-- A caller has let go of the slot, and those that were neither there nor at the services
are where they were. -/
structure Freed (s s' : Threads) (i : Nat) : Prop where
  slotHeld : s'.slotHeld = none
  place : s'.place i = .outside ∨ s'.place i = .asks (.change .stopAll)
  others : ∀ k, k ≠ i → ¬ Works (s.place k) → s'.place k = s.place k

theorem freed_of_step (hrun : Leads shared M s s') (hslotHeld : s'.slotHeld = none)
    (hplace : s'.place = Function.update s.place i p) (hp : p = .outside ∨ p = .asks (.change .stopAll)) :
    ∃ s', Leads shared M s s' ∧ Freed s s' i := by
  refine ⟨s', hrun, hslotHeld, ?_, fun k hk _ => ?_⟩
  · rw [hplace, Function.update_self]
    exact hp
  · rw [hplace, Function.update_of_ne hk]

section Progress

variable (shared) (hanswers : ∀ c w, ∃ b w', M.answers c w b w')

include hanswers

theorem exists_run {α : Type} (p : Io α) (w : World) : ∃ a w', Runs M p w a w' := by
  induction p generalizing w with
  | pure a => exact ⟨a, w, .pure (M.drift_refl w)⟩
  | call c next ih =>
      obtain ⟨b, w₁, hanswer⟩ := hanswers c w
      obtain ⟨a, w₂, hrun⟩ := ih b w₁
      exact ⟨a, w₂, .call (M.drift_refl w) hanswer hrun⟩

/-- A caller with the services lets them go. -/
theorem unlocks {task : Task} (hplace : s.place i = .works task) :
    ∃ s', Leads shared M s s' ∧ s'.held = none ∧ s'.place i = task.leave ∧
      (∀ k, k ≠ i → s'.place k = s.place k) ∧ s'.watch = s.watch ∧ s'.told = s.told := by
  obtain ⟨⟨infos, r⟩, world, hrun⟩ := exists_run hanswers (task.body shared s.infos) s.world
  refine ⟨_, goes (.unlock hplace hrun), rfl, Function.update_self .., fun k hk => ?_, rfl, rfl⟩
  exact Function.update_of_ne hk ..

/-- A monitor with the services lets them go. -/
theorem unlocks_watch (hpolls : s.watch j = .polls) :
    ∃ s', Leads shared M s s' ∧ s'.held = none ∧ s'.watch j = .waits ∧ s'.place = s.place ∧
      (∀ k, k ≠ j → s'.watch k = s.watch k) ∧ s'.told = s.told := by
  obtain ⟨infos, world, hrun⟩ := exists_run hanswers (Prog.traverse pollInfo s.infos) s.world
  refine ⟨_, ticks (.polls hpolls hrun), rfl, Function.update_self .., rfl, fun k hk => ?_, rfl⟩
  exact Function.update_of_ne hk ..

/-- Whoever has the services lets them go, and the others stay where they are. -/
theorem services_freed (h : Sound s) :
    ∃ s', Leads shared M s s' ∧ s'.held = none ∧ (∀ k, ¬ Works (s.place k) → s'.place k = s.place k) ∧
      (∀ j, s.watch j ≠ .polls → s'.watch j = s.watch j) ∧ s'.told = s.told := by
  cases hheld : s.held with
  | none => exact ⟨s, .refl, hheld, fun _ _ => rfl, fun _ _ => rfl, rfl⟩
  | some t =>
      have hin := (h.1.services t).mpr hheld
      cases t with
      | caller i =>
          cases hplace : s.place i with
          | works task =>
              obtain ⟨s', hrun, hfree, _, hothers, hwatch, htold⟩ := unlocks shared hanswers hplace
              refine ⟨s', hrun, hfree, fun k hk => hothers k ?_, fun j _ => congrFun hwatch j, htold⟩
              rintro rfl
              exact hk hin
          | _ =>
              rw [Inside, hplace] at hin
              exact hin.elim
      | monitor j =>
          obtain ⟨s', hrun, hfree, _, hplace, hothers, htold⟩ := unlocks_watch shared hanswers hin
          refine ⟨s', hrun, hfree, fun k _ => congrFun hplace k, fun k hk => hothers k ?_, htold⟩
          rintro rfl
          exact hk hin

theorem polls_end (hpolls : s.watch j = .polls) (htrue : s.told j = true) :
    ∃ s', Leads shared M s s' ∧ s'.watch j = .ended ∧ s'.place = s.place := by
  obtain ⟨s₁, hrun, _, hwaits, hplace, _, htold⟩ := unlocks_watch shared hanswers hpolls
  have hhears : Leads shared M s₁ _ := ticks (.hears hwaits ((congrFun htold j).trans htrue))
  exact ⟨_, hrun.trans hhears, Function.update_self .., hplace⟩

/-- A monitor that was told to end comes to its end, after a last poll at most. -/
theorem monitor_ends (h : Sound s) (halive : Alive (s.watch j)) (htrue : s.told j = true) :
    ∃ s', Leads shared M s s' ∧ s'.watch j = .ended ∧ ∀ k, ¬ Works (s.place k) → s'.place k = s.place k := by
  cases hwatch : s.watch j with
  | waits => exact ⟨_, ticks (.hears hwatch htrue), Function.update_self .., fun _ _ => rfl⟩
  | polls =>
      obtain ⟨s', hrun, hended, hplace⟩ := polls_end shared hanswers hwatch htrue
      exact ⟨s', hrun, hended, fun k _ => congrFun hplace k⟩
  | asks =>
      obtain ⟨s₁, hrun, hfree, hplaces, hwatches, htold⟩ := services_freed shared hanswers h
      have hasks : s₁.watch j = .asks := by
        rw [hwatches j (by rw [hwatch]; nofun)]
        exact hwatch
      have hlock : Leads shared M s₁ _ := ticks (.lockWatch hasks hfree)
      obtain ⟨s', hrun', hended, hplace⟩ := polls_end shared hanswers (j := j)
        (s := { s₁ with held := some (.monitor j) }.watching j .polls) (Function.update_self ..)
        ((congrFun htold j).trans htrue)
      refine ⟨s', (hrun.trans hlock).trans hrun', hended, fun k hk => ?_⟩
      rw [hplace]
      exact hplaces k hk
  | unborn =>
      rw [hwatch] at halive
      exact halive.elim
  | ended =>
      rw [hwatch] at halive
      exact halive.elim

theorem joins_freed (h : Sound s) (hplace : s.place i = .joins j) :
    ∃ s', Leads shared M s s' ∧ Freed s s' i := by
  have hjoined := h.1.monitors.joined i j hplace
  have hi : ¬ Works (s.place i) := by
    rw [hplace]
    exact id
  have hends : ∃ s₁, Leads shared M s s₁ ∧ s₁.watch j = .ended ∧
      ∀ k, ¬ Works (s.place k) → s₁.place k = s.place k := by
    cases hwatch : s.watch j with
    | ended => exact ⟨s, .refl, hwatch, fun _ _ => rfl⟩
    | unborn => exact absurd hwatch hjoined.2.2
    | _ =>
        refine monitor_ends shared hanswers h ?_ hjoined.2.1
        rw [hwatch]
        trivial
  obtain ⟨s₁, hrun, hended, hplaces⟩ := hends
  obtain ⟨_, world, hjoin⟩ := exists_run hanswers (perform .joinMonitor) s₁.world
  have hstep : Leads shared M s₁ _ := goes (.joined ((hplaces i hi).trans hplace) hended hjoin)
  refine ⟨_, hrun.trans hstep, rfl, .inr (Function.update_self ..), fun k hk hworks => ?_⟩
  exact (Function.update_of_ne hk ..).trans (hplaces k hworks)

/-- Whoever has the slot lets it go, after the end of the monitor if there is one to join. -/
theorem slot_freed (h : Sound s) (hin : InSlot (s.place i)) : ∃ s', Leads shared M s s' ∧ Freed s s' i := by
  cases hplace : s.place i with
  | joins j => exact joins_freed shared hanswers h hplace
  | holdsSlot side =>
      cases side with
      | starting =>
          cases hslot : s.slot with
          | some j => exact freed_of_step (goes (.watched hplace hslot)) rfl rfl (.inl rfl)
          | none =>
              obtain ⟨b, world, hspawn⟩ := exists_run hanswers (perform .spawnMonitor) s.world
              obtain ⟨n, hn⟩ := h.2
              cases b with
              | true =>
                  exact freed_of_step (goes (.spawns hplace hslot (hn n (Nat.le_refl n)) hspawn)) rfl rfl (.inl rfl)
              | false => exact freed_of_step (goes (.spawnFails hplace hslot hspawn)) rfl rfl (.inl rfl)
      | stopping =>
          cases hslot : s.slot with
          | none => exact freed_of_step (goes (.unwatched hplace hslot)) rfl rfl (.inr rfl)
          | some j =>
              have hstep : Step shared M s (.goOn i) _ := .tells hplace hslot
              obtain ⟨s', hrun, hfreed⟩ := joins_freed shared hanswers (h.step hstep) (Function.update_self ..)
              refine ⟨s', (goes hstep).trans hrun, hfreed.slotHeld, hfreed.place, fun k hk hworks => ?_⟩
              have hsame : Function.update s.place i (.joins j) k = s.place k := Function.update_of_ne hk ..
              refine (hfreed.others k hk ?_).trans hsame
              change ¬ Works (Function.update s.place i (.joins j) k)
              rw [hsame]
              exact hworks
  | _ =>
      rw [hplace] at hin
      exact hin.elim

/-- A caller that asks for the services comes to have done its part with them. -/
theorem asks_leaves {task : Task} (h : Sound s) (hplace : s.place i = .asks task) :
    ∃ s', Leads shared M s s' ∧ s'.place i = task.leave := by
  have hi : ¬ Works (s.place i) := by
    rw [hplace]
    exact id
  obtain ⟨s₁, hrun, hfree, hplaces, _⟩ := services_freed shared hanswers h
  have hlock : Leads shared M s₁ _ := goes (.lock ((hplaces i hi).trans hplace) hfree)
  obtain ⟨s', hrun', _, hleave, _⟩ := unlocks shared hanswers (i := i)
    (s := { s₁ with held := some (.caller i) }.at i (.works task)) (Function.update_self ..)
  exact ⟨s', (hrun.trans hlock).trans hrun', hleave⟩

theorem inSlot_ends (h : Sound s) (hin : InSlot (s.place i)) :
    ∃ s', Leads shared M s s' ∧ s'.place i = .outside := by
  obtain ⟨s₁, hrun, hfreed⟩ := slot_freed shared hanswers h hin
  rcases hfreed.place with hplace | hplace
  · exact ⟨s₁, hrun, hplace⟩
  · obtain ⟨s', hrun', hplace'⟩ := asks_leaves shared hanswers (h.leads hrun) hplace
    exact ⟨s', hrun.trans hrun', hplace'⟩

theorem asksSlot_ends {side : Side} (h : Sound s) (hplace : s.place i = .asksSlot side) :
    ∃ s', Leads shared M s s' ∧ s'.place i = .outside := by
  have hfreed : ∃ s₁, Leads shared M s s₁ ∧ s₁.slotHeld = none ∧ s₁.place i = .asksSlot side := by
    cases hslot : s.slotHeld with
    | none => exact ⟨s, .refl, hslot, hplace⟩
    | some k =>
        have hin := (h.1.slot k).mpr hslot
        obtain ⟨s₁, hrun, hfreed⟩ := slot_freed shared hanswers h hin
        have hik : i ≠ k := by
          rintro rfl
          rw [hplace] at hin
          exact hin
        refine ⟨s₁, hrun, hfreed.slotHeld, (hfreed.others i hik ?_).trans hplace⟩
        rw [hplace]
        exact id
  obtain ⟨s₁, hrun, hfree, hplace₁⟩ := hfreed
  have hstep : Step shared M s₁ (.goOn i) _ := .lockSlot hplace₁ hfree
  obtain ⟨s', hrun', hplace'⟩ := inSlot_ends shared hanswers (i := i) ((h.leads hrun).step hstep) (by
    change InSlot (Function.update s₁.place i (.holdsSlot side) i)
    rw [Function.update_self]
    trivial)
  exact ⟨s', (hrun.trans (goes hstep)).trans hrun', hplace'⟩

theorem leave_ends {task : Task} (h : Sound s) (hplace : s.place i = task.leave) :
    ∃ s', Leads shared M s s' ∧ s'.place i = .outside := by
  cases task with
  | read => exact ⟨s, .refl, hplace⟩
  | change op =>
      cases op with
      | startAll => exact asksSlot_ends shared hanswers h hplace
      | _ => exact ⟨s, .refl, hplace⟩

/-- Wherever a caller is, it can come to the end of what it does. -/
theorem caller_ends (h : Sound s) (i : Nat) : ∃ s', Leads shared M s s' ∧ s'.place i = .outside := by
  cases hplace : s.place i with
  | outside => exact ⟨s, .refl, hplace⟩
  | asks task =>
      obtain ⟨s₁, hrun, hleave⟩ := asks_leaves shared hanswers h hplace
      obtain ⟨s', hrun', hplace'⟩ := leave_ends shared hanswers (h.leads hrun) hleave
      exact ⟨s', hrun.trans hrun', hplace'⟩
  | works task =>
      obtain ⟨s₁, hrun, _, hleave, _⟩ := unlocks shared hanswers hplace
      obtain ⟨s', hrun', hplace'⟩ := leave_ends shared hanswers (h.leads hrun) hleave
      exact ⟨s', hrun.trans hrun', hplace'⟩
  | asksSlot side => exact asksSlot_ends shared hanswers h hplace
  | holdsSlot side =>
      refine inSlot_ends shared hanswers h ?_
      rw [hplace]
      trivial
  | joins j =>
      refine inSlot_ends shared hanswers h ?_
      rw [hplace]
      trivial

end Progress

variable {infos : List ServiceInfo} {world : World} {meets : Threads → Event → Prop}

theorem reached_sound (h : Reached (threads shared M infos world) meets s) : Sound s := by
  induction h with
  | start => exact ⟨start_guarded infos world, 0, fun _ _ => rfl⟩
  | step _ _ hstep ih => exact ih.step hstep

/-- Any number of callers and the crash monitor share the services without a deadlock: one
thread at most has the services, one monitor at most runs, and from any state every caller
can come to the end of its operation. -/
theorem no_deadlock (onUnix : Bool) (shared : Shared) (infos : List ServiceInfo) (world : World) (s : Threads)
    (h : Reached (threads shared (machine onUnix) infos world) (fun _ _ => True) s) :
    (∀ t t', Inside s t → Inside s t' → t = t') ∧
    (∀ j k, Alive (s.watch j) → Alive (s.watch k) → j = k) ∧
    ∀ i, ∃ s', Leads shared (machine onUnix) s s' ∧ s'.place i = .outside := by
  have hsound := reached_sound h
  refine ⟨fun t t' ht ht' => hsound.1.services.exclusive ht ht', fun j k hj hk => ?_, fun i => ?_⟩
  · exact hsound.1.one_monitor hj hk
  · refine caller_ends shared (M := machine onUnix) (fun c w => ?_) hsound i
    exact ⟨_, _, Steady.answer_sound (fun _ => false) c w⟩

/-- A system in which nothing can be written to a log. -/
def unlogged : Driver (machine true) := Steady.driver true unwritable

def idleShared : Shared := idleManager.shared

def idleStart : Threads := start idleManager.services emptyWorld

def Threads.worked (s : Threads) (i : Nat) (task : Task) : Threads :=
  let done := unlogged.run (task.body idleShared s.infos) s.world
  (({ s with infos := done.1.1, world := done.2, held := none }.finish (task.record done.1.2)).at i task.leave)

theorem worked_step {s : Threads} {i : Nat} {task : Task} (h : s.place i = .works task) :
    Step idleShared (machine true) s (.goOn i) (s.worked i task) :=
  .unlock h (unlogged.runs _ trivial).1

def called : Threads := idleStart.at 0 (.asks (.change .startAll))

def working : Threads := { called with held := some (.caller 0) }.at 0 (.works (.change .startAll))

def started : Threads := working.worked 0 (.change .startAll)

def slotted : Threads := { started with slotHeld := some 0 }.at 0 (.holdsSlot .starting)

/-- A caller has started all services, and the monitor with them. -/
def watched : Threads :=
  (({ slotted with slot := some 0, slotHeld := none }.watching 0 .waits).finish [(.startAll, .ok ())]).at 0 .outside

def calling : Event := .call 0 (.change .startAll)

theorem called_step : Step idleShared (machine true) idleStart calling called := .call rfl

theorem watched_reached {meets : Threads → Event → Prop} (hcall : meets idleStart calling)
    (hmeets : ∀ s, meets s (.goOn 0)) :
    Reached (threads idleShared (machine true) idleManager.services emptyWorld) meets watched := by
  have hd := (machine true).drift_refl
  have hlock : Step idleShared (machine true) called (.goOn 0) working := .lock rfl rfl
  have hunlock : Step idleShared (machine true) working (.goOn 0) started := worked_step rfl
  have hslot : Step idleShared (machine true) started (.goOn 0) slotted := .lockSlot rfl rfl
  have hspawn : Step idleShared (machine true) slotted (.goOn 0) watched :=
    .spawns rfl rfl rfl (runs_perform.mpr ⟨_, _, hd _, rfl, hd _⟩)
  have hcalled : Reached (threads idleShared (machine true) idleManager.services emptyWorld) meets called :=
    .step (e := calling) .start hcall called_step
  have hworking := hcalled.step (e := Event.goOn 0) (hmeets _) hlock
  have hstarted := hworking.step (e := Event.goOn 0) (hmeets _) hunlock
  have hslotted := hstarted.step (e := Event.goOn 0) (hmeets _) hslot
  exact hslotted.step (e := Event.goOn 0) (hmeets _) hspawn

def polling : Threads := { watched.watching 0 .asks with held := some (.monitor 0) }.watching 0 .polls

def stopping : Threads := { polling.at 0 (.asksSlot .stopping) with slotHeld := some 0 }.at 0 (.holdsSlot .stopping)

def joining : Threads :=
  { stopping with slot := none, told := Function.update stopping.told 0 true }.at 0 (.joins 0)

/-- A caller that stops all services waits for the monitor, which holds the services, and
another caller waits for these. -/
def contended : Threads := joining.at 1 (.asks (.change (.restartService "app")))

theorem contended_reached :
    Reached (threads idleShared (machine true) idleManager.services emptyWorld) (fun _ _ => True) contended := by
  have htick : Step idleShared (machine true) watched (.tick 0) (watched.watching 0 .asks) := .timesOut rfl rfl
  have hlock : Step idleShared (machine true) (watched.watching 0 .asks) (.tick 0) polling := .lockWatch rfl rfl
  have hcall : Step idleShared (machine true) polling (.call 0 (.change .stopAll))
      (polling.at 0 (.asksSlot .stopping)) := .call rfl
  have hslot : Step idleShared (machine true) (polling.at 0 (.asksSlot .stopping)) (.goOn 0) stopping :=
    .lockSlot rfl rfl
  have htell : Step idleShared (machine true) stopping (.goOn 0) joining := .tells rfl rfl
  have hsecond : Step idleShared (machine true) joining (.call 1 (.change (.restartService "app"))) contended :=
    .call rfl
  have hwatched : Reached (threads idleShared (machine true) idleManager.services emptyWorld) (fun _ _ => True)
      watched := watched_reached trivial fun _ => trivial
  have hasks := hwatched.step (e := Event.tick 0) trivial htick
  have hpolls := hasks.step (e := Event.tick 0) trivial hlock
  have hstops := hpolls.step (e := Event.call 0 (.change .stopAll)) trivial hcall
  have hslotted := hstops.step (e := Event.goOn 0) trivial hslot
  have hjoins := hslotted.step (e := Event.goOn 0) trivial htell
  exact hjoins.step (e := Event.call 1 (.change (.restartService "app"))) trivial hsecond

theorem no_deadlock_contended :
    contended.place 0 = .joins 0 ∧ contended.watch 0 = .polls ∧
    (∃ s', Leads idleShared (machine true) contended s' ∧ s'.place 0 = .outside) ∧
    ∃ s', Leads idleShared (machine true) contended s' ∧ s'.place 1 = .outside := by
  obtain ⟨_, _, hends⟩ := no_deadlock true idleShared idleManager.services emptyWorld contended contended_reached
  exact ⟨rfl, rfl, hends 0, hends 1⟩

end LocalDevProxy.ServiceLocks
