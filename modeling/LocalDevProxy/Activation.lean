import LocalDevProxy.Instance

namespace LocalDevProxy.Activation

open Lib.Transitions Instance

variable {P : Type} {w w' : World P} {e : Event P} {p q : P} {c : Conn P} {n : Nat}

def holdsLock : Process P → Bool
  | .locked => true
  | .bound => true
  | .serving _ _ => true
  | .leaving => true
  | _ => false

def listens : Process P → Bool
  | .bound => true
  | .serving _ .ended => false
  | .serving _ _ => true
  | _ => false

/-- A server comes to a connection, unless something goes wrong: it goes through its queue until it
is told to stop, and then only ends what it is at. -/
inductive Awaits (queue : List (Conn P)) (c : Conn P) : Process P → Prop
  | bound : c ∈ queue → Awaits queue c .bound
  | queued {worker : Worker P} : listens (.serving false worker) = true → c ∈ queue →
      Awaits queue c (.serving false worker)
  | next {stop : Bool} : queue.head? = some c → Awaits queue c (.serving stop .accepting)
  | read {stop : Bool} : Awaits queue c (.serving stop (.reading c))

def Awaited (w : World P) (c : Conn P) : Prop := ∃ q, Awaits (w.queue q) c (w.process q)

/-- A launch writes only to a connection that a server comes to. No server is told to stop while a
connection was written to and is in its queue, but for the one that it is about to accept. The
thread of a server starts, where a connection was written to already; after the stop, no accept
fails that is about to take one that was written to; and no read fails of such a one. -/
def Keeps (w : World P) : Event P → Prop
  | .write p n => Awaited w (p, n)
  | .stop q => ∀ c ∈ w.queue q, w.written c = true →
      w.process q = .serving false .accepting ∧ (w.queue q).head? = some c
  | .spawnFails q => ∀ c ∈ w.queue q, w.written c = false
  | .acceptFails q => w.process q = .serving true .accepting → ∀ c, (w.queue q).head? = some c → w.written c = false
  | .readFails _ c => w.written c = false
  | _ => True

/-- Only the process with the lock has a listener, and the name leads to no other. -/
structure Owned (w : World P) : Prop where
  lock : ∀ p, holdsLock (w.process p) = true ↔ w.lock = some p
  listener : ∀ q, w.listener = some q → listens (w.process q) = true

theorem holdsLock_of_listens {place : Process P} (h : listens place = true) : holdsLock place = true := by
  cases place with
  | bound => rfl
  | serving stop worker => rfl
  | _ => cases h

theorem listens_serving (stop stop' : Bool) (worker : Worker P) :
    listens (.serving stop worker) = listens (.serving stop' worker) := by
  cases worker <;> rfl

theorem start_owned : Owned (start : World P) := by
  refine ⟨fun p => ⟨fun h => ?_, fun h => ?_⟩, fun q h => ?_⟩
  · cases h
  · cases h
  · cases h

theorem Owned.eq_of_listener (h : Owned w) (hp : holdsLock (w.process p) = true) (hq : w.listener = some q) :
    q = p := by
  have hlock := (h.lock q).mp (holdsLock_of_listens (h.listener q hq))
  rw [(h.lock p).mp hp] at hlock
  exact (Option.some.inj hlock).symm

/-- Where a process with the lock has no listener, the name leads nowhere. -/
theorem Owned.no_listener (h : Owned w) (hp : holdsLock (w.process p) = true) (hno : listens (w.process p) = false) :
    w.listener = none := by
  cases hlistener : w.listener with
  | none => rfl
  | some q =>
      have hlistens := h.listener q hlistener
      rw [h.eq_of_listener hp hlistener, hno] at hlistens
      cases hlistens

theorem Awaits.listens {queue : List (Conn P)} {place : Process P} (h : Awaits queue c place) :
    Activation.listens place = true := by
  cases h with
  | bound => rfl
  | queued hlistens _ => exact hlistens
  | next => rfl
  | read => rfl

theorem Awaits.enqueue {queue : List (Conn P)} {place : Process P} (h : Awaits queue c place) (c' : Conn P) :
    Awaits (queue ++ [c']) c place := by
  cases h with
  | bound hqueued => exact .bound (List.mem_append_left _ hqueued)
  | queued hlistens hqueued => exact .queued hlistens (List.mem_append_left _ hqueued)
  | next hhead => exact .next (by rw [List.head?_append, hhead]; rfl)
  | read => exact .read

variable [DecidableEq P]

theorem move_self (w : World P) (p : P) (place : Process P) : (w.move p place).process p = place :=
  Function.update_self ..

theorem move_of_ne (w : World P) {p q : P} (h : q ≠ p) (place : Process P) :
    (w.move p place).process q = w.process q := Function.update_of_ne h ..

def actor : Event P → P
  | .takeLock p | .findLock p | .abandon p | .listen p | .spawn p | .spawnFails p | .stop p | .goOn p => p
  | .leaveLoop p | .accept p | .acceptFails p | .read p _ | .readFails p _ | .drop p _ | .join p | .release p => p
  | .connect p | .connectFails p | .write p _ | .writeFails p | .flushFails p | .answer p | .retry p | .giveUp p => p

theorem step_other (hstep : Step w e w') (hq : q ≠ actor e) : w'.process q = w.process q := by
  cases hstep <;> exact move_of_ne _ hq _

theorem move_place {place other : Process P} (h : (w.move p place).process p = other) : place = other :=
  (move_self w p place).symm.trans h

/-- A step that neither takes nor gives back anything. -/
theorem Owned.move (h : Owned w) {place : Process P} (hlock : holdsLock place = holdsLock (w.process p))
    (hlistens : listens (w.process p) = true → listens place = true) : Owned (w.move p place) := by
  refine ⟨fun q => ?_, fun q hq => ?_⟩
  · by_cases hqp : q = p
    · subst hqp
      rw [move_self, hlock]
      exact h.lock q
    · rw [move_of_ne w hqp]
      exact h.lock q
  · by_cases hqp : q = p
    · subst hqp
      rw [move_self]
      exact hlistens (h.listener q hq)
    · rw [move_of_ne w hqp]
      exact h.listener q hq

theorem Owned.unlisten (h : Owned w) (hp : holdsLock (w.process p) = true) {place : Process P}
    (hplace : holdsLock place = true) : Owned ((w.unlisten p).move p place) := by
  refine ⟨fun q => ?_, fun q hq => ?_⟩
  · by_cases hqp : q = p
    · subst hqp
      rw [move_self, hplace]
      exact iff_of_true rfl ((h.lock q).mp hp)
    · rw [move_of_ne _ hqp]
      exact h.lock q
  · have hnone : ((w.unlisten p).move p place).listener = none := by
      change (if w.listener = some p then none else w.listener) = none
      split
      · rfl
      · rename_i hne
        cases hlistener : w.listener with
        | none => rfl
        | some q => exact absurd (h.eq_of_listener hp hlistener ▸ hlistener) hne
    rw [hnone] at hq
    cases hq

theorem step_owned (h : Owned w) (hstep : Step w e w') : Owned w' := by
  cases hstep with
  | @takeLock p hp hfree =>
      refine ⟨fun q => ?_, fun q hq => ?_⟩
      · by_cases hqp : q = p
        · subst hqp
          rw [move_self]
          exact iff_of_true rfl rfl
        · rw [move_of_ne w hqp, h.lock q, hfree]
          exact iff_of_false (fun he => by cases he) (fun he => hqp (Option.some.inj he).symm)
      · have hlistens := h.listener q hq
        have hheld := (h.lock q).mp (holdsLock_of_listens hlistens)
        rw [hfree] at hheld
        cases hheld
  | findLock hp hheld => exact h.move (by rw [hp]; rfl) (by rw [hp]; exact id)
  | abandon hp | join hp | connectFails hp | writeFails hp | flushFails hp | answer hp | retry hp | giveUp hp =>
      exact h.move (by rw [hp]; rfl) (by rw [hp]; exact id)
  | @listen p hp =>
      have hmove : Owned (w.move p .bound) := h.move (by rw [hp]; rfl) (fun _ => rfl)
      refine ⟨hmove.lock, fun q hq => ?_⟩
      obtain rfl := Option.some.inj hq
      rw [move_self]
      rfl
  | spawn hp | goOn hp | acceptFails hp | readFails hp => exact h.move (by rw [hp]; rfl) (fun _ => rfl)
  | spawnFails hp | leaveLoop hp => exact h.unlisten (by rw [hp]; rfl) rfl
  | stop hp => exact h.move (by rw [hp]; rfl) (by rw [hp, listens_serving false true]; exact id)
  | @accept p stop c rest hp _ =>
      have hmove : Owned (w.move p (.serving stop (.reading c))) := h.move (by rw [hp]; rfl) (fun _ => rfl)
      exact ⟨hmove.lock, hmove.listener⟩
  | @read p stop c hp _ =>
      have hmove : Owned (w.move p (.serving stop .polling)) := h.move (by rw [hp]; rfl) (fun _ => rfl)
      exact ⟨hmove.lock, hmove.listener⟩
  | @drop p stop c hp =>
      have hmove : Owned (w.move p (.serving stop .polling)) := h.move (by rw [hp]; rfl) (fun _ => rfl)
      exact ⟨hmove.lock, hmove.listener⟩
  | @release p hp =>
      have hheld : holdsLock (w.process p) = true := by rw [hp]; rfl
      refine ⟨fun q => ?_, fun q hq => ?_⟩
      · by_cases hqp : q = p
        · subst hqp
          rw [move_self]
          exact iff_of_false (fun he => by cases he) (fun he => by cases he)
        · rw [move_of_ne w hqp, h.lock q, (h.lock p).mp hheld]
          exact iff_of_false (fun he => hqp (Option.some.inj he).symm) (fun he => by cases he)
      · have hnone := h.no_listener hheld (by rw [hp]; rfl)
        cases hnone.symm.trans hq
  | @connect p q n hp _ =>
      have hmove : Owned (w.move p (.connected n)) := h.move (by rw [hp]; rfl) (by rw [hp]; exact id)
      exact ⟨hmove.lock, hmove.listener⟩
  | @write p n hp _ =>
      have hmove : Owned (w.move p (.written n)) := h.move (by rw [hp]; rfl) (by rw [hp]; exact id)
      exact ⟨hmove.lock, hmove.listener⟩

theorem reached_owned {meets : World P → Event P → Prop} (h : Reached (system P) meets w) : Owned w :=
  h.invariant start_owned fun howned _ hstep => step_owned howned hstep

theorem Awaits.update {q : P} {queue : P → List (Conn P)} {place : Process P} (h : Awaits (queue q) c place)
    (hq : q ≠ p) (other : List (Conn P)) : Awaits (Function.update queue p other q) c place := by
  rw [Function.update_of_ne hq]
  exact h

/-- What another process does leaves a server and its queue alone, or adds to the queue. -/
theorem Awaits.other {q : P} (h : Awaits (w.queue q) c (w.process q)) (hstep : Step w e w') (hq : q ≠ actor e) :
    Awaits (w'.queue q) c (w'.process q) := by
  rw [step_other hstep hq]
  cases hstep with
  | listen _ | spawnFails _ | leaveLoop _ | accept _ _ => exact h.update hq _
  | @connect p r n _ _ =>
      by_cases hr : q = r
      · subst hr
        change Awaits (Function.update w.queue q (w.queue q ++ [(p, n)]) q) c (w.process q)
        rw [Function.update_self]
        exact h.enqueue (p, n)
      · exact h.update hr _
  | _ => exact h

theorem awaited_move {place : Process P} (h : Awaits (w.queue p) c place) : Awaited (w.move p place) c := by
  refine ⟨p, ?_⟩
  rw [move_self]
  exact h

/-- A server that meets the condition calls on_activate for a connection that was written to, or
still comes to it. -/
theorem step_awaited (hkeeps : Keeps w e) (hstep : Step w e w') (hwritten : w.written c = true) (h : Awaited w c) :
    c ∈ w'.activated ∨ Awaited w' c := by
  obtain ⟨q, hq⟩ := h
  by_cases hactor : q = actor e
  · subst hactor
    cases hstep with
    | spawn hp =>
        rw [actor, hp] at hq
        cases hq with
        | bound hqueued => exact .inr (awaited_move (.queued rfl hqueued))
    | spawnFails hp =>
        rw [actor, hp] at hq
        cases hq with
        | bound hqueued => exact absurd hwritten (by rw [hkeeps c hqueued]; nofun)
    | @stop p worker hp =>
        rw [actor, hp] at hq
        cases hq with
        | queued _ hqueued =>
            obtain ⟨hplace, hhead⟩ := hkeeps c hqueued hwritten
            obtain rfl : worker = .accepting := (Process.serving.inj (hp.symm.trans hplace)).2
            exact .inr (awaited_move (.next hhead))
        | next hhead => exact .inr (awaited_move (.next hhead))
        | read => exact .inr (awaited_move .read)
    | goOn hp =>
        rw [actor, hp] at hq
        cases hq with
        | queued _ hqueued => exact .inr (awaited_move (.queued rfl hqueued))
    | @accept p stop c' rest hp hqueue =>
        rw [actor, hp, hqueue] at hq
        refine .inr ⟨p, ?_⟩
        change Awaits (Function.update w.queue p rest p) c ((w.move p (.serving stop (.reading c'))).process p)
        rw [move_self, Function.update_self]
        cases hq with
        | queued _ hqueued =>
            rcases List.mem_cons.mp hqueued with rfl | hrest
            · exact .read
            · exact .queued rfl hrest
        | next hhead =>
            obtain rfl : c' = c := Option.some.inj hhead
            exact .read
    | @acceptFails p stop hp =>
        rw [actor, hp] at hq
        cases hq with
        | queued _ hqueued => exact .inr (awaited_move (.queued rfl hqueued))
        | next hhead =>
            cases stop with
            | false => exact .inr (awaited_move (.queued rfl (List.mem_of_mem_head? hhead)))
            | true => exact absurd hwritten (by rw [hkeeps hp c hhead]; nofun)
    | @read p stop c' hp _ =>
        rw [actor, hp] at hq
        cases hq with
        | queued _ hqueued =>
            exact .inr (awaited_move (w := w.close c') (.queued rfl hqueued))
        | read => exact .inl (List.mem_append_right _ (List.mem_singleton_self _))
    | readFails hp =>
        rw [actor, hp] at hq
        cases hq with
        | queued _ hqueued => exact .inr (awaited_move (.queued rfl hqueued))
        | read => exact absurd hwritten (by rw [hkeeps]; nofun)
    | @drop p stop c' hp =>
        rw [actor, hp] at hq
        cases hq with
        | queued _ hqueued => exact .inr (awaited_move (w := w.close c') (.queued rfl hqueued))
    -- no connection is awaited at a process that takes another step
    | takeLock hp _ | findLock hp _ | connect hp _ | write hp _ =>
        rw [actor, hp] at hq
        cases hq
    | abandon hp | listen hp | leaveLoop hp | join hp | release hp | connectFails hp | writeFails hp | flushFails hp
    | answer hp | retry hp | giveUp hp =>
        rw [actor, hp] at hq
        cases hq
  · exact .inr ⟨q, hq.other hstep hactor⟩

theorem step_activated (hstep : Step w e w') (h : c ∈ w.activated) : c ∈ w'.activated := by
  cases hstep with
  | read _ _ => exact List.mem_append_left _ h
  | _ => exact h

/-- A launch that wrote, or returned true, did so after its byte was sent. -/
theorem step_sent (hstep : Step w e w') (h : w'.process p = .written n ∨ w'.process p = .reached n) :
    (w.process p = .written n ∨ w.process p = .reached n) ∨ w'.written (p, n) = true := by
  by_cases hactor : p = actor e
  · subst hactor
    cases hstep with
    | @write p m hp _ =>
        rcases h with h | h
        · obtain rfl : m = n := Process.written.inj (move_place h)
          exact .inr (Function.update_self ..)
        · cases move_place h
    | @answer p m hp =>
        rcases h with h | h
        · cases move_place h
        · obtain rfl : m = n := Process.reached.inj (move_place h)
          exact .inl (.inl hp)
    | _ => rcases h with h | h <;> cases move_place h
  · have hother := step_other hstep hactor
    exact .inl (h.imp hother.symm.trans hother.symm.trans)

theorem step_written (hstep : Step w e w') (h : w'.written c = true) :
    w.written c = true ∨ ∃ p n, e = .write p n ∧ c = (p, n) ∧ w.process p = .connected n := by
  cases hstep with
  | @write p n hp _ =>
      by_cases he : c = (p, n)
      · subst he
        exact .inr ⟨p, n, rfl, rfl, hp⟩
      · exact .inl ((Function.update_of_ne he ..).symm.trans h)
  | _ => exact .inl h

theorem written_mono (hstep : Step w e w') (h : w.written c = true) : w'.written c = true := by
  cases hstep with
  | @write p n _ _ =>
      by_cases he : c = (p, n)
      · subst he
        exact Function.update_self ..
      · exact (Function.update_of_ne he ..).trans h
  | _ => exact h

/-- A launch that was told true has written, and a connection that was written to is activated, or
a server comes to it. -/
structure Kept (w : World P) : Prop where
  sent : ∀ p n, w.process p = .written n ∨ w.process p = .reached n → w.written (p, n) = true
  activated : ∀ c, w.written c = true → c ∈ w.activated ∨ Awaited w c

omit [DecidableEq P] in
theorem start_kept : Kept (start : World P) := by
  refine ⟨fun p n h => ?_, fun c h => ?_⟩
  · rcases h with h | h <;> cases h
  · cases h

theorem step_kept (h : Kept w) (hkeeps : Keeps w e) (hstep : Step w e w') : Kept w' := by
  refine ⟨fun p n hsent => ?_, fun c hwritten => ?_⟩
  · rcases step_sent hstep hsent with hbefore | hwritten
    · exact written_mono hstep (h.sent p n hbefore)
    · exact hwritten
  · rcases step_written hstep hwritten with hbefore | ⟨p, n, rfl, rfl, hp⟩
    · rcases h.activated c hbefore with hactivated | hawaited
      · exact .inl (step_activated hstep hactivated)
      · exact step_awaited hkeeps hstep hbefore hawaited
    · obtain ⟨q, hq⟩ := hkeeps
      have hother : q ≠ p := by
        rintro rfl
        rw [hp] at hq
        cases hq
      exact .inr ⟨q, hq.other hstep hother⟩

theorem reached_kept (h : Reached (system P) Keeps w) : Kept w :=
  h.invariant start_kept fun hkept hkeeps hstep => step_kept hkept hkeeps hstep

def Over (w : World P) : Prop := ∀ q, listens (w.process q) = false

omit [DecidableEq P] in
theorem not_awaited_of_over (h : Over w) : ¬ Awaited w c := by
  rintro ⟨q, hq⟩
  exact Bool.false_ne_true ((h q).symm.trans hq.listens)

/-- A server ends what it is at, and calls on_activate where there is a byte. -/
theorem taken {q : P} {c' : Conn P} {stop : Bool} (hp : w.process q = .serving stop (.reading c')) :
    ∃ w', Onward (system P) Keeps w w' ∧ w'.process q = .serving stop .polling ∧ w'.queue = w.queue ∧
      w'.written = w.written ∧ (w.written c' = true → c' ∈ w'.activated) := by
  by_cases hwritten : w.written c' = true
  · refine ⟨_, .single ⟨.read q c', trivial, .read hp hwritten⟩, move_self _ q _, rfl, rfl, fun _ => ?_⟩
    exact List.mem_append_right _ (List.mem_singleton_self _)
  · have hrefusing := move_self w q (.serving stop (.refusing c'))
    have hunwritten : w.written c' = false := Bool.eq_false_iff.mpr hwritten
    exact ⟨_, .next (e := .readFails q c') hunwritten (.readFails hp)
      (.single ⟨.drop q c', trivial, .drop hrefusing⟩), move_self _ q _, rfl, rfl, fun h => absurd h hwritten⟩

theorem accepted {q : P} {c' : Conn P} {stop : Bool} {rest : List (Conn P)}
    (hp : w.process q = .serving stop .accepting) (hqueue : w.queue q = c' :: rest) :
    ∃ w', Onward (system P) Keeps w w' ∧ w'.process q = .serving stop .polling ∧ w'.queue q = rest ∧
      w'.written = w.written ∧ (w.written c' = true → c' ∈ w'.activated) := by
  have hreading := move_self w q (.serving stop (.reading c'))
  obtain ⟨w', honward, hpolling, hqueue', hwritten, hactivated⟩ := taken
    (w := { w.move q (.serving stop (.reading c')) with queue := Function.update w.queue q rest }) hreading
  refine ⟨w', .next (e := .accept q) trivial (.accept hp hqueue) honward, hpolling, ?_, hwritten, hactivated⟩
  rw [hqueue']
  exact Function.update_self ..

/-- A server that is not told to stop goes through its queue. -/
theorem polled {q : P} {before after : List (Conn P)} (hp : w.process q = .serving false .polling)
    (hqueue : w.queue q = before ++ c :: after) (hwritten : w.written c = true) :
    ∃ w', Onward (system P) Keeps w w' ∧ c ∈ w'.activated := by
  induction before generalizing w with
  | nil =>
      obtain ⟨w', honward, _, _, _, hactivated⟩ := accepted (w := w.move q (.serving false .accepting))
        (move_self w q _) hqueue
      exact ⟨w', .next (e := .goOn q) trivial (.goOn hp) honward, hactivated hwritten⟩
  | cons c' before ih =>
      obtain ⟨w₁, honward, hpolling, hqueue', hsame, _⟩ := accepted (w := w.move q (.serving false .accepting))
        (move_self w q _) hqueue
      obtain ⟨w', hrest, hactivated⟩ := ih hpolling hqueue' ((congrFun hsame c).trans hwritten)
      exact ⟨w', .next (e := .goOn q) trivial (.goOn hp) (honward.trans hrest), hactivated⟩

/-- What a server comes to can always still be activated. -/
theorem served (h : Awaited w c) (hwritten : w.written c = true) :
    ∃ w', Onward (system P) Keeps w w' ∧ c ∈ w'.activated := by
  obtain ⟨q, hq⟩ := h
  generalize hplace : w.process q = place at hq
  cases hq with
  | bound hqueued =>
      obtain ⟨before, after, hqueue⟩ := List.append_of_mem hqueued
      obtain ⟨w', honward, hactivated⟩ := polled (w := w.move q (.serving false .polling)) (move_self w q _) hqueue
        hwritten
      exact ⟨w', .next (e := .spawn q) trivial (.spawn hplace) honward, hactivated⟩
  | @queued worker hlistens hqueued =>
      obtain ⟨before, after, hqueue⟩ := List.append_of_mem hqueued
      cases worker with
      | polling => exact polled hplace hqueue hwritten
      | accepting =>
          cases before with
          | nil =>
              obtain ⟨w', honward, _, _, _, hactivated⟩ := accepted hplace hqueue
              exact ⟨w', honward, hactivated hwritten⟩
          | cons c' before =>
              obtain ⟨w₁, honward, hpolling, hqueue', hsame, _⟩ := accepted hplace hqueue
              obtain ⟨w', hrest, hactivated⟩ := polled hpolling hqueue' ((congrFun hsame c).trans hwritten)
              exact ⟨w', honward.trans hrest, hactivated⟩
      | reading c' =>
          obtain ⟨w₁, honward, hpolling, hqueue', hsame, _⟩ := taken hplace
          obtain ⟨w', hrest, hactivated⟩ := polled hpolling ((congrFun hqueue' q).trans hqueue)
            ((congrFun hsame c).trans hwritten)
          exact ⟨w', honward.trans hrest, hactivated⟩
      | refusing c' =>
          obtain ⟨w', honward, hactivated⟩ := polled (w := (w.close c').move q (.serving false .polling))
            (move_self (w.close c') q _) hqueue hwritten
          exact ⟨w', .next (e := .drop q c') trivial (.drop hplace) honward, hactivated⟩
      | ended => cases hlistens
  | next hhead =>
      obtain ⟨rest, hqueue⟩ := List.head?_eq_some_iff.mp hhead
      obtain ⟨w', honward, _, _, _, hactivated⟩ := accepted hplace hqueue
      exact ⟨w', honward, hactivated hwritten⟩
  | read =>
      obtain ⟨w', honward, _, _, _, hactivated⟩ := taken hplace
      exact ⟨w', honward, hactivated hwritten⟩

/-- Where every step meets the condition, each launch that was told true has had its activation
when no server is left, and as long as it has not, it can still have it. A listener is made by the
process with the lock only, and over no other one, in every run. -/
theorem activations_kept (P : Type) [DecidableEq P] :
    (∀ w, Reached (system P) Keeps w → ∀ p n, w.process p = .reached n →
      (Over w → (p, n) ∈ w.activated) ∧ ∃ w', Onward (system P) Keeps w w' ∧ (p, n) ∈ w'.activated) ∧
    ∀ w, Reached (system P) (fun _ _ => True) w → ∀ p w', Step w (.listen p) w' →
      w.lock = some p ∧ w.listener = none := by
  refine ⟨fun w h p n hp => ?_, fun w h p w' hstep => ?_⟩
  · have hwritten := (reached_kept h).sent p n (.inr hp)
    rcases (reached_kept h).activated (p, n) hwritten with hactivated | hawaited
    · exact ⟨fun _ => hactivated, w, .refl, hactivated⟩
    · exact ⟨fun hover => absurd hawaited (not_awaited_of_over hover), served hawaited hwritten⟩
  · cases hstep with
    | listen hp =>
        have howned := reached_owned h
        have hheld : holdsLock (w.process p) = true := by rw [hp]; rfl
        exact ⟨(howned.lock p).mp hheld, howned.no_listener hheld (by rw [hp]; rfl)⟩

theorem kept_reached (h : Reached (system P) Keeps w) (hstep : Step w e w') (hkeeps : Keeps w e) :
    Reached (system P) Keeps w' := .step h hkeeps hstep

/-- A server that is told to stop as it is about to accept the connection of a launch. -/
theorem activations_kept_served : ∃ w : World Nat, w.process 0 = .exited ∧ w.process 1 = .reached 0 ∧
    (1, 0) ∈ w.activated := by
  have h : Reached (system Nat) Keeps (start : World Nat) := .start
  have h := kept_reached h (.takeLock (p := 0) rfl rfl) trivial
  have h := kept_reached h (.listen (p := 0) rfl) trivial
  have h := kept_reached h (.spawn (p := 0) rfl) trivial
  have h := kept_reached h (.findLock (p := 1) rfl rfl) trivial
  have h := kept_reached h (.connect (p := 1) rfl rfl) trivial
  have h := kept_reached h (.write (p := 1) rfl rfl) ⟨0, .queued rfl (List.mem_singleton_self _)⟩
  have h := kept_reached h (.goOn (p := 0) rfl) trivial
  have h := kept_reached h (.stop (p := 0) rfl) fun c hc _ => ⟨rfl, by rw [List.mem_singleton.mp hc]; rfl⟩
  have h := kept_reached h (.answer (p := 1) rfl) trivial
  have h := kept_reached h (.accept (p := 0) rfl rfl) trivial
  have h := kept_reached h (.read (p := 0) rfl rfl) trivial
  have h := kept_reached h (.leaveLoop (p := 0) rfl) trivial
  have h := kept_reached h (.join (p := 0) rfl) trivial
  have h := kept_reached h (.release (p := 0) rfl) trivial
  exact ⟨_, rfl, rfl, (((activations_kept Nat).1 _ h 1 0 rfl).1 fun q => by rcases q with _ | _ | q <;> rfl)⟩

theorem any_reached (h : Reached (system P) (fun _ _ => True) w) (hstep : Step w e w') :
    Reached (system P) (fun _ _ => True) w' := .step h trivial hstep

/-- The server is told to stop while the connection of a launch, which returned
true already, is in its queue. -/
theorem activation_lost : ∃ w : World Nat, Reached (system Nat) (fun _ _ => True) w ∧
    w.process 1 = .reached 0 ∧ w.process 0 = .exited ∧ Over w ∧ (1, 0) ∉ w.activated := by
  have h : Reached (system Nat) (fun _ _ => True) (start : World Nat) := .start
  have h := any_reached h (.takeLock (p := 0) rfl rfl)
  have h := any_reached h (.listen (p := 0) rfl)
  have h := any_reached h (.spawn (p := 0) rfl)
  have h := any_reached h (.findLock (p := 1) rfl rfl)
  have h := any_reached h (.connect (p := 1) rfl rfl)
  have h := any_reached h (.write (p := 1) rfl rfl)
  have h := any_reached h (.answer (p := 1) rfl)
  have h := any_reached h (.stop (p := 0) rfl)
  have h := any_reached h (.leaveLoop (p := 0) rfl)
  have h := any_reached h (.join (p := 0) rfl)
  have h := any_reached h (.release (p := 0) rfl)
  refine ⟨_, h, rfl, rfl, fun q => ?_, List.not_mem_nil⟩
  rcases q with _ | _ | q <;> rfl

end LocalDevProxy.Activation
