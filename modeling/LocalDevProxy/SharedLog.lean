import LocalDevProxy.Lib.Clients
import LocalDevProxy.Lib.Transitions
import LocalDevProxy.LogContent

namespace LocalDevProxy.SharedLog

open Lib.Interaction Lib.BoundedLog Lib.Clients Lib.Transitions Paths Os LogRotation RotatingLogWriter LogSlots
  LogContent

structure Message where
  thread : Nat
  text : List UInt8

def write (message : Message) (log : RotatingLogWriter) : Io (RotatingLogWriter × Except WriteError Unit) :=
  log.writeBytes message.text

/-- Threads that log, and the writer behind its lock. It is locked while a message is written. -/
structure Threads where
  log : Client sys Message RotatingLogWriter (Except WriteError Unit)
  waits : Nat → Option (List UInt8)
  logged : Nat → List (List UInt8)
  world : World

/-- The system without faults and with nobody else at the files. -/
abbrev quiet : Machine sys World := (machine false).restrict noFaults

/-- A thread has something to log, gets the lock, does one call of the writer, or lets go of the lock. -/
inductive Move : Threads → Option Nat → Threads → Prop
  | logs {s : Threads} {i : Nat} {text : List UInt8} : s.waits i = none →
      Move s (some i) { s with waits := Function.update s.waits i (some text) }
  | locks {s : Threads} {i : Nat} {text : List UInt8} : s.waits i = some text → s.log.doing = none →
      Move s (some i) { s with log := { s.log with doing := some (⟨i, text⟩, write ⟨i, text⟩ s.log.state) } }
  | calls {s : Threads} {message : Message} {c : Call} {next : Ans c → Io (RotatingLogWriter × Except WriteError Unit)}
      {b : Ans c} {w : World} : s.log.doing = some (message, .call c next) → quiet.answers c s.world b w →
      Move s (some message.thread) { s with log := { s.log with doing := some (message, next b) }, world := w }
  | unlocks {s : Threads} {message : Message} {log : RotatingLogWriter} {r : Except WriteError Unit} :
      s.log.doing = some (message, .pure (log, r)) →
      Move s (some message.thread) { s with
        log := ⟨s.log.trace ++ [(message, r)], log, none⟩
        waits := Function.update s.waits message.thread none
        logged := Function.update s.logged message.thread (s.logged message.thread ++ [message.text]) }
  | drifts {s : Threads} {w : World} : quiet.drift s.world w → Move s none { s with world := w }

def sharing (log₀ : RotatingLogWriter) (w₀ : World) : System Threads (Option Nat) where
  start := ⟨⟨[], log₀, none⟩, fun _ => none, fun _ => [], w₀⟩
  Step := Move

def ofThread (i : Nat) (trace : List (Message × Except WriteError Unit)) : List (List UInt8) :=
  (trace.filter fun entry => entry.1.thread = i).map fun entry => entry.1.text

theorem ofThread_snoc (trace : List (Message × Except WriteError Unit)) (message : Message) (r : Except WriteError Unit)
    (i : Nat) : ofThread i (trace ++ [(message, r)]) =
      ofThread i trace ++ (if message.thread = i then [message.text] else []) := by
  by_cases hi : message.thread = i
  · simp [ofThread, hi]
  · simp [ofThread, hi]

variable {log₀ : RotatingLogWriter} {w₀ : World} {s s' : Threads}

/-- The writer is used in turns, and each thread is heard in its order. -/
structure InTurns (log₀ : RotatingLogWriter) (w₀ : World) (s : Threads) : Prop where
  lived : Lived quiet write log₀ w₀ s.log s.world
  order : ∀ i, s.logged i = ofThread i s.log.trace

theorem inTurns_step {e : Option Nat} (h : InTurns log₀ w₀ s) (hmove : Move s e s') : InTurns log₀ w₀ s' := by
  cases hmove with
  | logs _ => exact ⟨h.lived, h.order⟩
  | @locks i text _ hfree => exact ⟨h.lived.step (step_ask hfree ⟨i, text⟩), h.order⟩
  | calls hdoing ha => exact ⟨h.lived.step (step_call hdoing ha), h.order⟩
  | @unlocks message log r hdoing =>
      refine ⟨h.lived.step (step_finish hdoing), fun i => ?_⟩
      rw [ofThread_snoc]
      by_cases hi : i = message.thread
      · subst hi
        simp [h.order]
      · simp [h.order, hi, Ne.symm hi]
  | drifts hd => exact ⟨h.lived.drift hd, h.order⟩

theorem reached_inTurns (h : Reached (sharing log₀ w₀) (fun _ _ => True) s) : InTurns log₀ w₀ s :=
  h.invariant ⟨.idle (.start (quiet.drift_refl w₀)), fun _ => rfl⟩ fun hi _ hmove => inTurns_step hi hmove

def logged (trace : List (Message × Except WriteError Unit)) : List UInt8 := trace.flatMap fun entry => entry.1.text

variable {path : Path} {limits : LogLimits} {d₀ : Disk} {l₀ : Log UInt8}

theorem session_holding {trace : List (Message × Except WriteError Unit)} {log : RotatingLogWriter} {w : World}
    (hname : path.fileName.isSome) (hcap : 1 ≤ limits.maxBytes) (hcount : 1 ≤ limits.backupCount)
    (hstart : Holding path limits d₀ log₀ w₀.disk l₀) (h : Session quiet write log₀ w₀ trace log w) :
    (∀ entry ∈ trace, entry.2 = .ok ()) ∧
      Holding path limits d₀ log w.disk (l₀.write limits.maxBytes (logged trace)) := by
  refine h.invariant (fun trace log w => (∀ entry ∈ trace, entry.2 = .ok ()) ∧
    Holding path limits d₀ log w.disk (l₀.write limits.maxBytes (logged trace))) (fun w hd => ?_) ?_
  · rw [drift_disk hd]
    exact ⟨nofun, hstart⟩
  · rintro trace log u message log' r v ⟨hok, hh⟩ hr
    have hwrite : Runs quiet ((LogOp.write message.text).run log) u (log', r) v := hr
    obtain ⟨rfl, hh'⟩ := op_holding hname hcap hcount hh hwrite
    have hall : logged (trace ++ [(message, .ok ())]) = logged trace ++ message.text := by
      simp [logged]
    rw [hall, Log.write_append]
    refine ⟨fun entry hentry => ?_, hh'⟩
    rcases List.mem_append.mp hentry with hentry | hentry
    · exact hok entry hentry
    · rw [List.mem_singleton.mp hentry]

/-- However threads log at the same time: when none of them has the lock, the files are those of
the bounded log of all messages, each of them whole, in the order in which the threads had the
lock; read from the oldest on, they hold what was there and these messages, but for the whole
files that were pushed out; and what a thread has logged is among them in its own order. -/
theorem messages_whole {log₀ : RotatingLogWriter} {w w₀ : World} {s : Threads} {path : Path} {limits : LogLimits}
    {l₀ : Log UInt8} (hname : path.fileName.isSome) (hcap : 1 ≤ limits.maxBytes) (hcount : 1 ≤ limits.backupCount)
    (hsep : Separate w.disk) (hstored : Stored limits.backupCount path w.disk l₀)
    (hopen : Runs quiet (openWriter path limits) w (.ok log₀) w₀)
    (h : Reached (sharing log₀ w₀) (fun _ _ => True) s) (hfree : s.log.doing = none) :
    (∀ entry ∈ s.log.trace, entry.2 = .ok ()) ∧
    (∀ i, s.logged i = ofThread i s.log.trace) ∧
    (∀ i, i < limits.backupCount → content s.world.disk (backupPath path (i + 1)) =
      (l₀.write limits.maxBytes (logged s.log.trace)).backups[i]?) ∧
    content s.world.disk path = some (l₀.write limits.maxBytes (logged s.log.trace)).active ∧
    readingOf limits.backupCount path w.disk ++ logged s.log.trace =
      ((l₀.write limits.maxBytes (logged s.log.trace)).gone limits.backupCount).flatten ++
        readingOf limits.backupCount path s.world.disk := by
  obtain ⟨he, hw₀⟩ := openWriter_run hcap hcount hopen
  cases he
  have hstart : Holding path limits w.disk
      ⟨path, limits, (w.disk.create path).2, ((w.disk.create path).1.data (w.disk.create path).2).length⟩
      w₀.disk l₀ := by
    rw [hw₀]
    exact opened_holding hname hsep hstored
  obtain ⟨hlived, horder⟩ := reached_inTurns h
  obtain ⟨hok, hh⟩ := session_holding hname hcap hcount hstart (hlived.session hfree)
  have hactive : content s.world.disk path = some (l₀.write limits.maxBytes (logged s.log.trace)).active := by
    rw [content, hh.file, Option.map_some, hh.active]
  refine ⟨hok, horder, hh.backups, hactive, ?_⟩
  rw [readingOf_eq hstored.backups hstored.active, keep_of_fits hstored.fits,
    readingOf_eq hh.backups (by rw [hactive]; rfl), Log.reading_keep, Log.reading_write]

section

variable {message : Message} {log : RotatingLogWriter} {r : Except WriteError Unit}

/-- What a run of the writer does is done in the system, by the thread that has the lock. -/
theorem reached_runs {p : Io (RotatingLogWriter × Except WriteError Unit)} {w w' : World}
    (hr : Runs quiet p w (log, r) w')
    (h : Reached (sharing log₀ w₀) (fun _ _ => True) { s with log.doing := some (message, p), world := w }) :
    Reached (sharing log₀ w₀) (fun _ _ => True)
      { s with log.doing := some (message, .pure (log, r)), world := w' } := by
  generalize hresult : (log, r) = result at hr
  induction hr with
  | pure hd =>
      subst hresult
      exact .step h trivial (.drifts hd)
  | call hd ha _ ih => exact ih (.step (.step h trivial (.drifts hd)) trivial (.calls rfl ha)) hresult

def Threads.asked (s : Threads) (message : Message) : Threads :=
  { s with waits := Function.update s.waits message.thread (some message.text) }

def Threads.after (s : Threads) (message : Message) (log : RotatingLogWriter) (r : Except WriteError Unit) (w : World) :
    Threads where
  log := ⟨s.log.trace ++ [(message, r)], log, none⟩
  waits := Function.update s.waits message.thread none
  logged := Function.update s.logged message.thread (s.logged message.thread ++ [message.text])
  world := w

theorem reached_asked (hwaits : s.waits message.thread = none) (h : Reached (sharing log₀ w₀) (fun _ _ => True) s) :
    Reached (sharing log₀ w₀) (fun _ _ => True) (s.asked message) :=
  .step h trivial (.logs hwaits)

theorem reached_locked (hwaits : s.waits message.thread = some message.text) (hfree : s.log.doing = none)
    (h : Reached (sharing log₀ w₀) (fun _ _ => True) s) :
    Reached (sharing log₀ w₀) (fun _ _ => True)
      { s with log.doing := some (message, write message s.log.state) } :=
  .step h trivial (.locks hwaits hfree)

theorem reached_after {p : Io (RotatingLogWriter × Except WriteError Unit)} {w : World}
    (hr : Runs quiet p s.world (log, r) w)
    (h : Reached (sharing log₀ w₀) (fun _ _ => True) { s with log.doing := some (message, p) }) :
    Reached (sharing log₀ w₀) (fun _ _ => True) (s.after message log r w) :=
  .step (reached_runs hr h) trivial (.unlocks rfl)

end

def firstWorld : World := { openedWorld with disk := openedWorld.disk.append 0 [1, 2] }

def firstLog : RotatingLogWriter := ⟨samplePath, ⟨2, 1⟩, 0, 2⟩

theorem first_runs : Runs quiet (write ⟨0, [1, 2]⟩ openedLog) openedWorld (firstLog, .ok ()) firstWorld := by
  refine runs_step .idlePasses 0 ⟨rfl, trivial⟩ ?_
  refine runs_step (.writeAll _ _) (.ok ()) ⟨rfl, trivial⟩ ?_
  refine runs_step (.flush _) (.ok ()) ⟨rfl, trivial⟩ ?_
  exact .pure (Machine.drift_refl _ _)

theorem second_runs : Runs quiet (write ⟨1, [3]⟩ firstLog) firstWorld (wroteLog, .ok ()) wroteWorld := by
  refine runs_step .idlePasses 0 ⟨rfl, trivial⟩ ?_
  refine runs_step (.removeFile _) (.error ⟨.notFound, "absent"⟩) ⟨⟨fun _ => rfl, rfl⟩, rfl⟩ ?_
  refine runs_step (.metadata _) (.ok ()) ⟨⟨rfl, rfl⟩, trivial⟩ ?_
  refine runs_step (.rename _ _) (.ok ()) ⟨⟨rfl, rfl⟩, trivial⟩ ?_
  refine runs_step (.openAppend _) (.ok 1) ⟨⟨rfl, rfl⟩, trivial⟩ ?_
  refine runs_step (.fileLen _) (.ok 0) ⟨⟨rfl, rfl⟩, trivial⟩ ?_
  refine runs_step (.writeAll _ _) (.ok ()) ⟨rfl, trivial⟩ ?_
  refine runs_step (.flush _) (.ok ()) ⟨rfl, trivial⟩ ?_
  exact .pure (Machine.drift_refl _ _)

def twoLogged : Threads :=
  ((((sharing openedLog openedWorld).start.asked ⟨0, [1, 2]⟩).asked ⟨1, [3]⟩).after ⟨0, [1, 2]⟩ firstLog (.ok ())
    firstWorld).after ⟨1, [3]⟩ wroteLog (.ok ()) wroteWorld

/-- The second asked for the lock while the first had it. -/
theorem twoLogged_reached : Reached (sharing openedLog openedWorld) (fun _ _ => True) twoLogged := by
  let first : Message := ⟨0, [1, 2]⟩
  let second : Message := ⟨1, [3]⟩
  let start : Threads := (sharing openedLog openedWorld).start
  have hlocked : Reached (sharing openedLog openedWorld) (fun _ _ => True)
      { start.asked first with log.doing := some (first, write first openedLog) } :=
    reached_locked rfl rfl (reached_asked rfl .start)
  have hasked : Reached (sharing openedLog openedWorld) (fun _ _ => True)
      { (start.asked first).asked second with log.doing := some (first, write first openedLog) } :=
    reached_asked rfl hlocked
  have hbetween : Reached (sharing openedLog openedWorld) (fun _ _ => True)
      (((start.asked first).asked second).after first firstLog (.ok ()) firstWorld) :=
    reached_after first_runs hasked
  exact reached_after second_runs (reached_locked rfl rfl hbetween)

theorem messages_whole_two :
    content twoLogged.world.disk (backupPath samplePath 1) = some [1, 2] ∧
      content twoLogged.world.disk samplePath = some [3] := by
  have hseparate : Separate emptyWorld.disk := ⟨nofun, nofun⟩
  have hstored : Stored 1 samplePath emptyWorld.disk ⟨[], []⟩ := ⟨by decide, fun _ _ => rfl, rfl⟩
  obtain ⟨_, _, hbackups, hactive, _⟩ := messages_whole (by decide) (by decide) (by decide) hseparate hstored
    sample_opens twoLogged_reached rfl
  exact ⟨hbackups 0 (by decide), hactive⟩

end LocalDevProxy.SharedLog
