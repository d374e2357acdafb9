import LocalDevProxy.Lib.Transitions
import Mathlib.Logic.Function.Basic

namespace LocalDevProxy.Instance

open Lib.Transitions

/-- A connection: the process that makes it, and how many it made before. -/
abbrev Conn (P : Type) := P × Nat

inductive Worker (P : Type)
  /-- Before the check of the stop flag. -/
  | polling
  | accepting
  | reading (c : Conn P)
  /-- The read failed, and the stream is about to be dropped. -/
  | refusing (c : Conn P)
  | ended

inductive Process (P : Type)
  | unborn
  | locked
  /-- The listener is there, and its thread is not. -/
  | bound
  | serving (stop : Bool) (worker : Worker P)
  /-- About to release the lock. -/
  | leaving
  | exited
  | connecting (attempt : Nat)
  | connected (attempt : Nat)
  | written (attempt : Nat)
  | failed (attempt : Nat)
  /-- activate_running_instance returned true. -/
  | reached (attempt : Nat)
  | unreached

structure World (P : Type) where
  process : P → Process P
  lock : Option P
  /-- Whose listener the name of the socket leads to. -/
  listener : Option P
  /-- The connections that a listener has not accepted yet. -/
  queue : P → List (Conn P)
  /-- Whether the byte was sent. -/
  written : Conn P → Bool
  /-- Whether the server closed its end. -/
  closed : Conn P → Bool
  /-- The connections that on_activate was called for. -/
  activated : List (Conn P)

inductive Event (P : Type)
  | takeLock (p : P)
  | findLock (p : P)
  | abandon (p : P)
  | listen (p : P)
  | spawn (p : P)
  | spawnFails (p : P)
  | stop (p : P)
  | goOn (p : P)
  | leaveLoop (p : P)
  | accept (p : P)
  | acceptFails (p : P)
  | read (p : P) (c : Conn P)
  | readFails (p : P) (c : Conn P)
  | drop (p : P) (c : Conn P)
  | join (p : P)
  | release (p : P)
  | connect (p : P)
  | connectFails (p : P)
  | write (p : P) (attempt : Nat)
  | writeFails (p : P)
  | flushFails (p : P)
  | answer (p : P)
  | retry (p : P)
  | giveUp (p : P)

variable {P : Type} [DecidableEq P]

namespace World

def move (w : World P) (p : P) (place : Process P) : World P :=
  { w with process := Function.update w.process p place }

/-- The end of a listener, which closes every connection in its queue. -/
def unlisten (w : World P) (p : P) : World P :=
  { w with
    listener := if w.listener = some p then none else w.listener
    queue := Function.update w.queue p []
    closed := fun c => w.closed c || (w.queue p).contains c }

def close (w : World P) (c : Conn P) : World P := { w with closed := Function.update w.closed c true }

end World

/-- One step of one process, in the order of run and of the thread it starts. -/
inductive Step (w : World P) : Event P → World P → Prop
  | takeLock {p} (h : w.process p = .unborn) (hfree : w.lock = none) :
      Step w (.takeLock p) { w.move p .locked with lock := some p }
  | findLock {p q} (h : w.process p = .unborn) (hheld : w.lock = some q) :
      Step w (.findLock p) (w.move p (.connecting 0))
  /-- The log or the runtime is not to be had. -/
  | abandon {p} (h : w.process p = .locked) : Step w (.abandon p) (w.move p .leaving)
  | listen {p} (h : w.process p = .locked) :
      Step w (.listen p) { w.move p .bound with listener := some p, queue := Function.update w.queue p [] }
  | spawn {p} (h : w.process p = .bound) : Step w (.spawn p) (w.move p (.serving false .polling))
  | spawnFails {p} (h : w.process p = .bound) : Step w (.spawnFails p) ((w.unlisten p).move p .leaving)
  | stop {p worker} (h : w.process p = .serving false worker) : Step w (.stop p) (w.move p (.serving true worker))
  | goOn {p} (h : w.process p = .serving false .polling) : Step w (.goOn p) (w.move p (.serving false .accepting))
  | leaveLoop {p} (h : w.process p = .serving true .polling) :
      Step w (.leaveLoop p) ((w.unlisten p).move p (.serving true .ended))
  | accept {p stop c rest} (h : w.process p = .serving stop .accepting) (hqueue : w.queue p = c :: rest) :
      Step w (.accept p)
        { w.move p (.serving stop (.reading c)) with queue := Function.update w.queue p rest }
  | acceptFails {p stop} (h : w.process p = .serving stop .accepting) :
      Step w (.acceptFails p) (w.move p (.serving stop .polling))
  | read {p stop c} (h : w.process p = .serving stop (.reading c)) (hwritten : w.written c = true) :
      Step w (.read p c)
        { (w.close c).move p (.serving stop .polling) with activated := w.activated ++ [c] }
  | readFails {p stop c} (h : w.process p = .serving stop (.reading c)) :
      Step w (.readFails p c) (w.move p (.serving stop (.refusing c)))
  | drop {p stop c} (h : w.process p = .serving stop (.refusing c)) :
      Step w (.drop p c) ((w.close c).move p (.serving stop .polling))
  | join {p} (h : w.process p = .serving true .ended) : Step w (.join p) (w.move p .leaving)
  | release {p} (h : w.process p = .leaving) : Step w (.release p) { w.move p .exited with lock := none }
  /-- The connection is queued, whatever the server does. -/
  | connect {p q n} (h : w.process p = .connecting n) (hlistener : w.listener = some q) :
      Step w (.connect p)
        { w.move p (.connected n) with queue := Function.update w.queue q (w.queue q ++ [(p, n)]) }
  | connectFails {p n} (h : w.process p = .connecting n) : Step w (.connectFails p) (w.move p (.failed n))
  | write {p n} (h : w.process p = .connected n) (hopen : w.closed (p, n) = false) :
      Step w (.write p n) { w.move p (.written n) with written := Function.update w.written (p, n) true }
  | writeFails {p n} (h : w.process p = .connected n) : Step w (.writeFails p) (w.move p (.failed n))
  | flushFails {p n} (h : w.process p = .written n) : Step w (.flushFails p) (w.move p (.failed n))
  | answer {p n} (h : w.process p = .written n) : Step w (.answer p) (w.move p (.reached n))
  | retry {p n} (h : w.process p = .failed n) : Step w (.retry p) (w.move p (.connecting (n + 1)))
  /-- The timeout is over. -/
  | giveUp {p n} (h : w.process p = .failed n) : Step w (.giveUp p) (w.move p .unreached)

def start : World P := ⟨fun _ => .unborn, none, none, fun _ => [], fun _ => false, fun _ => false, []⟩

def system (P : Type) [DecidableEq P] : System (World P) (Event P) := ⟨start, Step⟩

end LocalDevProxy.Instance
