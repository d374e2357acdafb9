import LocalDevProxy.Environment
import LocalDevProxy.Lib.Interaction
import LocalDevProxy.Paths
import Mathlib.Logic.Function.Basic

namespace LocalDevProxy.Os

open Lib.Interaction Environment Paths

inductive ErrorKind
  | notFound
  | invalidInput
  | other
deriving DecidableEq

structure IoError where
  kind : ErrorKind
  message : String
deriving DecidableEq

inductive IpAddr
  | v4 (bits : BitVec 32)
  | v6 (bits : BitVec 128)
deriving DecidableEq

structure SocketAddr where
  ip : IpAddr
  port : Nat
deriving DecidableEq

inductive ExitStatus
  | code (n : Int)
  | signal (n : Int)
deriving DecidableEq

/-- A handle on a spawned process. Its id came from the operating system, so
it fits the signed type that signals are sent with. -/
structure Child where
  id : Nat
  isPid : id ≤ 2147483647
deriving DecidableEq

inductive Signal
  | term
  | kill
deriving DecidableEq

inductive Site
  | pollExits
  | startLocked
  | stopLocked
  | waitTimeout
deriving DecidableEq

inductive Polled
  | running
  | exited (status : ExitStatus)
  | error
deriving DecidableEq

/-- A pump thread with its channel and its discard flag. -/
structure LogCapture where
  id : Nat
deriving DecidableEq

inductive Call
  | tryWait (site : Site) (child : Child)
  | wait (child : Child)
  | kill (child : Child)
  | killpg (pgid : Nat) (signal : Signal)
  | probeGroup (pgid : Nat)
  | beforeDeadline
  | sleep
  | spawn (owner : String) (command : List String) (env : OsEnv) (cwd : Path)
  | spawnPump (file : Nat)
  | recvTimeout (capture : LogCapture)
  | setDiscard (capture : LogCapture)
  | spawnMonitor
  | monitorTicks
  | joinMonitor
  | createDirAll (path : Path)
  | metadata (path : Path)
  | removeFile (path : Path)
  | rename (source destination : Path)
  | openAppend (path : Path)
  | fileLen (file : Nat)
  | idlePasses
  | writeAll (file : Nat) (data : List UInt8)
  | flush (file : Nat)
  | readToString (path : Path)
  | writeFile (path : Path) (text : String)
  | timestamp
  | lookupHost (host : String) (port : Nat)
  | listen (addr : SocketAddr)
  | localAddr (addr : SocketAddr)
  | closeListeners (addrs : List SocketAddr)

@[reducible]
def Ans : Call → Type
  | .tryWait _ _ => Polled
  | .wait _ => Option ExitStatus
  | .probeGroup _ | .beforeDeadline | .recvTimeout _ => Bool
  | .spawn _ _ _ _ => Except IoError Child
  | .spawnPump _ => LogCapture
  | .spawnMonitor => Bool
  | .monitorTicks | .idlePasses => Nat
  | .openAppend _ | .fileLen _ => Except IoError Nat
  | .createDirAll _ | .metadata _ | .removeFile _ | .rename _ _ | .writeAll _ _ | .flush _ | .writeFile _ _ =>
      Except IoError Unit
  | .readToString _ => Except IoError String
  | .timestamp => String
  | .lookupHost _ _ => Except IoError (List SocketAddr)
  | .listen _ => Except IoError Unit
  | .localAddr _ => Except IoError SocketAddr
  | .kill _ | .killpg _ _ | .sleep | .setDiscard _ | .joinMonitor | .closeListeners _ => Unit

abbrev sys : Signature := ⟨Call, Ans⟩

abbrev Io (α : Type) : Type := Prog sys α

def perform (c : Call) : Io (Ans c) := Prog.perform (S := sys) c

/-- Whether its metadata can be read. A file that is there but cannot be asked about does not exist. -/
def pathExists (path : Path) : Io Bool := do return (← perform (.metadata path)).isOk

theorem pathExists_only {P : Call → Prop} {path : Path} (hc : P (.metadata path)) : (pathExists path).Only P :=
  Prog.only_bind (Prog.only_perform hc) fun _ => Prog.only_pure _ _

/-- Whether the leader of a group still runs, has exited, or was also waited for. -/
inductive Leader
  | alive
  | exited (status : ExitStatus)
  | reaped (status : ExitStatus)
deriving DecidableEq

inductive Event
  | signalled (signal : Signal)
  | exitObserved
  | emptyObserved
deriving DecidableEq

/-- A process group: the spawned leader and the members it forked. The owner
and the history, newest event first, are recorded for statements only. -/
structure Group where
  owner : String
  leader : Leader
  members : Nat
  history : List Event

namespace Group

def HasLive (g : Group) : Prop := g.leader = .alive ∨ 0 < g.members

/-- What a group may do by itself. Ignoring a signal is doing nothing. -/
inductive Step : Group → Group → Prop
  | leaderExit (g : Group) (status : ExitStatus) :
      g.leader = .alive → Step g { g with leader := .exited status }
  | memberExit (g : Group) (n : Nat) : g.members = n + 1 → Step g { g with members := n }
  | fork (g : Group) : g.HasLive → Step g { g with members := g.members + 1 }

def killLeader (g : Group) : Group :=
  { g with leader := if g.leader = .alive then .exited (.signal 9) else g.leader }

def record (g : Group) (e : Event) : Group := { g with history := e :: g.history }

def receive (g : Group) : Signal → Group
  | .term => g.record (.signalled .term)
  | .kill => { g.killLeader with members := 0 }.record (.signalled .kill)

def reap (g : Group) (status : ExitStatus) : Group :=
  { g with leader := .reaped status }.record .exitObserved

end Group

/-- Directory entries name files, and files hold bytes. -/
structure Disk where
  names : Path → Option Nat
  data : Nat → List UInt8
  next : Nat

namespace Disk

def link (d : Disk) (path : Path) (file : Option Nat) : Disk :=
  { d with names := Function.update d.names path file }

def store (d : Disk) (file : Nat) (bytes : List UInt8) : Disk :=
  { d with data := Function.update d.data file bytes }

def append (d : Disk) (file : Nat) (bytes : List UInt8) : Disk :=
  d.store file (d.data file ++ bytes)

def create (d : Disk) (path : Path) : Disk × Nat :=
  match d.names path with
  | some file => (d, file)
  | none => ({ (d.link path (some d.next)).store d.next [] with next := d.next + 1 }, d.next)

def move (d : Disk) (source destination : Path) : Disk :=
  (d.link source none).link destination (d.names source)

theorem names_link_self (d : Disk) (path : Path) (file : Option Nat) : (d.link path file).names path = file :=
  Function.update_self ..

theorem names_link_of_ne (d : Disk) {p path : Path} (h : p ≠ path) (file : Option Nat) :
    (d.link path file).names p = d.names p := Function.update_of_ne h ..

theorem names_move_destination (d : Disk) (source destination : Path) :
    (d.move source destination).names destination = d.names source := names_link_self _ destination _

theorem names_move_source (d : Disk) {source destination : Path} (h : source ≠ destination) :
    (d.move source destination).names source = none := by
  rw [move, names_link_of_ne _ h, names_link_self]

theorem names_move_of_ne (d : Disk) {p source destination : Path} (hsource : p ≠ source)
    (hdestination : p ≠ destination) : (d.move source destination).names p = d.names p := by
  rw [move, names_link_of_ne _ hdestination, names_link_of_ne _ hsource]

end Disk

structure World where
  groups : Nat → Option Group
  disk : Disk

def emptyWorld : World := ⟨fun _ => none, ⟨fun _ => none, fun _ => [], 0⟩⟩

namespace World

def modify (w : World) (id : Nat) (f : Group → Group) : World :=
  { w with groups := Function.update w.groups id ((w.groups id).map f) }

def insert (w : World) (id : Nat) (g : Group) : World :=
  { w with groups := Function.update w.groups id (some g) }

end World

def bytesOf (text : String) : List UInt8 := text.toByteArray.data.toList

/-- How the system may answer a call and what the call does. A call that can
fail is free to fail; the calls not listed leave the world as it is. -/
def answers : (c : Call) → World → Ans c → World → Prop
  | .tryWait _ child, w, .running, w' => w' = w ∧ ∀ g, w.groups child.id = some g → g.leader = .alive
  | .tryWait _ child, w, .exited status, w' =>
      (∃ g, w.groups child.id = some g ∧ (g.leader = .exited status ∨ g.leader = .reaped status)) ∧
        w' = w.modify child.id (fun g => g.reap status)
  | .tryWait _ _, w, .error, w' => w' = w
  | .wait child, w, some status, w' =>
      (∃ g, w.groups child.id = some g ∧ (g.leader = .exited status ∨ g.leader = .reaped status)) ∧
        w' = w.modify child.id (fun g => g.reap status)
  | .wait _, w, none, w' => w' = w
  | .kill child, w, _, w' => w' = w.modify child.id Group.killLeader
  | .killpg pgid signal, w, _, w' => w' = w.modify pgid (fun g => g.receive signal)
  | .probeGroup pgid, w, true, w' =>
      (∀ g, w.groups pgid = some g → ¬ g.HasLive) ∧ w' = w.modify pgid (fun g => g.record .emptyObserved)
  | .spawn owner _ _ _, w, .ok child, w' =>
      w.groups child.id = none ∧ w' = w.insert child.id ⟨owner, .alive, 0, []⟩
  | .metadata path, w, .ok _, w' => (w.disk.names path).isSome ∧ w' = w
  | .metadata path, w, .error err, w' => (err.kind = .notFound → w.disk.names path = none) ∧ w' = w
  | .removeFile path, w, .ok _, w' =>
      (w.disk.names path).isSome ∧ w' = { w with disk := w.disk.link path none }
  | .removeFile path, w, .error err, w' =>
      (err.kind = .notFound → w.disk.names path = none) ∧ w' = w
  | .rename source destination, w, .ok _, w' =>
      (w.disk.names source).isSome ∧ w' = { w with disk := w.disk.move source destination }
  | .openAppend path, w, .ok file, w' =>
      file = (w.disk.create path).2 ∧ w' = { w with disk := (w.disk.create path).1 }
  | .fileLen file, w, .ok size, w' => size = (w.disk.data file).length ∧ w' = w
  | .writeAll file data, w, .ok _, w' => w' = { w with disk := w.disk.append file data }
  | .writeAll file data, w, .error _, w' =>
      ∃ n, w' = { w with disk := w.disk.append file (data.take n) }
  | .readToString path, w, .ok text, w' =>
      (∃ file, w.disk.names path = some file ∧ w.disk.data file = bytesOf text) ∧ w' = w
  | .readToString path, w, .error err, w' =>
      (err.kind = .notFound → w.disk.names path = none) ∧ w' = w
  | .writeFile path text, w, .ok _, w' =>
      w' = { w with disk := (w.disk.create path).1.store (w.disk.create path).2 (bytesOf text) }
  | .writeFile path text, w, .error _, w' => w' = w ∨
      ∃ n, w' = { w with disk :=
        (w.disk.create path).1.store (w.disk.create path).2 ((bytesOf text).take n) }
  | _, w, _, w' => w' = w

/-- Every group moves by itself, and none appears or goes away. -/
def Evolves : Option Group → Option Group → Prop
  | none, none => True
  | some g, some h => Relation.ReflTransGen Group.Step g h
  | _, _ => False

theorem Evolves.refl (g : Option Group) : Evolves g g := by
  cases g with
  | none => trivial
  | some g => exact Relation.ReflTransGen.refl

theorem Evolves.trans {f g h : Option Group} (hfg : Evolves f g) (hgh : Evolves g h) :
    Evolves f h := by
  cases f <;> cases g <;> cases h <;> simp only [Evolves] at *
  exact hfg.trans hgh

/-- The system, with the files either left alone or edited by others at will. -/
def machine (shared : Bool) : Machine sys World where
  answers := answers
  drift := fun w w' =>
    (∀ id, Evolves (w.groups id) (w'.groups id)) ∧ (shared = false → w'.disk = w.disk)
  drift_refl := fun _ => ⟨fun _ => .refl _, fun _ => rfl⟩
  drift_trans := fun huv hvw =>
    ⟨fun id => (huv.1 id).trans (hvw.1 id), fun h => (hvw.2 h).trans (huv.2 h)⟩

/-- A run that begins with a given answer to its first call. -/
theorem runs_step {α W : Type} {M : Machine sys W} (c : Call) (b : Ans c) {next : Ans c → Io α}
    {w w₁ w' : W} {a : α} (ha : M.answers c w b w₁) (hn : Runs M (next b) w₁ a w') :
    Runs M (.call c next) w a w' :=
  .call (M.drift_refl w) ha hn

def waitsSucceed : (c : Call) → Ans c → Prop
  | .tryWait _ _, .error => False
  | .wait _, none => False
  | _, _ => True

instance (c : Call) (b : Ans c) : Decidable (waitsSucceed c b) := by
  cases c with
  | tryWait site child =>
      cases b with
      | error => exact .isFalse id
      | running | exited => exact .isTrue trivial
  | wait child =>
      cases b with
      | none => exact .isFalse id
      | some status => exact .isTrue trivial
  | _ => exact .isTrue trivial

/-- Answers in which a file whose metadata cannot be read is not there. -/
def checksRight : (c : Call) → Ans c → Prop
  | .metadata _, .error err => err.kind = .notFound
  | _, _ => True

/-- Answers in which a start never fails to poll the child that the service holds. -/
def startsPolled : (c : Call) → Ans c → Prop
  | .tryWait .startLocked _, .error => False
  | _, _ => True

end LocalDevProxy.Os
