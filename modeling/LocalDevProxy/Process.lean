import LocalDevProxy.LogRotation
import LocalDevProxy.Placeholders

namespace LocalDevProxy.Process

open Lib.Interaction Lib.Fallible Text Paths Environment Config Placeholders Os LogRotation
  RotatingLogWriter

inductive ServiceStatus
  | running
  | stopped
  | crashed
  | unmanaged
  | disabled
deriving DecidableEq

namespace ServiceStatus

def asStr : ServiceStatus → String
  | .running => "running"
  | .stopped => "stopped"
  | .crashed => "crashed"
  | .unmanaged => "unmanaged"
  | .disabled => "disabled"

def isControllable : ServiceStatus → Bool
  | .running | .stopped | .crashed => true
  | .unmanaged | .disabled => false

end ServiceStatus

structure ServiceSnapshot where
  name : String
  status : ServiceStatus
  managed : Bool
  pid : Option Nat
  exitCode : Option Int
  restartCount : UInt32
deriving DecidableEq

inductive ServiceError
  | unknown (name : String)
  | unmanaged (name : String)
  | launch (name message : String)
deriving DecidableEq

def ServiceError.display : ServiceError → String
  | .unknown name => "Unknown service: " ++ name
  | .unmanaged name => "Service '" ++ name ++ "' is unmanaged"
  | .launch name message => "Failed to start " ++ name ++ ": " ++ message

structure Launch where
  command : List String
  env : OsEnv
  autoStart : Bool

structure ServiceInfo where
  name : String
  launch : Option Launch
  status : ServiceStatus
  exitCode : Option Int
  restartCount : UInt32
  child : Option Child
  capture : Option LogCapture

def ServiceInfo.snapshot (info : ServiceInfo) : ServiceSnapshot :=
  ⟨info.name, info.status, info.launch.isSome, info.child.map Child.id, info.exitCode, info.restartCount⟩

structure Shared where
  logDir : Path
  cwd : Path
  limits : LogLimits

def Shared.logPath (shared : Shared) (name : String) : Path := shared.logDir.join (name ++ ".log")

/-- A wait sleeps this often, 25 ms at a time, before its deadline has passed. -/
def gracefulPolls : Nat := 200

def forcedPolls : Nat := 120

/-- The code of an exit, or the negated number of the signal that ended it. -/
def exitCode : ExitStatus → Option Int
  | .code n => some n
  | .signal n => some (-n)

def unknownExit : ExitStatus := .signal 9

def pidT (pid : Nat) : Option Nat := if pid ≤ 2147483647 then some pid else none

def signalGroup (child : Child) (signal : Signal) : Io Unit :=
  match pidT child.id with
  | none => return ()
  | some pgid => perform (.killpg pgid signal)

def requestTreeStop (child : Child) : Io Unit := signalGroup child .term

def forceTreeStop (child : Child) : Io Unit := signalGroup child .kill

def stopOrphanedGroup (pid : Nat) : Io Unit :=
  match pidT pid with
  | none => return ()
  | some pgid => perform (.killpg pgid .kill)

/-- With no sleep left the deadline has passed. -/
def drainLoop (pgid : Nat) : Nat → Io Bool
  | 0 => perform (.probeGroup pgid)
  | polls + 1 => do
      if ← perform (.probeGroup pgid) then return true
      else if ← perform .beforeDeadline then do
        perform .sleep
        drainLoop pgid polls
      else return false

def waitGroupDrained (pid polls : Nat) : Io Bool :=
  match pidT pid with
  | none => return true
  | some pgid => drainLoop pgid polls

def waitTimeout (child : Child) : Nat → Io (Option ExitStatus)
  | 0 => do
      match ← perform (.tryWait .waitTimeout child) with
      | .exited status => return some status
      | _ => return none
  | polls + 1 => do
      match ← perform (.tryWait .waitTimeout child) with
      | .exited status => return some status
      | .running =>
          if ← perform .beforeDeadline then do
            perform .sleep
            waitTimeout child polls
          else return none
      | .error => return none

/-- After the leader has exited its descendants have the rest of the grace period. -/
def finishTree (child : Child) : Io Unit := do
  if ← waitGroupDrained child.id gracefulPolls then return ()
  else stopOrphanedGroup child.id

def killTree (child : Child) : Io ExitStatus := do
  forceTreeStop child
  match ← waitTimeout child forcedPolls with
  | some status => return status
  | none => do
      perform (.kill child)
      match ← perform (.wait child) with
      | some status => return status
      | none => return unknownExit

def terminateTree (child : Child) : Io ExitStatus := do
  requestTreeStop child
  match ← waitTimeout child gracefulPolls with
  | some status => do
      finishTree child
      return status
  | none => killTree child

def LogCapture.finish (capture : LogCapture) : Io Unit := do
  if ← perform (.recvTimeout capture) then do
    perform (.setDiscard capture)
    let _ ← perform (.recvTimeout capture)
    return ()
  else return ()

/-- Text is written piece by piece, up to the first piece that fails. -/
def writeFmt (log : RotatingLogWriter) : List String → Io (RotatingLogWriter × Except WriteError Unit)
  | [] => return (log, .ok ())
  | piece :: rest => do
      match ← log.writeBytes (bytesOf piece) with
      | (log, .error err) => return (log, .error err)
      | (log, .ok _) => writeFmt log rest

def headerRule : String := "".pushn '=' 60

def launchHeader (name timestamp : String) : List String :=
  ["\n", headerRule, "\n--- ", name, " started at ", timestamp, " ---\n", headerRule, "\n"]

namespace ServiceInfo

def finishCapture (info : ServiceInfo) : Io ServiceInfo :=
  match info.capture with
  | none => return info
  | some capture => do
      LogCapture.finish capture
      return { info with capture := none }

def stopOrphans (child : Option Child) : Io Unit :=
  match child with
  | none => return ()
  | some child => stopOrphanedGroup child.id

def markExited (info : ServiceInfo) (status : ExitStatus) : Io ServiceInfo := do
  stopOrphans info.child
  let info ← finishCapture { info with child := none }
  return { info with exitCode := Process.exitCode status, status := .crashed }

end ServiceInfo

open ServiceInfo

def pollInfo (info : ServiceInfo) : Io ServiceInfo :=
  if info.status ≠ .running then return info
  else
    match info.child with
    | none => return info
    | some child => do
        match ← perform (.tryWait .pollExits child) with
        | .exited status => info.markExited status
        | _ => return info

def launchMessage (program : String) (err : IoError) : String :=
  if err.kind = .notFound then "Command not found: " ++ program
  else "Could not start " ++ program ++ ": " ++ err.message

/-- The pump thread owns the log from here on; a thread that cannot be
created leaves a capture that is already done. -/
def spawnService (shared : Shared) (launch : Launch) (info : ServiceInfo) (log : RotatingLogWriter) :
    Io (ServiceInfo × Except ServiceError Unit) := do
  match ← perform (.spawn info.name launch.command launch.env shared.cwd) with
  | .ok child => do
      let capture ← perform (.spawnPump log.file)
      return ({ info with capture := some capture, child := some child, status := .running,
                          exitCode := none }, .ok ())
  | .error err => do
      let message := launchMessage (launch.command.headD "") err
      let _ ← writeFmt log ["ERROR: ", message, "\n"]
      return ({ info with status := .crashed }, .error (.launch info.name message))

def launchService (shared : Shared) (launch : Launch) (info : ServiceInfo) :
    Io (ServiceInfo × Except ServiceError Unit) := do
  let info ← info.finishCapture
  let logPath := shared.logPath info.name
  match ← RotatingLogWriter.openWriter logPath shared.limits with
  | .error err =>
      let message := "cannot open " ++ logPath.display ++ ": " ++ err.message
      return ({ info with status := .crashed }, .error (.launch info.name message))
  | .ok log => do
      let timestamp ← perform .timestamp
      let (log, _) ← writeFmt log (launchHeader info.name timestamp)
      spawnService shared launch info log

def startLocked (shared : Shared) (info : ServiceInfo) :
    Io (ServiceInfo × Except ServiceError Unit) :=
  match info.launch with
  | none => return (info, .ok ())
  | some launch =>
      match info.child with
      | none => launchService shared launch info
      | some child => do
          match ← perform (.tryWait .startLocked child) with
          | .running => return (info, .ok ())
          | .exited status => do
              let info ← info.markExited status
              launchService shared launch info
          | .error => launchService shared launch info

def stopChild (child : Child) : Io ExitStatus := do
  match ← perform (.tryWait .stopLocked child) with
  | .exited status => do
      stopOrphanedGroup child.id
      return status
  | _ => terminateTree child

def stopLocked (info : ServiceInfo) : Io ServiceInfo :=
  match info.child with
  | none => do
      let info ← info.finishCapture
      return { info with status := .stopped }
  | some child => do
      let status ← stopChild child
      let info ← finishCapture { info with child := none }
      return { info with exitCode := exitCode status, status := .stopped }

structure ServiceManager where
  shared : Shared
  services : List ServiceInfo
  monitor : Bool

def commandValue (penv : OsEnv) (service : ServiceDef) (key : String) : Option String :=
  (var penv key).or (lookup service.env key)

def childEnv (penv : OsEnv) (service : ServiceDef) : OsEnv := extend (collect service.env) penv

def newLaunch (penv : OsEnv) (service : ServiceDef) :
    Except ConfigError (Option Launch × ServiceStatus) :=
  match service.command, service.disabled with
  | _, true => .ok (none, .disabled)
  | none, false => .ok (none, .unmanaged)
  | some command, false => do
      let command ← resolveCommand command (commandValue penv service)
      .ok (some ⟨command, childEnv penv service, service.autoStart⟩, .stopped)

def newService (penv : OsEnv) (service : ServiceDef) : Except ConfigError ServiceInfo := do
  let (launch, status) ← newLaunch penv service
  .ok ⟨service.name, launch, status, none, 0, none, none⟩

def newServices (penv : OsEnv) (manifest : Manifest) : Except ConfigError (List ServiceInfo) :=
  Lib.Fallible.collect (newService penv) manifest.services

def startAuto (shared : Shared) (info : ServiceInfo) : Io ServiceInfo :=
  if info.launch.any Launch.autoStart then do
    let (info, _) ← startLocked shared info
    return info
  else return info

def stopManaged (info : ServiceInfo) : Io ServiceInfo :=
  if info.launch.isSome then stopLocked info else return info

def withManaged (name : String)
    (action : ServiceInfo → Io (ServiceInfo × Except ServiceError Unit)) :
    List ServiceInfo → Io (List ServiceInfo × Except ServiceError Unit)
  | [] => return ([], .error (.unknown name))
  | info :: rest =>
      if info.name = name then
        if info.launch.isNone then return (info :: rest, .error (.unmanaged name))
        else do
          let (info, result) ← action info
          return (info :: rest, result)
      else do
        let (rest, result) ← withManaged name action rest
        return (info :: rest, result)

namespace ServiceManager

/-- A directory that cannot be created is reported before any service is prepared. -/
def new (penv : OsEnv) (manifest : Manifest) (logDir cwd : Path) (limits : LogLimits) :
    Io (Except ConfigError ServiceManager) := do
  match ← perform (.createDirAll logDir) with
  | .error err => return .error ⟨"Could not create " ++ logDir.display ++ ": " ++ err.message⟩
  | .ok _ =>
      return (newServices penv manifest).map fun services =>
        ⟨⟨logDir, cwd, limits⟩, services, false⟩

def startMonitor (m : ServiceManager) : Io ServiceManager :=
  if m.monitor then return m
  else do
    let monitor ← perform .spawnMonitor
    return { m with monitor }

def stopMonitor (m : ServiceManager) : Io ServiceManager :=
  if m.monitor then do
    perform .joinMonitor
    return { m with monitor := false }
  else return m

def startAll (m : ServiceManager) : Io ServiceManager := do
  let services ← Prog.traverse (startAuto m.shared) m.services
  startMonitor { m with services }

def stopAll (m : ServiceManager) : Io ServiceManager := do
  let m ← stopMonitor m
  let services ← Prog.traverse stopManaged m.services
  return { m with services }

def pollExits (m : ServiceManager) : Io ServiceManager := do
  let services ← Prog.traverse pollInfo m.services
  return { m with services }

def onManaged (m : ServiceManager) (name : String)
    (action : ServiceInfo → Io (ServiceInfo × Except ServiceError Unit)) :
    Io (ServiceManager × Except ServiceError Unit) := do
  let (services, result) ← withManaged name action m.services
  return ({ m with services }, result)

def startService (m : ServiceManager) (name : String) :
    Io (ServiceManager × Except ServiceError Unit) :=
  m.onManaged name (startLocked m.shared)

def stopAction (info : ServiceInfo) : Io (ServiceInfo × Except ServiceError Unit) := do
  let info ← stopLocked info
  return (info, .ok ())

def stopService (m : ServiceManager) (name : String) :
    Io (ServiceManager × Except ServiceError Unit) :=
  m.onManaged name stopAction

def restartAction (shared : Shared) (info : ServiceInfo) :
    Io (ServiceInfo × Except ServiceError Unit) := do
  let info ← stopLocked info
  startLocked shared { info with restartCount := info.restartCount + 1 }

def restartService (m : ServiceManager) (name : String) :
    Io (ServiceManager × Except ServiceError Unit) :=
  m.onManaged name (restartAction m.shared)

def status (m : ServiceManager) : List ServiceSnapshot := m.services.map ServiceInfo.snapshot

def serviceNames (m : ServiceManager) : List String := m.services.map ServiceInfo.name

def logPath (m : ServiceManager) (name : String) : Except ServiceError Path :=
  if m.services.any fun info => info.name = name then .ok (m.shared.logPath name)
  else .error (.unknown name)

end ServiceManager

end LocalDevProxy.Process
