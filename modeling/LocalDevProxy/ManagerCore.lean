import LocalDevProxy.Listen
import LocalDevProxy.LogTail
import LocalDevProxy.Process

namespace LocalDevProxy.ManagerCore

open Lib.Interaction Paths Environment Toml Config Routes Os LogRotation Process Listen

inductive ManagerError
  | config (err : ConfigError)
  | proxy (err : ProxyError)
  | service (err : ServiceError)
  | notRunning
  | write (path : String) (source : IoError)
deriving DecidableEq

def ManagerError.display : ManagerError → String
  | .config err => err.message
  | .proxy err => err.display
  | .service err => err.display
  | .notRunning => "services are not running"
  | .write path source => "could not write " ++ path ++ ": " ++ source.message

/-- What the process is given once: its libraries, its environment and its
working directory. -/
structure Context where
  toml : Reader
  glob : Glob
  env : OsEnv
  cwd : Option Path

structure Manager (G : Glob) where
  paths : ProjectPaths
  logLimits : LogLimits
  services : Option ServiceManager
  proxy : Option (ProxyServer G)
  running : Option Manifest

inductive Applied
  | started
  | restarted
  | unchanged
deriving DecidableEq

def loadManifest (toml : Reader) (path : Path) : Io (Except ConfigError Manifest) := do
  match ← perform (.readToString path) with
  | .ok text => return parseManifest toml text
  | .error err =>
      if err.kind = .notFound then
        return .error ⟨"Services manifest not found: " ++ path.display⟩
      else return .error ⟨"Could not read " ++ path.display ++ ": " ++ err.message⟩

def pushText (path : Path) (text : String) : Path := parse (path.display ++ text)

def writeAtomically (destination : Path) (text : String) : Io (Except ManagerError Unit) := do
  let temporary := pushText destination ".tmp"
  let written ← (perform (.writeFile temporary text)).tryThen fun _ =>
    perform (.rename temporary destination)
  return written.mapError (.write destination.display)

variable (ctx : Context)

def routesOf (paths : ProjectPaths) (manifest : Manifest) : Except ConfigError (RouteTable ctx.glob) :=
  RouteTable.fromManifest ctx.glob ctx.cwd manifest (var ctx.env) paths.root

/-- The check of the command line, with what it prints left out. -/
def checkConfig (paths : ProjectPaths) : Io (Except ConfigError Manifest) :=
  (loadManifest ctx.toml paths.servicesFile).tryThen fun manifest =>
    return (routesOf ctx paths manifest).map fun _ => manifest

namespace Manager

variable {G : Glob}

def new (G : Glob) (paths : ProjectPaths) : Manager G := ⟨paths, .default, none, none, none⟩

def isRunning (m : Manager G) : Bool := m.proxy.isSome

def hasConfig (m : Manager G) : Io Bool := pathExists m.paths.servicesFile

def shutdownProxy (m : Manager G) : Io Unit :=
  match m.proxy with
  | some proxy => proxy.shutdown
  | none => return ()

def stopServices (m : Manager G) : Io (Option ServiceManager) :=
  match m.services with
  | some services => do
      let services ← services.stopAll
      return some services
  | none => return none

def stop (m : Manager G) : Io (Manager G) := do
  m.shutdownProxy
  let services ← m.stopServices
  return { m with services, proxy := none, running := none }

def pollTimes (services : ServiceManager) : Nat → Io ServiceManager
  | 0 => return services
  | n + 1 => do
      let services ← services.pollExits
      pollTimes services n

def monitorPolls (services : ServiceManager) : Io ServiceManager :=
  if services.monitor then do
    let n ← perform .monitorTicks
    pollTimes services n
  else return services

/-- The services prepared and started replace the ones kept from before, which
stop as they are dropped. -/
def serve (m : Manager G) (manifest : Manifest) (routes : RouteTable G) (services : ServiceManager) :
    Io (Manager G × Except ManagerError Manifest) := do
  let services ← services.startAll
  let _ ← m.stopServices
  let bound ← ProxyServer.bind routes manifest.httpPort manifest.bind
  let services ← monitorPolls services
  match bound with
  | .ok proxy =>
      return ({ m with services := some services, proxy := some proxy, running := some manifest },
        .ok manifest)
  | .error err => do
      let m ← stop { m with services := some services }
      return (m, .error (.proxy err))

def launch (m : Manager ctx.glob) (manifest : Manifest) :
    Io (Manager ctx.glob × Except ManagerError Manifest) :=
  match routesOf ctx m.paths manifest with
  | .error err => return (m, .error (.config err))
  | .ok routes => do
      match ← ServiceManager.new ctx.env manifest m.paths.logsDir m.paths.root m.logLimits with
      | .error err => return (m, .error (.config err))
      | .ok services => m.serve manifest routes services

def stopIfRunning (m : Manager G) : Io (Manager G) := if m.isRunning then m.stop else return m

def start (m : Manager ctx.glob) : Io (Manager ctx.glob × Except ManagerError Manifest) := do
  let m ← m.stopIfRunning
  match ← loadManifest ctx.toml m.paths.servicesFile with
  | .error err => return (m, .error (.config err))
  | .ok manifest => m.launch ctx manifest

def startAs (m : Manager ctx.glob) (applied : Applied) :
    Io (Manager ctx.glob × Except ManagerError Applied) := do
  let (m, started) ← m.start ctx
  return (m, started.map fun _ => applied)

def apply (m : Manager ctx.glob) : Io (Manager ctx.glob × Except ManagerError Applied) :=
  match m.running with
  | none => m.startAs ctx .started
  | some running => do
      match ← loadManifest ctx.toml m.paths.servicesFile with
      | .error err => return (m, .error (.config err))
      | .ok manifest =>
          if running = manifest then return (m, .ok .unchanged) else m.startAs ctx .restarted

def runningServices (m : Manager G) : Except ManagerError ServiceManager :=
  match m.services with
  | some services => if m.isRunning then .ok services else .error .notRunning
  | none => .error .notRunning

def onService (m : Manager G)
    (action : ServiceManager → Io (ServiceManager × Except ServiceError Unit)) :
    Io (Manager G × Except ManagerError Unit) :=
  match m.runningServices with
  | .error err => return (m, .error err)
  | .ok services => do
      let (services, result) ← action services
      return ({ m with services := some services }, result.mapError .service)

def startService (m : Manager G) (name : String) : Io (Manager G × Except ManagerError Unit) :=
  m.onService (fun services => services.startService name)

def stopService (m : Manager G) (name : String) : Io (Manager G × Except ManagerError Unit) :=
  m.onService (fun services => services.stopService name)

def restartService (m : Manager G) (name : String) : Io (Manager G × Except ManagerError Unit) :=
  m.onService (fun services => services.restartService name)

/-- The current state of every service; the field of the name holds the services themselves. -/
def snapshots (m : Manager G) : List ServiceSnapshot :=
  match m.services with
  | some services => services.status
  | none => []

def logNames (m : Manager G) : List String :=
  match m.services with
  | some services => services.serviceNames
  | none => []

def tailLog (m : Manager G) (file : Path → Option LogTail.OpenFile) (name : String) (lines : Nat) :
    Except ManagerError String :=
  match m.services with
  | none => .error .notRunning
  | some services =>
      ((services.logPath name).mapError .service).map fun path => LogTail.tailFile (file path) lines

def routes (m : Manager G) : Io (Except ConfigError (List RouteGroup)) :=
  match m.running with
  | some manifest => return .ok (routeListing manifest)
  | none => do
      let manifest ← loadManifest ctx.toml m.paths.servicesFile
      return manifest.map routeListing

def readConfig (m : Manager G) : Io (Except IoError (Option String)) := do
  match ← perform (.readToString m.paths.servicesFile) with
  | .ok text => return .ok (some text)
  | .error err => if err.kind = .notFound then return .ok none else return .error err

def validateConfig (m : Manager ctx.glob) (text : String) : Except ConfigError Manifest := do
  let manifest ← parseManifest ctx.toml text
  let _ ← routesOf ctx m.paths manifest
  .ok manifest

def saveConfig (m : Manager ctx.glob) (text : String) : Io (Except ManagerError Unit) :=
  match m.validateConfig ctx text with
  | .error err => return .error (.config err)
  | .ok _ => writeAtomically m.paths.servicesFile text

end Manager

end LocalDevProxy.ManagerCore
