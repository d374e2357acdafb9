import LocalDevProxy.Lib.Fallible
import LocalDevProxy.Toml

namespace LocalDevProxy.Config

open Lib.Fallible Text Toml

def topLevelKeys : List String := ["http_port", "bind", "services"]

def serviceKeys : List String := ["command", "env", "routes", "disabled", "auto_start"]

def targetKeys : List String :=
  ["target_port", "target_port_env", "target_socket", "target_socket_env"]

def routeKeys : List String := ["id", "hosts", "target_host"] ++ targetKeys

def reservedServiceNames : List String := ["manager"]

def allowedTargetHosts : List String := ["127.0.0.1", "::1", "localhost"]

def defaultTargetHost : String := "localhost"

structure ConfigError where
  message : String
deriving DecidableEq, Repr

/-- A TCP port that passed the range check. -/
structure Port where
  number : Nat
  inRange : 1 ≤ number ∧ number ≤ 65535
deriving DecidableEq

def Port.ofInt (n : Int) : Option Port :=
  if h : 1 ≤ n ∧ n ≤ 65535 then some ⟨n.toNat, by omega⟩ else none

inductive RouteTarget
  | port (host : String) (port : Port)
  | portEnv (host var : String)
  | socket (path : String)
  | socketEnv (var : String)
deriving DecidableEq

structure ServiceRoute where
  id : String
  hosts : List String
  target : RouteTarget
deriving DecidableEq

structure ServiceDef where
  name : String
  command : Option (List String)
  env : List (String × String)
  routes : List ServiceRoute
  disabled : Bool
  autoStart : Bool
deriving DecidableEq

structure Manifest where
  httpPort : Port
  bind : List String
  services : List ServiceDef
deriving DecidableEq

def rejectUnknownKeys (table : Table) (allowed : List String) (field : String) :
    Except ConfigError Unit :=
  let unknown := (keys table).filter (fun key => !allowed.contains key)
  check unknown.isEmpty
    ⟨field ++ " contains unknown keys: " ++ ", ".intercalate (unknown.mergeSort (· ≤ ·))⟩

def parsePort (value : Value) (field : String) : Except ConfigError Port :=
  match value with
  | .integer n =>
      match Port.ofInt n with
      | some port => .ok port
      | none => .error ⟨field ++ " must be in range 1-65535"⟩
  | _ => .error ⟨field ++ " must be an integer"⟩

def parseBool (value : Option Value) (default : Bool) (field : String) : Except ConfigError Bool :=
  match value with
  | none => .ok default
  | some (.boolean b) => .ok b
  | some _ => .error ⟨field ++ " must be a boolean"⟩

def parseNonEmptyString (value : Value) (field : String) : Except ConfigError String :=
  match value with
  | .string s => if s ≠ "" then .ok s else .error ⟨field ++ " must be a non-empty string"⟩
  | _ => .error ⟨field ++ " must be a non-empty string"⟩

def parseStringList (value : Value) (field : String) : Except ConfigError (List String) :=
  let err : ConfigError := ⟨field ++ " must be a non-empty list of strings"⟩
  match value with
  | .array items =>
      if items.isEmpty then .error err
      else collect (fun item => match item with
        | .string s => if s ≠ "" then .ok s else .error err
        | _ => .error err) items
  | _ => .error err

/-- An ordered map gains an entry, in place of one with the same key. -/
def insertSorted (key value : String) : List (String × String) → List (String × String)
  | [] => [(key, value)]
  | (k, v) :: rest =>
      if key < k then (key, value) :: (k, v) :: rest
      else if key = k then (key, value) :: rest
      else (k, v) :: insertSorted key value rest

def toOrderedMap (entries : List (String × String)) : List (String × String) :=
  entries.foldl (fun map entry => insertSorted entry.1 entry.2 map) []

def parseStringMap (value : Value) (field : String) :
    Except ConfigError (List (String × String)) :=
  let err : ConfigError := ⟨field ++ " must be a table of string values"⟩
  match value with
  | .table entries => do
      let pairs ← collect (fun entry : String × Value => match entry.2 with
        | .string s => .ok (entry.1, s)
        | _ => .error err) entries
      .ok (toOrderedMap pairs)
  | _ => .error err

def parseTargetHost (raw : Table) (pre : String) : Except ConfigError String :=
  let err := fun got : String => ConfigError.mk (pre ++ ".target_host must be one of " ++
    ", ".intercalate allowedTargetHosts ++ ", got: " ++ got)
  match getKey raw "target_host" with
  | none => .ok defaultTargetHost
  | some (.string host) =>
      if allowedTargetHosts.contains host then .ok host else .error (err (debugStr host))
  | some other => .error (err ("a " ++ other.typeStr))

def parseRouteTarget (raw : Table) (pre selected : String) (value : Value) :
    Except ConfigError RouteTarget :=
  let field := pre ++ "." ++ selected
  if selected = "target_port" then do
    let host ← parseTargetHost raw pre
    let port ← parsePort value field
    .ok (.port host port)
  else if selected = "target_port_env" then do
    let host ← parseTargetHost raw pre
    let var ← parseNonEmptyString value field
    .ok (.portEnv host var)
  else do
    check (!containsKey raw "target_host")
      ⟨pre ++ ".target_host cannot be used with a Unix socket"⟩
    let path ← parseNonEmptyString value field
    .ok (if selected = "target_socket" then .socket path else .socketEnv path)

def parseRouteId (raw : Table) (pre : String) : Except ConfigError String :=
  match getKey raw "id" with
  | some (.string id) => if id ≠ "" then .ok id else .error ⟨pre ++ ".id must be a non-empty string"⟩
  | _ => .error ⟨pre ++ ".id must be a non-empty string"⟩

def parseRoute (raw : Value) (pre : String) : Except ConfigError ServiceRoute :=
  match raw with
  | .table raw => do
      rejectUnknownKeys raw routeKeys pre
      let id ← parseRouteId raw pre
      let hosts ← parseStringList ((getKey raw "hosts").getD (.array [])) (pre ++ ".hosts")
      match targetKeys.filter (fun key => containsKey raw key) with
      | [selected] =>
          -- the filter kept a key that the table has, so the default is not used
          let value := (getKey raw selected).getD (.array [])
          let target ← parseRouteTarget raw pre selected value
          .ok ⟨id, hosts, target⟩
      | _ => .error ⟨pre ++ ": set exactly one of target_port, target_port_env, " ++
          "target_socket, or target_socket_env"⟩
  | _ => .error ⟨pre ++ " must be a table"⟩

def validName (name : String) : Bool :=
  name ≠ "" && name.toList.all (fun c => isAsciiAlphanumeric c || c = '_' || c = '-')

def parseRoutes (raw : Table) (pre : String) : Except ConfigError (List ServiceRoute) :=
  match getKey raw "routes" with
  | none => .ok []
  | some (.array items) =>
      collect (fun item => parseRoute item.1 (pre ++ ".routes[" ++ decimal item.2 ++ "]"))
        items.zipIdx
  | some _ => .error ⟨pre ++ ".routes must be an array"⟩

def parseCommand (raw : Table) (pre : String) : Except ConfigError (Option (List String)) :=
  match getKey raw "command" with
  | some value => (parseStringList value (pre ++ ".command")).map some
  | none => .ok none

def parseEnv (raw : Table) (pre : String) : Except ConfigError (List (String × String)) :=
  match getKey raw "env" with
  | some value => parseStringMap value (pre ++ ".env")
  | none => .ok []

def parseService (name : String) (raw : Value) : Except ConfigError ServiceDef := do
  check (validName name) ⟨"service name " ++ debugStr name ++
    " may only contain ASCII letters, digits, '_', and '-'"⟩
  check (!reservedServiceNames.contains name) ⟨"service name " ++ debugStr name ++ " is reserved"⟩
  let pre := "services." ++ name
  match raw with
  | .table raw => do
      rejectUnknownKeys raw serviceKeys pre
      let command ← parseCommand raw pre
      let env ← parseEnv raw pre
      let disabled ← parseBool (getKey raw "disabled") false (pre ++ ".disabled")
      let autoStart ← parseBool (getKey raw "auto_start") true (pre ++ ".auto_start")
      check (!(containsKey raw "auto_start" && command.isNone))
        ⟨pre ++ ".auto_start requires command; there is nothing to start"⟩
      let routes ← parseRoutes raw pre
      .ok ⟨name, command, env, routes, disabled, autoStart⟩
  | _ => .error ⟨pre ++ " must be a table"⟩

def require (value : Option Value) (message : String) : Except ConfigError Value :=
  match value with
  | some v => .ok v
  | none => .error ⟨message⟩

def parseServices (data : Table) : Except ConfigError (List ServiceDef) :=
  match getKey data "services" with
  | some (.table []) => .error ⟨"[services] must contain at least one service"⟩
  | some (.table entries) => collect (fun entry => parseService entry.1 entry.2) entries
  | _ => .error ⟨"[services] must contain at least one service"⟩

def buildManifest (data : Table) : Except ConfigError Manifest := do
  rejectUnknownKeys data topLevelKeys "top level"
  let httpPort ← require (getKey data "http_port") "http_port is required"
  let bind ← require (getKey data "bind") "bind is required"
  let httpPort ← parsePort httpPort "http_port"
  let bind ← parseStringList bind "bind"
  let services ← parseServices data
  .ok ⟨httpPort, bind, services⟩

def parseManifest (toml : Reader) (text : String) : Except ConfigError Manifest :=
  match toml.parse text with
  | .ok data => buildManifest data
  | .error err => .error ⟨"Invalid TOML: " ++ err⟩

theorem portOfInt_some {n : Int} {port : Port} : Port.ofInt n = some port ↔ n = port.number := by
  unfold Port.ofInt
  have hrange := port.inRange
  split
  · rename_i h
    constructor
    · intro he
      cases he
      simp only
      omega
    · intro he
      subst he
      rfl
  · rename_i h
    constructor
    · intro he
      cases he
    · intro he
      omega

theorem portOfInt_none {n : Int} : Port.ofInt n = none ↔ ¬ (1 ≤ n ∧ n ≤ 65535) := by
  simp [Port.ofInt]

theorem parseManifest_knowing (known : String) (table : Table)
    (h : (Value.table table).distinctKeys) :
    parseManifest (.knowing known table h) known = buildManifest table := by
  simp [parseManifest, Reader.knowing]

def withHeader (services : String) : String :=
  "http_port = 2800\n" ++ "bind = [\"127.0.0.1\"]\n" ++ services

def headedTable (services : Table) : Table :=
  [("http_port", .integer 2800), ("bind", .array [.string "127.0.0.1"]), ("services", .table services)]

def headerPort : Port := ⟨2800, by decide⟩

def headedManifest (services : List ServiceDef) : Manifest := ⟨headerPort, ["127.0.0.1"], services⟩

theorem distinctKeys_headedTable {services : Table} (h : (Value.table services).distinctKeys) :
    (Value.table (headedTable services)).distinctKeys := by
  simpa [headedTable] using h

end LocalDevProxy.Config
