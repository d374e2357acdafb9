import LocalDevProxy.Environment
import LocalDevProxy.Paths
import LocalDevProxy.Placeholders

namespace LocalDevProxy.Routes

open Lib.Fallible Text Paths Config Placeholders

abbrev EnvLookup := String → Option String

/-- A path buffer keeps the text it was made from; equality reads the components. -/
structure PathBuf where
  text : String
  path : Path
deriving DecidableEq

inductive ResolvedTarget
  | tcp (host : String) (port : Port)
  | unix (path : PathBuf)
deriving DecidableEq

structure ResolvedRoute where
  id : String
  hostPatterns : List String
  target : ResolvedTarget
deriving DecidableEq

def serviceValue (service : ServiceDef) (env : EnvLookup) (key : String) : Option String :=
  (env key).or (Environment.lookup service.env key)

/-- The owners of the ports and socket paths claimed so far. -/
structure Seen where
  ports : List (Port × String)
  sockets : List (Path × String)

def Seen.portOwner (seen : Seen) (port : Port) : Option String :=
  (seen.ports.find? (fun entry => entry.1 = port)).map Prod.snd

def Seen.socketOwner (seen : Seen) (path : Path) : Option String :=
  (seen.sockets.find? (fun entry => entry.1 = path)).map Prod.snd

def claimPort (seen : Seen) (port : Port) (id : String) : Except ConfigError Seen :=
  match seen.portOwner port with
  | some owner => .error
      ⟨"Port " ++ decimal port.number ++ " used by both " ++ owner ++ " and " ++ id⟩
  | none => .ok { seen with ports := (port, id) :: seen.ports }

def claimSocket (seen : Seen) (buf : PathBuf) (id : String) : Except ConfigError Seen :=
  match seen.socketOwner buf.path with
  | some owner => .error
      ⟨"Socket " ++ debugStr buf.text ++ " used by both " ++ owner ++ " and " ++ id⟩
  | none => .ok { seen with sockets := (buf.path, id) :: seen.sockets }

section

variable (cwd : Option Path)

def resolveSocketPath (raw : String) (base : Option Path) : PathBuf :=
  let path := parse raw
  match base with
  | some dir =>
      if path.isRelative then
        let joined := dir.push path
        match joined.absolute cwd with
        -- making a path absolute keeps a trailing separator in its text, which the root has already
        | some full =>
            ⟨full.display ++ (if raw.toList.getLast? = some '/' ∧ full.names ≠ [] then "/" else ""), full⟩
        | none => ⟨dir.display ++ "/" ++ raw, joined⟩
      else ⟨raw, path⟩
  | none => ⟨raw, path⟩

def resolveTarget (env : EnvLookup) (base : Option Path) (seen : Seen) (service : ServiceDef)
    (route : ServiceRoute) : Except ConfigError (ResolvedTarget × Seen) :=
  match route.target with
  | .socket raw => do
      let buf := resolveSocketPath cwd raw base
      let seen ← claimSocket seen buf route.id
      .ok (.unix buf, seen)
  | .socketEnv var => do
      let raw ← requireSocketPath (serviceValue service env var) var
      let buf := resolveSocketPath cwd raw base
      let seen ← claimSocket seen buf route.id
      .ok (.unix buf, seen)
  | .port host port => do
      let seen ← claimPort seen port route.id
      .ok (.tcp host port, seen)
  | .portEnv host var => do
      let port ← requirePort (serviceValue service env var) var
      let seen ← claimPort seen port route.id
      .ok (.tcp host port, seen)

def resolveFrom (env : EnvLookup) (base : Option Path) :
    Seen → List (ServiceDef × ServiceRoute) → Except ConfigError (List ResolvedRoute)
  | _, [] => .ok []
  | seen, (service, route) :: rest => do
      let (target, seen) ← resolveTarget cwd env base seen service route
      let resolved ← resolveFrom env base seen rest
      .ok (⟨route.id, route.hosts, target⟩ :: resolved)

def enabledRoutes (manifest : Manifest) : List (ServiceDef × ServiceRoute) :=
  (manifest.services.filter (fun service => !service.disabled)).flatMap
    (fun service => service.routes.map (fun route => (service, route)))

def resolveRoutes (manifest : Manifest) (env : EnvLookup) (base : Option Path) :
    Except ConfigError (List ResolvedRoute) :=
  resolveFrom cwd env base ⟨[], []⟩ (enabledRoutes manifest)

theorem resolveFrom_shape {env : EnvLookup} {base : Option Path}
    {entries : List (ServiceDef × ServiceRoute)} {seen : Seen} {resolved : List ResolvedRoute}
    (h : resolveFrom cwd env base seen entries = .ok resolved) :
    resolved.map (fun r => (r.id, r.hostPatterns)) =
      entries.map (fun entry => (entry.2.id, entry.2.hosts)) := by
  induction entries generalizing seen resolved with
  | nil => cases h; rfl
  | cons entry entries ih =>
      rcases entry with ⟨service, route⟩
      obtain ⟨⟨target, seen'⟩, _, h⟩ := bind_eq_ok.mp h
      obtain ⟨rest, hrest, h⟩ := bind_eq_ok.mp h
      cases h
      simp [ih hrest]

/-- What resolves is listed in order, with the ids and hosts as declared. -/
theorem resolveRoutes_shape {manifest : Manifest} {env : EnvLookup} {base : Option Path}
    {resolved : List ResolvedRoute} (h : resolveRoutes cwd manifest env base = .ok resolved) :
    resolved.map (fun r => (r.id, r.hostPatterns)) =
      (enabledRoutes manifest).map (fun entry => (entry.2.id, entry.2.hosts)) :=
  resolveFrom_shape cwd h

end

def isWildcardHost (host : String) : Bool :=
  host.toList.any (fun c => c = '*' || c = '?' || c = '[')

/-- Glob patterns, which the program takes from a library. An escaped text
always compiles. -/
structure Glob where
  Pattern : Type
  new : String → Option Pattern
  escape : String → String
  new_escape : ∀ text, (new (escape text)).isSome
  matchesText : Pattern → String → Bool

variable {G : Glob}

def Glob.compile (G : Glob) (pattern : String) : G.Pattern :=
  match G.new pattern with
  | some compiled => compiled
  | none => (G.new (G.escape pattern)).get (G.new_escape pattern)

/-- Patterns that match their own text, as patterns without wildcards do. -/
def literalGlob : Glob where
  Pattern := String
  new := some
  escape := fun text => text
  new_escape := fun _ => rfl
  matchesText := fun pattern text => pattern = text

structure HostMatcher (G : Glob) where
  exact : List (String × Nat)
  wildcards : List (G.Pattern × Nat)

namespace HostMatcher

def exactIndex (m : HostMatcher G) (host : String) : Option Nat :=
  (m.exact.find? (fun entry => entry.1 = host)).map Prod.snd

def insertHost (m : HostMatcher G) (entry : String × Nat) : HostMatcher G :=
  let pattern := toAsciiLowercase entry.1
  if isWildcardHost pattern then
    { m with wildcards := m.wildcards ++ [(G.compile pattern, entry.2)] }
  else if (m.exactIndex pattern).isSome then m
  else { m with exact := m.exact ++ [(pattern, entry.2)] }

def hostEntries (routes : List ResolvedRoute) : List (String × Nat) :=
  routes.zipIdx.flatMap (fun entry => entry.1.hostPatterns.map (fun host => (host, entry.2)))

def new (G : Glob) (routes : List ResolvedRoute) : HostMatcher G :=
  (hostEntries routes).foldl insertHost ⟨[], []⟩

def find (m : HostMatcher G) (host : String) : Option Nat :=
  let host := toAsciiLowercase host
  match m.exactIndex host with
  | some index => some index
  | none => (m.wildcards.find? (fun entry => G.matchesText entry.1 host)).map Prod.snd

end HostMatcher

def escapeHtml (text : String) : String :=
  .ofList (text.toList.flatMap (fun c =>
    if c = '&' then "&amp;".toList
    else if c = '<' then "&lt;".toList
    else if c = '>' then "&gt;".toList
    else if c = '"' then "&quot;".toList
    else if c = '\'' then "&#x27;".toList
    else [c]))

def hostUrl (host : String) (httpPort : Port) : String :=
  "http://" ++ host ++ ":" ++ decimal httpPort.number ++ "/"

def portalItem (httpPort : Port) (host : String) : String :=
  if isWildcardHost host then "<li>" ++ escapeHtml host ++ "</li>"
  else "<li><a href=\"" ++ escapeHtml (hostUrl host httpPort) ++ "\">" ++ escapeHtml host ++
    "</a></li>"

def buildPortalHtml (httpPort : Port) (routes : List ResolvedRoute) : String :=
  let items := (routes.flatMap ResolvedRoute.hostPatterns).map (portalItem httpPort)
  "<!doctype html><html><head><meta charset='utf-8'>" ++
    "<title>Local Dev Proxy</title></head><body>" ++
    "<h1>Local Dev Proxy</h1><ul>" ++ "\n".intercalate items ++ "</ul></body></html>"

structure RouteTable (G : Glob) where
  routes : List ResolvedRoute
  matcher : HostMatcher G
  portalHtml : String

namespace RouteTable

def new (G : Glob) (httpPort : Port) (routes : List ResolvedRoute) : RouteTable G :=
  ⟨routes, HostMatcher.new G routes, buildPortalHtml httpPort routes⟩

def fromManifest (G : Glob) (cwd : Option Path) (manifest : Manifest) (env : EnvLookup)
    (baseDir : Path) : Except ConfigError (RouteTable G) := do
  let routes ← resolveRoutes cwd manifest env (some baseDir)
  .ok (new G manifest.httpPort routes)

def find (t : RouteTable G) (host : String) : Option ResolvedRoute :=
  (t.matcher.find host).bind (fun index => t.routes[index]?)

end RouteTable

inductive ServiceKind
  | managed
  | manualStart
  | external
  | disabled
deriving DecidableEq

namespace ServiceKind

def of (service : ServiceDef) : ServiceKind :=
  if service.disabled then .disabled
  else if service.command.isNone then .external
  else if !service.autoStart then .manualStart
  else .managed

def note : ServiceKind → String
  | .managed => ""
  | .manualStart => "manual start — not started with the others"
  | .external => "external — not started here"
  | .disabled => "disabled — routes inactive"

end ServiceKind

structure RouteEntry where
  routeId : String
  host : String
  url : Option String
  target : String
deriving DecidableEq

structure RouteGroup where
  service : String
  kind : ServiceKind
  entries : List RouteEntry
deriving DecidableEq

/-- The value declared for a variable, or the variable where it is unset or empty. -/
def declaredValue (service : ServiceDef) (name : String) : String :=
  ((Environment.lookup service.env name).filter (· ≠ "")).getD ("$\x7b" ++ name ++ "\x7d")

def describeTarget (service : ServiceDef) : RouteTarget → String
  | .socket path => "unix:" ++ path
  | .socketEnv name => "unix:" ++ declaredValue service name
  | .port host port => host ++ ":" ++ decimal port.number
  | .portEnv host name => host ++ ":" ++ declaredValue service name

def routeEntries (service : ServiceDef) (route : ServiceRoute) (httpPort : Port) : List RouteEntry :=
  route.hosts.map fun host =>
    ⟨route.id, host, if isWildcardHost host then none else some (hostUrl host httpPort),
      describeTarget service route.target⟩

def routeListing (manifest : Manifest) : List RouteGroup :=
  manifest.services.map fun service =>
    let kind := ServiceKind.of service
    ⟨service.name, kind, if kind = .disabled then []
      else service.routes.flatMap fun route => routeEntries service route manifest.httpPort⟩

end LocalDevProxy.Routes
