import LocalDevProxy.RouteResolution
import LocalDevProxy.Substitution
import LocalDevProxy.TerminateTree

namespace LocalDevProxy.OneValue

open Lib.Interaction Lib.Fallible Paths Environment Toml Config Placeholders Routes RouteResolution Substitution Os
  LogRotation Process ProcessGroups HarmlessCalls TerminateTree

/-- The calls by which a launch may spawn a child: with its command and its environment only. -/
def SpawnsAs (launch : Launch) : Call → Prop
  | .spawn _ command env _ => command = launch.command ∧ env = launch.env
  | _ => True

def Names (key : String) : RouteTarget → Prop
  | .portEnv _ var | .socketEnv var => var = key
  | _ => False

/-- A route of the service that is served names the variable, or its command has it as a placeholder. -/
def Uses (manifest : Manifest) (service : ServiceDef) (key : String) : Prop :=
  (∃ route, (service, route) ∈ enabledRoutes manifest ∧ Names key route.target) ∨
    ∃ command arg p, service.command = some command ∧ arg ∈ command ∧ OccursAt arg.toList p key.toList

section

variable (cwd base : Option Path) (key value : String)

def Stands : RouteTarget → ResolvedTarget → Prop
  | .portEnv host _, target => ∃ port, requirePort (some value) key = .ok port ∧ target = .tcp host port
  | .socketEnv _, target =>
      requireSocketPath (some value) key = .ok value ∧ target = .unix (resolveSocketPath cwd value base)
  | _, _ => False

/-- The value is what the resolved routes have for the variable, what replaces its placeholder
in the command, the others having their own values, and what the child finds. -/
structure Coincide (manifest : Manifest) (resolved : List ResolvedRoute) (penv : OsEnv) (service : ServiceDef)
    (launch : Launch) : Prop where
  routes : ∀ (i : Nat) route r, (enabledRoutes manifest)[i]? = some (service, route) → resolved[i]? = some r →
    Names key route.target → Stands cwd base key value route.target r.target
  command : ∀ command, service.command = some command →
    ReplacedAll (Function.update (commandValue penv service) key (some value)) command launch.command
  child : launch.env (.ofString key) = some (.ofString value)

end

theorem newService_launch {penv : OsEnv} {service : ServiceDef} {info : ServiceInfo} {launch : Launch}
    (h : newService penv service = .ok info) (hl : info.launch = some launch) :
    launch.env = childEnv penv service ∧ ∃ command, service.command = some command ∧
      resolveCommand command (commandValue penv service) = .ok launch.command := by
  obtain ⟨⟨launch', status⟩, hnew, h⟩ := bind_eq_ok.mp h
  cases h
  obtain rfl : launch' = some launch := hl
  unfold newLaunch at hnew
  split at hnew
  · cases hnew
  · cases hnew
  · rename_i command hcommand _
    obtain ⟨resolved, hr, hnew⟩ := bind_eq_ok.mp hnew
    cases hnew
    exact ⟨rfl, command, hcommand, hr⟩

/-- The child sees what the routes and the command see, unless the process
itself has a value that is not Unicode. -/
theorem childEnv_iff (penv : OsEnv) (service : ServiceDef) (key : String) :
    (serviceValue service (var penv) key).map OsString.ofString =
        childEnv penv service (.ofString key) ↔
      ∀ value, penv (.ofString key) = some value → value.toStr.isSome := by
  rw [childEnv, extend, collect_ofString, serviceValue, var]
  cases hp : penv (.ofString key) with
  | none => simp
  | some value =>
      cases hv : value.toStr with
      | some s =>
          have he := OsString.ofString_of_toStr hv
          simp [hv, he]
      | none =>
          have hne : ∀ s, OsString.ofString s ≠ value := by
            rintro s rfl
            rw [OsString.toStr_ofString] at hv
            cases hv
          simp [hv, hne]

/-- A variable of the process hides the one of the table. -/
theorem childEnv_of_process {penv : OsEnv} {service : ServiceDef} {key found : OsString}
    (h : penv key = some found) : childEnv penv service key = some found := by
  rw [childEnv, extend, h, Option.some_or]

section

variable {cwd base : Option Path} {manifest : Manifest} {resolved : List ResolvedRoute} {penv : OsEnv}
  {service : ServiceDef} {launch : Launch} {key value : String}

theorem resolved_gives (h : resolveRoutes cwd manifest (var penv) base = .ok resolved) :
    List.Forall₂ (Gives cwd (var penv) base) (enabledRoutes manifest) resolved :=
  ((resolveFrom_ok owned_nil .nil).mp h).1

/-- What resolves has a value for every variable that its target is read from. -/
theorem value_of_resolves {target : RouteTarget} {found : ResolvedTarget}
    (h : Resolves cwd (var penv) base service target found) (hnames : Names key target) :
    ∃ raw, serviceValue service (var penv) key = some raw ∧ Stands cwd base key raw target found := by
  cases h with
  | port => exact hnames.elim
  | socket => exact hnames.elim
  | @portEnv host _ raw port hv hport =>
      obtain rfl : _ = key := hnames
      exact ⟨raw, serviceValue_some.mpr hv, port, requirePort_ok.mpr ⟨raw, rfl, hport⟩, rfl⟩
  | @socketEnv _ raw hv hne =>
      obtain rfl : _ = key := hnames
      exact ⟨raw, serviceValue_some.mpr hv, by rw [requireSocketPath, if_neg hne], rfl⟩

theorem resolved_command {command out : List String} {lookup : String → Option String}
    (h : resolveCommand command lookup = .ok out) : ReplacedAll lookup command out := by
  rcases resolveCommand_spec lookup command with ⟨out', hout, hall⟩ | ⟨_, herror, _⟩
  · rw [h] at hout
    rwa [Except.ok.inj hout]
  · rw [h] at herror
    cases herror

/-- A variable that the service uses has a value, where the service can be launched. -/
theorem value_of_uses (hroutes : resolveRoutes cwd manifest (var penv) base = .ok resolved)
    (hcommand : ∀ command, service.command = some command →
      ReplacedAll (commandValue penv service) command launch.command)
    (huses : Uses manifest service key) : ∃ value, serviceValue service (var penv) key = some value := by
  rcases huses with ⟨route, hmem, hnames⟩ | ⟨command, arg, p, hc, harg, hoccurs⟩
  · obtain ⟨r, _, hgives⟩ := exists_of_forall₂ (resolved_gives hroutes).flip _ hmem
    obtain ⟨raw, hraw, _⟩ := value_of_resolves hgives.2.2 hnames
    exact ⟨raw, hraw⟩
  · have hsome := (hcommand command hc).defined harg hoccurs
    rw [String.ofList_toList] at hsome
    exact Option.isSome_iff_exists.mp hsome

theorem coincide_of_value (hroutes : resolveRoutes cwd manifest (var penv) base = .ok resolved)
    (hcommand : ∀ command, service.command = some command →
      ReplacedAll (commandValue penv service) command launch.command)
    (hvalue : serviceValue service (var penv) key = some value)
    (hchild : (serviceValue service (var penv) key).map OsString.ofString = launch.env (.ofString key)) :
    Coincide cwd base key value manifest resolved penv service launch where
  routes := by
    intro i route r hentry hr hnames
    obtain ⟨hi, hget⟩ := List.getElem?_eq_some_iff.mp hentry
    obtain ⟨hi', hget'⟩ := List.getElem?_eq_some_iff.mp hr
    have hgives := List.Forall₂.get (resolved_gives hroutes) hi hi'
    rw [List.get_eq_getElem, List.get_eq_getElem, hget, hget'] at hgives
    obtain ⟨raw, hraw, hstands⟩ := value_of_resolves hgives.2.2 hnames
    rw [hvalue] at hraw
    rwa [Option.some.inj hraw]
  command := by
    intro command hc
    have hsame : commandValue penv service key = some value := hvalue
    rw [← hsame, Function.update_eq_self]
    exact hcommand command hc
  child := by
    rw [← hchild, hvalue]
    rfl

end

theorem spawnsAs_of_not_isSpawn (launch : Launch) {c : Call} (h : ¬ IsSpawn c) : SpawnsAs launch c := by
  cases c <;> first | trivial | exact absurd trivial h

theorem Harmless.spawnsAs (launch : Launch) {c : Call} (h : Harmless c) : SpawnsAs launch c :=
  spawnsAs_of_not_isSpawn launch h.not_isSpawn

theorem spawnService_spawnsAs (sh : Shared) (launch : Launch) (info : ServiceInfo)
    (log : RotatingLogWriter) : (spawnService sh launch info log).Only (SpawnsAs launch) := by
  refine Prog.only_bind (Prog.only_perform ⟨rfl, rfl⟩) ?_
  intro spawned
  cases spawned with
  | ok child => exact Prog.only_bind (Prog.only_perform trivial) (fun _ => Prog.only_pure _ _)
  | error err =>
      exact Prog.only_bind ((writeFmt_harmless _ _).mono (fun _ => Harmless.spawnsAs _))
        (fun _ => Prog.only_pure _ _)

theorem launchService_spawnsAs (sh : Shared) (launch : Launch) (info : ServiceInfo) :
    (launchService sh launch info).Only (SpawnsAs launch) := by
  refine Prog.only_bind ((finishCapture_harmless info).mono (fun _ => Harmless.spawnsAs _)) ?_
  intro info
  refine Prog.only_bind ((openWriter_harmless _ _).mono (fun _ => Harmless.spawnsAs _)) ?_
  intro opened
  cases opened with
  | error err => exact Prog.only_pure _ _
  | ok log =>
      refine Prog.only_bind (Prog.only_perform trivial) (fun timestamp => ?_)
      refine Prog.only_bind ((writeFmt_harmless _ _).mono (fun _ => Harmless.spawnsAs _)) ?_
      exact fun written => spawnService_spawnsAs sh launch info written.1

theorem markExited_spawnsAs (launch : Launch) (info : ServiceInfo) (status : ExitStatus) :
    (info.markExited status).Only (SpawnsAs launch) := by
  have horphans : (ServiceInfo.stopOrphans info.child).Only (SpawnsAs launch) := by
    unfold ServiceInfo.stopOrphans
    cases info.child with
    | none => exact Prog.only_pure _ _
    | some child => exact stopOrphanedGroup_only (fun _ => trivial)
  refine Prog.only_bind horphans (fun _ => ?_)
  exact Prog.only_bind ((finishCapture_harmless _).mono (fun _ => Harmless.spawnsAs _))
    (fun _ => Prog.only_pure _ _)

/-- Whatever a start of the service meets, a child is given the command and the environment of the launch. -/
theorem startLocked_spawnsAs (sh : Shared) {info : ServiceInfo} {launch : Launch}
    (h : info.launch = some launch) : (startLocked sh info).Only (SpawnsAs launch) := by
  unfold startLocked
  rw [h]
  cases info.child with
  | none => exact launchService_spawnsAs sh launch info
  | some child =>
      refine Prog.only_bind (Prog.only_perform trivial) ?_
      intro polled
      cases polled with
      | running => exact Prog.only_pure _ _
      | error => exact launchService_spawnsAs sh launch info
      | exited status =>
          exact Prog.only_bind (markExited_spawnsAs _ info status)
            (fun info => launchService_spawnsAs sh launch info)

/-- For a service that can be launched, a variable that it uses has one value in the routes, in
the command and in the child exactly when the process has none for it, or one that is Unicode. -/
theorem one_value_iff (cwd base : Option Path) (manifest : Manifest) (resolved : List ResolvedRoute) (penv : OsEnv)
    (service : ServiceDef) (info : ServiceInfo) (launch : Launch) (key : String)
    (hroutes : resolveRoutes cwd manifest (var penv) base = .ok resolved)
    (hnew : newService penv service = .ok info) (hlaunch : info.launch = some launch)
    (huses : Uses manifest service key) :
    ((∃ value, Coincide cwd base key value manifest resolved penv service launch) ∧
        ∀ sh record, record.launch = some launch → (startLocked sh record).Only (SpawnsAs launch)) ↔
      ∀ value, penv (.ofString key) = some value → value.toStr.isSome := by
  obtain ⟨henv, command, hc, hresolved⟩ := newService_launch hnew hlaunch
  have hcommand : ∀ other, service.command = some other →
      ReplacedAll (commandValue penv service) other launch.command := by
    intro other hother
    rw [hc] at hother
    rw [← Option.some.inj hother]
    exact resolved_command hresolved
  constructor
  · rintro ⟨⟨value, hcoincide⟩, _⟩ found hfound
    have hchild := hcoincide.child
    rw [henv, childEnv_of_process hfound] at hchild
    rw [Option.some.inj hchild, OsString.toStr_ofString]
    rfl
  · intro hunicode
    obtain ⟨value, hvalue⟩ := value_of_uses hroutes hcommand huses
    have hchild := (childEnv_iff penv service key).mpr hunicode
    rw [← henv] at hchild
    exact ⟨⟨value, coincide_of_value hroutes hcommand hvalue hchild⟩, fun sh _ hl => startLocked_spawnsAs sh hl⟩

def servedText : String :=
  withHeader <|
    "[services.app]\n" ++
    "command = [\"serve\", \"\x7bPORT\x7d\"]\n" ++
    "env.PORT = \"3000\"\n" ++
    "[[services.app.routes]]\n" ++
    "id = \"app\"\n" ++
    "hosts = [\"app.localhost\"]\n" ++
    "target_port_env = \"PORT\"\n"

def servedTable : Table :=
  headedTable [("app", .table [
      ("command", .array [.string "serve", .string "\x7bPORT\x7d"]),
      ("env", .table [("PORT", .string "3000")]),
      ("routes", .array [.table [("id", .string "app"), ("hosts", .array [.string "app.localhost"]),
        ("target_port_env", .string "PORT")]])])]

def servedReader : Reader :=
  .knowing servedText servedTable (distinctKeys_headedTable (by simp))

def servedService : ServiceDef :=
  ⟨"app", some ["serve", "\x7bPORT\x7d"], [("PORT", "3000")],
    [⟨"app", ["app.localhost"], .portEnv "localhost" "PORT"⟩], false, true⟩

def servedManifest : Manifest := headedManifest [servedService]

theorem parse_served : parseManifest servedReader servedText = .ok servedManifest :=
  parseManifest_knowing _ _ _

def oddEnv : OsEnv := fun key => if key = .ofString "PORT" then some ⟨⟨#[0xff]⟩⟩ else none

def servedLaunch (penv : OsEnv) : Launch := ⟨["serve", "3000"], childEnv penv servedService, true⟩

def servedInfo (penv : OsEnv) : ServiceInfo :=
  ⟨"app", some (servedLaunch penv), .stopped, none, 0, none, none⟩

theorem served_range : 1 ≤ 3000 ∧ 3000 ≤ 65535 := by decide

def servedResolved : List ResolvedRoute := [⟨"app", ["app.localhost"], .tcp "localhost" ⟨3000, served_range⟩⟩]

theorem served_uses : Uses servedManifest servedService "PORT" :=
  .inl ⟨⟨"app", ["app.localhost"], .portEnv "localhost" "PORT"⟩, List.mem_singleton_self _, rfl⟩

theorem served_resolves :
    resolveRoutes none servedManifest (var fun _ => none) (some (parse "/p")) = .ok servedResolved := rfl

/-- In a process without the variable, the value of the table is the one for all three. -/
theorem one_value_iff_served :
    ∃ value, Coincide none (some (parse "/p")) "PORT" value servedManifest servedResolved (fun _ => none)
        servedService (servedLaunch fun _ => none) ∧ value = "3000" := by
  obtain ⟨⟨value, hcoincide⟩, _⟩ := (one_value_iff none (some (parse "/p")) servedManifest servedResolved
    (fun _ => none) servedService (servedInfo fun _ => none) (servedLaunch fun _ => none) "PORT" served_resolves rfl
    rfl served_uses).mpr (fun _ hodd => by cases hodd)
  refine ⟨value, hcoincide, OsString.ofString_inj (Option.some.inj ?_)⟩
  exact hcoincide.child.symm.trans rfl

/-- The route and the command take the port from the table while the child is
given the bytes of the process. -/
theorem odd_port_differs :
    parseManifest servedReader servedText = .ok servedManifest ∧
    (resolveRoutes none servedManifest (var oddEnv) (some (parse "/p"))).toOption =
      some [⟨"app", ["app.localhost"], .tcp "localhost" ⟨3000, by decide⟩⟩] ∧
    newService oddEnv servedService = .ok (servedInfo oddEnv) ∧
    (servedLaunch oddEnv).command = ["serve", "3000"] ∧
    (servedLaunch oddEnv).env (.ofString "PORT") = some ⟨⟨#[0xff]⟩⟩ ∧
    (⟨⟨#[0xff]⟩⟩ : OsString) ≠ .ofString "3000" :=
  ⟨parse_served, by decide, rfl, rfl, rfl, by decide⟩

end LocalDevProxy.OneValue
