import LocalDevProxy.ManagerSteps
import LocalDevProxy.ServiceOperations
import LocalDevProxy.Steady

namespace LocalDevProxy.Startability

open Lib.Interaction Lib.Fallible Paths Environment Toml Config Placeholders Routes Os Process Listen
  ManagerCore ManagerSteps ServiceOperations

def onDisk (path : Path) (text : String) : (c : Call) → Ans c → Prop
  | .readToString p, r => p = path → r = .ok text
  | _, _ => True

def uncreated (logDir : Path) (source : IoError) : ConfigError :=
  ⟨"Could not create " ++ logDir.display ++ ": " ++ source.message⟩

inductive IoOutcome (logDir : Path) {α : Type} : Except ManagerError α → Prop
  | done (a : α) : IoOutcome logDir (.ok a)
  | unbound (err : ProxyError) : IoOutcome logDir (.error (.proxy err))
  | noLogDir (source : IoError) : IoOutcome logDir (.error (.config (uncreated logDir source)))

theorem IoOutcome.map {α β : Type} {logDir : Path} {r : Except ManagerError α} (h : IoOutcome logDir r)
    (f : α → β) : IoOutcome logDir (r.map f) := by
  cases h with
  | done a => exact .done (f a)
  | unbound err => exact .unbound err
  | noLogDir source => exact .noLogDir source

/-- Every placeholder of a command that can be launched has a value. -/
def Covered (penv : OsEnv) (manifest : Manifest) : Prop :=
  ∀ service ∈ manifest.services, service.disabled = false → ∀ command, service.command = some command →
    ∀ key ∈ placeholders command, (var penv key).isSome ∨ (lookup service.env key).isSome

theorem newService_ok_iff (penv : OsEnv) (service : ServiceDef) :
    (∃ info, newService penv service = .ok info) ↔
      (service.disabled = false → ∀ command, service.command = some command →
        ∀ key ∈ placeholders command, (var penv key).isSome ∨ (lookup service.env key).isSome) := by
  have hvalue : ∀ key, (commandValue penv service key).isSome ↔
      (var penv key).isSome ∨ (lookup service.env key).isSome := by
    intro key
    rw [commandValue, Option.isSome_or, Bool.or_eq_true]
  unfold newService newLaunch
  cases hd : service.disabled with
  | true => simp [bind_eq_ok]
  | false =>
      cases hc : service.command with
      | none => simp [bind_eq_ok]
      | some command =>
          have hr : (∃ out, resolveCommand command (commandValue penv service) = .ok out) ↔ _ :=
            resolveCommand_ok_iff command
          simp only [hvalue] at hr
          simp only [bind_eq_ok, Option.some.injEq, forall_const, forall_eq', ← hr]
          constructor
          · rintro ⟨info, _, ⟨out, hout, _⟩, _⟩
            exact ⟨out, hout⟩
          · rintro ⟨out, hout⟩
            exact ⟨_, _, ⟨out, hout, rfl⟩, rfl⟩

theorem newServices_ok_iff (penv : OsEnv) (manifest : Manifest) :
    (∃ services, newServices penv manifest = .ok services) ↔ Covered penv manifest := by
  rw [newServices, exists_collect_eq_ok]
  exact forall₂_congr (fun service _ => newService_ok_iff penv service)

theorem newServices_error {penv : OsEnv} {manifest : Manifest} {err : ConfigError}
    (h : newServices penv manifest = .error err) : ∃ key, err = missing key := by
  obtain ⟨service, _, h⟩ := collect_eq_error h
  rcases bind_eq_error.mp h with h | ⟨_, _, h⟩
  · unfold newLaunch at h
    split at h
    · cases h
    · cases h
    · rcases bind_eq_error.mp h with h | ⟨_, _, h⟩
      · exact resolveCommand_error h
      · cases h
  · cases h

theorem missing_ne_uncreated (key : String) (logDir : Path) (source : IoError) :
    missing key ≠ uncreated logDir source := by
  intro h
  have hm := congrArg String.toList (ConfigError.mk.inj h)
  simp [String.toList_append] at hm

variable {M : Machine sys World} {shared : Bool} {ctx : Context} {m m' : Manager ctx.glob} {text : String}
  {w w' : World}

def holding (shared : Bool) (paths : ProjectPaths) (text : String) : Machine sys World :=
  (machine shared).restrict (onDisk paths.servicesFile text)

theorem loadManifest_run {toml : Reader} {paths : ProjectPaths} {r : Except ConfigError Manifest}
    (h : Runs (holding shared paths text) (loadManifest toml paths.servicesFile) w r w') :
    r = parseManifest toml text := by
  obtain ⟨read, w₁, hr, h⟩ := runs_bind.mp h
  obtain ⟨_, _, _, ha, _⟩ := runs_perform.mp hr
  have hread : read = .ok text := ha.2 rfl
  subst hread
  exact (runs_pure.mp h).1

theorem new_error {penv : OsEnv} {manifest : Manifest} {logDir cwd : Path} {limits : LogRotation.LogLimits}
    {err : ConfigError}
    (h : Runs M (ServiceManager.new penv manifest logDir cwd limits) w (.error err) w') :
    (∃ source, err = uncreated logDir source) ∨ newServices penv manifest = .error err := by
  obtain ⟨created, w₁, _, h⟩ := runs_bind.mp h
  cases created with
  | error source =>
      obtain ⟨he, _⟩ := runs_pure.mp h
      cases he
      exact .inl ⟨source, rfl⟩
  | ok _ =>
      obtain ⟨he, _⟩ := runs_pure.mp h
      cases hs : newServices penv manifest with
      | ok services =>
          rw [hs] at he
          cases he
      | error e =>
          rw [hs] at he
          cases he
          exact .inr rfl

theorem validateConfig_ok_iff {manifest : Manifest} :
    m.validateConfig ctx text = .ok manifest ↔
      parseManifest ctx.toml text = .ok manifest ∧ ∃ routes, routesOf ctx m.paths manifest = .ok routes := by
  unfold Manager.validateConfig
  rw [bind_eq_ok]
  constructor
  · rintro ⟨manifest', hparse, h⟩
    obtain ⟨routes, hroutes, h⟩ := bind_eq_ok.mp h
    cases h
    exact ⟨hparse, routes, hroutes⟩
  · rintro ⟨hparse, routes, hroutes⟩
    exact ⟨manifest, hparse, bind_eq_ok.mpr ⟨routes, hroutes, rfl⟩⟩

theorem served_outcome {G : Glob} {m m' : Manager G} {manifest : Manifest} {routes : RouteTable G}
    {services : ServiceManager} {r : Except ManagerError Manifest} {logDir : Path}
    (h : Served M m manifest routes services w m' r w') : IoOutcome logDir r := by
  cases h with
  | bound started polled old proxy _ _ _ _ => exact .done manifest
  | unbound started polled old err _ _ _ _ _ => exact .unbound err

theorem begun_outcome {manifest : Manifest} {r : Except ManagerError Manifest}
    (hroutes : ∃ routes, routesOf ctx m.paths manifest = .ok routes)
    (hservices : ∃ services, newServices ctx.env manifest = .ok services)
    (h : Begun M ctx m manifest w m' r w') : IoOutcome m.paths.logsDir r := by
  obtain ⟨routes, hroutes⟩ := hroutes
  obtain ⟨services, hservices⟩ := hservices
  cases h with
  | unroutable err hbad _ =>
      rw [hroutes] at hbad
      cases hbad
  | unprepared _ err _ hnew =>
      rcases new_error hnew with ⟨source, rfl⟩ | hbad
      · exact .noLogDir source
      · rw [hservices] at hbad
        cases hbad
  | served _ _ _ _ hserved => exact served_outcome hserved

theorem begun_routes {manifest : Manifest} {r : Except ManagerError Manifest}
    (h : Begun M ctx m manifest w m' r w') (hr : ∀ err, r ≠ .error (.config err)) :
    ∃ routes, routesOf ctx m.paths manifest = .ok routes := by
  cases h with
  | unroutable err _ _ => exact absurd rfl (hr err)
  | unprepared _ err _ _ => exact absurd rfl (hr err)
  | served routes _ hroutes _ _ => exact ⟨routes, hroutes⟩

/-- A start with the text on disk begins the manifest that the text spells. -/
theorem start_begun {r : Except ManagerError Manifest}
    (h : Runs (holding shared m.paths text) (m.start ctx) w (m', r) w') :
    (∃ err, parseManifest ctx.toml text = .error err ∧ r = .error (.config err)) ∨
      ∃ manifest m₁ w₁, parseManifest ctx.toml text = .ok manifest ∧ m₁.paths = m.paths ∧
        Begun (holding shared m.paths text) ctx m₁ manifest w₁ m' r w' := by
  obtain ⟨m₁, w₁, hstop, h⟩ := start_run h
  have hpaths := (stopIfRunning_paths hstop).1
  rw [hpaths] at h
  rcases h with ⟨err, hload, _, rfl⟩ | ⟨manifest, w₂, hload, hbegun⟩
  · exact .inl ⟨err, (loadManifest_run hload).symm, rfl⟩
  · exact .inr ⟨manifest, m₁, w₂, (loadManifest_run hload).symm, hpaths, hbegun⟩

theorem start_outcome {manifest : Manifest} {r : Except ManagerError Manifest}
    (hvalid : m.validateConfig ctx text = .ok manifest)
    (hservices : ∃ services, newServices ctx.env manifest = .ok services)
    (h : Runs (holding shared m.paths text) (m.start ctx) w (m', r) w') :
    IoOutcome m.paths.logsDir r := by
  obtain ⟨hparse, hroutes⟩ := validateConfig_ok_iff.mp hvalid
  rcases start_begun h with ⟨err, hbad, _⟩ | ⟨manifest', m₁, w₁, hparse', hpaths, hbegun⟩
  · rw [hparse] at hbad
    cases hbad
  · rw [hparse] at hparse'
    cases hparse'
    rw [← hpaths] at hroutes ⊢
    exact begun_outcome hroutes hservices hbegun

theorem apply_outcome {manifest : Manifest} {r : Except ManagerError Applied}
    (hvalid : m.validateConfig ctx text = .ok manifest)
    (hservices : ∃ services, newServices ctx.env manifest = .ok services)
    (h : Runs (holding shared m.paths text) (m.apply ctx) w (m', r) w') :
    IoOutcome m.paths.logsDir r := by
  cases apply_run h with
  | started _ hstart => exact (start_outcome hvalid hservices hstart).map _
  | unloaded running err _ hload =>
      have hparse := (validateConfig_ok_iff.mp hvalid).1
      rw [← loadManifest_run hload] at hparse
      cases hparse
  | unchanged running _ _ => exact .done _
  | restarted running manifest' _ _ _ hstart => exact (start_outcome hvalid hservices hstart).map _

/-- What validation promises about a text: saving and checking agree with it,
what it accepts starts and applies but for the system, and what starts it accepts. -/
structure Predicts (shared : Bool) (ctx : Context) (m : Manager ctx.glob) (text : String) : Prop where
  saves : ∀ w r w', Runs (machine shared) (m.saveConfig ctx text) w r w' →
    ((∃ err, r = .error (.config err)) ↔ ∃ err, m.validateConfig ctx text = .error err)
  checks : ∀ w r w', Runs (holding shared m.paths text) (checkConfig ctx m.paths) w r w' →
    r = m.validateConfig ctx text
  starts : ∀ manifest, m.validateConfig ctx text = .ok manifest → ∀ w m' r w',
    Runs (holding shared m.paths text) (m.start ctx) w (m', r) w' → IoOutcome m.paths.logsDir r
  applies : ∀ manifest, m.validateConfig ctx text = .ok manifest → ∀ w m' r w',
    Runs (holding shared m.paths text) (m.apply ctx) w (m', r) w' → IoOutcome m.paths.logsDir r
  accepts : ∀ w m' r w', Runs (holding shared m.paths text) (m.start ctx) w (m', r) w' →
    (∀ err, r ≠ .error (.config err)) → ∃ manifest, m.validateConfig ctx text = .ok manifest

theorem saveConfig_run {r : Except ManagerError Unit} (h : Runs M (m.saveConfig ctx text) w r w') :
    (∃ err, r = .error (.config err)) ↔ ∃ err, m.validateConfig ctx text = .error err := by
  unfold Manager.saveConfig at h
  cases hv : m.validateConfig ctx text with
  | error err =>
      rw [hv] at h
      obtain ⟨rfl, _⟩ := runs_pure.mp h
      simp
  | ok manifest =>
      rw [hv] at h
      obtain ⟨written, w₁, _, h⟩ := runs_bind.mp h
      obtain ⟨rfl, _⟩ := runs_pure.mp h
      cases written <;> simp [Except.mapError]

theorem checkConfig_run {r : Except ConfigError Manifest}
    (h : Runs (holding shared m.paths text) (checkConfig ctx m.paths) w r w') :
    r = m.validateConfig ctx text := by
  unfold Manager.validateConfig
  rcases runs_tryThen.mp h with ⟨err, rfl, hload⟩ | ⟨manifest, w₁, hload, h⟩
  · rw [← loadManifest_run hload]
    rfl
  · rw [← loadManifest_run hload, (runs_pure.mp h).1]
    cases hroutes : routesOf ctx m.paths manifest <;> simp [hroutes, Except.map, bind, Except.bind]

def frozen : Call → Bool
  | .removeFile _ | .rename _ _ | .openAppend _ | .writeAll _ _ | .writeFile _ _ => true
  | _ => false

theorem frozen_disk (c : Call) (w : World) : (Steady.answer frozen c w).2.disk = w.disk := by
  have hpoll : ∀ child, (Steady.pollLeader child w).2.disk = w.disk := by
    intro child
    rcases Steady.pollLeader_cases child w with ⟨h, _⟩ | ⟨_, _, h, _⟩
    · rw [h]
    · rw [h]
      rfl
  cases c with
  | tryWait site child => exact hpoll child
  | wait child =>
      have h := hpoll child
      simp only [Steady.answer, Steady.waitLeader]
      split
      · rename_i he
        rw [he] at h
        exact h
      · rfl
  | probeGroup pgid =>
      simp only [Steady.answer, Steady.probe]
      split
      · split <;> rfl
      · rfl
  | spawn owner command env cwd =>
      simp only [Steady.answer, Steady.spawnIn, frozen, Bool.false_eq_true, if_false]
      split
      · rfl
      · split <;> rfl
  | writeAll file data =>
      simp only [Steady.answer, frozen, if_true, Disk.append, Disk.store, List.take_zero,
        List.append_nil, Function.update_eq_self]
  | metadata path =>
      simp only [Steady.answer, frozen, Bool.false_eq_true, if_false]
      split <;> rfl
  | _ => rfl

def oneFile (path : Path) (text : String) : Disk :=
  ⟨fun p => if p = path then some 0 else none, fun _ => bytesOf text, 1⟩

def frozenDriver (shared : Bool) (paths : ProjectPaths) (text : String) :
    Driver (holding shared paths text) where
  inside := fun w => w.disk = oneFile paths.servicesFile text
  answer := Steady.answer frozen
  sound := by
    intro c w hw
    refine ⟨Steady.answer_sound frozen c w, ?_⟩
    cases c with
    | readToString p =>
        rintro rfl
        simp [Steady.answer, frozen, Steady.readIn, hw, oneFile, Steady.decode_bytesOf]
    | _ => trivial
  stays := fun c w hw => (frozen_disk c w).trans hw

variable (ctx) in
/-- A text whose services cannot be prepared makes a start fail, after
whatever ran has been stopped. -/
theorem start_fails {manifest : Manifest} {err : ConfigError} (shared : Bool)
    (hvalid : m.validateConfig ctx text = .ok manifest)
    (hservices : newServices ctx.env manifest = .error err) :
    ∃ w m' w', Runs (holding shared m.paths text) (m.start ctx) w (m', .error (.config err)) w' := by
  let D := frozenDriver shared m.paths text
  obtain ⟨hparse, routes, hroutes⟩ := validateConfig_ok_iff.mp hvalid
  obtain ⟨m₁, w₁, hstop, hw₁⟩ := D.exists_run m.stopIfRunning
    (w := ⟨fun _ => none, oneFile m.paths.servicesFile text⟩) rfl
  obtain ⟨loaded, w₂, hload, _⟩ := D.exists_run (loadManifest ctx.toml m.paths.servicesFile) hw₁
  obtain rfl : loaded = .ok manifest := (loadManifest_run hload).trans hparse
  have hpaths := (stopIfRunning_paths hstop).1
  have hnew : Runs (holding shared m.paths text)
      (ServiceManager.new ctx.env manifest m.paths.logsDir m.paths.root m₁.logLimits) w₂
      (.error err) w₂ := by
    have hmade : (holding shared m.paths text).answers (.createDirAll m.paths.logsDir) w₂ (.ok ()) w₂ :=
      ⟨rfl, trivial⟩
    have hrun := new_runs ctx.env manifest m.paths.root m₁.logLimits hmade
    rwa [hservices] at hrun
  have hlaunch : Runs (holding shared m.paths text) (m₁.launch ctx manifest) w₂
      (m₁, .error (.config err)) w₂ := by
    simp only [Manager.launch, hpaths, hroutes]
    exact runs_bind.mpr ⟨.error err, w₂, hnew, runs_pure.mpr ⟨rfl, Machine.drift_refl _ _⟩⟩
  refine ⟨_, m₁, w₂, runs_bind.mpr ⟨m₁, w₁, hstop, ?_⟩⟩
  rw [hpaths]
  exact runs_bind.mpr ⟨.ok manifest, w₂, hload, hlaunch⟩

/-- Validation keeps its promises about a text exactly when it rejects the text
or every placeholder that a start has to resolve has a value. -/
theorem predicts_iff (shared : Bool) (ctx : Context) (m : Manager ctx.glob) (text : String) :
    Predicts shared ctx m text ↔
      ∀ manifest routes, parseManifest ctx.toml text = .ok manifest →
        routesOf ctx m.paths manifest = .ok routes → Covered ctx.env manifest := by
  constructor
  · intro h manifest routes hparse hroutes
    have hvalid := validateConfig_ok_iff.mpr ⟨hparse, routes, hroutes⟩
    rw [← newServices_ok_iff]
    cases hs : newServices ctx.env manifest with
    | ok services => exact ⟨services, rfl⟩
    | error err =>
        obtain ⟨key, rfl⟩ := newServices_error hs
        obtain ⟨w, m', w', hrun⟩ := start_fails ctx shared hvalid hs
        have hout := h.starts manifest hvalid w m' _ w' hrun
        generalize hr : (Except.error (.config (missing key)) : Except ManagerError Manifest) = r at hout
        cases hout with
        | done _ => cases hr
        | unbound _ => cases hr
        | noLogDir source =>
            exact absurd (ManagerError.config.inj (Except.error.inj hr)) (missing_ne_uncreated _ _ _)
  · intro h
    have hservices : ∀ manifest, m.validateConfig ctx text = .ok manifest →
        ∃ services, newServices ctx.env manifest = .ok services := by
      intro manifest hvalid
      obtain ⟨hparse, routes, hroutes⟩ := validateConfig_ok_iff.mp hvalid
      exact (newServices_ok_iff ctx.env manifest).mpr (h manifest routes hparse hroutes)
    refine ⟨fun _ _ _ => saveConfig_run, fun _ _ _ => checkConfig_run, ?_, ?_, ?_⟩
    · exact fun manifest hvalid _ _ _ _ hrun => start_outcome hvalid (hservices manifest hvalid) hrun
    · exact fun manifest hvalid _ _ _ _ hrun => apply_outcome hvalid (hservices manifest hvalid) hrun
    · intro w m' r w' hrun hr
      rcases start_begun hrun with ⟨err, _, rfl⟩ | ⟨manifest, m₁, w₁, hparse, hpaths, hbegun⟩
      · exact absurd rfl (hr err)
      · obtain ⟨routes, hroutes⟩ := begun_routes hbegun hr
        rw [hpaths] at hroutes
        exact ⟨manifest, validateConfig_ok_iff.mpr ⟨hparse, routes, hroutes⟩⟩

def unsetText : String :=
  withHeader <|
    "[services.app]\n" ++
    "command = [\"serve\", \"\x7bPORT\x7d\"]\n"

def unsetTable : Table :=
  headedTable [("app", .table [
      ("command", .array [.string "serve", .string "\x7bPORT\x7d"])])]

def unsetReader : Reader :=
  .knowing unsetText unsetTable (distinctKeys_headedTable (by simp))

def unsetManifest : Manifest :=
  headedManifest [⟨"app", some ["serve", "\x7bPORT\x7d"], [], [], false, true⟩]

def bareContext : Context := ⟨unsetReader, literalGlob, fun _ => none, none⟩

def bareManager : Manager literalGlob := .new literalGlob profile

theorem parse_unset : parseManifest unsetReader unsetText = .ok unsetManifest :=
  parseManifest_knowing _ _ _

theorem unset_valid : bareManager.validateConfig bareContext unsetText = .ok unsetManifest :=
  validateConfig_ok_iff.mpr ⟨parse_unset, _, rfl⟩

/-- A placeholder that nothing gives a value is accepted, and then no start succeeds. -/
theorem unset_placeholder_accepted :
    bareManager.validateConfig bareContext unsetText = .ok unsetManifest ∧
    ∃ w m' w', Runs (holding true bareManager.paths unsetText) (bareManager.start bareContext) w
      (m', .error (.config (missing "PORT"))) w' :=
  ⟨unset_valid, start_fails bareContext true unset_valid rfl⟩

end LocalDevProxy.Startability
