import LocalDevProxy.Lib.Clients
import LocalDevProxy.Lib.Transitions
import LocalDevProxy.SavedStart

namespace LocalDevProxy.Profiles

open Lib.Interaction Lib.Fallible Lib.Policies Lib.Clients Lib.Transitions Paths Config Environment Os LogRotation
  LogFamilies LogSlots ManagerCore ManagerSteps Lifecycle SavedConfig FileOwners ManagerFiles SavedStart

def isLog (paths : ProjectPaths) (p : Path) : Prop :=
  ∃ limits name, Plain name ∧ InFamily (serviceLog paths limits name) p

def isFile (paths : ProjectPaths) (p : Path) : Prop := isConfig paths p ∨ isLog paths p

theorem log_not_config {config paths : ProjectPaths} {p : Path} (h : isLog paths p) : ¬ isConfig config p := by
  obtain ⟨limits, name, hplain, hp⟩ := h
  exact logs_clear config paths limits name hplain p hp

def logsName : Name := ⟨"logs", by decide, by decide, by decide⟩

theorem logsDir_child (paths : ProjectPaths) : paths.logsDir = paths.root.child logsName :=
  paths.root.join_name logsName

/-- A directory is what a path of a file in it begins with. -/
theorem child_dir {dir other : Path} {m n : Name} (h : dir.child m = other.child n) : dir = other := by
  have hparent := congrArg Path.parent h
  rw [Path.parent_child, Path.parent_child] at hparent
  exact Option.some.inj hparent

/-- Profiles with different roots have no file in common. -/
theorem isFile_root {a b : ProjectPaths} {p : Path} (ha : isFile a p) (hb : isFile b p) : a.root = b.root := by
  rcases ha with ha | ha
  · rcases hb with hb | hb
    · rcases isConfig_child ha with rfl | rfl
      · rcases isConfig_child hb with h | h
        · exact child_dir h
        · exact child_dir h
      · rcases isConfig_child hb with h | h
        · exact child_dir h
        · exact child_dir h
    · exact absurd ha (log_not_config hb)
  · rcases hb with hb | hb
    · exact absurd hb (log_not_config ha)
    · obtain ⟨_, _, hplain, hp⟩ := ha
      obtain ⟨_, _, hplain', hp'⟩ := hb
      obtain ⟨n, rfl, _⟩ := inFamily_name hplain hp
      obtain ⟨n', h, _⟩ := inFamily_name hplain' hp'
      have hsame := child_dir h
      rw [logsDir_child a, logsDir_child b] at hsame
      exact child_dir hsame

section

variable {ctx : Context} {m : Manager ctx.glob}

theorem saveConfig_spares {own : Path → Prop} (hclear : ∀ p, isConfig m.paths p → ¬ own p) (text : String) :
    Spares own (m.saveConfig ctx text) := by
  unfold Manager.saveConfig
  split
  · exact spares_pure _
  · refine spares_bind (spares_tryThen ?_ fun _ => ?_) fun _ => spares_pure _
    · exact fun files => confined_perform (hclear _ (.inl rfl)) fun _ => trivial
    · exact fun files => confined_perform ⟨hclear _ (.inl rfl), hclear _ (.inr rfl)⟩ fun _ => trivial

inductive Part
  | config
  | logs

def Part.files : Part → ProjectPaths → Path → Prop
  | .config => isConfig
  | .logs => isLog

def partOf : ManagerOp → Part
  | .saveConfig _ => .config
  | _ => .logs

/-- An operation works on one part of its profile alone. -/
theorem op_part (hi : Sound ctx m) (hloaded : ∀ manifest, m.running = some manifest → Loaded ctx manifest)
    (op : ManagerOp) : Spares (fun p => ¬ (partOf op).files m.paths p) (op.run ctx m) := by
  cases op with
  | saveConfig text =>
      exact spares_bind (saveConfig_spares (fun p hp hnot => hnot hp) text) fun _ => spares_pure _
  | start | apply | stop | startService | stopService | restartService | tick =>
      refine op_spares hi hloaded (fun limits name hplain p hp hnot => ?_) fun _ => nofun
      exact hnot ⟨limits, name, hplain, hp⟩

end

def area {ι : Type} (paths : ι → ProjectPaths) (a : ι × Part) : Path → Prop := a.2.files (paths a.1)

theorem area_file {ι : Type} {paths : ι → ProjectPaths} {a : ι × Part} {p : Path} (h : area paths a p) :
    isFile (paths a.1) p := by
  obtain ⟨i, part⟩ := a
  cases part with
  | config => exact .inl h
  | logs => exact .inr h

theorem area_apart {ι : Type} {paths : ι → ProjectPaths} (hroots : Function.Injective fun i => (paths i).root)
    (a b : ι × Part) (p : Path) (ha : area paths a p) (hb : area paths b p) : b = a := by
  have hprofile : b.1 = a.1 := hroots (isFile_root (area_file hb) (area_file ha))
  obtain ⟨i, part⟩ := a
  obtain ⟨j, part'⟩ := b
  cases hprofile
  cases part with
  | config =>
      cases part' with
      | config => rfl
      | logs => exact absurd ha (log_not_config hb)
  | logs =>
      cases part' with
      | config => exact absurd hb (log_not_config ha)
      | logs => rfl

/-- Whoever writes to a log, one piece after another: the pump of a service, or the manager. -/
abbrev LogWriter : Type := Client sys (List UInt8) RotatingLogWriter (Except RotatingLogWriter.WriteError Unit)

def write (data : List UInt8) (log : RotatingLogWriter) :
    Io (RotatingLogWriter × Except RotatingLogWriter.WriteError Unit) := log.writeBytes data

structure Opened (paths : ProjectPaths) (d : Disk) (log : RotatingLogWriter) : Prop where
  path : ∃ limits name, Plain name ∧ log.path = serviceLog paths limits name
  count : 1 ≤ log.limits.backupCount
  file : d.names log.path = some log.file

section

variable {ι : Type} (paths : ι → ProjectPaths)

/-- A change to the files that leaves the configurations alone, and after which no part of a
profile has a file that was there before and was not its own. -/
structure Considerate (d d' : Disk) : Prop where
  configs : ∀ i, LeftAlone (isConfig (paths i)) d d'
  grown : ∀ a, Grown (area paths a) d d'

variable {paths} {i : ι}

/-- A manager has got here, from the configuration it found, while this was left alone, and what
it still has to do is confined to one part of its profile. -/
structure Kept (ctx : Context) (paths : ι → ProjectPaths) (i : ι) (found : Option (List UInt8))
    (c : Client sys ManagerOp (Manager ctx.glob) Outcome) (w : World) : Prop where
  lived : ∃ w₀, Stored (paths i) found w₀ ∧
    Lived (undisturbed (isConfig (paths i))) (ManagerOp.run ctx) (.new ctx.glob (paths i)) w₀ c w
  confined : ∀ op p, c.doing = some (op, p) → ∃ files,
    Confined (policy fun q => ¬ area paths (i, partOf op) q) (fun _ _ => True) files p ∧
      OwnFiles (area paths) (i, partOf op) files w.disk

variable {found : Option (List UInt8)} {ctx : Context} {c c' : Client sys ManagerOp (Manager ctx.glob) Outcome}
  {w w' : World}

theorem Kept.drift (h : Kept ctx paths i found c w) (hd : (undisturbed (isConfig (paths i))).drift w w')
    (hg : ∀ a, Grown (area paths a) w.disk w'.disk) : Kept ctx paths i found c w' := by
  obtain ⟨w₀, hstored, hlived⟩ := h.lived
  refine ⟨⟨w₀, hstored, hlived.drift hd⟩, fun op p hdoing => ?_⟩
  obtain ⟨files, hp, hfiles⟩ := h.confined op p hdoing
  exact ⟨files, hp, hfiles.grown hg⟩

theorem kept_launched (ctx : Context) (w : World) (hr : Reserved (isConfig (paths i)) w.disk) :
    Kept ctx paths i (content w.disk (paths i).servicesFile) ⟨[], .new ctx.glob (paths i), none⟩ w :=
  ⟨⟨w, ⟨hr, rfl⟩, .idle (.start ((undisturbed _).drift_refl w))⟩, nofun⟩

theorem session_stored {w₀ : World} {trace : List (ManagerOp × Outcome)} {m : Manager ctx.glob}
    (hstored : Stored (paths i) found w₀)
    (h : Session (undisturbed (isConfig (paths i))) (ManagerOp.run ctx) (.new ctx.glob (paths i)) w₀ trace m w) :
    Tracked ctx (paths i) found trace m w :=
  hstored.content ▸ session_tracked hstored.reserved h

/-- A step of a manager leaves the other profiles alone. -/
theorem kept_step (hroots : Function.Injective fun i => (paths i).root)
    (hreserved : ∀ a, Reserved (area paths a) w.disk) (h : Kept ctx paths i found c w)
    (hstep : Step answers (ManagerOp.run ctx) c w c' w') :
    Kept ctx paths i found c' w' ∧ (∀ a, Grown (area paths a) w.disk w'.disk) ∧
      ∀ a, a.1 ≠ i → LeftAlone (area paths a) w.disk w'.disk := by
  obtain ⟨w₀, hstored, hlived⟩ := h.lived
  have hlived' := hlived.step hstep
  cases hstep with
  | ask op =>
      refine ⟨⟨⟨w₀, hstored, hlived'⟩, ?_⟩, fun _ => .refl _, fun _ _ => .refl _⟩
      rintro _ _ ⟨⟩
      cases hlived with
      | idle hs =>
          have ht := session_stored hstored hs
          have hpart := op_part ht.sound ht.loaded op []
          rw [ht.paths_eq] at hpart
          exact ⟨[], hpart, nofun⟩
  | finish => exact ⟨⟨⟨w₀, hstored, hlived'⟩, nofun⟩, fun _ => .refl _, fun _ _ => .refl _⟩
  | call ha =>
      obtain ⟨files, hp, hfiles⟩ := h.confined _ _ rfl
      obtain ⟨hgrown, halone, hlearned⟩ := area_call (fun b => area_apart hroots _ b) hreserved hfiles hp.1 ha
      refine ⟨⟨⟨w₀, hstored, hlived'⟩, ?_⟩, hgrown, fun a ha => halone a fun hsame => ha (congrArg Prod.fst hsame)⟩
      rintro _ _ ⟨⟩
      exact ⟨_, hp.2 _, hlearned⟩

/-- What the configuration of an instance is at any moment, and what its manager runs. -/
theorem Kept.content (h : Kept ctx paths i found c w) :
    (LogSlots.content w.disk (paths i).servicesFile = expected (savesOf c.trace) found ∨
      ∃ text rest, c.doing = some (.saveConfig text, rest) ∧ Accepts ctx (paths i) text ∧
        LogSlots.content w.disk (paths i).servicesFile = some (bytesOf text)) ∧
    (∀ text, lastSaved (savesOf c.trace) = some text → Accepts ctx (paths i) text) ∧
    ∀ manifest, c.state.running = some manifest → Adopted ctx found c.trace manifest := by
  obtain ⟨w₀, hstored, hlived⟩ := h.lived
  cases hlived with
  | idle hs =>
      have ht := session_stored hstored hs
      exact ⟨.inl ht.stored.content, ht.accepted, ht.adopted⟩
  | @busy _ _ op p _ _ hs hw =>
      have ht := session_stored hstored hs
      refine ⟨(moment_content ht hw.visits).imp id ?_, ht.accepted, ht.adopted⟩
      rintro ⟨text, rfl, haccepts, hcontent⟩
      exact ⟨text, p, rfl, haccepts, hcontent⟩

/-- A writer is at a log of its profile and has no other files open. -/
inductive Logging (paths : ι → ProjectPaths) (i : ι) (d : Disk) : LogWriter → Prop
  | idle {limits : LogLimits} {name : String} {files : List Nat}
      {trace : List (List UInt8 × Except RotatingLogWriter.WriteError Unit)} {log : RotatingLogWriter} :
      Plain name → Holds (serviceLog (paths i) limits name) files log →
      OwnFiles (area paths) (i, .logs) files d → Logging paths i d ⟨trace, log, none⟩
  | busy {limits : LogLimits} {name : String} {files : List Nat}
      {trace : List (List UInt8 × Except RotatingLogWriter.WriteError Unit)} {log : RotatingLogWriter}
      {data : List UInt8} {p : Io (RotatingLogWriter × Except RotatingLogWriter.WriteError Unit)} : Plain name →
      Confined (policy fun q => ¬ area paths (i, .logs) q)
        (fun files r => Holds (serviceLog (paths i) limits name) files r.1) files p →
      OwnFiles (area paths) (i, .logs) files d → Logging paths i d ⟨trace, log, some (data, p)⟩

theorem Logging.grown {d d' : Disk} {c : LogWriter} (h : Logging paths i d c)
    (hg : ∀ a, Grown (area paths a) d d') : Logging paths i d' c := by
  cases h with
  | idle hplain hlog hfiles => exact .idle hplain hlog (hfiles.grown hg)
  | busy hplain hp hfiles => exact .busy hplain hp (hfiles.grown hg)

/-- A step of a writer leaves everything but the logs of its profile alone. -/
theorem logging_step {c c' : LogWriter} (hroots : Function.Injective fun i => (paths i).root)
    (hreserved : ∀ a, Reserved (area paths a) w.disk) (h : Logging paths i w.disk c)
    (hstep : Step answers write c w c' w') :
    Logging paths i w'.disk c' ∧ (∀ a, Grown (area paths a) w.disk w'.disk) ∧
      ∀ a, a ≠ (i, .logs) → LeftAlone (area paths a) w.disk w'.disk := by
  cases hstep with
  | ask data =>
      refine ⟨?_, fun _ => .refl _, fun _ _ => .refl _⟩
      cases h with
      | @idle limits name _ _ _ hplain hlog hfiles =>
          have hclear : Clear (fun q => ¬ area paths (i, .logs) q) (serviceLog (paths i) limits name) :=
            fun p hp hnot => hnot ⟨limits, name, hplain, hp⟩
          exact .busy hplain (writeBytes_confined hclear hlog data) hfiles
  | finish =>
      refine ⟨?_, fun _ => .refl _, fun _ _ => .refl _⟩
      cases h with
      | busy hplain hlog hfiles => exact .idle hplain hlog hfiles
  | call ha =>
      cases h with
      | busy hplain hp hfiles =>
          obtain ⟨hgrown, halone, hlearned⟩ := area_call (fun b => area_apart hroots _ b) hreserved hfiles hp.1 ha
          exact ⟨.busy hplain (hp.2 _) hlearned, hgrown, halone⟩

/-- The file of a log that is just opened is in no other part of a profile. -/
theorem logging_opened {d : Disk} {log : RotatingLogWriter} (hroots : Function.Injective fun i => (paths i).root)
    (hreserved : ∀ a, Reserved (area paths a) d) (h : Opened (paths i) d log) :
    Logging paths i d ⟨[], log, none⟩ := by
  obtain ⟨limits, name, hplain, hpath⟩ := h.path
  have hlog : area paths (i, .logs) log.path := ⟨limits, name, hplain, .inl hpath⟩
  have hfiles : OwnFiles (area paths) (i, .logs) [log.file] d := by
    intro file hfile
    rw [List.mem_singleton.mp hfile]
    refine ⟨(hreserved (i, .logs)).bounded _ _ h.file, fun a ha p hp hsame => ha ?_⟩
    have hp' := (hreserved (i, .logs)).alone _ p _ hlog h.file hsame
    exact area_apart hroots _ a p (hp' ▸ hlog) hp
  exact .idle hplain ⟨hpath, h.count, List.mem_singleton_self _⟩ hfiles

theorem area_reserved {d : Disk} (hr : ∀ i, Reserved (isFile (paths i)) d) (a : ι × Part) :
    Reserved (area paths a) d :=
  (hr a.1).mono fun _ => area_file

end

/-- What a process is given when it is launched. -/
structure Launch where
  env : OsEnv
  cwd : Option Path

def within (ctx : Context) (launch : Launch) : Context := { ctx with env := launch.env, cwd := launch.cwd }

/-- Instances of the program, each with a manager, with the logs it writes to, with how it was
launched now and before, the configuration it found then and the processes of its profile, on
one disk. -/
structure Instances {ι : Type} (ctx : ι → Context) where
  managers : ∀ i, Client sys ManagerOp (Manager (ctx i).glob) Outcome
  writers : ι × Nat → Option LogWriter
  launch : ι → Launch
  former : ι → List Launch
  found : ι → Option (List UInt8)
  groups : ι → Nat → Option Group
  disk : Disk

section

variable {ι : Type} {ctx : ι → Context} {paths : ι → ProjectPaths} {d₀ : Disk}

def Instances.world (s : Instances ctx) (i : ι) : World := ⟨s.groups i, s.disk⟩

/-- One of the launches of an instance, so far. -/
def Instances.Launched (s : Instances ctx) (i : ι) (launch : Launch) : Prop :=
  launch = s.launch i ∨ launch ∈ s.former i

/-- A text that the validation of one of the launches takes. -/
def Instances.Accepted (paths : ι → ProjectPaths) (s : Instances ctx) (i : ι) (text : String) : Prop :=
  ∃ launch, s.Launched i launch ∧ Accepts (within (ctx i) launch) (paths i) text

/-- The manager of an instance has got here since it was launched. -/
def Going (paths : ι → ProjectPaths) (i : ι) (launch : Launch) (found : Option (List UInt8))
    (c : Client sys ManagerOp (Manager (ctx i).glob) Outcome) (w : World) : Prop :=
  Kept (within (ctx i) launch) paths i found c w

/-- A configuration that was there first, or a text that was accepted. -/
def Whole (accepted : String → Prop) (first bytes : Option (List UInt8)) : Prop :=
  bytes = first ∨ ∃ text, bytes = some (bytesOf text) ∧ accepted text

theorem Whole.mono {accepted accepted' : String → Prop} {first bytes : Option (List UInt8)}
    (h : Whole accepted first bytes) (hmono : ∀ text, accepted text → accepted' text) :
    Whole accepted' first bytes :=
  h.imp id fun ⟨text, hbytes, htext⟩ => ⟨text, hbytes, hmono text htext⟩

theorem whole_expected {accepted : String → Prop} {first found : Option (List UInt8)} {saves : Saves}
    (hfound : Whole accepted first found) (hsaves : ∀ text, lastSaved saves = some text → accepted text) :
    Whole accepted first (expected saves found) := by
  unfold expected
  cases hlast : lastSaved saves with
  | none => exact hfound
  | some text => exact .inr ⟨text, rfl, hsaves text hlast⟩

/-- What holds of all of them together. -/
structure Good (paths : ι → ProjectPaths) (d₀ : Disk) (s : Instances ctx) : Prop where
  kept : ∀ i, Going paths i (s.launch i) (s.found i) (s.managers i) (s.world i)
  logging : ∀ i n c, s.writers (i, n) = some c → Logging paths i s.disk c
  reserved : ∀ a, Reserved (area paths a) s.disk
  whole : ∀ i, Whole (s.Accepted paths i) (content d₀ (paths i).servicesFile) (s.found i)

theorem Good.content {s : Instances ctx} (h : Good paths d₀ s) (i : ι) :
    Whole (s.Accepted paths i) (LogSlots.content d₀ (paths i).servicesFile)
      (LogSlots.content s.disk (paths i).servicesFile) := by
  obtain ⟨hcontent, haccepted, _⟩ := (h.kept i).content
  rcases hcontent with hcontent | ⟨text, _, _, haccepts, hcontent⟩
  · change LogSlots.content s.disk (paths i).servicesFile = _ at hcontent
    rw [hcontent]
    exact whole_expected (h.whole i) fun text htext => ⟨s.launch i, .inl rfl, haccepted text htext⟩
  · exact .inr ⟨text, hcontent, s.launch i, .inl rfl, haccepts⟩

end

section

variable {ι : Type} [DecidableEq ι] {ctx : ι → Context} (paths : ι → ProjectPaths)

/-- An instance ends wherever it is and is launched again. -/
def Instances.again (s : Instances ctx) (i : ι) (launch : Launch) : Instances ctx :=
  { s with
    managers := Function.update s.managers i ⟨[], .new _ (paths i), none⟩
    writers := fun a => if a.1 = i then none else s.writers a
    launch := Function.update s.launch i launch
    former := Function.update s.former i (s.launch i :: s.former i)
    found := Function.update s.found i (content s.disk (paths i).servicesFile) }

/-- A manager makes a step, a log is opened, one of its writers makes a step, an instance is
launched again, perhaps in another environment, or others do something. -/
inductive Move : Instances ctx → Option ι → Instances ctx → Prop
  | acts {s : Instances ctx} {i : ι} {c : Client sys ManagerOp (Manager (ctx i).glob) Outcome} {w : World} :
      Step answers (ManagerOp.run (within (ctx i) (s.launch i))) (s.managers i) (s.world i) c w →
      Move s (some i) { s with
        managers := Function.update s.managers i c, groups := Function.update s.groups i w.groups, disk := w.disk }
  | opens {s : Instances ctx} {i : ι} {n : Nat} {log : RotatingLogWriter} : Opened (paths i) s.disk log →
      Move s (some i) { s with writers := Function.update s.writers (i, n) (some ⟨[], log, none⟩) }
  | writes {s : Instances ctx} {i : ι} {n : Nat} {c c' : LogWriter} {w : World} : s.writers (i, n) = some c →
      Step answers write c (s.world i) c' w →
      Move s (some i) { s with writers := Function.update s.writers (i, n) (some c'), disk := w.disk }
  | restarts {s : Instances ctx} {i : ι} {launch : Launch} : Move s (some i) (s.again paths i launch)
  | others {s : Instances ctx} {groups : ι → Nat → Option Group} {disk : Disk} :
      (∀ i id, Evolves (s.groups i id) (groups i id)) → Considerate paths s.disk disk →
      Move s none { s with groups, disk }

/-- The instances begin without processes, on a disk that is there. -/
def together (ctx : ι → Context) (d₀ : Disk) : System (Instances ctx) (Option ι) where
  start := ⟨fun i => ⟨[], .new _ (paths i), none⟩, fun _ => none, fun i => ⟨(ctx i).env, (ctx i).cwd⟩, fun _ => [],
    fun i => content d₀ (paths i).servicesFile, fun _ _ => none, d₀⟩
  Step := Move paths

variable {paths} {d₀ : Disk} {i : ι}

theorem good_start (hr : ∀ i, Reserved (isFile (paths i)) d₀) : Good paths d₀ (together paths ctx d₀).start where
  kept := fun i => kept_launched (ctx i) ⟨fun _ => none, d₀⟩ ((hr i).mono fun _ => .inl)
  logging := fun _ _ _ => nofun
  reserved := area_reserved hr
  whole := fun _ => .inl rfl

theorem update_writer {writers : ι × Nat → Option LogWriter} {a b : ι × Nat} {c c' : LogWriter}
    (h : Function.update writers a (some c') b = some c) : b = a ∧ c' = c ∨ writers b = some c := by
  by_cases hb : b = a
  · subst hb
    rw [Function.update_self] at h
    exact .inl ⟨rfl, Option.some.inj h⟩
  · rw [Function.update_of_ne hb] at h
    exact .inr h

theorem Instances.Launched.again {s : Instances ctx} {k : ι} {one : Launch} (h : s.Launched k one) (i : ι)
    (launch : Launch) : (s.again paths i launch).Launched k one := by
  by_cases hk : k = i
  · subst hk
    have hformer : one ∈ s.launch k :: s.former k := List.mem_cons.mpr h
    exact .inr (by simpa [Instances.again] using hformer)
  · simpa [Instances.Launched, Instances.again, hk] using h

theorem Instances.Accepted.again {s : Instances ctx} {k : ι} {text : String} (h : s.Accepted paths k text) (i : ι)
    (launch : Launch) : (s.again paths i launch).Accepted paths k text := by
  obtain ⟨one, hone, haccepts⟩ := h
  exact ⟨one, hone.again i launch, haccepts⟩

theorem good_step {s s' : Instances ctx} {e : Option ι} (hroots : Function.Injective fun i => (paths i).root)
    (h : Good paths d₀ s) (hmove : Move paths s e s') : Good paths d₀ s' := by
  cases hmove with
  | @acts i c w hstep =>
      obtain ⟨hkept, hgrown, halone⟩ := kept_step hroots h.reserved (h.kept i) hstep
      refine ⟨fun k => ?_, fun k n c hc => (h.logging k n c hc).grown hgrown,
        fun a => (hgrown a).reserved (h.reserved a), h.whole⟩
      by_cases hk : k = i
      · subst hk
        simpa [Instances.world] using (show Going paths k (s.launch k) (s.found k) c w from hkept)
      · have hd : (undisturbed (isConfig (paths k))).drift (s.world k) ⟨s.groups k, w.disk⟩ :=
          ⟨fun _ => .refl _, halone (k, .config) hk⟩
        have hgoing : Going paths k (s.launch k) (s.found k) (s.managers k) ⟨s.groups k, w.disk⟩ :=
          (h.kept k).drift hd hgrown
        simpa [Instances.world, hk] using hgoing
  | @opens _ _ _ hopened =>
      refine ⟨h.kept, fun k m c hc => ?_, h.reserved, h.whole⟩
      rcases update_writer hc with ⟨hk, rfl⟩ | hc
      · cases hk
        exact logging_opened hroots h.reserved hopened
      · exact h.logging k m c hc
  | @writes i n c _ _ hc hstep =>
      obtain ⟨hlogging, hgrown, halone⟩ := logging_step hroots h.reserved (h.logging i n c hc) hstep
      refine ⟨fun k => ?_, fun k m c hc => ?_, fun a => (hgrown a).reserved (h.reserved a), h.whole⟩
      · exact (h.kept k).drift ⟨fun _ => .refl _, halone (k, .config) nofun⟩ hgrown
      · rcases update_writer hc with ⟨hk, rfl⟩ | hc
        · cases hk
          exact hlogging
        · exact (h.logging k m c hc).grown hgrown
  | @restarts i launch =>
      refine ⟨fun k => ?_, fun k n c hc => ?_, h.reserved, fun k => ?_⟩
      · have hlaunched : Going paths k launch (content s.disk (paths k).servicesFile)
            ⟨[], .new (ctx k).glob (paths k), none⟩ (s.world k) :=
          kept_launched (within (ctx k) launch) (s.world k) (h.reserved (k, .config))
        by_cases hk : k = i
        · subst hk
          simpa [Instances.again, Instances.world] using hlaunched
        · simpa [Instances.again, Instances.world, hk] using h.kept k
      · by_cases hk : k = i
        · simp [Instances.again, hk] at hc
        · exact h.logging k n c (by simpa [Instances.again, hk] using hc)
      · have hmono : ∀ text, s.Accepted paths k text → (s.again paths i launch).Accepted paths k text :=
          fun text htext => htext.again i launch
        have hfound : (s.again paths i launch).found k =
            Function.update s.found i (content s.disk (paths i).servicesFile) k := rfl
        by_cases hk : k = i
        · subst hk
          rw [hfound, Function.update_self]
          exact (h.content k).mono hmono
        · rw [hfound, Function.update_of_ne hk]
          exact (h.whole k).mono hmono
  | others hgroups hdisk =>
      refine ⟨fun k => ?_, fun k n c hc => (h.logging k n c hc).grown hdisk.grown,
        fun a => (hdisk.grown a).reserved (h.reserved a), h.whole⟩
      exact (h.kept k).drift ⟨hgroups k, hdisk.configs k⟩ hdisk.grown

theorem reached_good {s : Instances ctx} (hroots : Function.Injective fun i => (paths i).root)
    (hr : ∀ i, Reserved (isFile (paths i)) d₀) (h : Reached (together paths ctx d₀) (fun _ _ => True) s) :
    Good paths d₀ s :=
  h.invariant (good_start hr) fun hg _ hmove => good_step hroots hg hmove

/-- The first launch of an instance stays one of its launches. -/
theorem reached_launched {s : Instances ctx} (h : Reached (together paths ctx d₀) (fun _ _ => True) s) (i : ι) :
    s.Launched i ⟨(ctx i).env, (ctx i).cwd⟩ := by
  induction h with
  | start => exact .inl rfl
  | step _ _ hmove ih =>
      cases hmove with
      | restarts => exact ih.again _ _
      | acts _ | opens _ | writes _ _ | others _ _ => exact ih

/-- What an instance does leaves the files of the other profiles alone. -/
theorem move_apart {s s' : Instances ctx} (hroots : Function.Injective fun i => (paths i).root)
    (h : Good paths d₀ s) (hmove : Move paths s (some i) s')
    {a : ι × Part} (ha : a.1 ≠ i) : LeftAlone (area paths a) s.disk s'.disk := by
  cases hmove with
  | acts hstep => exact (kept_step hroots h.reserved (h.kept i) hstep).2.2 a ha
  | opens _ | restarts => exact .refl _
  | writes hc hstep =>
      refine (logging_step hroots h.reserved (h.logging i _ _ hc) hstep).2.2 a fun hsame => ha ?_
      exact congrArg Prod.fst hsame

end

/-- Instances whose profiles have different roots do not get in each other's way, however the
calls of their managers and of the writers of their logs fall between each other, and what
others do: the configuration of each is what it saved last itself, what it runs is what that
said when it was launched, and a call of one leaves the configuration and the logs of the
others as they are. -/
theorem profiles_apart {ι : Type} [DecidableEq ι] {ctx : ι → Context} {paths : ι → ProjectPaths} {d₀ : Disk}
    {s : Instances ctx} (hroots : Function.Injective fun i => (paths i).root)
    (hr : ∀ i, Reserved (isFile (paths i)) d₀) (h : Reached (together paths ctx d₀) (fun _ _ => True) s) (i : ι) :
    (content s.disk (paths i).servicesFile = expected (savesOf (s.managers i).trace) (s.found i) ∨
      ∃ text rest, (s.managers i).doing = some (.saveConfig text, rest) ∧
        content s.disk (paths i).servicesFile = some (bytesOf text)) ∧
    (∀ manifest, (s.managers i).state.running = some manifest →
      Adopted (ctx i) (s.found i) (s.managers i).trace manifest) ∧
    ∀ s', Move paths s (some i) s' → ∀ j, j ≠ i → ∀ p, isFile (paths j) p →
      s'.disk.names p = s.disk.names p ∧ content s'.disk p = content s.disk p := by
  have hg := reached_good hroots hr h
  obtain ⟨hcontent, _, hadopted⟩ := (hg.kept i).content
  refine ⟨hcontent.imp id ?_, fun manifest hrunning => ⟨(hadopted manifest hrunning).launched⟩,
    fun s' hmove j hj p hp => ?_⟩
  · rintro ⟨text, rest, hdoing, _, hcontent⟩
    exact ⟨text, rest, hdoing, hcontent⟩
  · have halone (part : Part) : LeftAlone (area paths (j, part)) s.disk s'.disk := move_apart hroots hg hmove hj
    rcases hp with hp | hp
    · exact ⟨(halone .config).names p hp, (halone .config).content hp⟩
    · exact ⟨(halone .logs).names p hp, (halone .logs).content hp⟩

theorem check_accepted {ctx : Context} {paths : ProjectPaths} {text : String} {r : Except ConfigError Manifest}
    {w w' : World} (hcontent : content w.disk paths.servicesFile = some (bytesOf text))
    (haccepts : Accepts ctx paths text)
    (hr : Runs ((machine false).restrict readable) (checkConfig ctx paths) w r w') : ∃ manifest, r = .ok manifest := by
  obtain ⟨manifest, hvalid⟩ := haccepts
  obtain ⟨loaded, hparse, hrest⟩ := bind_eq_ok.mp hvalid
  obtain ⟨routes, hroutes, _⟩ := bind_eq_ok.mp hrest
  rcases runs_tryThen.mp hr with ⟨err, _, hload⟩ | ⟨read, x, hload, hr⟩
  · have hok := loadManifest_content hcontent hload
    rw [hparse] at hok
    cases hok
  · have hok := loadManifest_content hcontent hload
    rw [hparse] at hok
    cases hok
    obtain ⟨rfl, _⟩ := runs_pure.mp hr
    change routesOf ctx paths loaded = .ok routes at hroutes
    rw [hroutes]
    exact ⟨loaded, rfl⟩

theorem check_runs {ctx : Context} {paths : ProjectPaths} {text : String} {w : World}
    (hcontent : content w.disk paths.servicesFile = some (bytesOf text)) :
    ∃ r w', Runs ((machine false).restrict readable) (checkConfig ctx paths) w r w' := by
  have hread : ((machine false).restrict readable).answers (.readToString paths.servicesFile) w (.ok text) w :=
    ⟨⟨Option.map_eq_some_iff.mp hcontent, rfl⟩, trivial⟩
  have hload : Runs ((machine false).restrict readable) (loadManifest ctx.toml paths.servicesFile) w
      (parseManifest ctx.toml text) w := runs_step _ _ hread (.pure (Machine.drift_refl _ _))
  cases hparse : parseManifest ctx.toml text with
  | error err => exact ⟨_, w, runs_tryThen.mpr (.inl ⟨err, rfl, hparse ▸ hload⟩)⟩
  | ok manifest =>
      exact ⟨_, w, runs_tryThen.mpr (.inr ⟨manifest, w, hparse ▸ hload, .pure (Machine.drift_refl _ _)⟩)⟩

/-- Wherever instances are killed, and launched again, perhaps in another environment: a
configuration that is there is a whole text that was accepted in one of the launches, and passes
the check of the command line there, when the one that was there first was accepted. -/
theorem config_passes_check {ι : Type} [DecidableEq ι] {ctx : ι → Context} {paths : ι → ProjectPaths} {d₀ : Disk}
    {s : Instances ctx} (hroots : Function.Injective fun i => (paths i).root)
    (hr : ∀ i, Reserved (isFile (paths i)) d₀) (h : Reached (together paths ctx d₀) (fun _ _ => True) s) (i : ι)
    (hfirst : ∀ bytes, content d₀ (paths i).servicesFile = some bytes →
      ∃ text, bytes = bytesOf text ∧ Accepts (ctx i) (paths i) text)
    (hthere : (content s.disk (paths i).servicesFile).isSome) :
    ∃ text launch, s.Launched i launch ∧ content s.disk (paths i).servicesFile = some (bytesOf text) ∧
      Accepts (within (ctx i) launch) (paths i) text ∧
      (∃ r w', Runs ((machine false).restrict readable) (checkConfig (within (ctx i) launch) (paths i)) (s.world i)
        r w') ∧
      ∀ r w', Runs ((machine false).restrict readable) (checkConfig (within (ctx i) launch) (paths i)) (s.world i)
        r w' → ∃ manifest, r = .ok manifest := by
  obtain ⟨bytes, hbytes⟩ := Option.isSome_iff_exists.mp hthere
  have hwhole : ∃ text, content s.disk (paths i).servicesFile = some (bytesOf text) ∧ s.Accepted paths i text := by
    rcases (reached_good hroots hr h).content i with hsame | haccepted
    · rw [hsame] at hbytes
      obtain ⟨text, rfl, haccepts⟩ := hfirst bytes hbytes
      exact ⟨text, hsame.trans hbytes, _, reached_launched h i, haccepts⟩
    · exact haccepted
  obtain ⟨text, hcontent, launch, hlaunched, haccepts⟩ := hwhole
  exact ⟨text, launch, hlaunched, hcontent, haccepts, check_runs hcontent, fun r w' =>
    check_accepted hcontent haccepts⟩

section

variable {ι : Type} [DecidableEq ι] {ctx : ι → Context} {paths : ι → ProjectPaths} {d₀ : Disk} {s : Instances ctx}
  {i : ι}

def Instances.acted (s : Instances ctx) (i : ι) (c : Client sys ManagerOp (Manager (ctx i).glob) Outcome) (w : World) :
    Instances ctx :=
  { s with managers := Function.update s.managers i c, groups := Function.update s.groups i w.groups, disk := w.disk }

theorem reached_acted {c c' : Client sys ManagerOp (Manager (ctx i).glob) Outcome} {w w' : World}
    (h : Reached (together paths ctx d₀) (fun _ _ => True) (s.acted i c w))
    (hstep : Step answers (ManagerOp.run (within (ctx i) (s.launch i))) c w c' w') :
    Reached (together paths ctx d₀) (fun _ _ => True) (s.acted i c' w') := by
  have hagain : s.acted i c' w' = (s.acted i c w).acted i c' w' := by
    simp [Instances.acted]
  rw [hagain]
  refine .step h trivial (.acts ?_)
  simpa [Instances.acted, Instances.world] using hstep

def Instances.perform {own : Path → Prop} (D : Driver (undisturbed own)) (s : Instances ctx) (i : ι) (op : ManagerOp) :
    Instances ctx :=
  let done := D.run (op.run (within (ctx i) (s.launch i)) (s.managers i).state) (s.world i)
  s.acted i ⟨(s.managers i).trace ++ [(op, done.1.2)], done.1.1, none⟩ done.2

theorem reached_perform {own : Path → Prop} {D : Driver (undisturbed own)} (op : ManagerOp)
    (hinside : D.inside (s.world i)) (hidle : (s.managers i).doing = none)
    (h : Reached (together paths ctx d₀) (fun _ _ => True) s) :
    Reached (together paths ctx d₀) (fun _ _ => True) (s.perform D i op) := by
  have hself : s.acted i (s.managers i) (s.world i) = s := by
    simp [Instances.acted, Instances.world]
  have hmanager : s.managers i = ⟨(s.managers i).trace, (s.managers i).state, none⟩ := by
    rw [← hidle]
  rw [← hself, hmanager] at h
  exact driver_steps D (I := fun c w => Reached (together paths ctx d₀) (fun _ _ => True) (s.acted i c w)) reached_acted
    hinside (reached_acted h (.ask op))

end

def twoProfiles : Bool → ProjectPaths
  | true => profile
  | false => ⟨parse "/q", rfl⟩

def quiet : Driver (undisturbed (isConfig profile)) := steady _ fun _ => false

def oneSaved : Instances fun _ : Bool => externalContext :=
  (together twoProfiles (fun _ => externalContext) emptyWorld.disk).start.perform quiet true
    (.saveConfig ServiceStates.externalText)

def bothSaved : Instances fun _ : Bool => externalContext := oneSaved.perform quiet false (.saveConfig "")

theorem bothSaved_reached :
    Reached (together twoProfiles (fun _ => externalContext) emptyWorld.disk) (fun _ _ => True) bothSaved :=
  reached_perform _ trivial rfl (reached_perform _ trivial rfl .start)

theorem twoProfiles_apart : Function.Injective fun i => (twoProfiles i).root := by
  have hroots : ∀ i j, (twoProfiles i).root = (twoProfiles j).root → i = j := by decide
  exact fun i j => hroots i j

theorem reserved_empty (own : Path → Prop) : Reserved own emptyWorld.disk := ⟨nofun, nofun⟩

theorem profiles_apart_saved :
    content bothSaved.disk profile.servicesFile = some (bytesOf ServiceStates.externalText) := by
  have hsaved : expected (savesOf (bothSaved.managers true).trace) (bothSaved.found true) =
      some (bytesOf ServiceStates.externalText) := by
    decide +kernel
  rcases (profiles_apart twoProfiles_apart (fun _ => reserved_empty _) bothSaved_reached true).1 with h | h
  · exact h.trans hsaved
  · obtain ⟨_, _, hdoing, _⟩ := h
    cases hdoing

def elsewhere : Launch := ⟨collect [("PORT", "3000")], none⟩

/-- The first is killed and launched again. -/
def relaunched : Instances fun _ : Bool => externalContext := bothSaved.again twoProfiles true elsewhere

theorem config_passes_check_relaunched : ∃ launch, relaunched.Launched true launch ∧
    Accepts (within externalContext launch) profile ServiceStates.externalText ∧
    ∃ manifest w', Runs ((machine false).restrict readable) (checkConfig (within externalContext launch) profile)
      (relaunched.world true) (.ok manifest) w' := by
  have hreached : Reached (together twoProfiles (fun _ => externalContext) emptyWorld.disk) (fun _ _ => True)
      relaunched := .step bothSaved_reached trivial .restarts
  have hsaved : content relaunched.disk profile.servicesFile = some (bytesOf ServiceStates.externalText) := by
    decide +kernel
  obtain ⟨text, launch, hlaunched, hcontent, haccepts, ⟨r, w', hcheck⟩, hpasses⟩ :=
    config_passes_check twoProfiles_apart (fun _ => reserved_empty _) hreached true (fun _ => nofun)
      (Option.isSome_of_eq_some hsaved)
  obtain ⟨manifest, rfl⟩ := hpasses r w' hcheck
  have htext : text = ServiceStates.externalText := bytesOf_inj (Option.some.inj (hcontent.symm.trans hsaved))
  exact ⟨launch, hlaunched, htext ▸ haccepts, manifest, w', hcheck⟩

end LocalDevProxy.Profiles
