import LocalDevProxy.ManagerFiles
import LocalDevProxy.SavedConfig

namespace LocalDevProxy.SavedStart

open Lib.Interaction Lib.Policies Text Paths Toml Config Routes Os LogRotation LogFamilies LogSlots Process Listen
  ManagerCore ManagerSteps Lifecycle SavedConfig FileOwners ManagerFiles Survivors

/-- The configuration of a profile and the name it has while it is written. -/
def isConfig (paths : ProjectPaths) (p : Path) : Prop :=
  p = pushText paths.servicesFile ".tmp" ∨ p = paths.servicesFile

/-- The temporary file lies beside the configuration. -/
theorem temporary_eq (paths : ProjectPaths) :
    pushText paths.servicesFile ".tmp" = paths.root.child temporaryName := by
  have hfile : paths.servicesFile = paths.root.child configName := paths.root.join_name configName
  have hanchor : paths.root.anchor = .root := by simpa [Path.isRelative] using paths.isAbsolute
  have hdisplay (n : Name) : (paths.root.child n).display =
      "/" ++ "/".intercalate (paths.root.names.map Name.text ++ [n.text]) := by
    rw [Path.display, Path.child, hanchor, List.map_append, List.map_singleton]
  have htext : configName.text ++ ".tmp" = temporaryName.text := by decide
  have hpushed : (paths.root.child configName).display ++ ".tmp" = (paths.root.child temporaryName).display := by
    rw [hdisplay, hdisplay, ← htext]
    by_cases hnames : paths.root.names.map Name.text = []
    · rw [hnames, List.nil_append, List.nil_append, String.intercalate_singleton, String.intercalate_singleton,
        String.append_assoc]
    · rw [String.intercalate_append_of_ne_nil hnames (List.cons_ne_nil _ _),
        String.intercalate_append_of_ne_nil hnames (List.cons_ne_nil _ _),
        String.intercalate_singleton, String.intercalate_singleton]
      simp only [String.append_assoc]
  rw [pushText, hfile, hpushed, parse_display]
  exact paths.isAbsolute

/-- The names of the configuration, in the directory of the profile. -/
theorem isConfig_child {paths : ProjectPaths} {p : Path} (h : isConfig paths p) :
    p = paths.root.child temporaryName ∨ p = paths.root.child configName := by
  rcases h with rfl | rfl
  · exact .inl (temporary_eq paths)
  · exact .inr (paths.root.join_name configName)

/-- A path whose last name ends in another letter than the configuration does. -/
theorem not_config {paths : ProjectPaths} {p : Path} {n : Name} {c : Char} (hlast : p.names.getLast? = some n)
    (hc : n.text.toList.getLast? = some c) (hl : c ≠ 'l') (hp : c ≠ 'p') : ¬ isConfig paths p := by
  intro hconfig
  rcases isConfig_child hconfig with rfl | rfl
  · rw [Path.child, List.getLast?_concat] at hlast
    cases hlast
    exact hp (Option.some.inj (hc.symm.trans (by decide)))
  · rw [Path.child, List.getLast?_concat] at hlast
    cases hlast
    exact hl (Option.some.inj (hc.symm.trans (by decide)))

/-- No log of a profile has the last name that a configuration has. -/
theorem logs_clear (config paths : ProjectPaths) : LogsClear (isConfig config) paths := by
  rintro limits name hplain p (rfl | ⟨index, _, rfl⟩)
  · have hlog : ".log".toList = ['.', 'l', 'o', 'g'] := rfl
    rw [serviceLog_eq hplain]
    refine not_config (n := activeName hplain) (c := 'g') ?_ ?_ (by decide) (by decide)
    · rw [Path.child, List.getLast?_concat]
    · change (name ++ ".log").toList.getLast? = some 'g'
      rw [String.toList_append, hlog, List.getLast?_append]
      rfl
  · -- The name of a backup ends in a digit, or in the dot in front of its digits.
    have hdigits : '.' :: (decimal index).toList ≠ [] := List.cons_ne_nil _ _
    have hne {c : Char} (hdot : c ≠ '.') (hdigit : c.isDigit = false) :
        ('.' :: (decimal index).toList).getLast hdigits ≠ c := by
      intro hsame
      have hmem := List.getLast_mem hdigits
      rw [hsame] at hmem
      rcases List.mem_cons.mp hmem with hd | hd
      · exact hdot hd
      · exact not_mem_decimal hdigit index hd
    rw [LogFamilies.backupPath_eq hplain]
    refine not_config (n := LogFamilies.backupName hplain index) ?_ ?_ (hne (by decide) rfl) (hne (by decide) rfl)
    · rw [Path.child, List.getLast?_concat]
    · have hname : name ++ (".log." ++ decimal index) = (name ++ ".log") ++ ("." ++ decimal index) := by
        have hsplit : ".log." = ".log" ++ "." := rfl
        rw [hsplit, String.append_assoc, String.append_assoc]
      have hend : ("." ++ decimal index).toList = '.' :: (decimal index).toList := by
        rw [String.toList_append]
        rfl
      change (name ++ (".log." ++ decimal index)).toList.getLast? = _
      rw [hname, String.toList_append, List.getLast?_append, hend, List.getLast?_eq_getLast_of_ne_nil hdigits]
      rfl

theorem reserved_apart {paths : ProjectPaths} {d : Disk} (h : Reserved (isConfig paths) d) :
    Apart (pushText paths.servicesFile ".tmp") paths.servicesFile d where
  bounded := fun p file _ hfile => h.bounded p file hfile
  distinct := fun file hfile htemporary =>
    temporary_ne paths (h.alone _ _ file (.inr rfl) hfile htemporary)

section

variable {paths : ProjectPaths} {text : String} {w w' : World}

structure Stored (paths : ProjectPaths) (bytes : Option (List UInt8)) (w : World) : Prop where
  reserved : Reserved (isConfig paths) w.disk
  content : content w.disk paths.servicesFile = bytes

variable {bytes : Option (List UInt8)}

theorem Stored.leftAlone (h : Stored paths bytes w) (ha : LeftAlone (isConfig paths) w.disk w'.disk) :
    Stored paths bytes w' :=
  ⟨ha.reserved h.reserved, (ha.content (.inr rfl)).trans h.content⟩

theorem Stored.drift (h : Stored paths bytes w) (hd : (undisturbed (isConfig paths)).drift w w') :
    Stored paths bytes w' :=
  h.leftAlone hd.2

/-- What may come of writing the temporary file. -/
theorem writeFile_stored {b : Except IoError Unit} (h : Stored paths bytes w)
    (ha : (undisturbed (isConfig paths)).answers (.writeFile (pushText paths.servicesFile ".tmp") text) w b w') :
    Stored paths bytes w' ∧
      (b = .ok () → LogSlots.content w'.disk (pushText paths.servicesFile ".tmp") = some (bytesOf text)) := by
  obtain ⟨_, hsame, htemporary⟩ := writeFile_answer (temporary_ne paths) (reserved_apart h.reserved) ha
  have hstored (bytes : List UInt8) : Reserved (isConfig paths)
      ((w.disk.create (pushText paths.servicesFile ".tmp")).1.store
        (w.disk.create (pushText paths.servicesFile ".tmp")).2 bytes) :=
    (grown_store _ _ bytes).reserved (reserved_create h.reserved _)
  refine ⟨⟨?_, hsame.trans h.content⟩, htemporary⟩
  cases b with
  | ok _ =>
      obtain rfl : w' = _ := ha
      exact hstored _
  | error err =>
      rcases ha with rfl | ⟨n, rfl⟩
      · exact h.reserved
      · exact hstored _

theorem rename_stored {b : Except IoError Unit} (h : Stored paths bytes w)
    (htemporary : LogSlots.content w.disk (pushText paths.servicesFile ".tmp") = some (bytesOf text))
    (ha : (undisturbed (isConfig paths)).answers (.rename (pushText paths.servicesFile ".tmp") paths.servicesFile)
      w b w') :
    b = .ok () ∧ Stored paths (some (bytesOf text)) w' ∨ (∃ err, b = .error err) ∧ Stored paths bytes w' := by
  have hrename := (rename_answer (temporary_ne paths) (reserved_apart h.reserved) ha).2
  have hreserved : Reserved (isConfig paths) w'.disk := by
    cases b with
    | ok _ =>
        obtain ⟨_, rfl⟩ := ha
        exact reserved_move h.reserved fun _ => .inl rfl
    | error err =>
        obtain rfl : w' = w := ha
        exact h.reserved
  rcases hrename with ⟨hb, hmoved⟩ | ⟨hb, hsame⟩
  · exact .inl ⟨hb, hreserved, hmoved.trans htemporary⟩
  · exact .inr ⟨hb, hreserved, hsame.trans h.content⟩

/-- A save that succeeds has replaced the text, and one that fails has left it. -/
theorem writeAtomically_stored {r : Except ManagerError Unit} (h : Stored paths bytes w)
    (hr : Runs (undisturbed (isConfig paths)) (writeAtomically paths.servicesFile text) w r w') :
    r = .ok () ∧ Stored paths (some (bytesOf text)) w' ∨ (∃ err, r = .error err) ∧ Stored paths bytes w' := by
  obtain ⟨b, x, htry, hr⟩ := runs_bind.mp hr
  obtain ⟨rfl, hd⟩ := runs_pure.mp hr
  rcases runs_tryThen.mp htry with ⟨err, rfl, hwrite⟩ | ⟨_, y, hwrite, hrename⟩
  · obtain ⟨_, _, hd₁, ha, hd₂⟩ := runs_perform.mp hwrite
    have hs := (writeFile_stored (h.drift hd₁) ha).1
    exact .inr ⟨⟨_, rfl⟩, (hs.drift hd₂).drift hd⟩
  · obtain ⟨_, _, hd₁, ha, hd₂⟩ := runs_perform.mp hwrite
    obtain ⟨hs, htemporary⟩ := writeFile_stored (h.drift hd₁) ha
    obtain ⟨_, _, hd₃, ha', hd₄⟩ := runs_perform.mp hrename
    have htemporary := (hd₃.2.content (.inl rfl)).trans ((hd₂.2.content (.inl rfl)).trans (htemporary rfl))
    rcases rename_stored ((hs.drift hd₂).drift hd₃) htemporary ha' with ⟨rfl, hs⟩ | ⟨⟨err, rfl⟩, hs⟩
    · exact .inl ⟨rfl, (hs.drift hd₄).drift hd⟩
    · exact .inr ⟨⟨_, rfl⟩, (hs.drift hd₄).drift hd⟩

/-- At each moment of a save the configuration is what it was or all of the text. -/
theorem writeAtomically_moments {v : World} (h : Stored paths bytes w)
    (hv : Visits (undisturbed (isConfig paths)) (writeAtomically paths.servicesFile text) w v) :
    Stored paths bytes v ∨ Stored paths (some (bytesOf text)) v := by
  rcases visits_call.mp hv with hd | ⟨_, b, _, hd, ha, hv⟩
  · exact .inl (h.drift hd)
  · obtain ⟨hs, htemporary⟩ := writeFile_stored (h.drift hd) ha
    cases b with
    | error err => exact .inl (hs.drift (visits_pure.mp hv))
    | ok _ =>
        rcases visits_call.mp hv with hd' | ⟨_, b', _, hd', ha', hv⟩
        · exact .inl (hs.drift hd')
        · have htemporary := (hd'.2.content (.inl rfl)).trans (htemporary rfl)
          have hend := visits_pure.mp hv
          rcases rename_stored (hs.drift hd') htemporary ha' with ⟨_, hs⟩ | ⟨_, hs⟩
          · exact .inr (hs.drift hend)
          · exact .inl (hs.drift hend)

def Accepts (ctx : Context) (paths : ProjectPaths) (text : String) : Prop :=
  ∃ manifest, (Manager.new ctx.glob paths).validateConfig ctx text = .ok manifest

variable {ctx : Context} {m : Manager ctx.glob}

theorem saveConfig_stored {r : Except ManagerError Unit} (h : Stored m.paths bytes w)
    (hr : Runs (undisturbed (isConfig m.paths)) (m.saveConfig ctx text) w r w') :
    r = .ok () ∧ Accepts ctx m.paths text ∧ Stored m.paths (some (bytesOf text)) w' ∨
      (∃ err, r = .error err) ∧ Stored m.paths bytes w' := by
  unfold Manager.saveConfig at hr
  split at hr
  · obtain ⟨rfl, hd⟩ := runs_pure.mp hr
    exact .inr ⟨⟨_, rfl⟩, h.drift hd⟩
  · rename_i manifest hvalid
    exact (writeAtomically_stored h hr).imp_left fun hs => ⟨hs.1, ⟨manifest, hvalid⟩, hs.2⟩

theorem saveConfig_moments {v : World} (h : Stored m.paths bytes w)
    (hv : Visits (undisturbed (isConfig m.paths)) (m.saveConfig ctx text) w v) :
    Stored m.paths bytes v ∨ Accepts ctx m.paths text ∧ Stored m.paths (some (bytesOf text)) v := by
  unfold Manager.saveConfig at hv
  split at hv
  · exact .inl (h.drift (visits_pure.mp hv))
  · rename_i manifest hvalid
    exact (writeAtomically_moments h hv).imp_right fun hs => ⟨⟨manifest, hvalid⟩, hs⟩

/-- What is loaded is what is stored. -/
theorem loadManifest_stored {toml : Reader} {manifest : Manifest} (h : Stored paths bytes w)
    (hr : Runs (undisturbed (isConfig paths)) (loadManifest toml paths.servicesFile) w (.ok manifest) w') :
    ∃ text, bytes = some (bytesOf text) ∧ parseManifest toml text = .ok manifest := by
  obtain ⟨got, x, hread, hr⟩ := runs_bind.mp hr
  obtain ⟨u, v, hd, ha, _⟩ := runs_perform.mp hread
  cases got with
  | error err =>
      dsimp only at hr
      split at hr
      · cases (runs_pure.mp hr).1
      · cases (runs_pure.mp hr).1
  | ok text =>
      obtain ⟨⟨file, hfile, hdata⟩, _⟩ := ha
      refine ⟨text, ?_, (runs_pure.mp hr).1.symm⟩
      rw [← (h.drift hd).content, LogSlots.content, hfile, Option.map_some, hdata]

end

def saveOf : ManagerOp × Outcome → Option (String × Except ManagerError Unit)
  | (.saveConfig text, .done r) => some (text, r)
  | _ => none

/-- The saves among the operations of a session. -/
def savesOf (trace : List (ManagerOp × Outcome)) : Saves := trace.filterMap saveOf

def launches : ManagerOp × Outcome → Bool
  | (_, .started (.ok _)) | (_, .applied (.ok _)) => true
  | _ => false

/-- The manifest is that of the text that was saved last before the last launch. -/
structure Adopted (ctx : Context) (initial : Option (List UInt8)) (trace : List (ManagerOp × Outcome))
    (manifest : Manifest) : Prop where
  launched : ∃ before entry after text, trace = before ++ entry :: after ∧ launches entry = true ∧
    (∀ later ∈ after, launches later = false) ∧ expected (savesOf before) initial = some (bytesOf text) ∧
      parseManifest ctx.toml text = .ok manifest

section

variable {ctx : Context} {initial : Option (List UInt8)} {trace : List (ManagerOp × Outcome)} {manifest : Manifest}

theorem Adopted.later (h : Adopted ctx initial trace manifest) {entry : ManagerOp × Outcome}
    (hentry : launches entry = false) : Adopted ctx initial (trace ++ [entry]) manifest := by
  obtain ⟨before, launch, after, text, rfl, hlaunch, hafter, hrest⟩ := h.launched
  refine ⟨before, launch, after ++ [entry], text, by simp, hlaunch, ?_, hrest⟩
  intro later hlater
  rcases List.mem_append.mp hlater with hlater | hlater
  · exact hafter later hlater
  · rw [List.mem_singleton.mp hlater]
    exact hentry

theorem adopted_now {entry : ManagerOp × Outcome} {text : String} (hentry : launches entry = true)
    (htext : expected (savesOf trace) initial = some (bytesOf text))
    (hparse : parseManifest ctx.toml text = .ok manifest) : Adopted ctx initial (trace ++ [entry]) manifest :=
  ⟨trace, entry, [], text, rfl, hentry, nofun, htext, hparse⟩

variable {paths : ProjectPaths} {m m' : Manager ctx.glob} {w w' : World}

/-- What holds between the operations of a session. -/
structure Tracked (ctx : Context) (paths : ProjectPaths) (initial : Option (List UInt8))
    (trace : List (ManagerOp × Outcome)) (m : Manager ctx.glob) (w : World) : Prop where
  paths_eq : m.paths = paths
  sound : Sound ctx m
  stored : Stored paths (expected (savesOf trace) initial) w
  accepted : ∀ text, lastSaved (savesOf trace) = some text → Accepts ctx paths text
  adopted : ∀ manifest, m.running = some manifest → Adopted ctx initial trace manifest

theorem Tracked.loaded (ht : Tracked ctx paths initial trace m w) (manifest : Manifest)
    (hm : m.running = some manifest) : Loaded ctx manifest := by
  obtain ⟨_, _, _, text, _, _, _, _, hparse⟩ := (ht.adopted manifest hm).launched
  exact ⟨text, hparse⟩

theorem stopIfRunning_halts (hi : Sound ctx m) {own : Path → Prop}
    (h : Runs (undisturbed own) m.stopIfRunning w m' w') : m'.running = none := by
  obtain ⟨hsound, hproxy⟩ := stopIfRunning_sound hi (runs_anyhow h)
  have hiff := hsound.running_iff
  rw [hproxy] at hiff
  simpa using hiff

/-- A start that succeeds runs what is stored, and one that fails runs nothing. -/
theorem start_stored {bytes : Option (List UInt8)} {r : Except ManagerError Manifest} (hi : Sound ctx m)
    (hs : Stored m.paths bytes w) (h : Runs (undisturbed (isConfig m.paths)) (m.start ctx) w (m', r) w') :
    (∃ manifest text, r = .ok manifest ∧ m'.running = some manifest ∧ bytes = some (bytesOf text) ∧
      parseManifest ctx.toml text = .ok manifest) ∨ (∃ err, r = .error err) ∧ m'.running = none := by
  obtain ⟨m₁, w₁, hstop, h⟩ := start_run h
  have hnone := stopIfRunning_halts hi hstop
  have hpaths := (stopIfRunning_paths hstop).1
  have hs₁ := hs.leftAlone (spares_run (stopIfRunning_spares m) hs.reserved hstop)
  rcases h with ⟨err, _, rfl, rfl⟩ | ⟨manifest, w₂, hload, hbegun⟩
  · exact .inr ⟨⟨_, rfl⟩, hnone⟩
  · rw [hpaths] at hload
    obtain ⟨text, hbytes, hparse⟩ := loadManifest_stored hs₁ hload
    cases hbegun with
    | unroutable err _ _ => exact .inr ⟨⟨_, rfl⟩, hnone⟩
    | unprepared _ err _ _ => exact .inr ⟨⟨_, rfl⟩, hnone⟩
    | served _ _ _ _ hserved =>
        cases hserved with
        | bound _ _ _ _ _ _ _ _ => exact .inl ⟨manifest, text, rfl, rfl, hbytes, hparse⟩
        | unbound _ _ _ err _ _ _ _ hstop =>
            obtain ⟨_, _, _, _, rfl⟩ := stop_run hstop
            exact .inr ⟨⟨_, rfl⟩, rfl⟩

/-- The configuration after one operation more. -/
theorem op_stored {op : ManagerOp} {o : Outcome} (ht : Tracked ctx paths initial trace m w)
    (h : Runs (undisturbed (isConfig paths)) (op.run ctx m) w (m', o) w') :
    Stored paths (expected (savesOf (trace ++ [(op, o)])) initial) w' ∧
      ∀ text, lastSaved (savesOf (trace ++ [(op, o)])) = some text → Accepts ctx paths text := by
  by_cases hop : ∃ text, op = .saveConfig text
  · obtain ⟨text, rfl⟩ := hop
    obtain ⟨r, x, hsave, h⟩ := runs_bind.mp h
    obtain ⟨he, hd⟩ := runs_pure.mp h
    cases he
    have hsaves : savesOf (trace ++ [(.saveConfig text, .done r)]) = savesOf trace ++ [(text, r)] := by
      simp [savesOf, saveOf]
    obtain rfl := ht.paths_eq
    rw [hsaves, expected]
    rcases saveConfig_stored ht.stored hsave with ⟨rfl, haccepts, hs⟩ | ⟨⟨err, rfl⟩, hs⟩
    · rw [lastSaved_ok]
      refine ⟨hs.drift hd, ?_⟩
      rintro _ ⟨⟩
      exact haccepts
    · rw [lastSaved_error]
      exact ⟨hs.drift hd, ht.accepted⟩
  · have hne : ∀ text, op ≠ .saveConfig text := fun text he => hop ⟨text, he⟩
    have hsaves : savesOf (trace ++ [(op, o)]) = savesOf trace := by
      have hnone : saveOf (op, o) = none := by
        cases op with
        | saveConfig text => exact absurd rfl (hne text)
        | start | apply | stop | startService | stopService | restartService | tick => rfl
      simp [savesOf, hnone]
    have hspares : Spares (isConfig paths) (op.run ctx m) :=
      op_spares ht.sound ht.loaded (logs_clear paths m.paths) hne
    rw [hsaves]
    exact ⟨ht.stored.leftAlone (spares_run hspares ht.stored.reserved h), ht.accepted⟩

theorem onService_running {action : ServiceManager → Io (ServiceManager × Except ServiceError Unit)}
    {r : Except ManagerError Unit} {M : Machine sys World} (h : Runs M (m.onService action) w (m', r) w') :
    m'.running = m.running := by
  rcases onService_run h with ⟨_, _, _, _, _, _, rfl⟩ | ⟨rfl, _, _⟩
  · rfl
  · rfl

/-- A start, on its own or in an apply, is what puts another configuration in place. -/
theorem start_adopted {r : Except ManagerError Manifest} {entry : ManagerOp × Outcome}
    (ht : Tracked ctx paths initial trace m w)
    (h : Runs (undisturbed (isConfig paths)) (m.start ctx) w (m', r) w')
    (hentry : ∀ manifest, r = .ok manifest → launches entry = true) :
    ∀ manifest, m'.running = some manifest → Adopted ctx initial (trace ++ [entry]) manifest := by
  intro manifest hrunning
  obtain rfl := ht.paths_eq
  rcases start_stored ht.sound ht.stored h with ⟨started, text, hr, hstarted, hbytes, hparse⟩ | ⟨_, hnone⟩
  · rw [hstarted] at hrunning
    cases hrunning
    exact adopted_now (hentry _ hr) hbytes hparse
  · rw [hnone] at hrunning
    cases hrunning

theorem apply_adopted {r : Except ManagerError Applied} (ht : Tracked ctx paths initial trace m w)
    (h : Runs (undisturbed (isConfig paths)) (m.apply ctx) w (m', r) w') :
    ∀ manifest, m'.running = some manifest →
      Adopted ctx initial (trace ++ [(.apply, .applied r)]) manifest := by
  cases apply_run h with
  | started _ hstart =>
      apply start_adopted ht hstart
      rintro started rfl
      rfl
  | unloaded _ err _ _ => exact fun manifest hrunning => (ht.adopted manifest hrunning).later rfl
  | unchanged running hsame hload =>
      intro manifest hrunning
      rw [hsame] at hrunning
      cases hrunning
      rw [ht.paths_eq] at hload
      obtain ⟨text, hbytes, hparse⟩ := loadManifest_stored ht.stored hload
      exact adopted_now rfl hbytes hparse
  | restarted _ _ _ _ hload hstart =>
      have hspared := spares_run (aside_spares (loadManifest_aside _ _)) ht.stored.reserved hload
      refine start_adopted ⟨ht.paths_eq, ht.sound, ht.stored.leftAlone hspared, ht.accepted, ht.adopted⟩ hstart ?_
      rintro started rfl
      rfl

theorem tracked_step {op : ManagerOp} {o : Outcome} (ht : Tracked ctx paths initial trace m w)
    (h : Runs (undisturbed (isConfig paths)) (op.run ctx m) w (m', o) w') :
    Tracked ctx paths initial (trace ++ [(op, o)]) m' w' := by
  obtain ⟨hstored, haccepted⟩ := op_stored ht h
  refine ⟨(h.yields (op_keeps op m)).trans ht.paths_eq, op_sound ht.sound (runs_anyhow h), hstored, haccepted, ?_⟩
  have hlater {o : Outcome} (hrunning : m'.running = m.running) (hentry : launches (op, o) = false) :
      ∀ manifest, m'.running = some manifest → Adopted ctx initial (trace ++ [(op, o)]) manifest := by
    rw [hrunning]
    exact fun manifest hm => (ht.adopted manifest hm).later hentry
  cases op with
  | start =>
      obtain ⟨r, hr, rfl⟩ := labelled_run h
      apply start_adopted ht hr
      rintro started rfl
      rfl
  | apply =>
      obtain ⟨r, hr, rfl⟩ := labelled_run h
      exact apply_adopted ht hr
  | stop =>
      obtain ⟨m₁, x, hstop, h⟩ := runs_bind.mp h
      obtain ⟨he, _⟩ := runs_pure.mp h
      cases he
      obtain ⟨_, _, _, _, rfl⟩ := stop_run hstop
      exact fun _ => nofun
  | startService name =>
      obtain ⟨r, hr, rfl⟩ := labelled_run h
      exact hlater (onService_running hr) rfl
  | stopService name =>
      obtain ⟨r, hr, rfl⟩ := labelled_run h
      exact hlater (onService_running hr) rfl
  | restartService name =>
      obtain ⟨r, hr, rfl⟩ := labelled_run h
      exact hlater (onService_running hr) rfl
  | saveConfig text =>
      obtain ⟨r, x, _, h⟩ := runs_bind.mp h
      obtain ⟨he, _⟩ := runs_pure.mp h
      cases he
      exact hlater rfl rfl
  | tick =>
      obtain ⟨m₁, x, htick, h⟩ := runs_bind.mp h
      obtain ⟨he, _⟩ := runs_pure.mp h
      cases he
      have hsame : (monitorTick m).Yields fun m₁ => m₁.running = m.running := by
        unfold monitorTick
        cases m.services with
        | none => rfl
        | some services => exact Prog.yields_then _ fun _ => rfl
      exact hlater (htick.yields hsame) rfl

theorem session_tracked {w₀ : World} (hr : Reserved (isConfig paths) w₀.disk)
    (h : Session (undisturbed (isConfig paths)) (ManagerOp.run ctx) (.new ctx.glob paths) w₀ trace m w) :
    Tracked ctx paths (content w₀.disk paths.servicesFile) trace m w := by
  refine h.invariant (Tracked ctx paths (content w₀.disk paths.servicesFile)) (fun v hd => ?_)
    fun _ _ _ _ _ _ _ ht hr => tracked_step ht hr
  exact ⟨rfl, new_sound ctx paths, Stored.drift ⟨hr, rfl⟩ hd, fun _ => nofun, fun _ => nofun⟩

/-- At each moment of an operation the configuration is what it was, or all that is saved. -/
theorem moment_content {op : ManagerOp} {v : World} (ht : Tracked ctx paths initial trace m w)
    (hv : Visits (undisturbed (isConfig paths)) (op.run ctx m) w v) :
    content v.disk paths.servicesFile = expected (savesOf trace) initial ∨
      ∃ text, op = .saveConfig text ∧ Accepts ctx paths text ∧
        content v.disk paths.servicesFile = some (bytesOf text) := by
  by_cases hop : ∃ text, op = .saveConfig text
  · obtain ⟨text, rfl⟩ := hop
    obtain rfl := ht.paths_eq
    have hmoment : Stored m.paths (expected (savesOf trace) initial) v ∨
        Accepts ctx m.paths text ∧ Stored m.paths (some (bytesOf text)) v := by
      rcases visits_bind hv with hv | ⟨r, x, hsave, hv⟩
      · exact saveConfig_moments ht.stored hv
      · have hd := visits_pure.mp hv
        exact (saveConfig_moments ht.stored hsave.visits).imp (·.drift hd) fun hs => ⟨hs.1, hs.2.drift hd⟩
    exact hmoment.imp (·.content) fun hs => ⟨text, rfl, hs.1, hs.2.content⟩
  · have hspares : Spares (isConfig paths) (op.run ctx m) :=
      op_spares ht.sound ht.loaded (logs_clear paths m.paths) fun text he => hop ⟨text, he⟩
    exact .inl ((ht.stored.leftAlone (spares_visits hspares ht.stored.reserved hv)).content)

end

/-- Whatever the manager is asked for and whatever fails on the way, where others leave the
configuration alone: it holds the text of the last save that succeeded, at every moment of
the next operation too, unless that is a save, which puts all of its text there at once; and
what runs is what that text said at the last start or apply that succeeded, with its routes
and its services. -/
theorem runs_what_was_saved {ctx : Context} {paths : ProjectPaths} {trace : List (ManagerOp × Outcome)}
    {m : Manager ctx.glob} {w₀ w : World} (hr : Reserved (isConfig paths) w₀.disk)
    (h : Session (undisturbed (isConfig paths)) (ManagerOp.run ctx) (.new ctx.glob paths) w₀ trace m w) :
    (∀ (op : ManagerOp) v, Visits (undisturbed (isConfig paths)) (op.run ctx m) w v →
      content v.disk paths.servicesFile = expected (savesOf trace) (content w₀.disk paths.servicesFile) ∨
        ∃ text, op = .saveConfig text ∧ content v.disk paths.servicesFile = some (bytesOf text)) ∧
    ∀ manifest, m.running = some manifest →
      Adopted ctx (content w₀.disk paths.servicesFile) trace manifest ∧
        ∃ services proxy, m.services = some services ∧ m.proxy = some proxy ∧
          BuiltFrom ctx m manifest services proxy := by
  have ht := session_tracked hr h
  refine ⟨fun op v hv => ?_, fun manifest hm => ⟨ht.adopted manifest hm, ht.sound.built manifest hm⟩⟩
  apply (moment_content ht hv).imp id
  rintro ⟨text, hop, _, hcontent⟩
  exact ⟨text, hop, hcontent⟩

def quietDriver : Driver (undisturbed (isConfig profile)) := steady _ fun _ => false

def savedRun : (Manager externalContext.glob × Outcome) × World :=
  quietDriver.run (ManagerOp.run externalContext (.saveConfig ServiceStates.externalText) freshManager) halfWritten

def startedRun : (Manager externalContext.glob × Outcome) × World :=
  quietDriver.run (ManagerOp.run externalContext .start savedRun.1.1) savedRun.2

theorem started_session : Session (undisturbed (isConfig profile)) (ManagerOp.run externalContext)
    (.new externalContext.glob profile) halfWritten
    [(.saveConfig ServiceStates.externalText, savedRun.1.2), (.start, startedRun.1.2)] startedRun.1.1 startedRun.2 :=
  .step (.single (quietDriver.runs _ trivial).1) (quietDriver.runs _ trivial).1

theorem runs_what_was_saved_started :
    Adopted externalContext none
      [(.saveConfig ServiceStates.externalText, savedRun.1.2), (.start, startedRun.1.2)]
      ServiceStates.externalManifest := by
  have hrunning : startedRun.1.1.running = some ServiceStates.externalManifest := by decide +kernel
  exact ((runs_what_was_saved (reserved_single _ _ _) started_session).2 _ hrunning).1

end LocalDevProxy.SavedStart
