import LocalDevProxy.Lifecycle
import LocalDevProxy.LogSlots
import LocalDevProxy.ManagerCore
import LocalDevProxy.Steady

namespace LocalDevProxy.SavedConfig

open Lib.Interaction Lib.Fallible Paths Toml Config Os LogSlots ManagerCore

/-- The temporary name is not a second one of the destination, whose file is not a new one. -/
structure Apart (temporary destination : Path) (d : Disk) : Prop where
  bounded : ∀ path file, path = temporary ∨ path = destination → d.names path = some file → file < d.next
  distinct : ∀ file, d.names destination = some file → d.names temporary ≠ some file

section

variable {temporary destination : Path} {d : Disk}

structure Written (temporary destination : Path) (bytes : List UInt8) (d d' : Disk) : Prop where
  apart : Apart temporary destination d'
  destination : content d' destination = content d destination
  temporary : content d' temporary = some bytes

theorem written (hne : temporary ≠ destination) (h : Apart temporary destination d) (bytes : List UInt8) :
    Written temporary destination bytes d ((d.create temporary).1.store (d.create temporary).2 bytes) := by
  cases hnames : d.names temporary with
  | some file =>
      rw [create_present hnames]
      refine ⟨⟨h.bounded, h.distinct⟩, ?_, ?_⟩
      · cases hdest : d.names destination with
        | none => simp [content, Disk.store, hdest]
        | some other =>
            have hother : other ≠ file := fun hsame => h.distinct other hdest (hsame ▸ hnames)
            simp [content, Disk.store, hdest, hother]
      · simp [content, Disk.store, hnames]
  | none =>
      rw [create_vacant hnames]
      have hold : ∀ file, d.names destination = some file → file ≠ d.next := fun file hfile =>
        Nat.ne_of_lt (h.bounded destination file (.inr rfl) hfile)
      refine ⟨⟨?_, ?_⟩, ?_, ?_⟩
      · rintro path file hpath hfile
        by_cases htemporary : path = temporary
        · subst htemporary
          rw [Disk.store, Disk.link, Disk.store] at hfile
          simp only [Function.update_self, Option.some.injEq] at hfile
          exact hfile ▸ Nat.lt_succ_self d.next
        · rw [Disk.store, Disk.link, Disk.store] at hfile
          simp only [Function.update_of_ne htemporary] at hfile
          exact Nat.lt_succ_of_lt (h.bounded path file hpath hfile)
      · intro file hfile
        simp only [Disk.store, Disk.link, Function.update_of_ne hne.symm] at hfile
        simpa [Disk.store, Disk.link] using (hold file hfile).symm
      · cases hdest : d.names destination with
        | none => simp [content, Disk.store, Disk.link, hne.symm, hdest]
        | some file => simp [content, Disk.store, Disk.link, hne.symm, hdest, hold file hdest]
      · simp [content, Disk.store, Disk.link]

theorem apart_moved (hne : temporary ≠ destination) (h : Apart temporary destination d) :
    Apart temporary destination (d.move temporary destination) where
  bounded := by
    intro path file hpath hfile
    by_cases hdest : path = destination
    · subst hdest
      rw [Disk.names_move_destination] at hfile
      exact h.bounded temporary file (.inl rfl) hfile
    · have htemporary : path = temporary := hpath.resolve_right hdest
      subst htemporary
      rw [d.names_move_source hne] at hfile
      cases hfile
  distinct := by
    intro file _ hfile
    rw [d.names_move_source hne] at hfile
    cases hfile

theorem content_moved (d : Disk) (temporary destination : Path) :
    content (d.move temporary destination) destination = content d temporary := by
  rw [content, Disk.names_move_destination]
  rfl

end

theorem disk_of_drift {w w' : World} (h : (machine false).drift w w') : w'.disk = w.disk := h.2 rfl

section

variable {temporary destination : Path} {text : String} {w w' : World}

/-- What may come of writing the temporary file: all of it, or an error with some or nothing of it. -/
theorem writeFile_answer {b : Except IoError Unit} (hne : temporary ≠ destination)
    (h : Apart temporary destination w.disk) (ha : (machine false).answers (.writeFile temporary text) w b w') :
    Apart temporary destination w'.disk ∧ content w'.disk destination = content w.disk destination ∧
      (b = .ok () → content w'.disk temporary = some (bytesOf text)) := by
  cases b with
  | ok _ =>
      obtain rfl : w' = _ := ha
      have hw := written hne h (bytesOf text)
      exact ⟨hw.apart, hw.destination, fun _ => hw.temporary⟩
  | error err =>
      rcases ha with rfl | ⟨n, rfl⟩
      · exact ⟨h, rfl, nofun⟩
      · have hw := written hne h ((bytesOf text).take n)
        exact ⟨hw.apart, hw.destination, nofun⟩

theorem rename_answer {b : Except IoError Unit} (hne : temporary ≠ destination)
    (h : Apart temporary destination w.disk) (ha : (machine false).answers (.rename temporary destination) w b w') :
    Apart temporary destination w'.disk ∧
      (b = .ok () ∧ content w'.disk destination = content w.disk temporary ∨
        (∃ err, b = .error err) ∧ content w'.disk destination = content w.disk destination) := by
  cases b with
  | ok _ =>
      obtain ⟨_, rfl⟩ := ha
      exact ⟨apart_moved hne h, .inl ⟨rfl, content_moved _ _ _⟩⟩
  | error err =>
      obtain rfl : w' = w := ha
      exact ⟨h, .inr ⟨⟨err, rfl⟩, rfl⟩⟩

/-- At each moment of a save the destination holds what it did or all of the text. -/
theorem writeAtomically_visits {destination : Path} {v : World}
    (hne : pushText destination ".tmp" ≠ destination) (h : Apart (pushText destination ".tmp") destination w.disk)
    (hv : Visits (machine false) (writeAtomically destination text) w v) :
    Apart (pushText destination ".tmp") destination v.disk ∧
      (content v.disk destination = content w.disk destination ∨
        content v.disk destination = some (bytesOf text)) := by
  rcases visits_call.mp hv with hd | ⟨w₁, b, w₂, hd, ha, hv⟩
  · rw [disk_of_drift hd]
    exact ⟨h, .inl rfl⟩
  · rw [← disk_of_drift hd] at h ⊢
    obtain ⟨hapart, hdest, htemporary⟩ := writeFile_answer hne h ha
    cases b with
    | error err =>
        rw [disk_of_drift (visits_pure.mp hv)]
        exact ⟨hapart, .inl hdest⟩
    | ok _ =>
        rcases visits_call.mp hv with hd' | ⟨w₃, b', w₄, hd', ha', hv⟩
        · rw [disk_of_drift hd']
          exact ⟨hapart, .inl hdest⟩
        · rw [← disk_of_drift hd'] at hapart hdest htemporary
          obtain ⟨hmoved, hcontent⟩ := rename_answer hne hapart ha'
          rw [disk_of_drift (visits_pure.mp hv)]
          refine ⟨hmoved, ?_⟩
          rcases hcontent with ⟨_, hall⟩ | ⟨_, hsame⟩
          · exact .inr (hall.trans (htemporary rfl))
          · exact .inl (hsame.trans hdest)

/-- A save that succeeds has replaced the text, and one that fails has left it. -/
theorem writeAtomically_run {destination : Path} {r : Except ManagerError Unit}
    (hne : pushText destination ".tmp" ≠ destination) (h : Apart (pushText destination ".tmp") destination w.disk)
    (hr : Runs (machine false) (writeAtomically destination text) w r w') :
    Apart (pushText destination ".tmp") destination w'.disk ∧
      (r = .ok () ∧ content w'.disk destination = some (bytesOf text) ∨
        (∃ err, r = .error (.write destination.display err)) ∧
          content w'.disk destination = content w.disk destination) := by
  obtain ⟨b, x, htry, hr⟩ := runs_bind.mp hr
  obtain ⟨rfl, hd⟩ := runs_pure.mp hr
  rw [disk_of_drift hd]
  rcases runs_tryThen.mp htry with ⟨err, rfl, hwrite⟩ | ⟨_, y, hwrite, hrename⟩
  · obtain ⟨w₁, w₂, hd₁, ha, hd₂⟩ := runs_perform.mp hwrite
    rw [← disk_of_drift hd₁] at h ⊢
    obtain ⟨hapart, hdest, _⟩ := writeFile_answer hne h ha
    rw [disk_of_drift hd₂]
    exact ⟨hapart, .inr ⟨⟨err, rfl⟩, hdest⟩⟩
  · obtain ⟨w₁, w₂, hd₁, ha, hd₂⟩ := runs_perform.mp hwrite
    rw [← disk_of_drift hd₁] at h ⊢
    obtain ⟨hapart, hdest, htemporary⟩ := writeFile_answer hne h ha
    obtain ⟨w₃, w₄, hd₃, ha', hd₄⟩ := runs_perform.mp hrename
    have hsame : w₃.disk = w₂.disk := (disk_of_drift hd₃).trans (disk_of_drift hd₂)
    rw [← hsame] at hapart hdest htemporary
    obtain ⟨hmoved, hcontent⟩ := rename_answer hne hapart ha'
    rw [disk_of_drift hd₄]
    refine ⟨hmoved, ?_⟩
    rcases hcontent with ⟨rfl, hall⟩ | ⟨⟨err, rfl⟩, hkept⟩
    · exact .inl ⟨rfl, hall.trans (htemporary rfl)⟩
    · exact .inr ⟨⟨err, rfl⟩, hkept.trans hdest⟩

end

/-- Below a root that begins at the top every path ends in a separator and its last name. -/
theorem display_child {p : Path} (hroot : p.isRelative = false) (n : Name) :
    ∃ before, (p.child n).display = before ++ "/" ++ n.text := by
  have hanchor : p.anchor = .root := by simpa [Path.isRelative] using hroot
  have hdisplay : (p.child n).display = "/" ++ "/".intercalate (p.names.map Name.text ++ [n.text]) := by
    rw [Path.display, Path.child, hanchor, List.map_append, List.map_singleton]
  by_cases hnames : p.names.map Name.text = []
  · refine ⟨"", ?_⟩
    rw [hdisplay, hnames, List.nil_append, String.intercalate_singleton, String.empty_append]
  · refine ⟨"/" ++ "/".intercalate (p.names.map Name.text), ?_⟩
    rw [hdisplay, String.intercalate_append_of_ne_nil hnames (List.cons_ne_nil _ _), String.intercalate_singleton]
    simp only [String.append_assoc]

theorem parse_last (before : String) (n : Name) : (parse (before ++ "/" ++ n.text)).names.getLast? = some n := by
  have hslash : "/".toList = ['/'] := rfl
  have hlast : [n.text.toList].filterMap (fun cs => Name.ofText (.ofList cs)) = [n] := by
    simp only [List.filterMap_cons, List.filterMap_nil, String.ofList_toList, Name.ofText_text]
  change ((List.splitOn '/' (before ++ "/" ++ n.text).toList).filterMap
    fun cs => Name.ofText (.ofList cs)).getLast? = some n
  rw [String.toList_append, String.toList_append, hslash, List.append_assoc, List.singleton_append,
    List.splitOn_append_cons_self, splitOn_noSlash n.noSlash, List.filterMap_append, hlast, List.getLast?_append]
  rfl

def configName : Name := ⟨"services.toml", by decide, by decide, by decide⟩

def temporaryName : Name := ⟨"services.toml.tmp", by decide, by decide, by decide⟩

theorem temporary_ne (paths : ProjectPaths) : pushText paths.servicesFile ".tmp" ≠ paths.servicesFile := by
  have hfile : paths.servicesFile = paths.root.child configName := paths.root.join_name configName
  obtain ⟨before, hdisplay⟩ := display_child paths.isAbsolute configName
  have htext : configName.text ++ ".tmp" = temporaryName.text := by decide
  have htemporary : (pushText paths.servicesFile ".tmp").names.getLast? = some temporaryName := by
    rw [pushText, hfile, hdisplay, String.append_assoc, htext]
    exact parse_last before temporaryName
  intro hsame
  rw [hsame, hfile, Path.child, List.getLast?_concat] at htemporary
  exact absurd (congrArg Name.text (Option.some.inj htemporary)) (by decide)

/-- A save, as one of a sequence: the manager is read and not changed. -/
def save (ctx : Context) (text : String) (m : Manager ctx.glob) :
    Io (Manager ctx.glob × Except ManagerError Unit) := do
  let r ← m.saveConfig ctx text
  return (m, r)

abbrev Saves : Type := List (String × Except ManagerError Unit)

def lastSaved (trace : Saves) : Option String :=
  (trace.filterMap fun entry => if entry.2.isOk then some entry.1 else none).getLast?

theorem lastSaved_ok (trace : Saves) (text : String) : lastSaved (trace ++ [(text, .ok ())]) = some text := by
  simp [lastSaved, Except.isOk, Except.toBool]

theorem lastSaved_error (trace : Saves) (text : String) (err : ManagerError) :
    lastSaved (trace ++ [(text, .error err)]) = lastSaved trace := by
  simp [lastSaved, Except.isOk, Except.toBool]

def expected (trace : Saves) (initial : Option (List UInt8)) : Option (List UInt8) :=
  ((lastSaved trace).map bytesOf).or initial

def readable : (c : Call) → Ans c → Prop
  | .readToString _, .error err => err.kind = .notFound
  | _, _ => True

section

variable {ctx : Context} {m m' : Manager ctx.glob} {text : String} {w w' : World}

abbrev ApartFor (m : Manager ctx.glob) (d : Disk) : Prop :=
  Apart (pushText m.paths.servicesFile ".tmp") m.paths.servicesFile d

theorem saveConfig_run {r : Except ManagerError Unit} (h : ApartFor m w.disk)
    (hr : Runs (machine false) (m.saveConfig ctx text) w r w') :
    ApartFor m w'.disk ∧
      (r = .ok () ∧ (∃ manifest, m.validateConfig ctx text = .ok manifest) ∧
          content w'.disk m.paths.servicesFile = some (bytesOf text) ∨
        (∃ err, r = .error err) ∧ content w'.disk m.paths.servicesFile = content w.disk m.paths.servicesFile) := by
  unfold Manager.saveConfig at hr
  split at hr
  · rename_i err _
    obtain ⟨rfl, hd⟩ := runs_pure.mp hr
    rw [disk_of_drift hd]
    exact ⟨h, .inr ⟨⟨_, rfl⟩, rfl⟩⟩
  · rename_i manifest hvalid
    obtain ⟨hapart, hresult⟩ := writeAtomically_run (temporary_ne m.paths) h hr
    refine ⟨hapart, ?_⟩
    rcases hresult with ⟨hok, hcontent⟩ | ⟨⟨err, herr⟩, hcontent⟩
    · exact .inl ⟨hok, ⟨manifest, hvalid⟩, hcontent⟩
    · exact .inr ⟨⟨_, herr⟩, hcontent⟩

/-- A save that reports an error in the configuration has asked nothing of the system. -/
theorem saveConfig_refused {err : ConfigError} (h : ApartFor m w.disk)
    (hr : Runs (machine false) (m.saveConfig ctx text) w (.error (.config err)) w') :
    m.saveConfig ctx text = pure (.error (.config err)) ∧ w'.disk = w.disk := by
  unfold Manager.saveConfig at hr ⊢
  split at hr
  · obtain ⟨heq, hd⟩ := runs_pure.mp hr
    cases heq
    exact ⟨rfl, disk_of_drift hd⟩
  · rcases (writeAtomically_run (temporary_ne m.paths) h hr).2 with ⟨hok, _⟩ | ⟨⟨_, herr⟩, _⟩
    · cases hok
    · cases herr

theorem saveConfig_visits {v : World} (h : ApartFor m w.disk)
    (hv : Visits (machine false) (m.saveConfig ctx text) w v) :
    ApartFor m v.disk ∧
      (content v.disk m.paths.servicesFile = content w.disk m.paths.servicesFile ∨
        content v.disk m.paths.servicesFile = some (bytesOf text)) := by
  unfold Manager.saveConfig at hv
  split at hv
  · rw [disk_of_drift (visits_pure.mp hv)]
    exact ⟨h, .inl rfl⟩
  · exact writeAtomically_visits (temporary_ne m.paths) h hv

/-- The state between two saves: the file holds what the last one that succeeded left there. -/
structure Kept (m : Manager ctx.glob) (initial : Option (List UInt8)) (trace : Saves) (m' : Manager ctx.glob)
    (w : World) : Prop where
  manager : m' = m
  apart : ApartFor m w.disk
  content : content w.disk m.paths.servicesFile = expected trace initial
  valid : ∀ text, lastSaved trace = some text → ∃ manifest, m.validateConfig ctx text = .ok manifest

theorem kept_save {initial : Option (List UInt8)} {trace : Saves} {r : Except ManagerError Unit}
    {m₁ m₂ : Manager ctx.glob}
    (h : Kept m initial trace m₁ w) (hr : Runs (machine false) (save ctx text m₁) w (m₂, r) w') :
    Kept m initial (trace ++ [(text, r)]) m₂ w' := by
  obtain rfl := h.manager
  obtain ⟨_, x, hsave, hr⟩ := runs_bind.mp hr
  obtain ⟨heq, hd⟩ := runs_pure.mp hr
  cases heq
  obtain ⟨hapart, hresult⟩ := saveConfig_run h.apart hsave
  rw [← disk_of_drift hd] at hapart hresult
  rcases hresult with ⟨rfl, hvalid, hcontent⟩ | ⟨⟨err, rfl⟩, hcontent⟩
  · refine ⟨rfl, hapart, ?_, fun saved hsaved => ?_⟩
    · rw [hcontent, expected, lastSaved_ok]
      rfl
    · rw [lastSaved_ok] at hsaved
      cases hsaved
      exact hvalid
  · refine ⟨rfl, hapart, ?_, fun saved hsaved => ?_⟩
    · rw [hcontent, h.content, expected, expected, lastSaved_error]
    · rw [lastSaved_error] at hsaved
      exact h.valid saved hsaved

theorem bytesOf_inj {text text' : String} (h : bytesOf text = bytesOf text') : text = text' :=
  Option.some.inj
    ((Steady.decode_bytesOf text).symm.trans ((congrArg Steady.decode h).trans (Steady.decode_bytesOf text')))

/-- Reading a file that is there gives the text it holds. -/
theorem read_content {path : Path} {b : Except IoError String} (hcontent : content w.disk path = some (bytesOf text))
    (hr : Runs ((machine false).restrict readable) (perform (.readToString path)) w b w') : b = .ok text := by
  obtain ⟨u, v, hd, ⟨hanswer, hreadable⟩, _⟩ := runs_perform.mp hr
  rw [← disk_of_drift hd] at hcontent
  obtain ⟨file, hfile, hbytes⟩ := Option.map_eq_some_iff.mp hcontent
  cases b with
  | ok read =>
      obtain ⟨⟨file', hfile', hread⟩, _⟩ := hanswer
      obtain rfl : file = file' := Option.some.inj (hfile.symm.trans hfile')
      rw [bytesOf_inj (hread.symm.trans hbytes)]
  | error err =>
      have hnone := hanswer.1 hreadable
      rw [hfile] at hnone
      cases hnone

theorem readConfig_content {r : Except IoError (Option String)}
    (hcontent : content w.disk m.paths.servicesFile = some (bytesOf text))
    (hr : Runs ((machine false).restrict readable) m.readConfig w r w') : r = .ok (some text) := by
  obtain ⟨b, x, hread, hr⟩ := runs_bind.mp hr
  rw [read_content hcontent hread] at hr
  exact (runs_pure.mp hr).1

theorem loadManifest_content {toml : Reader} {path : Path} {r : Except ConfigError Manifest}
    (hcontent : content w.disk path = some (bytesOf text))
    (hr : Runs ((machine false).restrict readable) (loadManifest toml path) w r w') : r = parseManifest toml text := by
  obtain ⟨b, x, hread, hr⟩ := runs_bind.mp hr
  rw [read_content hcontent hread] at hr
  exact (runs_pure.mp hr).1

end

/-- After any saves the file holds all of the last text whose save succeeded, or what it
held at first; at each moment of the next one it holds that or all of the new text; a save
refused for its text does nothing; what was saved is read and loaded as it was validated;
and the manager stays as it is. -/
theorem saves_are_atomic {ctx : Context} {m m' : Manager ctx.glob} {w₀ w : World} {trace : Saves}
    (hapart : ApartFor m w₀.disk) (hrun : Session (machine false) (save ctx) m w₀ trace m' w) :
    m' = m ∧
    content w.disk m.paths.servicesFile = expected trace (content w₀.disk m.paths.servicesFile) ∧
    (∀ text v, Visits (machine false) (m.saveConfig ctx text) w v → ApartFor m v.disk ∧
      (content v.disk m.paths.servicesFile = expected trace (content w₀.disk m.paths.servicesFile) ∨
        content v.disk m.paths.servicesFile = some (bytesOf text))) ∧
    (∀ text err w', Runs (machine false) (m.saveConfig ctx text) w (.error (.config err)) w' →
      m.saveConfig ctx text = pure (.error (.config err)) ∧ w'.disk = w.disk) ∧
    ∀ text, lastSaved trace = some text →
      (∀ r w', Runs ((machine false).restrict readable) m.readConfig w r w' → r = .ok (some text)) ∧
      ∃ manifest, m.validateConfig ctx text = .ok manifest ∧
        ∀ r w', Runs ((machine false).restrict readable) (loadManifest ctx.toml m.paths.servicesFile) w r w' →
          r = .ok manifest := by
  have hkept : Kept m (content w₀.disk m.paths.servicesFile) trace m' w := by
    refine hrun.invariant (Kept m (content w₀.disk m.paths.servicesFile)) (fun v hd => ?_)
      fun _ _ _ _ _ _ _ hk hr => kept_save hk hr
    rw [← disk_of_drift hd] at hapart ⊢
    exact ⟨rfl, hapart, rfl, nofun⟩
  refine ⟨hkept.manager, hkept.content, fun text v hv => ?_, fun text err w' hr => ?_, fun text hsaved => ?_⟩
  · rw [← hkept.content]
    exact saveConfig_visits hkept.apart hv
  · exact saveConfig_refused hkept.apart hr
  · have hcontent : content w.disk m.paths.servicesFile = some (bytesOf text) := by
      rw [hkept.content, expected, hsaved]
      rfl
    obtain ⟨manifest, hvalid⟩ := hkept.valid text hsaved
    refine ⟨fun r w' hr => readConfig_content hcontent hr, manifest, hvalid, fun r w' hr => ?_⟩
    rw [loadManifest_content hcontent hr]
    obtain ⟨parsed, hparsed, hrest⟩ := bind_eq_ok.mp hvalid
    obtain ⟨_, _, hsame⟩ := bind_eq_ok.mp hrest
    cases hsame
    exact hparsed

/-- An earlier save has failed before the end of its text, and there is no configuration yet. -/
def halfWritten : World :=
  ⟨fun _ => none, ⟨fun path => if path = pushText profile.servicesFile ".tmp" then some 0 else none,
    fun _ => bytesOf "http_p", 1⟩⟩

def freshManager : Manager Lifecycle.externalContext.glob := .new _ profile

theorem halfWritten_apart : ApartFor freshManager halfWritten.disk where
  bounded := by
    intro path file _ hfile
    change (if path = pushText profile.servicesFile ".tmp" then some 0 else none) = some file at hfile
    split at hfile
    · cases hfile
      exact Nat.zero_lt_one
    · cases hfile
  distinct := by
    intro file hfile
    change (if profile.servicesFile = pushText profile.servicesFile ".tmp" then some 0 else none) = some file at hfile
    rw [if_neg (temporary_ne profile).symm] at hfile
    cases hfile

def saving : Driver (machine false) := Steady.driver false fun _ => false

def refused : (Manager Lifecycle.externalContext.glob × Except ManagerError Unit) × World :=
  saving.run (save Lifecycle.externalContext "" freshManager) halfWritten

def stored : (Manager Lifecycle.externalContext.glob × Except ManagerError Unit) × World :=
  saving.run (save Lifecycle.externalContext ServiceStates.externalText refused.1.1) refused.2

theorem stored_session : Session (machine false) (save Lifecycle.externalContext) freshManager halfWritten
    [("", refused.1.2), (ServiceStates.externalText, stored.1.2)] stored.1.1 stored.2 :=
  .step (.single (saving.runs _ trivial).1) (saving.runs _ trivial).1

theorem saves_are_atomic_stored :
    content stored.2.disk profile.servicesFile = some (bytesOf ServiceStates.externalText) ∧
      ∀ r w', Runs ((machine false).restrict readable) freshManager.readConfig stored.2 r w' →
        r = .ok (some ServiceStates.externalText) := by
  obtain ⟨_, hcontent, _, _, hsaved⟩ := saves_are_atomic halfWritten_apart stored_session
  have hlast : lastSaved [("", refused.1.2), (ServiceStates.externalText, stored.1.2)] =
      some ServiceStates.externalText := by
    decide +kernel
  refine ⟨?_, (hsaved _ hlast).1⟩
  exact hcontent.trans (by rw [expected, hlast]; rfl)

end LocalDevProxy.SavedConfig
