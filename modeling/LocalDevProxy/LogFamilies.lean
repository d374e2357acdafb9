import LocalDevProxy.AcceptedManifests
import LocalDevProxy.Process

namespace LocalDevProxy.LogFamilies

open Lib.Fallible Text Paths Toml Config LogRotation Process AcceptedManifests

/-- How a file system compares the names of files. -/
def nameKey (insensitive : Bool) (text : String) : String :=
  if insensitive then toAsciiLowercase text else text

def SamePath (insensitive : Bool) (p q : Path) : Prop :=
  p.anchor = q.anchor ∧
    p.names.map (fun n => nameKey insensitive n.text) = q.names.map (fun n => nameKey insensitive n.text)

def InFamily (log p : Path) : Prop := p = log ∨ ∃ index, 1 ≤ index ∧ p = backupPath log index

def SeparateFamilies (insensitive : Bool) (log log' : Path) : Prop :=
  ∀ p q, InFamily log p → InFamily log' q → ¬ SamePath insensitive p q

def serviceLog (paths : ProjectPaths) (limits : LogLimits) (name : String) : Path :=
  Shared.logPath ⟨paths.logsDir, paths.root, limits⟩ name

theorem SamePath.key {insensitive : Bool} {dir : Path} {m n : Name}
    (h : SamePath insensitive (dir.child m) (dir.child n)) :
    nameKey insensitive m.text = nameKey insensitive n.text := by
  simpa [SamePath, Path.child] using h.2

theorem samePath_of_key {insensitive : Bool} {dir : Path} {m n : Name}
    (h : nameKey insensitive m.text = nameKey insensitive n.text) :
    SamePath insensitive (dir.child m) (dir.child n) :=
  ⟨rfl, by simp [Path.child, h]⟩

def stem (cs : List Char) : List Char := cs.takeWhile (· ≠ '.')

theorem stem_append {cs : List Char} (h : '.' ∉ cs) (rest : List Char) :
    stem (cs ++ '.' :: rest) = cs := by
  have hall : ∀ c ∈ cs, decide (c ≠ '.') = true := by
    intro c hc
    simpa using fun he : c = '.' => h (he ▸ hc)
  rw [stem, List.takeWhile_append_of_pos hall, List.takeWhile_cons_of_neg (by decide), List.append_nil]

theorem dot_not_mem_key {insensitive : Bool} {text : String} (h : '.' ∉ text.toList) :
    '.' ∉ (nameKey insensitive text).toList := by
  unfold nameKey
  split
  · rw [toList_toAsciiLowercase]
    intro hm
    obtain ⟨c, hc, he⟩ := List.mem_map.mp hm
    exact h (eq_of_toLower (by decide) he ▸ hc)
  · exact h

theorem nameKey_append (insensitive : Bool) (text rest : String) :
    (nameKey insensitive (text ++ rest)).toList =
      (nameKey insensitive text).toList ++ (nameKey insensitive rest).toList := by
  cases insensitive <;> simp [nameKey, toList_toAsciiLowercase]

theorem nameKey_dot (insensitive : Bool) {rest : String} {cs : List Char} (h : rest.toList = '.' :: cs) :
    ∃ cs', (nameKey insensitive rest).toList = '.' :: cs' := by
  unfold nameKey
  split
  · exact ⟨cs.map Char.toLower, by rw [toList_toAsciiLowercase, h]; rfl⟩
  · exact ⟨cs, h⟩

/-- Names without a dot can be told from what is put after them. -/
theorem key_of_append {insensitive : Bool} {text text' rest rest' : String} {cs cs' : List Char}
    (h : '.' ∉ text.toList) (h' : '.' ∉ text'.toList) (hr : rest.toList = '.' :: cs)
    (hr' : rest'.toList = '.' :: cs')
    (he : nameKey insensitive (text ++ rest) = nameKey insensitive (text' ++ rest')) :
    nameKey insensitive text = nameKey insensitive text' := by
  obtain ⟨ds, hds⟩ := nameKey_dot insensitive hr
  obtain ⟨ds', hds'⟩ := nameKey_dot insensitive hr'
  have hl := congrArg (fun s => stem s.toList) he
  simp only [nameKey_append, hds, hds', stem_append (dot_not_mem_key h),
    stem_append (dot_not_mem_key h')] at hl
  exact String.toList_inj.mp hl

/-- A name that a log can be given. -/
def Plain (name : String) : Prop := name ≠ "" ∧ '.' ∉ name.toList ∧ '/' ∉ name.toList

theorem plain_of_valid {name : String} (h : validName name) : Plain name := by
  simp only [validName, Bool.and_eq_true, List.all_eq_true, Bool.or_eq_true, decide_eq_true_eq] at h
  refine ⟨h.1, fun hm => ?_, fun hm => ?_⟩
  · exact absurd (h.2 _ hm) (by decide)
  · exact absurd (h.2 _ hm) (by decide)

def logName (name rest : String) (cs : List Char) (h : Plain name) (hr : rest.toList = '.' :: cs)
    (hslash : '/' ∉ cs) : Name where
  text := name ++ rest
  nonempty := by
    intro he
    have hl := congrArg (fun s => s.toList.length) he
    simp [hr] at hl
  notDot := by
    intro he
    have hl := congrArg (fun s => stem s.toList) he
    rw [String.toList_append, hr, stem_append h.2.1] at hl
    exact h.1 (String.toList_inj.mp hl)
  noSlash := by
    rw [String.toList_append, hr]
    simp [h.2.2, hslash]

variable {paths : ProjectPaths} {limits : LogLimits} {name : String} {insensitive : Bool}

def activeName (h : Plain name) : Name := logName name ".log" ['l', 'o', 'g'] h rfl (by decide)

theorem serviceLog_eq (h : Plain name) :
    serviceLog paths limits name = paths.logsDir.child (activeName h) :=
  Path.join_name paths.logsDir (activeName h)

theorem toList_backupSuffix (index : Nat) :
    (".log." ++ decimal index).toList = '.' :: ('l' :: 'o' :: 'g' :: '.' :: (decimal index).toList) := by
  rw [String.toList_append]
  rfl

def backupName (h : Plain name) (index : Nat) : Name :=
  logName name (".log." ++ decimal index) _ h (toList_backupSuffix index)
    (by simp [not_mem_decimal (show '/'.isDigit = false from rfl) index])

theorem fileName_active (h : Plain name) :
    (serviceLog paths limits name).fileName = some (activeName h) := by
  have hdots : (activeName h).text ≠ ".." := by
    intro he
    have hl := congrArg (fun s => stem s.toList) he
    have hstem : stem (name ++ ".log").toList = name.toList := by
      rw [String.toList_append]
      exact stem_append h.2.1 _
    have hempty : name.toList = [] := hstem.symm.trans hl
    exact h.1 (String.toList_inj.mp hempty)
  rw [serviceLog_eq h, Path.fileName, Path.child, List.getLast?_append]
  simp [hdots]

theorem backupPath_eq (h : Plain name) (index : Nat) :
    backupPath (serviceLog paths limits name) index = paths.logsDir.child (backupName h index) := by
  have htext : ((activeName h).text ++ "." ++ decimal index) = (backupName h index).text := by
    change name ++ ".log" ++ "." ++ decimal index = name ++ (".log." ++ decimal index)
    simp only [String.append_assoc]
    rfl
  rw [backupPath, fileName_active h, Option.elim_some, htext, Path.withFileName, fileName_active h]
  rw [Option.isSome_some, if_pos rfl, serviceLog_eq h, Path.child, List.dropLast_concat]
  exact Path.join_name paths.logsDir (backupName h index)

/-- A file of a family is named after the service, in the logs directory. -/
theorem inFamily_name {p : Path} (h : Plain name) (hp : InFamily (serviceLog paths limits name) p) :
    ∃ n : Name, p = paths.logsDir.child n ∧
      ∃ rest cs, n.text = name ++ rest ∧ rest.toList = '.' :: cs := by
  rcases hp with rfl | ⟨index, _, rfl⟩
  · exact ⟨activeName h, serviceLog_eq h, ".log", _, rfl, rfl⟩
  · exact ⟨backupName h index, backupPath_eq h index, _, _, rfl, toList_backupSuffix index⟩

theorem separate_iff {name' : String} (h : Plain name) (h' : Plain name') :
    SeparateFamilies insensitive (serviceLog paths limits name) (serviceLog paths limits name') ↔
      nameKey insensitive name ≠ nameKey insensitive name' := by
  constructor
  · intro hs he
    refine hs _ _ (.inl rfl) (.inl rfl) ?_
    rw [serviceLog_eq h, serviceLog_eq h']
    refine samePath_of_key (String.toList_inj.mp ?_)
    change (nameKey insensitive (name ++ ".log")).toList = (nameKey insensitive (name' ++ ".log")).toList
    rw [nameKey_append, nameKey_append, he]
  · intro hne p q hp hq hsame
    obtain ⟨m, rfl, rest, cs, hm, hr⟩ := inFamily_name h hp
    obtain ⟨n, rfl, rest', cs', hn, hr'⟩ := inFamily_name h' hq
    have hkey := hsame.key
    rw [hm, hn] at hkey
    exact hne (key_of_append h.2.1 h'.2.1 hr hr' hkey)

/-- No log file of the manifest's services is shared, nor one of them with the
application's own log, and all lie directly in the directory of the logs. -/
def LogsApart (insensitive : Bool) (paths : ProjectPaths) (limits : LogLimits) (manifest : Manifest) :
    Prop :=
  manifest.services.Pairwise (fun s t => SeparateFamilies insensitive
    (serviceLog paths limits s.name) (serviceLog paths limits t.name)) ∧
  (∀ s ∈ manifest.services,
    SeparateFamilies insensitive (serviceLog paths limits s.name) paths.managerLog ∧
    ∀ p, InFamily (serviceLog paths limits s.name) p → p.parent = some paths.logsDir) ∧
  ∀ p, InFamily paths.managerLog p → p.parent = some paths.logsDir

theorem managerLog_eq (paths : ProjectPaths) (limits : LogLimits) :
    paths.managerLog = serviceLog paths limits "manager" := rfl

theorem plain_manager : Plain "manager" := by
  refine ⟨?_, ?_, ?_⟩ <;> decide

/-- Names that differ in more than the case of letters, from each other and
from the name that is reserved. -/
def CaseApart (manifest : Manifest) : Prop :=
  manifest.services.Pairwise (fun s t => toAsciiLowercase s.name ≠ toAsciiLowercase t.name) ∧
    ∀ s ∈ manifest.services, toAsciiLowercase s.name ≠ "manager"

/-- The logs of an accepted manifest are apart, on a file system that
disregards case exactly when the names differ in more than case. -/
theorem logs_apart_iff (insensitive : Bool) (paths : ProjectPaths) (limits : LogLimits) (toml : Reader)
    (text : String) (manifest : Manifest) (h : parseManifest toml text = .ok manifest) :
    LogsApart insensitive paths limits manifest ↔ (insensitive = true → CaseApart manifest) := by
  obtain ⟨hnodup, hnames⟩ := parseManifest_names h
  have hplain : ∀ s ∈ manifest.services, Plain s.name := fun s hs => plain_of_valid (hnames s hs).1
  have hpairs : manifest.services.Pairwise (fun s t => SeparateFamilies insensitive
      (serviceLog paths limits s.name) (serviceLog paths limits t.name)) ↔
      manifest.services.Pairwise (fun s t => nameKey insensitive s.name ≠ nameKey insensitive t.name) :=
    List.Pairwise.iff_of_mem (fun hs ht => separate_iff (hplain _ hs) (hplain _ ht))
  have hinside : ∀ {name : String}, Plain name →
      ∀ p, InFamily (serviceLog paths limits name) p → p.parent = some paths.logsDir := by
    intro name hname p hp
    obtain ⟨n, rfl, _⟩ := inFamily_name hname hp
    exact Path.parent_child _ n
  have hmanager : (∀ s ∈ manifest.services,
      SeparateFamilies insensitive (serviceLog paths limits s.name) paths.managerLog ∧
        ∀ p, InFamily (serviceLog paths limits s.name) p → p.parent = some paths.logsDir) ↔
      ∀ s ∈ manifest.services, nameKey insensitive s.name ≠ nameKey insensitive "manager" := by
    refine forall₂_congr ?_
    intro s hs
    rw [managerLog_eq paths limits, separate_iff (hplain s hs) plain_manager]
    exact and_iff_left (hinside (hplain s hs))
  have hown : ∀ p, InFamily paths.managerLog p → p.parent = some paths.logsDir := by
    rw [managerLog_eq paths limits]
    exact hinside plain_manager
  rw [LogsApart, hpairs, hmanager, and_iff_left hown]
  cases insensitive with
  | true => exact ⟨fun h _ => h, fun h => h rfl⟩
  | false =>
      refine ⟨fun _ => nofun, fun _ => ⟨?_, ?_⟩⟩
      · exact List.pairwise_map.mp hnodup
      · intro s hs he
        exact (hnames s hs).2 (List.mem_singleton.mpr he)

def twinText : String :=
  withHeader <|
    "[services.App]\n" ++
    "[services.app]\n"

def twinTable : Table :=
  headedTable [("App", .table []), ("app", .table [])]

def twinReader : Reader :=
  .knowing twinText twinTable (distinctKeys_headedTable (by simp))

def twinManifest : Manifest :=
  headedManifest [⟨"App", none, [], [], false, true⟩, ⟨"app", none, [], [], false, true⟩]

theorem parse_twin : parseManifest twinReader twinText = .ok twinManifest :=
  parseManifest_knowing _ _ _

theorem logs_apart_iff_twin :
    LogsApart true profile .default twinManifest ↔ (true = true → CaseApart twinManifest) :=
  logs_apart_iff true profile .default twinReader twinText twinManifest parse_twin

/-- Two accepted names that differ only in case give one log file to both
services, where case is disregarded. -/
theorem twin_logs_shared :
    parseManifest twinReader twinText = .ok twinManifest ∧ ∃ p q,
      InFamily (serviceLog profile .default "App") p ∧ InFamily (serviceLog profile .default "app") q ∧
        SamePath true p q :=
  ⟨parse_twin, _, _, .inl rfl, .inl rfl, rfl, by decide⟩

end LocalDevProxy.LogFamilies
