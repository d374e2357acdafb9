import LocalDevProxy.Lib.BoundedLog
import LocalDevProxy.LogSlots

namespace LocalDevProxy.LogContent

open Lib.Interaction Lib.BoundedLog Paths Os LogRotation RotatingLogWriter LogSlots

/-- What is done with a log: bytes are written, or the writer is closed and
another one opened. -/
inductive LogOp
  | write (data : List UInt8)
  | reopen

namespace LogOp

def run : LogOp → RotatingLogWriter → Io (RotatingLogWriter × Except WriteError Unit)
  | .write data, log => log.writeBytes data
  | .reopen, log => do
      match ← openWriter log.path log.limits with
      | .ok log => return (log, .ok ())
      | .error err => return (log, .error (.io err))

def data : LogOp → List UInt8
  | .write data => data
  | .reopen => []

end LogOp

def written (trace : List (LogOp × Except WriteError Unit)) : List UInt8 :=
  trace.flatMap (fun entry => entry.1.data)

def noFaults : (c : Call) → Ans c → Prop
  | .createDirAll _, .error _ => False
  | .metadata _, .error err => err.kind = .notFound
  | .removeFile _, .error err => err.kind = .notFound
  | .rename _ _, .error _ => False
  | .openAppend _, .error _ => False
  | .fileLen _, .error _ => False
  | .writeAll _ _, .error _ => False
  | .flush _, .error _ => False
  | _, _ => True

theorem noFaults_right {c : Call} {b : Ans c} (h : noFaults c b) : checksRight c b := by
  cases c with
  | metadata path => cases b <;> exact h
  | _ => trivial

/-- The files of a log on disk: backups numbered from one on without a gap,
and the active file, which may be missing while it is empty. -/
structure Stored (count : Nat) (path : Path) (d : Disk) (l : Log UInt8) : Prop where
  fits : l.backups.length ≤ count
  backups : ∀ i, i < count → content d (backupPath path (i + 1)) = l.backups[i]?
  active : (content d path).getD [] = l.active

def readingOf (count : Nat) (path : Path) (d : Disk) : List UInt8 :=
  (List.range count).reverse.flatMap (fun i => (content d (backupPath path (i + 1))).getD []) ++
    (content d path).getD []

/-- Files that were empty when they were opened, since the given disk. -/
def OpenedEmpty (path : Path) (d₀ : Disk) (file : Nat) : Prop :=
  d₀.next ≤ file ∨ (d₀.names path = some file ∧ d₀.data file = [])

/-- An open log against the log with nothing dropped: the writer knows its file
and its size, the slots hold the newest closed files, and all else is untouched. -/
structure Holding (path : Path) (limits : LogLimits) (d₀ : Disk) (log : RotatingLogWriter) (d : Disk)
    (full : Log UInt8) : Prop where
  place : log.path = path
  bound : log.limits = limits
  separate : Separate d
  file : d.names path = some log.file
  active : d.data log.file = full.active
  size : log.size = full.active.length
  backups : ∀ i, i < limits.backupCount → content d (backupPath path (i + 1)) = full.backups[i]?
  outside : ∀ p, (∀ i, i ≤ limits.backupCount → p ≠ slot path i) →
    d.names p = d₀.names p ∧ content d p = content d₀ p
  since : d₀.next ≤ d.next
  closed : ∀ file, file < d.next → file ≠ log.file → OpenedEmpty path d₀ file →
    (d.data file).length = limits.maxBytes
  bounded : ∀ file, file < d.next →
    (file < d₀.next ∧ d.data file = d₀.data file) ∨ (d.data file).length ≤ limits.maxBytes

variable {path : Path} {limits : LogLimits} {d₀ d d' : Disk} {log log' : RotatingLogWriter} {full : Log UInt8}

theorem Holding.file_lt (h : Holding path limits d₀ log d full) : log.file < d.next :=
  h.separate.bounded _ _ h.file

theorem content_of_data {p : Path} (hnames : d'.names p = d.names p)
    (hdata : ∀ file, d.names p = some file → d'.data file = d.data file) : content d' p = content d p := by
  unfold content
  rw [hnames]
  cases hp : d.names p with
  | none => rfl
  | some file => simp [hdata file hp]

theorem content_append {p : Path} {file : Nat} (bytes : List UInt8) (h : d.names p ≠ some file) :
    content (d.append file bytes) p = content d p := by
  refine content_of_data rfl (fun other hp => append_data_of_ne ?_ bytes)
  rintro rfl
  exact h hp

theorem created_content (hc : Created path d d') (hsep : Separate d) {p : Path} (hp : p ≠ path) :
    content d' p = content d p :=
  content_of_data (hc.names p hp) (fun file hf => hc.data file (Nat.ne_of_lt (hsep.bounded p file hf)))

theorem backup_ne (hname : path.fileName.isSome) (i : Nat) : backupPath path (i + 1) ≠ path := by
  intro he
  have := slot_inj (i := i + 1) (j := 0) hname he
  omega

/-- Bytes that fit go to the end of the active file. -/
theorem Holding.append (hname : path.fileName.isSome) (h : Holding path limits d₀ log d full)
    (xs : List UInt8) (hfits : full.active.length + xs.length ≤ limits.maxBytes) :
    Holding path limits d₀ { log with size := log.size + xs.length } (d.append log.file xs)
      (full.append xs) where
  place := h.place
  bound := h.bound
  separate := append_separate h.separate ..
  file := h.file
  active := by rw [append_data_self, h.active]; rfl
  size := by simp [h.size, Log.append]
  backups := by
    intro i hi
    rw [content_append]
    · exact h.backups i hi
    · intro hp
      have hs : slot path 0 = slot path (i + 1) := h.separate.distinct _ _ _ h.file hp
      have := slot_inj hname hs
      omega
  outside := by
    intro p hp
    have hout := h.outside p hp
    refine ⟨hout.1, (content_append xs ?_).trans hout.2⟩
    intro hfile
    exact hp 0 (Nat.zero_le _) (h.separate.distinct _ _ _ hfile h.file)
  since := h.since
  closed := by
    intro file hlt hne hempty
    rw [append_data_of_ne hne]
    exact h.closed file hlt hne hempty
  bounded := by
    intro file hlt
    by_cases hf : file = log.file
    · subst hf
      rw [append_data_self, h.active, List.length_append]
      exact .inr hfits
    · rw [append_data_of_ne hf]
      exact h.bounded file hlt

/-- A rotation closes the active file, which was full, and opens an empty one. -/
theorem Holding.rotated (hname : path.fileName.isSome) (hcap : 1 ≤ limits.maxBytes)
    (hcount : 1 ≤ limits.backupCount) (h : Holding path limits d₀ log d full)
    (hfull : limits.maxBytes ≤ full.active.length) (hs : Shifted path 0 (limits.backupCount - 1) d d') :
    Holding path limits d₀ { log with file := d.next, size := 0 } (d'.create path).1 full.close := by
  have hsep' := hs.separate hname h.separate
  have hc : Created path d' (d'.create path).1 := create_created hs.vacant
  have hfile := hc.file
  have hnew := hc.empty
  have hdata := hc.data
  have hnext := hc.next
  rw [hs.next] at hfile hnew hdata hnext
  rw [hs.data] at hdata
  have hcontent : ∀ p, p ≠ path → content (d'.create path).1 p = (d'.names p).map d.data := by
    intro p hp
    rw [created_content hc hsep' hp, content, hs.data]
  refine ⟨h.place, h.bound, hc.separate hsep', hfile, hnew, rfl, ?_, ?_, ?_, ?_, ?_⟩
  · intro i hi
    rw [hcontent _ (backup_ne hname i)]
    have hmoved := hs.moved i (Nat.zero_le _) (by omega)
    rw [show backupPath path (i + 1) = slot path (i + 1) from rfl, hmoved]
    cases i with
    | zero =>
        rw [show slot path 0 = path from rfl, h.file]
        simp [Log.close, h.active]
    | succ i => exact h.backups i (by omega)
  · intro p hp
    have hne : p ≠ path := hp 0 (Nat.zero_le _)
    have hkept := hs.kept p (fun i _ hi => hp i (by omega))
    have hout := h.outside p hp
    refine ⟨?_, ?_⟩
    · exact (hc.names p hne).trans (hkept.trans hout.1)
    · rw [hcontent p hne, hkept]
      exact hout.2
  · rw [hnext]
    exact Nat.le_succ_of_le h.since
  · intro file hlt hne hempty
    rw [hnext] at hlt
    rw [hdata file hne]
    by_cases hf : file = log.file
    · subst hf
      rw [h.active]
      rcases h.bounded log.file h.file_lt with ⟨hold, hsame⟩ | hle
      · rcases hempty with hge | ⟨_, hnil⟩
        · omega
        · rw [← h.active, hsame, hnil, List.length_nil] at hfull
          omega
      · rw [h.active] at hle
        omega
    · exact h.closed file (by have : file ≠ d.next := hne; omega) hf hempty
  · intro file hlt
    rw [hnext] at hlt
    by_cases hf : file = d.next
    · subst hf
      rw [hnew]
      exact .inr (Nat.zero_le _)
    · rw [hdata file hf]
      exact h.bounded file (by omega)

variable {w w' : World}

theorem flush_run {file : Nat} {r : Except IoError Unit}
    (h : Runs ((machine false).restrict noFaults) (perform (.flush file)) w r w') :
    r = .ok () ∧ w'.disk = w.disk := by
  obtain ⟨u, v, hd, ⟨ha, hp⟩, hd'⟩ := runs_perform.mp h
  cases r with
  | ok _ =>
      obtain rfl : v = u := ha
      exact ⟨rfl, (drift_disk hd').trans (drift_disk hd)⟩
  | error err => exact hp.elim

theorem writeAll_run {file : Nat} {data : List UInt8} {r : Except IoError Unit}
    (h : Runs ((machine false).restrict noFaults) (perform (.writeAll file data)) w r w') :
    r = .ok () ∧ w'.disk = w.disk.append file data := by
  obtain ⟨u, v, hd, ⟨ha, hp⟩, hd'⟩ := runs_perform.mp h
  cases r with
  | ok _ =>
      obtain rfl : v = { u with disk := u.disk.append file data } := ha
      rw [drift_disk hd', ← drift_disk hd]
      exact ⟨rfl, rfl⟩
  | error err => exact hp.elim

/-- Before a pass writes, the active file is made to have room. -/
theorem rotateIfFull_run (hname : path.fileName.isSome) (hcap : 1 ≤ limits.maxBytes)
    (hcount : 1 ≤ limits.backupCount) (hh : Holding path limits d₀ log w.disk full)
    {r : Except IoError RotatingLogWriter}
    (h : Runs ((machine false).restrict noFaults) log.rotateIfFull w r w') :
    ∃ log', r = .ok log' ∧ Holding path limits d₀ log' w'.disk (full.makeRoom limits.maxBytes) := by
  obtain ⟨rfl, rfl⟩ := And.intro hh.place hh.bound
  unfold rotateIfFull at h
  rw [hh.size] at h
  by_cases hfull : log.limits.maxBytes ≤ full.active.length
  · rw [if_pos hfull] at h
    rw [Log.makeRoom, if_pos hfull]
    have hrotated := rotate_run noFaults_right hname hcount h
    generalize w'.disk = d' at hrotated
    cases hrotated with
    | refused _ err hk hp => exact absurd hp hk
    | stopped _ _ _ _ hp =>
        rcases hp with ⟨_, _, hp⟩ | hp
        · exact hp.elim
        · exact hp.elim
    | unread _ _ _ hp => exact hp.elim
    | opened hs => exact ⟨_, rfl, hh.rotated hname hcap hcount hfull hs⟩
  · rw [if_neg hfull] at h
    rw [Log.makeRoom, if_neg hfull]
    obtain ⟨rfl, hd⟩ := runs_pure.mp h
    rw [drift_disk hd]
    exact ⟨log, rfl, hh⟩

theorem makeRoom_room (hcap : 1 ≤ limits.maxBytes) (full : Log UInt8) :
    (full.makeRoom limits.maxBytes).active.length < limits.maxBytes := by
  unfold Log.makeRoom
  split
  · exact hcap
  · omega

/-- A pass takes at least one byte, and what it takes fits. -/
theorem roomFor_spec (hcap : 1 ≤ limits.maxBytes)
    (h : Holding path limits d₀ log d (full.makeRoom limits.maxBytes)) (b : UInt8) (rest : List UInt8) :
    1 ≤ roomFor log (b :: rest) ∧
      (full.makeRoom limits.maxBytes).active.length + ((b :: rest).take (roomFor log (b :: rest))).length ≤
        limits.maxBytes ∧
      ((b :: rest).take (roomFor log (b :: rest))).length = roomFor log (b :: rest) := by
  have hroom := makeRoom_room hcap full
  have hsize := h.size
  have hlimit : log.limits.maxBytes = limits.maxBytes := by rw [h.bound]
  have hn : roomFor log (b :: rest) = min (log.limits.maxBytes - log.size) (rest.length + 1) := rfl
  have htake : ((b :: rest).take (roomFor log (b :: rest))).length = roomFor log (b :: rest) := by
    rw [List.length_take, List.length_cons]
    omega
  exact ⟨by omega, by omega, htake⟩

theorem writeLoop_run (hname : path.fileName.isSome) (hcap : 1 ≤ limits.maxBytes)
    (hcount : 1 ≤ limits.backupCount) {fuel : Nat} {data : List UInt8} {r : Except WriteError Unit}
    (hfuel : data.length ≤ fuel) (hh : Holding path limits d₀ log w.disk full)
    (h : Runs ((machine false).restrict noFaults) (writeLoop fuel log data) w (log', r) w') :
    r = .ok () ∧ Holding path limits d₀ log' w'.disk (full.write limits.maxBytes data) := by
  have hdone : ∀ {fuel w log full}, Holding path limits d₀ log w.disk full →
      Runs ((machine false).restrict noFaults) (writeLoop fuel log []) w (log', r) w' →
      r = .ok () ∧ Holding path limits d₀ log' w'.disk full := by
    intro fuel w log full hh h
    obtain ⟨rfl, flushed, hf, hr⟩ := writeLoop_flush h
    obtain ⟨rfl, hw'⟩ := flush_run hf
    rw [hw']
    rcases hr with ⟨_, hr⟩ | ⟨_, he, _⟩
    · exact ⟨hr, hh⟩
    · cases he
  induction fuel generalizing w log full data with
  | zero =>
      obtain rfl : data = [] := List.eq_nil_of_length_eq_zero (Nat.le_zero.mp hfuel)
      exact hdone hh h
  | succ fuel ih =>
      cases data with
      | nil => exact hdone hh h
      | cons b rest =>
          cases writeLoop_pass h with
          | unrotated err hrot =>
              obtain ⟨_, he, _⟩ := rotateIfFull_run hname hcap hcount hh hrot
              cases he
          | underflow log₁ hrot hover =>
              obtain ⟨_, he, hh₁⟩ := rotateIfFull_run hname hcap hcount hh hrot
              cases he
              have hroom := makeRoom_room hcap full
              have hsize := hh₁.size
              have hlimit : log'.limits.maxBytes = limits.maxBytes := by rw [hh₁.bound]
              omega
          | unwritten log₁ err _ hwrite => cases (writeAll_run hwrite).1
          | passed log₁ hrot hwrite hrest =>
              obtain ⟨_, he, hh₁⟩ := rotateIfFull_run hname hcap hcount hh hrot
              cases he
              have hw₂ := (writeAll_run hwrite).2
              obtain ⟨hpos, hfits, htake⟩ := roomFor_spec hcap hh₁ b rest
              have hh₂ := hh₁.append hname ((b :: rest).take (roomFor log₁ (b :: rest))) hfits
              rw [htake, ← hw₂] at hh₂
              have hleft : ((b :: rest).drop (roomFor log₁ (b :: rest))).length ≤ fuel := by
                rw [List.length_drop]
                omega
              obtain ⟨hr, hh'⟩ := ih hleft hh₂ hrest
              refine ⟨hr, ?_⟩
              have hsplit := Log.write_append limits.maxBytes (full.makeRoom limits.maxBytes)
                ((b :: rest).take (roomFor log₁ (b :: rest))) ((b :: rest).drop (roomFor log₁ (b :: rest)))
              rw [List.take_append_drop, Log.write_fits _ _ _ hfits, Log.write_makeRoom _ _ hcap] at hsplit
              rw [hsplit]
              exact hh'

theorem createDirAll_run {p : Path} {r : Except IoError Unit}
    (h : Runs ((machine false).restrict noFaults) (perform (.createDirAll p)) w r w') :
    r = .ok () ∧ w'.disk = w.disk := by
  obtain ⟨u, v, hd, ⟨ha, hp⟩, hd'⟩ := runs_perform.mp h
  cases r with
  | ok _ =>
      obtain rfl : v = u := ha
      exact ⟨rfl, (drift_disk hd').trans (drift_disk hd)⟩
  | error err => exact hp.elim

/-- A writer opens on the file at the path, which is created if it is missing. -/
theorem openWriter_run (hcap : 1 ≤ limits.maxBytes) (hcount : 1 ≤ limits.backupCount)
    {r : Except IoError RotatingLogWriter}
    (h : Runs ((machine false).restrict noFaults) (openWriter path limits) w r w') :
    r = .ok ⟨path, limits, (w.disk.create path).2,
        ((w.disk.create path).1.data (w.disk.create path).2).length⟩ ∧
      w'.disk = (w.disk.create path).1 := by
  have hopened : ∀ {u}, u.disk = w.disk → Runs ((machine false).restrict noFaults)
      ((openAppend path).tryThen fun opened => return .ok ⟨path, limits, opened.1, opened.2⟩) u r w' →
      r = .ok ⟨path, limits, (w.disk.create path).2,
          ((w.disk.create path).1.data (w.disk.create path).2).length⟩ ∧
        w'.disk = (w.disk.create path).1 := by
    intro u hu h
    rw [← hu]
    rcases runs_tryThen.mp h with ⟨err, rfl, ho⟩ | ⟨⟨file, size⟩, w₁, ho, h⟩
    · rcases openAppend_run ho with ⟨hok, _⟩ | ⟨_, _, _, hp⟩ | ⟨_, _, _, _, hp⟩
      · cases hok
      · exact hp.elim
      · exact hp.elim
    · obtain ⟨rfl, hd⟩ := runs_pure.mp h
      rcases openAppend_run ho with ⟨hok, hw⟩ | ⟨_, he, _⟩ | ⟨_, _, he, _⟩
      · cases hok
        rw [drift_disk hd]
        exact ⟨rfl, hw⟩
      · cases he
      · cases he
  unfold openWriter at h
  rw [if_neg (by omega)] at h
  cases hparent : path.parent with
  | none =>
      rw [hparent] at h
      exact hopened rfl h
  | some parent =>
      rw [hparent] at h
      rcases runs_tryThen.mp h with ⟨err, _, hc⟩ | ⟨_, w₁, hc, h⟩
      · cases (createDirAll_run hc).1
      · exact hopened (createDirAll_run hc).2 h

/-- A writer that has just opened on stored files holds their log. -/
theorem opened_holding {l : Log UInt8} (hname : path.fileName.isSome) (hsep : Separate d)
    (hstored : Stored limits.backupCount path d l) :
    Holding path limits d
      ⟨path, limits, (d.create path).2, ((d.create path).1.data (d.create path).2).length⟩
      (d.create path).1 l := by
  have hactive := hstored.active
  cases hn : d.names path with
  | some file =>
      have hdata : d.data file = l.active := by simpa [content, hn] using hactive
      rw [create_present hn]
      refine ⟨rfl, rfl, hsep, hn, hdata, by rw [hdata], hstored.backups, fun _ _ => ⟨rfl, rfl⟩,
        Nat.le_refl _, ?_, fun file hlt => .inl ⟨hlt, rfl⟩⟩
      rintro other hlt hne (hge | ⟨hother, _⟩)
      · have hlt : other < d.next := hlt
        omega
      · rw [hn] at hother
        exact absurd (Option.some.inj hother).symm hne
  | none =>
      have hnil : l.active = [] := by simpa [content, hn] using hactive.symm
      have hc := create_created hn
      have hfile : (d.create path).2 = d.next := create_handle hn
      have hempty : (d.create path).1.data d.next = l.active := hc.empty.trans hnil.symm
      rw [hfile]
      refine ⟨rfl, rfl, hc.separate hsep, hc.file, hempty, congrArg List.length hempty, ?_, ?_, ?_, ?_, ?_⟩
      · intro i hi
        rw [created_content hc hsep (backup_ne hname i)]
        exact hstored.backups i hi
      · intro p hp
        have hne : p ≠ path := hp 0 (Nat.zero_le _)
        exact ⟨hc.names p hne, created_content hc hsep hne⟩
      · rw [hc.next]
        exact Nat.le_succ _
      · rintro file hlt hne (hge | ⟨hold, _⟩)
        · have hne : file ≠ d.next := hne
          rw [hc.next] at hlt
          omega
        · rw [hn] at hold
          cases hold
      · intro file hlt
        rw [hc.next] at hlt
        by_cases hf : file = d.next
        · subst hf
          rw [hc.empty]
          exact .inr (Nat.zero_le _)
        · exact .inl ⟨by omega, hc.data file hf⟩

/-- Opening the log again finds what the writer before it knew. -/
theorem reopened_holding (h : Holding path limits d₀ log d full) :
    Holding path limits d₀
      ⟨path, limits, (d.create path).2, ((d.create path).1.data (d.create path).2).length⟩
      (d.create path).1 full := by
  rw [create_present h.file]
  exact ⟨rfl, rfl, h.separate, h.file, h.active, congrArg List.length h.active, h.backups, h.outside,
    h.since, h.closed, h.bounded⟩

theorem op_holding (hname : path.fileName.isSome) (hcap : 1 ≤ limits.maxBytes)
    (hcount : 1 ≤ limits.backupCount) (hh : Holding path limits d₀ log w.disk full) {op : LogOp}
    {r : Except WriteError Unit}
    (h : Runs ((machine false).restrict noFaults) (op.run log) w (log', r) w') :
    r = .ok () ∧ Holding path limits d₀ log' w'.disk (full.write limits.maxBytes op.data) := by
  cases op with
  | write data =>
      obtain ⟨idle, w₁, hidle, h⟩ := runs_bind.mp h
      rw [← drift_disk (idlePasses_run hidle)] at hh
      exact writeLoop_run hname hcap hcount (Nat.le_add_left _ idle) hh h
  | reopen =>
      obtain ⟨opened, w₁, ho, h⟩ := runs_bind.mp h
      rw [hh.place, hh.bound] at ho
      obtain ⟨rfl, hw₁⟩ := openWriter_run hcap hcount ho
      obtain ⟨he, hd⟩ := runs_pure.mp h
      cases he
      rw [drift_disk hd, hw₁]
      exact ⟨rfl, reopened_holding hh⟩

theorem written_snoc (trace : List (LogOp × Except WriteError Unit)) (op : LogOp)
    (r : Except WriteError Unit) : written (trace ++ [(op, r)]) = written trace ++ op.data := by
  simp [written]

theorem readingOf_eq {count : Nat} {l : Log UInt8}
    (hbackups : ∀ i, i < count → content d (backupPath path (i + 1)) = l.backups[i]?)
    (hactive : (content d path).getD [] = l.active) : readingOf count path d = (l.keep count).reading := by
  have hfiles : (List.range count).reverse.flatMap (fun i => (content d (backupPath path (i + 1))).getD []) =
      (List.range count).reverse.flatMap (fun i => (l.backups[i]?).getD []) := by
    refine List.flatMap_congr (fun i hi => ?_)
    rw [hbackups i (by simpa using hi)]
  rw [readingOf, hfiles, Log.flatMap_kept, hactive]
  rfl

theorem keep_of_fits {count : Nat} {l : Log UInt8} (h : l.backups.length ≤ count) : l.keep count = l := by
  rw [Log.keep, List.take_of_length_le h]

/-- However bytes are split into writes and wherever the writer is opened
again: every call succeeds; the files are those of the bounded log of all bytes;
read from the oldest on, they hold what was there and what was written but for
the whole files that were pushed out; no file grows over the limit; a file that
was empty when it was opened is closed full; and no other path is touched. -/
theorem content_law (path : Path) (limits : LogLimits) (l₀ : Log UInt8) (log₀ log : RotatingLogWriter)
    (w w₀ w' : World) (trace : List (LogOp × Except WriteError Unit)) (hname : path.fileName.isSome)
    (hcap : 1 ≤ limits.maxBytes) (hcount : 1 ≤ limits.backupCount) (hsep : Separate w.disk)
    (hstored : Stored limits.backupCount path w.disk l₀)
    (hopen : Runs ((machine false).restrict noFaults) (openWriter path limits) w (.ok log₀) w₀)
    (hrun : Session ((machine false).restrict noFaults) LogOp.run log₀ w₀ trace log w') :
    (∀ entry ∈ trace, entry.2 = .ok ()) ∧
    (∀ i, i < limits.backupCount → content w'.disk (backupPath path (i + 1)) =
      (l₀.write limits.maxBytes (written trace)).backups[i]?) ∧
    content w'.disk path = some (l₀.write limits.maxBytes (written trace)).active ∧
    readingOf limits.backupCount path w.disk ++ written trace =
      ((l₀.write limits.maxBytes (written trace)).gone limits.backupCount).flatten ++
        readingOf limits.backupCount path w'.disk ∧
    (∀ file, file < w'.disk.next → (w.disk.next ≤ file ∨ w'.disk.data file ≠ w.disk.data file) →
      (w'.disk.data file).length ≤ limits.maxBytes) ∧
    (∀ file, file < w'.disk.next → w'.disk.names path ≠ some file → OpenedEmpty path w.disk file →
      (w'.disk.data file).length = limits.maxBytes) ∧
    ∀ p, (∀ i, i ≤ limits.backupCount → p ≠ slot path i) →
      w'.disk.names p = w.disk.names p ∧ content w'.disk p = content w.disk p := by
  obtain ⟨he, hw₀⟩ := openWriter_run hcap hcount hopen
  cases he
  have hstart : Holding path limits w.disk
      ⟨path, limits, (w.disk.create path).2, ((w.disk.create path).1.data (w.disk.create path).2).length⟩
      w₀.disk l₀ := by
    rw [hw₀]
    exact opened_holding hname hsep hstored
  obtain ⟨hok, hh⟩ := hrun.invariant (fun trace log w' => (∀ entry ∈ trace, entry.2 = .ok ()) ∧
      Holding path limits w.disk log w'.disk (l₀.write limits.maxBytes (written trace)))
    (by
      intro v hd
      rw [drift_disk hd]
      exact ⟨fun _ hm => absurd hm List.not_mem_nil, hstart⟩)
    (by
      rintro trace log u op log' r v ⟨hok, hh⟩ hr
      obtain ⟨rfl, hh'⟩ := op_holding hname hcap hcount hh hr
      rw [written_snoc, Log.write_append]
      refine ⟨?_, hh'⟩
      intro entry hm
      rcases List.mem_append.mp hm with hm | hm
      · exact hok entry hm
      · rw [List.mem_singleton.mp hm])
  have hactive : content w'.disk path = some (l₀.write limits.maxBytes (written trace)).active := by
    rw [content, hh.file, Option.map_some, hh.active]
  refine ⟨hok, hh.backups, hactive, ?_, ?_, ?_, hh.outside⟩
  · rw [readingOf_eq hstored.backups hstored.active, keep_of_fits hstored.fits,
      readingOf_eq hh.backups (by rw [hactive]; rfl), Log.reading_keep, Log.reading_write]
  · rintro file hlt hchanged
    rcases hh.bounded file hlt with ⟨hold, hsame⟩ | hle
    · rcases hchanged with hge | hne
      · omega
      · exact absurd hsame hne
    · exact hle
  · intro file hlt hne hempty
    refine hh.closed file hlt ?_ hempty
    rintro rfl
    exact hne hh.file

def samplePath : Path := parse "/p/logs/app.log"

def openedWorld : World := { emptyWorld with disk := (emptyWorld.disk.create samplePath).1 }

def openedLog : RotatingLogWriter := ⟨samplePath, ⟨2, 1⟩, 0, 0⟩

theorem sample_opens :
    Runs ((machine false).restrict noFaults) (openWriter samplePath ⟨2, 1⟩) emptyWorld (.ok openedLog)
      openedWorld := by
  refine runs_step (.createDirAll _) (.ok ()) ⟨rfl, trivial⟩ ?_
  refine runs_step (.openAppend _) (.ok 0) ⟨⟨rfl, rfl⟩, trivial⟩ ?_
  refine runs_step (.fileLen _) (.ok 0) ⟨⟨rfl, rfl⟩, trivial⟩ ?_
  exact .pure (Machine.drift_refl _ _)

def wroteLog : RotatingLogWriter := ⟨samplePath, ⟨2, 1⟩, 1, 1⟩

def wroteWorld : World :=
  { emptyWorld with disk := (((openedWorld.disk.append 0 [1, 2]).move samplePath
      (backupPath samplePath 1)).create samplePath).1.append 1 [3] }

/-- Three bytes go into files of two: one rotation. -/
theorem sample_session :
    Session ((machine false).restrict noFaults) LogOp.run openedLog openedWorld
      [(.write [1, 2, 3], .ok ())] wroteLog wroteWorld := by
  refine .single ?_
  refine runs_step .idlePasses 0 ⟨rfl, trivial⟩ ?_
  refine runs_step (.writeAll _ _) (.ok ()) ⟨rfl, trivial⟩ ?_
  refine runs_step (.removeFile _) (.error ⟨.notFound, "absent"⟩) ⟨⟨fun _ => rfl, rfl⟩, rfl⟩ ?_
  refine runs_step (.metadata _) (.ok ()) ⟨⟨rfl, rfl⟩, trivial⟩ ?_
  refine runs_step (.rename _ _) (.ok ()) ⟨⟨rfl, rfl⟩, trivial⟩ ?_
  refine runs_step (.openAppend _) (.ok 1) ⟨⟨rfl, rfl⟩, trivial⟩ ?_
  refine runs_step (.fileLen _) (.ok 0) ⟨⟨rfl, rfl⟩, trivial⟩ ?_
  refine runs_step (.writeAll _ _) (.ok ()) ⟨rfl, trivial⟩ ?_
  refine runs_step (.flush _) (.ok ()) ⟨rfl, trivial⟩ ?_
  exact .pure (Machine.drift_refl _ _)

theorem content_law_sample :
    content wroteWorld.disk (backupPath samplePath 1) = some [1, 2] ∧
      content wroteWorld.disk samplePath = some [3] := by
  have hlaw := content_law samplePath ⟨2, 1⟩ ⟨[], []⟩ openedLog wroteLog emptyWorld openedWorld wroteWorld
    [(.write [1, 2, 3], .ok ())] (by decide) (by decide) (by decide) ⟨nofun, nofun⟩
    ⟨by decide, fun _ _ => rfl, rfl⟩ sample_opens sample_session
  exact ⟨hlaw.2.1 0 (by decide), hlaw.2.2.1⟩

end LocalDevProxy.LogContent
