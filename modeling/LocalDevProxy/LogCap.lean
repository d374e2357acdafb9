import LocalDevProxy.LogContent
import LocalDevProxy.LogFaults

namespace LocalDevProxy.LogCap

open Lib.Interaction Paths Os LogRotation RotatingLogWriter LogSlots LogFaults

/-- A write that fails has left nothing of its bytes in the file. -/
def wholeWrites : (c : Call) → World → Ans c → World → Prop
  | .writeAll file _, w, .error _, w' => w'.disk.data file = w.disk.data file
  | _, _, _, _ => True

/-- The writer knows the length of its file, and no file of the log is over the limit. -/
structure Capped (log : RotatingLogWriter) (d : Disk) : Prop where
  size : log.size = (d.data log.file).length
  own : log.size ≤ log.limits.maxBytes
  files : ∀ file, InLog log.path log.limits.backupCount d file →
    (d.data file).length ≤ log.limits.maxBytes

/-- What a write needs besides: files are told apart by their numbers. -/
structure Sound (log : RotatingLogWriter) (d : Disk) : Prop extends Capped log d where
  separate : Separate d
  known : log.file < d.next

variable {log log' : RotatingLogWriter} {path : Path} {count : Nat} {d d' d'' : Disk} {w w' : World}

/-- What a rotation does to the files of a log, right or wrong as its checks may be:
no file changes, and none becomes one of the log but a new one, which is empty. -/
structure Turned (path : Path) (count : Nat) (d d' : Disk) : Prop where
  separate : Separate d'
  next : d.next ≤ d'.next
  files : ∀ file, InLog path count d' file → InLog path count d file ∨ d'.data file = []
  data : ∀ file, file < d.next → d'.data file = d.data file

theorem Turned.refl (hsep : Separate d) : Turned path count d d :=
  ⟨hsep, Nat.le_refl _, fun _ => .inl, fun _ _ => rfl⟩

theorem Turned.trans (h : Turned path count d d') (h' : Turned path count d' d'') : Turned path count d d'' where
  separate := h'.separate
  next := Nat.le_trans h.next h'.next
  files := by
    intro file hin
    rcases h'.files file hin with ⟨i, hi, hfile⟩ | hempty
    · refine (h.files file ⟨i, hi, hfile⟩).imp_right fun hempty => ?_
      rw [h'.data file (h.separate.bounded _ _ hfile), hempty]
    · exact .inr hempty
  data := by
    intro file hlt
    rw [h'.data file (Nat.lt_of_lt_of_le hlt h.next), h.data file hlt]

theorem names_of_unlink {p q : Path} {file : Nat} (h : (d.link p none).names q = some file) :
    d.names q = some file := by
  by_cases hq : q = p
  · rw [hq, d.names_link_self] at h
    cases h
  · rwa [d.names_link_of_ne hq] at h

theorem unlink_turned (hsep : Separate d) (p : Path) : Turned path count d (d.link p none) where
  separate := ⟨fun q file h => hsep.bounded q file (names_of_unlink h),
    fun q q' file h h' => hsep.distinct q q' file (names_of_unlink h) (names_of_unlink h')⟩
  next := Nat.le_refl _
  files := fun _ ⟨i, hi, hfile⟩ => .inl ⟨i, hi, names_of_unlink hfile⟩
  data := fun _ _ => rfl

theorem names_of_move {source destination q : Path} {file : Nat}
    (h : (d.move source destination).names q = some file) :
    (q = destination ∧ d.names source = some file) ∨ (q ≠ source ∧ d.names q = some file) := by
  by_cases hq : q = destination
  · rw [hq, d.names_move_destination] at h
    exact .inl ⟨hq, h⟩
  · by_cases hsource : q = source
    · rw [hsource, d.names_move_source (by rwa [← hsource])] at h
      cases h
    · rw [d.names_move_of_ne hsource hq] at h
      exact .inr ⟨hsource, h⟩

theorem move_turned (hsep : Separate d) {i : Nat} (hi : i ≤ count) (destination : Path) :
    Turned path count d (d.move (slot path i) destination) where
  separate := by
    refine ⟨fun q file h => ?_, fun q q' file h h' => ?_⟩
    · exact (names_of_move h).elim (fun hf => hsep.bounded _ _ hf.2) (fun hf => hsep.bounded _ _ hf.2)
    · rcases names_of_move h with ⟨rfl, hf⟩ | ⟨hne, hf⟩
      · rcases names_of_move h' with ⟨rfl, _⟩ | ⟨hne', hf'⟩
        · rfl
        · exact absurd (hsep.distinct _ _ _ hf' hf) hne'
      · rcases names_of_move h' with ⟨rfl, hf'⟩ | ⟨_, hf'⟩
        · exact absurd (hsep.distinct _ _ _ hf hf') hne
        · exact hsep.distinct _ _ _ hf hf'
  next := Nat.le_refl _
  files := by
    rintro file ⟨j, hj, hfile⟩
    rcases names_of_move hfile with ⟨_, hold⟩ | ⟨_, hold⟩
    · exact .inl ⟨i, hi, hold⟩
    · exact .inl ⟨j, hj, hold⟩
  data := fun _ _ => rfl

theorem create_turned (hsep : Separate d) (p : Path) : Turned path count d (d.create p).1 := by
  cases hp : d.names p with
  | some file =>
      rw [create_present hp]
      exact .refl hsep
  | none =>
      have hc := create_created hp
      refine ⟨hc.separate hsep, ?_, ?_, fun file hlt => hc.data file (Nat.ne_of_lt hlt)⟩
      · rw [hc.next]
        exact Nat.le_succ _
      · rintro file ⟨i, hi, hfile⟩
        rcases hc.origin hfile with ⟨_, rfl⟩ | hold
        · exact .inr hc.empty
        · exact .inl ⟨i, hi, hold⟩

theorem call_turned {c : Call} {b : Ans c} (hc : Rotates path count c) (ha : answers c w b w')
    (hsep : Separate w.disk) : Turned path count w.disk w'.disk := by
  cases c with
  | metadata p =>
      cases b <;> (obtain ⟨_, rfl⟩ := ha; exact .refl hsep)
  | removeFile p =>
      cases b with
      | ok _ =>
          obtain ⟨_, rfl⟩ := ha
          exact unlink_turned hsep p
      | error err =>
          obtain ⟨_, rfl⟩ := ha
          exact .refl hsep
  | rename source destination =>
      cases b with
      | ok _ =>
          obtain ⟨i, hi, rfl⟩ := hc
          obtain ⟨_, rfl⟩ := ha
          exact move_turned hsep hi destination
      | error err =>
          obtain rfl := ha
          exact .refl hsep
  | openAppend p =>
      cases b with
      | ok file =>
          obtain ⟨_, rfl⟩ := ha
          exact create_turned hsep p
      | error err =>
          obtain rfl := ha
          exact .refl hsep
  | fileLen file =>
      cases b with
      | ok size =>
          obtain ⟨_, rfl⟩ := ha
          exact .refl hsep
      | error err =>
          obtain rfl := ha
          exact .refl hsep
  | _ => cases hc

abbrev whole : Machine sys World := (machine false).constrain wholeWrites

theorem rotate_turned {r : Except IoError RotatingLogWriter} (hsep : Separate w.disk)
    (hr : Runs whole log.rotate w r w') : Turned log.path log.limits.backupCount w.disk w'.disk := by
  refine hr.frame (R := fun u v => Separate u.disk → Turned log.path log.limits.backupCount u.disk v.disk)
    (rotate_rotates log) ?_ ?_ ?_ hsep
  · intro u v x huv hvx hsep
    exact (huv hsep).trans (hvx (huv hsep).separate)
  · intro u v hd hsep
    rw [drift_disk hd]
    exact .refl hsep
  · intro c u b v hc ha
    exact call_turned hc ha.1

/-- Whatever came before it, a rotation that succeeds ends with the log opened again. -/
theorem rotate_reopens {M : Machine sys World} (hr : Runs M log.rotate w (.ok log') w') :
    ∃ u, Runs M log.reopen u (.ok log') w' := by
  have hshifts : ∀ {u}, Runs M log.shiftAll u (.ok log') w' → ∃ u, Runs M log.reopen u (.ok log') w' := by
    intro u hr
    rcases runs_tryThen.mp hr with ⟨_, he, _⟩ | ⟨_, u, _, hr⟩
    · cases he
    · obtain ⟨there, v, _, hr⟩ := runs_bind.mp hr
      cases there with
      | true =>
          rcases runs_tryThen.mp hr with ⟨_, he, _⟩ | ⟨_, u, _, hr⟩
          · cases he
          · exact ⟨u, hr⟩
      | false => exact ⟨v, hr⟩
  obtain ⟨removed, u, _, hr⟩ := runs_bind.mp hr
  cases removed with
  | ok _ => exact hshifts hr
  | error err =>
      dsimp only at hr
      split at hr
      · cases (runs_pure.mp hr).1
      · exact hshifts hr

structure Reopened (log log' : RotatingLogWriter) (d : Disk) : Prop where
  place : log'.path = log.path
  bound : log'.limits = log.limits
  file : d.names log.path = some log'.file
  size : log'.size = (d.data log'.file).length

theorem reopen_reopened (hr : Runs whole log.reopen w (.ok log') w') : Reopened log log' w'.disk := by
  have hfree : Runs ((machine false).restrict fun _ _ => True) log.reopen w (.ok log') w' :=
    hr.mono id fun ha => ⟨ha.1, trivial⟩
  rcases runs_tryThen.mp hfree with ⟨_, he, _⟩ | ⟨⟨file, size⟩, u, ho, hr⟩
  · cases he
  · obtain ⟨he, hd⟩ := runs_pure.mp hr
    rcases openAppend_run ho with ⟨hok, hu⟩ | ⟨_, hok, _⟩ | ⟨_, _, hok, _⟩
    · obtain ⟨rfl, rfl⟩ := Prod.mk.inj (Except.ok.inj hok)
      rw [Except.ok.inj he, drift_disk hd, hu]
      exact ⟨rfl, rfl, created_names _ _, rfl⟩
    · cases hok
    · cases hok

theorem Sound.turned (h : Sound log d) (ht : Turned log.path log.limits.backupCount d d') : Sound log d' where
  size := by rw [ht.data _ h.known, h.size]
  own := h.own
  files := by
    intro file hin
    rcases ht.files file hin with ⟨i, hi, hfile⟩ | hempty
    · rw [ht.data file (h.separate.bounded _ _ hfile)]
      exact h.files file ⟨i, hi, hfile⟩
    · rw [hempty]
      exact Nat.zero_le _
  separate := ht.separate
  known := Nat.lt_of_lt_of_le h.known ht.next

theorem Sound.reopened (h : Sound log d) (hr : Reopened log log' d) : Sound log' d where
  size := hr.size
  own := by
    rw [hr.size, hr.bound]
    exact h.files _ ⟨0, Nat.zero_le _, hr.file⟩
  files := by
    rw [hr.place, hr.bound]
    exact h.files
  separate := h.separate
  known := h.separate.bounded _ _ hr.file

theorem Sound.append (h : Sound log d) (bytes : List UInt8)
    (hfits : log.size + bytes.length ≤ log.limits.maxBytes) :
    Sound { log with size := log.size + bytes.length } (d.append log.file bytes) where
  size := by
    rw [append_data_self, List.length_append, ← h.size]
  own := hfits
  files := by
    intro file hin
    by_cases hown : file = log.file
    · rw [hown, append_data_self, List.length_append, ← h.size]
      exact hfits
    · rw [append_data_of_ne hown]
      exact h.files file hin
  separate := append_separate h.separate _ _
  known := h.known

theorem rotateIfFull_sound (h : Sound log w.disk) {r : Except IoError RotatingLogWriter}
    (hr : Runs whole log.rotateIfFull w r w') :
    Sound (r.toOption.getD log) w'.disk ∧ (r.toOption.getD log).path = log.path ∧
      (r.toOption.getD log).limits = log.limits := by
  unfold rotateIfFull at hr
  split at hr
  · have hturned := h.turned (rotate_turned h.separate hr)
    cases r with
    | error err => exact ⟨hturned, rfl, rfl⟩
    | ok log' =>
        obtain ⟨u, hopen⟩ := rotate_reopens hr
        have hreopened := reopen_reopened hopen
        exact ⟨hturned.reopened hreopened, hreopened.place, hreopened.bound⟩
  · obtain ⟨rfl, hd⟩ := runs_pure.mp hr
    rw [drift_disk hd]
    exact ⟨h, rfl, rfl⟩

theorem length_roomFor (log : RotatingLogWriter) (data : List UInt8) :
    (data.take (roomFor log data)).length = roomFor log data := by
  rw [List.length_take]
  exact Nat.min_eq_left (Nat.min_le_right _ _)

theorem roomFor_fits (h : log.size ≤ log.limits.maxBytes) (data : List UInt8) :
    log.size + (data.take (roomFor log data)).length ≤ log.limits.maxBytes := by
  have hroom : roomFor log data ≤ log.limits.maxBytes - log.size := Nat.min_le_left _ _
  rw [length_roomFor]
  omega

/-- A write that fits either adds its bytes, or fails and adds none. -/
theorem writeAll_sound (h : Sound log w.disk) {bytes : List UInt8}
    (hfits : log.size + bytes.length ≤ log.limits.maxBytes) {r : Except IoError Unit}
    (hr : Runs whole (perform (.writeAll log.file bytes)) w r w') :
    (r = .ok () ∧ Sound { log with size := log.size + bytes.length } w'.disk) ∨
      ∃ err, r = .error err ∧ Sound log w'.disk := by
  obtain ⟨u, v, hd, ⟨ha, hwhole⟩, hd'⟩ := runs_perform.mp hr
  rw [← drift_disk hd] at h
  rw [drift_disk hd']
  cases r with
  | ok _ =>
      obtain rfl := ha
      exact .inl ⟨rfl, h.append bytes hfits⟩
  | error err =>
      obtain ⟨n, rfl⟩ := ha
      have hnone : bytes.take n = [] := by
        have hsame : u.disk.data log.file ++ bytes.take n = u.disk.data log.file :=
          (append_data_self _ _).symm.trans hwhole
        simpa using hsame
      rw [hnone]
      exact .inr ⟨err, rfl, h.append [] h.own⟩

theorem idle_disk {idle : Nat} (hr : Runs whole (perform .idlePasses) w idle w') : w'.disk = w.disk := by
  obtain ⟨u, v, hd, ⟨rfl, _⟩, hd'⟩ := runs_perform.mp hr
  rw [drift_disk hd', drift_disk hd]

/-- One loop of a write, pass by pass: the bytes of a pass fit the room that the
rotation before it left. -/
theorem writeLoop_sound {fuel : Nat} {data : List UInt8} {r : Except WriteError Unit} (h : Sound log w.disk)
    (hr : Runs whole (writeLoop fuel log data) w (log', r) w') :
    Sound log' w'.disk ∧ log'.path = log.path ∧ log'.limits = log.limits := by
  have hdone : ∀ {fuel w log}, Sound log w.disk →
      Runs whole (writeLoop fuel log []) w (log', r) w' →
      Sound log' w'.disk ∧ log'.path = log.path ∧ log'.limits = log.limits := by
    intro fuel w log h hr
    obtain ⟨rfl, flushed, hf, _⟩ := writeLoop_flush hr
    obtain ⟨u, v, hd, ⟨hv, _⟩, hd'⟩ := runs_perform.mp hf
    obtain rfl := hv
    rw [drift_disk hd', drift_disk hd]
    exact ⟨h, rfl, rfl⟩
  induction fuel generalizing log w data with
  | zero =>
      cases data with
      | nil => exact hdone h hr
      | cons b rest =>
          obtain ⟨he, hd⟩ := runs_pure.mp hr
          cases he
          rw [drift_disk hd]
          exact ⟨h, rfl, rfl⟩
  | succ fuel ih =>
      cases data with
      | nil => exact hdone h hr
      | cons b rest =>
          cases writeLoop_pass hr with
          | unrotated err hrot => exact rotateIfFull_sound h hrot
          | underflow log₁ hrot _ => exact rotateIfFull_sound h hrot
          | unwritten log₁ err hrot hwrite =>
              obtain ⟨h₁, hpath, hlimits⟩ := rotateIfFull_sound h hrot
              rcases writeAll_sound h₁ (roomFor_fits h₁.own _) hwrite with ⟨hok, _⟩ | ⟨_, _, h₂⟩
              · cases hok
              · exact ⟨h₂, hpath, hlimits⟩
          | passed log₁ hrot hwrite hrest =>
              obtain ⟨h₁, hpath, hlimits⟩ := rotateIfFull_sound h hrot
              rcases writeAll_sound h₁ (roomFor_fits h₁.own _) hwrite with ⟨_, h₂⟩ | ⟨_, he, _⟩
              · rw [length_roomFor] at h₂
                obtain ⟨h', hpath', hlimits'⟩ := ih h₂ hrest
                exact ⟨h', hpath'.trans hpath, hlimits'.trans hlimits⟩
              · cases he

/-- As long as a write that fails leaves nothing of its bytes, and whatever else
fails, every state of a session of writes keeps to the limit. -/
theorem whole_writes_capped (log₀ log : RotatingLogWriter) (w₀ w : World)
    (trace : List (List UInt8 × Except WriteError Unit)) (hsep : Separate w₀.disk)
    (hfile : w₀.disk.names log₀.path = some log₀.file)
    (hsize : log₀.size = (w₀.disk.data log₀.file).length)
    (hfiles : ∀ file, InLog log₀.path log₀.limits.backupCount w₀.disk file →
      (w₀.disk.data file).length ≤ log₀.limits.maxBytes)
    (hrun : Session ((machine false).constrain wholeWrites) (fun data log => log.writeBytes data)
      log₀ w₀ trace log w) :
    log.path = log₀.path ∧ log.limits = log₀.limits ∧ Capped log w.disk := by
  have hown : log₀.size ≤ log₀.limits.maxBytes := by
    rw [hsize]
    exact hfiles _ ⟨0, Nat.zero_le _, hfile⟩
  have hstart : Sound log₀ w₀.disk := ⟨⟨hsize, hown, hfiles⟩, hsep, hsep.bounded _ _ hfile⟩
  have hreached : Sound log w.disk ∧ log.path = log₀.path ∧ log.limits = log₀.limits := by
    refine hrun.invariant (fun _ log w => Sound log w.disk ∧ log.path = log₀.path ∧
      log.limits = log₀.limits) ?_ ?_
    · intro v hd
      rw [drift_disk hd]
      exact ⟨hstart, rfl, rfl⟩
    · rintro _ log₁ w₁ data log₂ r w₂ ⟨h, hpath, hlimits⟩ hr
      obtain ⟨idle, u, hidle, hr⟩ := runs_bind.mp hr
      rw [← idle_disk hidle] at h
      obtain ⟨h', hpath', hlimits'⟩ := writeLoop_sound h hr
      exact ⟨h', hpath'.trans hpath, hlimits'.trans hlimits⟩
  exact ⟨hreached.2.1, hreached.2.2, hreached.1.toCapped⟩

theorem answer_whole (fails : Call → Bool) (c : Call) (w : World) :
    wholeWrites c w (Steady.answer fails c w).1 (Steady.answer fails c w).2 := by
  cases c with
  | writeAll file data =>
      simp only [Steady.answer]
      split
      · refine (append_data_self _ _).trans ?_
        rw [List.take_zero, List.append_nil]
      · trivial
  | _ => trivial

def wholeDriver (fails : Call → Bool) : Driver ((machine false).constrain wholeWrites) where
  inside := fun _ => True
  answer := Steady.answer fails
  sound := fun c w _ => ⟨Steady.answer_sound fails c w, answer_whole fails c w⟩
  stays := fun _ _ _ => trivial

def wroteThree : (RotatingLogWriter × Except WriteError Unit) × World :=
  (wholeDriver fun _ => false).run (LogContent.openedLog.writeBytes [65, 66, 67]) LogContent.openedWorld

theorem openedWorld_separate : Separate LogContent.openedWorld.disk := by
  have hempty : Separate emptyWorld.disk := ⟨nofun, nofun⟩
  exact create_separate hempty _

theorem openedWorld_files {file : Nat}
    (h : InLog LogContent.samplePath 1 LogContent.openedWorld.disk file) :
    (LogContent.openedWorld.disk.data file).length ≤ 2 := by
  obtain ⟨i, _, hfile⟩ := h
  have hlt : file < 1 := openedWorld_separate.bounded _ _ hfile
  obtain rfl : file = 0 := by omega
  exact Nat.zero_le _

theorem whole_writes_capped_three : Capped wroteThree.1.1 wroteThree.2.disk :=
  (whole_writes_capped LogContent.openedLog wroteThree.1.1 LogContent.openedWorld wroteThree.2
    [([65, 66, 67], wroteThree.1.2)] openedWorld_separate rfl rfl
    (fun _ => openedWorld_files)
    (.single ((wholeDriver fun _ => false).runs (LogContent.openedLog.writeBytes [65, 66, 67]) trivial).1)).2.2

/-- A system in which every write fails after its first byte. -/
def tornAnswer : (c : Call) → World → Ans c × World
  | .writeAll file data, w => (.error Steady.failure, { w with disk := w.disk.append file (data.take 1) })
  | c, w => Steady.answer (fun _ => false) c w

theorem tornAnswer_sound (c : Call) (w : World) :
    answers c w (tornAnswer c w).1 (tornAnswer c w).2 := by
  unfold tornAnswer
  split
  · exact ⟨1, rfl⟩
  · exact Steady.answer_sound _ _ _

def tornDriver : Driver (machine false) where
  inside := fun _ => True
  answer := tornAnswer
  sound := fun c w _ => tornAnswer_sound c w
  stays := fun _ _ _ => trivial

def wroteTorn : (RotatingLogWriter × Except WriteError Unit) × World :=
  tornDriver.run (LogContent.openedLog.writeBytes [65, 66]) LogContent.openedWorld

def wroteMore : (RotatingLogWriter × Except WriteError Unit) × World :=
  (Steady.driver false fun _ => false).run (wroteTorn.1.1.writeBytes [67, 68]) wroteTorn.2

theorem torn_session :
    Session (machine false) (fun data (log : RotatingLogWriter) => log.writeBytes data)
      LogContent.openedLog LogContent.openedWorld
      ([] ++ [([65, 66], wroteTorn.1.2)] ++ [([67, 68], wroteMore.1.2)]) wroteMore.1.1 wroteMore.2 :=
  .step (.step (.start (Machine.drift_refl _ _))
    (tornDriver.runs (LogContent.openedLog.writeBytes [65, 66]) trivial).1)
    ((Steady.driver false fun _ => false).runs (wroteTorn.1.1.writeBytes [67, 68]) trivial).1

/-- A write that failed after one byte is not counted, and the next write fills
the file past the limit. -/
theorem torn_write_exceeds :
    LogContent.openedLog.limits.maxBytes = 2 ∧
    LogContent.openedWorld.disk.names LogContent.openedLog.path = some LogContent.openedLog.file ∧
    LogContent.openedLog.size = (LogContent.openedWorld.disk.data LogContent.openedLog.file).length ∧
    ∃ err log w, Session (machine false) (fun data (log : RotatingLogWriter) => log.writeBytes data)
        LogContent.openedLog LogContent.openedWorld [([65, 66], .error err), ([67, 68], .ok ())] log w ∧
      log.size ≠ (w.disk.data log.file).length ∧
      w.disk.names LogContent.openedLog.path = some log.file ∧
      2 < (w.disk.data log.file).length :=
  ⟨rfl, rfl, rfl, .io Steady.failure, wroteMore.1.1, wroteMore.2, torn_session, by decide, rfl, by decide⟩

end LocalDevProxy.LogCap
