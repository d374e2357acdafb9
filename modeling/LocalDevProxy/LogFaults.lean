import LocalDevProxy.LogSlots
import LocalDevProxy.Steady

namespace LocalDevProxy.LogFaults

open Lib.Interaction Paths Os LogRotation RotatingLogWriter LogSlots

structure Attempt where
  before : Disk
  after : Disk
  failed : Bool

/-- What a run of writes consists of: bytes appended, flushes and attempts to
rotate, of which only one that succeeds gives the writer another file. -/
inductive Trail (M : Machine sys World) :
    RotatingLogWriter → World → List Attempt → RotatingLogWriter → World → Prop
  | done (log : RotatingLogWriter) (w : World) : Trail M log w [] log w
  | idle {log log' : RotatingLogWriter} {w w₁ w' : World} {attempts : List Attempt} :
      M.drift w w₁ → Trail M log w₁ attempts log' w' → Trail M log w attempts log' w'
  | wrote {log log' : RotatingLogWriter} {w w₁ w' : World} {attempts : List Attempt}
      {r : Except IoError Unit} (bytes : List UInt8) (size : Nat) :
      Runs M (perform (.writeAll log.file bytes)) w r w₁ →
      Trail M { log with size } w₁ attempts log' w' → Trail M log w attempts log' w'
  | flushed {log log' : RotatingLogWriter} {w w₁ w' : World} {attempts : List Attempt}
      {r : Except IoError Unit} : Runs M (perform (.flush log.file)) w r w₁ →
      Trail M log w₁ attempts log' w' → Trail M log w attempts log' w'
  | attempt {log log' : RotatingLogWriter} {w w₁ w' : World} {attempts : List Attempt}
      {r : Except IoError RotatingLogWriter} : Runs M log.rotate w r w₁ →
      Trail M (r.toOption.getD log) w₁ attempts log' w' →
      Trail M log w (⟨w.disk, w₁.disk, r.toOption.isNone⟩ :: attempts) log' w'

variable {M : Machine sys World} {log log' : RotatingLogWriter} {w w' : World}

theorem Trail.trans {log₁ : RotatingLogWriter} {w₁ : World} {as bs : List Attempt}
    (h : Trail M log w as log₁ w₁) (h' : Trail M log₁ w₁ bs log' w') :
    Trail M log w (as ++ bs) log' w' := by
  induction h with
  | done _ _ => exact h'
  | idle hd _ ih => exact .idle hd (ih h')
  | wrote bytes size hr _ ih => exact .wrote bytes size hr (ih h')
  | flushed hr _ ih => exact .flushed hr (ih h')
  | attempt hr _ ih => exact .attempt hr (ih h')

theorem rotateIfFull_trail {r : Except IoError RotatingLogWriter} (h : Runs M log.rotateIfFull w r w') :
    ∃ attempts, Trail M log w attempts (r.toOption.getD log) w' := by
  unfold rotateIfFull at h
  split at h
  · exact ⟨_, .attempt h (.done _ _)⟩
  · obtain ⟨rfl, hd⟩ := runs_pure.mp h
    exact ⟨[], .idle hd (.done _ _)⟩

theorem writeLoop_trail {fuel : Nat} {data : List UInt8} {r : Except WriteError Unit}
    (h : Runs M (writeLoop fuel log data) w (log', r) w') :
    ∃ attempts, Trail M log w attempts log' w' := by
  have hdone : ∀ {fuel w log}, Runs M (writeLoop fuel log []) w (log', r) w' →
      ∃ attempts, Trail M log w attempts log' w' := by
    intro fuel w log h
    obtain ⟨rfl, flushed, hf, _⟩ := writeLoop_flush h
    exact ⟨[], .flushed hf (.done _ _)⟩
  induction fuel generalizing log w data with
  | zero =>
      cases data with
      | nil => exact hdone h
      | cons b rest =>
          obtain ⟨he, hd⟩ := runs_pure.mp h
          cases he
          exact ⟨[], .idle hd (.done _ _)⟩
  | succ fuel ih =>
      cases data with
      | nil => exact hdone h
      | cons b rest =>
          cases writeLoop_pass h with
          | unrotated err hrot => exact rotateIfFull_trail hrot
          | underflow log₁ hrot _ => exact rotateIfFull_trail hrot
          | unwritten log₁ err hrot hwrite =>
              obtain ⟨as, hs⟩ := rotateIfFull_trail hrot
              exact ⟨_, hs.trans (.wrote _ log'.size hwrite (.done _ _))⟩
          | passed log₁ hrot hwrite hrest =>
              obtain ⟨as, hs⟩ := rotateIfFull_trail hrot
              obtain ⟨bs, hs'⟩ := ih hrest
              exact ⟨_, hs.trans (.wrote _ _ hwrite hs')⟩

/-- Nobody else is at the files, and no file that is there is taken for missing. -/
abbrev checked : Machine sys World := (machine false).restrict checksRight

/-- The run of a session of writes, attempt by attempt. -/
theorem session_trail {trace : List (List UInt8 × Except WriteError Unit)}
    (h : Session checked (fun data log => log.writeBytes data) log w trace log' w') :
    ∃ attempts, Trail checked log w attempts log' w' := by
  refine h.invariant (fun _ log' w' => ∃ attempts, Trail checked log w attempts log' w') ?_ ?_
  · exact fun v hd => ⟨[], .idle hd (.done _ _)⟩
  · rintro _ log₁ w₁ data log₂ r w₂ ⟨as, hs⟩ hr
    obtain ⟨idle, w₃, hidle, hr⟩ := runs_bind.mp hr
    obtain ⟨bs, hs'⟩ := writeLoop_trail hr
    exact ⟨_, hs.trans (.idle (idlePasses_run hidle) hs')⟩

def InLog (path : Path) (count : Nat) (d : Disk) (file : Nat) : Prop :=
  ∃ i, i ≤ count ∧ d.names (slot path i) = some file

/-- Every file of the log is still one, with all that it held, but for one
file at most, the oldest. -/
def Keeps (path : Path) (count : Nat) (oldest : Option Nat) (d d' : Disk) : Prop :=
  ∀ file, InLog path count d file →
    (InLog path count d' file ∧ d.data file <+: d'.data file) ∨ oldest = some file

variable {path : Path} {count : Nat} {oldest : Option Nat} {d d' d'' : Disk}

theorem Keeps.trans (h : Keeps path count oldest d d') (h' : Keeps path count oldest d' d'') :
    Keeps path count oldest d d'' := by
  intro file hfile
  rcases h file hfile with ⟨hin, hprefix⟩ | ho
  · rcases h' file hin with ⟨hin', hprefix'⟩ | ho
    · exact .inl ⟨hin', hprefix.trans hprefix'⟩
    · exact .inr ho
  · exact .inr ho

structure Grown (d d' : Disk) : Prop where
  names : d'.names = d.names
  next : d'.next = d.next
  data : ∀ file, d.data file <+: d'.data file

theorem Grown.refl (d : Disk) : Grown d d := ⟨rfl, rfl, fun _ => List.prefix_refl _⟩

theorem Grown.trans (h : Grown d d') (h' : Grown d' d'') : Grown d d'' :=
  ⟨h'.names.trans h.names, h'.next.trans h.next, fun file => (h.data file).trans (h'.data file)⟩

theorem Grown.keeps (h : Grown d d') : Keeps path count oldest d d' := by
  rintro file ⟨i, hi, hfile⟩
  exact .inl ⟨⟨i, hi, by rw [h.names, hfile]⟩, h.data file⟩

theorem Grown.separate (hsep : Separate d) (h : Grown d d') : Separate d' := by
  constructor
  · rw [h.names, h.next]
    exact hsep.bounded
  · rw [h.names]
    exact hsep.distinct

theorem grown_append (d : Disk) (file : Nat) (bytes : List UInt8) : Grown d (d.append file bytes) := by
  refine ⟨rfl, rfl, fun other => ?_⟩
  by_cases h : other = file
  · subst h
    exact append_data_self other bytes ▸ List.prefix_append _ _
  · exact append_data_of_ne h bytes ▸ List.prefix_refl _

/-- Moving files up keeps every one of them but the one that was in the last slot. -/
theorem shifted_keeps (hname : path.fileName.isSome) {low : Nat} (h : Shifted path low count d d') :
    Keeps path (count + 1) (d.names (slot path (count + 1))) d d' := by
  rintro file ⟨i, hi, hfile⟩
  rw [h.data]
  by_cases hlast : i = count + 1
  · subst hlast
    exact .inr hfile
  · by_cases hmoved : low ≤ i
    · refine .inl ⟨⟨i + 1, by omega, ?_⟩, List.prefix_refl _⟩
      rw [h.moved i hmoved (by omega)]
      exact hfile
    · refine .inl ⟨⟨i, hi, ?_⟩, List.prefix_refl _⟩
      rw [h.kept]
      · exact hfile
      · intro j hj _ he
        have := slot_inj hname he
        omega

theorem create_keeps (hsep : Separate d) (hvacant : d.names path = none) :
    Keeps path count oldest d (d.create path).1 := by
  rintro file ⟨i, hi, hfile⟩
  have hc := create_created hvacant
  have hne : slot path i ≠ path := by
    intro he
    rw [he, hvacant] at hfile
    cases hfile
  have hdata := hc.data file (Nat.ne_of_lt (hsep.bounded _ _ hfile))
  exact .inl ⟨⟨i, hi, (hc.names _ hne).trans hfile⟩, hdata.symm ▸ List.prefix_refl _⟩

/-- However an attempt to rotate ends, it loses no file of the log but the one
that the last slot held when it began. -/
theorem rotated_keeps {P : (c : Call) → Ans c → Prop} {r : Except IoError RotatingLogWriter}
    (hname : log.path.fileName.isSome) (hcount : 1 ≤ log.limits.backupCount) (hsep : Separate d)
    (h : Rotated P log d r d') :
    Keeps log.path log.limits.backupCount (d.names (slot log.path log.limits.backupCount)) d d' ∧
      Separate d' := by
  have hshifted : ∀ {low d'}, Shifted log.path low (log.limits.backupCount - 1) d d' →
      Keeps log.path log.limits.backupCount (d.names (slot log.path log.limits.backupCount)) d d' := by
    intro low d' hs
    have hk := shifted_keeps hname hs
    rwa [Nat.sub_add_cancel hcount] at hk
  cases h with
  | refused _ _ _ _ => exact ⟨(Grown.refl d).keeps, hsep⟩
  | stopped _ _ _ hs _ => exact ⟨hshifted hs, hs.separate hname hsep⟩
  | unread _ _ hs _ =>
      have hsep' := hs.separate hname hsep
      exact ⟨(hshifted hs).trans (create_keeps hsep' hs.vacant), create_separate hsep' _⟩
  | opened hs =>
      have hsep' := hs.separate hname hsep
      exact ⟨(hshifted hs).trans (create_keeps hsep' hs.vacant), create_separate hsep' _⟩

/-- Attempts one after another, with bytes appended in between. Each loses at
most the file that the last slot held when it began. -/
def Linked (path : Path) (count : Nat) : Disk → List Attempt → Prop
  | _, [] => True
  | d, a :: attempts => Grown d a.before ∧
      Keeps path count (a.before.names (slot path count)) a.before a.after ∧
      Linked path count a.after attempts

theorem linked_grown {attempts : List Attempt} (h : Grown d d') (hl : Linked path count d' attempts) :
    Linked path count d attempts := by
  cases attempts with
  | nil => trivial
  | cons a attempts => exact ⟨h.trans hl.1, hl.2⟩

theorem linked_append {as bs : List Attempt} (h : Linked path count d (as ++ bs)) :
    ∃ d', Linked path count d' bs := by
  induction as generalizing d with
  | nil => exact ⟨d, h⟩
  | cons a as ih => exact ih h.2.2

variable {P : (c : Call) → Ans c → Prop}

theorem perform_grown {c : Call} {b : Ans c} (h : Runs ((machine false).restrict P) (perform c) w b w')
    (hc : ∀ {u v}, answers c u b v → Grown u.disk v.disk) : Grown w.disk w'.disk := by
  obtain ⟨u, v, hd, ⟨ha, _⟩, hd'⟩ := runs_perform.mp h
  have hg := hc ha
  rwa [drift_disk hd, ← drift_disk hd'] at hg

theorem writeAll_grown {file : Nat} {bytes : List UInt8} {r : Except IoError Unit}
    (h : Runs ((machine false).restrict P) (perform (.writeAll file bytes)) w r w') :
    Grown w.disk w'.disk := by
  refine perform_grown h (fun ha => ?_)
  cases r with
  | ok _ =>
      obtain rfl := ha
      exact grown_append _ _ _
  | error err =>
      obtain ⟨n, rfl⟩ := ha
      exact grown_append _ _ _

theorem flush_grown {file : Nat} {r : Except IoError Unit}
    (h : Runs ((machine false).restrict P) (perform (.flush file)) w r w') : Grown w.disk w'.disk := by
  refine perform_grown h (fun ha => ?_)
  obtain rfl := ha
  exact .refl _

/-- A rotation leaves the writer with its path and its limits. -/
theorem rotated_same {r : Except IoError RotatingLogWriter} (h : Rotated P log d r d') :
    (r.toOption.getD log).path = log.path ∧ (r.toOption.getD log).limits = log.limits := by
  cases h <;> exact ⟨rfl, rfl⟩

theorem trail_linked {attempts : List Attempt} (hname : log.path.fileName.isSome)
    (hcount : 1 ≤ log.limits.backupCount) (hsep : Separate w.disk) (h : Trail checked log w attempts log' w') :
    Linked log.path log.limits.backupCount w.disk attempts := by
  induction h with
  | done _ _ => trivial
  | idle hd _ ih =>
      rw [← drift_disk hd] at hsep ⊢
      exact ih hname hcount hsep
  | wrote bytes size hr _ ih =>
      have hg := writeAll_grown hr
      exact linked_grown hg (ih hname hcount (hg.separate hsep))
  | flushed hr _ ih =>
      have hg := flush_grown hr
      exact linked_grown hg (ih hname hcount (hg.separate hsep))
  | attempt hr _ ih =>
      have hrotated := rotate_run id hname hcount hr
      obtain ⟨hkeeps, hsep'⟩ := rotated_keeps hname hcount hsep hrotated
      obtain ⟨hpath, hlimits⟩ := rotated_same hrotated
      rw [hpath, hlimits] at ih
      exact ⟨.refl _, hkeeps, ih hname hcount hsep'⟩

/-- An attempt of a run and its retries: attempts each of which follows one that failed. -/
def Episode (attempts : List Attempt) (first : Attempt) (retries : List Attempt) : Prop :=
  ∃ before after, attempts = before ++ (first :: retries ++ after) ∧
    ∀ a ∈ (first :: retries).dropLast, a.failed = true

/-- Every retry finds the last slot vacant, or still with the file that it held
before the first attempt. -/
def Careful (path : Path) (count : Nat) (attempts : List Attempt) : Prop :=
  ∀ first retries, Episode attempts first retries → ∀ a ∈ retries,
    a.before.names (slot path count) = none ∨
      a.before.names (slot path count) = first.before.names (slot path count)

/-- What an attempt and all before it back to the first one may lose together:
the file that the last slot held at first, and so one file at most. -/
structure Spared (path : Path) (count : Nat) (first a : Attempt) : Prop where
  history : Keeps path count (first.before.names (slot path count)) first.before a.after
  removal : Keeps path count (first.before.names (slot path count)) a.before a.after

theorem retries_spared {first : Attempt} {retries after : List Attempt}
    (hcareful : ∀ a ∈ retries, a.before.names (slot path count) = none ∨
      a.before.names (slot path count) = first.before.names (slot path count))
    (hk : Keeps path count (first.before.names (slot path count)) first.before d)
    (hl : Linked path count d (retries ++ after)) : ∀ a ∈ retries, Spared path count first a := by
  induction retries generalizing d with
  | nil => exact fun _ ha => absurd ha List.not_mem_nil
  | cons b retries ih =>
      obtain ⟨hgrown, hb, hl⟩ := hl
      have hremoval : Keeps path count (first.before.names (slot path count)) b.before b.after := by
        intro file hfile
        rcases hb file hfile with hin | hlost
        · exact .inl hin
        · rcases hcareful b (List.mem_cons_self ..) with hnone | hsame
          · rw [hnone] at hlost
            cases hlost
          · exact .inr (hsame ▸ hlost)
      have hhistory := (hk.trans hgrown.keeps).trans hremoval
      rintro a (_ | ⟨_, ha⟩)
      · exact ⟨hhistory, hremoval⟩
      · exact ih (fun a ha => hcareful a (List.mem_cons_of_mem _ ha)) hhistory hl a ha

/-- Every run of writes goes through attempts to rotate. Where no file is taken for
missing and its retries are careful, a rotation and its retries lose the oldest
file at most, whatever fails and however often. -/
theorem careful_retries_spare (log log' : RotatingLogWriter) (w w' : World)
    (trace : List (List UInt8 × Except WriteError Unit)) (hname : log.path.fileName.isSome)
    (hcount : 1 ≤ log.limits.backupCount) (hsep : Separate w.disk)
    (hrun : Session checked (fun data log => log.writeBytes data) log w trace log' w') :
    (∃ attempts, Trail checked log w attempts log' w') ∧
    ∀ attempts, Trail checked log w attempts log' w' → Careful log.path log.limits.backupCount attempts →
      ∀ first retries, Episode attempts first retries → ∀ a ∈ first :: retries,
        Spared log.path log.limits.backupCount first a := by
  refine ⟨session_trail hrun, ?_⟩
  intro attempts htrail hcareful first retries hepisode
  have hretries := hcareful first retries hepisode
  obtain ⟨before, after, rfl, _⟩ := hepisode
  obtain ⟨d', hl⟩ := linked_append (trail_linked hname hcount hsep htrail)
  obtain ⟨_, hfirst, hl⟩ := hl
  rintro a (_ | ⟨_, ha⟩)
  · exact ⟨hfirst, hfirst⟩
  · exact retries_spared hretries hfirst hl a ha

def fullPath : Path := parse "/p/logs/app.log"

/-- Files of one byte each: the active one, which is full, and one backup. -/
def fullDisk (index : Nat) : Disk where
  names := fun p => if p = fullPath then some 0 else if p = backupPath fullPath index then some 1 else none
  data := fun file => if file = 0 then [65] else if file = 1 then [66] else []
  next := 2

theorem fullDisk_separate (index : Nat) : Separate (fullDisk index) := by
  have hcases : ∀ p file, (fullDisk index).names p = some file →
      (p = fullPath ∧ file = 0) ∨ (p = backupPath fullPath index ∧ file = 1) := by
    intro p file h
    simp only [fullDisk] at h
    split at h
    · rename_i he
      exact .inl ⟨he, (Option.some.inj h).symm⟩
    · split at h
      · rename_i he
        exact .inr ⟨he, (Option.some.inj h).symm⟩
      · cases h
  have hnext : (fullDisk index).next = 2 := rfl
  refine ⟨?_, ?_⟩
  · intro p file h
    rcases hcases p file h with ⟨_, rfl⟩ | ⟨_, rfl⟩ <;> omega
  · intro p q file hp hq
    rcases hcases p file hp with ⟨rfl, rfl⟩ | ⟨rfl, rfl⟩ <;>
      rcases hcases q _ hq with ⟨rfl, he⟩ | ⟨rfl, he⟩ <;> first | rfl | cases he

def fullWorld (index : Nat) : World := ⟨fun _ => none, fullDisk index⟩

def fullLog (backupCount : Nat) : RotatingLogWriter := ⟨fullPath, ⟨1, backupCount⟩, 0, 1⟩

section

def busy : IoError := ⟨.other, "busy"⟩

/-- The second of two backups was removed and the active file moved, and no new one could be created. -/
def halfWorld : World :=
  { fullWorld 2 with disk := ((fullDisk 2).link (backupPath fullPath 2) none).move fullPath (backupPath fullPath 1) }

def turnedWorld : World :=
  { halfWorld with disk :=
    ((halfWorld.disk.move (backupPath fullPath 1) (backupPath fullPath 2)).create fullPath).1 }

def turnedLog : RotatingLogWriter := { fullLog 2 with file := 2, size := 0 }

def finalWorld : World := { turnedWorld with disk := turnedWorld.disk.append 2 [67] }

def finalLog : RotatingLogWriter := { turnedLog with size := 1 }

theorem half_rotate : Runs checked (fullLog 2).rotate (fullWorld 2) (.error busy) halfWorld := by
  refine runs_step (.removeFile _) (.ok ()) ⟨⟨rfl, rfl⟩, trivial⟩ ?_
  refine runs_step (.metadata _) (.error ⟨.notFound, "absent"⟩) ⟨⟨fun _ => rfl, rfl⟩, rfl⟩ ?_
  refine runs_step (.metadata _) (.ok ()) ⟨⟨rfl, rfl⟩, trivial⟩ ?_
  refine runs_step (.rename _ _) (.ok ()) ⟨⟨rfl, rfl⟩, trivial⟩ ?_
  refine runs_step (.openAppend _) (.error busy) ⟨rfl, trivial⟩ ?_
  exact .pure (Machine.drift_refl _ _)

theorem turned_rotate : Runs checked (fullLog 2).rotate halfWorld (.ok turnedLog) turnedWorld := by
  refine runs_step (.removeFile _) (.error ⟨.notFound, "absent"⟩) ⟨⟨fun _ => rfl, rfl⟩, trivial⟩ ?_
  refine runs_step (.metadata _) (.ok ()) ⟨⟨rfl, rfl⟩, trivial⟩ ?_
  refine runs_step (.rename _ _) (.ok ()) ⟨⟨rfl, rfl⟩, trivial⟩ ?_
  refine runs_step (.metadata _) (.error ⟨.notFound, "absent"⟩) ⟨⟨fun _ => rfl, rfl⟩, rfl⟩ ?_
  refine runs_step (.openAppend _) (.ok 2) ⟨⟨rfl, rfl⟩, trivial⟩ ?_
  refine runs_step (.fileLen _) (.ok 0) ⟨⟨rfl, rfl⟩, trivial⟩ ?_
  exact .pure (Machine.drift_refl _ _)

theorem final_writes : Runs checked (perform (.writeAll turnedLog.file [67])) turnedWorld (.ok ()) finalWorld :=
  runs_perform.mpr ⟨_, _, Machine.drift_refl _ _, ⟨rfl, trivial⟩, Machine.drift_refl _ _⟩

theorem final_flushes : Runs checked (perform (.flush finalLog.file)) finalWorld (.ok ()) finalWorld :=
  runs_perform.mpr ⟨_, _, Machine.drift_refl _ _, ⟨rfl, trivial⟩, Machine.drift_refl _ _⟩

theorem no_idle {b : UInt8} {r : RotatingLogWriter × Except WriteError Unit}
    (h : Runs checked (writeLoop 1 log [b]) w r w') : Runs checked (log.writeBytes [b]) w r w' :=
  runs_bind.mpr ⟨0, w, runs_perform.mpr ⟨_, _, Machine.drift_refl _ _, ⟨rfl, trivial⟩, Machine.drift_refl _ _⟩, h⟩

theorem retried_session :
    Session checked (fun data (log : RotatingLogWriter) => log.writeBytes data) (fullLog 2) (fullWorld 2)
      ([] ++ [([67], .error (.io busy))] ++ [([67], .ok ())]) finalLog finalWorld := by
  have hfails : Runs checked ((fullLog 2).writeBytes [67]) (fullWorld 2) (fullLog 2, .error (.io busy)) halfWorld := by
    refine no_idle ?_
    exact runs_bind.mpr ⟨_, _, half_rotate, runs_pure.mpr ⟨rfl, Machine.drift_refl _ _⟩⟩
  have hwrites : Runs checked ((fullLog 2).writeBytes [67]) halfWorld (finalLog, .ok ()) finalWorld := by
    refine no_idle ?_
    refine runs_bind.mpr ⟨_, _, turned_rotate, ?_⟩
    refine runs_bind.mpr ⟨_, _, final_writes, ?_⟩
    exact runs_bind.mpr ⟨_, _, final_flushes, runs_pure.mpr ⟨rfl, Machine.drift_refl _ _⟩⟩
  exact .step (.step (.start (Machine.drift_refl _ _)) hfails) hwrites

def half : Attempt := ⟨fullDisk 2, halfWorld.disk, true⟩

def turned : Attempt := ⟨halfWorld.disk, turnedWorld.disk, false⟩

theorem retried_trail : Trail checked (fullLog 2) (fullWorld 2) [half, turned] finalLog finalWorld :=
  .attempt half_rotate (.attempt turned_rotate (.wrote [67] 1 final_writes (.flushed final_flushes (.done _ _))))

theorem retried_careful : Careful fullPath 2 [half, turned] := by
  rintro first retries ⟨before, after, he, hfailed⟩ a ha
  have hmem : a ∈ [turned] := by
    cases before with
    | nil =>
        rw [(List.cons.inj he).2]
        exact List.mem_append_left _ ha
    | cons b before =>
        rw [(List.cons.inj he).2]
        simp [ha]
  rw [List.mem_singleton.mp hmem]
  exact .inl rfl

/-- A rotation that was left half done is brought to its end, and the oldest file alone is lost. -/
theorem careful_retries_spare_retried :
    Spared fullPath 2 half turned ∧ InLog fullPath 2 turned.after 0 ∧ ¬ InLog fullPath 2 turned.after 1 := by
  have hspared := (careful_retries_spare (fullLog 2) finalLog (fullWorld 2) finalWorld _ (by decide) (by decide)
    (fullDisk_separate 2) retried_session).2 [half, turned] retried_trail retried_careful half [turned]
    ⟨[], [], rfl, by simp [half]⟩ turned (List.mem_cons_of_mem _ (List.mem_cons_self ..))
  have hgone : ∀ i, i < 3 → turned.after.names (slot fullPath i) ≠ some 1 := by decide
  refine ⟨hspared, ⟨2, Nat.le_refl 2, rfl⟩, ?_⟩
  rintro ⟨i, hi, hfile⟩
  exact hgone i (by omega) hfile

end

def uncreatable : Call → Bool
  | .openAppend _ => true
  | _ => false

def writeRefused : (RotatingLogWriter × Except WriteError Unit) × World :=
  (Steady.driver false uncreatable).run ((fullLog 1).writeBytes [67]) (fullWorld 1)

def writeRetried : (RotatingLogWriter × Except WriteError Unit) × World :=
  (Steady.driver false (fun _ => false)).run (writeRefused.1.1.writeBytes [67]) writeRefused.2

theorem erased_session :
    Session (machine false) (fun data (log : RotatingLogWriter) => log.writeBytes data) (fullLog 1) (fullWorld 1)
      ([] ++ [([67], writeRefused.1.2)] ++ [([67], writeRetried.1.2)]) writeRetried.1.1 writeRetried.2 :=
  .step (.step (.start (Machine.drift_refl _ _))
    ((Steady.driver false uncreatable).runs ((fullLog 1).writeBytes [67]) trivial).1)
    ((Steady.driver false (fun _ => false)).runs (writeRefused.1.1.writeBytes [67]) trivial).1

/-- After a rotation that failed only to create the new file, the retry removes
the file that had just been rotated: both files of the log are gone. -/
theorem retry_removes_history :
    (fullDisk 1).names (slot fullPath 0) = some 0 ∧ (fullDisk 1).names (slot fullPath 1) = some 1 ∧
    ∃ err log w, Session (machine false) (fun data (log : RotatingLogWriter) => log.writeBytes data)
        (fullLog 1) (fullWorld 1) [([67], .error err), ([67], .ok ())] log w ∧
      ¬ InLog fullPath 1 w.disk 0 ∧ ¬ InLog fullPath 1 w.disk 1 := by
  have hgone : ∀ i, i < 2 → writeRetried.2.disk.names (slot fullPath i) ≠ some 0 ∧
      writeRetried.2.disk.names (slot fullPath i) ≠ some 1 := by decide
  refine ⟨rfl, rfl, .io Steady.failure, writeRetried.1.1, writeRetried.2, erased_session, ?_, ?_⟩
  · rintro ⟨i, hi, hfile⟩
    exact (hgone i (by omega)).1 hfile
  · rintro ⟨i, hi, hfile⟩
    exact (hgone i (by omega)).2 hfile

def unreadable : Call → Bool
  | .metadata path => path = backupPath fullPath 1
  | _ => false

def rotatedOver : (Except IoError RotatingLogWriter) × World :=
  (Steady.driver false unreadable).run (fullLog 2).rotate (fullWorld 1)

/-- A backup that is taken for missing stays where it is, and the active file is renamed over it. -/
theorem missed_backup_overwritten :
    (fullDisk 1).names (slot fullPath 1) = some 1 ∧
    ∃ log w, Runs (machine false) (fullLog 2).rotate (fullWorld 1) (.ok log) w ∧ ¬ InLog fullPath 2 w.disk 1 := by
  have hgone : ∀ i, i < 3 → rotatedOver.2.disk.names (slot fullPath i) ≠ some 1 := by decide
  refine ⟨rfl, { fullLog 2 with file := 2, size := 0 }, rotatedOver.2,
    ((Steady.driver false unreadable).runs (fullLog 2).rotate trivial).1, ?_⟩
  rintro ⟨i, hi, hfile⟩
  exact hgone i (by omega) hfile

end LocalDevProxy.LogFaults
