import LocalDevProxy.Lib.Moments
import LocalDevProxy.FileOwners
import LocalDevProxy.LogContent

namespace LocalDevProxy.LogMoments

open Lib.Interaction Lib.Moments Paths Os LogRotation RotatingLogWriter LogFamilies LogSlots LogContent FileOwners

def heldBelow (path : Path) (d : Disk) : Nat → List UInt8
  | 0 => []
  | n + 1 => (content d (slot path n)).getD [] ++ heldBelow path d n

variable {path : Path} {d d' : Disk} {count n : Nat}

theorem heldBelow_succ (path : Path) (d : Disk) (n : Nat) :
    heldBelow path d (n + 1) = (content d (slot path n)).getD [] ++ heldBelow path d n := rfl

theorem heldBelow_eq (path : Path) (d : Disk) (count : Nat) :
    heldBelow path d (count + 1) = readingOf count path d := by
  induction count with
  | zero => simp [heldBelow, readingOf, slot]
  | succ count ih =>
      rw [heldBelow, ih, readingOf, readingOf, List.range_succ, List.reverse_append, List.flatMap_append]
      simp [slot]

theorem heldBelow_congr (h : ∀ i, i < n → (content d' (slot path i)).getD [] = (content d (slot path i)).getD []) :
    heldBelow path d' n = heldBelow path d n := by
  induction n with
  | zero => rfl
  | succ n ih => rw [heldBelow, heldBelow, h n (Nat.lt_succ_self n), ih fun i hi => h i (Nat.lt_succ_of_lt hi)]

theorem readingOf_congr
    (h : ∀ i, i ≤ count → (content d' (slot path i)).getD [] = (content d (slot path i)).getD []) :
    readingOf count path d' = readingOf count path d := by
  rw [← heldBelow_eq, ← heldBelow_eq]
  exact heldBelow_congr fun i hi => h i (Nat.le_of_lt_succ hi)

theorem slot_ne (hname : path.fileName.isSome) {i j : Nat} (h : i ≠ j) : slot path i ≠ slot path j :=
  fun hs => h (slot_inj hname hs)

theorem slot_inFamily (path : Path) (i : Nat) : InFamily path (slot path i) := by
  cases i with
  | zero => exact .inl rfl
  | succ i => exact .inr ⟨i + 1, Nat.succ_pos i, rfl⟩

theorem readingOf_leftAlone (h : LeftAlone (InFamily path) d d') : readingOf count path d' = readingOf count path d :=
  readingOf_congr fun i _ => by rw [h.content (slot_inFamily path i)]

/-- Removing the oldest file leaves the rest. -/
theorem readingOf_removed (hname : path.fileName.isSome) (hcount : 1 ≤ count) :
    readingOf count path (d.link (slot path count) none) <:+ readingOf count path d := by
  obtain ⟨k, rfl⟩ : ∃ k, count = k + 1 := ⟨count - 1, by omega⟩
  rw [← heldBelow_eq, ← heldBelow_eq, heldBelow_succ path _ (k + 1), heldBelow_succ path d (k + 1)]
  have hnone : content (d.link (slot path (k + 1)) none) (slot path (k + 1)) = none := by
    rw [content, d.names_link_self, Option.map_none]
  have hrest : heldBelow path (d.link (slot path (k + 1)) none) (k + 1) = heldBelow path d (k + 1) := by
    refine heldBelow_congr fun i hi => ?_
    rw [content, d.names_link_of_ne (slot_ne hname (Nat.ne_of_lt hi))]
    rfl
  rw [hnone, hrest]
  exact List.suffix_append _ _

theorem content_move_of_ne {source destination p : Path} (hsource : p ≠ source) (hdestination : p ≠ destination) :
    content (d.move source destination) p = content d p := by
  rw [content, d.names_move_of_ne hsource hdestination]
  rfl

/-- A file that moves up by one, to where none is, is read at the same place. -/
theorem readingOf_moved (hname : path.fileName.isSome) {k : Nat} (hk : k < count)
    (hvacant : d.names (slot path (k + 1)) = none) :
    readingOf count path (d.move (slot path k) (slot path (k + 1))) = readingOf count path d := by
  rw [← heldBelow_eq, ← heldBelow_eq]
  have hne : slot path k ≠ slot path (k + 1) := slot_ne hname (Nat.ne_of_lt (Nat.lt_succ_self k))
  induction count with
  | zero => exact absurd hk (Nat.not_lt_zero k)
  | succ count ih =>
      by_cases hlast : k = count
      · subst hlast
        have hbelow : heldBelow path (d.move (slot path k) (slot path (k + 1))) k = heldBelow path d k := by
          refine heldBelow_congr fun i hi => ?_
          have hsource : slot path i ≠ slot path k := slot_ne hname (Nat.ne_of_lt hi)
          have hdestination : slot path i ≠ slot path (k + 1) := slot_ne hname (Nat.ne_of_lt (Nat.lt_succ_of_lt hi))
          rw [content_move_of_ne hsource hdestination]
        have hup : content (d.move (slot path k) (slot path (k + 1))) (slot path (k + 1)) =
            content d (slot path k) := by
          rw [content, d.names_move_destination]
          rfl
        have hdown : content (d.move (slot path k) (slot path (k + 1))) (slot path k) = none := by
          rw [content, d.names_move_source hne, Option.map_none]
        have hempty : content d (slot path (k + 1)) = none := by
          rw [content, hvacant, Option.map_none]
        simp only [heldBelow, hbelow, hup, hdown, hempty, Option.getD_none, List.nil_append]
      · have habove : content (d.move (slot path k) (slot path (k + 1))) (slot path (count + 1)) =
            content d (slot path (count + 1)) :=
          content_move_of_ne (slot_ne hname (by omega)) (slot_ne hname (by omega))
        rw [heldBelow_succ path _ (count + 1), habove, ih (by omega)]
        rfl

/-- A file that is created is empty. -/
theorem readingOf_created (hr : Reserved (InFamily path) d) :
    readingOf count path (d.create path).1 = readingOf count path d := by
  cases hnames : d.names path with
  | some file => rw [create_present hnames]
  | none =>
      have hc := create_created hnames
      refine readingOf_congr fun i _ => ?_
      by_cases hactive : slot path i = path
      · rw [hactive, content, content, hc.file, hnames, Option.map_some, hc.empty]
        rfl
      · have hold (file : Nat) (hfile : d.names (slot path i) = some file) : file ≠ d.next :=
          Nat.ne_of_lt (hr.bounded _ file hfile)
        rw [content_of_data (hc.names _ hactive) fun file hfile => hc.data file (hold file hfile)]

/-- What is written to the active file comes last. -/
theorem readingOf_appended (hname : path.fileName.isSome) (hr : Reserved (InFamily path) d) {file : Nat}
    (hfile : d.names path = some file) (bytes : List UInt8) :
    readingOf count path (d.append file bytes) = readingOf count path d ++ bytes := by
  have hbackup (i : Nat) :
      content (d.append file bytes) (backupPath path (i + 1)) = content d (backupPath path (i + 1)) :=
    content_append bytes fun hsame => backup_ne hname i (hr.alone path _ file (.inl rfl) hfile hsame)
  have hactive : content (d.append file bytes) path = some (d.data file ++ bytes) := by
    rw [content, show (d.append file bytes).names path = some file from hfile, Option.map_some, append_data_self]
  have hbefore : content d path = some (d.data file) := by
    rw [content, hfile, Option.map_some]
  rw [readingOf, readingOf, hactive, hbefore, List.append_assoc]
  congr 1
  exact List.flatMap_congr fun i _ => by rw [hbackup]

/-- The system, with others at work on the files, but not on those of this log, of which none
that is there is taken for missing. -/
abbrev apart (path : Path) : Machine sys World := (undisturbed (InFamily path)).restrict checksRight

/-- What is on disk is the end of all that was logged, and all of it while that is less than a file. -/
structure Follows (path : Path) (limits : LogLimits) (all : List UInt8) (d : Disk) : Prop where
  reserved : Reserved (InFamily path) d
  suffix : readingOf limits.backupCount path d <:+ all
  whole : all.length < limits.maxBytes → readingOf limits.backupCount path d = all

variable {all : List UInt8} {limits : LogLimits} {log : RotatingLogWriter} {w : World}

/-- Changes that take nothing away keep what is on disk. -/
theorem Follows.same (h : Follows path limits all d) (hr : Reserved (InFamily path) d')
    (hsame : readingOf limits.backupCount path d' = readingOf limits.backupCount path d) :
    Follows path limits all d' where
  reserved := hr
  suffix := hsame ▸ h.suffix
  whole := fun hshort => hsame.trans (h.whole hshort)

theorem Follows.leftAlone (h : Follows path limits all d) (ha : LeftAlone (InFamily path) d d') :
    Follows path limits all d' :=
  h.same (ha.reserved h.reserved) (readingOf_leftAlone ha)

theorem follows_stable : Stable (apart path) fun v => Follows path limits all v.disk := fun h hd => h.leftAlone hd.2

theorem names_stable {p : Path} (hp : InFamily path p) (file : Option Nat) :
    Stable (apart path) fun v => v.disk.names p = file :=
  fun h hd => (hd.2.names p hp).trans h

theorem Follows.removed (hname : path.fileName.isSome) (hcount : 1 ≤ limits.backupCount)
    (hlong : limits.maxBytes ≤ all.length) (h : Follows path limits all d) :
    Follows path limits all (d.link (slot path limits.backupCount) none) where
  reserved := (filed_grown (.removed _ d) nofun).reserved h.reserved
  suffix := (readingOf_removed hname hcount).trans h.suffix
  whole := fun hshort => absurd hlong (Nat.not_le.mpr hshort)

theorem Follows.moved (hname : path.fileName.isSome) {k : Nat} (hk : k < limits.backupCount)
    (hvacant : d.names (slot path (k + 1)) = none) (h : Follows path limits all d) :
    Follows path limits all (d.move (slot path k) (slot path (k + 1))) :=
  h.same (reserved_move h.reserved fun _ => slot_inFamily path k) (readingOf_moved hname hk hvacant)

theorem Follows.created (h : Follows path limits all d) : Follows path limits all (d.create path).1 :=
  h.same (reserved_create h.reserved path) (readingOf_created h.reserved)

theorem Follows.appended (hname : path.fileName.isSome) {file : Nat} (hfile : d.names path = some file)
    (h : Follows path limits all d) (bytes : List UInt8) :
    Follows path limits (all ++ bytes) (d.append file bytes) := by
  have hreading : readingOf limits.backupCount path (d.append file bytes) =
      readingOf limits.backupCount path d ++ bytes := readingOf_appended hname h.reserved hfile bytes
  refine ⟨⟨h.reserved.bounded, h.reserved.alone⟩, ?_, fun hshort => ?_⟩
  · obtain ⟨lost, hall⟩ := h.suffix
    rw [hreading, ← hall, List.append_assoc]
    exact List.suffix_append _ _
  · rw [List.length_append] at hshort
    rw [hreading, h.whole (by omega)]

/-- The active file is a part of what is read. -/
theorem Follows.active_le {file : Nat} (h : Follows path limits all d) (hfile : d.names path = some file) :
    (d.data file).length ≤ all.length := by
  refine Nat.le_trans ?_ h.suffix.length_le
  rw [readingOf, content, hfile, List.length_append]
  exact Nat.le_add_left _ _

theorem pathExists_throughout {C P : World → Prop} (hc : Stable (apart path) C) (hp : Stable (apart path) P)
    {p : Path} (hfamily : InFamily path p) (h : C w) (hw : P w) :
    Throughout (apart path) C (fun there v => P v ∧ (there = false → v.disk.names p = none)) (pathExists p) w := by
  have hafter : ∀ there : Bool, Stable (apart path) fun v => P v ∧ (there = false → v.disk.names p = none) :=
    fun there => stable_and hp (stable_imp (names_stable hfamily none))
  refine throughout_bind (Q := fun r v => P v ∧ (r.isOk = false → v.disk.names p = none)) ?_ ?_
  · refine throughout_perform hc hp (fun r => hafter r.isOk) ?_ h hw
    rintro u r v hu hpu ⟨ha, hright⟩
    cases r with
    | ok _ =>
        obtain ⟨_, rfl⟩ := ha
        exact ⟨hu, hpu, nofun⟩
    | error err =>
        obtain ⟨habsent, rfl⟩ := ha
        exact ⟨hu, hpu, fun _ => habsent hright⟩
  · exact fun r u hu hq => throughout_pure hc (hafter _) hu hq

theorem rename_throughout (hname : path.fileName.isSome) {k : Nat} (hk : k < limits.backupCount)
    (h : Follows path limits all w.disk) (hvacant : w.disk.names (slot path (k + 1)) = none) :
    Throughout (apart path) (fun v => Follows path limits all v.disk)
      (fun r v => r = .ok () → v.disk.names (slot path k) = none)
      (perform (.rename (slot path k) (slot path (k + 1)))) w := by
  have hne : slot path k ≠ slot path (k + 1) := slot_ne hname (Nat.ne_of_lt (Nat.lt_succ_self k))
  refine throughout_perform follows_stable (names_stable (slot_inFamily path (k + 1)) none)
    (fun r => stable_imp (names_stable (slot_inFamily path k) none)) ?_ h hvacant
  rintro u r v hu hvacant ⟨ha, _⟩
  cases r with
  | ok _ =>
      obtain ⟨_, rfl⟩ := ha
      exact ⟨hu.moved hname hk hvacant, fun _ => u.disk.names_move_source hne⟩
  | error err =>
      obtain rfl : v = u := ha
      exact ⟨hu, nofun⟩

/-- The backups move up one by one, from the last but one down, each to where none is. -/
theorem shiftBackups_throughout (hname : path.fileName.isSome) {k : Nat} (hk : k < limits.backupCount)
    (h : Follows path limits all w.disk) (hvacant : w.disk.names (slot path (k + 1)) = none) :
    Throughout (apart path) (fun v => Follows path limits all v.disk)
      (fun r v => r = .ok () → v.disk.names (slot path 1) = none) (shiftBackups path k) w := by
  induction k generalizing w with
  | zero =>
      exact throughout_pure follows_stable (stable_imp (names_stable (slot_inFamily path 1) none)) h fun _ => hvacant
  | succ k ih =>
      refine throughout_bind (pathExists_throughout follows_stable (names_stable (slot_inFamily path (k + 2)) none)
        (slot_inFamily path (k + 1)) h hvacant) ?_
      rintro there u hu ⟨hvacant, hthere⟩
      cases there with
      | false => exact ih (by omega) hu (hthere rfl)
      | true =>
          refine throughout_tryThen follows_stable (fun _ => stable_imp (names_stable (slot_inFamily path 1) none))
            (rename_throughout hname hk hu hvacant) (fun _ _ _ => nofun) ?_
          intro _ v hv hfree
          exact ih (by omega) hv (hfree rfl)

structure Opened (path : Path) (limits : LogLimits) (all : List UInt8) (log : RotatingLogWriter) (d : Disk) : Prop where
  place : log.path = path
  bound : log.limits = limits
  size : log.size ≤ all.length
  file : d.names path = some log.file

structure Ready (path : Path) (limits : LogLimits) (all : List UInt8) (log : RotatingLogWriter) (d : Disk) : Prop where
  place : log.path = path
  bound : log.limits = limits
  size : log.size ≤ all.length
  file : log.size < limits.maxBytes → d.names path = some log.file

structure Full (path : Path) (limits : LogLimits) (all : List UInt8) (log : RotatingLogWriter) : Prop where
  place : log.path = path
  bound : log.limits = limits
  size : log.size ≤ all.length
  full : limits.maxBytes ≤ log.size

theorem Opened.ready (h : Opened path limits all log d) : Ready path limits all log d :=
  ⟨h.place, h.bound, h.size, fun _ => h.file⟩

theorem Full.ready (h : Full path limits all log) (d : Disk) : Ready path limits all log d :=
  ⟨h.place, h.bound, h.size, fun hroom => absurd h.full (Nat.not_le.mpr hroom)⟩

theorem opened_stable : Stable (apart path) fun v => Opened path limits all log v.disk :=
  fun h hd => ⟨h.place, h.bound, h.size, names_stable (.inl rfl) _ h.file hd⟩

theorem ready_stable : Stable (apart path) fun v => Ready path limits all log v.disk :=
  fun h hd => ⟨h.place, h.bound, h.size, fun hroom => names_stable (.inl rfl) _ (h.file hroom) hd⟩

/-- What a writer is left with, which is the one before where something failed. -/
def Left {ε : Type} (path : Path) (limits : LogLimits) (all : List UInt8) (log : RotatingLogWriter) :
    Except ε RotatingLogWriter → Disk → Prop
  | .ok log', d => Opened path limits all log' d
  | .error _, d => Ready path limits all log d

theorem left_stable {ε : Type} (r : Except ε RotatingLogWriter) :
    Stable (apart path) fun v => Left path limits all log r v.disk := by
  cases r with
  | ok log' => exact opened_stable
  | error e => exact ready_stable

theorem openAppend_throughout (h : Follows path limits all w.disk) :
    Throughout (apart path) (fun v => Follows path limits all v.disk)
      (fun r v => ∀ opened, r = .ok opened → v.disk.names path = some opened.1 ∧ opened.2 ≤ all.length)
      (openAppend path) w := by
  have hnames : ∀ r : Except IoError Nat, Stable (apart path) fun v => ∀ file, r = .ok file →
      v.disk.names path = some file :=
    fun r _ _ h hd file hr => names_stable (.inl rfl) _ (h file hr) hd
  have hopened : ∀ r : Except IoError (Nat × Nat), Stable (apart path) fun v => ∀ opened, r = .ok opened →
      v.disk.names path = some opened.1 ∧ opened.2 ≤ all.length :=
    fun r _ _ h hd opened hr => ⟨names_stable (.inl rfl) _ (h opened hr).1 hd, (h opened hr).2⟩
  refine throughout_tryThen (Q := fun r v => ∀ file, r = .ok file → v.disk.names path = some file) follows_stable
    (fun _ => hopened _) ?_ (fun _ _ _ => nofun) ?_
  · refine throughout_perform (P := fun _ => True) follows_stable (stable_const _) hnames ?_ h trivial
    rintro u r v hu _ ⟨ha, _⟩
    cases r with
    | ok file =>
        obtain ⟨rfl, rfl⟩ := ha
        refine ⟨hu.created, fun file hfile => ?_⟩
        rw [← Except.ok.inj hfile]
        exact created_names path u.disk
    | error err =>
        obtain rfl : v = u := ha
        exact ⟨hu, nofun⟩
  · intro file u hu hfile
    have hsized : ∀ r : Except IoError Nat, Stable (apart path) fun v =>
        v.disk.names path = some file ∧ ∀ size, r = .ok size → size ≤ all.length :=
      fun r => stable_and (names_stable (.inl rfl) _) (stable_const _)
    refine throughout_tryThen (Q := fun r v => v.disk.names path = some file ∧ ∀ size, r = .ok size → size ≤ all.length)
      follows_stable (fun _ => hopened _) ?_ (fun _ _ _ => nofun) ?_
    · refine throughout_perform follows_stable (names_stable (.inl rfl) (some file)) hsized ?_ hu (hfile file rfl)
      rintro u r v hu hnames ⟨ha, _⟩
      cases r with
      | ok size =>
          obtain ⟨rfl, rfl⟩ := ha
          refine ⟨hu, hnames, fun size hsize => ?_⟩
          rw [← Except.ok.inj hsize]
          exact hu.active_le hnames
      | error err =>
          obtain rfl : v = u := ha
          exact ⟨hu, hnames, nofun⟩
    · rintro size v hv ⟨hnames, hsize⟩
      refine throughout_pure follows_stable (hopened _) hv ?_
      rintro opened hopened
      rw [← Except.ok.inj hopened]
      exact ⟨hnames, hsize size rfl⟩

theorem reopen_throughout (hfull : Full path limits all log) (h : Follows path limits all w.disk) :
    Throughout (apart path) (fun v => Follows path limits all v.disk)
      (fun r v => Left path limits all log r v.disk) log.reopen w := by
  unfold RotatingLogWriter.reopen
  rw [hfull.place]
  refine throughout_tryThen follows_stable (fun _ => left_stable _) (openAppend_throughout h)
    (fun _ _ _ => hfull.ready _) ?_
  rintro ⟨file, size⟩ v hv hopened
  obtain ⟨hnames, hsize⟩ := hopened _ rfl
  exact throughout_pure follows_stable (left_stable _) hv ⟨rfl, hfull.bound, hsize, hnames⟩

theorem shiftAll_throughout (hname : path.fileName.isSome) (hcount : 1 ≤ limits.backupCount)
    (hfull : Full path limits all log) (h : Follows path limits all w.disk)
    (hvacant : w.disk.names (slot path limits.backupCount) = none) :
    Throughout (apart path) (fun v => Follows path limits all v.disk)
      (fun r v => Left path limits all log r v.disk) log.shiftAll w := by
  have hlast : limits.backupCount - 1 + 1 = limits.backupCount := Nat.sub_add_cancel hcount
  unfold RotatingLogWriter.shiftAll
  rw [hfull.place, hfull.bound]
  refine throughout_tryThen follows_stable (fun _ => left_stable _)
    (shiftBackups_throughout hname (by omega) h (by rw [hlast]; exact hvacant)) (fun _ _ _ => hfull.ready _) ?_
  intro _ u hu hfree
  refine throughout_bind (pathExists_throughout follows_stable (names_stable (slot_inFamily path 1) none) (.inl rfl) hu
    (hfree rfl)) ?_
  rintro there v hv ⟨hfree, _⟩
  cases there with
  | false => exact reopen_throughout hfull hv
  | true =>
      refine throughout_tryThen follows_stable (fun _ => left_stable _)
        (rename_throughout (k := 0) hname (by omega) hv hfree) (fun _ _ _ => hfull.ready _) ?_
      intro _ v hv _
      exact reopen_throughout hfull hv

/-- Only the oldest file is ever removed, and that before anything is moved. -/
theorem rotate_throughout (hname : path.fileName.isSome) (hcount : 1 ≤ limits.backupCount)
    (hfull : Full path limits all log) (h : Follows path limits all w.disk) :
    Throughout (apart path) (fun v => Follows path limits all v.disk)
      (fun r v => Left path limits all log r v.disk) log.rotate w := by
  have hlong : limits.maxBytes ≤ all.length := Nat.le_trans hfull.full hfull.size
  have hslot : backupPath path limits.backupCount = slot path limits.backupCount := by
    obtain ⟨k, hk⟩ : ∃ k, limits.backupCount = k + 1 := ⟨limits.backupCount - 1, by omega⟩
    rw [hk]
    rfl
  unfold RotatingLogWriter.rotate
  rw [hfull.place, hfull.bound, hslot]
  refine throughout_bind (Q := fun r v => (∀ err, r = .error err → err.kind = .notFound) →
    v.disk.names (slot path limits.backupCount) = none) ?_ ?_
  · refine throughout_perform (P := fun _ => True) follows_stable (stable_const _)
      (fun r => stable_imp (names_stable (slot_inFamily path _) none)) ?_ h trivial
    rintro u r v hu _ ⟨ha, _⟩
    cases r with
    | ok _ =>
        obtain ⟨_, rfl⟩ := ha
        exact ⟨hu.removed hname hcount hlong, fun _ => u.disk.names_link_self _ none⟩
    | error err =>
        obtain ⟨hfound, rfl⟩ := ha
        exact ⟨hu, fun habsent => hfound (habsent err rfl)⟩
  · intro r u hu hvacant
    cases r with
    | ok _ => exact shiftAll_throughout hname hcount hfull hu (hvacant nofun)
    | error err =>
        dsimp only
        split
        · exact throughout_pure follows_stable (left_stable _) hu (hfull.ready _)
        · rename_i hkind
          refine shiftAll_throughout hname hcount hfull hu (hvacant fun other he => ?_)
          rw [← Except.error.inj he]
          exact not_not.mp hkind

theorem rotateIfFull_throughout (hname : path.fileName.isSome) (hcount : 1 ≤ limits.backupCount)
    (hready : Ready path limits all log w.disk) (h : Follows path limits all w.disk) :
    Throughout (apart path) (fun v => Follows path limits all v.disk)
      (fun r v => Left path limits all log r v.disk) log.rotateIfFull w := by
  unfold RotatingLogWriter.rotateIfFull
  rw [hready.bound]
  split
  · rename_i hfull
    exact rotate_throughout hname hcount ⟨hready.place, hready.bound, hready.size, hfull⟩ h
  · rename_i hroom
    exact throughout_pure follows_stable (left_stable _) h
      ⟨hready.place, hready.bound, hready.size, hready.file (Nat.not_le.mp hroom)⟩

/-- What was logged is on disk, and some of what is being logged. -/
def Underway (path : Path) (limits : LogLimits) (all data : List UInt8) (d : Disk) : Prop :=
  ∃ part, part <+: data ∧ Follows path limits (all ++ part) d

/-- What a write leaves behind: some of its data, all of it where it succeeds, and the writer. -/
def Added (path : Path) (limits : LogLimits) (all data : List UInt8)
    (r : RotatingLogWriter × Except WriteError Unit) (d : Disk) : Prop :=
  ∃ part, part <+: data ∧ (r.2 = .ok () → part = data) ∧ Follows path limits (all ++ part) d ∧
    Ready path limits (all ++ part) r.1 d

variable {data : List UInt8} {r : RotatingLogWriter × Except WriteError Unit}

theorem underway_stable : Stable (apart path) fun v => Underway path limits all data v.disk :=
  fun ⟨part, hpart, h⟩ hd => ⟨part, hpart, h.leftAlone hd.2⟩

theorem added_stable : Stable (apart path) fun v => Added path limits all data r v.disk :=
  fun ⟨part, hpart, hwhole, h, hready⟩ hd => ⟨part, hpart, hwhole, h.leftAlone hd.2, ready_stable hready hd⟩

theorem Follows.underway (h : Follows path limits all d) : Underway path limits all data d :=
  ⟨[], List.nil_prefix, by rwa [List.append_nil]⟩

theorem Underway.mono {data' : List UInt8} (h : Underway path limits all data d) (hdata : data <+: data') :
    Underway path limits all data' d := by
  obtain ⟨part, hpart, hfollows⟩ := h
  exact ⟨part, hpart.trans hdata, hfollows⟩

theorem Underway.after {bytes : List UInt8} (h : Underway path limits (all ++ bytes) data d) :
    Underway path limits all (bytes ++ data) d := by
  obtain ⟨part, hpart, hfollows⟩ := h
  exact ⟨bytes ++ part, (List.prefix_append_right_inj bytes).mpr hpart, by rwa [← List.append_assoc]⟩

theorem Added.after {bytes : List UInt8} (h : Added path limits (all ++ bytes) data r d) :
    Added path limits all (bytes ++ data) r d := by
  obtain ⟨part, hpart, hwhole, hfollows, hready⟩ := h
  rw [List.append_assoc] at hfollows hready
  refine ⟨bytes ++ part, (List.prefix_append_right_inj bytes).mpr hpart, fun hok => ?_, hfollows, hready⟩
  rw [hwhole hok]

theorem Ready.append (h : Ready path limits all log d) (part : List UInt8) : Ready path limits (all ++ part) log d where
  place := h.place
  bound := h.bound
  size := by
    rw [List.length_append]
    exact Nat.le_add_right_of_le h.size
  file := h.file

/-- A write that fails leaves the writer as one that knows its file. -/
theorem added_failed {e : WriteError} {part : List UInt8} (hpart : part <+: data) (hready : Ready path limits all log d)
    (h : Follows path limits (all ++ part) d) : Added path limits all data (log, .error e) d :=
  ⟨part, hpart, (fun hok => by cases hok), h, hready.append part⟩

theorem added_nothing {e : WriteError} (hready : Ready path limits all log d) (h : Follows path limits all d) :
    Added path limits all data (log, .error e) d := by
  refine added_failed List.nil_prefix hready ?_
  rwa [List.append_nil]

theorem writeAll_throughout (hname : path.fileName.isSome) {file : Nat} {bytes : List UInt8}
    (h : Follows path limits all w.disk) (hfile : w.disk.names path = some file) :
    Throughout (apart path) (fun v => Underway path limits all bytes v.disk)
      (fun r v => v.disk.names path = some file ∧
        ∃ part, part <+: bytes ∧ (r = .ok () → part = bytes) ∧ Follows path limits (all ++ part) v.disk)
      (perform (.writeAll file bytes)) w := by
  have hactive : Stable (apart path) fun v => v.disk.names path = some file := names_stable (.inl rfl) _
  have hadded : ∀ r : Except IoError Unit, Stable (apart path) fun v => v.disk.names path = some file ∧
      ∃ part, part <+: bytes ∧ (r = .ok () → part = bytes) ∧ Follows path limits (all ++ part) v.disk :=
    fun r _ _ ⟨hnames, part, hpart, hwhole, h⟩ hd => ⟨hactive hnames hd, part, hpart, hwhole, h.leftAlone hd.2⟩
  refine throughout_perform (P := fun v => Follows path limits all v.disk ∧ v.disk.names path = some file)
    underway_stable (stable_and follows_stable hactive) hadded ?_ h.underway ⟨h, hfile⟩
  rintro u r v _ ⟨hu, hnames⟩ ⟨ha, _⟩
  cases r with
  | ok _ =>
      obtain rfl := ha
      have hall := hu.appended hname hnames bytes
      exact ⟨⟨bytes, List.prefix_refl _, hall⟩, hnames, bytes, List.prefix_refl _, fun _ => rfl, hall⟩
  | error err =>
      obtain ⟨n, rfl⟩ := ha
      have hpart := hu.appended hname hnames (bytes.take n)
      exact ⟨⟨bytes.take n, List.take_prefix n bytes, hpart⟩, hnames, bytes.take n, List.take_prefix n bytes,
        (fun hok => by cases hok), hpart⟩

theorem flush_throughout {fuel : Nat} (hready : Ready path limits all log w.disk)
    (h : Follows path limits all w.disk) :
    Throughout (apart path) (fun v => Underway path limits all [] v.disk)
      (fun r v => Added path limits all [] r v.disk) (writeLoop fuel log []) w := by
  have hkept : Stable (apart path) fun v => Follows path limits all v.disk ∧ Ready path limits all log v.disk :=
    stable_and follows_stable ready_stable
  rw [writeLoop]
  refine throughout_bind (Q := fun _ v => Follows path limits all v.disk ∧ Ready path limits all log v.disk) ?_ ?_
  · refine throughout_perform underway_stable hkept (fun _ => hkept) ?_ h.underway ⟨h, hready⟩
    rintro u r v hu hpu ⟨ha, _⟩
    obtain rfl : v = u := by cases r <;> exact ha
    exact ⟨hu, hpu⟩
  · rintro r u hu ⟨hfollows, hready⟩
    cases r with
    | error err => exact throughout_pure underway_stable added_stable hu (added_nothing hready hfollows)
    | ok _ =>
        refine throughout_pure underway_stable added_stable hu ⟨[], List.prefix_refl _, fun _ => rfl, ?_, ?_⟩
        · rwa [List.append_nil]
        · rwa [List.append_nil]

/-- Every pass of a write adds bytes at the end, some of them where it fails. -/
theorem writeLoop_throughout (hname : path.fileName.isSome) (hcount : 1 ≤ limits.backupCount) {fuel : Nat}
    (hready : Ready path limits all log w.disk) (h : Follows path limits all w.disk) :
    Throughout (apart path) (fun v => Underway path limits all data v.disk)
      (fun r v => Added path limits all data r v.disk) (writeLoop fuel log data) w := by
  induction fuel generalizing log all data w with
  | zero =>
      cases data with
      | nil => exact flush_throughout hready h
      | cons b rest => exact throughout_pure underway_stable added_stable h.underway (added_nothing hready h)
  | succ fuel ih =>
      cases data with
      | nil => exact flush_throughout hready h
      | cons b rest =>
          have hrotate : Throughout (apart path) (fun v => Underway path limits all (b :: rest) v.disk)
              (fun r v => Follows path limits all v.disk ∧ Left path limits all log r v.disk) log.rotateIfFull w :=
            (rotateIfFull_throughout hname hcount hready h).mono (fun _ hv => hv.underway)
              fun _ _ hv hleft => ⟨hv, hleft⟩
          rw [writeLoop]
          refine throughout_bind hrotate ?_
          rintro r u hu ⟨hfollows, hleft⟩
          cases r with
          | error err => exact throughout_pure underway_stable added_stable hu (added_nothing hleft hfollows)
          | ok log₁ =>
              have hopened : Opened path limits all log₁ u.disk := hleft
              dsimp only
              split
              · exact throughout_pure underway_stable added_stable hu (added_nothing hopened.ready hfollows)
              · have hroom := Nat.min_le_right (log₁.limits.maxBytes - log₁.size) (b :: rest).length
                generalize min (log₁.limits.maxBytes - log₁.size) (b :: rest).length = room at hroom
                have hsplit := List.take_append_drop room (b :: rest)
                have hprefix : (b :: rest).take room <+: b :: rest := List.take_prefix ..
                have hwrite : Throughout (apart path) (fun v => Underway path limits all (b :: rest) v.disk)
                    (fun r v => v.disk.names path = some log₁.file ∧ ∃ part, part <+: (b :: rest).take room ∧
                      (r = .ok () → part = (b :: rest).take room) ∧ Follows path limits (all ++ part) v.disk)
                    (perform (.writeAll log₁.file ((b :: rest).take room))) u :=
                  (writeAll_throughout hname hfollows hopened.file).mono (fun _ hv => hv.mono hprefix)
                    fun _ _ _ hq => hq
                refine throughout_bind hwrite ?_
                rintro r v hv ⟨hfile, part, hpart, hwhole, hwrote⟩
                cases r with
                | error err =>
                    have hnow : Ready path limits all log₁ v.disk :=
                      ⟨hopened.place, hopened.bound, hopened.size, fun _ => hfile⟩
                    exact throughout_pure underway_stable added_stable hv
                      (added_failed (hpart.trans hprefix) hnow hwrote)
                | ok _ =>
                    obtain rfl := hwhole rfl
                    have hsize : log₁.size + room ≤ (all ++ (b :: rest).take room).length := by
                      rw [List.length_append, List.length_take_of_le hroom]
                      exact Nat.add_le_add_right hopened.size room
                    have hnow : Ready path limits (all ++ (b :: rest).take room)
                        { log₁ with size := log₁.size + room } v.disk :=
                      ⟨hopened.place, hopened.bound, hsize, fun _ => hfile⟩
                    refine (ih hnow hwrote).mono (fun _ hv => ?_) (fun _ _ _ hq => ?_)
                    · have hafter := hv.after
                      rwa [hsplit] at hafter
                    · have hafter := hq.after
                      rwa [hsplit] at hafter

theorem writeBytes_throughout (hname : path.fileName.isSome) (hcount : 1 ≤ limits.backupCount)
    (hready : Ready path limits all log w.disk) (h : Follows path limits all w.disk) :
    Throughout (apart path) (fun v => Underway path limits all data v.disk)
      (fun r v => Added path limits all data r v.disk) (log.writeBytes data) w := by
  have hkept : Stable (apart path) fun v => Follows path limits all v.disk ∧ Ready path limits all log v.disk :=
    stable_and follows_stable ready_stable
  refine throughout_bind (Q := fun _ v => Follows path limits all v.disk ∧ Ready path limits all log v.disk) ?_ ?_
  · refine throughout_perform underway_stable hkept (fun _ => hkept) ?_ h.underway ⟨h, hready⟩
    rintro u idle v hu hpu ⟨rfl, _⟩
    exact ⟨hu, hpu⟩
  · rintro idle u _ ⟨hfollows, hready⟩
    exact writeLoop_throughout hname hcount hready hfollows

theorem openWriter_throughout (h : Follows path limits all w.disk) :
    Throughout (apart path) (fun v => Follows path limits all v.disk)
      (fun r v => ∀ log, r = .ok log → 1 ≤ limits.backupCount ∧ Opened path limits all log v.disk)
      (openWriter path limits) w := by
  have hopened : ∀ r : Except IoError RotatingLogWriter, Stable (apart path) fun v => ∀ log, r = .ok log →
      1 ≤ limits.backupCount ∧ Opened path limits all log v.disk :=
    fun r _ _ h hd log hr => ⟨(h log hr).1, opened_stable (h log hr).2 hd⟩
  unfold openWriter
  split
  · exact throughout_pure follows_stable (hopened _) h fun _ hlog => by cases hlog
  · rename_i hlimits
    have hopening {u : World} (hu : Follows path limits all u.disk) :
        Throughout (apart path) (fun v => Follows path limits all v.disk)
          (fun r v => ∀ log, r = .ok log → 1 ≤ limits.backupCount ∧ Opened path limits all log v.disk)
          ((openAppend path).tryThen fun opened => return .ok ⟨path, limits, opened.1, opened.2⟩) u := by
      refine throughout_tryThen follows_stable (fun _ => hopened _) (openAppend_throughout hu)
        (fun _ _ _ _ hlog => by cases hlog) ?_
      rintro ⟨file, size⟩ v hv hfile
      obtain ⟨hnames, hsize⟩ := hfile _ rfl
      refine throughout_pure follows_stable (hopened _) hv ?_
      rintro log hlog
      rw [← Except.ok.inj hlog]
      exact ⟨by omega, rfl, rfl, hsize, hnames⟩
    dsimp only
    split
    · refine throughout_tryThen (Q := fun _ _ => True) follows_stable (fun _ => hopened _) ?_
        (fun _ _ _ _ hlog => by cases hlog) fun _ _ hu _ => hopening hu
      refine throughout_perform follows_stable (stable_const True) (fun _ => stable_const True) ?_ h trivial
      rintro u r v hu _ ⟨ha, _⟩
      obtain rfl : v = u := by cases r <;> exact ha
      exact ⟨hu, trivial⟩
    · exact hopening h

/-- A log over the lives of the processes that write it. A process can die at any moment; the
trace has what was to be written, and whether it was. -/
inductive Lives (path : Path) (limits : LogLimits) (w₀ : World) :
    List (List UInt8 × Bool) → Option RotatingLogWriter → World → Prop
  | start {w : World} : (apart path).drift w₀ w → Lives path limits w₀ [] none w
  | opens {trace : List (List UInt8 × Bool)} {log : RotatingLogWriter} {w v : World} :
      Lives path limits w₀ trace none w → Runs (apart path) (openWriter path limits) w (.ok log) v →
      Lives path limits w₀ trace (some log) v
  | misses {trace : List (List UInt8 × Bool)} {w v : World} : Lives path limits w₀ trace none w →
      Visits (apart path) (openWriter path limits) w v → Lives path limits w₀ trace none v
  | writes {trace : List (List UInt8 × Bool)} {log log' : RotatingLogWriter} {data : List UInt8}
      {r : Except WriteError Unit} {w v : World} : Lives path limits w₀ trace (some log) w →
      Runs (apart path) (log.writeBytes data) w (log', r) v →
      Lives path limits w₀ (trace ++ [(data, r.isOk)]) (some log') v
  | dies {trace : List (List UInt8 × Bool)} {log : RotatingLogWriter} {data : List UInt8} {w v : World} :
      Lives path limits w₀ trace (some log) w → Visits (apart path) (log.writeBytes data) w v →
      Lives path limits w₀ (trace ++ [(data, false)]) none v

/-- What of an entry was written: some of it from its beginning, and all of it where that was said. -/
def PartOf (entry : List UInt8 × Bool) (part : List UInt8) : Prop :=
  part <+: entry.1 ∧ (entry.2 = true → part = entry.1)

/-- What was there and what was written after it is what is on disk, and a writer knows its file. -/
structure Recorded (path : Path) (limits : LogLimits) (before : List UInt8) (trace : List (List UInt8 × Bool))
    (writer : Option RotatingLogWriter) (d : Disk) (parts : List (List UInt8)) : Prop where
  entries : List.Forall₂ PartOf trace parts
  follows : Follows path limits (before ++ parts.flatten) d
  ready : ∀ log, writer = some log → 1 ≤ limits.backupCount ∧ Ready path limits (before ++ parts.flatten) log d

theorem recorded_snoc {before part : List UInt8} {trace : List (List UInt8 × Bool)} {parts : List (List UInt8)}
    {entry : List UInt8 × Bool} {writer : Option RotatingLogWriter} (hparts : List.Forall₂ PartOf trace parts)
    (hpart : PartOf entry part) (h : Follows path limits ((before ++ parts.flatten) ++ part) d)
    (hready : ∀ log, writer = some log →
      1 ≤ limits.backupCount ∧ Ready path limits ((before ++ parts.flatten) ++ part) log d) :
    Recorded path limits before (trace ++ [entry]) writer d (parts ++ [part]) := by
  have hall : before ++ (parts ++ [part]).flatten = (before ++ parts.flatten) ++ part := by simp
  refine ⟨List.rel_append hparts (.cons hpart .nil), ?_, ?_⟩
  · rwa [hall]
  · rwa [hall]

theorem lives_recorded {w₀ : World} {trace : List (List UInt8 × Bool)} {writer : Option RotatingLogWriter}
    (hname : path.fileName.isSome) (hr : Reserved (InFamily path) w₀.disk) (h : Lives path limits w₀ trace writer w) :
    ∃ parts, Recorded path limits (readingOf limits.backupCount path w₀.disk) trace writer w.disk parts := by
  induction h with
  | start hd =>
      have hstart : Follows path limits (readingOf limits.backupCount path w₀.disk) w₀.disk :=
        ⟨hr, List.suffix_refl _, fun _ => rfl⟩
      refine ⟨[], .nil, ?_, nofun⟩
      rw [List.flatten_nil, List.append_nil]
      exact hstart.leftAlone hd.2
  | opens _ hopen ih =>
      obtain ⟨parts, hrecorded⟩ := ih
      obtain ⟨hfollows, hopened⟩ := (openWriter_throughout hrecorded.follows).runs hopen
      refine ⟨parts, hrecorded.entries, hfollows, fun log hlog => ?_⟩
      obtain rfl := Option.some.inj hlog
      exact ⟨(hopened _ rfl).1, (hopened _ rfl).2.ready⟩
  | misses _ hv ih =>
      obtain ⟨parts, hrecorded⟩ := ih
      exact ⟨parts, hrecorded.entries, (openWriter_throughout hrecorded.follows).visits hv, nofun⟩
  | @writes trace log log' data r w v _ hrun ih =>
      obtain ⟨parts, hrecorded⟩ := ih
      obtain ⟨hcount, hready⟩ := hrecorded.ready _ rfl
      obtain ⟨_, part, hpart, hwhole, hfollows, hready'⟩ :=
        (writeBytes_throughout hname hcount hready hrecorded.follows).runs hrun
      refine ⟨parts ++ [part], recorded_snoc hrecorded.entries ⟨hpart, fun hok => ?_⟩ hfollows fun log hlog => ?_⟩
      · cases r with
        | ok _ => exact hwhole rfl
        | error err => cases hok
      · obtain rfl := Option.some.inj hlog
        exact ⟨hcount, hready'⟩
  | @dies trace log data w v _ hv ih =>
      obtain ⟨parts, hrecorded⟩ := ih
      obtain ⟨hcount, hready⟩ := hrecorded.ready _ rfl
      obtain ⟨part, hpart, hfollows⟩ := (writeBytes_throughout hname hcount hready hrecorded.follows).visits hv
      exact ⟨parts ++ [part], recorded_snoc hrecorded.entries ⟨hpart, nofun⟩ hfollows nofun⟩

/-- However often the processes that write a log die, at whatever moments, and whatever fails, as
long as no file that is there is taken for missing: read from the oldest file on, the log is
always the end of what it was and what was written after it, of every write all or, where that
failed or was cut short, some from its beginning; and nothing is lost while all of it together is
less than a file. -/
theorem log_survives {w₀ : World} {trace : List (List UInt8 × Bool)} {writer : Option RotatingLogWriter}
    (hname : path.fileName.isSome) (hr : Reserved (InFamily path) w₀.disk) (h : Lives path limits w₀ trace writer w) :
    ∃ parts, List.Forall₂ PartOf trace parts ∧
      readingOf limits.backupCount path w.disk <:+ readingOf limits.backupCount path w₀.disk ++ parts.flatten ∧
      ((readingOf limits.backupCount path w₀.disk ++ parts.flatten).length < limits.maxBytes →
        readingOf limits.backupCount path w.disk = readingOf limits.backupCount path w₀.disk ++ parts.flatten) := by
  obtain ⟨parts, hrecorded⟩ := lives_recorded hname hr h
  exact ⟨parts, hrecorded.entries, hrecorded.follows.suffix, hrecorded.follows.whole⟩

theorem visits_step {α W : Type} {M : Machine sys W} (c : Call) (b : Ans c) {next : Ans c → Io α} {w w₁ v : W}
    (ha : M.answers c w b w₁) (hn : Visits M (next b) w₁ v) : Visits M (.call c next) w v :=
  .call (M.drift_refl w) ha hn

def fullLog : RotatingLogWriter := ⟨samplePath, ⟨2, 1⟩, 0, 2⟩

def fullWorld : World := { openedWorld with disk := openedWorld.disk.append 0 [1, 2] }

def movedWorld : World := { openedWorld with disk := fullWorld.disk.move samplePath (backupPath samplePath 1) }

theorem sample_opened :
    Runs (apart samplePath) (openWriter samplePath ⟨2, 1⟩) emptyWorld (.ok openedLog) openedWorld := by
  refine runs_step (.createDirAll _) (.ok ()) ⟨rfl, trivial⟩ ?_
  refine runs_step (.openAppend _) (.ok 0) ⟨⟨rfl, rfl⟩, trivial⟩ ?_
  refine runs_step (.fileLen _) (.ok 0) ⟨⟨rfl, rfl⟩, trivial⟩ ?_
  exact .pure (Machine.drift_refl _ _)

theorem sample_lives :
    Lives samplePath ⟨2, 1⟩ emptyWorld [([1, 2], true), ([3], false)] none movedWorld := by
  have hwrite : Runs (apart samplePath) (openedLog.writeBytes [1, 2]) openedWorld (fullLog, .ok ()) fullWorld := by
    refine runs_step .idlePasses 0 ⟨rfl, trivial⟩ ?_
    refine runs_step (.writeAll _ _) (.ok ()) ⟨rfl, trivial⟩ ?_
    refine runs_step (.flush _) (.ok ()) ⟨rfl, trivial⟩ ?_
    exact .pure (Machine.drift_refl _ _)
  have hdie : Visits (apart samplePath) (fullLog.writeBytes [3]) fullWorld movedWorld := by
    refine visits_step .idlePasses 0 ⟨rfl, trivial⟩ ?_
    refine visits_step (.removeFile _) (.error ⟨.notFound, "absent"⟩) ⟨⟨fun _ => rfl, rfl⟩, trivial⟩ ?_
    refine visits_step (.metadata _) (.ok ()) ⟨⟨rfl, rfl⟩, trivial⟩ ?_
    refine visits_step (.rename _ _) (.ok ()) ⟨⟨rfl, rfl⟩, trivial⟩ ?_
    exact .here (Machine.drift_refl _ _)
  exact .dies (.writes (.opens (.start (Machine.drift_refl _ _)) sample_opened) hwrite) hdie

/-- A process dies between two steps of a rotation. -/
theorem log_survives_moved :
    readingOf 1 samplePath movedWorld.disk = [1, 2] ∧
      ∃ parts, List.Forall₂ PartOf [([1, 2], true), ([3], false)] parts ∧
        readingOf 1 samplePath movedWorld.disk <:+ readingOf 1 samplePath emptyWorld.disk ++ parts.flatten := by
  have hreserved : Reserved (InFamily samplePath) emptyWorld.disk := ⟨nofun, nofun⟩
  obtain ⟨parts, hparts, hsuffix, _⟩ := log_survives (by decide) hreserved sample_lives
  exact ⟨by decide, parts, hparts, hsuffix⟩

end LocalDevProxy.LogMoments
