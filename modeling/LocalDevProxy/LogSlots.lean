import LocalDevProxy.LogRotation

namespace LocalDevProxy.LogSlots

open Lib.Interaction Text Paths Os LogRotation RotatingLogWriter

/-- The files of a log: the active one, then its backups from the newest on. -/
def slot (path : Path) : Nat → Path
  | 0 => path
  | index + 1 => backupPath path (index + 1)

theorem fileName_split {path : Path} {name : Name} (h : path.fileName = some name) :
    path = (⟨path.anchor, path.names.dropLast⟩ : Path).child name := by
  obtain ⟨hlast, _⟩ := Option.filter_eq_some_iff.mp h
  have hnames := List.dropLast_append_getLast? name hlast
  rw [Path.child, hnames]

/-- The name of a backup, which is longer than that of the log. -/
def backupName (name : Name) (index : Nat) : Name where
  text := name.text ++ "." ++ decimal index
  nonempty := by
    intro h
    have hl := congrArg String.toList h
    simp [String.toList_append] at hl
  notDot := by
    intro h
    have hl := congrArg (fun s => s.toList.length) h
    have hname : 0 < name.text.toList.length := by
      rw [List.length_pos_iff]
      exact fun he => name.nonempty (String.toList_inj.mp he)
    simp [String.toList_append] at hl hname
    omega
  noSlash := by
    have hdigits := not_mem_decimal (show '/'.isDigit = false from rfl) index
    simp [String.toList_append, name.noSlash, hdigits]

theorem backupPath_child {path : Path} {name : Name} (h : path.fileName = some name) (index : Nat) :
    backupPath path index = (⟨path.anchor, path.names.dropLast⟩ : Path).child (backupName name index) := by
  have hsome : path.fileName.isSome := by rw [h]; rfl
  rw [backupPath, h, Option.elim_some, Path.withFileName, if_pos hsome]
  exact Path.join_name _ (backupName name index)

variable {path : Path}

theorem slot_inj (hname : path.fileName.isSome) {i j : Nat} (h : slot path i = slot path j) : i = j := by
  obtain ⟨name, hn⟩ := Option.isSome_iff_exists.mp hname
  have hactive : ∀ k, path ≠ backupPath path (k + 1) := by
    intro k he
    rw [backupPath_child hn] at he
    have hchild := (fileName_split hn).symm.trans he
    have htext := congrArg (fun n : Name => n.text.toList.length) (Path.child_inj hchild)
    simp [backupName, String.toList_append] at htext
  cases i with
  | zero =>
      cases j with
      | zero => rfl
      | succ j => exact absurd h (hactive j)
  | succ i =>
      cases j with
      | zero => exact absurd h.symm (hactive i)
      | succ j =>
          have hi := backupPath_child hn (i + 1)
          have hj := backupPath_child hn (j + 1)
          have hnames := Path.child_inj (hi.symm.trans (h.trans hj))
          have htext := congrArg (fun n : Name => n.text.toList) hnames
          simp only [backupName, String.toList_append, List.append_cancel_left_eq] at htext
          exact decimal_inj (String.toList_inj.mp htext)

/-- No file has two names, and files are numbered below the next one. -/
structure Separate (d : Disk) : Prop where
  bounded : ∀ p file, d.names p = some file → file < d.next
  distinct : ∀ p q file, d.names p = some file → d.names q = some file → p = q

def content (d : Disk) (p : Path) : Option (List UInt8) := (d.names p).map d.data

/-- The files from one slot up to another have moved up by one, and the lowest
of these slots is vacant. Nothing else has changed, but for a file that the
topmost moved onto. -/
structure Shifted (path : Path) (low high : Nat) (d d' : Disk) : Prop where
  moved : ∀ i, low ≤ i → i ≤ high → d'.names (slot path (i + 1)) = d.names (slot path i)
  vacant : d'.names (slot path low) = none
  kept : ∀ p, (∀ i, low ≤ i → i ≤ high + 1 → p ≠ slot path i) → d'.names p = d.names p
  data : d'.data = d.data
  next : d'.next = d.next

variable {low high : Nat} {d d' : Disk}

theorem shifted_unlink (path : Path) (high : Nat) (d : Disk) :
    Shifted path (high + 1) high d (d.link (slot path (high + 1)) none) where
  moved := fun _ h h' => absurd (Nat.le_trans h h') (Nat.not_succ_le_self high)
  vacant := d.names_link_self _ none
  kept := fun _ hp => d.names_link_of_ne (hp (high + 1) (Nat.le_refl _) (Nat.le_refl _)) none
  data := rfl
  next := rfl

theorem shifted_absent (h : d.names (slot path (high + 1)) = none) : Shifted path (high + 1) high d d where
  moved := fun _ h h' => absurd (Nat.le_trans h h') (Nat.not_succ_le_self high)
  vacant := h
  kept := fun _ _ => rfl
  data := rfl
  next := rfl

/-- A slot below the moved ones is as it was. -/
theorem Shifted.below (hname : path.fileName.isSome) (h : Shifted path (low + 1) high d d') :
    d'.names (slot path low) = d.names (slot path low) := by
  refine h.kept _ (fun i hi _ he => ?_)
  have := slot_inj hname he
  omega

theorem Shifted.skip (hname : path.fileName.isSome) (hle : low ≤ high)
    (h : Shifted path (low + 1) high d d') (hnone : d'.names (slot path low) = none) :
    Shifted path low high d d' where
  moved := by
    intro i hi hhigh
    by_cases he : i = low
    · subst he
      rw [h.vacant, ← h.below hname, hnone]
    · exact h.moved i (by omega) hhigh
  vacant := hnone
  kept := fun p hp => h.kept p (fun i hi hhigh => hp i (by omega) hhigh)
  data := h.data
  next := h.next

theorem Shifted.move (hname : path.fileName.isSome) (hle : low ≤ high)
    (h : Shifted path (low + 1) high d d') :
    Shifted path low high d (d'.move (slot path low) (slot path (low + 1))) where
  moved := by
    intro i hi hhigh
    by_cases he : i = low
    · subst he
      rw [← h.below hname]
      exact d'.names_move_destination _ _
    · have htop : slot path (i + 1) ≠ slot path (low + 1) := by
        intro hs
        have := slot_inj hname hs
        omega
      have hsource : slot path (i + 1) ≠ slot path low := by
        intro hs
        have := slot_inj hname hs
        omega
      rw [← h.moved i (by omega) hhigh]
      exact d'.names_move_of_ne hsource htop
  vacant := by
    have hne : slot path low ≠ slot path (low + 1) := by
      intro hs
      have := slot_inj hname hs
      omega
    exact d'.names_move_source hne
  kept := by
    intro p hp
    have hsource := hp low (Nat.le_refl _) (by omega)
    have htop := hp (low + 1) (by omega) (by omega)
    rw [← h.kept p (fun i hi hhigh => hp i (by omega) hhigh)]
    exact d'.names_move_of_ne hsource htop
  data := h.data
  next := h.next

/-- Where a file was before the slots moved. -/
theorem Shifted.origin (h : Shifted path low high d d') {p : Path} {file : Nat}
    (hp : d'.names p = some file) :
    (∃ i, low ≤ i ∧ i ≤ high ∧ p = slot path (i + 1) ∧ d.names (slot path i) = some file) ∨
      ((∀ i, low ≤ i → i ≤ high + 1 → p ≠ slot path i) ∧ d.names p = some file) := by
  by_cases hin : ∃ i, low ≤ i ∧ i ≤ high + 1 ∧ p = slot path i
  · obtain ⟨i, hlow, hhigh, rfl⟩ := hin
    by_cases he : i = low
    · subst he
      rw [h.vacant] at hp
      cases hp
    · obtain ⟨k, rfl⟩ := Nat.exists_eq_succ_of_ne_zero (show i ≠ 0 by omega)
      rw [h.moved k (by omega) (by omega)] at hp
      exact .inl ⟨k, by omega, by omega, rfl, hp⟩
  · have hout : ∀ i, low ≤ i → i ≤ high + 1 → p ≠ slot path i := by
      intro i hlow hhigh he
      exact hin ⟨i, hlow, hhigh, he⟩
    rw [h.kept p hout] at hp
    exact .inr ⟨hout, hp⟩

theorem Shifted.separate (hname : path.fileName.isSome) (hsep : Separate d)
    (h : Shifted path low high d d') : Separate d' where
  bounded := by
    intro p file hp
    rw [h.next]
    rcases h.origin hp with ⟨i, _, _, _, hf⟩ | ⟨_, hf⟩
    · exact hsep.bounded _ _ hf
    · exact hsep.bounded _ _ hf
  distinct := by
    intro p q file hp hq
    rcases h.origin hp with ⟨i, hlow, hhigh, rfl, hf⟩ | ⟨hout, hf⟩
    · rcases h.origin hq with ⟨j, _, _, rfl, hf'⟩ | ⟨hout', hf'⟩
      · have hs := hsep.distinct _ _ _ hf hf'
        rw [slot_inj hname hs]
      · exact absurd (hsep.distinct _ _ _ hf hf').symm (hout' i hlow (by omega))
    · rcases h.origin hq with ⟨j, hlow, hhigh, rfl, hf'⟩ | ⟨_, hf'⟩
      · exact absurd (hsep.distinct _ _ _ hf hf') (hout j hlow (by omega))
      · exact hsep.distinct _ _ _ hf hf'

theorem create_vacant (h : d.names path = none) :
    d.create path = ({ (d.link path (some d.next)).store d.next [] with next := d.next + 1 }, d.next) := by
  rw [Disk.create, h]

theorem create_handle (h : d.names path = none) : (d.create path).2 = d.next := by
  rw [create_vacant h]

theorem create_present {file : Nat} (h : d.names path = some file) : d.create path = (d, file) := by
  rw [Disk.create, h]

structure Created (path : Path) (d d' : Disk) : Prop where
  file : d'.names path = some d.next
  names : ∀ p, p ≠ path → d'.names p = d.names p
  empty : d'.data d.next = []
  data : ∀ file, file ≠ d.next → d'.data file = d.data file
  next : d'.next = d.next + 1

theorem create_created (h : d.names path = none) : Created path d (d.create path).1 := by
  rw [create_vacant h]
  exact ⟨Function.update_self .., fun _ hp => Function.update_of_ne hp .., Function.update_self ..,
    fun _ hf => Function.update_of_ne hf .., rfl⟩

theorem Created.origin (h : Created path d d') {p : Path} {file : Nat} (hp : d'.names p = some file) :
    (p = path ∧ file = d.next) ∨ d.names p = some file := by
  by_cases he : p = path
  · subst he
    rw [h.file] at hp
    exact .inl ⟨rfl, (Option.some.inj hp).symm⟩
  · rw [h.names p he] at hp
    exact .inr hp

theorem Created.separate (h : Created path d d') (hsep : Separate d) : Separate d' where
  bounded := by
    intro p file hp
    rw [h.next]
    rcases h.origin hp with ⟨_, rfl⟩ | hold
    · exact Nat.lt_succ_self _
    · exact Nat.lt_succ_of_lt (hsep.bounded p file hold)
  distinct := by
    intro p q file hp hq
    rcases h.origin hp with ⟨rfl, rfl⟩ | hold
    · rcases h.origin hq with ⟨rfl, _⟩ | hold
      · rfl
      · exact absurd (hsep.bounded q _ hold) (Nat.lt_irrefl _)
    · rcases h.origin hq with ⟨rfl, rfl⟩ | hold'
      · exact absurd (hsep.bounded p _ hold) (Nat.lt_irrefl _)
      · exact hsep.distinct p q file hold hold'

theorem create_separate (hsep : Separate d) (path : Path) : Separate (d.create path).1 := by
  cases h : d.names path with
  | some file =>
      rw [create_present h]
      exact hsep
  | none => exact (create_created h).separate hsep

theorem created_names (path : Path) (d : Disk) : (d.create path).1.names path = some (d.create path).2 := by
  cases hnames : d.names path with
  | some file => rw [create_present hnames, hnames]
  | none => rw [(create_created hnames).file, create_handle hnames]

theorem append_data_of_ne {file other : Nat} (h : other ≠ file) (bytes : List UInt8) :
    (d.append file bytes).data other = d.data other :=
  Function.update_of_ne h ..

theorem append_data_self (file : Nat) (bytes : List UInt8) :
    (d.append file bytes).data file = d.data file ++ bytes :=
  Function.update_self ..

theorem append_separate (hsep : Separate d) (file : Nat) (bytes : List UInt8) :
    Separate (d.append file bytes) :=
  ⟨hsep.bounded, hsep.distinct⟩

variable {P : (c : Call) → Ans c → Prop} {w w' : World}

theorem drift_disk (h : (machine false).drift w w') : w'.disk = w.disk := h.2 rfl

theorem idlePasses_run {shared : Bool} {idle : Nat}
    (h : Runs ((machine shared).restrict P) (perform .idlePasses) w idle w') : (machine shared).drift w w' := by
  obtain ⟨u, v, hd, ⟨rfl, _⟩, hd'⟩ := runs_perform.mp h
  exact (machine shared).drift_trans hd hd'

theorem pathExists_run {p : Path} {b : Bool} (hright : ∀ {c : Call} {b : Ans c}, P c b → checksRight c b)
    (h : Runs ((machine false).restrict P) (pathExists p) w b w') :
    b = (w.disk.names p).isSome ∧ w'.disk = w.disk := by
  obtain ⟨r, w₁, hr, h⟩ := runs_bind.mp h
  obtain ⟨rfl, hd₁⟩ := runs_pure.mp h
  obtain ⟨u, v, hd, ⟨ha, hp⟩, hd'⟩ := runs_perform.mp hr
  rw [drift_disk hd₁, drift_disk hd', ← drift_disk hd]
  cases r with
  | ok _ =>
      obtain ⟨hthere, rfl⟩ := ha
      exact ⟨hthere.symm, rfl⟩
  | error err =>
      obtain ⟨habsent, rfl⟩ := ha
      rw [habsent (hright hp)]
      exact ⟨rfl, rfl⟩

theorem rename_run {p q : Path} {r : Except IoError Unit}
    (h : Runs ((machine false).restrict P) (perform (.rename p q)) w r w') :
    (r = .ok () ∧ w'.disk = w.disk.move p q) ∨
      ∃ err, r = .error err ∧ w'.disk = w.disk ∧ P (.rename p q) (.error err) := by
  obtain ⟨u, v, hd, ha, hd'⟩ := runs_perform.mp h
  rw [drift_disk hd', ← drift_disk hd]
  cases r with
  | ok _ =>
      obtain ⟨⟨_, rfl⟩, _⟩ := ha
      exact .inl ⟨rfl, rfl⟩
  | error err =>
      obtain ⟨rfl, hp⟩ := ha
      exact .inr ⟨err, rfl, rfl, hp⟩

/-- Moving the backups up stops at the first rename that fails. -/
theorem shiftBackups_run (hright : ∀ {c : Call} {b : Ans c}, P c b → checksRight c b)
    (hname : path.fileName.isSome) {k : Nat} (hk : k ≤ high) {r : Except IoError Unit}
    (hs : Shifted path (k + 1) high d w.disk)
    (h : Runs ((machine false).restrict P) (shiftBackups path k) w r w') :
    (r = .ok () ∧ Shifted path 1 high d w'.disk) ∨
      ∃ err low, r = .error err ∧ low ≤ high + 1 ∧ Shifted path low high d w'.disk ∧
        ∃ p q, P (.rename p q) (.error err) := by
  induction k generalizing w with
  | zero =>
      obtain ⟨rfl, hd⟩ := runs_pure.mp h
      rw [drift_disk hd]
      exact .inl ⟨rfl, hs⟩
  | succ k ih =>
      obtain ⟨there, w₁, he, h⟩ := runs_bind.mp h
      obtain ⟨rfl, hw₁⟩ := pathExists_run hright he
      cases hn : w.disk.names (backupPath path (k + 1)) with
      | none =>
          simp only [hn, Option.isSome_none] at h
          refine ih (by omega) ?_ h
          rw [hw₁]
          exact hs.skip hname hk hn
      | some file =>
          simp only [hn, Option.isSome_some, if_true] at h
          rcases runs_tryThen.mp h with ⟨err, rfl, hr⟩ | ⟨_, w₂, hr, h⟩
          · rcases rename_run hr with ⟨hok, _⟩ | ⟨err', herr, hw₂, hp⟩
            · cases hok
            · cases herr
              rw [hw₂, hw₁]
              exact .inr ⟨err, k + 2, rfl, by omega, hs, _, _, hp⟩
          · rcases rename_run hr with ⟨_, hw₂⟩ | ⟨_, herr, _⟩
            · refine ih (by omega) ?_ h
              rw [hw₂, hw₁]
              exact hs.move hname hk
            · cases herr

/-- How opening a file to append to it can end: its length is read, or
something failed before or after the file was there. -/
theorem openAppend_run {r : Except IoError (Nat × Nat)}
    (h : Runs ((machine false).restrict P) (openAppend path) w r w') :
    (r = .ok ((w.disk.create path).2, ((w.disk.create path).1.data (w.disk.create path).2).length) ∧
        w'.disk = (w.disk.create path).1) ∨
      (∃ err, r = .error err ∧ w'.disk = w.disk ∧ P (.openAppend path) (.error err)) ∨
      ∃ err file, r = .error err ∧ w'.disk = (w.disk.create path).1 ∧ P (.fileLen file) (.error err) := by
  rcases runs_tryThen.mp h with ⟨err, rfl, ho⟩ | ⟨file, w₁, ho, h⟩
  · obtain ⟨u, v, hd, ⟨rfl, hp⟩, hd'⟩ := runs_perform.mp ho
    rw [drift_disk hd', drift_disk hd]
    exact .inr (.inl ⟨err, rfl, rfl, hp⟩)
  · obtain ⟨u, v, hd, ⟨⟨rfl, rfl⟩, _⟩, hd'⟩ := runs_perform.mp ho
    have hw₁ : w₁.disk = (w.disk.create path).1 := by
      rw [drift_disk hd', ← drift_disk hd]
    rw [drift_disk hd] at h
    rcases runs_tryThen.mp h with ⟨err, rfl, hl⟩ | ⟨size, w₂, hl, h⟩
    · obtain ⟨u', v', hd₁, ⟨rfl, hp⟩, hd₂⟩ := runs_perform.mp hl
      rw [drift_disk hd₂, drift_disk hd₁, hw₁]
      exact .inr (.inr ⟨err, _, rfl, rfl, hp⟩)
    · obtain ⟨u', v', hd₁, ⟨⟨rfl, rfl⟩, _⟩, hd₂⟩ := runs_perform.mp hl
      obtain ⟨rfl, hd₃⟩ := runs_pure.mp h
      rw [drift_disk hd₃, drift_disk hd₂, drift_disk hd₁, hw₁]
      exact .inl ⟨rfl, rfl⟩

/-- How an attempt to rotate can end when its checks are right. -/
inductive Rotated (P : (c : Call) → Ans c → Prop) (log : RotatingLogWriter) (d : Disk) :
    Except IoError RotatingLogWriter → Disk → Prop
  | refused (p : Path) (err : IoError) : err.kind ≠ .notFound → P (.removeFile p) (.error err) →
      Rotated P log d (.error err) d
  | stopped (low : Nat) (err : IoError) {d' : Disk} : low ≤ log.limits.backupCount →
      Shifted log.path low (log.limits.backupCount - 1) d d' →
      ((∃ p q, P (.rename p q) (.error err)) ∨ P (.openAppend log.path) (.error err)) →
      Rotated P log d (.error err) d'
  | unread (err : IoError) (file : Nat) {d' : Disk} :
      Shifted log.path 0 (log.limits.backupCount - 1) d d' → P (.fileLen file) (.error err) →
      Rotated P log d (.error err) (d'.create log.path).1
  | opened {d' : Disk} : Shifted log.path 0 (log.limits.backupCount - 1) d d' →
      Rotated P log d (.ok { log with file := d.next, size := 0 }) (d'.create log.path).1

variable {log : RotatingLogWriter}

theorem reopen_run {r : Except IoError RotatingLogWriter}
    (hs : Shifted log.path 0 (log.limits.backupCount - 1) d w.disk)
    (h : Runs ((machine false).restrict P) log.reopen w r w') : Rotated P log d r w'.disk := by
  rcases runs_tryThen.mp h with ⟨err, rfl, ho⟩ | ⟨⟨file, size⟩, w₁, ho, h⟩
  · rcases openAppend_run ho with ⟨hok, _⟩ | ⟨err', he, hw, hp⟩ | ⟨err', file, he, hw, hp⟩
    · cases hok
    · cases he
      rw [hw]
      exact .stopped 0 err (Nat.zero_le _) hs (.inr hp)
    · cases he
      rw [hw]
      exact .unread err file hs hp
  · obtain ⟨rfl, hd⟩ := runs_pure.mp h
    rcases openAppend_run ho with ⟨hok, hw⟩ | ⟨_, he, _⟩ | ⟨_, _, he, _⟩
    · have hvacant : w.disk.names log.path = none := hs.vacant
      obtain ⟨rfl, rfl⟩ := Prod.mk.inj (Except.ok.inj hok)
      rw [create_handle hvacant, (create_created hvacant).empty, hs.next, drift_disk hd, hw]
      exact .opened hs
    · cases he
    · cases he

theorem shiftAll_run (hright : ∀ {c : Call} {b : Ans c}, P c b → checksRight c b)
    (hname : log.path.fileName.isSome) (hcount : 1 ≤ log.limits.backupCount)
    {r : Except IoError RotatingLogWriter}
    (hs : Shifted log.path (log.limits.backupCount - 1 + 1) (log.limits.backupCount - 1) d w.disk)
    (h : Runs ((machine false).restrict P) log.shiftAll w r w') : Rotated P log d r w'.disk := by
  rcases runs_tryThen.mp h with ⟨err, rfl, hshift⟩ | ⟨_, w₁, hshift, h⟩
  · rcases shiftBackups_run hright hname (Nat.le_refl _) hs hshift with ⟨hok, _⟩ | ⟨_, low, he, hlow, hs', hp⟩
    · cases hok
    · cases he
      exact .stopped low err (by omega) hs' (.inl hp)
  · rcases shiftBackups_run hright hname (Nat.le_refl _) hs hshift with ⟨_, hs'⟩ | ⟨_, _, he, _⟩
    · obtain ⟨there, w₂, he, h⟩ := runs_bind.mp h
      obtain ⟨rfl, hw₂⟩ := pathExists_run hright he
      rw [← hw₂] at hs'
      cases hn : w₁.disk.names log.path with
      | none =>
          simp only [hn, Option.isSome_none] at h
          exact reopen_run (hs'.skip hname (Nat.zero_le _) (by rw [hw₂]; exact hn)) h
      | some file =>
          simp only [hn, Option.isSome_some, if_true] at h
          rcases runs_tryThen.mp h with ⟨err, rfl, hr⟩ | ⟨_, w₃, hr, h⟩
          · rcases rename_run hr with ⟨hok, _⟩ | ⟨_, he, hw, hp⟩
            · cases hok
            · cases he
              rw [hw]
              exact .stopped 1 err hcount hs' (.inl ⟨_, _, hp⟩)
          · rcases rename_run hr with ⟨_, hw⟩ | ⟨_, he, _⟩
            · refine reopen_run ?_ h
              rw [hw]
              exact hs'.move hname (Nat.zero_le _)
            · cases he
    · cases he

theorem rotate_run (hright : ∀ {c : Call} {b : Ans c}, P c b → checksRight c b)
    (hname : log.path.fileName.isSome) (hcount : 1 ≤ log.limits.backupCount)
    {r : Except IoError RotatingLogWriter}
    (h : Runs ((machine false).restrict P) log.rotate w r w') : Rotated P log w.disk r w'.disk := by
  have hlast : backupPath log.path log.limits.backupCount =
      slot log.path (log.limits.backupCount - 1 + 1) := by
    rw [slot, Nat.sub_add_cancel hcount]
  obtain ⟨removed, w₁, hr, h⟩ := runs_bind.mp h
  obtain ⟨u, v, hd, ⟨ha, hp⟩, hd'⟩ := runs_perform.mp hr
  have hu := drift_disk hd
  have hv := drift_disk hd'
  cases removed with
  | ok _ =>
      obtain ⟨_, rfl⟩ := ha
      refine shiftAll_run hright hname hcount ?_ h
      rw [hv, hu, hlast]
      exact shifted_unlink ..
  | error err =>
      obtain ⟨hfound, rfl⟩ := ha
      by_cases hk : err.kind = .notFound
      · simp only [hk, ne_eq, not_true_eq_false, if_false] at h
        refine shiftAll_run hright hname hcount ?_ h
        rw [hv, hu]
        refine shifted_absent ?_
        rw [← hlast, ← hu]
        exact hfound hk
      · simp only [ne_eq, hk, not_false_eq_true, if_true] at h
        obtain ⟨rfl, hd''⟩ := runs_pure.mp h
        rw [drift_disk hd'', hv, hu]
        exact .refused _ err hk hp

def Rotates (path : Path) (count : Nat) : Call → Prop
  | .metadata _ | .removeFile _ | .openAppend _ | .fileLen _ => True
  | .rename source _ => ∃ i, i ≤ count ∧ source = slot path i
  | _ => False

theorem reopen_rotates (log : RotatingLogWriter) : log.reopen.Only (Rotates path high) := by
  refine Prog.only_tryThen ?_ (fun _ => Prog.only_pure _ _)
  refine Prog.only_tryThen (Prog.only_perform trivial) (fun _ => ?_)
  exact Prog.only_tryThen (Prog.only_perform trivial) (fun _ => Prog.only_pure _ _)

theorem shiftBackups_rotates {index : Nat} (h : index ≤ high) : (shiftBackups path index).Only (Rotates path high) := by
  induction index with
  | zero => exact Prog.only_pure _ _
  | succ index ih =>
      refine Prog.only_bind (pathExists_only trivial) ?_
      intro there
      cases there with
      | true => exact Prog.only_tryThen (Prog.only_perform ⟨index + 1, h, rfl⟩) (fun _ => ih (Nat.le_of_succ_le h))
      | false => exact ih (Nat.le_of_succ_le h)

theorem shiftAll_rotates (log : RotatingLogWriter) :
    log.shiftAll.Only (Rotates log.path log.limits.backupCount) := by
  refine Prog.only_tryThen (shiftBackups_rotates (Nat.sub_le _ _)) (fun _ => ?_)
  refine Prog.only_bind (pathExists_only trivial) ?_
  intro there
  cases there with
  | true => exact Prog.only_tryThen (Prog.only_perform ⟨0, Nat.zero_le _, rfl⟩) (fun _ => reopen_rotates log)
  | false => exact reopen_rotates log

theorem rotate_rotates (log : RotatingLogWriter) : log.rotate.Only (Rotates log.path log.limits.backupCount) := by
  refine Prog.only_bind (Prog.only_perform trivial) ?_
  intro removed
  cases removed with
  | ok _ => exact shiftAll_rotates log
  | error err =>
      dsimp only
      split
      · exact Prog.only_pure _ _
      · exact shiftAll_rotates log

theorem rotateIfFull_rotates (log : RotatingLogWriter) :
    log.rotateIfFull.Only (Rotates log.path log.limits.backupCount) := by
  unfold rotateIfFull
  split
  · exact rotate_rotates log
  · exact Prog.only_pure _ _

def roomFor (log : RotatingLogWriter) (data : List UInt8) : Nat :=
  min (log.limits.maxBytes - log.size) data.length

/-- How one pass of the loop of a write can go: the rotation before it fails,
the size is over the limit, writing fails, or the loop goes on with the rest. -/
inductive Passed {W : Type} (M : Machine sys W) (fuel : Nat) (log : RotatingLogWriter) (data : List UInt8)
    (u : W) : RotatingLogWriter → Except WriteError Unit → W → Prop
  | unrotated (err : IoError) {v : W} : Runs M log.rotateIfFull u (.error err) v →
      Passed M fuel log data u log (.error (.io err)) v
  | underflow (log₁ : RotatingLogWriter) {v : W} : Runs M log.rotateIfFull u (.ok log₁) v →
      log₁.limits.maxBytes < log₁.size → Passed M fuel log data u log₁ (.error .underflow) v
  | unwritten (log₁ : RotatingLogWriter) (err : IoError) {u₁ v : W} :
      Runs M log.rotateIfFull u (.ok log₁) u₁ →
      Runs M (perform (.writeAll log₁.file (data.take (roomFor log₁ data)))) u₁ (.error err) v →
      Passed M fuel log data u log₁ (.error (.io err)) v
  | passed (log₁ : RotatingLogWriter) {log' : RotatingLogWriter} {r : Except WriteError Unit}
      {u₁ u₂ v : W} : Runs M log.rotateIfFull u (.ok log₁) u₁ →
      Runs M (perform (.writeAll log₁.file (data.take (roomFor log₁ data)))) u₁ (.ok ()) u₂ →
      Runs M (writeLoop fuel { log₁ with size := log₁.size + roomFor log₁ data }
        (data.drop (roomFor log₁ data))) u₂ (log', r) v →
      Passed M fuel log data u log' r v

theorem writeLoop_pass {W : Type} {M : Machine sys W} {w w' : W} {fuel : Nat} {b : UInt8} {rest : List UInt8}
    {log' : RotatingLogWriter} {r : Except WriteError Unit}
    (h : Runs M (writeLoop (fuel + 1) log (b :: rest)) w (log', r) w') :
    Passed M fuel log (b :: rest) w log' r w' := by
  obtain ⟨rotated, w₁, hrot, h⟩ := runs_bind.mp h
  cases rotated with
  | error err =>
      obtain ⟨he, hd⟩ := runs_pure.mp h
      cases he
      exact .unrotated err (hrot.drift_right hd)
  | ok log₁ =>
      dsimp only at h
      split at h
      · rename_i hover
        obtain ⟨he, hd⟩ := runs_pure.mp h
        cases he
        exact .underflow _ (hrot.drift_right hd) hover
      · obtain ⟨wrote, w₂, hwrite, h⟩ := runs_bind.mp h
        cases wrote with
        | error err =>
            obtain ⟨he, hd⟩ := runs_pure.mp h
            cases he
            exact .unwritten _ err hrot (hwrite.drift_right hd)
        | ok _ => exact .passed log₁ hrot hwrite h

/-- With nothing left to write, a write ends with a flush. -/
theorem writeLoop_flush {W : Type} {M : Machine sys W} {w w' : W} {fuel : Nat}
    {log' : RotatingLogWriter} {r : Except WriteError Unit} (h : Runs M (writeLoop fuel log []) w (log', r) w') :
    log' = log ∧ ∃ flushed, Runs M (perform (.flush log.file)) w flushed w' ∧
      ((flushed = .ok () ∧ r = .ok ()) ∨ ∃ err, flushed = .error err ∧ r = .error (.io err)) := by
  rw [writeLoop] at h
  obtain ⟨flushed, w₁, hf, h⟩ := runs_bind.mp h
  cases flushed with
  | error err =>
      obtain ⟨he, hd⟩ := runs_pure.mp h
      cases he
      exact ⟨rfl, _, hf.drift_right hd, .inr ⟨err, rfl, rfl⟩⟩
  | ok _ =>
      obtain ⟨he, hd⟩ := runs_pure.mp h
      cases he
      exact ⟨rfl, _, hf.drift_right hd, .inl ⟨rfl, rfl⟩⟩

end LocalDevProxy.LogSlots
