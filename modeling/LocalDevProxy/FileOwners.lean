import LocalDevProxy.Lib.Policies
import LocalDevProxy.LogFamilies
import LocalDevProxy.LogSlots
import LocalDevProxy.ServiceOperations
import LocalDevProxy.Steady
import LocalDevProxy.TerminateTree

namespace LocalDevProxy.FileOwners

open Lib.Interaction Lib.Policies Paths Environment Toml Config Os LogRotation RotatingLogWriter LogFamilies
  LogSlots Process AcceptedManifests ServiceOperations TerminateTree

def Foreign (own : Path → Prop) (d : Disk) (file : Nat) : Prop := ∀ p, own p → d.names p ≠ some file

/-- The files of these paths have no other name, and every file is older than the next one. -/
structure Reserved (own : Path → Prop) (d : Disk) : Prop where
  bounded : ∀ p file, d.names p = some file → file < d.next
  alone : ∀ p q file, own p → d.names p = some file → d.names q = some file → q = p

/-- These paths lead to the files they did, with what these held, and still alone. -/
structure LeftAlone (own : Path → Prop) (d d' : Disk) : Prop where
  names : ∀ p, own p → d'.names p = d.names p
  data : ∀ p file, own p → d.names p = some file → d'.data file = d.data file
  reserved : Reserved own d → Reserved own d'

variable {own : Path → Prop} {d d' d'' : Disk}

theorem ne_of_own {p q : Path} (hp : own p) (hq : ¬ own q) : p ≠ q := by
  rintro rfl
  exact hq hp

theorem LeftAlone.refl (d : Disk) : LeftAlone own d d := ⟨fun _ _ => rfl, fun _ _ _ _ => rfl, fun h => h⟩

theorem LeftAlone.trans (h : LeftAlone own d d') (h' : LeftAlone own d' d'') : LeftAlone own d d'' where
  names := fun p hp => (h'.names p hp).trans (h.names p hp)
  data := fun p file hp hfile =>
    (h'.data p file hp ((h.names p hp).trans hfile)).trans (h.data p file hp hfile)
  reserved := fun hr => h'.reserved (h.reserved hr)

theorem Reserved.mono {own' : Path → Prop} (h : Reserved own d) (hown : ∀ p, own' p → own p) : Reserved own' d :=
  ⟨h.bounded, fun p q file hp => h.alone p q file (hown p hp)⟩

theorem LeftAlone.foreign (h : LeftAlone own d d') {file : Nat} (hfile : Foreign own d file) :
    Foreign own d' file := by
  intro p hp
  rw [h.names p hp]
  exact hfile p hp

theorem LeftAlone.content (h : LeftAlone own d d') {p : Path} (hp : own p) :
    content d' p = content d p := by
  rw [LogSlots.content, LogSlots.content, h.names p hp]
  cases hnames : d.names p with
  | none => rfl
  | some file => exact congrArg some (h.data p file hp hnames)

theorem Reserved.foreign (h : Reserved own d) {q : Path} {file : Nat} (hq : ¬ own q) (hfile : d.names q = some file) :
    Foreign own d file := by
  intro p hp hsame
  exact hq (h.alone p q file hp hsame hfile ▸ hp)

theorem Reserved.foreign_next (h : Reserved own d) : Foreign own d d.next :=
  fun p _ hsame => Nat.lt_irrefl _ (h.bounded p _ hsame)

/-- Other names may come to lead to other files, and these may change. -/
theorem leftAlone_of (hr : Reserved own d) (hnames : ∀ p, own p → d'.names p = d.names p)
    (hdata : ∀ file, d'.data file = d.data file ∨ Foreign own d file) (hnext : d.next ≤ d'.next)
    (hothers : ∀ q file, ¬ own q → d'.names q = some file → Foreign own d file ∧ file < d'.next) :
    LeftAlone own d d' where
  names := hnames
  data := fun p file hp hfile => (hdata file).resolve_right fun hforeign => hforeign p hp hfile
  reserved := fun _ => by
    refine ⟨fun p file hfile => ?_, fun p q file hp hfile hq => ?_⟩
    · by_cases hown : own p
      · rw [hnames p hown] at hfile
        exact Nat.lt_of_lt_of_le (hr.bounded p file hfile) hnext
      · exact (hothers p file hown hfile).2
    · rw [hnames p hp] at hfile
      by_cases hown : own q
      · rw [hnames q hown] at hq
        exact hr.alone p q file hp hfile hq
      · exact absurd hfile ((hothers q file hown hq).1 p hp)

theorem leftAlone_link (hr : Reserved own d) {path : Path} {file : Option Nat} (hpath : ¬ own path)
    (hfile : ∀ n, file = some n → Foreign own d n ∧ n < d.next) : LeftAlone own d (d.link path file) := by
  refine leftAlone_of hr (fun p hp => ?_) (fun _ => .inl rfl) (Nat.le_refl _) (fun q n hq hn => ?_)
  · exact d.names_link_of_ne (ne_of_own hp hpath) file
  · by_cases hsame : q = path
    · rw [hsame, d.names_link_self] at hn
      exact hfile n hn
    · rw [d.names_link_of_ne hsame] at hn
      exact ⟨hr.foreign hq hn, hr.bounded q n hn⟩

theorem leftAlone_move (hr : Reserved own d) {source destination : Path} (hsource : ¬ own source)
    (hdestination : ¬ own destination) : LeftAlone own d (d.move source destination) := by
  have hunlinked : LeftAlone own d (d.link source none) := leftAlone_link hr hsource nofun
  refine hunlinked.trans (leftAlone_link (hunlinked.reserved hr) hdestination fun n hn => ?_)
  exact ⟨hunlinked.foreign (hr.foreign hsource hn), hr.bounded source n hn⟩

theorem leftAlone_store (hr : Reserved own d) {file : Nat} (hfile : Foreign own d file) (bytes : List UInt8) :
    LeftAlone own d (d.store file bytes) := by
  refine leftAlone_of hr (fun _ _ => rfl) (fun n => ?_) (Nat.le_refl _)
    (fun q n hq hn => ⟨hr.foreign hq hn, hr.bounded q n hn⟩)
  by_cases hsame : n = file
  · exact .inr (hsame ▸ hfile)
  · exact .inl (Function.update_of_ne hsame ..)

theorem leftAlone_create (hr : Reserved own d) {path : Path} (hpath : ¬ own path) :
    LeftAlone own d (d.create path).1 ∧ Foreign own d (d.create path).2 := by
  cases hnames : d.names path with
  | some file =>
      rw [create_present hnames]
      exact ⟨.refl d, hr.foreign hpath hnames⟩
  | none =>
      have hc := create_created hnames
      have hlarger : d.next < (d.create path).1.next := by
        rw [hc.next]
        exact Nat.lt_succ_self _
      refine ⟨leftAlone_of hr (fun p hp => ?_) (fun n => ?_) (Nat.le_of_lt hlarger) (fun q n hq hn => ?_), ?_⟩
      · exact hc.names p (ne_of_own hp hpath)
      · by_cases hnew : n = d.next
        · exact .inr (hnew ▸ hr.foreign_next)
        · exact .inl (hc.data n hnew)
      · rcases hc.origin hn with ⟨_, rfl⟩ | hold
        · exact ⟨hr.foreign_next, hlarger⟩
        · exact ⟨hr.foreign hq hold, Nat.lt_trans (hr.bounded q n hold) hlarger⟩
      · rw [create_handle hnames]
        exact hr.foreign_next

/-- A file that is created has one name. -/
theorem reserved_create (hr : Reserved own d) (path : Path) : Reserved own (d.create path).1 := by
  cases hnames : d.names path with
  | some file =>
      rw [create_present hnames]
      exact hr
  | none =>
      have hc := create_created hnames
      have hold {p : Path} {file : Nat} (hfile : d.names p = some file) : file ≠ d.next :=
        Nat.ne_of_lt (hr.bounded p file hfile)
      refine ⟨fun p file hfile => ?_, fun p q file hp hfile hq => ?_⟩
      · rw [hc.next]
        rcases hc.origin hfile with ⟨_, rfl⟩ | hfile
        · exact Nat.lt_succ_self _
        · exact Nat.lt_succ_of_lt (hr.bounded p file hfile)
      · rcases hc.origin hfile with ⟨rfl, hnew⟩ | hfile
        · rcases hc.origin hq with ⟨rfl, _⟩ | hq
          · rfl
          · exact absurd hnew (hold hq)
        · rcases hc.origin hq with ⟨_, hnew⟩ | hq
          · exact absurd hnew (hold hfile)
          · exact hr.alone p q file hp hfile hq

theorem create_lt (hr : Reserved own d) (path : Path) : (d.create path).2 < (d.create path).1.next := by
  cases hnames : d.names path with
  | some file =>
      rw [create_present hnames]
      exact hr.bounded path file hnames
  | none =>
      rw [create_handle hnames, (create_created hnames).next]
      exact Nat.lt_succ_self _

/-- What a name leads to after a move, it led to before, but for the destination. -/
theorem move_origin {source destination p : Path} {file : Nat}
    (hfile : (d.move source destination).names p = some file) :
    p = destination ∧ d.names source = some file ∨ p ≠ source ∧ d.names p = some file := by
  by_cases hdestination : p = destination
  · rw [hdestination, Disk.names_move_destination] at hfile
    exact .inl ⟨hdestination, hfile⟩
  · by_cases hsource : p = source
    · rw [hsource, d.names_move_source fun hsame => hdestination (hsource.trans hsame)] at hfile
      cases hfile
    · rw [d.names_move_of_ne hsource hdestination] at hfile
      exact .inr ⟨hsource, hfile⟩

theorem reserved_move (hr : Reserved own d) {source destination : Path} (hown : own destination → own source) :
    Reserved own (d.move source destination) := by
  refine ⟨fun p file hfile => ?_, fun p q file hp hfile hq => ?_⟩
  · rcases move_origin hfile with ⟨_, hbefore⟩ | ⟨_, hbefore⟩
    · exact hr.bounded _ _ hbefore
    · exact hr.bounded _ _ hbefore
  · rcases move_origin hfile with ⟨rfl, hbefore⟩ | ⟨hsource, hbefore⟩
    · rcases move_origin hq with ⟨rfl, _⟩ | ⟨hsource, hbefore'⟩
      · rfl
      · exact absurd (hr.alone _ q file (hown hp) hbefore hbefore') hsource
    · rcases move_origin hq with ⟨_, hbefore'⟩ | ⟨_, hbefore'⟩
      · exact absurd (hr.alone p _ file hp hbefore hbefore').symm hsource
      · exact hr.alone p q file hp hbefore hbefore'

/-- What a change to the files may bring to these paths: files that were theirs or that are new. -/
structure Grown (own : Path → Prop) (d d' : Disk) : Prop where
  next : d.next ≤ d'.next
  reserved : Reserved own d → Reserved own d'
  foreign : ∀ file, file < d.next → Foreign own d file → Foreign own d' file

theorem Grown.refl (d : Disk) : Grown own d d := ⟨Nat.le_refl _, fun h => h, fun _ _ h => h⟩

theorem Grown.trans (h : Grown own d d') (h' : Grown own d' d'') : Grown own d d'' where
  next := Nat.le_trans h.next h'.next
  reserved := fun hr => h'.reserved (h.reserved hr)
  foreign := fun file hfile hforeign =>
    h'.foreign file (Nat.lt_of_lt_of_le hfile h.next) (h.foreign file hfile hforeign)

theorem grown_store (d : Disk) (file : Nat) (bytes : List UInt8) : Grown own d (d.store file bytes) :=
  ⟨Nat.le_refl _, fun hr => ⟨hr.bounded, hr.alone⟩, fun _ _ h => h⟩

theorem grown_create (d : Disk) (path : Path) : Grown own d (d.create path).1 := by
  refine ⟨?_, fun hr => reserved_create hr path, fun file hfile hforeign p hp hnow => ?_⟩
  · cases hnames : d.names path with
    | some file => exact Nat.le_of_eq (congrArg (fun made => made.1.next) (create_present hnames)).symm
    | none =>
        rw [(create_created hnames).next]
        exact Nat.le_succ _
  · cases hnames : d.names path with
    | some other =>
        rw [create_present hnames] at hnow
        exact hforeign p hp hnow
    | none =>
        rcases (create_created hnames).origin hnow with ⟨_, rfl⟩ | hbefore
        · exact Nat.lt_irrefl _ hfile
        · exact hforeign p hp hbefore

inductive Filed : (c : Call) → Disk → Disk → Prop
  | removed (path : Path) (d : Disk) : Filed (.removeFile path) d (d.link path none)
  | renamed (source destination : Path) (d : Disk) : Filed (.rename source destination) d (d.move source destination)
  | opened (path : Path) (d : Disk) : Filed (.openAppend path) d (d.create path).1
  | wrote (file : Nat) (data bytes : List UInt8) (d : Disk) : Filed (.writeAll file data) d (d.append file bytes)
  | stored (path : Path) (text : String) (bytes : List UInt8) (d : Disk) :
      Filed (.writeFile path text) d ((d.create path).1.store (d.create path).2 bytes)

theorem filed_grown {c : Call} (h : Filed c d d')
    (hmove : ∀ source destination, c = .rename source destination → own destination → own source) : Grown own d d' := by
  cases h with
  | removed path =>
      have hbefore {p : Path} {file : Nat} (hfile : (d.link path none).names p = some file) :
          d.names p = some file := by
        by_cases hp : p = path
        · rw [hp, d.names_link_self] at hfile
          cases hfile
        · rwa [d.names_link_of_ne hp] at hfile
      refine ⟨Nat.le_refl _, fun hr => ⟨?_, ?_⟩, fun file _ hforeign p hp hfile => hforeign p hp (hbefore hfile)⟩
      · exact fun p file hfile => hr.bounded p file (hbefore hfile)
      · exact fun p q file hp hfile hq => hr.alone p q file hp (hbefore hfile) (hbefore hq)
  | renamed source destination =>
      refine ⟨Nat.le_refl _, fun hr => reserved_move hr (hmove _ _ rfl), fun file _ hforeign p hp hfile => ?_⟩
      rcases move_origin hfile with ⟨rfl, hbefore⟩ | ⟨_, hbefore⟩
      · exact hforeign source (hmove _ _ rfl hp) hbefore
      · exact hforeign p hp hbefore
  | opened path => exact grown_create d path
  | wrote file data bytes => exact grown_store d file _
  | stored path text bytes => exact (grown_create d path).trans (grown_store _ _ bytes)

theorem answers_files {c : Call} {b : Ans c} {u v : World} (h : answers c u b v) :
    v.disk = u.disk ∨ Filed c u.disk v.disk := by
  unfold answers at h
  split at h
  case h_12 => obtain ⟨_, rfl⟩ := h; exact .inr (.removed _ _)
  case h_14 => obtain ⟨_, rfl⟩ := h; exact .inr (.renamed _ _ _)
  case h_15 => obtain ⟨_, rfl⟩ := h; exact .inr (.opened _ _)
  case h_17 => obtain rfl := h; exact .inr (.wrote _ _ _ _)
  case h_18 => obtain ⟨n, rfl⟩ := h; exact .inr (.wrote _ _ _ _)
  case h_21 => obtain rfl := h; exact .inr (.stored _ _ _ _)
  case h_22 =>
    rcases h with rfl | ⟨n, rfl⟩
    · exact .inl rfl
    · exact .inr (.stored _ _ _ _)
  all_goals first
    | (obtain rfl := h; exact .inl rfl)
    | (obtain ⟨rfl, _⟩ := h; exact .inl rfl)
    | (obtain ⟨_, rfl⟩ := h; exact .inl rfl)

/-- A program knows the files it has opened. It writes to no other, and leaves these paths alone. -/
def policy (own : Path → Prop) : Policy sys (List Nat) where
  allowed files
    | .removeFile path | .openAppend path | .writeFile path _ => ¬ own path
    | .rename source destination => ¬ own source ∧ ¬ own destination
    | .writeAll file _ => file ∈ files
    | _ => True
  learn
    | files, .openAppend _, .ok file => file :: files
    | files, _, _ => files

theorem policy_learns (files : List Nat) (c : Call) (b : Ans c) : files ⊆ (policy own).learn files c b := by
  unfold policy
  dsimp only
  split
  · exact List.subset_cons_self _ _
  · exact List.Subset.refl _

/-- How a world has changed since a moment: these paths were left alone, and no opened file is theirs. -/
structure Spared (own : Path → Prop) (d : Disk) (files : List Nat) (w : World) : Prop where
  alone : LeftAlone own d w.disk
  reserved : Reserved own w.disk
  foreign : ∀ file ∈ files, Foreign own w.disk file

theorem Spared.leftAlone {files : List Nat} {u v : World} (h : Spared own d files u)
    (ha : LeftAlone own u.disk v.disk) : Spared own d files v :=
  ⟨h.alone.trans ha, ha.reserved h.reserved, fun file hfile => ha.foreign (h.foreign file hfile)⟩

theorem filed_leftAlone {files : List Nat} {c : Call} {u : World} (hc : (policy own).allowed files c)
    (h : Spared own d files u) (hf : Filed c u.disk d') : LeftAlone own u.disk d' := by
  cases hf with
  | removed path => exact leftAlone_link h.reserved hc nofun
  | renamed source destination => exact leftAlone_move h.reserved hc.1 hc.2
  | opened path => exact (leftAlone_create h.reserved hc).1
  | wrote file data bytes => exact leftAlone_store h.reserved (h.foreign file hc) _
  | stored path text bytes =>
      obtain ⟨hcreated, hforeign⟩ := leftAlone_create h.reserved hc
      exact hcreated.trans (leftAlone_store (hcreated.reserved h.reserved) (hcreated.foreign hforeign) bytes)

theorem spared_call {files : List Nat} {c : Call} {b : Ans c} {u v : World} (hc : (policy own).allowed files c)
    (h : Spared own d files u) (ha : answers c u b v) : Spared own d ((policy own).learn files c b) v := by
  have halone : LeftAlone own u.disk v.disk := by
    rcases answers_files ha with hsame | hf
    · rw [hsame]
      exact .refl _
    · exact filed_leftAlone hc h hf
  have hs := h.leftAlone halone
  refine ⟨hs.alone, hs.reserved, fun file hfile => ?_⟩
  unfold policy at hfile
  dsimp only at hfile
  split at hfile
  · rename_i path opened
    rcases List.mem_cons.mp hfile with rfl | hold
    · obtain ⟨rfl, _⟩ := ha
      exact halone.foreign (leftAlone_create h.reserved hc).2
    · exact hs.foreign file hold
  · exact hs.foreign file hfile

theorem allowed_apart {other : Path → Prop} {files : List Nat} {c : Call} (hown : ∀ p, own p → ¬ other p)
    (hc : (policy fun p => ¬ own p).allowed files c) : (policy other).allowed files c := by
  cases c with
  | removeFile path | openAppend path | writeFile path => exact hown path (not_not.mp hc)
  | rename source destination => exact ⟨hown source (not_not.mp hc.1), hown destination (not_not.mp hc.2)⟩
  | writeAll file data => exact hc
  | _ => trivial

theorem learned_lt {files : List Nat} {c : Call} {b : Ans c} {u v : World} (hr : Reserved own u.disk)
    (hfiles : ∀ file ∈ files, file < v.disk.next) (ha : answers c u b v) :
    ∀ file ∈ (policy own).learn files c b, file < v.disk.next := by
  intro file hfile
  unfold policy at hfile
  dsimp only at hfile
  split at hfile
  · rename_i path opened
    rcases List.mem_cons.mp hfile with rfl | hold
    · obtain ⟨rfl, rfl⟩ := ha
      exact create_lt hr path
    · exact hfiles file hold
  · exact hfiles file hfile

section

variable {κ : Type} {area : κ → Path → Prop} {k : κ} {files : List Nat}

def OwnFiles (area : κ → Path → Prop) (k : κ) (files : List Nat) (d : Disk) : Prop :=
  ∀ file ∈ files, file < d.next ∧ ∀ j, j ≠ k → Foreign (area j) d file

theorem OwnFiles.grown (h : OwnFiles area k files d) (hg : ∀ j, Grown (area j) d d') : OwnFiles area k files d' := by
  intro file hfile
  obtain ⟨hold, hforeign⟩ := h file hfile
  exact ⟨Nat.lt_of_lt_of_le hold (hg k).next, fun j hj => (hg j).foreign file hold (hforeign j hj)⟩

/-- Where areas have no path in common, a call on one of them leaves the others alone. -/
theorem area_call {c : Call} {b : Ans c} {u v : World} (hapart : ∀ j p, area k p → area j p → j = k)
    (hreserved : ∀ j, Reserved (area j) u.disk) (hfiles : OwnFiles area k files u.disk)
    (hc : (policy fun p => ¬ area k p).allowed files c) (ha : answers c u b v) :
    (∀ j, Grown (area j) u.disk v.disk) ∧ (∀ j, j ≠ k → LeftAlone (area j) u.disk v.disk) ∧
      OwnFiles area k ((policy fun p => ¬ area k p).learn files c b) v.disk := by
  have hother (j : κ) (hj : j ≠ k) (p : Path) (hp : area k p) : ¬ area j p := fun hboth => hj (hapart j p hp hboth)
  have hgrown (j : κ) : Grown (area j) u.disk v.disk := by
    rcases answers_files ha with hsame | hfiled
    · rw [hsame]
      exact .refl _
    · refine filed_grown hfiled ?_
      rintro source destination rfl hdestination
      by_cases hj : j = k
      · rw [hj]
        exact not_not.mp hc.1
      · exact absurd hdestination (hother j hj _ (not_not.mp hc.2))
  have hspared (j : κ) (hj : j ≠ k) : Spared (area j) u.disk ((policy (area j)).learn files c b) v := by
    have hnow : Spared (area j) u.disk files u := ⟨.refl _, hreserved j, fun file hfile => (hfiles file hfile).2 j hj⟩
    exact spared_call (allowed_apart (hother j hj) hc) hnow ha
  refine ⟨hgrown, fun j hj => (hspared j hj).alone, fun file hfile => ⟨?_, fun j hj => ?_⟩⟩
  · exact learned_lt (hreserved k) (fun n hn => Nat.lt_of_lt_of_le (hfiles n hn).1 (hgrown k).next) ha file hfile
  · exact (hspared j hj).foreign file hfile

end

/-- The system, with others at work on the files, but not on these paths. -/
def undisturbed (own : Path → Prop) : Machine sys World where
  answers := answers
  drift := fun w w' => (∀ id, Evolves (w.groups id) (w'.groups id)) ∧ LeftAlone own w.disk w'.disk
  drift_refl := fun _ => ⟨fun _ => .refl _, .refl _⟩
  drift_trans := fun huv hvw => ⟨fun id => (huv.1 id).trans (hvw.1 id), huv.2.trans hvw.2⟩

/-- A program that leaves these paths alone whatever files it has opened before. -/
def Spares (own : Path → Prop) {α : Type} (p : Io α) : Prop :=
  ∀ files, Confined (policy own) (fun _ _ => True) files p

variable {α β : Type} {w w' : World}

theorem runs_anyhow {p : Io α} {a : α} (h : Runs (undisturbed own) p w a w') :
    Runs ((machine true).restrict fun _ _ => True) p w a w' :=
  h.mono (fun hd => ⟨hd.1, nofun⟩) fun ha => ⟨ha, trivial⟩

theorem spares_run {p : Io α} {a : α} (hp : Spares own p) (hr : Reserved own w.disk)
    (h : Runs (undisturbed own) p w a w') : LeftAlone own w.disk w'.disk := by
  have hstart : Spared own w.disk [] w := ⟨.refl _, hr, nofun⟩
  obtain ⟨_, _, hs⟩ := runs_confined (M := undisturbed own) (Spared own w.disk)
    (fun hs hd => hs.leftAlone hd.2) spared_call h (hp []) hstart
  exact hs.alone

theorem spares_visits {p : Io α} {v : World} (hp : Spares own p) (hr : Reserved own w.disk)
    (h : Visits (undisturbed own) p w v) : LeftAlone own w.disk v.disk := by
  have hstart : Spared own w.disk [] w := ⟨.refl _, hr, nofun⟩
  obtain ⟨_, hs⟩ := visits_confined (M := undisturbed own) (Spared own w.disk)
    (fun hs hd => hs.leftAlone hd.2) spared_call h (hp []) hstart
  exact hs.alone

theorem spares_pure (a : α) : Spares own (Pure.pure a) := fun _ => trivial

theorem spares_bind {p : Io α} {f : α → Io β} (hp : Spares own p) (hf : ∀ a, Spares own (f a)) :
    Spares own (p >>= f) :=
  fun files => confined_bind (hp files) fun files a _ => hf a files

theorem spares_tryThen {ε : Type} {p : Io (Except ε α)} {f : α → Io (Except ε β)} (hp : Spares own p)
    (hf : ∀ a, Spares own (f a)) : Spares own (p.tryThen f) :=
  fun files => confined_tryThen (hp files) (fun _ _ _ => trivial) fun files a _ => hf a files

theorem spares_traverse {f : α → Io β} {as : List α} (hf : ∀ a ∈ as, Spares own (f a)) :
    Spares own (Prog.traverse f as) :=
  fun _ => confined_traverse hf

def Fileless : Call → Prop
  | .removeFile _ | .rename _ _ | .openAppend _ | .writeAll _ _ | .writeFile _ _ => False
  | _ => True

theorem spares_of_only {p : Io α} (hp : p.Only Fileless) : Spares own p := by
  intro files
  apply confined_of_only hp
  intro files c hc
  cases c <;> trivial

/-- What follows need only leave these paths alone for what the first program can end with. -/
theorem spares_bind_yields {R : α → Prop} {p : Io α} {f : α → Io β} (hp : Spares own p) (hy : p.Yields R)
    (hf : ∀ a, R a → Spares own (f a)) : Spares own (p >>= f) :=
  fun files => confined_bind ((hp files).yields hy) fun files a ha => hf a ha.2 files

section

variable {path : Path} {files : List Nat}

structure Holds (path : Path) (files : List Nat) (log : RotatingLogWriter) : Prop where
  path_eq : log.path = path
  count : 1 ≤ log.limits.backupCount
  file : log.file ∈ files

theorem openAppend_confined (hpath : ¬ own path) :
    Confined (policy own) (fun files r => ∀ opened, r = .ok opened → opened.1 ∈ files) files (openAppend path) := by
  have hopen : Confined (policy own) (fun files r => ∀ file, r = .ok file → file ∈ files) files
      (perform (.openAppend path)) := by
    refine confined_perform hpath ?_
    rintro b file rfl
    exact List.mem_cons_self
  apply confined_tryThen hopen
  · exact fun _ _ _ => nofun
  · intro files file hfile
    apply confined_tryThen (Q := fun files _ => file ∈ files) (confined_perform trivial fun _ => hfile file rfl)
    · exact fun _ _ _ => nofun
    · rintro files size hmem opened ⟨⟩
      exact hmem

theorem openWriter_confined (hpath : ¬ own path) (limits : LogLimits) :
    Confined (policy own) (fun files r => ∀ log, r = .ok log → Holds path files log) files
      (openWriter path limits) := by
  have hopened (hcount : 1 ≤ limits.backupCount) (files : List Nat) :
      Confined (policy own) (fun files r => ∀ log, r = .ok log → Holds path files log) files
        ((openAppend path).tryThen fun opened => return .ok ⟨path, limits, opened.1, opened.2⟩) := by
    apply confined_tryThen (openAppend_confined hpath)
    · exact fun _ _ _ => nofun
    · rintro files opened hopened log ⟨⟩
      exact ⟨rfl, hcount, hopened opened rfl⟩
  unfold openWriter
  split
  · exact nofun
  · rename_i hlimits
    have hcount : 1 ≤ limits.backupCount := Nat.le_of_not_lt fun hnone => hlimits (.inr hnone)
    cases path.parent with
    | none => exact hopened hcount files
    | some parent =>
        apply confined_tryThen (Q := fun _ _ => True) (confined_perform trivial fun _ => trivial)
        · exact fun _ _ _ => nofun
        · exact fun files _ _ => hopened hcount files

def Clear (own : Path → Prop) (path : Path) : Prop := ∀ p, InFamily path p → ¬ own p

theorem Clear.backup (h : Clear own path) {index : Nat} (hindex : 1 ≤ index) : ¬ own (backupPath path index) :=
  h _ (.inr ⟨index, hindex, rfl⟩)

theorem pathExists_spares (path : Path) : Spares own (pathExists path) :=
  spares_of_only (pathExists_only trivial)

theorem shiftBackups_spares (hclear : Clear own path) (index : Nat) : Spares own (shiftBackups path index) := by
  induction index with
  | zero => exact spares_pure _
  | succ index ih =>
      refine spares_bind (pathExists_spares _) (fun there => ?_)
      cases there with
      | false => exact ih
      | true =>
          have hsource := hclear.backup (Nat.le_add_left 1 index)
          have hdestination := hclear.backup (Nat.le_add_left 1 (index + 1))
          apply spares_tryThen
          · exact fun files => confined_perform ⟨hsource, hdestination⟩ fun _ => trivial
          · exact fun _ => ih

variable {log : RotatingLogWriter}

theorem reopen_confined (hclear : Clear own log.path) (hcount : 1 ≤ log.limits.backupCount) :
    Confined (policy own) (fun files r => ∀ log', r = .ok log' → Holds log.path files log') files log.reopen := by
  apply confined_tryThen (openAppend_confined (hclear _ (.inl rfl)))
  · exact fun _ _ _ => nofun
  · rintro files opened hopened log' ⟨⟩
    exact ⟨rfl, hcount, hopened opened rfl⟩

theorem shiftAll_confined (hclear : Clear own log.path) (hcount : 1 ≤ log.limits.backupCount) :
    Confined (policy own) (fun files r => ∀ log', r = .ok log' → Holds log.path files log') files log.shiftAll := by
  apply confined_tryThen (shiftBackups_spares hclear _ files)
  · exact fun _ _ _ => nofun
  · intro files _ _
    apply confined_bind (pathExists_spares _ files)
    intro files there _
    cases there with
    | false => exact reopen_confined hclear hcount
    | true =>
        have hmove : Confined (policy own) (fun _ _ => True) files
            (perform (.rename log.path (backupPath log.path 1))) :=
          confined_perform ⟨hclear _ (.inl rfl), hclear.backup (Nat.le_refl 1)⟩ fun _ => trivial
        apply confined_tryThen hmove
        · exact fun _ _ _ => nofun
        · exact fun _ _ _ => reopen_confined hclear hcount

theorem rotate_confined (hclear : Clear own log.path) (hcount : 1 ≤ log.limits.backupCount) :
    Confined (policy own) (fun files r => ∀ log', r = .ok log' → Holds log.path files log') files log.rotate := by
  have hremove : Confined (policy own) (fun _ _ => True) files
      (perform (.removeFile (backupPath log.path log.limits.backupCount))) :=
    confined_perform (hclear.backup hcount) fun _ => trivial
  apply confined_bind hremove
  intro files removed _
  cases removed with
  | ok _ => exact shiftAll_confined hclear hcount
  | error err =>
      dsimp only
      split
      · exact fun _ => nofun
      · exact shiftAll_confined hclear hcount

/-- A writer that is full rotates, and holds its new file or, when that fails, its old one. -/
theorem rotateIfFull_confined (hclear : Clear own path) (hlog : Holds path files log) :
    Confined (policy own) (fun files r => (∀ log', r = .ok log' → Holds path files log') ∧ Holds path files log)
      files log.rotateIfFull := by
  obtain ⟨rfl, hcount, hfile⟩ := hlog
  have hrotated : Confined (policy own) (fun files r => ∀ log', r = .ok log' → Holds log.path files log') files
      log.rotateIfFull := by
    unfold rotateIfFull
    split
    · exact rotate_confined hclear hcount
    · rintro log' ⟨⟩
      exact ⟨rfl, hcount, hfile⟩
  apply (hrotated.grows List.Subset.refl List.Subset.trans policy_learns).mono
  rintro files r ⟨hr, hgrown⟩
  exact ⟨hr, rfl, hcount, hgrown hfile⟩

theorem writeLoop_confined {fuel : Nat} (hclear : Clear own path) (hlog : Holds path files log) (data : List UInt8) :
    Confined (policy own) (fun files r => Holds path files r.1) files (writeLoop fuel log data) := by
  have hflush (fuel : Nat) {files : List Nat} {log : RotatingLogWriter} (hlog : Holds path files log) :
      Confined (policy own) (fun files r => Holds path files r.1) files (writeLoop fuel log []) := by
    rw [writeLoop]
    apply confined_bind (Q := fun files _ => Holds path files log) (confined_perform trivial fun _ => hlog)
    intro files flushed hlog
    cases flushed <;> exact hlog
  induction fuel generalizing log files data with
  | zero =>
      cases data with
      | nil => exact hflush _ hlog
      | cons b rest => exact hlog
  | succ fuel ih =>
      cases data with
      | nil => exact hflush _ hlog
      | cons b rest =>
          apply confined_bind (rotateIfFull_confined hclear hlog)
          rintro files rotated ⟨hrotated, hkept⟩
          cases rotated with
          | error err => exact hkept
          | ok log' =>
              have hlog' := hrotated log' rfl
              dsimp only
              split
              · exact hlog'
              · apply confined_bind (Q := fun files _ => Holds path files log')
                  (confined_perform hlog'.file fun _ => hlog')
                intro files written hlog'
                cases written with
                | error err => exact hlog'
                | ok _ =>
                    apply ih
                    exact ⟨hlog'.path_eq, hlog'.count, hlog'.file⟩

theorem writeBytes_confined (hclear : Clear own path) (hlog : Holds path files log) (data : List UInt8) :
    Confined (policy own) (fun files r => Holds path files r.1) files (log.writeBytes data) := by
  apply confined_bind (Q := fun files _ => Holds path files log) (confined_perform trivial fun _ => hlog)
  exact fun files idle hlog => writeLoop_confined hclear hlog data

theorem writeFmt_confined (hclear : Clear own path) (hlog : Holds path files log) (pieces : List String) :
    Confined (policy own) (fun files r => Holds path files r.1) files (writeFmt log pieces) := by
  induction pieces generalizing log files with
  | nil => exact hlog
  | cons piece rest ih =>
      apply confined_bind (writeBytes_confined hclear hlog _)
      rintro files ⟨log, written⟩ hlog
      cases written with
      | error err => exact hlog
      | ok _ => exact ih hlog

end

theorem finishCapture_fileless (info : ServiceInfo) : info.finishCapture.Only Fileless := by
  unfold ServiceInfo.finishCapture
  cases info.capture with
  | none => exact Prog.only_pure _ _
  | some capture =>
      refine Prog.only_bind (Prog.only_bind (Prog.only_perform trivial) fun timeout => ?_) fun _ => Prog.only_pure _ _
      cases timeout with
      | true => exact Prog.only_bind (Prog.only_perform trivial) fun _ =>
          Prog.only_bind (Prog.only_perform trivial) fun _ => Prog.only_pure _ _
      | false => exact Prog.only_pure _ _

theorem stopOrphans_fileless (child : Option Child) : (ServiceInfo.stopOrphans child).Only Fileless := by
  cases child with
  | none => exact Prog.only_pure _ _
  | some child => exact stopOrphanedGroup_only fun _ => trivial

theorem markExited_fileless (info : ServiceInfo) (status : ExitStatus) : (info.markExited status).Only Fileless :=
  Prog.only_bind (stopOrphans_fileless _) fun _ =>
    Prog.only_bind (finishCapture_fileless _) fun _ => Prog.only_pure _ _

theorem pollInfo_fileless (info : ServiceInfo) : (pollInfo info).Only Fileless := by
  unfold pollInfo
  split
  · exact Prog.only_pure _ _
  · cases info.child with
    | none => exact Prog.only_pure _ _
    | some child =>
        refine Prog.only_bind (Prog.only_perform trivial) fun polled => ?_
        cases polled with
        | exited status => exact markExited_fileless _ _
        | running => exact Prog.only_pure _ _
        | error => exact Prog.only_pure _ _

theorem stopLocked_fileless (info : ServiceInfo) : (stopLocked info).Only Fileless := by
  unfold stopLocked
  cases info.child with
  | none => exact Prog.only_bind (finishCapture_fileless _) fun _ => Prog.only_pure _ _
  | some child =>
      refine Prog.only_bind ?_ fun _ => Prog.only_bind (finishCapture_fileless _) fun _ => Prog.only_pure _ _
      exact stopChild_only (fun _ => trivial) trivial trivial trivial trivial trivial fun _ => trivial

theorem finishCapture_name (info : ServiceInfo) :
    info.finishCapture.Yields fun info' => info'.name = info.name := by
  unfold ServiceInfo.finishCapture
  cases info.capture with
  | none => rfl
  | some capture => exact Prog.yields_then _ fun _ => rfl

theorem markExited_name (info : ServiceInfo) (status : ExitStatus) :
    (info.markExited status).Yields fun info' => info'.name = info.name :=
  Prog.yields_then _ fun _ => Prog.yields_bind (finishCapture_name _) fun _ hname => hname

theorem stopLocked_name (info : ServiceInfo) : (stopLocked info).Yields fun info' => info'.name = info.name := by
  unfold stopLocked
  cases info.child with
  | none => exact Prog.yields_bind (finishCapture_name _) fun _ hname => hname
  | some child =>
      exact Prog.yields_then _ fun _ => Prog.yields_bind (finishCapture_name _) fun _ hname => hname

section

variable {sh : Shared} {info : ServiceInfo} (hclear : Clear own (sh.logPath info.name))

include hclear

theorem spawnService_spares (launch : Launch) {log : RotatingLogWriter} {files : List Nat}
    (hlog : Holds (sh.logPath info.name) files log) :
    Confined (policy own) (fun _ _ => True) files (spawnService sh launch info log) := by
  apply confined_bind (Q := fun files _ => Holds (sh.logPath info.name) files log)
    (confined_perform trivial fun _ => hlog)
  intro files spawned hlog
  cases spawned with
  | ok child => exact confined_bind (confined_perform trivial fun _ => trivial) fun _ _ (_ : True) => trivial
  | error err => exact confined_bind (writeFmt_confined hclear hlog _) fun _ _ _ => trivial

theorem launchService_spares (launch : Launch) : Spares own (launchService sh launch info) := by
  apply spares_bind_yields (spares_of_only (finishCapture_fileless info)) (finishCapture_name info)
  intro info' hname files
  rw [← hname] at hclear
  apply confined_bind (openWriter_confined (hclear _ (.inl rfl)) _)
  intro files opened hopened
  cases opened with
  | error err => trivial
  | ok log =>
      apply confined_bind (Q := fun files _ => Holds (sh.logPath info'.name) files log)
        (confined_perform trivial fun _ => hopened log rfl)
      intro files timestamp hlog
      apply confined_bind (writeFmt_confined hclear hlog _)
      rintro files ⟨log, written⟩ hlog
      exact spawnService_spares hclear launch hlog

theorem startLocked_spares : Spares own (startLocked sh info) := by
  unfold startLocked
  cases info.launch with
  | none => exact spares_pure _
  | some launch =>
      cases info.child with
      | none => exact launchService_spares hclear launch
      | some child =>
          apply spares_bind
          · exact spares_of_only (Prog.only_perform trivial)
          · intro polled
            cases polled with
            | running => exact spares_pure _
            | error => exact launchService_spares hclear launch
            | exited status =>
                apply spares_bind_yields (spares_of_only (markExited_fileless info status))
                  (markExited_name info status)
                exact fun info' hname => launchService_spares (hname ▸ hclear) launch

theorem restartAction_spares : Spares own (ServiceManager.restartAction sh info) := by
  apply spares_bind_yields (spares_of_only (stopLocked_fileless info)) (stopLocked_name info)
  intro info' hname
  apply startLocked_spares
  exact (hname ▸ hclear : Clear own (sh.logPath info'.name))

end

theorem startAuto_spares {sh : Shared} {info : ServiceInfo}
    (hclear : info.launch.any Launch.autoStart = true → Clear own (sh.logPath info.name)) :
    Spares own (startAuto sh info) := by
  unfold startAuto
  split
  · rename_i hauto
    exact spares_bind (startLocked_spares (hclear hauto)) fun _ => spares_pure _
  · exact spares_pure _

theorem stopAction_spares (info : ServiceInfo) : Spares own (ServiceManager.stopAction info) :=
  spares_bind (spares_of_only (stopLocked_fileless info)) fun _ => spares_pure _

/-- An operation on the services of one name leaves alone what its action does. -/
theorem withManaged_spares {name : String} {action : ServiceInfo → Io (ServiceInfo × Except ServiceError Unit)}
    {services : List ServiceInfo} (haction : ∀ info ∈ services, info.name = name → Spares own (action info)) :
    Spares own (withManaged name action services) := by
  induction services with
  | nil => exact spares_pure _
  | cons info rest ih =>
      unfold withManaged
      split
      · rename_i hname
        split
        · exact spares_pure _
        · exact spares_bind (haction info List.mem_cons_self hname) fun _ => spares_pure _
      · refine spares_bind (ih fun info hinfo => ?_) fun _ => spares_pure _
        exact haction info (List.mem_cons_of_mem _ hinfo)

section

variable {services : ServiceManager}

theorem onManaged_spares {name : String} {action : ServiceInfo → Io (ServiceInfo × Except ServiceError Unit)}
    (haction : ∀ info ∈ services.services, info.name = name → Spares own (action info)) :
    Spares own (services.onManaged name action) :=
  spares_bind (withManaged_spares haction) fun _ => spares_pure _

theorem startService_spares {name : String}
    (hclear : ∀ info ∈ services.services, info.name = name → Clear own (services.shared.logPath info.name)) :
    Spares own (services.startService name) :=
  onManaged_spares fun info hinfo hname => startLocked_spares (hclear info hinfo hname)

theorem stopService_spares (name : String) : Spares own (services.stopService name) :=
  onManaged_spares fun info _ _ => stopAction_spares info

theorem restartService_spares {name : String}
    (hclear : ∀ info ∈ services.services, info.name = name → Clear own (services.shared.logPath info.name)) :
    Spares own (services.restartService name) :=
  onManaged_spares fun info hinfo hname => restartAction_spares (hclear info hinfo hname)

theorem pollExits_spares (services : ServiceManager) : Spares own services.pollExits :=
  spares_bind (spares_traverse fun info _ => spares_of_only (pollInfo_fileless info)) fun _ => spares_pure _

theorem startAll_spares (hclear : ∀ info ∈ services.services, info.launch.any Launch.autoStart = true →
    Clear own (services.shared.logPath info.name)) : Spares own services.startAll := by
  apply spares_bind (spares_traverse fun info hinfo => startAuto_spares (hclear info hinfo))
  intro started
  unfold ServiceManager.startMonitor
  split
  · exact spares_pure _
  · exact spares_bind (spares_of_only (Prog.only_perform trivial)) fun _ => spares_pure _

theorem stopAll_spares (services : ServiceManager) : Spares own services.stopAll := by
  have hmonitor : Spares own services.stopMonitor := by
    unfold ServiceManager.stopMonitor
    split
    · exact spares_bind (spares_of_only (Prog.only_perform trivial)) fun _ => spares_pure _
    · exact spares_pure _
  apply spares_bind hmonitor
  intro services
  refine spares_bind (spares_traverse fun info _ => ?_) fun _ => spares_pure _
  unfold stopManaged
  split
  · exact spares_of_only (stopLocked_fileless info)
  · exact spares_pure _

end

/-- The services of an accepted manifest, and the manager among them, have names that
a log can be given. -/
theorem plain_of_accepted {toml : Reader} {text : String} {manifest : Manifest}
    (hparse : parseManifest toml text = .ok manifest)
    (hname : name = "manager" ∨ ∃ service ∈ manifest.services, service.name = name) : Plain name := by
  rcases hname with rfl | ⟨service, hservice, rfl⟩
  · exact plain_manager
  · exact plain_of_valid ((parseManifest_names hparse).2 service hservice).1

theorem plain_of_new {toml : Reader} {text : String} {manifest : Manifest} {env : OsEnv} {services : List ServiceInfo}
    (hparse : parseManifest toml text = .ok manifest) (hnew : newServices env manifest = .ok services) :
    ∀ info ∈ services, Plain info.name := by
  intro info hinfo
  have hmem : info.name ∈ manifest.services.map ServiceDef.name := newServices_names hnew ▸ List.mem_map_of_mem hinfo
  obtain ⟨service, hservice, hsame⟩ := List.mem_map.mp hmem
  exact plain_of_accepted hparse (.inr ⟨service, hservice, hsame⟩)

/-- On a disk of one file nothing is shared. -/
theorem reserved_single (own : Path → Prop) (path : Path) (data : Nat → List UInt8) :
    Reserved own ⟨fun p => if p = path then some 0 else none, data, 1⟩ := by
  have hnames {p : Path} {file : Nat} (h : (if p = path then some 0 else none) = some file) : p = path ∧ file = 0 := by
    split at h
    · rename_i hp
      exact ⟨hp, (Option.some.inj h).symm⟩
    · cases h
  refine ⟨fun p file hfile => ?_, fun p q file _ hp hq => ?_⟩
  · rw [(hnames hfile).2]
    exact Nat.zero_lt_one
  · rw [(hnames hp).1, (hnames hq).1]

theorem steady_sound (own : Path → Prop) (fails : Call → Bool) (c : Call) (w : World) (_ : True) :
    (undisturbed own).answers c w (Steady.answer fails c w).1 (Steady.answer fails c w).2 :=
  Steady.answer_sound fails c w

def steady (own : Path → Prop) (fails : Call → Bool) : Driver (undisturbed own) where
  inside := fun _ => True
  answer := Steady.answer fails
  sound := steady_sound own fails
  stays := fun _ _ _ => trivial

end LocalDevProxy.FileOwners
