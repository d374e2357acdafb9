import LocalDevProxy.LogContent
import LocalDevProxy.Steady

namespace LocalDevProxy.LogPump

open Lib.Interaction Os LogRotation RotatingLogWriter LogSlots

/-- The calls of the pump: those of the writer, and a load of the discard flag. -/
inductive PumpCall
  | system (c : Call)
  | loadDiscard

@[reducible]
def PumpAns : PumpCall → Type
  | .system c => Ans c
  | .loadDiscard => Bool

abbrev pumpSys : Signature := ⟨PumpCall, PumpAns⟩

abbrev PumpIo (α : Type) : Type := Prog pumpSys α

def onSystem {α : Type} (p : Io α) : PumpIo α := p.lift (T := pumpSys) .system (fun _ b => b)

/-- How one read of the source can end. A read of no bytes is the end of the stream. -/
inductive ReadOutcome
  | read (bytes : List UInt8)
  | interrupted
  | failed (err : IoError)
deriving DecidableEq

structure Pump where
  writer : RotatingLogWriter
  writeEnabled : Bool

def writeChunk (pump : Pump) (chunk : List UInt8) : PumpIo Pump :=
  if pump.writeEnabled then do
    if ← Prog.perform (S := pumpSys) .loadDiscard then return pump
    else
      match ← onSystem (pump.writer.writeBytes chunk) with
      | (writer, .ok _) => return { pump with writer }
      | (writer, .error _) => return ⟨writer, false⟩
  else return pump

/-- The loop over the outcomes of the reads to come. It gives back those that it
did not ask for. -/
def drain : List ReadOutcome → Pump → PumpIo (Pump × List ReadOutcome)
  | [], pump => return (pump, [])
  | .read bytes :: source, pump =>
      if bytes.isEmpty then return (pump, source)
      else do
        let pump ← writeChunk pump bytes
        drain source pump
  | .interrupted :: source, pump => drain source pump
  | .failed _ :: source, pump => return (pump, source)

def pumpLogStream (source : List ReadOutcome) (writer : RotatingLogWriter) :
    PumpIo (Pump × List ReadOutcome) :=
  drain source ⟨writer, true⟩

/-- What happens while the pump runs: bytes are added to a file, a call of the
writer fails, a file that is there is taken for missing, the flag is set, and it
is loaded. -/
inductive Event
  | wrote (bytes : List UInt8)
  | failed
  | misled
  | discarded
  | checked (set : Bool)
deriving DecidableEq

def Event.bytes : Event → List UInt8
  | .wrote bytes => bytes
  | _ => []

def written (events : List Event) : List UInt8 := events.flatMap Event.bytes

/-- The system, the flag, and the history of the pump, oldest event first. -/
structure PumpWorld where
  system : World
  discard : Bool
  history : List Event

/-- A missing file to remove is no failure of the writer. -/
def isFault : (c : Call) → Ans c → Bool
  | .createDirAll _, .error _ => true
  | .removeFile _, .error err => err.kind ≠ .notFound
  | .rename _ _, .error _ => true
  | .openAppend _, .error _ => true
  | .fileLen _, .error _ => true
  | .writeAll _ _, .error _ => true
  | .flush _, .error _ => true
  | _, _ => false

/-- The writer does not see why a check failed. -/
def isMiss : (c : Call) → Ans c → Bool
  | .metadata _, .error err => err.kind ≠ .notFound
  | _, _ => false

def added (c : Call) (before after : Disk) : List Event :=
  match c with
  | .writeAll file _ => [.wrote ((after.data file).drop (before.data file).length)]
  | _ => []

def faults (c : Call) (b : Ans c) : List Event :=
  if isFault c b then [.failed] else if isMiss c b then [.misled] else []

def pumpAnswers : (c : PumpCall) → PumpWorld → PumpAns c → PumpWorld → Prop
  | .system c, w, b, w' => answers c w.system b w'.system ∧ w'.discard = w.discard ∧
      w'.history = w.history ++ (added c w.system.disk w'.system.disk ++ faults c b)
  | .loadDiscard, w, b, w' => b = w.discard ∧ w' = { w with history := w.history ++ [.checked b] }

def ofSystem (P : (c : Call) → Ans c → Prop) : (c : PumpCall) → PumpAns c → Prop
  | .system c, b => P c b
  | .loadDiscard, _ => True

/-- Others set the flag at any time, and never clear it. -/
def FlagMoves (w w' : PumpWorld) : Prop :=
  (w'.discard = w.discard ∧ w'.history = w.history) ∨
    (w.discard = false ∧ w'.discard = true ∧ w'.history = w.history ++ [.discarded])

theorem FlagMoves.trans {u v w : PumpWorld} (h : FlagMoves u v) (h' : FlagMoves v w) : FlagMoves u w := by
  rcases h with ⟨hd, hh⟩ | ⟨hd, hset, hh⟩
  · rcases h' with ⟨hd', hh'⟩ | ⟨hd', hset', hh'⟩
    · exact .inl ⟨hd'.trans hd, hh'.trans hh⟩
    · exact .inr ⟨hd ▸ hd', hset', hh ▸ hh'⟩
  · rcases h' with ⟨hd', hh'⟩ | ⟨hd', _, _⟩
    · exact .inr ⟨hd, hd'.trans hset, hh'.trans hh⟩
    · rw [hset] at hd'
      cases hd'

def pumpMachine (shared : Bool) : Machine pumpSys PumpWorld where
  answers := pumpAnswers
  drift := fun w w' => (machine shared).drift w.system w'.system ∧ FlagMoves w w'
  drift_refl := fun _ => ⟨(machine shared).drift_refl _, .inl ⟨rfl, rfl⟩⟩
  drift_trans := fun h h' => ⟨(machine shared).drift_trans h.1 h'.1, h.2.trans h'.2⟩

abbrev writerMachine (shared : Bool) : Machine sys PumpWorld :=
  (pumpMachine shared).along .system (fun _ b => b)

def SilentAfter (e : Event) (events : List Event) : Prop :=
  ∀ before after, events = before ++ e :: after → written after = []

variable {e : Event} {es es' : List Event}

theorem written_append : written (es ++ es') = written es ++ written es' := List.flatMap_append ..

theorem silentAfter_of_written (h : written es = []) : SilentAfter e es := by
  rintro before after rfl
  rw [written_append] at h
  have hafter : written (e :: after) = [] := (List.append_eq_nil_iff.mp h).2
  exact (List.append_eq_nil_iff.mp hafter).2

theorem silentAfter_append (hnot : e ∉ es) (h : SilentAfter e es') : SilentAfter e (es ++ es') := by
  intro before after he
  rcases List.append_eq_append_iff.mp he with ⟨mid, rfl, hmid⟩ | ⟨mid, rfl, hmid⟩
  · exact h mid after hmid
  · cases mid with
    | nil => exact h [] after hmid.symm
    | cons x mid =>
        obtain ⟨rfl, _⟩ := List.cons.inj hmid
        exact absurd (by simp) hnot

theorem SilentAfter.append (h : SilentAfter e es) (hw : written es' = []) : SilentAfter e (es ++ es') := by
  intro before after he
  rcases List.append_eq_append_iff.mp he with ⟨mid, rfl, hmid⟩ | ⟨mid, rfl, hmid⟩
  · exact silentAfter_of_written hw mid after hmid
  · cases mid with
    | nil => exact silentAfter_of_written hw [] after hmid.symm
    | cons x mid =>
        obtain ⟨rfl, rfl⟩ := List.cons.inj hmid
        have hmid : written mid = [] := h before mid rfl
        exact written_append.trans (by rw [hmid, hw, List.nil_append])

structure Flagged (w w' : PumpWorld) (es : List Event) : Prop where
  history : w'.history = w.history ++ es
  flag : w'.discard = true ↔ w.discard = true ∨ .discarded ∈ es
  checks : w.discard = true → .checked false ∉ es
  later : ∀ before after, es = before ++ .discarded :: after → .checked false ∉ after

variable {u v w w' : PumpWorld}

theorem Flagged.same (hd : w'.discard = w.discard) (hh : w'.history = w.history ++ es)
    (hdiscarded : .discarded ∉ es) (hchecked : w.discard = true → .checked false ∉ es) :
    Flagged w w' es where
  history := hh
  flag := by
    rw [hd]
    exact ⟨.inl, fun h => h.resolve_right hdiscarded⟩
  checks := hchecked
  later := by
    rintro before after rfl
    exact absurd (by simp) hdiscarded

theorem Flagged.trans (h : Flagged u v es) (h' : Flagged v w es') : Flagged u w (es ++ es') where
  history := by rw [h'.history, h.history, List.append_assoc]
  flag := by rw [h'.flag, h.flag, List.mem_append, or_assoc]
  checks := by
    intro hu hm
    rcases List.mem_append.mp hm with hm | hm
    · exact h.checks hu hm
    · exact h'.checks (h.flag.mpr (.inl hu)) hm
  later := by
    intro before after he hm
    rcases List.append_eq_append_iff.mp he with ⟨mid, rfl, hmid⟩ | ⟨mid, rfl, hmid⟩
    · exact h'.later mid after hmid hm
    · cases mid with
      | nil => exact h'.later [] after hmid.symm hm
      | cons x mid =>
          obtain ⟨rfl, rfl⟩ := List.cons.inj hmid
          rcases List.mem_append.mp hm with hm | hm
          · exact h.later before mid rfl hm
          · exact h'.checks (h.flag.mpr (.inr (by simp))) hm

structure Quiet (w w' : PumpWorld) (es : List Event) : Prop extends Flagged w w' es where
  silent : written es = []
  sound : .failed ∉ es

theorem Quiet.trans (h : Quiet u v es) (h' : Quiet v w es') : Quiet u w (es ++ es') where
  toFlagged := h.toFlagged.trans h'.toFlagged
  silent := by rw [written_append, h.silent, h'.silent, List.nil_append]
  sound := fun hm => (List.mem_append.mp hm).elim h.sound h'.sound

theorem drift_quiet {shared : Bool} (h : (pumpMachine shared).drift w w') : ∃ es, Quiet w w' es := by
  rcases h.2 with ⟨hd, hh⟩ | ⟨hd, hset, hh⟩
  · exact ⟨[], .same hd (by rw [hh, List.append_nil]) (by simp) (by simp), rfl, by simp⟩
  · refine ⟨[.discarded], ⟨hh, by simp [hd, hset], by simp, ?_⟩, rfl, by simp⟩
    intro before after he
    cases before with
    | nil =>
        obtain ⟨_, rfl⟩ := List.cons.inj he
        simp
    | cons x before => simp at he

theorem added_written (c : Call) (d d' : Disk) (e : Event) (h : e ∈ added c d d') :
    ∃ bytes, e = .wrote bytes := by
  unfold added at h
  split at h
  · exact ⟨_, List.mem_singleton.mp h⟩
  · cases h

theorem mem_faults {c : Call} {b : Ans c} (h : e ∈ faults c b) :
    (e = .failed ∧ isFault c b = true) ∨ e = .misled := by
  unfold faults at h
  split at h
  · rename_i hfault
    exact .inl ⟨List.mem_singleton.mp h, hfault⟩
  · split at h
    · exact .inr (List.mem_singleton.mp h)
    · cases h

theorem system_flagged {shared : Bool} {c : Call} {b : Ans c}
    (h : (writerMachine shared).answers c w b w') :
    answers c w.system b w'.system ∧
      Flagged w w' (added c w.system.disk w'.system.disk ++ faults c b) := by
  obtain ⟨b', hb, ha, hd, hh⟩ := h
  obtain rfl : b' = b := hb
  have hother : ∀ e, (∀ bytes, e ≠ Event.wrote bytes) → e ≠ .failed → e ≠ .misled →
      e ∉ added c w.system.disk w'.system.disk ++ faults c b' := by
    intro e hw hf hmiss hm
    rcases List.mem_append.mp hm with hm | hm
    · obtain ⟨bytes, he⟩ := added_written c _ _ e hm
      exact hw bytes he
    · exact (mem_faults hm).elim (fun h => hf h.1) hmiss
  exact ⟨ha, .same hd hh (hother _ nofun nofun nofun) (fun _ => hother _ nofun nofun nofun)⟩

theorem noFaults_of_faults {c : Call} {b : Ans c} (hfailed : .failed ∉ faults c b) (hmisled : .misled ∉ faults c b) :
    LogContent.noFaults c b := by
  have hfault : isFault c b = false := Bool.eq_false_iff.mpr fun hfault => by simp [faults, hfault] at hfailed
  have hmiss : isMiss c b = false := Bool.eq_false_iff.mpr fun hmiss => by simp [faults, hfault, hmiss] at hmisled
  cases c <;> first
    | trivial
    | (cases b <;> simp_all [LogContent.noFaults, isFault, isMiss])

theorem written_faults (c : Call) (b : Ans c) : written (faults c b) = [] := by
  unfold faults
  split
  · rfl
  · split <;> rfl

theorem rename_heeds (source destination : Paths.Path) :
    (perform (.rename source destination) : Io (Except IoError Unit)).Heeds
      (fun c b => isFault c b = true) := by
  rintro (err | _)
  · exact ⟨fun _ => ⟨err, rfl⟩, trivial⟩
  · exact ⟨nofun, trivial⟩

theorem pathExists_heeds {ε α : Type} {path : Paths.Path} {next : Bool → Io (Except ε α)}
    (h : ∀ there, (next there).Heeds (fun c b => isFault c b = true)) :
    (pathExists path >>= next).Heeds (fun c b => isFault c b = true) :=
  fun b => ⟨nofun, h b.isOk⟩

theorem reopen_heeds (log : RotatingLogWriter) : log.reopen.Heeds (fun c b => isFault c b = true) := by
  refine Prog.heeds_tryThen (Prog.heeds_tryThen ?_ fun file => ?_) (fun _ => trivial)
  · rintro (err | file)
    · exact ⟨fun _ => ⟨err, rfl⟩, trivial⟩
    · exact ⟨nofun, trivial⟩
  · refine Prog.heeds_tryThen ?_ (fun _ => trivial)
    rintro (err | size)
    · exact ⟨fun _ => ⟨err, rfl⟩, trivial⟩
    · exact ⟨nofun, trivial⟩

theorem shiftBackups_heeds (path : Paths.Path) (index : Nat) :
    (shiftBackups path index).Heeds (fun c b => isFault c b = true) := by
  induction index with
  | zero => trivial
  | succ index ih =>
      refine pathExists_heeds fun there => ?_
      cases there with
      | true => exact Prog.heeds_tryThen (rename_heeds _ _) (fun _ => ih)
      | false => exact ih

theorem shiftAll_heeds (log : RotatingLogWriter) :
    log.shiftAll.Heeds (fun c b => isFault c b = true) := by
  refine Prog.heeds_tryThen (shiftBackups_heeds _ _) (fun _ => pathExists_heeds fun there => ?_)
  cases there with
  | true => exact Prog.heeds_tryThen (rename_heeds _ _) (fun _ => reopen_heeds log)
  | false => exact reopen_heeds log

/-- A rotation that succeeds has seen no call fail. -/
theorem rotateIfFull_heeds (log : RotatingLogWriter) :
    log.rotateIfFull.Heeds (fun c b => isFault c b = true) := by
  unfold rotateIfFull
  split
  · rintro (err | removed)
    · let next : Io (Except IoError RotatingLogWriter) :=
        if err.kind ≠ .notFound then return .error err else log.shiftAll
      suffices ((err.kind ≠ .notFound) → next.Fails) ∧ next.Heeds (fun c b => isFault c b = true) from
        ⟨fun hfault => this.1 (of_decide_eq_true hfault), this.2⟩
      by_cases hk : err.kind ≠ .notFound
      · simp only [next, if_pos hk]
        exact ⟨fun _ => ⟨err, rfl⟩, trivial⟩
      · simp only [next, if_neg hk]
        exact ⟨fun h => absurd h hk, shiftAll_heeds log⟩
    · exact ⟨nofun, shiftAll_heeds log⟩
  · trivial

/-- What a write of some data adds to the history: a part of the data from its
beginning, all of it when the write succeeds, and nothing once a call has failed. -/
structure Wrote (w w' : PumpWorld) (data : List UInt8) (ok : Prop) (es : List Event) : Prop
    extends Flagged w w' es where
  upTo : written es <+: data
  whole : ok → written es = data ∧ .failed ∉ es
  last : SilentAfter .failed es

variable {data rest : List UInt8} {ok : Prop}

theorem Quiet.wrote (h : Quiet u v es) (h' : Wrote v w data ok es') : Wrote u w data ok (es ++ es') where
  toFlagged := h.toFlagged.trans h'.toFlagged
  upTo := by
    rw [written_append, h.silent]
    exact h'.upTo
  whole := by
    intro hok
    rw [written_append, h.silent]
    exact ⟨(h'.whole hok).1, fun hm => (List.mem_append.mp hm).elim h.sound (h'.whole hok).2⟩
  last := silentAfter_append h.sound h'.last

theorem Wrote.quiet (h : Wrote u v data ok es) (h' : Quiet v w es') : Wrote u w data ok (es ++ es') where
  toFlagged := h.toFlagged.trans h'.toFlagged
  upTo := by
    rw [written_append, h'.silent, List.append_nil]
    exact h.upTo
  whole := by
    intro hok
    rw [written_append, h'.silent, List.append_nil]
    exact ⟨(h.whole hok).1, fun hm => (List.mem_append.mp hm).elim (h.whole hok).2 h'.sound⟩
  last := h.last.append h'.silent

/-- A write of all its data, and the write of the data that follow. -/
theorem Wrote.then (h : Wrote u v data True es) (h' : Wrote v w rest ok es') :
    Wrote u w (data ++ rest) ok (es ++ es') where
  toFlagged := h.toFlagged.trans h'.toFlagged
  upTo := by
    rw [written_append, (h.whole trivial).1]
    exact List.prefix_append_right_inj data |>.mpr h'.upTo
  whole := by
    intro hok
    rw [written_append, (h.whole trivial).1, (h'.whole hok).1]
    exact ⟨rfl, fun hm => (List.mem_append.mp hm).elim (h.whole trivial).2 (h'.whole hok).2⟩
  last := silentAfter_append (h.whole trivial).2 h'.last

theorem Flagged.wrote_none (h : Flagged w w' es) (hs : written es = []) (hok : ¬ ok) :
    Wrote w w' data ok es where
  toFlagged := h
  upTo := by
    rw [hs]
    exact List.nil_prefix
  whole := fun h => absurd h hok
  last := silentAfter_of_written hs

theorem Wrote.part (h : Wrote w w' data ok es) (hp : data <+: rest) {ok' : Prop} (hok : ¬ ok') :
    Wrote w w' rest ok' es where
  toFlagged := h.toFlagged
  upTo := h.upTo.trans hp
  whole := fun h => absurd h hok
  last := h.last

theorem Wrote.imp (h : Wrote w w' data ok es) {ok' : Prop} (hok : ok' → ok) : Wrote w w' data ok' es where
  toFlagged := h.toFlagged
  upTo := h.upTo
  whole := fun h' => h.whole (hok h')
  last := h.last

variable {shared : Bool} {log log' : RotatingLogWriter}

theorem rotation_flagged {path : Paths.Path} {count : Nat} {c : Call} (hc : Rotates path count c) {b : Ans c}
    (h : (writerMachine shared).answers c w b w') : Flagged w w' (faults c b) := by
  have hadded : added c w.system.disk w'.system.disk = [] := by
    cases c <;> first | rfl | cases hc
  have hflagged := (system_flagged h).2
  rwa [hadded] at hflagged

theorem rotateIfFull_silent {r : Except IoError RotatingLogWriter}
    (h : Runs (writerMachine shared) log.rotateIfFull w r w') :
    ∃ es, Flagged w w' es ∧ written es = [] := by
  refine h.frame (R := fun w w' => ∃ es, Flagged w w' es ∧ written es = [])
    (rotateIfFull_rotates log) ?_ ?_ ?_
  · rintro u v w ⟨es, he, hs⟩ ⟨es', he', hs'⟩
    exact ⟨es ++ es', he.trans he', by rw [written_append, hs, hs', List.nil_append]⟩
  · intro u v hd
    obtain ⟨es, hq⟩ := drift_quiet hd
    exact ⟨es, hq.toFlagged, hq.silent⟩
  · intro c u b v hc ha
    exact ⟨_, rotation_flagged hc ha, written_faults c b⟩

theorem rotateIfFull_quiet (h : Runs (writerMachine shared) log.rotateIfFull w (.ok log') w') :
    ∃ es, Quiet w w' es := by
  refine (h.heeded (rotateIfFull_heeds log)).frame (R := fun w w' => ∃ es, Quiet w w' es)
    (rotateIfFull_rotates log) ?_ drift_quiet ?_
  · rintro u v w ⟨es, hq⟩ ⟨es', hq'⟩
    exact ⟨es ++ es', hq.trans hq'⟩
  · rintro c u b v hc ⟨ha, hgood⟩
    refine ⟨faults c b, rotation_flagged hc ha, written_faults c b, ?_⟩
    exact fun hm => hgood ((mem_faults hm).resolve_right nofun).2

theorem appended_part (d : Disk) (file : Nat) (bytes : List UInt8) :
    ((d.append file bytes).data file).drop (d.data file).length = bytes := by
  rw [append_data_self, List.drop_left]

theorem writeAll_wrote {file : Nat} {r : Except IoError Unit}
    (h : Runs (writerMachine shared) (perform (.writeAll file data)) w r w') :
    ∃ es, Wrote w w' data (r = .ok ()) es := by
  obtain ⟨u, v, hd, ha, hd'⟩ := runs_perform.mp h
  obtain ⟨es, hq⟩ := drift_quiet hd
  obtain ⟨es', hq'⟩ := drift_quiet hd'
  obtain ⟨hanswer, hflagged⟩ := system_flagged ha
  suffices Wrote u v data (r = .ok ()) (added (.writeAll file data) u.system.disk v.system.disk ++
      faults (.writeAll file data) r) from ⟨_, (hq.wrote this).quiet hq'⟩
  cases r with
  | ok _ =>
      have hw : added (.writeAll file data) u.system.disk v.system.disk = [.wrote data] := by
        have hv : v.system = { u.system with disk := u.system.disk.append file data } := hanswer
        simp only [added, hv, appended_part]
      rw [hw] at hflagged ⊢
      have hdata : written ([.wrote data] ++ faults (.writeAll file data) (.ok ())) = data := by
        simp [written, faults, isFault, Event.bytes]
      have hnone : Event.failed ∉ [.wrote data] ++ faults (.writeAll file data) (.ok ()) := by
        simp [faults, isFault]
      refine ⟨hflagged, ⟨[], (List.append_nil _).trans hdata⟩, fun _ => ⟨hdata, hnone⟩, ?_⟩
      exact silentAfter_append (by simp) (silentAfter_of_written (written_faults _ _))
  | error err =>
      obtain ⟨n, hv⟩ := hanswer
      have hw : added (.writeAll file data) u.system.disk v.system.disk = [.wrote (data.take n)] := by
        simp only [added, hv, appended_part]
      rw [hw] at hflagged ⊢
      have hdata : written ([.wrote (data.take n)] ++ faults (.writeAll file data) (.error err)) =
          data.take n := by
        simp [written, faults, isFault, Event.bytes]
      refine ⟨hflagged, ⟨data.drop n, by rw [hdata, List.take_append_drop]⟩, nofun, ?_⟩
      exact silentAfter_append (by simp) (silentAfter_of_written (written_faults _ _))

theorem flush_wrote {file : Nat} {r : Except IoError Unit}
    (h : Runs (writerMachine shared) (perform (.flush file)) w r w') :
    ∃ es, Wrote w w' [] (r = .ok ()) es := by
  obtain ⟨u, v, hd, ha, hd'⟩ := runs_perform.mp h
  obtain ⟨es, hq⟩ := drift_quiet hd
  obtain ⟨es', hq'⟩ := drift_quiet hd'
  have hflagged := (system_flagged ha).2
  suffices Wrote u v [] (r = .ok ()) (faults (.flush file) r) from ⟨_, (hq.wrote this).quiet hq'⟩
  have hsilent := written_faults (.flush file) r
  refine ⟨hflagged, ⟨[], (List.append_nil _).trans hsilent⟩, ?_, silentAfter_of_written hsilent⟩
  rintro rfl
  exact ⟨rfl, by simp [faults, isFault]⟩

/-- A write adds its data from the beginning, pass by pass. -/
theorem writeLoop_wrote {fuel : Nat} {r : Except WriteError Unit}
    (h : Runs (writerMachine shared) (writeLoop fuel log data) w (log', r) w') :
    ∃ es, Wrote w w' data (r = .ok ()) es := by
  have hdone : ∀ {fuel w log}, Runs (writerMachine shared) (writeLoop fuel log []) w (log', r) w' →
      ∃ es, Wrote w w' [] (r = .ok ()) es := by
    intro fuel w log h
    obtain ⟨_, flushed, hf, hr⟩ := writeLoop_flush h
    obtain ⟨es, hwrote⟩ := flush_wrote hf
    rcases hr with ⟨rfl, rfl⟩ | ⟨err, rfl, rfl⟩
    · exact ⟨es, hwrote.imp fun _ => rfl⟩
    · exact ⟨es, hwrote.part (List.prefix_refl _) nofun⟩
  induction fuel generalizing log w data with
  | zero =>
      cases data with
      | nil => exact hdone h
      | cons b rest =>
          obtain ⟨he, hd⟩ := runs_pure.mp h
          cases he
          obtain ⟨es, hq⟩ := drift_quiet hd
          exact ⟨es, hq.toFlagged.wrote_none hq.silent nofun⟩
  | succ fuel ih =>
      cases data with
      | nil => exact hdone h
      | cons b rest =>
          cases writeLoop_pass h with
          | unrotated err hrot =>
              obtain ⟨es, hf, hs⟩ := rotateIfFull_silent hrot
              exact ⟨es, hf.wrote_none hs nofun⟩
          | underflow log₁ hrot _ =>
              obtain ⟨es, hf, hs⟩ := rotateIfFull_silent hrot
              exact ⟨es, hf.wrote_none hs nofun⟩
          | unwritten log₁ err hrot hwrite =>
              obtain ⟨es, hq⟩ := rotateIfFull_quiet hrot
              obtain ⟨es', hwrote⟩ := writeAll_wrote hwrite
              exact ⟨es ++ es', (hq.wrote hwrote).part (List.take_prefix _ _) nofun⟩
          | passed log₁ hrot hwrite hrest =>
              obtain ⟨es, hq⟩ := rotateIfFull_quiet hrot
              obtain ⟨es₁, hwrote⟩ := writeAll_wrote hwrite
              obtain ⟨es₂, hwrote'⟩ := ih hrest
              have hall : Wrote w _ ((b :: rest).take (roomFor log₁ (b :: rest))) True (es ++ es₁) :=
                hq.wrote (hwrote.imp fun _ => rfl)
              have hdata := hall.then hwrote'
              rw [List.take_append_drop] at hdata
              exact ⟨_, hdata⟩

theorem idlePasses_quiet {idle : Nat} (h : Runs (writerMachine shared) (perform .idlePasses) w idle w') :
    ∃ es, Quiet w w' es := by
  obtain ⟨u, v, hd, ha, hd'⟩ := runs_perform.mp h
  obtain ⟨es, hq⟩ := drift_quiet hd
  obtain ⟨es', hq'⟩ := drift_quiet hd'
  have hflagged := (system_flagged ha).2
  exact ⟨_, (hq.trans ⟨hflagged, rfl, by simp [added, faults, isFault, isMiss]⟩).trans hq'⟩

theorem writeBytes_wrote {r : Except WriteError Unit}
    (h : Runs (writerMachine shared) (log.writeBytes data) w (log', r) w') :
    ∃ es, Wrote w w' data (r = .ok ()) es := by
  obtain ⟨idle, u, hidle, h⟩ := runs_bind.mp h
  obtain ⟨es, hq⟩ := idlePasses_quiet hidle
  obtain ⟨es', hwrote⟩ := writeLoop_wrote h
  exact ⟨_, hq.wrote hwrote⟩

/-- One pass with a chunk. A pass that leaves the pump enabled and the flag unset
has written the whole chunk, and a pass that finds either otherwise writes nothing. -/
theorem writeChunk_wrote {pump pump' : Pump} {chunk : List UInt8}
    (h : Runs (pumpMachine shared) (writeChunk pump chunk) w pump' w') :
    ∃ es, Wrote w w' chunk (pump'.writeEnabled = true ∧ w'.discard = false) es ∧
      (pump.writeEnabled = false ∨ w.discard = true → written es = []) ∧
      (pump.writeEnabled = false → pump'.writeEnabled = false) := by
  unfold writeChunk at h
  split at h
  · rename_i henabled
    obtain ⟨set, w₁, hload, h⟩ := runs_bind.mp h
    obtain ⟨u, v, hd, ⟨rfl, rfl⟩, hd₁⟩ := runs_perform.mp hload
    obtain ⟨es, hq⟩ := drift_quiet hd
    obtain ⟨es₁, hq₁⟩ := drift_quiet hd₁
    have hcheck : Quiet u { u with history := u.history ++ [.checked u.discard] }
        [.checked u.discard] := by
      refine ⟨.same rfl rfl (by simp) (fun hset => ?_), rfl, by simp⟩
      simp [hset]
    have hquiet := (hq.trans hcheck).trans hq₁
    cases hset : u.discard with
    | true =>
        simp only [hset, if_true] at h
        obtain ⟨rfl, hd₂⟩ := runs_pure.mp h
        obtain ⟨es₂, hq₂⟩ := drift_quiet hd₂
        have hall := hquiet.trans hq₂
        have hstays : w'.discard = true := (hcheck.trans hq₁ |>.trans hq₂).flag.mpr (.inl hset)
        refine ⟨_, hall.toFlagged.wrote_none hall.silent ?_, fun _ => hall.silent, id⟩
        rintro ⟨_, hunset⟩
        rw [hstays] at hunset
        cases hunset
    | false =>
        simp only [hset, Bool.false_eq_true, if_false] at h
        obtain ⟨⟨writer, r⟩, w₂, hwrite, h⟩ := runs_bind.mp h
        obtain ⟨es₂, hwrote⟩ := writeBytes_wrote (runs_lift.mp hwrite)
        have hbefore : ¬ (pump.writeEnabled = false ∨ w.discard = true) := by
          rintro (hdisabled | hw)
          · rw [henabled] at hdisabled
            cases hdisabled
          · have hu := hq.flag.mpr (.inl hw)
            rw [hset] at hu
            cases hu
        cases r with
        | ok _ =>
            obtain ⟨rfl, hd₂⟩ := runs_pure.mp h
            obtain ⟨es₃, hq₃⟩ := drift_quiet hd₂
            have hall := (hquiet.wrote hwrote).quiet hq₃
            refine ⟨_, hall.imp fun _ => rfl, fun hb => absurd hb hbefore, ?_⟩
            exact fun hdisabled => absurd (.inl hdisabled) hbefore
        | error err =>
            obtain ⟨rfl, hd₂⟩ := runs_pure.mp h
            obtain ⟨es₃, hq₃⟩ := drift_quiet hd₂
            refine ⟨_, ((hquiet.wrote hwrote).quiet hq₃).part (List.prefix_refl _) ?_,
              fun hb => absurd hb hbefore, fun _ => rfl⟩
            rintro ⟨hon, _⟩
            cases hon
  · rename_i hdisabled
    obtain ⟨rfl, hd⟩ := runs_pure.mp h
    obtain ⟨es, hq⟩ := drift_quiet hd
    exact ⟨es, hq.toFlagged.wrote_none hq.silent (fun hon => hdisabled hon.1), fun _ => hq.silent, id⟩

def ReadOutcome.Stops (o : ReadOutcome) : Prop := o = .read [] ∨ ∃ err, o = .failed err

def ReadOutcome.bytes : ReadOutcome → List UInt8
  | .read bytes => bytes
  | _ => []

def bytesRead (outcomes : List ReadOutcome) : List UInt8 := outcomes.flatMap ReadOutcome.bytes

/-- After the flag was set, bytes of one chunk at most are written. -/
def LateInOne (outcomes : List ReadOutcome) (events : List Event) : Prop :=
  ∀ before after, events = before ++ .discarded :: after → written after = [] ∨
    ∃ chunk, .read chunk ∈ outcomes ∧ written after <:+: chunk

/-- All outcomes were asked for, or all up to the first that stops the loop. -/
def ReadOn (consumed rest : List ReadOutcome) : Prop :=
  (rest = [] ∧ ∀ o ∈ consumed, ¬ o.Stops) ∨
    ∃ passed last, consumed = passed ++ [last] ∧ last.Stops ∧ ∀ o ∈ passed, ¬ o.Stops

theorem ReadOn.cons {o : ReadOutcome} (ho : ¬ o.Stops) {consumed rest : List ReadOutcome}
    (h : ReadOn consumed rest) : ReadOn (o :: consumed) rest := by
  rcases h with ⟨hrest, hall⟩ | ⟨passed, last, rfl, hlast, hall⟩
  · exact .inl ⟨hrest, by simpa using ⟨ho, hall⟩⟩
  · exact .inr ⟨o :: passed, last, rfl, hlast, by simpa using ⟨ho, hall⟩⟩

theorem ReadOn.stop {o : ReadOutcome} (ho : o.Stops) (rest : List ReadOutcome) : ReadOn [o] rest :=
  .inr ⟨[], o, rfl, ho, by simp⟩

/-- What the loop over some outcomes adds to the history, where the pump may be off
before it and still on after it. -/
structure Drained (w w' : PumpWorld) (off still : Prop) (consumed rest : List ReadOutcome) (es : List Event) :
    Prop extends Flagged w w' es where
  upTo : written es <+: bytesRead consumed
  whole : still → written es = bytesRead consumed
  stays : off → ¬ still
  silent : off → written es = []
  failures : SilentAfter .failed es
  late : LateInOne consumed es
  readOn : ReadOn consumed rest

variable {off still : Prop} {consumed left : List ReadOutcome}

theorem Quiet.drained (h : Quiet w w' es) (hr : ReadOn consumed left) (hnone : bytesRead consumed = [])
    (hstays : off → ¬ still) : Drained w w' off still consumed left es where
  toFlagged := h.toFlagged
  upTo := by
    rw [h.silent]
    exact List.nil_prefix
  whole := fun _ => h.silent.trans hnone.symm
  stays := hstays
  silent := fun _ => h.silent
  failures := silentAfter_of_written h.silent
  late := fun before after he => .inl (silentAfter_of_written h.silent before after he)
  readOn := hr

theorem lateInOne_cons {o : ReadOutcome} (h : LateInOne consumed es) : LateInOne (o :: consumed) es := by
  intro before after he
  rcases h before after he with hnone | ⟨chunk, hmem, hinfix⟩
  · exact .inl hnone
  · exact .inr ⟨chunk, List.mem_cons_of_mem _ hmem, hinfix⟩

/-- Bytes written late in one pass are of its chunk, if nothing is written after it. -/
theorem Wrote.late (h : Wrote w w' data ok es) (hs : written es' = []) :
    LateInOne (.read data :: consumed) (es ++ es') := by
  intro before after he
  rcases List.append_eq_append_iff.mp he with ⟨mid, rfl, hmid⟩ | ⟨mid, rfl, hmid⟩
  · exact .inl (silentAfter_of_written hs mid after hmid)
  · cases mid with
    | nil => exact .inl (silentAfter_of_written hs [] after hmid.symm)
    | cons x mid =>
        obtain ⟨rfl, hafter⟩ := List.cons.inj hmid
        have hw : written after = written mid := by
          rw [hafter]
          exact written_append.trans (by rw [hs, List.append_nil])
        obtain ⟨tail, ht⟩ := h.upTo
        rw [written_append] at ht
        exact .inr ⟨data, List.mem_cons_self, written before, tail, by rw [hw]; exact ht⟩

theorem Wrote.drained {on : Prop} (h : Wrote u v data on es) (hoff : off → written es = [])
    (hnext : off → ¬ on) (hunset : on → v.discard = false)
    (h' : Drained v w (¬ on) still consumed left es') (hdata : ¬ (ReadOutcome.read data).Stops) :
    Drained u w off still (.read data :: consumed) left (es ++ es') where
  toFlagged := h.toFlagged.trans h'.toFlagged
  upTo := by
    by_cases hon : on
    · rw [written_append, (h.whole hon).1]
      exact (List.prefix_append_right_inj data).mpr h'.upTo
    · rw [written_append, h'.silent hon, List.append_nil]
      exact h.upTo.trans (List.prefix_append _ _)
  whole := by
    intro hstill
    have hon : on := Classical.byContradiction fun hoff => h'.stays hoff hstill
    rw [written_append, (h.whole hon).1, h'.whole hstill]
    rfl
  stays := fun ho => h'.stays (hnext ho)
  silent := by
    intro ho
    rw [written_append, hoff ho, h'.silent (hnext ho)]
    rfl
  failures := by
    by_cases hon : on
    · exact silentAfter_append (h.whole hon).2 h'.failures
    · exact h.last.append (h'.silent hon)
  late := by
    by_cases hon : on
    · have hnot : .discarded ∉ es := by
        intro hm
        have hset := h.flag.mpr (.inr hm)
        rw [hunset hon] at hset
        cases hset
      intro before after he
      rcases List.append_eq_append_iff.mp he with ⟨mid, rfl, hmid⟩ | ⟨mid, rfl, hmid⟩
      · exact lateInOne_cons h'.late mid after hmid
      · cases mid with
        | nil => exact lateInOne_cons h'.late [] after hmid.symm
        | cons x mid =>
            obtain ⟨rfl, _⟩ := List.cons.inj hmid
            exact absurd (by simp) hnot
    · exact h.late (h'.silent hon)
  readOn := h'.readOn.cons hdata

theorem Quiet.stays (h : Quiet w w' es) {pump : Pump} :
    pump.writeEnabled = false ∨ w.discard = true → ¬ (pump.writeEnabled = true ∧ w'.discard = false) := by
  rintro (hdisabled | hset) ⟨henabled, hunset⟩
  · rw [hdisabled] at henabled
    cases henabled
  · rw [h.flag.mpr (.inl hset)] at hunset
    cases hunset

/-- The loop, outcome by outcome. -/
theorem drain_drained {source : List ReadOutcome} {pump pump' : Pump}
    (h : Runs (pumpMachine shared) (drain source pump) w (pump', left) w') :
    ∃ consumed es, source = consumed ++ left ∧
      Drained w w' (pump.writeEnabled = false ∨ w.discard = true)
        (pump'.writeEnabled = true ∧ w'.discard = false) consumed left es := by
  induction source generalizing pump w with
  | nil =>
      obtain ⟨he, hd⟩ := runs_pure.mp h
      cases he
      obtain ⟨es, hq⟩ := drift_quiet hd
      exact ⟨[], es, rfl, hq.drained (.inl ⟨rfl, by simp⟩) rfl hq.stays⟩
  | cons o source ih =>
      cases o with
      | read bytes =>
          rw [drain] at h
          split at h
          · rename_i hempty
            obtain rfl := List.isEmpty_iff.mp hempty
            obtain ⟨he, hd⟩ := runs_pure.mp h
            cases he
            obtain ⟨es, hq⟩ := drift_quiet hd
            exact ⟨[.read []], es, rfl, hq.drained (.stop (.inl rfl) _) rfl hq.stays⟩
          · rename_i hne
            obtain ⟨pump₁, w₁, hchunk, h⟩ := runs_bind.mp h
            obtain ⟨es, hwrote, hoff, hstill⟩ := writeChunk_wrote hchunk
            obtain ⟨consumed, es', rfl, hdrained⟩ := ih h
            refine ⟨.read bytes :: consumed, es ++ es', rfl, hwrote.drained hoff ?_ And.right ?_ ?_⟩
            · rintro (hdisabled | hset) ⟨hon, hunset⟩
              · rw [hstill hdisabled] at hon
                cases hon
              · rw [hwrote.flag.mpr (.inl hset)] at hunset
                cases hunset
            · have hoff : ¬ (pump₁.writeEnabled = true ∧ w₁.discard = false) →
                  pump₁.writeEnabled = false ∨ w₁.discard = true := by
                intro hnot
                by_cases hon : pump₁.writeEnabled = false
                · exact .inl hon
                · refine .inr ?_
                  by_contra hunset
                  exact hnot ⟨Bool.not_eq_false _ ▸ hon, Bool.not_eq_true _ ▸ hunset⟩
              exact { hdrained with
                stays := fun hnot => hdrained.stays (hoff hnot)
                silent := fun hnot => hdrained.silent (hoff hnot) }
            · rintro (he | ⟨err, he⟩)
              · cases he
                exact hne rfl
              · cases he
      | interrupted =>
          obtain ⟨consumed, es, rfl, hdrained⟩ := ih h
          refine ⟨.interrupted :: consumed, es, rfl, { hdrained with
            late := lateInOne_cons hdrained.late
            readOn := hdrained.readOn.cons ?_ }⟩
          rintro (he | ⟨err, he⟩) <;> cases he
      | failed err =>
          obtain ⟨he, hd⟩ := runs_pure.mp h
          cases he
          obtain ⟨es, hq⟩ := drift_quiet hd
          exact ⟨[.failed err], es, rfl, hq.drained (.stop (.inr ⟨err, rfl⟩) _) rfl hq.stays⟩

section

open LogContent

abbrev faultless (shared : Bool) : Machine pumpSys PumpWorld := (pumpMachine shared).restrict (ofSystem noFaults)

/-- A run whose history has no failure and no miss is one in which no call fails. -/
theorem runs_faultless {α : Type} {p : PumpIo α} {a : α} (h : Runs (pumpMachine shared) p w a w') :
    ∃ es, w'.history = w.history ++ es ∧
      (.failed ∉ es → .misled ∉ es → Runs (faultless shared) p w a w') := by
  induction h with
  | pure hd =>
      obtain ⟨es, hq⟩ := drift_quiet hd
      exact ⟨es, hq.history, fun _ _ => .pure hd⟩
  | @call c next u u₁ u₂ u₃ b a hd hc _ ih =>
      obtain ⟨es, hq⟩ := drift_quiet hd
      obtain ⟨es', hhistory, hrest⟩ := ih
      cases c with
      | loadDiscard =>
          refine ⟨es ++ (.checked b :: es'), ?_, fun hfailed hmisled => ?_⟩
          · rw [hhistory, hc.2, hq.history]
            simp
          · simp only [List.mem_append, List.mem_cons, not_or] at hfailed hmisled
            exact .call hd ⟨hc, trivial⟩ (hrest hfailed.2.2 hmisled.2.2)
      | system c =>
          refine ⟨es ++ ((added c u₁.system.disk u₂.system.disk ++ faults c b) ++ es'), ?_, fun hfailed hmisled => ?_⟩
          · rw [hhistory, hc.2.2, hq.history]
            simp
          · simp only [List.mem_append, not_or] at hfailed hmisled
            exact .call hd ⟨hc, noFaults_of_faults hfailed.2.1.2 hmisled.2.1.2⟩ (hrest hfailed.2.2 hmisled.2.2)

/-- What the writer does in the pump, it does on the system alone. -/
theorem writer_runs {α : Type} {p : Io α} {a : α} (h : Runs (faultless false) (onSystem p) w a w') :
    Runs ((machine false).restrict noFaults) p w.system a w'.system := by
  refine (runs_lift.mp h).simulate PumpWorld.system And.left ?_
  rintro c u b v ⟨b', hb, ha, hright⟩
  obtain rfl : b' = b := hb
  exact ⟨ha.1, hright⟩

/-- A log that can be rotated, which writing to it leaves it. -/
structure Rotatable (log : RotatingLogWriter) : Prop where
  named : log.path.fileName.isSome
  cap : 1 ≤ log.limits.maxBytes
  count : 1 ≤ log.limits.backupCount

variable {x x' : World}

theorem rotateIfFull_roomy (hlog : Rotatable log) {r : Except IoError RotatingLogWriter}
    (h : Runs ((machine false).restrict noFaults) log.rotateIfFull x r x') :
    ∃ log', r = .ok log' ∧ Rotatable log' ∧ log'.size < log'.limits.maxBytes := by
  unfold rotateIfFull at h
  split at h
  · have hrotated := rotate_run noFaults_right hlog.named hlog.count h
    generalize x'.disk = d' at hrotated
    cases hrotated with
    | refused _ err hk hp => exact absurd hp hk
    | stopped _ _ _ _ hp =>
        rcases hp with ⟨_, _, hp⟩ | hp
        · exact hp.elim
        · exact hp.elim
    | unread _ _ _ hp => exact hp.elim
    | opened _ => exact ⟨_, rfl, ⟨hlog.named, hlog.cap, hlog.count⟩, hlog.cap⟩
  · rename_i hroom
    obtain ⟨rfl, _⟩ := runs_pure.mp h
    exact ⟨log, rfl, hlog, Nat.not_le.mp hroom⟩

theorem writeLoop_succeeds {fuel : Nat} (hlog : Rotatable log) (hfuel : data.length ≤ fuel)
    {r : Except WriteError Unit}
    (h : Runs ((machine false).restrict noFaults) (writeLoop fuel log data) x (log', r) x') :
    r = .ok () ∧ Rotatable log' := by
  have hdone : ∀ {fuel x log}, Rotatable log →
      Runs ((machine false).restrict noFaults) (writeLoop fuel log []) x (log', r) x' →
      r = .ok () ∧ Rotatable log' := by
    intro fuel x log hlog h
    obtain ⟨rfl, flushed, hf, hr⟩ := writeLoop_flush h
    obtain ⟨rfl, _⟩ := flush_run hf
    rcases hr with ⟨_, hr⟩ | ⟨_, he, _⟩
    · exact ⟨hr, hlog⟩
    · cases he
  induction fuel generalizing log x data with
  | zero =>
      obtain rfl : data = [] := List.eq_nil_of_length_eq_zero (Nat.le_zero.mp hfuel)
      exact hdone hlog h
  | succ fuel ih =>
      cases data with
      | nil => exact hdone hlog h
      | cons b rest =>
          cases writeLoop_pass h with
          | unrotated err hrot =>
              obtain ⟨_, he, _⟩ := rotateIfFull_roomy hlog hrot
              cases he
          | underflow log₁ hrot hover =>
              obtain ⟨_, he, _, hroom⟩ := rotateIfFull_roomy hlog hrot
              cases he
              omega
          | unwritten log₁ err _ hwrite => cases (writeAll_run hwrite).1
          | passed log₁ hrot hwrite hrest =>
              obtain ⟨_, he, hlog₁, hroom⟩ := rotateIfFull_roomy hlog hrot
              cases he
              have hroomFor : roomFor log₁ (b :: rest) = min (log₁.limits.maxBytes - log₁.size) (rest.length + 1) :=
                rfl
              rw [List.length_cons] at hfuel
              have hleft : ((b :: rest).drop (roomFor log₁ (b :: rest))).length ≤ fuel := by
                rw [List.length_drop, List.length_cons]
                omega
              have hlog₂ : Rotatable { log₁ with size := log₁.size + roomFor log₁ (b :: rest) } :=
                ⟨hlog₁.named, hlog₁.cap, hlog₁.count⟩
              exact ih hlog₂ hleft hrest

/-- Nothing but a failure turns the pump off. -/
theorem writeChunk_stays_on {pump pump' : Pump} {chunk : List UInt8} (hlog : Rotatable pump.writer)
    (hon : pump.writeEnabled = true) (h : Runs (faultless false) (writeChunk pump chunk) w pump' w') :
    pump'.writeEnabled = true ∧ Rotatable pump'.writer := by
  rw [writeChunk, if_pos hon] at h
  obtain ⟨set, w₁, _, h⟩ := runs_bind.mp h
  cases set with
  | true =>
      obtain ⟨rfl, _⟩ := runs_pure.mp h
      exact ⟨hon, hlog⟩
  | false =>
      obtain ⟨⟨writer, r⟩, w₂, hwrite, h⟩ := runs_bind.mp h
      obtain ⟨idle, _, _, hloop⟩ := runs_bind.mp (writer_runs hwrite)
      obtain ⟨rfl, hlog'⟩ := writeLoop_succeeds hlog (Nat.le_add_left _ idle) hloop
      obtain ⟨rfl, _⟩ := runs_pure.mp h
      exact ⟨hon, hlog'⟩

theorem drain_stays_on {source : List ReadOutcome} {pump pump' : Pump} (hlog : Rotatable pump.writer)
    (hon : pump.writeEnabled = true) (h : Runs (faultless false) (drain source pump) w (pump', left) w') :
    pump'.writeEnabled = true := by
  induction source generalizing pump w with
  | nil =>
      obtain ⟨he, _⟩ := runs_pure.mp h
      cases he
      exact hon
  | cons o source ih =>
      cases o with
      | read bytes =>
          rw [drain] at h
          split at h
          · obtain ⟨he, _⟩ := runs_pure.mp h
            cases he
            exact hon
          · obtain ⟨pump₁, w₁, hchunk, h⟩ := runs_bind.mp h
            obtain ⟨hon₁, hlog₁⟩ := writeChunk_stays_on hlog hon hchunk
            exact ih hlog₁ hon₁ h
      | interrupted => exact ih hlog hon h
      | failed err =>
          obtain ⟨he, _⟩ := runs_pure.mp h
          cases he
          exact hon

end

def pumpAnswer (fails : Call → Bool) : (c : PumpCall) → PumpWorld → PumpAns c × PumpWorld
  | .system c, w =>
      let answered := Steady.answer fails c w.system
      (answered.1, ⟨answered.2, w.discard, w.history ++
        (added c w.system.disk answered.2.disk ++ faults c answered.1)⟩)
  | .loadDiscard, w => (w.discard, { w with history := w.history ++ [.checked w.discard] })

def pumpDriver (shared : Bool) (fails : Call → Bool) : Driver (pumpMachine shared) where
  inside := fun _ => True
  answer := pumpAnswer fails
  sound := by
    intro c w _
    cases c with
    | system c => exact ⟨Steady.answer_sound fails c w.system, rfl, rfl⟩
    | loadDiscard => exact ⟨rfl, rfl⟩
  stays := fun _ _ _ => trivial

/-- The pump comes to an end on any outcomes, and in every run what it writes is
what it has read from the beginning on, cut off where a call of the writer fails, or
in the one chunk that was already checked when the flag is set. Where nothing is
discarded and the pump is not turned off, it is all that was read; and with nobody
else at the files, nothing but a call that fails turns it off. -/
theorem pump_gap_free (shared : Bool) (source : List ReadOutcome) (writer : RotatingLogWriter)
    (w : PumpWorld) :
    (∃ pump left w', Runs (pumpMachine shared) (pumpLogStream source writer) w (pump, left) w') ∧
    ∀ pump left w', Runs (pumpMachine shared) (pumpLogStream source writer) w (pump, left) w' →
      ∃ consumed events, source = consumed ++ left ∧ w'.history = w.history ++ events ∧
        written events <+: bytesRead consumed ∧
        SilentAfter .failed events ∧
        (w.discard = true → written events = []) ∧
        (∀ before after, events = before ++ .discarded :: after → .checked false ∉ after) ∧
        LateInOne consumed events ∧
        ReadOn consumed left ∧
        (pump.writeEnabled = true → w.discard = false → .discarded ∉ events →
          written events = bytesRead consumed) ∧
        (shared = false → Rotatable writer → .failed ∉ events → .misled ∉ events →
          pump.writeEnabled = true) := by
  refine ⟨?_, ?_⟩
  · obtain ⟨⟨pump, left⟩, w', hrun, _⟩ :=
      (pumpDriver shared fun _ => false).exists_run (pumpLogStream source writer) (w := w) trivial
    exact ⟨pump, left, w', hrun⟩
  · intro pump left w' hrun
    obtain ⟨consumed, events, hsource, hd⟩ := drain_drained hrun
    refine ⟨consumed, events, hsource, hd.history, hd.upTo, hd.failures, fun h => hd.silent (.inr h),
      hd.later, hd.late, hd.readOn, fun hon hunset hnone => hd.whole ⟨hon, ?_⟩, ?_⟩
    · refine Bool.eq_false_iff.mpr fun hset => ?_
      rcases hd.flag.mp hset with hbefore | hdiscarded
      · rw [hunset] at hbefore
        cases hbefore
      · exact hnone hdiscarded
    · rintro rfl hlog hfailed hmisled
      obtain ⟨es, hhistory, hfaultless⟩ := runs_faultless hrun
      obtain rfl : es = events := List.append_cancel_left (hhistory.symm.trans hd.history)
      exact drain_stays_on hlog rfl (hfaultless hfailed hmisled)

def hello : List ReadOutcome := [.read [104, 105], .interrupted, .read [33], .read [], .read [63]]

def pumped : (Pump × List ReadOutcome) × PumpWorld :=
  (pumpDriver false fun _ => false).run (pumpLogStream hello LogContent.openedLog)
    ⟨LogContent.openedWorld, false, []⟩

/-- The chunks are all written, across a rotation. -/
theorem pump_gap_free_hello : ∃ consumed events, hello = consumed ++ [.read [63]] ∧
    pumped.2.history = [] ++ events ∧ bytesRead consumed = [104, 105, 33] ∧ written events = [104, 105, 33] := by
  obtain ⟨consumed, events, hsource, hhistory, _, _, _, _, _, _, hwhole, hstays⟩ :=
    (pump_gap_free false hello LogContent.openedLog ⟨LogContent.openedWorld, false, []⟩).2
      pumped.1.1 pumped.1.2 pumped.2
      ((pumpDriver false fun _ => false).runs (pumpLogStream hello LogContent.openedLog) trivial).1
  have hconsumed : consumed = hello.take 4 := by
    have hleft : pumped.1.2 = [.read [63]] := rfl
    rw [hleft] at hsource
    exact List.append_cancel_right hsource.symm
  have hevents : events = pumped.2.history := hhistory.symm
  have hbytes : bytesRead consumed = [104, 105, 33] := by
    rw [hconsumed]
    decide
  have hon : pumped.1.1.writeEnabled = true := by
    refine hstays rfl ⟨by decide, by decide, by decide⟩ ?_ ?_
    · rw [hevents]
      decide
    · rw [hevents]
      decide
  refine ⟨consumed, events, hsource, hhistory, hbytes, (hwhole hon rfl ?_).trans hbytes⟩
  rw [hevents]
  decide

end LocalDevProxy.LogPump
