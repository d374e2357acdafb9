import LocalDevProxy.Os

namespace LocalDevProxy.Steady

open Lib.Interaction Environment Paths Os

def failure : IoError := ⟨.other, "failure"⟩

def absence : IoError := ⟨.notFound, "absence"⟩

def decode (bytes : List UInt8) : Option String := String.fromUTF8? ⟨bytes.toArray⟩

theorem bytesOf_of_decode {bytes : List UInt8} {text : String} (h : decode bytes = some text) :
    bytesOf text = bytes := by
  unfold decode String.fromUTF8? at h
  split at h
  · cases h
    rfl
  · cases h

theorem decode_bytesOf (text : String) : decode (bytesOf text) = some text := by
  have h : (⟨(bytesOf text).toArray⟩ : ByteArray) = text.toByteArray := by
    rw [bytesOf, Array.toArray_toList]
  unfold decode
  rw [h]
  exact OsString.toStr_ofString text

def pollLeader (child : Child) (w : World) : Polled × World :=
  match (w.groups child.id).map Group.leader with
  | some .alive => (.running, w)
  | some (.exited status) => (.exited status, w.modify child.id (fun g => g.reap status))
  | some (.reaped status) => (.exited status, w.modify child.id (fun g => g.reap status))
  | none => (.running, w)

def waitLeader (child : Child) (w : World) : Option ExitStatus × World :=
  match pollLeader child w with
  | (.exited status, w') => (some status, w')
  | _ => (none, w)

def probe (pgid : Nat) (w : World) : Bool × World :=
  match w.groups pgid with
  | some g =>
      if g.leader ≠ .alive ∧ g.members = 0 then (true, w.modify pgid (fun g => g.record .emptyObserved))
      else (false, w)
  | none => (false, w)

/-- A process with the first id or, where that is taken, the second. -/
def spawnIn (owner : String) (w : World) : Except IoError Child × World :=
  if (w.groups 1).isNone then (.ok ⟨1, by decide⟩, w.insert 1 ⟨owner, .alive, 0, []⟩)
  else if (w.groups 2).isNone then (.ok ⟨2, by decide⟩, w.insert 2 ⟨owner, .alive, 0, []⟩)
  else (.error failure, w)

def readIn (path : Path) (w : World) : Except IoError String :=
  match w.disk.names path with
  | none => .error absence
  | some file =>
      match decode (w.disk.data file) with
      | some text => .ok text
      | none => .error failure

/-- A system in which groups change only when acted on, no deadline is waited
for, and exactly the given calls fail. -/
def answer (fails : Call → Bool) : (c : Call) → World → Ans c × World
  | .tryWait site child, w =>
      if fails (.tryWait site child) then (.error, w) else pollLeader child w
  | .wait child, w => waitLeader child w
  | .kill child, w => ((), w.modify child.id Group.killLeader)
  | .killpg pgid signal, w => ((), w.modify pgid (fun g => g.receive signal))
  | .probeGroup pgid, w => probe pgid w
  | .beforeDeadline, w => (false, w)
  | .sleep, w => ((), w)
  | .spawn owner command env cwd, w =>
      if fails (.spawn owner command env cwd) then (.error failure, w) else spawnIn owner w
  | .spawnPump file, w => (⟨file⟩, w)
  | .recvTimeout _, w => (false, w)
  | .setDiscard _, w => ((), w)
  | .spawnMonitor, w => (true, w)
  | .monitorTicks, w => (0, w)
  | .joinMonitor, w => ((), w)
  | .createDirAll path, w =>
      if fails (.createDirAll path) then (.error failure, w) else (.ok (), w)
  | .metadata path, w =>
      if fails (.metadata path) then (.error failure, w)
      else if (w.disk.names path).isSome then (.ok (), w) else (.error absence, w)
  | .removeFile path, w =>
      if fails (.removeFile path) then (.error failure, w)
      else if (w.disk.names path).isSome then (.ok (), { w with disk := w.disk.link path none })
      else (.error absence, w)
  | .rename source destination, w =>
      if fails (.rename source destination) then (.error failure, w)
      else if (w.disk.names source).isSome then
        (.ok (), { w with disk := w.disk.move source destination })
      else (.error absence, w)
  | .openAppend path, w =>
      if fails (.openAppend path) then (.error failure, w)
      else (.ok (w.disk.create path).2, { w with disk := (w.disk.create path).1 })
  | .fileLen file, w =>
      if fails (.fileLen file) then (.error failure, w) else (.ok (w.disk.data file).length, w)
  | .idlePasses, w => (0, w)
  | .writeAll file data, w =>
      if fails (.writeAll file data) then
        (.error failure, { w with disk := w.disk.append file (data.take 0) })
      else (.ok (), { w with disk := w.disk.append file data })
  | .flush file, w => if fails (.flush file) then (.error failure, w) else (.ok (), w)
  | .readToString path, w =>
      if fails (.readToString path) then (.error failure, w) else (readIn path w, w)
  | .writeFile path text, w =>
      if fails (.writeFile path text) then (.error failure, w)
      else (.ok (), { w with disk :=
        (w.disk.create path).1.store (w.disk.create path).2 (bytesOf text) })
  | .timestamp, w => ("", w)
  | .lookupHost _ _, w => (.ok [], w)
  | .listen addr, w => if fails (.listen addr) then (.error failure, w) else (.ok (), w)
  | .localAddr addr, w => (.ok addr, w)
  | .closeListeners _, w => ((), w)

theorem pollLeader_cases (child : Child) (w : World) :
    (pollLeader child w = (.running, w) ∧ ∀ g, w.groups child.id = some g → g.leader = .alive) ∨
      ∃ status g, pollLeader child w = (.exited status, w.modify child.id (fun g => g.reap status)) ∧
        w.groups child.id = some g ∧ (g.leader = .exited status ∨ g.leader = .reaped status) := by
  unfold pollLeader
  cases hg : w.groups child.id with
  | none => exact .inl ⟨rfl, fun _ h => by cases h⟩
  | some g =>
      cases hl : g.leader with
      | alive =>
          refine .inl ⟨by simp [hl], ?_⟩
          rintro _ ⟨⟩
          exact hl
      | exited status => exact .inr ⟨status, g, by simp [hl], rfl, .inl hl⟩
      | reaped status => exact .inr ⟨status, g, by simp [hl], rfl, .inr hl⟩

theorem tryWait_sound (site : Site) (child : Child) (w : World) :
    answers (.tryWait site child) w (pollLeader child w).1 (pollLeader child w).2 := by
  rcases pollLeader_cases child w with ⟨h, hl⟩ | ⟨status, g, h, hg, hl⟩ <;> rw [h]
  · exact ⟨rfl, hl⟩
  · exact ⟨⟨g, hg, hl⟩, rfl⟩

theorem wait_sound (child : Child) (w : World) :
    answers (.wait child) w (waitLeader child w).1 (waitLeader child w).2 := by
  unfold waitLeader
  rcases pollLeader_cases child w with ⟨h, _⟩ | ⟨status, g, h, hg, hl⟩ <;> rw [h]
  · exact rfl
  · exact ⟨⟨g, hg, hl⟩, rfl⟩

theorem probe_sound (pgid : Nat) (w : World) :
    answers (.probeGroup pgid) w (probe pgid w).1 (probe pgid w).2 := by
  unfold probe
  cases hg : w.groups pgid with
  | none => exact rfl
  | some g =>
      simp only
      split
      · rename_i h
        refine ⟨?_, rfl⟩
        rintro g' hg' (hl | hm)
        · exact h.1 (by rw [hg] at hg'; cases hg'; exact hl)
        · have : g'.members = 0 := by rw [hg] at hg'; cases hg'; exact h.2
          omega
      · exact rfl

theorem spawn_sound (owner : String) (command : List String) (env : OsEnv) (cwd : Path) (w : World) :
    answers (.spawn owner command env cwd) w (spawnIn owner w).1 (spawnIn owner w).2 := by
  unfold spawnIn
  split
  · rename_i h
    exact ⟨Option.isNone_iff_eq_none.mp h, rfl⟩
  · split
    · rename_i h
      exact ⟨Option.isNone_iff_eq_none.mp h, rfl⟩
    · exact rfl

theorem read_sound (path : Path) (w : World) : answers (.readToString path) w (readIn path w) w := by
  unfold readIn
  cases hf : w.disk.names path with
  | none => exact ⟨fun _ => hf, rfl⟩
  | some file =>
      simp only
      cases ht : decode (w.disk.data file) with
      | none => exact ⟨fun h => (by cases h), rfl⟩
      | some text => exact ⟨⟨file, hf, (bytesOf_of_decode ht).symm⟩, rfl⟩

theorem answer_sound (fails : Call → Bool) (c : Call) (w : World) :
    answers c w (answer fails c w).1 (answer fails c w).2 := by
  cases c with
  | tryWait site child =>
      simp only [answer]
      split
      · exact rfl
      · exact tryWait_sound site child w
  | wait child => exact wait_sound child w
  | probeGroup pgid => exact probe_sound pgid w
  | spawn owner command env cwd =>
      simp only [answer]
      split
      · exact rfl
      · exact spawn_sound owner command env cwd w
  | removeFile path =>
      simp only [answer]
      split
      · exact ⟨fun h => (by cases h), rfl⟩
      · split
        · rename_i h
          exact ⟨h, rfl⟩
        · rename_i h
          exact ⟨fun _ => by simpa using h, rfl⟩
  | rename source destination =>
      simp only [answer]
      split
      · exact rfl
      · split
        · rename_i h
          exact ⟨h, rfl⟩
        · exact rfl
  | readToString path =>
      simp only [answer]
      split
      · exact ⟨fun h => (by cases h), rfl⟩
      · exact read_sound path w
  | writeAll file data =>
      simp only [answer]
      split
      · exact ⟨0, rfl⟩
      · exact rfl
  | writeFile path text =>
      simp only [answer]
      split
      · exact .inl rfl
      · exact rfl
  | metadata path =>
      simp only [answer]
      split
      · exact ⟨fun h => (by cases h), rfl⟩
      · split
        · rename_i h
          exact ⟨h, rfl⟩
        · rename_i h
          exact ⟨fun _ => by simpa using h, rfl⟩
  | openAppend path =>
      simp only [answer]
      split
      · exact rfl
      · exact ⟨rfl, rfl⟩
  | fileLen file =>
      simp only [answer]
      split
      · exact rfl
      · exact ⟨rfl, rfl⟩
  | createDirAll path =>
      simp only [answer]
      split <;> exact rfl
  | flush file =>
      simp only [answer]
      split <;> exact rfl
  | listen addr =>
      simp only [answer]
      split <;> exact rfl
  | _ => exact rfl

def exitLeader (id : Nat) (status : ExitStatus) (w : World) : World :=
  w.modify id fun g => { g with leader := .exited status }

theorem exitLeader_drift {shared : Bool} {w : World} {id : Nat} {g : Group} (status : ExitStatus)
    (hg : w.groups id = some g) (hlive : g.leader = .alive) :
    (machine shared).drift w (exitLeader id status w) := by
  refine ⟨fun other => ?_, fun _ => rfl⟩
  by_cases hother : other = id
  · rw [hother]
    simp only [exitLeader, World.modify, Function.update_self, hg]
    exact .single (.leaderExit g status hlive)
  · simp only [exitLeader, World.modify, Function.update_of_ne hother]
    exact .refl _

def driver (shared : Bool) (fails : Call → Bool) : Driver (machine shared) where
  inside := fun _ => True
  answer := answer fails
  sound := fun c w _ => answer_sound fails c w
  stays := fun _ _ _ => trivial

theorem answer_polled {fails : Call → Bool}
    (h : ∀ child, fails (.tryWait .startLocked child) = false) (c : Call) (w : World) :
    startsPolled c (answer fails c w).1 := by
  cases c with
  | tryWait site child =>
      cases site with
      | startLocked =>
          simp only [answer, h]
          rcases pollLeader_cases child w with ⟨h, _⟩ | ⟨status, g, h, _⟩ <;> rw [h] <;> trivial
      | _ => trivial
  | _ => trivial

theorem answer_right {fails : Call → Bool} (h : ∀ path, fails (.metadata path) = false) (c : Call) (w : World) :
    checksRight c (answer fails c w).1 := by
  cases c with
  | metadata path =>
      simp only [answer, h, Bool.false_eq_true, if_false]
      split
      · trivial
      · rfl
  | _ => trivial

def polledDriver (shared : Bool) (fails : Call → Bool)
    (h : ∀ child, fails (.tryWait .startLocked child) = false) :
    Driver ((machine shared).restrict startsPolled) where
  inside := fun _ => True
  answer := answer fails
  sound := fun c w _ => ⟨answer_sound fails c w, answer_polled h c w⟩
  stays := fun _ _ _ => trivial

end LocalDevProxy.Steady
