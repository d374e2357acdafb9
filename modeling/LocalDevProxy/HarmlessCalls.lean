import LocalDevProxy.LogSlots
import LocalDevProxy.ProcessGroups

namespace LocalDevProxy.HarmlessCalls

open Lib.Interaction Paths Os LogRotation RotatingLogWriter LogSlots Process ProcessGroups

/-- The calls that do nothing to a process. -/
def Harmless : Call → Prop
  | .tryWait _ _ | .wait _ | .kill _ | .killpg _ _ | .probeGroup _ | .spawn _ _ _ _ => False
  | _ => True

theorem Harmless.not_isSpawn {c : Call} (h : Harmless c) : ¬ IsSpawn c := by
  cases c <;> simp_all [Harmless, IsSpawn]

theorem Harmless.not_term {c : Call} (h : Harmless c) (id : Nat) : c ≠ .killpg id .term := by
  rintro rfl
  exact h

theorem finishCapture_harmless (info : ServiceInfo) : info.finishCapture.Only Harmless := by
  unfold ServiceInfo.finishCapture
  cases info.capture with
  | none => exact Prog.only_pure _ _
  | some capture =>
      refine Prog.only_bind ?_ (fun _ => Prog.only_pure _ _)
      refine Prog.only_bind (Prog.only_perform trivial) ?_
      intro timeout
      cases timeout with
      | true =>
          exact Prog.only_bind (Prog.only_perform trivial) (fun _ =>
            Prog.only_bind (Prog.only_perform trivial) (fun _ => Prog.only_pure _ _))
      | false => exact Prog.only_pure _ _

theorem openWriter_harmless (path : Path) (limits : LogLimits) :
    (openWriter path limits).Only Harmless := by
  let opened := fun r : Nat × Nat =>
    (return .ok ⟨path, limits, r.1, r.2⟩ : Io (Except IoError RotatingLogWriter))
  have hopen : ((openAppend path).tryThen opened).Only Harmless := by
    refine Prog.only_tryThen ?_ (fun _ => Prog.only_pure _ _)
    refine Prog.only_tryThen (Prog.only_perform trivial) (fun _ => ?_)
    exact Prog.only_tryThen (Prog.only_perform trivial) (fun _ => Prog.only_pure _ _)
  unfold openWriter
  split
  · exact Prog.only_pure _ _
  · cases path.parent with
    | none => exact hopen
    | some parent => exact Prog.only_tryThen (Prog.only_perform trivial) (fun _ => hopen)

theorem rotateIfFull_harmless (log : RotatingLogWriter) : log.rotateIfFull.Only Harmless := by
  refine (rotateIfFull_rotates log).mono ?_
  intro c hc
  cases c <;> trivial

theorem writeLoop_harmless (fuel : Nat) (log : RotatingLogWriter) (data : List UInt8) :
    (writeLoop fuel log data).Only Harmless := by
  have hflush : ∀ fuel log, (writeLoop fuel log []).Only Harmless := by
    intro fuel log
    rw [writeLoop]
    refine Prog.only_bind (Prog.only_perform trivial) ?_
    intro flushed
    cases flushed <;> exact Prog.only_pure _ _
  induction fuel generalizing log data with
  | zero =>
      cases data with
      | nil => exact hflush _ log
      | cons b rest => exact Prog.only_pure _ _
  | succ fuel ih =>
      cases data with
      | nil => exact hflush _ log
      | cons b rest =>
          refine Prog.only_bind (rotateIfFull_harmless log) ?_
          intro rotated
          cases rotated with
          | error err => exact Prog.only_pure _ _
          | ok log =>
              dsimp only
              split
              · exact Prog.only_pure _ _
              · refine Prog.only_bind (Prog.only_perform trivial) ?_
                intro written
                cases written with
                | error err => exact Prog.only_pure _ _
                | ok _ => exact ih _ _

theorem writeBytes_harmless (log : RotatingLogWriter) (data : List UInt8) : (log.writeBytes data).Only Harmless :=
  Prog.only_bind (Prog.only_perform trivial) fun _ => writeLoop_harmless _ log data

theorem writeFmt_harmless (log : RotatingLogWriter) (pieces : List String) :
    (writeFmt log pieces).Only Harmless := by
  induction pieces generalizing log with
  | nil => exact Prog.only_pure _ _
  | cons piece rest ih =>
      refine Prog.only_bind (writeBytes_harmless _ _) ?_
      rintro ⟨log, written⟩
      cases written with
      | error err => exact Prog.only_pure _ _
      | ok _ => exact ih log

end LocalDevProxy.HarmlessCalls
