import LocalDevProxy.HarmlessCalls
import LocalDevProxy.Steady

namespace LocalDevProxy.TerminateTree

open Lib.Interaction Os Process ProcessGroups HarmlessCalls

theorem pidT_child (child : Child) : pidT child.id = some child.id := if_pos child.isPid

variable {shared : Bool} {w w' : World} {child : Child}

theorem killpg_kill_settles {id : Nat} {u : Unit} (hex : (w.groups id).isSome)
    (h : Runs (machine shared) (perform (.killpg id .kill)) w u w') : SettledAt w' id := by
  obtain ⟨w₁, w₂, hd, ha, hd'⟩ := runs_perform.mp h
  obtain ⟨g, hg⟩ := Option.isSome_iff_exists.mp ((persists_drift hd).isSome hex)
  have ha : w₂ = w₁.modify id (fun g => g.receive .kill) := ha
  refine SettledAt.drift ⟨g.receive .kill, ?_, ?_, trivial⟩ hd'
  · rw [ha, modify_groups_self, hg, Option.map_some]
  · exact not_hasLive (by simp only [Group.receive, Group.record, Group.killLeader]; split <;> simp_all) rfl

theorem forceTreeStop_settles {u : Unit} (hex : (w.groups child.id).isSome)
    (h : Runs (machine shared) (forceTreeStop child) w u w') : SettledAt w' child.id := by
  unfold forceTreeStop signalGroup at h
  rw [pidT_child] at h
  exact killpg_kill_settles hex h

theorem stopOrphanedGroup_settles {u : Unit} (hex : (w.groups child.id).isSome)
    (h : Runs (machine shared) (stopOrphanedGroup child.id) w u w') : SettledAt w' child.id := by
  unfold stopOrphanedGroup at h
  rw [pidT_child] at h
  exact killpg_kill_settles hex h

theorem probeGroup_settles {id : Nat} (hex : (w.groups id).isSome)
    (h : Runs (machine shared) (perform (.probeGroup id)) w true w') : SettledAt w' id := by
  obtain ⟨w₁, w₂, hd, ha, hd'⟩ := runs_perform.mp h
  obtain ⟨g, hg⟩ := Option.isSome_iff_exists.mp ((persists_drift hd).isSome hex)
  have ha : (∀ g, w₁.groups id = some g → ¬ g.HasLive) ∧
      w₂ = w₁.modify id (fun g => g.record .emptyObserved) := ha
  refine SettledAt.drift ⟨g.record .emptyObserved, ?_, ha.1 g hg, trivial⟩ hd'
  rw [ha.2, modify_groups_self, hg, Option.map_some]

theorem drainLoop_settles {id polls : Nat} (hex : (w.groups id).isSome)
    (h : Runs (machine shared) (drainLoop id polls) w true w') : SettledAt w' id := by
  induction polls generalizing w with
  | zero => exact probeGroup_settles hex h
  | succ polls ih =>
      obtain ⟨drained, w₁, hp, h⟩ := runs_bind.mp h
      cases drained with
      | true => exact (probeGroup_settles hex hp).drift (runs_pure.mp h).2
      | false =>
          obtain ⟨before, w₂, hb, h⟩ := runs_bind.mp h
          cases before with
          | false => exact absurd (runs_pure.mp h).1 (by decide)
          | true =>
              obtain ⟨_, w₃, hs, h⟩ := runs_bind.mp h
              have hp := ((runs_persists hp).trans (runs_persists hb)).trans (runs_persists hs)
              exact ih (hp.isSome hex) h

theorem waitGroupDrained_settles {polls : Nat} (hex : (w.groups child.id).isSome)
    (h : Runs (machine shared) (waitGroupDrained child.id polls) w true w') :
    SettledAt w' child.id := by
  unfold waitGroupDrained at h
  rw [pidT_child] at h
  exact drainLoop_settles hex h

/-- Once the leader has exited, its descendants are gone or killed. -/
theorem finishTree_settles {u : Unit} (hex : (w.groups child.id).isSome)
    (h : Runs (machine shared) (finishTree child) w u w') : SettledAt w' child.id := by
  obtain ⟨drained, w₁, hw, h⟩ := runs_bind.mp h
  cases drained with
  | true => exact (waitGroupDrained_settles hex hw).drift (runs_pure.mp h).2
  | false => exact stopOrphanedGroup_settles ((runs_persists hw).isSome hex) h

section

variable {P : Call → Prop} (htry : ∀ site, P (.tryWait site child)) (hbefore : P .beforeDeadline)
  (hsleep : P .sleep)

include htry hbefore hsleep

omit htry in
/-- The pause between two polls, which ends the wait at the deadline. -/
theorem paused_only {α : Type} {next : Io α} (hnext : next.Only P) (last : α) : Prog.Only P (do
    if ← perform .beforeDeadline then do
      perform .sleep
      next
    else return last) := by
  refine Prog.only_bind (Prog.only_perform hbefore) ?_
  intro before
  cases before with
  | true => exact Prog.only_bind (Prog.only_perform hsleep) (fun _ => hnext)
  | false => exact Prog.only_pure _ _

theorem waitTimeout_only (polls : Nat) : (waitTimeout child polls).Only P := by
  induction polls with
  | zero =>
      refine Prog.only_bind (Prog.only_perform (htry _)) ?_
      intro polled
      cases polled <;> exact Prog.only_pure _ _
  | succ polls ih =>
      refine Prog.only_bind (Prog.only_perform (htry _)) ?_
      intro polled
      cases polled with
      | running => exact paused_only hbefore hsleep ih none
      | exited status => exact Prog.only_pure _ _
      | error => exact Prog.only_pure _ _

variable (hwait : P (.wait child)) (hkill : P (.kill child)) (hprobe : P (.probeGroup child.id))
  (hsignal : ∀ signal, P (.killpg child.id signal))

include hsignal

omit htry hbefore hsleep in
theorem signalGroup_only (signal : Signal) : (signalGroup child signal).Only P := by
  unfold signalGroup
  rw [pidT_child]
  exact Prog.only_perform (hsignal signal)

omit htry hbefore hsleep in
theorem stopOrphanedGroup_only : (stopOrphanedGroup child.id).Only P := by
  unfold stopOrphanedGroup
  rw [pidT_child]
  exact Prog.only_perform (hsignal .kill)

include hprobe

omit htry hsignal in
theorem drainLoop_only (polls : Nat) : (drainLoop child.id polls).Only P := by
  induction polls with
  | zero => exact Prog.only_perform hprobe
  | succ polls ih =>
      refine Prog.only_bind (Prog.only_perform hprobe) ?_
      intro drained
      cases drained with
      | true => exact Prog.only_pure _ _
      | false => exact paused_only hbefore hsleep ih false

omit htry in
theorem finishTree_only : (finishTree child).Only P := by
  have hdrained : (waitGroupDrained child.id gracefulPolls).Only P := by
    unfold waitGroupDrained
    rw [pidT_child]
    exact drainLoop_only hbefore hsleep hprobe _
  refine Prog.only_bind hdrained ?_
  intro drained
  cases drained with
  | true => exact Prog.only_pure _ _
  | false => exact stopOrphanedGroup_only hsignal

include hwait hkill

omit hprobe in
theorem killTree_only : (killTree child).Only P := by
  refine Prog.only_bind (signalGroup_only hsignal .kill) (fun _ => ?_)
  refine Prog.only_bind (waitTimeout_only htry hbefore hsleep _) ?_
  intro waited
  cases waited with
  | some status => exact Prog.only_pure _ _
  | none =>
      refine Prog.only_bind (Prog.only_perform hkill) (fun _ => ?_)
      refine Prog.only_bind (Prog.only_perform hwait) ?_
      intro reaped
      cases reaped <;> exact Prog.only_pure _ _

theorem terminateTree_only : (terminateTree child).Only P := by
  refine Prog.only_bind (signalGroup_only hsignal .term) (fun _ => ?_)
  refine Prog.only_bind (waitTimeout_only htry hbefore hsleep _) ?_
  intro waited
  cases waited with
  | some status =>
      exact Prog.only_bind (finishTree_only hbefore hsleep hprobe hsignal)
        (fun _ => Prog.only_pure _ _)
  | none => exact killTree_only htry hbefore hsleep hwait hkill hsignal

theorem stopChild_only : (stopChild child).Only P := by
  refine Prog.only_bind (Prog.only_perform (htry _)) ?_
  intro polled
  cases polled with
  | exited status =>
      exact Prog.only_bind (stopOrphanedGroup_only hsignal) (fun _ => Prog.only_pure _ _)
  | running => exact terminateTree_only htry hbefore hsleep hwait hkill hprobe hsignal
  | error => exact terminateTree_only htry hbefore hsleep hwait hkill hprobe hsignal

end

/-- A forced stop settles the group at once, and what follows keeps it so. -/
theorem killTree_settles {status : ExitStatus} (hex : (w.groups child.id).isSome)
    (h : Runs (machine shared) (killTree child) w status w') : SettledAt w' child.id := by
  obtain ⟨_, w₁, hf, h⟩ := runs_bind.mp h
  refine (forceTreeStop_settles hex hf).runs ?_ h
  refine Prog.only_bind (waitTimeout_only (by simp) (by simp) (by simp) _) ?_
  intro waited
  cases waited with
  | some status => exact Prog.only_pure _ _
  | none =>
      refine Prog.only_bind (Prog.only_perform (by simp)) (fun _ => ?_)
      refine Prog.only_bind (Prog.only_perform (by simp)) ?_
      intro reaped
      cases reaped <;> exact Prog.only_pure _ _

theorem terminateTree_settles {status : ExitStatus} (hex : (w.groups child.id).isSome)
    (h : Runs (machine shared) (terminateTree child) w status w') : SettledAt w' child.id := by
  obtain ⟨_, w₁, hr, h⟩ := runs_bind.mp h
  obtain ⟨waited, w₂, hw, h⟩ := runs_bind.mp h
  have hex₂ := ((runs_persists hr).trans (runs_persists hw)).isSome hex
  cases waited with
  | none => exact killTree_settles hex₂ h
  | some status =>
      obtain ⟨_, w₃, hf, h⟩ := runs_bind.mp h
      exact (finishTree_settles hex₂ hf).drift (runs_pure.mp h).2

theorem stopChild_settles {status : ExitStatus} (hex : (w.groups child.id).isSome)
    (h : Runs (machine shared) (stopChild child) w status w') : SettledAt w' child.id := by
  obtain ⟨polled, w₁, ht, h⟩ := runs_bind.mp h
  have hex₁ := (runs_persists ht).isSome hex
  cases polled with
  | running => exact terminateTree_settles hex₁ h
  | error => exact terminateTree_settles hex₁ h
  | exited status =>
      obtain ⟨_, w₂, hs, h⟩ := runs_bind.mp h
      exact (stopOrphanedGroup_settles hex₁ hs).drift (runs_pure.mp h).2

theorem finishCapture_settled {id : Nat} {info info' : ServiceInfo} (hs : SettledAt w id)
    (h : Runs (machine shared) info.finishCapture w info' w') : SettledAt w' id :=
  hs.runs ((finishCapture_harmless info).mono (fun _ hc => hc.not_term id)) h

theorem stopLocked_settles {info info' : ServiceInfo} (hchild : info.child = some child)
    (hex : (w.groups child.id).isSome) (h : Runs (machine shared) (stopLocked info) w info' w') :
    SettledAt w' child.id := by
  unfold stopLocked at h
  rw [hchild] at h
  obtain ⟨status, w₁, hs, h⟩ := runs_bind.mp h
  obtain ⟨finished, w₂, hf, h⟩ := runs_bind.mp h
  exact (finishCapture_settled (stopChild_settles hex hs) hf).drift (runs_pure.mp h).2

theorem markExited_settles {info info' : ServiceInfo} {status : ExitStatus}
    (hchild : info.child = some child) (hex : (w.groups child.id).isSome)
    (h : Runs (machine shared) (info.markExited status) w info' w') : SettledAt w' child.id := by
  obtain ⟨_, w₁, hs, h⟩ := runs_bind.mp h
  rw [hchild] at hs
  obtain ⟨finished, w₂, hf, h⟩ := runs_bind.mp h
  exact (finishCapture_settled (stopOrphanedGroup_settles hex hs) hf).drift (runs_pure.mp h).2

/-- Whenever a service that held a child has been stopped, or has been seen to
have exited, the group of the child was seen empty or was killed after it was
last asked to stop, and it has no live member. -/
theorem stopping_leaves_no_survivors (shared : Bool) (info info' : ServiceInfo) (child : Child)
    (w w' : World) (hchild : info.child = some child) (hgroup : (w.groups child.id).isSome)
    (hstop : Runs (machine shared) (stopLocked info) w info' w' ∨
      ∃ status, Runs (machine shared) (info.markExited status) w info' w') :
    ∃ g, w'.groups child.id = some g ∧ answered g.history ∧ ¬ g.HasLive := by
  have hs : SettledAt w' child.id := by
    rcases hstop with h | ⟨status, h⟩
    · exact stopLocked_settles hchild hgroup h
    · exact markExited_settles hchild hgroup h
  obtain ⟨g, hg, hdead, hanswered⟩ := hs
  exact ⟨g, hg, hanswered, hdead⟩

def forkedWorld : World where
  groups := fun id => if id = 7 then some ⟨"app", .alive, 2, []⟩ else none
  disk := ⟨fun _ => none, fun _ => [], 0⟩

def forkedService : ServiceInfo where
  name := "app"
  launch := none
  status := .running
  exitCode := none
  restartCount := 0
  child := some ⟨7, by decide⟩
  capture := none

theorem stopping_leaves_no_survivors_forked :
    ∃ g, ((Steady.driver true fun _ => false).run (stopLocked forkedService) forkedWorld).2.groups 7 =
      some g ∧ answered g.history ∧ ¬ g.HasLive :=
  stopping_leaves_no_survivors true forkedService _ ⟨7, by decide⟩ forkedWorld _ rfl rfl
    (.inl ((Steady.driver true fun _ => false).runs _ trivial).1)

end LocalDevProxy.TerminateTree
