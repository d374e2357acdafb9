import Mathlib.Logic.Basic

namespace LocalDevProxy.Lib.Remaining

variable {α σ : Type} {weight : α → Nat} {tasks : List α} {i : Nat} {a b : α}

def remaining (weight : α → Nat) : List α → Nat
  | [] => 0
  | a :: rest => weight a + remaining weight rest

/-- A task that goes on to where less is left. -/
theorem remaining_set (hi : tasks[i]? = some a) (hless : weight b < weight a) :
    remaining weight (tasks.set i b) < remaining weight tasks := by
  induction tasks generalizing i with
  | nil => cases hi
  | cons c rest ih =>
      cases i with
      | zero =>
          cases hi
          exact Nat.add_lt_add_right hless _
      | succ i => exact Nat.add_lt_add_left (ih hi) _

/-- Where every step leaves less to do, no run goes on for ever. -/
theorem runs_end {Step : σ → σ → Prop} {Inv : σ → Prop} {left : σ → Nat}
    (hinv : ∀ {s s'}, Inv s → Step s s' → Inv s') (hless : ∀ {s s'}, Inv s → Step s s' → left s' < left s)
    {s : σ} (h : Inv s) : Acc (fun s' s => Step s s') s := by
  generalize hn : left s = n
  induction n using Nat.strongRecOn generalizing s with
  | ind n ih =>
      refine .intro s fun s' hstep => ?_
      have hlt := hless h hstep
      rw [hn] at hlt
      exact ih (left s') hlt (hinv h hstep) rfl

end LocalDevProxy.Lib.Remaining
