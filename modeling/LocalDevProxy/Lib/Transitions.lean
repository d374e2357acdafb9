import Mathlib.Logic.Relation

namespace LocalDevProxy.Lib.Transitions

/-- Parties that share a state and take steps in any order, each step an event. -/
structure System (σ ε : Type) where
  start : σ
  Step : σ → ε → σ → Prop

variable {σ ε : Type} {M : System σ ε}

/-- A state that some run comes to. Every event of the run meets a condition,
which may depend on the state it happens in. -/
inductive Reached (M : System σ ε) (meets : σ → ε → Prop) : σ → Prop
  | start : Reached M meets M.start
  | step {s s' : σ} {e : ε} (h : Reached M meets s) (hmeets : meets s e) (hstep : M.Step s e s') :
      Reached M meets s'

variable {meets : σ → ε → Prop} {Inv : σ → Prop} {s : σ}

/-- One state leads to another by events that meet the condition. -/
def Onward (M : System σ ε) (meets : σ → ε → Prop) : σ → σ → Prop :=
  Relation.ReflTransGen fun s s' => ∃ e, meets s e ∧ M.Step s e s'

/-- What holds at the start, and after a step when it holds before, holds of every state. -/
theorem Reached.invariant (h : Reached M meets s) (hstart : Inv M.start)
    (hstep : ∀ {s e s'}, Inv s → meets s e → M.Step s e s' → Inv s') : Inv s := by
  induction h with
  | start => exact hstart
  | step _ hmeets hs ih => exact hstep ih hmeets hs

theorem Onward.next {s₁ s' : σ} {e : ε} (hmeets : meets s e) (hstep : M.Step s e s₁) (ho : Onward M meets s₁ s') :
    Onward M meets s s' := .head ⟨e, hmeets, hstep⟩ ho

end LocalDevProxy.Lib.Transitions
