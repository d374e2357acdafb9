import LocalDevProxy.Lib.Interaction

namespace LocalDevProxy.Lib.Clients

open Interaction

variable {S : Signature} {W L σ ρ α : Type} {M : Machine S W}

/-- What is left of a program, once some of its calls were answered. -/
inductive Within (M : Machine S W) : Prog S α → W → Prog S α → W → Prop
  | here {p : Prog S α} {w v : W} : M.drift w v → Within M p w p v
  | call {c : S.Call} {next : S.Ans c → Prog S α} {q : Prog S α} {w w₁ w₂ v : W} {b : S.Ans c} :
      M.drift w w₁ → M.answers c w₁ b w₂ → Within M (next b) w₂ q v → Within M (.call c next) w q v

theorem Within.drift {p q : Prog S α} {w v v' : W} (h : Within M p w q v) (hd : M.drift v v') :
    Within M p w q v' := by
  induction h with
  | here hd₁ => exact .here (M.drift_trans hd₁ hd)
  | call hd₁ ha _ ih => exact .call hd₁ ha (ih hd)

theorem Within.answered {p : Prog S α} {c : S.Call} {next : S.Ans c → Prog S α} {b : S.Ans c} {w v v' : W}
    (h : Within M p w (.call c next) v) (ha : M.answers c v b v') : Within M p w (next b) v' := by
  generalize hq : Prog.call c next = q at h
  induction h with
  | here hd =>
      subst hq
      exact .call hd ha (.here (M.drift_refl v'))
  | call hd₁ ha₁ _ ih => exact .call hd₁ ha₁ (ih ha hq)

theorem Within.runs {p : Prog S α} {a : α} {w v : W} (h : Within M p w (.pure a) v) : Runs M p w a v := by
  generalize hq : Prog.pure a = q at h
  induction h with
  | here hd =>
      subst hq
      exact .pure hd
  | call hd ha _ ih => exact .call hd ha (ih hq)

theorem Within.visits {p q : Prog S α} {w v : W} (h : Within M p w q v) : Visits M p w v := by
  induction h with
  | here hd => exact .here hd
  | call hd ha _ ih => exact .call hd ha ih

structure Client (S : Signature) (L σ ρ : Type) where
  trace : List (L × ρ)
  state : σ
  doing : Option (L × Prog S (σ × ρ))

variable {op : L → σ → Prog S (σ × ρ)} {s₀ : σ} {w₀ : W}

theorem session_drift {trace : List (L × ρ)} {s : σ} {w w' : W} (h : Session M op s₀ w₀ trace s w)
    (hd : M.drift w w') : Session M op s₀ w₀ trace s w' := by
  cases h with
  | start hd₁ => exact .start (M.drift_trans hd₁ hd)
  | step hs hr => exact .step hs (hr.drift_right hd)

inductive Step (answers : (c : S.Call) → W → S.Ans c → W → Prop) (op : L → σ → Prog S (σ × ρ)) :
    Client S L σ ρ → W → Client S L σ ρ → W → Prop
  | ask {trace : List (L × ρ)} {s : σ} {w : W} (l : L) :
      Step answers op ⟨trace, s, none⟩ w ⟨trace, s, some (l, op l s)⟩ w
  | call {trace : List (L × ρ)} {s : σ} {l : L} {c : S.Call} {next : S.Ans c → Prog S (σ × ρ)} {b : S.Ans c}
      {w w' : W} : answers c w b w' →
      Step answers op ⟨trace, s, some (l, .call c next)⟩ w ⟨trace, s, some (l, next b)⟩ w'
  | finish {trace : List (L × ρ)} {s s' : σ} {l : L} {r : ρ} {w : W} :
      Step answers op ⟨trace, s, some (l, .pure (s', r))⟩ w ⟨trace ++ [(l, r)], s', none⟩ w

section

variable {answers : (c : S.Call) → W → S.Ans c → W → Prop} {c : Client S L σ ρ} {l : L} {w w' : W}

theorem step_ask (h : c.doing = none) (l : L) : Step answers op c w { c with doing := some (l, op l c.state) } w := by
  obtain ⟨trace, s, doing⟩ := c
  cases h
  exact .ask l

theorem step_call {k : S.Call} {next : S.Ans k → Prog S (σ × ρ)} {b : S.Ans k}
    (h : c.doing = some (l, .call k next)) (ha : answers k w b w') :
    Step answers op c w { c with doing := some (l, next b) } w' := by
  obtain ⟨trace, s, doing⟩ := c
  cases h
  exact .call ha

theorem step_finish {s : σ} {r : ρ} (h : c.doing = some (l, .pure (s, r))) :
    Step answers op c w ⟨c.trace ++ [(l, r)], s, none⟩ w := by
  obtain ⟨trace, s, doing⟩ := c
  cases h
  exact .finish

end

/-- A driver takes a client through all of an operation, whatever each step keeps. -/
theorem driver_steps (D : Driver M) {I : Client S L σ ρ → W → Prop}
    (hstep : ∀ {c w c' w'}, I c w → Step M.answers op c w c' w' → I c' w') {trace : List (L × ρ)} {s : σ} {l : L}
    {p : Prog S (σ × ρ)} {w : W} (hw : D.inside w) (h : I ⟨trace, s, some (l, p)⟩ w) :
    I ⟨trace ++ [(l, (D.run p w).1.2)], (D.run p w).1.1, none⟩ (D.run p w).2 := by
  induction p generalizing w with
  | pure a => exact hstep h .finish
  | call c next ih => exact ih _ (D.stays c w hw) (hstep h (.call (D.sound c w hw)))

/-- A client has come here by the operations of a session, and by what it has done of one more. -/
inductive Lived (M : Machine S W) (op : L → σ → Prog S (σ × ρ)) (s₀ : σ) (w₀ : W) : Client S L σ ρ → W → Prop
  | idle {trace : List (L × ρ)} {s : σ} {w : W} : Session M op s₀ w₀ trace s w →
      Lived M op s₀ w₀ ⟨trace, s, none⟩ w
  | busy {trace : List (L × ρ)} {s : σ} {l : L} {p : Prog S (σ × ρ)} {u w : W} : Session M op s₀ w₀ trace s u →
      Within M (op l s) u p w → Lived M op s₀ w₀ ⟨trace, s, some (l, p)⟩ w

theorem Lived.drift {c : Client S L σ ρ} {w w' : W} (h : Lived M op s₀ w₀ c w) (hd : M.drift w w') :
    Lived M op s₀ w₀ c w' := by
  cases h with
  | idle hs => exact .idle (session_drift hs hd)
  | busy hs hw => exact .busy hs (hw.drift hd)

theorem Lived.step {c c' : Client S L σ ρ} {w w' : W} (h : Lived M op s₀ w₀ c w) (hstep : Step M.answers op c w c' w') :
    Lived M op s₀ w₀ c' w' := by
  cases hstep with
  | ask l =>
      cases h with
      | idle hs => exact .busy hs (.here (M.drift_refl _))
  | call ha =>
      cases h with
      | busy hs hw => exact .busy hs (hw.answered ha)
  | finish =>
      cases h with
      | busy hs hw => exact .idle (.step hs hw.runs)

/-- Between its operations a client has performed a session. -/
theorem Lived.session {c : Client S L σ ρ} {w : W} (h : Lived M op s₀ w₀ c w) (hidle : c.doing = none) :
    Session M op s₀ w₀ c.trace c.state w := by
  cases h with
  | idle hs => exact hs
  | busy _ _ => cases hidle

end LocalDevProxy.Lib.Clients
