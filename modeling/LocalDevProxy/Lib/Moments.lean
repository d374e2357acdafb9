import LocalDevProxy.Lib.Interaction

namespace LocalDevProxy.Lib.Moments

open Interaction

variable {S : Signature} {W α β ε : Type} {M : Machine S W}

/-- However calls are answered from this world on, C holds at every moment of the program, and
Q at its end. -/
def Throughout (M : Machine S W) (C : W → Prop) (Q : α → W → Prop) : Prog S α → W → Prop
  | .pure a, w => ∀ v, M.drift w v → C v ∧ Q a v
  | .call c next, w => ∀ u, M.drift w u → C u ∧ ∀ b v, M.answers c u b v → Throughout M C Q (next b) v

/-- What the surroundings do not change by themselves. -/
def Stable (M : Machine S W) (P : W → Prop) : Prop := ∀ {u v}, P u → M.drift u v → P v

variable {C : W → Prop} {Q : α → W → Prop} {w v : W}

theorem stable_const (p : Prop) : Stable M fun _ => p := fun h _ => h

theorem stable_and {P R : W → Prop} (hp : Stable M P) (hr : Stable M R) : Stable M fun w => P w ∧ R w :=
  fun h hd => ⟨hp h.1 hd, hr h.2 hd⟩

theorem stable_imp {p : Prop} {P : W → Prop} (hp : Stable M P) : Stable M fun w => p → P w :=
  fun h hd hp' => hp (h hp') hd

theorem Throughout.mono {C' : W → Prop} {Q' : α → W → Prop} {p : Prog S α} (h : Throughout M C Q p w)
    (hc : ∀ w, C w → C' w) (hq : ∀ a w, C w → Q a w → Q' a w) : Throughout M C' Q' p w := by
  induction p generalizing w with
  | pure a => exact fun v hd => ⟨hc v (h v hd).1, hq a v (h v hd).1 (h v hd).2⟩
  | call c next ih => exact fun u hd => ⟨hc u (h u hd).1, fun b v ha => ih b ((h u hd).2 b v ha)⟩

theorem throughout_pure {a : α} (hc : Stable M C) (hq : Stable M (Q a)) (h : C w) (ha : Q a w) :
    Throughout M C Q (Pure.pure a) w :=
  fun _ hd => ⟨hc h hd, hq ha hd⟩

/-- One call, from what holds before it to what holds after it. -/
theorem throughout_perform {c : S.Call} {P : W → Prop} {R : S.Ans c → W → Prop} (hc : Stable M C)
    (hp : Stable M P) (hr : ∀ b, Stable M (R b))
    (hcall : ∀ u b v, C u → P u → M.answers c u b v → C v ∧ R b v) (h : C w) (hw : P w) :
    Throughout M C R (Prog.perform c) w := by
  refine fun u hd => ⟨hc h hd, fun b v ha v' hd' => ?_⟩
  obtain ⟨hnow, hafter⟩ := hcall u b v (hc h hd) (hp hw hd) ha
  exact ⟨hc hnow hd', hr b hafter hd'⟩

theorem throughout_bind {R : β → W → Prop} {p : Prog S α} {f : α → Prog S β} (h : Throughout M C Q p w)
    (hf : ∀ a w, C w → Q a w → Throughout M C R (f a) w) : Throughout M C R (p >>= f) w := by
  induction p generalizing w with
  | pure a =>
      have hend := h w (M.drift_refl w)
      exact hf a w hend.1 hend.2
  | call c next ih => exact fun u hd => ⟨(h u hd).1, fun b v ha => ih b ((h u hd).2 b v ha)⟩

theorem throughout_tryThen {Q : Except ε α → W → Prop} {R : Except ε β → W → Prop} {p : Prog S (Except ε α)}
    {f : α → Prog S (Except ε β)} (hc : Stable M C) (hr : ∀ e, Stable M (R (.error e)))
    (h : Throughout M C Q p w) (herror : ∀ e w, Q (.error e) w → R (.error e) w)
    (hok : ∀ a w, C w → Q (.ok a) w → Throughout M C R (f a) w) : Throughout M C R (p.tryThen f) w := by
  apply throughout_bind h
  intro r w hw hq
  cases r with
  | error e => exact throughout_pure hc (hr e) hw (herror e w hq)
  | ok a => exact hok a w hw hq

theorem Throughout.visits {p : Prog S α} (h : Throughout M C Q p w) (hv : Visits M p w v) : C v := by
  induction hv with
  | @here p w v hd =>
      cases p with
      | pure a => exact (h v hd).1
      | call c next => exact (h v hd).1
  | call hd ha _ ih => exact ih ((h _ hd).2 _ _ ha)

theorem Throughout.runs {p : Prog S α} {a : α} (h : Throughout M C Q p w) (hr : Runs M p w a v) : C v ∧ Q a v := by
  induction hr with
  | pure hd => exact h _ hd
  | call hd ha _ ih => exact ih ((h _ hd).2 _ _ ha)

/-- A program whose calls are some among others does what it does by itself, on a part of the world. -/
theorem throughout_lift {T : Signature} {X : Type} {N : Machine T X} {f : S.Call → T.Call}
    {g : ∀ c, T.Ans (f c) → S.Ans c} (part : X → W) (hdrift : ∀ {x y}, N.drift x y → M.drift (part x) (part y))
    (hans : ∀ {c x b y}, N.answers (f c) x b y → M.answers c (part x) (g c b) (part y)) {p : Prog S α} {x : X}
    (h : Throughout M C Q p (part x)) :
    Throughout N (fun x => C (part x)) (fun a x => Q a (part x)) (p.lift f g) x := by
  induction p generalizing x with
  | pure a => exact fun y hd => h (part y) (hdrift hd)
  | call c next ih =>
      exact fun y hd => ⟨(h (part y) (hdrift hd)).1, fun b z ha => ih _ ((h (part y) (hdrift hd)).2 _ _ (hans ha))⟩

end LocalDevProxy.Lib.Moments
