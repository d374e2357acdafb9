import LocalDevProxy.Lib.Interaction

namespace LocalDevProxy.Lib.Policies

open Interaction

/-- Which calls a program may make by what it has learned, and what it learns
from the answers. -/
structure Policy (S : Signature) (K : Type) where
  allowed : K → S.Call → Prop
  learn : K → (c : S.Call) → S.Ans c → K

variable {S : Signature} {K α β ε W : Type} (P : Policy S K)

/-- However it is answered, the program makes allowed calls only and ends with
what Q asks of what it has learned and of its result. -/
def Confined (Q : K → α → Prop) : K → Prog S α → Prop
  | k, .pure a => Q k a
  | k, .call c next => P.allowed k c ∧ ∀ b, Confined Q (P.learn k c b) (next b)

variable {P} {Q : K → α → Prop} {k : K}

theorem Confined.mono {Q' : K → α → Prop} {p : Prog S α} (hp : Confined P Q k p)
    (h : ∀ k a, Q k a → Q' k a) : Confined P Q' k p := by
  induction p generalizing k with
  | pure a => exact h k a hp
  | call c next ih => exact ⟨hp.1, fun b => ih b (hp.2 b)⟩

theorem Confined.yields {R : α → Prop} {p : Prog S α} (hp : Confined P Q k p) (hy : p.Yields R) :
    Confined P (fun k a => Q k a ∧ R a) k p := by
  induction p generalizing k with
  | pure a => exact ⟨hp, hy⟩
  | call c next ih => exact ⟨hp.1, fun b => ih b (hp.2 b) (hy b)⟩

/-- What a program learns, it does not forget. -/
theorem Confined.grows {R : K → K → Prop} (hrefl : ∀ k, R k k)
    (htrans : ∀ {k k' k''}, R k k' → R k' k'' → R k k'') (hlearn : ∀ k c b, R k (P.learn k c b))
    {p : Prog S α} (hp : Confined P Q k p) : Confined P (fun k' a => Q k' a ∧ R k k') k p := by
  induction p generalizing k with
  | pure a => exact ⟨hp, hrefl k⟩
  | call c next ih =>
      refine ⟨hp.1, fun b => ?_⟩
      apply (ih b (hp.2 b)).mono
      rintro k' a ⟨ha, hk⟩
      exact ⟨ha, htrans (hlearn k c b) hk⟩

theorem confined_perform {c : S.Call} {Q : K → S.Ans c → Prop} (hc : P.allowed k c)
    (hQ : ∀ b, Q (P.learn k c b) b) : Confined P Q k (Prog.perform c) := ⟨hc, hQ⟩

theorem confined_bind {R : K → β → Prop} {p : Prog S α} {f : α → Prog S β} (hp : Confined P Q k p)
    (hf : ∀ k a, Q k a → Confined P R k (f a)) : Confined P R k (p >>= f) := by
  induction p generalizing k with
  | pure a => exact hf k a hp
  | call c next ih => exact ⟨hp.1, fun b => ih b (hp.2 b)⟩

theorem confined_tryThen {Q : K → Except ε α → Prop} {R : K → Except ε β → Prop}
    {p : Prog S (Except ε α)} {f : α → Prog S (Except ε β)} (hp : Confined P Q k p)
    (herror : ∀ k e, Q k (.error e) → R k (.error e))
    (hok : ∀ k a, Q k (.ok a) → Confined P R k (f a)) : Confined P R k (p.tryThen f) := by
  apply confined_bind hp
  intro k r hr
  cases r with
  | error e => exact herror k e hr
  | ok a => exact hok k a hr

theorem confined_of_only {C : S.Call → Prop} {p : Prog S α} (hp : p.Only C) (hC : ∀ k c, C c → P.allowed k c) :
    Confined P (fun _ _ => True) k p := by
  induction p generalizing k with
  | pure a => trivial
  | call c next ih => exact ⟨hC k c hp.1, fun b => ih b (hp.2 b)⟩

theorem confined_traverse {f : α → Prog S β} {as : List α} (hf : ∀ a ∈ as, ∀ k, Confined P (fun _ _ => True) k (f a)) :
    Confined P (fun _ _ => True) k (Prog.traverse f as) := by
  induction as generalizing k with
  | nil => trivial
  | cons a as ih =>
      apply confined_bind (hf a List.mem_cons_self k)
      intro k b _
      apply confined_bind (ih fun a ha => hf a (List.mem_cons_of_mem _ ha))
      exact fun _ _ _ => trivial

section

variable {M : Machine S W} (I : K → W → Prop) (hdrift : ∀ {k u v}, I k u → M.drift u v → I k v)
  (hcall : ∀ {k c u b v}, P.allowed k c → I k u → M.answers c u b v → I (P.learn k c b) v)

include hdrift hcall

/-- An invariant of what is known and of the world, which allowed calls keep, is
kept by a run. -/
theorem runs_confined {p : Prog S α} {a : α} {w w' : W} (h : Runs M p w a w') (hp : Confined P Q k p)
    (hi : I k w) : ∃ k', Q k' a ∧ I k' w' := by
  induction h generalizing k with
  | pure hd => exact ⟨k, hp, hdrift hi hd⟩
  | call hd ha _ ih => exact ih (hp.2 _) (hcall hp.1 (hdrift hi hd) ha)

/-- It holds at every moment of the run as well. -/
theorem visits_confined {p : Prog S α} {w v : W} (h : Visits M p w v) (hp : Confined P Q k p) (hi : I k w) :
    ∃ k', I k' v := by
  induction h generalizing k with
  | here hd => exact ⟨k, hdrift hi hd⟩
  | call hd ha _ ih => exact ih (hp.2 _) (hcall hp.1 (hdrift hi hd) ha)

end

end LocalDevProxy.Lib.Policies
