import Mathlib.Logic.Relation
import Mathlib.Data.List.Forall2

namespace LocalDevProxy.Lib.Interaction

/-- The calls a program can make on its surroundings, and the type in which
each of them is answered. -/
structure Signature where
  Call : Type
  Ans : Call → Type

/-- A program is a tree of calls; what it does next may depend on the answer. -/
inductive Prog (S : Signature) (α : Type) : Type
  | pure (a : α)
  | call (c : S.Call) (next : S.Ans c → Prog S α)

variable {S : Signature} {W α β γ L σ ρ : Type}

namespace Prog

def bind (p : Prog S α) (f : α → Prog S β) : Prog S β :=
  match p with
  | .pure a => f a
  | .call c next => .call c (fun b => (next b).bind f)

instance : Monad (Prog S) where
  pure := .pure
  bind := bind

def perform (c : S.Call) : Prog S (S.Ans c) := .call c .pure

def traverse (f : α → Prog S β) : List α → Prog S (List β)
  | [] => .pure []
  | a :: as => do
      let b ← f a
      let bs ← traverse f as
      return b :: bs

/-- A loop whose body gives back each element without a call does nothing. -/
theorem traverse_pure {f : α → Prog S α} {as : List α} (h : ∀ a ∈ as, f a = return a) :
    traverse f as = return as := by
  induction as with
  | nil => rfl
  | cons a as ih =>
      have ha := h a (List.mem_cons_self ..)
      have has := ih (fun a ha => h a (List.mem_cons_of_mem _ ha))
      rw [traverse, ha, has]
      rfl

/-- Go on with the result of a program that succeeded; stop at its error. -/
def tryThen {ε : Type} (p : Prog S (Except ε α)) (f : α → Prog S (Except ε β)) :
    Prog S (Except ε β) :=
  p >>= fun r => match r with
    | .ok a => f a
    | .error e => return .error e

/-- The same program on surroundings where its calls are some among others. -/
def lift {T : Signature} (f : S.Call → T.Call) (g : ∀ c, T.Ans (f c) → S.Ans c) : Prog S α → Prog T α
  | .pure a => .pure a
  | .call c next => .call (f c) (fun b => (next (g c b)).lift f g)

def Fails {ε : Type} : Prog S (Except ε α) → Prop
  | .pure r => ∃ e, r = .error e
  | .call _ next => ∀ b, (next b).Fails

/-- Once a call is answered badly, the program ends with an error. -/
def Heeds {ε : Type} (bad : (c : S.Call) → S.Ans c → Prop) : Prog S (Except ε α) → Prop
  | .pure _ => True
  | .call c next => ∀ b, (bad c b → (next b).Fails) ∧ (next b).Heeds bad

theorem fails_tryThen {ε : Type} {p : Prog S (Except ε α)} (hp : p.Fails)
    (f : α → Prog S (Except ε β)) : (p.tryThen f).Fails := by
  induction p with
  | pure r =>
      obtain ⟨e, rfl⟩ := hp
      exact ⟨e, rfl⟩
  | call c next ih => exact fun b => ih b (hp b)

theorem heeds_tryThen {ε : Type} {bad : (c : S.Call) → S.Ans c → Prop} {p : Prog S (Except ε α)}
    {f : α → Prog S (Except ε β)} (hp : p.Heeds bad) (hf : ∀ a, (f a).Heeds bad) :
    (p.tryThen f).Heeds bad := by
  induction p with
  | pure r =>
      cases r with
      | ok a => exact hf a
      | error e => trivial
  | call c next ih => exact fun b => ⟨fun hbad => fails_tryThen ((hp b).1 hbad) f, ih b (hp b).2⟩

/-- Every call the program can reach, whatever it is answered, satisfies P. -/
def Only (P : S.Call → Prop) : Prog S α → Prop
  | .pure _ => True
  | .call c next => P c ∧ ∀ b, (next b).Only P

theorem only_of_forall {P : S.Call → Prop} (h : ∀ c, P c) (p : Prog S α) : p.Only P := by
  induction p with
  | pure a => trivial
  | call c next ih => exact ⟨h c, ih⟩

theorem Only.mono {P Q : S.Call → Prop} (h : ∀ c, P c → Q c) {p : Prog S α} (hp : p.Only P) :
    p.Only Q := by
  induction p with
  | pure a => trivial
  | call c next ih => exact ⟨h c hp.1, fun b => ih b (hp.2 b)⟩

theorem only_pure (P : S.Call → Prop) (a : α) : (Pure.pure a : Prog S α).Only P := trivial

theorem only_perform {P : S.Call → Prop} {c : S.Call} (hc : P c) : (perform c).Only P :=
  ⟨hc, fun _ => trivial⟩

theorem only_bind {P : S.Call → Prop} {p : Prog S α} {f : α → Prog S β}
    (hp : p.Only P) (hf : ∀ a, (f a).Only P) : (p >>= f).Only P := by
  induction p with
  | pure a => exact hf a
  | call c next ih => exact ⟨hp.1, fun b => ih b (hp.2 b)⟩

theorem only_tryThen {ε : Type} {P : S.Call → Prop} {p : Prog S (Except ε α)}
    {f : α → Prog S (Except ε β)} (hp : p.Only P) (hf : ∀ a, (f a).Only P) :
    (p.tryThen f).Only P := by
  refine only_bind hp ?_
  intro r
  cases r with
  | ok a => exact hf a
  | error e => trivial

/-- However it is answered, the program makes at most one call that satisfies P. -/
def Once (P : S.Call → Prop) : Prog S α → Prop
  | .pure _ => True
  | .call c next => (∀ b, (next b).Once P) ∧ (P c → ∀ b, (next b).Only fun c => ¬ P c)

theorem once_of_only {P : S.Call → Prop} {p : Prog S α} (hp : p.Only fun c => ¬ P c) : p.Once P := by
  induction p with
  | pure a => trivial
  | call c next ih => exact ⟨fun b => ih b (hp.2 b), fun hc => absurd hc hp.1⟩

theorem once_bind_left {P : S.Call → Prop} {p : Prog S α} {f : α → Prog S β}
    (hp : p.Only fun c => ¬ P c) (hf : ∀ a, (f a).Once P) : (p >>= f).Once P := by
  induction p with
  | pure a => exact hf a
  | call c next ih => exact ⟨fun b => ih b (hp.2 b), fun hc => absurd hc hp.1⟩

theorem once_bind_right {P : S.Call → Prop} {p : Prog S α} {f : α → Prog S β}
    (hp : p.Once P) (hf : ∀ a, (f a).Only fun c => ¬ P c) : (p >>= f).Once P := by
  induction p with
  | pure a => exact once_of_only (hf a)
  | call c next ih => exact ⟨fun b => ih b (hp.1 b), fun hc b => only_bind (hp.2 hc b) hf⟩

def Yields (P : α → Prop) : Prog S α → Prop
  | .pure a => P a
  | .call _ next => ∀ b, (next b).Yields P

theorem Yields.mono {P Q : α → Prop} {p : Prog S α} (hp : p.Yields P) (h : ∀ a, P a → Q a) : p.Yields Q := by
  induction p with
  | pure a => exact h a hp
  | call c next ih => exact fun b => ih b (hp b)

theorem yields_bind {P : α → Prop} {Q : β → Prop} {p : Prog S α} {f : α → Prog S β}
    (hp : p.Yields P) (hf : ∀ a, P a → (f a).Yields Q) : (p >>= f).Yields Q := by
  induction p with
  | pure a => exact hf a hp
  | call c next ih => exact fun b => ih b (hp b)

theorem yields_true (p : Prog S α) : p.Yields fun _ => True := by
  induction p with
  | pure a => trivial
  | call c next ih => exact ih

/-- What follows does not depend on the result of the first program. -/
theorem yields_then {Q : β → Prop} (p : Prog S α) {f : α → Prog S β} (hf : ∀ a, (f a).Yields Q) :
    (p >>= f).Yields Q :=
  yields_bind (yields_true p) fun a _ => hf a

end Prog

/-- What the surroundings do: how a call may be answered, and how they may
move by themselves between two calls. -/
structure Machine (S : Signature) (W : Type) where
  answers : (c : S.Call) → W → S.Ans c → W → Prop
  drift : W → W → Prop
  drift_refl : ∀ w, drift w w
  drift_trans : ∀ {u v w}, drift u v → drift v w → drift u w

namespace Machine

def restrict (M : Machine S W) (P : (c : S.Call) → S.Ans c → Prop) : Machine S W where
  answers := fun c w b w' => M.answers c w b w' ∧ P c b
  drift := M.drift
  drift_refl := M.drift_refl
  drift_trans := M.drift_trans

/-- The same surroundings, with only some of the steps that an answer is given in. -/
def constrain (M : Machine S W) (Q : (c : S.Call) → W → S.Ans c → W → Prop) : Machine S W where
  answers := fun c w b w' => M.answers c w b w' ∧ Q c w b w'
  drift := M.drift
  drift_refl := M.drift_refl
  drift_trans := M.drift_trans

/-- The same surroundings, beside them what was asked and how it was answered, oldest first. -/
def recorded (M : Machine S W) : Machine S (W × List ((c : S.Call) × S.Ans c)) where
  answers := fun c w b w' => M.answers c w.1 b w'.1 ∧ w'.2 = w.2 ++ [⟨c, b⟩]
  drift := fun w w' => M.drift w.1 w'.1 ∧ w'.2 = w.2
  drift_refl := fun w => ⟨M.drift_refl w.1, rfl⟩
  drift_trans := fun h h' => ⟨M.drift_trans h.1 h'.1, h'.2.trans h.2⟩

def along {T : Signature} (N : Machine T W) (f : S.Call → T.Call) (g : ∀ c, T.Ans (f c) → S.Ans c) :
    Machine S W where
  answers := fun c w b w' => ∃ b', g c b' = b ∧ N.answers (f c) w b' w'
  drift := N.drift
  drift_refl := N.drift_refl
  drift_trans := N.drift_trans

end Machine

/-- A finished run. The surroundings drift before every call and once more
after the last one. -/
inductive Runs (M : Machine S W) : Prog S α → W → α → W → Prop
  | pure {a : α} {w w' : W} : M.drift w w' → Runs M (.pure a) w a w'
  | call {c : S.Call} {next : S.Ans c → Prog S α} {w w₁ w₂ w₃ : W} {b : S.Ans c} {a : α} :
      M.drift w w₁ → M.answers c w₁ b w₂ → Runs M (next b) w₂ a w₃ → Runs M (.call c next) w a w₃

variable {M : Machine S W}

theorem runs_pure {a b : α} {w w' : W} :
    Runs M (Pure.pure a) w b w' ↔ b = a ∧ M.drift w w' := by
  constructor
  · intro h
    cases h with
    | pure hd => exact ⟨rfl, hd⟩
  · rintro ⟨rfl, hd⟩
    exact .pure hd

theorem runs_call {c : S.Call} {next : S.Ans c → Prog S α} {a : α} {w w' : W} :
    Runs M (.call c next) w a w' ↔
      ∃ w₁ b w₂, M.drift w w₁ ∧ M.answers c w₁ b w₂ ∧ Runs M (next b) w₂ a w' := by
  constructor
  · intro h
    cases h with
    | call hd hc hn => exact ⟨_, _, _, hd, hc, hn⟩
  · rintro ⟨w₁, b, w₂, hd, hc, hn⟩
    exact .call hd hc hn

theorem Runs.drift_left {p : Prog S α} {a : α} {u w w' : W} (hu : M.drift u w)
    (h : Runs M p w a w') : Runs M p u a w' := by
  cases h with
  | pure hd => exact .pure (M.drift_trans hu hd)
  | call hd hc hn => exact .call (M.drift_trans hu hd) hc hn

theorem Runs.drift_right {p : Prog S α} {a : α} {w w' w'' : W}
    (h : Runs M p w a w') (hd : M.drift w' w'') : Runs M p w a w'' := by
  induction h with
  | pure h => exact .pure (M.drift_trans h hd)
  | call h hc _ ih => exact .call h hc (ih hd)

theorem runs_perform {c : S.Call} {b : S.Ans c} {w w' : W} :
    Runs M (Prog.perform c) w b w' ↔
      ∃ w₁ w₂, M.drift w w₁ ∧ M.answers c w₁ b w₂ ∧ M.drift w₂ w' := by
  rw [Prog.perform, runs_call]
  constructor
  · rintro ⟨w₁, b', w₂, hd, hc, hn⟩
    obtain ⟨rfl, hd'⟩ := runs_pure.mp hn
    exact ⟨w₁, w₂, hd, hc, hd'⟩
  · rintro ⟨w₁, w₂, hd, hc, hd'⟩
    exact ⟨w₁, b, w₂, hd, hc, .pure hd'⟩

theorem runs_bind {p : Prog S α} {f : α → Prog S β} {b : β} {w w' : W} :
    Runs M (p >>= f) w b w' ↔ ∃ a w₁, Runs M p w a w₁ ∧ Runs M (f a) w₁ b w' := by
  constructor
  · intro h
    induction p generalizing w with
    | pure a => exact ⟨a, w, .pure (M.drift_refl w), h⟩
    | call c next ih =>
        obtain ⟨w₁, x, w₂, hd, hc, hn⟩ := runs_call.mp h
        obtain ⟨a, w₃, hp, hf⟩ := ih x hn
        exact ⟨a, w₃, .call hd hc hp, hf⟩
  · rintro ⟨a, w₁, hp, hf⟩
    induction hp with
    | pure hd => exact hf.drift_left hd
    | call hd hc _ ih => exact .call hd hc (ih hf)

theorem runs_tryThen {ε : Type} {p : Prog S (Except ε α)} {f : α → Prog S (Except ε β)}
    {r : Except ε β} {w w' : W} :
    Runs M (p.tryThen f) w r w' ↔
      (∃ e, r = .error e ∧ Runs M p w (.error e) w') ∨
        ∃ a w₁, Runs M p w (.ok a) w₁ ∧ Runs M (f a) w₁ r w' := by
  rw [Prog.tryThen, runs_bind]
  constructor
  · rintro ⟨x, w₁, hp, h⟩
    cases x with
    | error e =>
        obtain ⟨rfl, hd⟩ := runs_pure.mp h
        exact .inl ⟨e, rfl, hp.drift_right hd⟩
    | ok a => exact .inr ⟨a, w₁, hp, h⟩
  · rintro (⟨e, rfl, hp⟩ | ⟨a, w₁, hp, h⟩)
    · exact ⟨.error e, w', hp, .pure (M.drift_refl w')⟩
    · exact ⟨.ok a, w₁, hp, h⟩

/-- A run in some surroundings is one in any that allow as much. -/
theorem Runs.mono {N : Machine S W} {p : Prog S α} {a : α} {w w' : W} (h : Runs M p w a w')
    (hdrift : ∀ {u v}, M.drift u v → N.drift u v)
    (hanswers : ∀ {c u b v}, M.answers c u b v → N.answers c u b v) : Runs N p w a w' := by
  induction h with
  | pure hd => exact .pure (hdrift hd)
  | call hd hc _ ih => exact .call (hdrift hd) (hanswers hc) ih

/-- A run in some surroundings is one in simpler ones, where what is left out of them
is neither asked about nor answered. -/
theorem Runs.simulate {V : Type} {N : Machine S V} (f : W → V) {p : Prog S α} {a : α} {w w' : W}
    (h : Runs M p w a w') (hdrift : ∀ {u v}, M.drift u v → N.drift (f u) (f v))
    (hanswers : ∀ {c u b v}, M.answers c u b v → N.answers c (f u) b (f v)) : Runs N p (f w) a (f w') := by
  induction h with
  | pure hd => exact .pure (hdrift hd)
  | call hd hc _ ih => exact .call (hdrift hd) (hanswers hc) ih

theorem Runs.of_restrict {P : (c : S.Call) → S.Ans c → Prop} {p : Prog S α} {a : α} {w w' : W}
    (h : Runs (M.restrict P) p w a w') : Runs M p w a w' :=
  h.mono id And.left

theorem runs_lift {T : Signature} {N : Machine T W} {f : S.Call → T.Call}
    {g : ∀ c, T.Ans (f c) → S.Ans c} {p : Prog S α} {a : α} {w w' : W} :
    Runs N (p.lift f g) w a w' ↔ Runs (N.along f g) p w a w' := by
  constructor
  · intro h
    induction p generalizing w with
    | pure b =>
        obtain ⟨rfl, hd⟩ := runs_pure.mp h
        exact .pure hd
    | call c next ih =>
        obtain ⟨w₁, b, w₂, hd, hc, hn⟩ := runs_call.mp h
        exact .call hd ⟨b, rfl, hc⟩ (ih _ hn)
  · intro h
    induction h with
    | pure hd => exact .pure hd
    | call hd hc _ ih =>
        obtain ⟨b, rfl, hc⟩ := hc
        exact .call hd hc ih

theorem Runs.not_fails {ε : Type} {p : Prog S (Except ε α)} {a : α} {w w' : W}
    (h : Runs M p w (.ok a) w') : ¬ p.Fails := by
  intro hp
  induction p generalizing w with
  | pure r =>
      obtain ⟨e, rfl⟩ := hp
      cases (runs_pure.mp h).1
  | call c next ih =>
      obtain ⟨w₁, b, w₂, _, _, hn⟩ := runs_call.mp h
      exact ih b hn (hp b)

/-- A run that succeeds was given no bad answer that the program heeds. -/
theorem Runs.heeded {ε : Type} {bad : (c : S.Call) → S.Ans c → Prop} {p : Prog S (Except ε α)}
    (hp : p.Heeds bad) {a : α} {w w' : W} (h : Runs M p w (.ok a) w') :
    Runs (M.restrict fun c b => ¬ bad c b) p w (.ok a) w' := by
  induction p generalizing w with
  | pure r =>
      obtain ⟨rfl, hd⟩ := runs_pure.mp h
      exact .pure hd
  | call c next ih =>
      obtain ⟨w₁, b, w₂, hd, hc, hn⟩ := runs_call.mp h
      exact .call hd ⟨hc, fun hbad => hn.not_fails ((hp b).1 hbad)⟩ (ih b (hp b).2 hn)

theorem Runs.yields {P : α → Prop} {p : Prog S α} {a : α} {w w' : W} (h : Runs M p w a w')
    (hp : p.Yields P) : P a := by
  induction h with
  | pure _ => exact hp
  | call _ _ _ ih => exact ih (hp _)

/-- A recorded run that begins with a given answer to its first call. -/
theorem Runs.answered {c : S.Call} {next : S.Ans c → Prog S α} {a : α} {w w₁ : W}
    {past : List ((c : S.Call) × S.Ans c)} {w' : W × List ((c : S.Call) × S.Ans c)} (b : S.Ans c)
    (ha : M.answers c w b w₁) (hn : Runs M.recorded (next b) (w₁, past ++ [⟨c, b⟩]) a w') :
    Runs M.recorded (.call c next) (w, past) a w' :=
  .call (M.recorded.drift_refl _) ⟨ha, rfl⟩ hn

/-- A recorded run is one of the surroundings alone. -/
theorem Runs.forget {p : Prog S α} {a : α} {w w' : W × List ((c : S.Call) × S.Ans c)}
    (h : Runs M.recorded p w a w') : Runs M p w.1 a w'.1 := by
  induction h with
  | pure hd => exact .pure hd.1
  | call hd hc _ ih => exact .call hd.1 hc.1 ih

/-- Frame rule: a program relates its first and last worlds by any preorder
that contains the drift and the effect of each call it can make. -/
theorem Runs.frame {P : S.Call → Prop} {R : W → W → Prop} {p : Prog S α} {a : α} {w w' : W}
    (h : Runs M p w a w') (hp : p.Only P)
    (htrans : ∀ {u v x}, R u v → R v x → R u x)
    (hdrift : ∀ {u v}, M.drift u v → R u v)
    (hcall : ∀ {c u b v}, P c → M.answers c u b v → R u v) : R w w' := by
  induction h with
  | pure hd => exact hdrift hd
  | call hd hc _ ih => exact htrans (hdrift hd) (htrans (hcall hp.1 hc) (ih (hp.2 _)))

/-- Frame rule for a program that makes one call at most which the invariant I may not
survive: the weaker J then holds. -/
theorem Runs.once {P : S.Call → Prop} {I J : W → Prop} {p : Prog S α} {a : α} {w w' : W}
    (h : Runs M p w a w') (hp : p.Once P) (hI : I w) (hweaker : ∀ {u}, I u → J u)
    (hdrift : ∀ {u v}, M.drift u v → (I u → I v) ∧ (J u → J v))
    (hcall : ∀ {c u b v}, ¬ P c → M.answers c u b v → (I u → I v) ∧ (J u → J v))
    (honce : ∀ {c u b v}, P c → M.answers c u b v → I u → J v) : J w' := by
  induction h with
  | pure hd => exact hweaker ((hdrift hd).1 hI)
  | @call c next u u₁ u₂ u₃ b a hd hc hr ih =>
      by_cases hP : P c
      · refine hr.frame (R := fun u v => J u → J v) (hp.2 hP b) (fun huv hvx hu => hvx (huv hu))
          (fun hd => (hdrift hd).2) (fun hnot ha => (hcall hnot ha).2) ?_
        exact honce hP hc ((hdrift hd).1 hI)
      · exact ih (hp.1 b) ((hcall hP hc).1 ((hdrift hd).1 hI))

/-- A run only adds to the record, and only the calls that the program can make. -/
theorem Runs.extends {P : S.Call → Prop} {p : Prog S α} {a : α} {w w' : W × List ((c : S.Call) × S.Ans c)}
    (h : Runs M.recorded p w a w') (hp : p.Only P) : ∃ added, w'.2 = w.2 ++ added ∧ ∀ e ∈ added, P e.1 := by
  refine h.frame hp (R := fun u v => ∃ added, v.2 = u.2 ++ added ∧ ∀ e ∈ added, P e.1) ?_ ?_ ?_
  · rintro u v x ⟨as, hv, has⟩ ⟨bs, hx, hbs⟩
    refine ⟨as ++ bs, by rw [hx, hv, List.append_assoc], fun e he => ?_⟩
    exact (List.mem_append.mp he).elim (has e) (hbs e)
  · rintro u v ⟨_, hsame⟩
    exact ⟨[], by rw [hsame, List.append_nil], nofun⟩
  · rintro c u b v hc ⟨_, hadded⟩
    refine ⟨[⟨c, b⟩], hadded, fun e he => ?_⟩
    rw [List.mem_singleton.mp he]
    exact hc

/-- Loop rule for traverse. The invariant speaks of the results collected so
far, the elements that remain and the world. -/
theorem Runs.traverse_rule {f : α → Prog S β} {as : List α} {bs : List β} {w w' : W}
    (h : Runs M (Prog.traverse f as) w bs w') (I : List β → List α → W → Prop)
    (hinit : I [] as w) (hdrift : ∀ {xs ys u v}, I xs ys u → M.drift u v → I xs ys v)
    (hstep : ∀ {xs a ys u b v}, I xs (a :: ys) u → Runs M (f a) u b v → I (xs ++ [b]) ys v) :
    I bs [] w' := by
  suffices ∀ done, I done as w → I (done ++ bs) [] w' from this [] hinit
  clear hinit
  induction as generalizing w bs with
  | nil =>
      intro done hI
      obtain ⟨rfl, hd⟩ := runs_pure.mp h
      simpa using hdrift hI hd
  | cons a as ih =>
      intro done hI
      obtain ⟨b, w₁, hf, h⟩ := runs_bind.mp h
      obtain ⟨rest, w₂, ht, h⟩ := runs_bind.mp h
      obtain ⟨rfl, hd⟩ := runs_pure.mp h
      have hrest := ih (ht.drift_right hd) (done ++ [b]) (hstep hI hf)
      simpa using hrest

theorem Runs.traverse_forall₂ {f : α → Prog S β} {as : List α} {bs : List β} {w w' : W}
    (h : Runs M (Prog.traverse f as) w bs w') :
    List.Forall₂ (fun a b => ∃ u v, Runs M (f a) u b v) as bs := by
  induction as generalizing w bs with
  | nil =>
      obtain ⟨rfl, _⟩ := runs_pure.mp h
      exact .nil
  | cons a as ih =>
      obtain ⟨b, w₁, hf, h⟩ := runs_bind.mp h
      obtain ⟨rest, w₂, ht, h⟩ := runs_bind.mp h
      obtain ⟨rfl, hd⟩ := runs_pure.mp h
      exact .cons ⟨w, w₁, hf⟩ (ih (ht.drift_right hd))

/-- The worlds there are while a program is run, whether it gets to its end or not. -/
inductive Visits (M : Machine S W) : Prog S α → W → W → Prop
  | here {p : Prog S α} {w v : W} : M.drift w v → Visits M p w v
  | call {c : S.Call} {next : S.Ans c → Prog S α} {w w₁ w₂ v : W} {b : S.Ans c} :
      M.drift w w₁ → M.answers c w₁ b w₂ → Visits M (next b) w₂ v → Visits M (.call c next) w v

theorem visits_pure {a : α} {w v : W} : Visits M (Pure.pure a : Prog S α) w v ↔ M.drift w v := by
  constructor
  · intro h
    cases h with
    | here hd => exact hd
  · exact .here

theorem visits_call {c : S.Call} {next : S.Ans c → Prog S α} {w v : W} :
    Visits M (.call c next) w v ↔
      M.drift w v ∨ ∃ w₁ b w₂, M.drift w w₁ ∧ M.answers c w₁ b w₂ ∧ Visits M (next b) w₂ v := by
  constructor
  · intro h
    cases h with
    | here hd => exact .inl hd
    | call hd hc hn => exact .inr ⟨_, _, _, hd, hc, hn⟩
  · rintro (hd | ⟨w₁, b, w₂, hd, hc, hn⟩)
    · exact .here hd
    · exact .call hd hc hn

theorem Runs.visits {p : Prog S α} {a : α} {w w' : W} (h : Runs M p w a w') : Visits M p w w' := by
  induction h with
  | pure hd => exact .here hd
  | call hd hc _ ih => exact .call hd hc ih

/-- What is seen during two programs in a row is seen during the first, or during
the second after a run of the first. -/
theorem visits_bind {p : Prog S α} {f : α → Prog S β} {w v : W} (h : Visits M (p >>= f) w v) :
    Visits M p w v ∨ ∃ a w₁, Runs M p w a w₁ ∧ Visits M (f a) w₁ v := by
  induction p generalizing w with
  | pure a => exact .inr ⟨a, w, .pure (M.drift_refl w), h⟩
  | call c next ih =>
      rcases visits_call.mp h with hd | ⟨w₁, b, w₂, hd, hc, hn⟩
      · exact .inl (.here hd)
      · rcases ih b hn with hfirst | ⟨a, w₃, hr, hsecond⟩
        · exact .inl (.call hd hc hfirst)
        · exact .inr ⟨a, w₃, .call hd hc hr, hsecond⟩

/-- The frame rule of a run holds at every moment of it. -/
theorem Visits.frame {P : S.Call → Prop} {R : W → W → Prop} {p : Prog S α} {w v : W}
    (h : Visits M p w v) (hp : p.Only P)
    (htrans : ∀ {u v x}, R u v → R v x → R u x)
    (hdrift : ∀ {u v}, M.drift u v → R u v)
    (hcall : ∀ {c u b v}, P c → M.answers c u b v → R u v) : R w v := by
  induction h with
  | here hd => exact hdrift hd
  | call hd hc _ ih => exact htrans (hdrift hd) (htrans (hcall hp.1 hc) (ih (hp.2 _)))

/-- One allowed answer for every call, in every world of a set that the
answers do not leave. A program can be run by it. -/
structure Driver (M : Machine S W) where
  inside : W → Prop
  answer : (c : S.Call) → W → S.Ans c × W
  sound : ∀ c w, inside w → M.answers c w (answer c w).1 (answer c w).2
  stays : ∀ c w, inside w → inside (answer c w).2

namespace Driver

def run (D : Driver M) : Prog S α → W → α × W
  | .pure a, w => (a, w)
  | .call c next, w => run D (next (D.answer c w).1) (D.answer c w).2

theorem runs (D : Driver M) (p : Prog S α) {w : W} (hw : D.inside w) :
    Runs M p w (D.run p w).1 (D.run p w).2 ∧ D.inside (D.run p w).2 := by
  induction p generalizing w with
  | pure a => exact ⟨.pure (M.drift_refl w), hw⟩
  | call c next ih =>
      obtain ⟨hr, hi⟩ := ih _ (D.stays c w hw)
      exact ⟨.call (M.drift_refl w) (D.sound c w hw) hr, hi⟩

def record (D : Driver M) : Prog S α → W → List ((c : S.Call) × S.Ans c)
  | .pure _, _ => []
  | .call c next, w => ⟨c, (D.answer c w).1⟩ :: record D (next (D.answer c w).1) (D.answer c w).2

theorem runs_recorded (D : Driver M) (p : Prog S α) {w : W} (hw : D.inside w)
    (past : List ((c : S.Call) × S.Ans c)) :
    Runs M.recorded p (w, past) (D.run p w).1 ((D.run p w).2, past ++ D.record p w) := by
  induction p generalizing w past with
  | pure a => exact .pure ⟨M.drift_refl w, List.append_nil past⟩
  | call c next ih =>
      have hnext := ih (D.answer c w).1 (D.stays c w hw) (past ++ [⟨c, (D.answer c w).1⟩])
      rw [List.append_assoc] at hnext
      exact .answered _ (D.sound c w hw) hnext

/-- Where its answers are among those that are allowed, the program is run with these. -/
theorem runs_restrict (D : Driver M) {P : (c : S.Call) → S.Ans c → Prop} (p : Prog S α) {w : W} (hw : D.inside w)
    (hP : ∀ e ∈ D.record p w, P e.1 e.2) : Runs (M.restrict P) p w (D.run p w).1 (D.run p w).2 := by
  induction p generalizing w with
  | pure a => exact .pure (M.drift_refl w)
  | call c next ih =>
      have hc := hP _ (List.mem_cons_self ..)
      have hnext := ih (D.answer c w).1 (D.stays c w hw) fun e he => hP e (List.mem_cons_of_mem _ he)
      exact .call (M.drift_refl w) ⟨D.sound c w hw, hc⟩ hnext

theorem exists_run (D : Driver M) (p : Prog S α) {w : W} (hw : D.inside w) :
    ∃ a w', Runs M p w a w' ∧ D.inside w' :=
  ⟨_, _, D.runs p hw⟩

end Driver

/-- A session performs labelled operations one after another on a state of
the program, and records each with its result. -/
inductive Session (M : Machine S W) (op : L → σ → Prog S (σ × ρ)) (s₀ : σ) (w₀ : W) :
    List (L × ρ) → σ → W → Prop
  | start {w : W} : M.drift w₀ w → Session M op s₀ w₀ [] s₀ w
  | step {trace : List (L × ρ)} {s s' : σ} {w w' : W} {l : L} {r : ρ} :
      Session M op s₀ w₀ trace s w → Runs M (op l s) w (s', r) w' →
      Session M op s₀ w₀ (trace ++ [(l, r)]) s' w'

variable {op : L → σ → Prog S (σ × ρ)} {s₀ : σ} {w₀ : W}

/-- Invariant rule: what the start satisfies and every operation keeps holds
in every state a session reaches. -/
theorem Session.invariant {trace : List (L × ρ)} {s : σ} {w : W}
    (h : Session M op s₀ w₀ trace s w) (I : List (L × ρ) → σ → W → Prop)
    (hstart : ∀ w, M.drift w₀ w → I [] s₀ w)
    (hstep : ∀ trace s w l s' r w', I trace s w → Runs M (op l s) w (s', r) w' →
      I (trace ++ [(l, r)]) s' w') : I trace s w := by
  induction h with
  | start hd => exact hstart _ hd
  | step _ hr ih => exact hstep _ _ _ _ _ _ _ ih hr

theorem Session.single {s : σ} {w : W} {l : L} {r : ρ} (h : Runs M (op l s₀) w₀ (s, r) w) :
    Session M op s₀ w₀ [(l, r)] s w :=
  .step (.start (M.drift_refl w₀)) h

end LocalDevProxy.Lib.Interaction
