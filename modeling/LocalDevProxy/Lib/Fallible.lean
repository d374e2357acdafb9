import Mathlib.Data.List.Forall2

namespace LocalDevProxy.Lib.Fallible

variable {α β ε : Type}

def check (condition : Bool) (err : ε) : Except ε Unit := if condition then .ok () else .error err

/-- Run a fallible step on every element and stop at the first failure. -/
def collect (f : α → Except ε β) : List α → Except ε (List β)
  | [] => .ok []
  | a :: as => do
      let b ← f a
      let bs ← collect f as
      .ok (b :: bs)

theorem bind_eq_ok {x : Except ε α} {f : α → Except ε β} {b : β} :
    (x >>= f) = .ok b ↔ ∃ a, x = .ok a ∧ f a = .ok b := by
  cases x with
  | error e => simp [bind, Except.bind]
  | ok a => simp [bind, Except.bind]

theorem bind_eq_error {x : Except ε α} {f : α → Except ε β} {e : ε} :
    (x >>= f) = .error e ↔ x = .error e ∨ ∃ a, x = .ok a ∧ f a = .error e := by
  cases x with
  | error e' => simp [bind, Except.bind]
  | ok a => simp [bind, Except.bind]

theorem check_eq_ok {condition : Bool} {err : ε} {u : Unit} :
    check condition err = .ok u ↔ condition = true := by
  cases condition <;> simp [check]

theorem collect_eq_ok {f : α → Except ε β} {as : List α} {bs : List β} :
    collect f as = .ok bs ↔ List.Forall₂ (fun a b => f a = .ok b) as bs := by
  induction as generalizing bs with
  | nil => simp [collect, eq_comm]
  | cons a as ih =>
      simp only [collect, bind_eq_ok, ih, List.forall₂_cons_left_iff, Except.ok.injEq]
      constructor
      · rintro ⟨b, hb, bs', hbs, rfl⟩
        exact ⟨b, bs', hb, hbs, rfl⟩
      · rintro ⟨b, bs', hb, hbs, rfl⟩
        exact ⟨b, hb, bs', hbs, rfl⟩

theorem forall₂_exists_map {γ : Type} {g : γ → α} {R : γ → β → Prop} {as : List α} {bs : List β} :
    List.Forall₂ (fun a b => ∃ c, a = g c ∧ R c b) as bs ↔ ∃ cs, as = cs.map g ∧ List.Forall₂ R cs bs := by
  induction bs generalizing as with
  | nil => simp
  | cons b bs ih =>
      rw [List.forall₂_cons_right_iff]
      constructor
      · rintro ⟨a, as, ⟨c, rfl, hc⟩, hall, rfl⟩
        obtain ⟨cs, rfl, hcs⟩ := ih.mp hall
        exact ⟨c :: cs, rfl, .cons hc hcs⟩
      · rintro ⟨_, rfl, _ | ⟨hc, hcs⟩⟩
        exact ⟨g _, _, ⟨_, rfl, hc⟩, ih.mpr ⟨_, rfl, hcs⟩, rfl⟩

/-- Collecting by a step that reads what a function wrote is reading the list that the function was
mapped over. -/
theorem collect_eq_ok_of_reads {γ : Type} {f : α → Except ε β} {g : γ → α} {R : γ → β → Prop}
    (h : ∀ a b, f a = .ok b ↔ ∃ c, a = g c ∧ R c b) {as : List α} {bs : List β} :
    collect f as = .ok bs ↔ ∃ cs, as = cs.map g ∧ List.Forall₂ R cs bs := by
  simp only [collect_eq_ok, h, forall₂_exists_map]

/-- Collecting by a step that undoes a function gives the list that the function was mapped over. -/
theorem collect_eq_ok_of_inverse {f : α → Except ε β} {g : β → α} {Q : β → Prop}
    (h : ∀ a b, f a = .ok b ↔ a = g b ∧ Q b) {as : List α} {bs : List β} :
    collect f as = .ok bs ↔ as = bs.map g ∧ ∀ b ∈ bs, Q b := by
  have hreads : ∀ a b, f a = .ok b ↔ ∃ c, a = g c ∧ (c = b ∧ Q b) := by
    intro a b
    rw [h]
    constructor
    · exact fun ⟨ha, hb⟩ => ⟨b, ha, rfl, hb⟩
    · rintro ⟨_, ha, rfl, hb⟩
      exact ⟨ha, hb⟩
  rw [collect_eq_ok_of_reads hreads]
  constructor
  · rintro ⟨cs, rfl, hall⟩
    induction hall with
    | nil => exact ⟨rfl, fun _ hb => absurd hb List.not_mem_nil⟩
    | cons hc _ ih =>
        obtain ⟨rfl, hb⟩ := hc
        exact ⟨congrArg (g _ :: ·) ih.1, List.forall_mem_cons.mpr ⟨hb, ih.2⟩⟩
  · rintro ⟨rfl, hall⟩
    exact ⟨bs, rfl, List.forall₂_same.mpr fun b hb => ⟨rfl, hall b hb⟩⟩

theorem exists_of_forall₂ {R : α → β → Prop} {as : List α} {bs : List β} (h : List.Forall₂ R as bs) :
    ∀ b ∈ bs, ∃ a ∈ as, R a b := by
  induction h with
  | nil => exact fun _ hb => absurd hb List.not_mem_nil
  | cons hr _ ih =>
      rintro b (_ | ⟨_, hb⟩)
      · exact ⟨_, List.mem_cons_self .., hr⟩
      · obtain ⟨a, ha, hr⟩ := ih b hb
        exact ⟨a, List.mem_cons_of_mem _ ha, hr⟩

theorem mem_of_collect_eq_ok {f : α → Except ε β} {as : List α} {bs : List β}
    (h : collect f as = .ok bs) {b : β} (hb : b ∈ bs) : ∃ a ∈ as, f a = .ok b :=
  exists_of_forall₂ (collect_eq_ok.mp h) b hb

theorem collect_eq_error {f : α → Except ε β} {as : List α} {e : ε} (h : collect f as = .error e) :
    ∃ a ∈ as, f a = .error e := by
  induction as with
  | nil => cases h
  | cons a as ih =>
      rcases bind_eq_error.mp h with ha | ⟨b, _, h⟩
      · exact ⟨a, List.mem_cons_self .., ha⟩
      · rcases bind_eq_error.mp h with has | ⟨bs, _, h⟩
        · obtain ⟨x, hx, he⟩ := ih has
          exact ⟨x, List.mem_cons_of_mem _ hx, he⟩
        · cases h

theorem exists_forall₂ {R : α → β → Prop} {as : List α} :
    (∃ bs, List.Forall₂ R as bs) ↔ ∀ a ∈ as, ∃ b, R a b := by
  induction as with
  | nil => simp
  | cons a as ih =>
      simp only [List.forall₂_cons_left_iff, List.forall_mem_cons, ← ih]
      constructor
      · rintro ⟨_, b, bs, hb, hbs, _⟩
        exact ⟨⟨b, hb⟩, bs, hbs⟩
      · rintro ⟨⟨b, hb⟩, bs, hbs⟩
        exact ⟨b :: bs, b, bs, hb, hbs, rfl⟩

theorem exists_collect_eq_ok {f : α → Except ε β} {as : List α} :
    (∃ bs, collect f as = .ok bs) ↔ ∀ a ∈ as, ∃ b, f a = .ok b := by
  simp only [collect_eq_ok, exists_forall₂]

end LocalDevProxy.Lib.Fallible
