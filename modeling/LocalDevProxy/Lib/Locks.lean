import Mathlib.Logic.Function.Basic

namespace LocalDevProxy.Lib.Locks

variable {ι : Type} {inside inside' : ι → Prop} {lock : Option ι} {i k : ι}

/-- The party that a lock is held by is the one that is where the lock is needed. -/
def Held (inside : ι → Prop) (lock : Option ι) : Prop := ∀ i, inside i ↔ lock = some i

theorem Held.exclusive (h : Held inside lock) (hi : inside i) (hk : inside k) : i = k := by
  have hlock := (h k).mp hk
  rw [(h i).mp hi] at hlock
  exact Option.some.inj hlock

theorem Held.keep (h : Held inside lock) (hsame : ∀ k, inside' k ↔ inside k) : Held inside' lock :=
  fun k => (hsame k).trans (h k)

theorem Held.take (h : Held inside none) (hi : inside' i) (hothers : ∀ k, k ≠ i → (inside' k ↔ inside k)) :
    Held inside' (some i) := by
  intro k
  by_cases hk : k = i
  · subst hk
    exact iff_of_true hi rfl
  · refine iff_of_false (fun hin => ?_) (fun hlock => hk (Option.some.inj hlock).symm)
    cases (h k).mp ((hothers k hk).mp hin)

theorem Held.release (h : Held inside lock) (hi : inside i) (hout : ¬ inside' i)
    (hothers : ∀ k, k ≠ i → (inside' k ↔ inside k)) : Held inside' none := by
  intro k
  refine iff_of_false (fun hin => ?_) nofun
  by_cases hk : k = i
  · subst hk
    exact hout hin
  · exact hk (h.exclusive ((hothers k hk).mp hin) hi)

end LocalDevProxy.Lib.Locks
