import Mathlib.Data.List.Basic
import Mathlib.Data.List.Perm.Basic

namespace LocalDevProxy.Lib.OrderedUnion

variable {α : Type} [BEq α]

/-- Each element of a list once, in the order in which the list first has them. -/
structure FirstSeen (all kept : List α) : Prop where
  mem : ∀ a, a ∈ kept ↔ a ∈ all
  ordered : kept.Pairwise fun a b => all.idxOf a < all.idxOf b

variable {all more kept kept' : List α}

theorem FirstSeen.nodup (h : FirstSeen all kept) : kept.Nodup := by
  refine h.ordered.imp fun hlt he => ?_
  rw [he] at hlt
  exact Nat.lt_irrefl _ hlt

theorem FirstSeen.eq_nil_iff (h : FirstSeen all kept) : kept = [] ↔ all = [] := by
  simp only [List.eq_nil_iff_forall_not_mem, h.mem]

theorem firstSeen_nil : FirstSeen ([] : List α) [] := ⟨fun _ => Iff.rfl, List.Pairwise.nil⟩

theorem FirstSeen.unique (h : FirstSeen all kept) (h' : FirstSeen all kept') : kept = kept' := by
  have hperm : kept.Perm kept' := (List.perm_ext_iff_of_nodup h.nodup h'.nodup).mpr fun a =>
    (h.mem a).trans (h'.mem a).symm
  exact hperm.eq_of_pairwise (fun a b _ _ hab hba => absurd hab (Nat.lt_asymm hba)) h.ordered h'.ordered

variable [LawfulBEq α]

/-- What passes a filter is in the order in which it was. -/
theorem idxOf_lt_of_filter {p : α → Bool} {a b : α} (ha : p a = true) (hb : p b = true)
    (h : (all.filter p).idxOf a < (all.filter p).idxOf b) : all.idxOf a < all.idxOf b := by
  induction all with
  | nil => exact h
  | cons c all ih =>
      by_cases hc : p c = true
      · rw [List.filter_cons_of_pos hc] at h
        by_cases hca : c = a
        · rw [hca, List.idxOf_cons_self] at h ⊢
          have hab : a ≠ b := fun he => by
            rw [he, List.idxOf_cons_self] at h
            exact Nat.lt_irrefl _ h
          rw [List.idxOf_cons_ne _ hab]
          exact Nat.succ_pos _
        · by_cases hcb : c = b
          · rw [hcb, List.idxOf_cons_self] at h
            exact absurd h (Nat.not_lt_zero _)
          · rw [List.idxOf_cons_ne _ hca, List.idxOf_cons_ne _ hcb] at h ⊢
            exact Nat.succ_lt_succ (ih (Nat.lt_of_succ_lt_succ h))
      · have hca : c ≠ a := fun he => hc (he ▸ ha)
        have hcb : c ≠ b := fun he => hc (he ▸ hb)
        rw [List.filter_cons_of_neg hc] at h
        rw [List.idxOf_cons_ne _ hca, List.idxOf_cons_ne _ hcb]
        exact Nat.succ_lt_succ (ih h)

theorem FirstSeen.cons {a : α} (h : FirstSeen (all.filter fun b => !b == a) kept) :
    FirstSeen (a :: all) (a :: kept) := by
  have hkept : ∀ b, b ∈ kept ↔ b ∈ all ∧ b ≠ a := by
    intro b
    rw [h.mem, List.mem_filter, Bool.not_eq_true', beq_eq_false_iff_ne]
  have hother : ∀ b ∈ kept, (a :: all).idxOf b = all.idxOf b + 1 := fun b hb =>
    List.idxOf_cons_ne _ ((hkept b).mp hb).2.symm
  have hpass : ∀ b ∈ kept, (!b == a) = true := fun b hb => (List.mem_filter.mp ((h.mem b).mp hb)).2
  refine ⟨fun b => ?_, List.pairwise_cons.mpr ⟨fun b hb => ?_, ?_⟩⟩
  · by_cases hba : b = a
    · simp only [hba, List.mem_cons, true_or]
    · simp only [List.mem_cons, hkept, hba, false_or, ne_eq, not_false_eq_true, and_true]
  · rw [List.idxOf_cons_self, hother b hb]
    exact Nat.succ_pos _
  · refine h.ordered.imp_of_mem fun hb hc hlt => ?_
    rw [hother _ hb, hother _ hc]
    exact Nat.succ_lt_succ (idxOf_lt_of_filter (hpass _ hb) (hpass _ hc) hlt)

theorem firstSeen_eraseDups (all : List α) : FirstSeen all all.eraseDups := by
  induction hn : all.length using Nat.strongRecOn generalizing all with
  | ind n ih =>
      subst hn
      cases all with
      | nil => exact firstSeen_nil
      | cons a all =>
          rw [List.eraseDups_cons]
          exact (ih _ (Nat.lt_succ_of_le (List.length_filter_le _ _)) _ rfl).cons

theorem firstSeen_self (h : kept.Nodup) : FirstSeen kept kept := by
  induction kept with
  | nil => exact firstSeen_nil
  | cons a kept ih =>
      obtain ⟨ha, hkept⟩ := List.nodup_cons.mp h
      have hfilter : kept.filter (fun b => !b == a) = kept := by
        refine List.filter_eq_self.mpr fun b hb => ?_
        rw [Bool.not_eq_true', beq_eq_false_iff_ne]
        rintro rfl
        exact ha hb
      refine FirstSeen.cons ?_
      rw [hfilter]
      exact ih hkept

/-- What was kept of a list that follows another is kept again after it. -/
theorem FirstSeen.again (h : FirstSeen (all ++ more) kept) : FirstSeen (all ++ kept) kept := by
  refine ⟨fun a => ?_, ?_⟩
  · rw [List.mem_append, or_iff_right_of_imp]
    exact fun ha => (h.mem a).mpr (List.mem_append_left _ ha)
  · refine (h.ordered.and (firstSeen_self h.nodup).ordered).imp fun {a b} hlt => ?_
    obtain ⟨hbefore, hlt⟩ := hlt
    rw [List.idxOf_append, List.idxOf_append] at hbefore ⊢
    by_cases ha : a ∈ all
    · have hlength := List.idxOf_lt_length_of_mem ha
      rw [if_pos ha] at hbefore ⊢
      split
      · rename_i hb
        rwa [if_pos hb] at hbefore
      · omega
    · rw [if_neg ha] at hbefore ⊢
      split
      · rename_i hb
        have hlength := List.idxOf_lt_length_of_mem hb
        rw [if_pos hb] at hbefore
        omega
      · exact Nat.add_lt_add_right hlt _

end LocalDevProxy.Lib.OrderedUnion
