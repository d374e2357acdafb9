import Mathlib.Data.List.Basic

namespace LocalDevProxy.Lib.Separated

variable {α β : Type}

theorem mem_intercalate {sep x : α} (hx : x ≠ sep) (parts : List (List α)) :
    x ∈ [sep].intercalate parts ↔ ∃ part ∈ parts, x ∈ part := by
  induction parts with
  | nil => simp
  | cons part parts ih =>
      cases parts with
      | nil => simp
      | cons next parts =>
          rw [List.intercalate_cons_cons, List.append_assoc, List.mem_append, List.singleton_append,
            List.mem_cons, or_iff_right hx, ih]
          simp only [List.mem_cons, exists_eq_or_imp]

theorem flatMap_intercalate {f : α → List β} {sep : α} {sep' : β} (hsep : f sep = [sep'])
    (parts : List (List α)) :
    ([sep].intercalate parts).flatMap f = [sep'].intercalate (parts.map (List.flatMap f)) := by
  induction parts with
  | nil => rfl
  | cons part parts ih =>
      cases parts with
      | nil => simp
      | cons next parts =>
          rw [List.intercalate_cons_cons, List.flatMap_append, List.flatMap_append, ih, List.flatMap_singleton,
            hsep, List.map_cons, List.map_cons, List.map_cons, List.intercalate_cons_cons]

theorem eraseDups_map [BEq α] [LawfulBEq α] [BEq β] [LawfulBEq β] {f : α → β} (hf : Function.Injective f)
    (xs : List α) : (xs.map f).eraseDups = xs.eraseDups.map f := by
  induction hn : xs.length using Nat.strongRecOn generalizing xs with
  | ind n ih =>
      cases xs with
      | nil => rfl
      | cons x xs =>
          have hfilter : (xs.map f).filter (fun y => !y == f x) = (xs.filter fun y => !y == x).map f := by
            rw [List.filter_map]
            refine congrArg _ (List.filter_congr fun y _ => ?_)
            rw [Bool.eq_iff_iff]
            simp [hf.eq_iff]
          have hshort : (xs.filter fun y => !y == x).length < n := by
            rw [← hn]
            exact Nat.lt_succ_of_le (List.length_filter_le ..)
          rw [List.map_cons, List.eraseDups_cons, hfilter, ih _ hshort _ rfl, List.eraseDups_cons, List.map_cons]

variable [DecidableEq α] [DecidableEq β]

/-- The parts of a list between separators that are not empty. -/
def entries (sep : α) (text : List α) : List (List α) := (text.splitOn sep).filter (· ≠ [])

theorem entries_nil (sep : α) : entries sep [] = [] := rfl

/-- An element that is no separator is in one of the entries. -/
theorem mem_iff_entries {sep x : α} (hx : x ≠ sep) (text : List α) :
    x ∈ text ↔ ∃ entry ∈ entries sep text, x ∈ entry := by
  have hwhole : [sep].intercalate (text.splitOn sep) = text := List.intercalate_splitOn sep
  conv_lhs => rw [← hwhole]
  rw [mem_intercalate hx]
  refine exists_congr fun entry => ?_
  rw [entries, List.mem_filter, decide_eq_true_eq, and_assoc]
  exact and_congr_right fun _ => (and_iff_right_of_imp List.ne_nil_of_mem).symm

theorem not_mem_splitOn (sep : α) (text : List α) : ∀ part ∈ text.splitOn sep, sep ∉ part := by
  induction text with
  | nil => simp
  | cons c text ih =>
      rw [List.splitOn_cons_eq_if_modifyHead]
      split
      · rw [List.forall_mem_cons]
        exact ⟨List.not_mem_nil, ih⟩
      · rename_i hc
        obtain ⟨first, rest, hsplit⟩ := List.exists_cons_of_ne_nil (List.splitOn_ne_nil sep text)
        rw [hsplit, List.forall_mem_cons] at ih
        rw [hsplit, List.modifyHead_cons, List.forall_mem_cons, List.mem_cons, not_or]
        exact ⟨⟨fun he => hc (beq_iff_eq.mpr he.symm), ih.1⟩, ih.2⟩

theorem entries_proper {sep : α} {text entry : List α} (h : entry ∈ entries sep text) :
    entry ≠ [] ∧ sep ∉ entry := by
  rw [entries, List.mem_filter, decide_eq_true_eq] at h
  exact ⟨h.2, not_mem_splitOn sep text entry h.1⟩

theorem entries_eq_nil {sep : α} {text : List α} : entries sep text = [] ↔ ∀ x ∈ text, x = sep := by
  constructor
  · intro hnone x hx
    by_contra hne
    obtain ⟨entry, hentry, _⟩ := (mem_iff_entries hne text).mp hx
    rw [hnone] at hentry
    cases hentry
  · intro hall
    refine List.eq_nil_iff_forall_not_mem.mpr fun entry hentry => ?_
    obtain ⟨hempty, hproper⟩ := entries_proper hentry
    obtain ⟨x, hx⟩ := List.exists_mem_of_ne_nil _ hempty
    have hne : x ≠ sep := fun he => hproper (he ▸ hx)
    exact hne (hall x ((mem_iff_entries hne text).mpr ⟨entry, hentry, hx⟩))

/-- Entries that are joined are read back. -/
theorem entries_intercalate {sep : α} {parts : List (List α)} (h : ∀ part ∈ parts, part ≠ [] ∧ sep ∉ part) :
    entries sep ([sep].intercalate parts) = parts := by
  by_cases hparts : parts = []
  · rw [hparts, List.intercalate_nil, entries_nil]
  · rw [entries, List.splitOn_intercalate sep (fun part hpart => (h part hpart).2) hparts]
    exact List.filter_eq_self.mpr fun part hpart => decide_eq_true (h part hpart).1

/-- An encoding that keeps the separator apart from everything else keeps the entries. -/
theorem entries_flatMap {f : α → List β} {sep : α} {sep' : β} (hsep : f sep = [sep'])
    (hother : ∀ a, a ≠ sep → sep' ∉ f a ∧ f a ≠ []) (text : List α) :
    entries sep' (text.flatMap f) = (entries sep text).map (List.flatMap f) := by
  have hparts : ∀ part ∈ (text.splitOn sep).map (List.flatMap f), sep' ∉ part := by
    intro part hpart
    obtain ⟨source, hsource, rfl⟩ := List.mem_map.mp hpart
    rw [List.mem_flatMap]
    rintro ⟨a, ha, hmem⟩
    refine (hother a ?_).1 hmem
    rintro rfl
    exact not_mem_splitOn a text source hsource ha
  have hne : (text.splitOn sep).map (List.flatMap f) ≠ [] := by
    rw [Ne, List.map_eq_nil_iff]
    exact List.splitOn_ne_nil sep text
  have hempty : ∀ part : List α, part.flatMap f = [] ↔ part = [] := by
    intro part
    rw [List.flatMap_eq_nil_iff]
    refine ⟨fun hall => ?_, fun hpart => by rw [hpart]; exact fun _ ha => absurd ha List.not_mem_nil⟩
    refine List.eq_nil_iff_forall_not_mem.mpr fun a ha => ?_
    by_cases has : a = sep
    · rw [has] at ha
      exact List.cons_ne_nil _ _ (hsep.symm.trans (hall sep ha))
    · exact (hother a has).2 (hall a ha)
  have hwhole : [sep].intercalate (text.splitOn sep) = text := List.intercalate_splitOn sep
  conv_lhs => rw [← hwhole, flatMap_intercalate hsep]
  rw [entries, List.splitOn_intercalate sep' hparts hne, List.filter_map, entries]
  refine congrArg _ (List.filter_congr fun part _ => ?_)
  rw [Function.comp_apply, decide_eq_decide, Ne, hempty]

end LocalDevProxy.Lib.Separated
