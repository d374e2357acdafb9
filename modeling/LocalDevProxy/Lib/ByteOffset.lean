import LocalDevProxy.Lib.Utf8

namespace LocalDevProxy.Lib.ByteOffset

open Utf8

def byteLength (text : List Char) : Nat := (encode text).length

/-- The text in the first bytes and the text after them, if no character is cut in two. -/
def splitAtByte : List Char → Nat → Option (List Char × List Char)
  | text, 0 => some ([], text)
  | [], _ + 1 => none
  | c :: text, n + 1 =>
      if c.utf8Size ≤ n + 1 then
        (splitAtByte text (n + 1 - c.utf8Size)).map fun parts => (c :: parts.1, parts.2)
      else none

def isCharBoundary (text : List Char) (n : Nat) : Bool := (splitAtByte text n).isSome

def rfind (c : Char) : List Char → Option Nat
  | [] => none
  | d :: text => ((rfind c text).map (d.utf8Size + ·)).or (if d = c then some 0 else none)

theorem byteLength_nil : byteLength [] = 0 := rfl

theorem byteLength_cons (c : Char) (text : List Char) : byteLength (c :: text) = c.utf8Size + byteLength text := by
  rw [byteLength, encode, List.flatMap_cons, List.length_append, String.length_utf8EncodeChar]
  rfl

theorem byteLength_append (text more : List Char) : byteLength (text ++ more) = byteLength text + byteLength more := by
  rw [byteLength, encode, List.flatMap_append, List.length_append]
  rfl

theorem byteLength_toList (text : String) : byteLength text.toList = text.utf8ByteSize := by
  rw [byteLength, ← data_toByteArray]
  rfl

theorem splitAtByte_append (before after : List Char) :
    splitAtByte (before ++ after) (byteLength before) = some (before, after) := by
  induction before with
  | nil => rw [byteLength_nil, List.nil_append, splitAtByte]
  | cons c before ih =>
      have hpos := c.utf8Size_pos
      obtain ⟨n, hn⟩ := Nat.exists_eq_add_of_lt hpos
      have hlength : byteLength (c :: before) = n + byteLength before + 1 := by
        rw [byteLength_cons]
        omega
      have hrest : n + byteLength before + 1 - c.utf8Size = byteLength before := by omega
      rw [hlength, List.cons_append, splitAtByte, if_pos (by omega), hrest, ih, Option.map_some]

theorem splitAtByte_some {text : List Char} {n : Nat} {before after : List Char}
    (h : splitAtByte text n = some (before, after)) : text = before ++ after ∧ byteLength before = n := by
  induction text generalizing n before with
  | nil =>
      cases n with
      | zero =>
          rw [splitAtByte] at h
          cases h
          exact ⟨rfl, rfl⟩
      | succ n => cases h
  | cons c text ih =>
      cases n with
      | zero =>
          rw [splitAtByte] at h
          cases h
          exact ⟨rfl, rfl⟩
      | succ n =>
          rw [splitAtByte] at h
          split at h
          · obtain ⟨⟨first, rest⟩, hsplit, hparts⟩ := Option.map_eq_some_iff.mp h
            cases hparts
            obtain ⟨rfl, hlength⟩ := ih hsplit
            refine ⟨rfl, ?_⟩
            rw [byteLength_cons, hlength]
            omega
          · cases h

theorem isCharBoundary_iff {text : List Char} {n : Nat} :
    isCharBoundary text n = true ↔ ∃ before after, text = before ++ after ∧ byteLength before = n := by
  rw [isCharBoundary, Option.isSome_iff_exists]
  constructor
  · rintro ⟨⟨before, after⟩, h⟩
    exact ⟨before, after, splitAtByte_some h⟩
  · rintro ⟨before, after, rfl, rfl⟩
    exact ⟨_, splitAtByte_append before after⟩

/-- A cut that is after the beginning of a character is not before its end. -/
theorem cut_inside {before after before' after' : List Char} {c : Char}
    (h : before ++ c :: after = before' ++ after') (hlow : byteLength before < byteLength before') :
    byteLength before + c.utf8Size ≤ byteLength before' := by
  rcases List.append_eq_append_iff.mp h with ⟨part, rfl, hpart⟩ | ⟨part, rfl, hpart⟩
  · cases part with
    | nil =>
        rw [List.append_nil] at hlow
        exact absurd hlow (Nat.lt_irrefl _)
    | cons d part =>
        obtain ⟨rfl, _⟩ := List.cons.inj hpart
        rw [byteLength_append, byteLength_cons]
        omega
  · rw [byteLength_append] at hlow
    omega

theorem rfind_none {c : Char} {text : List Char} (h : rfind c text = none) : c ∉ text := by
  induction text with
  | nil => exact List.not_mem_nil
  | cons d text ih =>
      rw [rfind, Option.or_eq_none_iff, Option.map_eq_none_iff] at h
      have hd : d ≠ c := fun he => by
        rw [if_pos he] at h
        cases h.2
      exact List.not_mem_cons_of_ne_of_not_mem (Ne.symm hd) (ih h.1)

/-- Nothing like the character found comes after it. -/
theorem rfind_some {c : Char} {text : List Char} {i : Nat} (h : rfind c text = some i) :
    ∃ before after, text = before ++ c :: after ∧ byteLength before = i ∧ c ∉ after := by
  induction text generalizing i with
  | nil => cases h
  | cons d text ih =>
      rw [rfind] at h
      cases hfound : rfind c text with
      | none =>
          rw [hfound, Option.map_none, Option.none_or] at h
          split at h
          · rename_i hd
            cases h
            exact ⟨[], text, by rw [hd]; rfl, rfl, rfind_none hfound⟩
          · cases h
      | some j =>
          rw [hfound, Option.map_some, Option.some_or] at h
          obtain ⟨before, after, rfl, hlength, hafter⟩ := ih hfound
          refine ⟨d :: before, after, rfl, ?_, hafter⟩
          rw [byteLength_cons, hlength]
          exact Option.some.inj h

end LocalDevProxy.Lib.ByteOffset
