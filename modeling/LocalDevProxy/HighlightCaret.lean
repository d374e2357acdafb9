import LocalDevProxy.HighlightCover
import Mathlib.Data.Prod.Lex

namespace LocalDevProxy.HighlightCaret

open Lib.ByteOffset Lib.Fallible Lib.Tiling Text Highlight HighlightSteps HighlightCover

/-- The bytes before an offset are the characters of the first part, and not all
of the next character. -/
structure CutsAt (before after : List Char) (offset : Nat) : Prop where
  low : byteLength before ≤ offset
  high : ∀ c ∈ after.head?, offset < byteLength before + c.utf8Size

variable {text before after before' after' : List Char} {offset offset' : Nat}

theorem exists_cut (text : List Char) (offset : Nat) :
    ∃ before after, text = before ++ after ∧ CutsAt before after offset := by
  induction text generalizing offset with
  | nil => exact ⟨[], [], rfl, Nat.zero_le _, fun c hc => by cases hc⟩
  | cons c text ih =>
      by_cases hc : offset < c.utf8Size
      · refine ⟨[], c :: text, rfl, Nat.zero_le _, fun d hd => ?_⟩
        obtain rfl := Option.some.inj hd
        rw [byteLength_nil]
        omega
      · obtain ⟨before, after, rfl, hlow, hhigh⟩ := ih (offset - c.utf8Size)
        refine ⟨c :: before, after, rfl, ?_, fun d hd => ?_⟩
        · rw [byteLength_cons]
          omega
        · have hd := hhigh d hd
          rw [byteLength_cons]
          omega

/-- A larger offset cuts no earlier. -/
theorem CutsAt.mono (h : CutsAt before after offset) (h' : CutsAt before' after' offset') (hle : offset ≤ offset')
    (htext : before ++ after = before' ++ after') : before <+: before' := by
  rcases List.append_eq_append_iff.mp htext with ⟨part, rfl, _⟩ | ⟨part, rfl, hafter⟩
  · exact List.prefix_append _ _
  · cases part with
    | nil => simp only [List.append_nil, List.prefix_refl]
    | cons c part =>
        have hhigh := h'.high c (by rw [hafter]; rfl)
        have hlow := h.low
        rw [byteLength_append, byteLength_cons] at hlow
        omega

theorem floorCharBoundary_eq {k m : Nat} (hk : isCharBoundary text k = true) (hle : k ≤ m)
    (hnone : ∀ j, k < j → j ≤ m → ¬ isCharBoundary text j = true) : floorCharBoundary text m = k := by
  induction m with
  | zero => exact (Nat.le_zero.mp hle).symm
  | succ m ih =>
      rw [floorCharBoundary]
      rcases Nat.lt_or_eq_of_le hle with hlt | rfl
      · rw [if_neg (hnone (m + 1) hlt (Nat.le_refl _))]
        exact ih (Nat.le_of_lt_succ hlt) fun j hj hjm => hnone j hj (Nat.le_succ_of_le hjm)
      · rw [if_pos hk]

/-- The loop goes back to the beginning of the character that the offset is in. -/
theorem CutsAt.floor (h : CutsAt before after offset) :
    floorCharBoundary (before ++ after) (min offset (byteLength (before ++ after))) = byteLength before := by
  have hlow := h.low
  rw [byteLength_append]
  refine floorCharBoundary_eq (isCharBoundary_iff.mpr ⟨before, after, rfl, rfl⟩) (by omega) ?_
  intro j hj hle hboundary
  obtain ⟨first, rest, hsplit, rfl⟩ := isCharBoundary_iff.mp hboundary
  cases after with
  | nil =>
      rw [byteLength_nil] at hle
      omega
  | cons c after =>
      have hinside := cut_inside hsplit hj
      have hhigh := h.high c rfl
      omega

theorem CutsAt.atEnd (h : CutsAt before after offset) (hend : byteLength (before ++ after) ≤ offset) : after = [] := by
  cases after with
  | nil => rfl
  | cons c after =>
      have hhigh := h.high c rfl
      rw [byteLength_append, byteLength_cons] at hend
      omega

theorem sliceAt_append (before after : List Char) :
    sliceAt (before ++ after) (byteLength before) = .ok (before, after) := by
  rw [sliceAt, splitAtByte_append]

/-- The characters after the last newline, which are counted for the column. -/
theorem exists_row (before : List Char) : ∃ whole row, before = whole ++ row ∧
    ((rfind '\n' before).map (· + 1)).getD 0 = byteLength whole ∧
    placeAfter (0, 0) before = (before.count '\n', row.length) := by
  cases hfound : rfind '\n' before with
  | none =>
      have hline := rfind_none hfound
      refine ⟨[], before, rfl, rfl, ?_⟩
      rw [placeAfter_line _ hline, List.count_eq_zero_of_not_mem hline, Nat.zero_add]
  | some i =>
      obtain ⟨whole, row, rfl, rfl, hline⟩ := rfind_some hfound
      refine ⟨whole ++ ['\n'], row, by simp, ?_, ?_⟩
      · rw [byteLength_append]
        rfl
      · have hcount := placeAfter_line_count (0, 0) (whole ++ '\n' :: row)
        rw [Nat.zero_add] at hcount
        refine Prod.ext hcount ?_
        rw [placeAfter_append, placeAfter_cons, advance_newline, placeAfter_line _ hline, Nat.zero_add]

theorem position_eq {text : String} (htext : text.toList = before ++ after) (h : CutsAt before after offset) :
    position text offset = .ok (placeAfter (0, 0) before) := by
  obtain ⟨whole, row, hbefore, hstart, hplace⟩ := exists_row before
  have hrow : sliceAt before (byteLength whole) = .ok (whole, row) := by
    rw [hbefore]
    exact sliceAt_append whole row
  rw [position, ← byteLength_toList, htext, h.floor, sliceAt_append]
  simp only [bind, Except.bind, hstart, hrow, hplace]

def Contains (text : String) (before : List Char) (offset : Nat) : Prop :=
  ∃ c after, text.toList = before ++ c :: after ∧ byteLength before ≤ offset ∧
    offset < byteLength before + c.utf8Size

def StartsAt (text : String) (t : Token) (before : List Char) : Prop :=
  (∃ after, text.toList = before ++ (t.text.toList ++ after)) ∧
    (Lexer.new text).positions[before.length]? = some (t.line, t.column)

/-- Offsets are placed where the lexer places the characters that they are in. -/
structure SharesGrid (text : String) (tokens : List Token) (place : Nat → Place) : Prop where
  inside : ∀ before offset, Contains text before offset →
    (Lexer.new text).positions[before.length]? = some (place offset)
  contained : ∀ offset, offset < text.utf8ByteSize → ∃ before, Contains text before offset
  atEnd : ∀ offset, text.utf8ByteSize ≤ offset → place offset = placeAfter (0, 0) text.toList
  token : ∀ t ∈ tokens, ∃! before, StartsAt text t before
  start : ∀ t ∈ tokens, ∀ before, StartsAt text t before → place (byteLength before) = (t.line, t.column)
  ordered : Monotone fun offset => toLex (place offset)

variable {text : String}

theorem positions_at {c : Char} (htext : text.toList = before ++ c :: after) :
    (Lexer.new text).positions[before.length]? = some (placeAfter (0, 0) before) := by
  rw [Lexer.new, htext]
  exact positionsFrom_split 0 0 before c after

theorem Contains.cut (h : Contains text before offset) : ∃ after, text.toList = before ++ after ∧
    CutsAt before after offset ∧ (Lexer.new text).positions[before.length]? = some (placeAfter (0, 0) before) := by
  obtain ⟨c, after, htext, hlow, hhigh⟩ := h
  refine ⟨c :: after, htext, ⟨hlow, fun d hd => ?_⟩, positions_at htext⟩
  obtain rfl := Option.some.inj hd
  exact hhigh

theorem exists_contains (h : offset < text.utf8ByteSize) : ∃ before, Contains text before offset := by
  obtain ⟨before, after, htext, hcut⟩ := exists_cut text.toList offset
  cases after with
  | nil =>
      have hlow := hcut.low
      rw [← byteLength_toList, htext, List.append_nil] at h
      omega
  | cons c after => exact ⟨before, c, after, htext, hcut.low, hcut.high c rfl⟩

theorem exists_first {t : Token} (ht : t.text ≠ "") : ∃ c rest, t.text.toList = c :: rest :=
  List.exists_cons_of_ne_nil fun he => ht (String.toList_eq_nil_iff.mp he)

/-- The token's text begins with a character that begins at an offset of its own. -/
theorem StartsAt.contains {t : Token} (ht : t.text ≠ "") (h : StartsAt text t before) :
    Contains text before (byteLength before) := by
  obtain ⟨⟨after, htext⟩, _⟩ := h
  obtain ⟨c, rest, hrest⟩ := exists_first ht
  have hpos := c.utf8Size_pos
  refine ⟨c, rest ++ after, ?_, Nat.le_refl _, by omega⟩
  rw [htext, hrest, List.cons_append]

/-- Characters with different ones before them are at different places. -/
theorem eq_of_placeAfter {c c' : Char} (h : before ++ c :: after = before' ++ c' :: after')
    (hplace : placeAfter (0, 0) before = placeAfter (0, 0) before') : before = before' := by
  rcases List.append_eq_append_iff.mp h with ⟨part, rfl, _⟩ | ⟨part, rfl, _⟩
  · cases part with
    | nil => exact (List.append_nil before).symm
    | cons d part =>
        rw [placeAfter_append] at hplace
        exact absurd hplace.symm (placeAfter_ne _ d part)
  · cases part with
    | nil => exact List.append_nil before'
    | cons d part =>
        rw [placeAfter_append] at hplace
        exact absurd hplace (placeAfter_ne _ d part)

theorem Contains.unique (h : Contains text before offset) (h' : Contains text before' offset')
    (hsame : (Lexer.new text).positions[before.length]? = (Lexer.new text).positions[before'.length]?) :
    before = before' := by
  obtain ⟨c, after, htext, _⟩ := h
  obtain ⟨c', after', htext', _⟩ := h'
  rw [positions_at htext, positions_at htext'] at hsame
  exact eq_of_placeAfter (htext.symm.trans htext') (Option.some.inj hsame)

theorem startsAt_of_append {t : Token} (ht : t.text ≠ "") (htext : text.toList = before ++ (t.text.toList ++ after))
    (hplace : (t.line, t.column) = placeAfter (0, 0) before) : StartsAt text t before := by
  obtain ⟨c, rest, hrest⟩ := exists_first ht
  refine ⟨⟨after, htext⟩, ?_⟩
  rw [hrest, List.cons_append] at htext
  rw [positions_at htext, hplace]

theorem StartsAt.unique {t : Token} (ht : t.text ≠ "") (h : StartsAt text t before) (h' : StartsAt text t before') :
    before = before' :=
  (h.contains ht).unique (h'.contains ht) (h.2.trans h'.2.symm)

/-- The position of an offset is where the lexer puts the character that the offset
is in, or the end of the text. Tokens begin there, and a larger offset is never before. -/
theorem position_shares_grid (text : String) : ∃ tokens place, tokenize text = .ok tokens ∧
    (∀ offset, position text offset = .ok (place offset)) ∧ SharesGrid text tokens place := by
  choose before after htext hcut using exists_cut text.toList
  obtain ⟨lx, hmoves, hend⟩ := exists_moves (new_sound text)
  obtain ⟨hpainted, htokens, htiles⟩ := tokenize_of_moves hmoves hend
  have hinside : ∀ part offset, Contains text part offset →
      (Lexer.new text).positions[part.length]? = some (placeAfter (0, 0) (before offset)) := by
    intro part offset hcontains
    obtain ⟨rest, htext', hcut', hat⟩ := hcontains.cut
    have hposition := position_eq htext' hcut'
    rw [position_eq (htext offset) (hcut offset)] at hposition
    rw [hat, Except.ok.inj hposition]
  have hfilled : ∀ t ∈ lx.tokens, t.text ≠ "" := by
    intro t ht he
    refine (htiles.trimmed (piece t) (List.mem_map_of_mem ht)).nonempty ?_
    rw [piece, he]
    rfl
  refine ⟨lx.tokens, fun offset => placeAfter (0, 0) (before offset), htokens,
    fun offset => position_eq (htext offset) (hcut offset), hinside, fun offset => exists_contains,
    fun offset hoffset => ?_, fun t ht => ?_, fun t ht part hstarts => ?_, fun n m hle => ?_⟩
  · have hend := (hcut offset).atEnd (by rwa [← htext offset, byteLength_toList])
    rw [htext offset, hend, List.append_nil]
  · obtain ⟨part, rest, hpart, hplace⟩ := htiles.occurs (piece t) (List.mem_map_of_mem ht)
    rw [hpainted] at hpart
    have hstarts := startsAt_of_append (hfilled t ht) hpart hplace
    exact ⟨part, hstarts, fun other hother => hother.unique (hfilled t ht) hstarts⟩
  · have hat := hinside part _ (hstarts.contains (hfilled t ht))
    rw [hstarts.2] at hat
    exact (Option.some.inj hat).symm
  · obtain ⟨part, hpart⟩ := (hcut n).mono (hcut m) hle ((htext n).symm.trans (htext m))
    rw [Prod.Lex.toLex_le_toLex, ← hpart, placeAfter_append]
    exact le_placeAfter _ part

end LocalDevProxy.HighlightCaret
