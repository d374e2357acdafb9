import Mathlib.Data.List.DropRight
import Mathlib.Data.List.Induction
import Mathlib.Data.List.TakeWhile

namespace LocalDevProxy.Lib.Tiling

/-- A line and a column, both from zero. -/
abbrev Place := Nat × Nat

def advance (p : Place) (c : Char) : Place := if c = '\n' then (p.1 + 1, 0) else (p.1, p.2 + 1)

def placeAfter (p : Place) (text : List Char) : Place := text.foldl advance p

def charAt (text : List Char) (p : Place) : Option Char :=
  (text.splitOn '\n')[p.1]?.bind fun row => row[p.2]?

/-- A run of characters on one line that has a label. -/
structure Piece (κ : Type) where
  place : Place
  text : List Char
  label : κ

variable {κ : Type}

def Piece.Holds (piece : Piece κ) (p : Place) : Prop :=
  p.1 = piece.place.1 ∧ piece.place.2 ≤ p.2 ∧ p.2 < piece.place.2 + piece.text.length

instance (piece : Piece κ) (p : Place) : Decidable (piece.Holds p) :=
  inferInstanceAs (Decidable (_ ∧ _))

def Piece.Precedes (piece other : Piece κ) : Prop :=
  piece.place.1 < other.place.1 ∨
    piece.place.1 = other.place.1 ∧ piece.place.2 + piece.text.length ≤ other.place.2

structure Piece.Trimmed (blank : Char → Bool) (piece : Piece κ) : Prop where
  nonempty : piece.text ≠ []
  oneLine : '\n' ∉ piece.text
  first : ∀ c, piece.text.head? = some c → blank c = false
  last : ∀ c, piece.text.getLast? = some c → blank c = false

/-- Pieces tile a text from a place on: the text is these pieces, in order, and
blanks. A character may have a label, which is then that of its piece. -/
inductive Tiles (blank : Char → Bool) : Place → List (Char × Option κ) → List (Piece κ) → Prop
  | done (p : Place) : Tiles blank p [] []
  | blank {p : Place} {c : Char} {k : Option κ} {text : List (Char × Option κ)} {pieces : List (Piece κ)}
      (hc : blank c = true) (h : Tiles blank (advance p c) text pieces) : Tiles blank p ((c, k) :: text) pieces
  | piece {p : Place} {run text : List (Char × Option κ)} {piece : Piece κ} {pieces : List (Piece κ)}
      (hplace : piece.place = p) (hrun : run.map Prod.fst = piece.text) (htrimmed : piece.Trimmed blank)
      (hlabel : ∀ c k, (c, some k) ∈ run → blank c = false → k = piece.label)
      (h : Tiles blank (placeAfter p piece.text) text pieces) : Tiles blank p (run ++ text) (piece :: pieces)

def trimLine (blank : Char → Bool) (label : κ) (p : Place) (line : List Char) : List (Piece κ) :=
  let kept := (line.dropWhile blank).rdropWhile blank
  if kept = [] then [] else [⟨(p.1, p.2 + (line.takeWhile blank).length), kept, label⟩]

def trimLines (blank : Char → Bool) (label : κ) : Place → List (List Char) → List (Piece κ)
  | _, [] => []
  | p, line :: lines => trimLine blank label p line ++ trimLines blank label (p.1 + 1, 0) lines

/-- A run of characters over several lines, cut into one piece for each line. -/
def cut (blank : Char → Bool) (label : κ) (p : Place) (run : List Char) : List (Piece κ) :=
  trimLines blank label p (run.splitOn '\n')

variable {blank : Char → Bool} {p q : Place} {text : List (Char × Option κ)} {pieces : List (Piece κ)}

@[simp] theorem placeAfter_nil (p : Place) : placeAfter p [] = p := rfl

@[simp] theorem placeAfter_cons (p : Place) (c : Char) (text : List Char) :
    placeAfter p (c :: text) = placeAfter (advance p c) text := rfl

@[simp] theorem placeAfter_append (p : Place) (text more : List Char) :
    placeAfter p (text ++ more) = placeAfter (placeAfter p text) more := List.foldl_append

@[simp] theorem advance_newline (p : Place) : advance p '\n' = (p.1 + 1, 0) := if_pos rfl

theorem advance_of_ne (p : Place) {c : Char} (hc : c ≠ '\n') : advance p c = (p.1, p.2 + 1) := if_neg hc

theorem placeAfter_line (p : Place) {line : List Char} (h : '\n' ∉ line) :
    placeAfter p line = (p.1, p.2 + line.length) := by
  induction line generalizing p with
  | nil => rfl
  | cons c line ih =>
      rw [List.mem_cons, not_or] at h
      rw [placeAfter_cons, advance_of_ne p (Ne.symm h.1), ih _ h.2, List.length_cons]
      exact Prod.ext rfl (by simp only; omega)

/-- Where a text ends, from where it ends when it begins at the top. -/
theorem placeAfter_eq (p : Place) (text : List Char) :
    placeAfter p text = (p.1 + (placeAfter (0, 0) text).1,
      if (placeAfter (0, 0) text).1 = 0 then p.2 + (placeAfter (0, 0) text).2 else (placeAfter (0, 0) text).2) := by
  induction text using List.reverseRecOn with
  | nil => simp
  | append_singleton text c ih =>
      rw [placeAfter_append, placeAfter_append, ih, placeAfter_cons, placeAfter_cons, placeAfter_nil,
        placeAfter_nil]
      by_cases hc : c = '\n'
      · subst hc
        rw [advance_newline, advance_newline]
        simp [Nat.add_assoc]
      · rw [advance_of_ne _ hc, advance_of_ne _ hc]
        split <;> simp [Nat.add_assoc]

theorem le_placeAfter (p : Place) (text : List Char) :
    p.1 < (placeAfter p text).1 ∨ p.1 = (placeAfter p text).1 ∧ p.2 ≤ (placeAfter p text).2 := by
  rw [placeAfter_eq p text]
  by_cases h : (placeAfter (0, 0) text).1 = 0
  · rw [if_pos h]
    exact .inr ⟨by omega, by omega⟩
  · exact .inl (by simp only; omega)

/-- No text but the empty one ends where it begins. -/
theorem placeAfter_ne (p : Place) (c : Char) (text : List Char) : placeAfter p (c :: text) ≠ p := by
  intro h
  have hle := le_placeAfter (advance p c) text
  rw [← placeAfter_cons, h, advance] at hle
  split at hle
  · simp only at hle
    omega
  · simp only at hle
    omega

theorem charAt_newline (text : List Char) (p : Place) : charAt ('\n' :: text) p =
    if p.1 = 0 then none else charAt text (p.1 - 1, p.2) := by
  rw [charAt, List.splitOn_eq_splitOnP, List.splitOnP_cons_eq_if_modifyHead, if_pos (by simp)]
  obtain ⟨_ | line, column⟩ := p
  · simp
  · simp [charAt, List.splitOn_eq_splitOnP]

theorem charAt_cons {c : Char} (hc : c ≠ '\n') (text : List Char) (p : Place) :
    charAt (c :: text) p = if p = (0, 0) then some c
      else charAt text (if p.1 = 0 then (0, p.2 - 1) else p) := by
  rw [charAt, List.splitOn_eq_splitOnP, List.splitOnP_cons_eq_if_modifyHead, if_neg (by simpa using hc)]
  obtain ⟨first, rest, hsplit⟩ := List.exists_cons_of_ne_nil (List.splitOnP_ne_nil (· == '\n') text)
  obtain ⟨_ | line, column⟩ := p
  · cases column <;> simp [charAt, List.splitOn_eq_splitOnP, hsplit]
  · simp [charAt, List.splitOn_eq_splitOnP, hsplit]

/-- Where a part of a text ends is the place of the character after it. -/
theorem charAt_placeAfter (text : List Char) {c : Char} (hc : c ≠ '\n') (rest : List Char) :
    charAt (text ++ c :: rest) (placeAfter (0, 0) text) = some c := by
  induction text with
  | nil => rw [List.nil_append, charAt_cons hc, placeAfter_nil, if_pos rfl]
  | cons d text ih =>
      rw [List.cons_append, placeAfter_cons, placeAfter_eq]
      by_cases hd : d = '\n'
      · subst hd
        rw [charAt_newline, advance_newline, if_neg (by simp), ← ih]
        refine congrArg _ (Prod.ext (by simp) ?_)
        simp only [Nat.zero_add]
        split <;> rfl
      · rw [charAt_cons hd, advance_of_ne _ hd, ← ih]
        by_cases hline : (placeAfter (0, 0) text).1 = 0
        · rw [if_pos hline, if_neg (by simp), if_pos (by simp [hline])]
          exact congrArg _ (Prod.ext hline.symm (by simp))
        · have hbelow : (0 : Nat) + (placeAfter (0, 0) text).1 ≠ 0 := by rwa [Nat.zero_add]
          rw [if_neg hline, if_neg (fun he => hbelow (congrArg Prod.fst he)), if_neg hbelow]
          exact congrArg _ (Prod.ext (by simp) rfl)

theorem exists_of_charAt {text : List Char} {p : Place} {c : Char} (h : charAt text p = some c) :
    ∃ part rest, text = part ++ c :: rest ∧ placeAfter (0, 0) part = p := by
  induction text generalizing p with
  | nil =>
      obtain ⟨_ | line, column⟩ := p <;> simp [charAt] at h
  | cons d text ih =>
      by_cases hd : d = '\n'
      · subst hd
        rw [charAt_newline] at h
        split at h
        · cases h
        · obtain ⟨part, rest, rfl, hplace⟩ := ih h
          refine ⟨'\n' :: part, rest, rfl, ?_⟩
          rw [placeAfter_cons, advance_newline, placeAfter_eq, hplace]
          refine Prod.ext (by simp only; omega) ?_
          simp only
          split <;> omega
      · rw [charAt_cons hd] at h
        split at h
        · rename_i hp
          cases h
          exact ⟨[], text, rfl, hp.symm⟩
        · rename_i hp
          obtain ⟨part, rest, rfl, hplace⟩ := ih h
          refine ⟨d :: part, rest, rfl, ?_⟩
          rw [placeAfter_cons, advance_of_ne _ hd, placeAfter_eq, hplace]
          by_cases hline : p.1 = 0
          · have hcolumn : p.2 ≠ 0 := fun he => hp (Prod.ext hline he)
            simp only [hline, reduceIte]
            exact Prod.ext hline.symm (by simp only; omega)
          · simp only [hline, reduceIte]
            exact Prod.ext (by simp) rfl

theorem Tiles.append {more : List (Char × Option κ)} {others : List (Piece κ)} (h : Tiles blank p text pieces)
    (hmore : Tiles blank (placeAfter p (text.map Prod.fst)) more others) :
    Tiles blank p (text ++ more) (pieces ++ others) := by
  induction h with
  | done p => exact hmore
  | blank hc _ ih => exact .blank hc (ih hmore)
  | @piece p run text piece pieces hplace hrun htrimmed hlabel _ ih =>
      rw [List.append_assoc]
      refine .piece hplace hrun htrimmed hlabel (ih ?_)
      rwa [List.map_append, hrun, placeAfter_append] at hmore

theorem Tiles.trimmed (h : Tiles blank p text pieces) : ∀ piece ∈ pieces, piece.Trimmed blank := by
  induction h with
  | done _ => exact fun _ hmem => absurd hmem List.not_mem_nil
  | blank _ _ ih => exact ih
  | piece _ _ htrimmed _ _ ih => exact List.forall_mem_cons.mpr ⟨htrimmed, ih⟩

/-- A piece is a part of the text, at its place. -/
theorem Tiles.occurs (h : Tiles blank p text pieces) : ∀ piece ∈ pieces, ∃ part rest,
    text.map Prod.fst = part ++ (piece.text ++ rest) ∧ piece.place = placeAfter p part := by
  induction h with
  | done p => exact fun piece hpiece => by cases hpiece
  | @blank p c k text pieces _ _ ih =>
      intro piece hpiece
      obtain ⟨part, rest, htext, hplace⟩ := ih piece hpiece
      exact ⟨c :: part, rest, congrArg (c :: ·) htext, hplace⟩
  | @piece p run text first pieces hplace hrun _ _ _ ih =>
      intro piece hpiece
      rw [List.map_append, hrun]
      rcases List.mem_cons.mp hpiece with rfl | hpiece
      · exact ⟨[], text.map Prod.fst, rfl, hplace⟩
      · obtain ⟨part, rest, htext, hat⟩ := ih piece hpiece
        refine ⟨first.text ++ part, rest, ?_, ?_⟩
        · rw [htext, List.append_assoc]
        · rw [hat, placeAfter_append]

/-- The pieces are where the text has their characters. -/
theorem Tiles.charAt (h : Tiles blank p text pieces) {before : List Char} (hp : placeAfter (0, 0) before = p) :
    ∀ piece ∈ pieces, ∀ i, (hi : i < piece.text.length) →
      charAt (before ++ text.map Prod.fst) (piece.place.1, piece.place.2 + i) = some piece.text[i] := by
  induction h generalizing before with
  | done _ => exact fun _ hmem => absurd hmem List.not_mem_nil
  | @blank p c k text pieces _ _ ih =>
      have hafter : placeAfter (0, 0) (before ++ [c]) = advance p c := by
        rw [placeAfter_append, hp]
        rfl
      have hall := ih hafter
      rwa [List.append_assoc] at hall
  | @piece p run text piece pieces hplace hrun htrimmed _ _ ih =>
      refine List.forall_mem_cons.mpr ⟨fun i hi => ?_, ?_⟩
      · have hsplit : piece.text = piece.text.take i ++ piece.text[i] :: piece.text.drop (i + 1) := by
          rw [List.getElem_cons_drop, List.take_append_drop]
        have hline : '\n' ∉ piece.text.take i := fun hmem => htrimmed.oneLine (List.mem_of_mem_take hmem)
        have hne : piece.text[i] ≠ '\n' := fun he => htrimmed.oneLine (he ▸ List.getElem_mem hi)
        have hat := charAt_placeAfter (before ++ piece.text.take i) hne
          (piece.text.drop (i + 1) ++ text.map Prod.fst)
        rw [placeAfter_append, hp, placeAfter_line p hline, List.length_take_of_le (Nat.le_of_lt hi)] at hat
        rw [List.append_assoc, ← List.cons_append, ← List.append_assoc (piece.text.take i), ← hsplit] at hat
        rw [hplace, List.map_append, hrun]
        exact hat
      · have hafter : placeAfter (0, 0) (before ++ piece.text) = placeAfter p piece.text := by
          rw [placeAfter_append, hp]
        have hall := ih hafter
        rwa [List.append_assoc, ← hrun, ← List.map_append] at hall

/-- The pieces that tile a text are at the place it begins or after it. -/
theorem Tiles.after (h : Tiles blank p text pieces) : ∀ piece ∈ pieces,
    p.1 < piece.place.1 ∨ p.1 = piece.place.1 ∧ p.2 ≤ piece.place.2 := by
  have hstep : ∀ {p : Place} (part : List Char) {piece : Piece κ},
      ((placeAfter p part).1 < piece.place.1 ∨
        (placeAfter p part).1 = piece.place.1 ∧ (placeAfter p part).2 ≤ piece.place.2) →
      p.1 < piece.place.1 ∨ p.1 = piece.place.1 ∧ p.2 ≤ piece.place.2 := by
    intro p part piece hpiece
    rcases le_placeAfter p part with hlt | ⟨heq, hle⟩ <;> omega
  induction h with
  | done _ => exact fun _ hmem => absurd hmem List.not_mem_nil
  | @blank p c _ _ _ _ _ ih => exact fun piece hmem => hstep [c] (ih piece hmem)
  | piece hplace _ _ _ _ ih =>
      refine List.forall_mem_cons.mpr ⟨?_, fun other hmem => hstep _ (ih other hmem)⟩
      rw [hplace]
      exact .inr ⟨rfl, Nat.le_refl _⟩

theorem Piece.Trimmed.precedes {piece other : Piece κ} (htrimmed : piece.Trimmed blank)
    (h : (placeAfter piece.place piece.text).1 < other.place.1 ∨
      (placeAfter piece.place piece.text).1 = other.place.1 ∧
        (placeAfter piece.place piece.text).2 ≤ other.place.2) : piece.Precedes other := by
  rw [placeAfter_line _ htrimmed.oneLine] at h
  exact h

theorem Tiles.ordered (h : Tiles blank p text pieces) : pieces.Pairwise Piece.Precedes := by
  induction h with
  | done _ => exact .nil
  | blank _ _ ih => exact ih
  | piece hplace _ htrimmed _ h ih =>
      refine List.pairwise_cons.mpr ⟨fun other hmem => htrimmed.precedes ?_, ih⟩
      rw [hplace]
      exact h.after other hmem

theorem Piece.Precedes.not_holds {piece other : Piece κ} (h : piece.Precedes other) {q : Place}
    (hq : other.Holds q) : ¬ piece.Holds q := by
  rintro ⟨hline, _, hlt⟩
  obtain ⟨hline', hle, _⟩ := hq
  rcases h with h | ⟨_, h⟩ <;> omega

/-- One piece has the character, and it has the label that the character has. -/
theorem Tiles.holds (h : Tiles blank p text pieces) {part rest : List (Char × Option κ)} {c : Char}
    {k : Option κ} (htext : text = part ++ (c, k) :: rest) (hc : blank c = false) :
    pieces.countP (fun piece => piece.Holds (placeAfter p (part.map Prod.fst))) = 1 ∧
      ∀ piece ∈ pieces, piece.Holds (placeAfter p (part.map Prod.fst)) → ∀ label ∈ k, label = piece.label := by
  induction h generalizing part with
  | done _ => exact absurd htext.symm (by simp)
  | @blank p d k' text pieces hd _ ih =>
      cases part with
      | nil =>
          cases htext
          rw [hc] at hd
          cases hd
      | cons head part =>
          obtain ⟨rfl, rfl⟩ := List.cons.inj htext
          exact ih rfl
  | @piece p run text piece pieces hplace hrun htrimmed hlabel htiles ih =>
      have hend := placeAfter_line p htrimmed.oneLine
      have hbeyond : ∀ beyond, text = beyond ++ (c, k) :: rest →
          ¬ piece.Holds (placeAfter p ((run ++ beyond).map Prod.fst)) := by
        rintro beyond _ ⟨hline, _, hlt⟩
        rw [List.map_append, placeAfter_append, hrun] at hline hlt
        have hle := le_placeAfter (placeAfter p piece.text) (beyond.map Prod.fst)
        rw [hplace] at hline hlt
        rw [hend] at hline hlt hle
        simp only at hle
        omega
      have hskip : ∀ beyond, part = run ++ beyond → text = beyond ++ (c, k) :: rest →
          (piece :: pieces).countP (fun piece => piece.Holds (placeAfter p (part.map Prod.fst))) = 1 ∧
            ∀ other ∈ piece :: pieces, other.Holds (placeAfter p (part.map Prod.fst)) →
              ∀ label ∈ k, label = other.label := by
        rintro beyond rfl hrest
        have hnot := hbeyond beyond hrest
        rw [List.countP_cons_of_neg (by simpa using hnot), List.map_append, placeAfter_append, hrun]
        obtain ⟨hcount, hlabels⟩ := ih hrest
        refine ⟨hcount, List.forall_mem_cons.mpr ⟨fun hholds => ?_, hlabels⟩⟩
        rw [List.map_append, placeAfter_append, hrun] at hnot
        exact absurd hholds hnot
      rcases List.append_eq_append_iff.mp htext with ⟨beyond, hpart, hrest⟩ | ⟨more, hsplit, hrest⟩
      · exact hskip beyond hpart hrest
      · cases more with
        | nil => exact hskip [] (by rw [List.append_nil] at hsplit ⊢; exact hsplit.symm) hrest.symm
        | cons head more =>
            obtain ⟨rfl, _⟩ := List.cons.inj hrest
            have hlength : part.length < piece.text.length := by
              rw [← hrun, hsplit, List.length_map, List.length_append, List.length_cons]
              omega
            have hline : '\n' ∉ part.map Prod.fst := by
              refine fun hmem => htrimmed.oneLine ?_
              rw [← hrun, hsplit, List.map_append]
              exact List.mem_append_left _ hmem
            have hholds : piece.Holds (placeAfter p (part.map Prod.fst)) := by
              rw [placeAfter_line p hline, List.length_map]
              rw [Piece.Holds, hplace]
              exact ⟨rfl, by simp only; omega, by simp only; omega⟩
            have hothers : ∀ other ∈ pieces, ¬ other.Holds (placeAfter p (part.map Prod.fst)) := by
              refine fun other hmem hother => (htrimmed.precedes ?_).not_holds hother hholds
              rw [hplace]
              exact htiles.after other hmem
            refine ⟨?_, List.forall_mem_cons.mpr ⟨fun _ label hk => ?_, fun other hmem hother =>
              absurd hother (hothers other hmem)⟩⟩
            · rw [List.countP_cons_of_pos (by simpa using hholds), List.countP_eq_zero.mpr]
              simpa using hothers
            · obtain rfl : k = some label := hk
              refine hlabel c label ?_ hc
              rw [hsplit]
              exact List.mem_append_right _ (List.mem_cons_self ..)

theorem tiles_blanks {blanks : List (Char × Option κ)} (h : ∀ c ∈ blanks, blank c.1 = true) :
    Tiles blank p blanks [] := by
  induction blanks generalizing p with
  | nil => exact .done p
  | cons c blanks ih =>
      rw [List.forall_mem_cons] at h
      exact .blank h.1 (ih h.2)

theorem trimmed_of_kept {line : List Char} (hline : '\n' ∉ line) {piece : Piece κ}
    (htext : piece.text = (line.dropWhile blank).rdropWhile blank) (hne : piece.text ≠ []) :
    piece.Trimmed blank := by
  have hfront : piece.text <+: line.dropWhile blank := htext ▸ List.rdropWhile_prefix _ _
  refine ⟨hne, fun hmem => hline ?_, fun c hc => ?_, fun c hc => ?_⟩
  · exact (List.dropWhile_suffix _).subset (hfront.subset hmem)
  · have hhead := List.head?_dropWhile_not blank line
    obtain ⟨back, hback⟩ := hfront
    rw [← hback, List.head?_append_of_ne_nil _ hne, hc] at hhead
    exact hhead
  · have hlast := List.getLast?_eq_some_getLast hne
    rw [hc] at hlast
    obtain rfl := Option.some.inj hlast
    rw [← Bool.not_eq_true]
    simp only [htext] at hne ⊢
    exact List.rdropWhile_last_not _ _ hne

theorem trimLine_tiles {label : κ} {line : List (Char × Option κ)} (hline : '\n' ∉ line.map Prod.fst)
    (hlabel : ∀ c k, (c, some k) ∈ line → blank c = false → k = label) :
    Tiles blank p line (trimLine blank label p (line.map Prod.fst)) := by
  have hfront : ((line.map Prod.fst).takeWhile blank) = (line.takeWhile (blank ∘ Prod.fst)).map Prod.fst :=
    List.takeWhile_map
  have hkept : ((line.map Prod.fst).dropWhile blank).rdropWhile blank =
      ((line.dropWhile (blank ∘ Prod.fst)).rdropWhile (blank ∘ Prod.fst)).map Prod.fst := by
    rw [List.dropWhile_map, List.rdropWhile, List.rdropWhile, ← List.map_reverse, List.dropWhile_map,
      ← List.map_reverse]
  have hparts : line = line.takeWhile (blank ∘ Prod.fst) ++
      ((line.dropWhile (blank ∘ Prod.fst)).rdropWhile (blank ∘ Prod.fst) ++
        (line.dropWhile (blank ∘ Prod.fst)).rtakeWhile (blank ∘ Prod.fst)) := by
    rw [List.rdropWhile_append_rtakeWhile, List.takeWhile_append_dropWhile]
  have hblank : ∀ c ∈ line.takeWhile (blank ∘ Prod.fst), blank c.1 = true :=
    fun c hc => (List.mem_takeWhile_imp hc : (blank ∘ Prod.fst) c = true)
  have hback : ∀ c ∈ (line.dropWhile (blank ∘ Prod.fst)).rtakeWhile (blank ∘ Prod.fst), blank c.1 = true :=
    fun c hc => (List.mem_rtakeWhile_imp hc : (blank ∘ Prod.fst) c = true)
  rw [trimLine, hkept]
  generalize hrun : (line.dropWhile (blank ∘ Prod.fst)).rdropWhile (blank ∘ Prod.fst) = run at *
  split
  · rename_i hnil
    rw [List.map_eq_nil_iff] at hnil
    subst hnil
    rw [hparts]
    exact (tiles_blanks hblank).append (tiles_blanks hback)
  · rename_i hne
    have hplace : placeAfter p ((line.takeWhile (blank ∘ Prod.fst)).map Prod.fst) =
        (p.1, p.2 + ((line.map Prod.fst).takeWhile blank).length) := by
      rw [← hfront]
      exact placeAfter_line p fun hmem => hline ((List.takeWhile_prefix _).subset hmem)
    rw [← hplace]
    conv => arg 3; rw [hparts]
    refine (tiles_blanks hblank).append (.piece rfl rfl (trimmed_of_kept hline hkept.symm hne) ?_
      (tiles_blanks hback))
    intro c k hmem hc
    refine hlabel c k ?_ hc
    rw [hparts]
    exact List.mem_append_right _ (List.mem_append_left _ hmem)

theorem cut_line {label : κ} {line : List Char} (h : '\n' ∉ line) :
    cut blank label p line = trimLine blank label p line := by
  rw [cut, List.splitOn_eq_splitOnP, List.splitOnP_eq_singleton, trimLines, trimLines, List.append_nil]
  exact fun c hc => beq_eq_false_iff_ne.mpr fun he => h (he ▸ hc)

theorem cut_newline {label : κ} {line : List Char} (h : '\n' ∉ line) (rest : List Char) :
    cut blank label p (line ++ '\n' :: rest) =
      trimLine blank label p line ++ cut blank label (p.1 + 1, 0) rest := by
  rw [cut, List.splitOn_eq_splitOnP, List.splitOnP_append_cons_of_forall_mem _ _ (by simp), trimLines, cut,
    List.splitOn_eq_splitOnP]
  exact fun c hc => beq_eq_false_iff_ne.mpr fun he => h (he ▸ hc)

/-- The pieces that a run is cut into tile it, if its characters have its label. -/
theorem cut_tiles (hnewline : blank '\n' = true) {label : κ} {run : List (Char × Option κ)}
    (hlabel : ∀ c k, (c, some k) ∈ run → blank c = false → k = label) :
    Tiles blank p run (cut blank label p (run.map Prod.fst)) := by
  suffices hwith : ∀ line : List (Char × Option κ), '\n' ∉ line.map Prod.fst →
      (∀ c k, (c, some k) ∈ line ++ run → blank c = false → k = label) →
        Tiles blank p (line ++ run) (cut blank label p ((line ++ run).map Prod.fst)) from
    hwith [] List.not_mem_nil hlabel
  clear hlabel
  induction run generalizing p with
  | nil =>
      intro line hline hlabel
      rw [List.append_nil] at hlabel ⊢
      rw [cut_line hline]
      exact trimLine_tiles hline hlabel
  | cons head run ih =>
      intro line hline hlabel
      obtain ⟨c, k⟩ := head
      by_cases hc : c = '\n'
      · subst hc
        rw [List.map_append, List.map_cons, cut_newline hline]
        refine (trimLine_tiles hline fun c k hmem => hlabel c k (List.mem_append_left _ hmem)).append
          (.blank hnewline ?_)
        rw [placeAfter_line p hline, advance_newline]
        refine ih [] List.not_mem_nil fun c k hmem => hlabel c k ?_
        exact List.mem_append_right _ (List.mem_cons_of_mem _ hmem)
      · have hsnoc := ih (p := p) (line ++ [(c, k)]) (by simp [hline, Ne.symm hc])
        rw [List.append_assoc] at hsnoc
        exact hsnoc hlabel

def below (n : Nat) (p : Place) : Place := (p.1 + n, p.2)

def Piece.below (n : Nat) (piece : Piece κ) : Piece κ := { piece with place := Tiling.below n piece.place }

theorem advance_below (n : Nat) (p : Place) (c : Char) : advance (below n p) c = below n (advance p c) := by
  by_cases hc : c = '\n'
  · subst hc
    rw [advance_newline, advance_newline, below, below, Nat.add_right_comm]
  · rw [advance_of_ne _ hc, advance_of_ne _ hc]
    rfl

theorem placeAfter_below (n : Nat) (p : Place) (text : List Char) :
    placeAfter (below n p) text = below n (placeAfter p text) := by
  induction text generalizing p with
  | nil => rfl
  | cons c text ih => rw [placeAfter_cons, placeAfter_cons, advance_below, ih]

theorem placeAfter_line_count (p : Place) (text : List Char) :
    (placeAfter p text).1 = p.1 + text.count '\n' := by
  induction text generalizing p with
  | nil => rfl
  | cons c text ih =>
      rw [placeAfter_cons, ih]
      by_cases hc : c = '\n'
      · subst hc
        rw [advance_newline, List.count_cons_self]
        omega
      · rw [advance_of_ne _ hc, List.count_cons_of_ne hc]

theorem trimLine_below (n : Nat) (label : κ) (p : Place) (line : List Char) :
    trimLine blank label (below n p) line = (trimLine blank label p line).map (Piece.below n) := by
  rw [trimLine, trimLine]
  split <;> rfl

/-- A run further down is cut into the same pieces further down. -/
theorem cut_below (n : Nat) (label : κ) (p : Place) (run : List Char) :
    cut blank label (below n p) run = (cut blank label p run).map (Piece.below n) := by
  rw [cut, cut]
  generalize run.splitOn '\n' = lines
  induction lines generalizing p with
  | nil => rfl
  | cons line lines ih =>
      have hnext : ((below n p).1 + 1, 0) = below n (p.1 + 1, 0) := by
        rw [below, below, Nat.add_right_comm]
      rw [trimLines, trimLines, List.map_append, trimLine_below, hnext, ih]

end LocalDevProxy.Lib.Tiling
