import LocalDevProxy.Highlight
import LocalDevProxy.Lib.Tiling

namespace LocalDevProxy.HighlightSteps

open Lib.Fallible Lib.Tiling Text Highlight

def piece (t : Token) : Piece Kind := ⟨(t.line, t.column), t.text.toList, t.kind⟩

def ofPiece (piece : Piece Kind) : Token :=
  ⟨piece.place.1, piece.place.2, .ofList piece.text, piece.label⟩

@[simp] theorem piece_ofPiece (p : Piece Kind) : piece (ofPiece p) = p := by
  rw [piece, ofPiece, String.toList_ofList]

def tokensOf (kind : Kind) (p : Place) (run : List Char) : List Token :=
  (cut isWhitespace kind p run).map ofPiece

structure Sound (lx : Lexer) : Prop where
  positions : lx.positions = positionsFrom 0 0 lx.chars
  inRange : lx.i ≤ lx.chars.length

def place (lx : Lexer) : Place := placeAfter (0, 0) (lx.chars.take lx.i)

theorem positionsFrom_split (line column : Nat) (before : List Char) (c : Char) (after : List Char) :
    (positionsFrom line column (before ++ c :: after))[before.length]? =
      some (placeAfter (line, column) before) := by
  induction before generalizing line column with
  | nil => rfl
  | cons d before ih =>
      rw [List.cons_append, positionsFrom, List.length_cons, List.getElem?_cons_succ, placeAfter_cons]
      by_cases hd : d = '\n'
      · rw [if_pos hd, ih, advance, if_pos hd]
      · rw [if_neg hd, ih, advance, if_neg hd]

theorem at?_split {α : Type} (before : List α) (x : α) (after : List α) :
    at? (before ++ x :: after) before.length = .ok x := by
  simp [at?]

theorem slice_split {α : Type} (before run after : List α) :
    slice (before ++ (run ++ after)) before.length (before.length + run.length) = .ok run := by
  rw [slice, if_pos (by simp)]
  rw [← List.append_assoc, ← List.length_append, List.take_left, List.drop_left]

theorem drop_takeWhile_length {p : Char → Bool} (line : List Char) :
    line.drop (line.takeWhile p).length = line.dropWhile p := by
  conv_lhs => arg 2; rw [← List.takeWhile_append_dropWhile (p := p) (l := line)]
  exact List.drop_left

theorem emitPiece_eq {lx : Lexer} (kind : Kind) {before line after : List Char} (tokens : List Token)
    (hpositions : lx.positions = positionsFrom 0 0 (before ++ (line ++ after))) (hline : '\n' ∉ line) :
    lx.emitPiece kind before.length line tokens =
      .ok (tokens ++ (trimLine isWhitespace kind (placeAfter (0, 0) before) line).map ofPiece) := by
  rw [Lexer.emitPiece, trimLine, drop_takeWhile_length]
  split
  · rename_i hnil
    rw [List.map_nil, List.append_nil]
  · rename_i hne
    have hdrop : line.dropWhile isWhitespace ≠ [] := by
      intro he
      rw [he] at hne
      exact hne rfl
    obtain ⟨c, rest, hrest⟩ := List.exists_cons_of_ne_nil hdrop
    have hsplit : before ++ (line ++ after) =
        (before ++ line.takeWhile isWhitespace) ++ c :: (rest ++ after) := by
      conv_lhs => rw [← List.takeWhile_append_dropWhile (p := isWhitespace) (l := line), hrest]
      simp only [List.append_assoc, List.cons_append]
    have hindent : '\n' ∉ line.takeWhile isWhitespace :=
      fun hmem => hline ((List.takeWhile_prefix _).subset hmem)
    rw [hpositions, at?, hsplit, ← List.length_append, positionsFrom_split, placeAfter_append,
      placeAfter_line _ hindent]
    rfl

/-- The loop of emit cuts the rest of a run, whose current line has begun. -/
theorem emitFrom_eq {lx : Lexer} (kind : Kind) {before line run after : List Char} (tokens : List Token)
    (hchars : lx.chars = before ++ (line ++ (run ++ after))) (hpositions : lx.positions = positionsFrom 0 0 lx.chars)
    (hi : lx.i = before.length + line.length + run.length) (hline : '\n' ∉ line) :
    lx.emitFrom kind (List.range' (before.length + line.length) (run.length + 1)) before.length tokens =
      .ok (tokens ++ tokensOf kind (placeAfter (0, 0) before) (line ++ run)) := by
  induction run generalizing before line tokens with
  | nil =>
      have hslice : slice lx.chars before.length (before.length + line.length) = .ok line := by
        rw [hchars]
        exact slice_split ..
      rw [hchars] at hpositions
      rw [List.length_nil, Nat.add_zero] at hi
      rw [List.append_nil, List.length_nil, List.range'_one, Lexer.emitFrom, if_pos hi.symm]
      simp only [bind, Except.bind, reduceIte, hslice, emitPiece_eq kind tokens hpositions hline]
      rw [Lexer.emitFrom, tokensOf, cut_line hline]
  | cons c run ih =>
      rw [List.length_cons] at hi
      have hat : at? lx.chars (before.length + line.length) = .ok c := by
        rw [hchars, ← List.append_assoc, ← List.length_append]
        exact at?_split ..
      rw [List.length_cons, List.range'_succ, Lexer.emitFrom, if_neg (by omega), hat]
      by_cases hc : c = '\n'
      · subst hc
        have hslice : slice lx.chars before.length (before.length + line.length) = .ok line := by
          rw [hchars]
          exact slice_split ..
        have hchars' : lx.chars = (before ++ line ++ ['\n']) ++ ([] ++ (run ++ after)) := by
          rw [hchars]
          simp
        have hlength : (before ++ line ++ ['\n']).length = before.length + line.length + 1 := by
          rw [List.length_append, List.length_append, List.length_singleton]
        have hnext := ih (tokens ++ (trimLine isWhitespace kind (placeAfter (0, 0) before) line).map ofPiece)
          hchars' (by rw [hlength, List.length_nil]; omega) List.not_mem_nil
        have hplace : placeAfter (0, 0) (before ++ line ++ ['\n']) = ((placeAfter (0, 0) before).1 + 1, 0) := by
          rw [placeAfter_append, placeAfter_append, placeAfter_line _ hline]
          rfl
        rw [hlength, List.length_nil, Nat.add_zero, hplace, List.nil_append] at hnext
        have hpositions' := hpositions
        rw [hchars] at hpositions'
        simp only [Except.map, bind, Except.bind, decide_true, reduceIte, hslice,
          emitPiece_eq kind tokens hpositions' hline]
        rw [hnext, tokensOf, tokensOf, cut_newline hline, List.map_append, List.append_assoc]
      · have hchars' : lx.chars = before ++ ((line ++ [c]) ++ (run ++ after)) := by
          rw [hchars]
          simp
        have hlength : (line ++ [c]).length = line.length + 1 := List.length_append
        have hnext := ih tokens hchars' (by rw [hlength]; omega) (by simp [hline, Ne.symm hc])
        rw [hlength, ← Nat.add_assoc, List.append_assoc] at hnext
        simp only [Except.map, bind, Except.bind, hc, decide_false, Bool.false_eq_true, reduceIte]
        exact hnext

theorem emit_eq {lx : Lexer} (kind : Kind) {before run after : List Char}
    (hchars : lx.chars = before ++ (run ++ after)) (hpositions : lx.positions = positionsFrom 0 0 lx.chars)
    (hi : lx.i = before.length + run.length) :
    lx.emit kind before.length =
      .ok { lx with tokens := lx.tokens ++ tokensOf kind (placeAfter (0, 0) before) run } := by
  have hline : lx.chars = before ++ ([] ++ (run ++ after)) := hchars
  have hloop := emitFrom_eq kind lx.tokens hline hpositions (by simpa using hi) List.not_mem_nil
  have hcount : lx.i + 1 - before.length = run.length + 1 := by omega
  rw [List.length_nil, Nat.add_zero, List.nil_append] at hloop
  rw [Lexer.emit, hcount, hloop]
  rfl

def take (lx : Lexer) (kind : Kind) (shown skipped nesting : List Char) (expectKey : Bool) : Lexer :=
  { lx with
    i := lx.i + shown.length + skipped.length
    nesting := nesting
    expectKey := expectKey
    tokens := lx.tokens ++ tokensOf kind (place lx) shown }

variable {lx : Lexer} {kind : Kind} {shown skipped more nesting : List Char} {expectKey : Bool}

theorem chars_eq (lx : Lexer) : lx.chars = lx.chars.take lx.i ++ lx.rest :=
  (List.take_append_drop _ _).symm

theorem Sound.length_take (h : Sound lx) : (lx.chars.take lx.i).length = lx.i :=
  List.length_take_of_le h.inRange

theorem Sound.length_rest (h : Sound lx) : lx.i + lx.rest.length = lx.chars.length := by
  rw [Lexer.rest, List.length_drop]
  have := h.inRange
  omega

theorem drop_rest {run more : List Char} (hrest : lx.rest = run ++ more) :
    lx.chars.drop (lx.i + run.length) = more := by
  rw [← List.drop_drop, ← Lexer.rest, hrest, List.drop_left]

theorem take_rest (hrest : lx.rest = shown ++ (skipped ++ more)) :
    (take lx kind shown skipped nesting expectKey).rest = more := by
  rw [← List.append_assoc] at hrest
  rw [Lexer.rest, take, Nat.add_assoc, ← List.length_append]
  exact drop_rest hrest

theorem take_sound (h : Sound lx) (hrest : lx.rest = shown ++ (skipped ++ more)) :
    Sound (take lx kind shown skipped nesting expectKey) := by
  refine ⟨h.positions, ?_⟩
  have hlength := h.length_rest
  rw [hrest, List.length_append, List.length_append] at hlength
  simp only [take]
  omega

theorem take_place (hrest : lx.rest = shown ++ (skipped ++ more)) :
    place (take lx kind shown skipped nesting expectKey) = placeAfter (place lx) (shown ++ skipped) := by
  rw [place, place, ← placeAfter_append, take]
  refine congrArg _ ?_
  rw [Nat.add_assoc, ← List.length_append, List.take_add, ← Lexer.rest, hrest, ← List.append_assoc,
    List.take_left]

/-- What emit does from the current character on, wherever the lexer went on to. -/
theorem emit_run (h : Sound lx) (hrest : lx.rest = shown ++ more) :
    { lx with i := lx.i + shown.length, nesting := nesting, expectKey := expectKey }.emit kind lx.i =
      .ok (take lx kind shown [] nesting expectKey) := by
  have hchars : lx.chars = lx.chars.take lx.i ++ (shown ++ more) := by
    rw [← hrest]
    exact chars_eq lx
  have hemit : Lexer.emit { lx with i := lx.i + shown.length, nesting := nesting, expectKey := expectKey } kind
      (lx.chars.take lx.i).length = _ := emit_eq kind hchars h.positions (by rw [h.length_take])
  rw [h.length_take] at hemit
  exact hemit

theorem take_nothing (lx : Lexer) (kind : Kind) (skipped nesting : List Char) (expectKey : Bool) :
    take lx kind [] skipped nesting expectKey =
      { lx with i := lx.i + skipped.length, nesting := nesting, expectKey := expectKey } := by
  rw [take, tokensOf, cut_line List.not_mem_nil]
  simp [trimLine]

theorem pass_newline (lx : Lexer) : lx.pass '\n' =
    .ok (take lx .plain [] ['\n'] lx.nesting (lx.nesting.isEmpty || lx.expectKey)) := by
  rw [take_nothing, Lexer.pass, if_pos rfl]
  rfl

theorem pass_space (lx : Lexer) {c : Char} (hc : isWhitespace c = true) (hne : c ≠ '\n') :
    lx.pass c = .ok (take lx .plain [] [c] lx.nesting lx.expectKey) := by
  rw [take_nothing, Lexer.pass, if_neg hne, if_pos hc]
  rfl

theorem takeWhile_run {p : Char → Bool} {run more : List Char} (hrun : ∀ c ∈ run, p c = true)
    (hmore : ∀ c ∈ more.head?, p c = false) : (run ++ more).takeWhile p = run := by
  rw [List.takeWhile_append_of_pos hrun]
  cases more with
  | nil => exact List.append_nil run
  | cons c more => rw [List.takeWhile_cons_of_neg (by simpa using hmore), List.append_nil]

theorem skipWhile_run {p : Char → Bool} (hrest : lx.rest = shown ++ more) (hrun : ∀ c ∈ shown, p c = true)
    (hmore : ∀ c ∈ more.head?, p c = false) : lx.skipWhile p = { lx with i := lx.i + shown.length } := by
  rw [Lexer.skipWhile, hrest, takeWhile_run hrun hmore]

theorem pass_comment (h : Sound lx) {body : List Char} (hrest : lx.rest = '#' :: body ++ more)
    (hbody : '\n' ∉ body) (hmore : ∀ c ∈ more.head?, c = '\n') :
    lx.pass '#' = .ok (take lx .comment ('#' :: body) [] lx.nesting lx.expectKey) := by
  have hskip : lx.skipToLineEnd = { lx with i := lx.i + ('#' :: body).length } := by
    refine skipWhile_run hrest (fun c hc => ?_) (fun c hc => by simpa using hmore c hc)
    rcases List.mem_cons.mp hc with rfl | hc
    · rfl
    · exact decide_eq_true fun he => hbody (he ▸ hc)
  rw [Lexer.pass, if_neg (by decide), if_neg (by decide), if_pos rfl, hskip]
  exact emit_run h hrest

/-- A single character that is shown as punctuation or as it is. -/
theorem emit_char (h : Sound lx) {c : Char} (hrest : lx.rest = c :: more) :
    { lx with i := lx.i + 1, nesting := nesting, expectKey := expectKey }.emit kind lx.i =
      .ok (take lx kind [c] [] nesting expectKey) :=
  emit_run h (show lx.rest = [c] ++ more from hrest)

theorem pass_equals (h : Sound lx) (hrest : lx.rest = '=' :: more) :
    lx.pass '=' = .ok (take lx .punctuation ['='] [] lx.nesting false) := by
  rw [Lexer.pass, if_neg (by decide), if_neg (by decide), if_neg (by decide),
    if_neg (fun h => absurd h.1 (by decide)), if_neg (by decide), if_pos rfl]
  exact emit_char h hrest

theorem pass_dot (h : Sound lx) (hrest : lx.rest = '.' :: more) (hkey : lx.expectKey = true) :
    lx.pass '.' = .ok (take lx .punctuation ['.'] [] lx.nesting lx.expectKey) := by
  rw [Lexer.pass, if_neg (by decide), if_neg (by decide), if_neg (by decide),
    if_neg (fun h => absurd h.1 (by decide)), if_neg (by decide), if_neg (by decide), if_pos ⟨rfl, hkey⟩]
  exact emit_char h hrest

theorem pass_open (h : Sound lx) {c : Char} (hc : c = '[' ∨ c = '{') (hrest : lx.rest = c :: more)
    (hheader : ¬ (c = '[' ∧ lx.expectKey = true ∧ lx.nesting.isEmpty = true)) :
    lx.pass c = .ok (take lx .punctuation [c] [] (c :: lx.nesting) (c = '{')) := by
  rcases hc with rfl | rfl
  · rw [Lexer.pass, if_neg (by decide), if_neg (by decide), if_neg (by decide), if_neg hheader,
      if_neg (by decide), if_neg (by decide), if_neg (fun h => absurd h.1 (by decide)), if_pos (.inl rfl)]
    exact emit_char h hrest
  · rw [Lexer.pass, if_neg (by decide), if_neg (by decide), if_neg (by decide), if_neg hheader,
      if_neg (by decide), if_neg (by decide), if_neg (fun h => absurd h.1 (by decide)), if_pos (.inr rfl)]
    exact emit_char h hrest

def opening (c : Char) : Char := if c = ']' then '[' else '{'

theorem pass_close (h : Sound lx) {c : Char} (hc : c = ']' ∨ c = '}') (hrest : lx.rest = c :: more) :
    lx.pass c = .ok (take lx .punctuation [c] []
      (if lx.nesting.head? = some (opening c) then lx.nesting.tail else lx.nesting) false) := by
  rcases hc with rfl | rfl
  · rw [Lexer.pass, if_neg (by decide), if_neg (by decide), if_neg (by decide),
      if_neg (fun h => absurd h.1 (by decide)), if_neg (by decide), if_neg (by decide),
      if_neg (fun h => absurd h.1 (by decide)), if_neg (by decide), if_pos (.inl rfl)]
    exact emit_char h hrest
  · rw [Lexer.pass, if_neg (by decide), if_neg (by decide), if_neg (by decide),
      if_neg (fun h => absurd h.1 (by decide)), if_neg (by decide), if_neg (by decide),
      if_neg (fun h => absurd h.1 (by decide)), if_neg (by decide), if_pos (.inr rfl)]
    exact emit_char h hrest

theorem pass_comma (h : Sound lx) (hrest : lx.rest = ',' :: more) :
    lx.pass ',' = .ok (take lx .punctuation [','] [] lx.nesting (lx.nesting.head? = some '{')) := by
  rw [Lexer.pass, if_neg (by decide), if_neg (by decide), if_neg (by decide),
    if_neg (fun h => absurd h.1 (by decide)), if_neg (by decide), if_neg (by decide),
    if_neg (fun h => absurd h.1 (by decide)), if_neg (by decide), if_neg (by decide), if_pos rfl]
  exact emit_char h hrest

def goesOn (expectKey : Bool) (c : Char) : Bool := isWordChar c || !expectKey && (c = '.' || c = ':')

def marks : List Char := ['\n', '#', '[', '"', '\'', '=', '.', '{', ']', '}', ',']

theorem isAlphanum_iff {c : Char} : c.isAlphanum = true ↔
    (('A'.val ≤ c.val ∧ c.val ≤ 'Z'.val) ∨ ('a'.val ≤ c.val ∧ c.val ≤ 'z'.val)) ∨
      ('0'.val ≤ c.val ∧ c.val ≤ '9'.val) := by
  change ((decide (c.val ≥ 'A'.val ∧ c.val ≤ 'Z'.val) ||
    decide (c.val ≥ 'a'.val) && decide (c.val ≤ 'z'.val)) ||
      decide (c.val ≥ '0'.val) && decide (c.val ≤ '9'.val)) = true ↔ _
  simp only [Bool.or_eq_true, Bool.and_eq_true, decide_eq_true_eq, ge_iff_le]

theorem isWordChar_range {c : Char} (h : isWordChar c = true) : 43 ≤ c.toNat ∧ c.toNat ≤ 122 := by
  simp only [isWordChar, isAsciiAlphanumeric, Bool.or_eq_true, decide_eq_true_eq] at h
  simp only [isAlphanum_iff] at h
  rcases h with (((((h | h) | h) | rfl) | rfl) | rfl)
  · exact ⟨Nat.le_trans (by decide) h.1, Nat.le_trans h.2 (by decide)⟩
  · exact ⟨Nat.le_trans (by decide) h.1, Nat.le_trans h.2 (by decide)⟩
  · exact ⟨Nat.le_trans (by decide) h.1, Nat.le_trans h.2 (by decide)⟩
  all_goals decide

theorem isWordChar_not_space {c : Char} (h : isWordChar c = true) : isWhitespace c = false := by
  obtain ⟨hlow, hhigh⟩ := isWordChar_range h
  simp only [isWhitespace, Bool.or_eq_false_iff, Bool.and_eq_false_iff, decide_eq_false_iff_not,
    beq_eq_false_iff_ne]
  omega

theorem isWordChar_not_mark {c : Char} (h : isWordChar c = true) : c ∉ marks := by
  intro hmem
  have hmarks : marks.all (fun m => !isWordChar m) = true := by decide
  have hnot := List.all_eq_true.mp hmarks c hmem
  rw [h] at hnot
  cases hnot

theorem pass_word (h : Sound lx) {c : Char} {body : List Char} (hc : isWordChar c = true)
    (hrest : lx.rest = (c :: body) ++ more) (hbody : ∀ d ∈ body, goesOn lx.expectKey d = true)
    (hmore : ∀ d ∈ more.head?, goesOn lx.expectKey d = false) :
    lx.pass c = .ok (take lx (if lx.expectKey then .key else valueKind (.ofList (c :: body))) (c :: body) []
      lx.nesting lx.expectKey) := by
  have hskip : lx.skipWhile (goesOn lx.expectKey) = { lx with i := lx.i + (c :: body).length } := by
    refine skipWhile_run hrest (fun d hd => ?_) hmore
    rcases List.mem_cons.mp hd with rfl | hd
    · rw [goesOn, hc, Bool.true_or]
    · exact hbody d hd
  have hslice : slice lx.chars lx.i (lx.i + (c :: body).length) = .ok (c :: body) := by
    have hsplit := slice_split (lx.chars.take lx.i) (c :: body) more
    rwa [← hrest, ← chars_eq, h.length_take] at hsplit
  have hnot := isWordChar_not_mark hc
  simp only [marks, List.mem_cons, List.not_mem_nil, or_false, not_or] at hnot
  obtain ⟨h1, h2, h3, h4, h5, h6, h7, h8, h9, h10, h11⟩ := hnot
  rw [Lexer.pass, if_neg h1, if_neg (by rw [isWordChar_not_space hc]; exact Bool.false_ne_true), if_neg h2,
    if_neg (fun he => h3 he.1), if_neg (not_or.mpr ⟨h4, h5⟩), if_neg h6, if_neg (fun he => h7 he.1),
    if_neg (not_or.mpr ⟨h3, h8⟩), if_neg (not_or.mpr ⟨h9, h10⟩), if_neg h11, if_pos hc]
  change (slice lx.chars lx.i (lx.skipWhile (goesOn lx.expectKey)).i >>= fun word =>
    (lx.skipWhile (goesOn lx.expectKey)).emit (if (lx.skipWhile (goesOn lx.expectKey)).expectKey then .key
      else valueKind (.ofList word)) lx.i) = _
  rw [hskip, hslice]
  exact emit_run h hrest

theorem pass_other (h : Sound lx) {c : Char} (hrest : lx.rest = c :: more) (hspace : isWhitespace c = false)
    (hword : isWordChar c = false) (hmarks : c ∈ marks → c = '.' ∧ lx.expectKey = false) :
    lx.pass c = .ok (take lx .plain [c] [] lx.nesting lx.expectKey) := by
  have hne : ∀ m ∈ marks, m ≠ '.' → c ≠ m := by
    rintro m hm hdot rfl
    exact hdot (hmarks hm).1
  have hdot : ¬ (c = '.' ∧ lx.expectKey = true) := by
    rintro ⟨rfl, hkey⟩
    rw [(hmarks (by decide)).2] at hkey
    cases hkey
  have hopen : c ≠ '[' := hne _ (by decide) (by decide)
  rw [Lexer.pass, if_neg (hne _ (by decide) (by decide)), if_neg (by rw [hspace]; exact Bool.false_ne_true),
    if_neg (hne _ (by decide) (by decide)), if_neg (fun he => hopen he.1),
    if_neg (not_or.mpr ⟨hne _ (by decide) (by decide), hne _ (by decide) (by decide)⟩),
    if_neg (hne _ (by decide) (by decide)), if_neg hdot,
    if_neg (not_or.mpr ⟨hopen, hne _ (by decide) (by decide)⟩),
    if_neg (not_or.mpr ⟨hne _ (by decide) (by decide), hne _ (by decide) (by decide)⟩),
    if_neg (hne _ (by decide) (by decide)), if_neg (by rw [hword]; exact Bool.false_ne_true)]
  exact emit_char h hrest

def stringLength (quote : Char) (chars : List Char) : Nat :=
  if chars[0]? = some quote ∧ chars[1]? = some quote then
    min (3 + multiLineLength quote (chars.drop 2)) (chars.length + 1)
  else 1 + singleLineLength quote chars

theorem peek_rest (lx : Lexer) (offset : Nat) : lx.peek offset = lx.rest[offset]? := by
  rw [Lexer.peek, Lexer.rest, List.getElem?_drop]

theorem string_eq (h : Sound lx) {quote : Char} {chars : List Char} (hrest : lx.rest = quote :: chars) :
    lx.string = .ok { lx with i := lx.i + stringLength quote chars } := by
  have hquote : at? lx.chars lx.i = .ok quote := by
    have hsplit := at?_split (lx.chars.take lx.i) quote chars
    rwa [← hrest, ← chars_eq, h.length_take] at hsplit
  have hlength := h.length_rest
  rw [hrest, List.length_cons] at hlength
  rw [Lexer.string, hquote, stringLength]
  simp only [bind, Except.bind, peek_rest, hrest, List.getElem?_cons_succ, List.drop_succ_cons]
  split
  · have hmin : min (lx.i + 3 + multiLineLength quote (chars.drop 2)) lx.chars.length =
        lx.i + min (3 + multiLineLength quote (chars.drop 2)) (chars.length + 1) := by omega
    rw [hmin]
  · rw [Nat.add_assoc]
    rfl

theorem pass_string (h : Sound lx) {quote : Char} {body : List Char} (hquote : quote = '"' ∨ quote = '\'')
    (hrest : lx.rest = (quote :: body) ++ more)
    (hlength : stringLength quote (body ++ more) = (quote :: body).length) :
    lx.pass quote = .ok (take lx (if lx.expectKey then .key else .string) (quote :: body) [] lx.nesting
      lx.expectKey) := by
  have hstring := string_eq h (show lx.rest = quote :: (body ++ more) from hrest)
  rw [hlength] at hstring
  have hemit : (lx.string >>= fun after => after.emit (if after.expectKey then .key else .string) lx.i) =
      .ok (take lx (if lx.expectKey then .key else .string) (quote :: body) [] lx.nesting lx.expectKey) := by
    rw [hstring]
    exact emit_run h hrest
  rcases hquote with rfl | rfl
  · rw [Lexer.pass, if_neg (by decide), if_neg (by decide), if_neg (by decide),
      if_neg (fun h => absurd h.1 (by decide)), if_pos (.inl rfl)]
    exact hemit
  · rw [Lexer.pass, if_neg (by decide), if_neg (by decide), if_neg (by decide),
      if_neg (fun h => absurd h.1 (by decide)), if_pos (.inr rfl)]
    exact hemit

/-- The parts of a header that the loop is inside of: what is shown, blanks
that are skipped, and the text after it. -/
theorem headerEnds_split (quote : Option Char) (n : Nat) {pending : List Char} (rest : List Char)
    (hpending : ∀ c ∈ pending, isWhitespace c = true) :
    ∃ shown skipped more, pending ++ rest = shown ++ (skipped ++ more) ∧
      headerEnds quote n (n + pending.length) rest =
        (n + shown.length, n + shown.length + skipped.length) ∧
      ∀ c ∈ skipped, isWhitespace c = true := by
  have hnone : ∀ c ∈ ([] : List Char), isWhitespace c = true := fun _ hc => by cases hc
  induction rest generalizing quote n pending with
  | nil => exact ⟨[], pending, [], by simp, by simp [headerEnds], hpending⟩
  | cons c rest ih =>
      rw [headerEnds]
      split
      · exact ⟨[], pending, c :: rest, by simp, by simp, hpending⟩
      · by_cases hc : isWhitespace c = true
        · have hpending' : ∀ d ∈ pending ++ [c], isWhitespace d = true := by
            intro d hd
            rcases List.mem_append.mp hd with hd | hd
            · exact hpending d hd
            · rw [List.mem_singleton.mp hd, hc]
          obtain ⟨shown, skipped, more, hsplit, hends, hskipped⟩ := ih (nextQuote quote c) n hpending'
          refine ⟨shown, skipped, more, by rw [← hsplit, List.append_assoc]; rfl, ?_, hskipped⟩
          rw [if_pos hc, ← hends, List.length_append, ← Nat.add_assoc]
          rfl
        · obtain ⟨shown, skipped, more, hsplit, hends, hskipped⟩ :=
            ih (nextQuote quote c) (n + pending.length + 1) hnone
          refine ⟨pending ++ c :: shown, skipped, more, ?_, ?_, hskipped⟩
          · rw [List.append_assoc, List.cons_append, ← hsplit]
            rfl
          · rw [if_neg hc]
            rw [List.length_nil, Nat.add_zero] at hends
            rw [hends, List.length_append, List.length_cons]
            exact Prod.ext (by simp only; omega) (by simp only; omega)

theorem pass_header (h : Sound lx) (hkey : lx.expectKey = true) (hnesting : lx.nesting = [])
    {shown skipped more : List Char} (hrest : lx.rest = shown ++ (skipped ++ more))
    (hends : headerEnds none lx.i lx.i lx.rest =
      (lx.i + shown.length, lx.i + shown.length + skipped.length)) :
    lx.pass '[' = .ok (take lx .table shown skipped lx.nesting lx.expectKey) := by
  rw [Lexer.pass, if_neg (by decide), if_neg (by decide), if_neg (by decide),
    if_pos ⟨rfl, hkey, by rw [hnesting]; rfl⟩, Lexer.tableHeader, hends]
  have hemit : { lx with i := lx.i + shown.length }.emit .table lx.i =
      .ok (take lx .table shown [] lx.nesting lx.expectKey) := emit_run h hrest
  simp only [hemit, bind, Except.bind]
  rfl

/-- One lexer goes on to be another over some characters: what it shows of them
tiles them, and the run goes on from there. -/
structure Moves (lx lx' : Lexer) (text : List (Char × Option Kind)) : Prop where
  sound : Sound lx'
  rest : lx.rest = text.map Prod.fst ++ lx'.rest
  place : place lx' = placeAfter (place lx) (text.map Prod.fst)
  tokens : ∃ tokens, lx'.tokens = lx.tokens ++ tokens ∧
    Tiles isWhitespace (HighlightSteps.place lx) text (tokens.map piece)
  runs : ∀ fuel final, lx'.run fuel = .ok final → lx.run (text.length + fuel) = .ok final

theorem Moves.refl (h : Sound lx) : Moves lx lx [] := by
  refine ⟨h, rfl, rfl, ⟨[], (List.append_nil _).symm, .done _⟩, fun fuel final hrun => ?_⟩
  rw [List.length_nil, Nat.zero_add, hrun]

theorem Moves.trans {lx' lx'' : Lexer} {text text' : List (Char × Option Kind)} (h : Moves lx lx' text)
    (h' : Moves lx' lx'' text') : Moves lx lx'' (text ++ text') := by
  obtain ⟨tokens, htokens, htiles⟩ := h.tokens
  obtain ⟨tokens', htokens', htiles'⟩ := h'.tokens
  refine ⟨h'.sound, ?_, ?_, ⟨tokens ++ tokens', ?_, ?_⟩, fun fuel final hrun => ?_⟩
  · rw [h.rest, h'.rest, List.map_append, List.append_assoc]
  · rw [h'.place, h.place, List.map_append, placeAfter_append]
  · rw [htokens', htokens, List.append_assoc]
  · rw [List.map_append]
    rw [h.place] at htiles'
    exact htiles.append htiles'
  · rw [List.length_append, Nat.add_assoc]
    exact h.runs _ _ (h'.runs _ _ hrun)

theorem run_done (h : lx.rest = []) (fuel : Nat) : lx.run fuel = .ok lx := by
  have hpeek : lx.peek 0 = none := by rw [peek_rest, h]; rfl
  cases fuel with
  | zero => rw [Lexer.run, hpeek]; rfl
  | succ fuel => rw [Lexer.run, hpeek]

theorem run_step {c : Char} (h : lx.rest.head? = some c) (fuel : Nat) :
    lx.run (fuel + 1) = (lx.pass c >>= fun lx' => lx'.run fuel) := by
  have hpeek : lx.peek 0 = some c := by rw [peek_rest, ← List.head?_eq_getElem?, h]
  rw [Lexer.run, hpeek]

theorem run_more {final : Lexer} {fuel : Nat} (h : lx.run fuel = .ok final) (extra : Nat) :
    lx.run (extra + fuel) = .ok final := by
  induction fuel generalizing lx with
  | zero =>
      cases hrest : lx.rest with
      | nil => rw [run_done hrest] at h ⊢; exact h
      | cons c more =>
          have hpeek : lx.peek 0 = some c := by rw [peek_rest, hrest]; rfl
          rw [Lexer.run, hpeek] at h
          cases h
  | succ fuel ih =>
      cases hrest : lx.rest with
      | nil => rw [run_done hrest] at h ⊢; exact h
      | cons c more =>
          have hhead : lx.rest.head? = some c := by rw [hrest]; rfl
          rw [run_step hhead] at h
          obtain ⟨lx', hpass, h⟩ := bind_eq_ok.mp h
          rw [← Nat.add_assoc, run_step hhead, hpass]
          exact ih h

/-- One pass of the loop moves the lexer over what it shows and skips. -/
theorem moves_take (h : Sound lx) {run blanks : List (Char × Option Kind)} {c : Char}
    (hrest : lx.rest = run.map Prod.fst ++ (blanks.map Prod.fst ++ more)) (hc : lx.rest.head? = some c)
    (hne : run ++ blanks ≠ [])
    (hpass : lx.pass c =
      .ok (take lx kind (run.map Prod.fst) (blanks.map Prod.fst) nesting expectKey))
    (hlabel : ∀ d k, (d, some k) ∈ run → isWhitespace d = false → k = kind)
    (hblanks : ∀ d ∈ blanks, isWhitespace d.1 = true) :
    Moves lx (take lx kind (run.map Prod.fst) (blanks.map Prod.fst) nesting expectKey) (run ++ blanks) := by
  refine ⟨take_sound h hrest, ?_, ?_, ⟨tokensOf kind (place lx) (run.map Prod.fst), rfl, ?_⟩,
    fun fuel final hrun => ?_⟩
  · rw [take_rest hrest, List.map_append, List.append_assoc, hrest]
  · rw [take_place hrest, List.map_append]
  · have hpieces : (tokensOf kind (place lx) (run.map Prod.fst)).map piece =
        cut isWhitespace kind (place lx) (run.map Prod.fst) ++ [] := by
      rw [tokensOf, List.map_map, List.append_nil]
      exact List.map_id'' piece_ofPiece _
    rw [hpieces]
    exact (cut_tiles (by decide) hlabel).append (tiles_blanks hblanks)
  · obtain ⟨count, hcount⟩ := Nat.exists_eq_succ_of_ne_zero (List.length_pos_iff.mpr hne).ne'
    rw [hcount, Nat.succ_add, run_step hc, hpass]
    exact run_more hrun count

theorem new_sound (text : String) : Sound (.new text) := ⟨rfl, Nat.zero_le _⟩

section

variable {text : String} {painted : List (Char × Option Kind)}

theorem painted_of_moves (h : Moves (.new text) lx painted) (hend : lx.rest = []) :
    painted.map Prod.fst = text.toList := by
  have hrest := h.rest
  rw [hend, List.append_nil] at hrest
  exact hrest.symm

/-- The run over the whole text is one that moves to its end. -/
theorem run_of_moves (h : Moves (.new text) lx painted) (hend : lx.rest = []) :
    (Lexer.new text).run text.toList.length = .ok lx := by
  have hrun := h.runs 0 lx (run_done hend 0)
  rwa [Nat.add_zero, ← List.length_map Prod.fst, painted_of_moves h hend] at hrun

/-- A run that moves to the end of the text gives the tokens that tile it. -/
theorem tokenize_of_moves (h : Moves (.new text) lx painted) (hend : lx.rest = []) :
    painted.map Prod.fst = text.toList ∧ tokenize text = .ok lx.tokens ∧
      Tiles isWhitespace (0, 0) painted (lx.tokens.map piece) := by
  obtain ⟨tokens, htokens, htiles⟩ := h.tokens
  refine ⟨painted_of_moves h hend, ?_, ?_⟩
  · rw [tokenize, run_of_moves h hend]
    rfl
  · rw [htokens]
    exact htiles

end

end LocalDevProxy.HighlightSteps
