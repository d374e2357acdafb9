import LocalDevProxy.HighlightSteps

namespace LocalDevProxy.HighlightCover

open Lib.Fallible Lib.Tiling Text Highlight HighlightSteps

theorem singleLineLength_le (quote : Char) (chars : List Char) :
    singleLineLength quote chars ≤ chars.length := by
  fun_induction singleLineLength quote chars with
  | case1 => exact Nat.le_refl _
  | case2 => exact Nat.zero_le _
  | case3 c hc => exact Nat.le_refl _
  | case4 d chars => exact Nat.zero_le _
  | case5 c d chars hc hescape ih => simp only [List.length_cons]; omega
  | case6 d chars hc hescape => simp only [List.length_cons]; omega
  | case7 c d chars hc hescape hquote ih => simp only [List.length_cons] at ih ⊢; omega

theorem stringLength_le (quote : Char) (chars : List Char) : stringLength quote chars ≤ chars.length + 1 := by
  rw [stringLength]
  split
  · exact Nat.min_le_right _ _
  · have := singleLineLength_le quote chars
    omega

theorem stringLength_pos (quote : Char) (chars : List Char) : 1 ≤ stringLength quote chars := by
  rw [stringLength]
  split <;> omega

structure Bite where
  kind : Kind
  shown : List Char
  skipped : List Char
  nesting : List Char
  expectKey : Bool

/-- What a pass takes at a character, given what is left after it, the open
brackets and whether a key is next. -/
def bite (nesting : List Char) (expectKey : Bool) (c : Char) (cs : List Char) : Bite :=
  if c = '\n' then ⟨.plain, [], [c], nesting, nesting.isEmpty || expectKey⟩
  else if isWhitespace c then ⟨.plain, [], [c], nesting, expectKey⟩
  else if c = '#' then ⟨.comment, c :: cs.takeWhile (· ≠ '\n'), [], nesting, expectKey⟩
  else if c = '[' ∧ expectKey = true ∧ nesting.isEmpty = true then
    let ends := headerEnds none 0 0 cs
    ⟨.table, c :: cs.take ends.1, (cs.take ends.2).drop ends.1, nesting, expectKey⟩
  else if c = '"' ∨ c = '\'' then
    ⟨if expectKey then .key else .string, c :: cs.take (stringLength c cs - 1), [], nesting, expectKey⟩
  else if c = '=' then ⟨.punctuation, [c], [], nesting, false⟩
  else if c = '.' ∧ expectKey = true then ⟨.punctuation, [c], [], nesting, expectKey⟩
  else if c = '[' ∨ c = '{' then ⟨.punctuation, [c], [], c :: nesting, c = '{'⟩
  else if c = ']' ∨ c = '}' then
    ⟨.punctuation, [c], [], if nesting.head? = some (opening c) then nesting.tail else nesting, false⟩
  else if c = ',' then ⟨.punctuation, [c], [], nesting, nesting.head? = some '{'⟩
  else if isWordChar c then
    let word := c :: cs.takeWhile (goesOn expectKey)
    ⟨if expectKey then .key else valueKind (.ofList word), word, [], nesting, expectKey⟩
  else ⟨.plain, [c], [], nesting, expectKey⟩

variable {lx : Lexer}

/-- A pass takes a bite, of one character at least, and skips only blanks. -/
structure Takes (lx : Lexer) (c : Char) (b : Bite) : Prop where
  rest : ∃ more, lx.rest = b.shown ++ (b.skipped ++ more)
  nonempty : b.shown ++ b.skipped ≠ []
  pass : lx.pass c = .ok (take lx b.kind b.shown b.skipped b.nesting b.expectKey)
  blanks : ∀ d ∈ b.skipped, isWhitespace d = true

theorem takes_shown {c : Char} {b : Bite} {more : List Char} (hrest : lx.rest = b.shown ++ more)
    (hshown : b.shown ≠ []) (hskipped : b.skipped = [])
    (hpass : lx.pass c = .ok (take lx b.kind b.shown [] b.nesting b.expectKey)) : Takes lx c b := by
  refine ⟨⟨more, ?_⟩, ?_, ?_, ?_⟩
  · rw [hskipped, hrest]
    rfl
  · rw [hskipped, List.append_nil]
    exact hshown
  · rw [hskipped, hpass]
  · rw [hskipped]
    exact fun d hd => absurd hd List.not_mem_nil

theorem head?_dropWhile (p : Char → Bool) (cs : List Char) : ∀ c ∈ (cs.dropWhile p).head?, p c = false := by
  intro c hc
  have hhead := List.head?_dropWhile_not p cs
  rw [hc] at hhead
  exact hhead

theorem takes_comment (h : Sound lx) {cs : List Char} (hrest : lx.rest = '#' :: cs) :
    Takes lx '#' ⟨.comment, '#' :: cs.takeWhile (· ≠ '\n'), [], lx.nesting, lx.expectKey⟩ := by
  have hsplit : lx.rest = '#' :: cs.takeWhile (· ≠ '\n') ++ cs.dropWhile (· ≠ '\n') := by
    rw [List.cons_append, List.takeWhile_append_dropWhile, hrest]
  have hbody : '\n' ∉ cs.takeWhile (· ≠ '\n') := fun hmem => by simpa using List.mem_takeWhile_imp hmem
  have hmore : ∀ c ∈ (cs.dropWhile (· ≠ '\n')).head?, c = '\n' := fun c hc => by
    simpa using head?_dropWhile _ cs c hc
  exact takes_shown hsplit (List.cons_ne_nil _ _) rfl (pass_comment h hsplit hbody hmore)

theorem takes_string (h : Sound lx) {quote : Char} {cs : List Char} (hquote : quote = '"' ∨ quote = '\'')
    (hrest : lx.rest = quote :: cs) :
    Takes lx quote ⟨if lx.expectKey then .key else .string, quote :: cs.take (stringLength quote cs - 1), [],
      lx.nesting, lx.expectKey⟩ := by
  have hle := stringLength_le quote cs
  have hpos := stringLength_pos quote cs
  have hsplit : lx.rest = (quote :: cs.take (stringLength quote cs - 1)) ++
      cs.drop (stringLength quote cs - 1) := by
    rw [List.cons_append, List.take_append_drop, hrest]
  have hlength : stringLength quote (cs.take (stringLength quote cs - 1) ++
      cs.drop (stringLength quote cs - 1)) = (quote :: cs.take (stringLength quote cs - 1)).length := by
    rw [List.take_append_drop, List.length_cons, List.length_take]
    omega
  exact takes_shown hsplit (List.cons_ne_nil _ _) rfl (pass_string h hquote hsplit hlength)

theorem takes_word (h : Sound lx) {c : Char} {cs : List Char} (hc : isWordChar c = true)
    (hrest : lx.rest = c :: cs) :
    Takes lx c ⟨if lx.expectKey then .key else valueKind (.ofList (c :: cs.takeWhile (goesOn lx.expectKey))),
      c :: cs.takeWhile (goesOn lx.expectKey), [], lx.nesting, lx.expectKey⟩ := by
  have hsplit : lx.rest = (c :: cs.takeWhile (goesOn lx.expectKey)) ++ cs.dropWhile (goesOn lx.expectKey) := by
    rw [List.cons_append, List.takeWhile_append_dropWhile, hrest]
  have hpass := pass_word h hc hsplit (fun d hd => List.mem_takeWhile_imp hd) (head?_dropWhile _ cs)
  exact takes_shown hsplit (List.cons_ne_nil _ _) rfl hpass

/-- Where a header ends does not depend on where it begins. -/
theorem headerEnds_add (quote : Option Char) (n stop i : Nat) (chars : List Char) :
    headerEnds quote (n + stop) (n + i) chars =
      (n + (headerEnds quote stop i chars).1, n + (headerEnds quote stop i chars).2) := by
  induction chars generalizing quote stop i with
  | nil => rfl
  | cons c chars ih =>
      rw [headerEnds, headerEnds]
      split
      · rfl
      · rw [← ih, Nat.add_assoc]
        split <;> rfl

theorem takes_header (h : Sound lx) {cs : List Char} (hrest : lx.rest = '[' :: cs)
    (hkey : lx.expectKey = true) (hnesting : lx.nesting = []) :
    Takes lx '[' ⟨.table, '[' :: cs.take (headerEnds none 0 0 cs).1,
      (cs.take (headerEnds none 0 0 cs).2).drop (headerEnds none 0 0 cs).1, lx.nesting, lx.expectKey⟩ := by
  obtain ⟨shown, skipped, more, hsplit, hends, hskipped⟩ :=
    headerEnds_split none 0 cs (fun c (hc : c ∈ []) => by cases hc)
  rw [List.nil_append] at hsplit
  rw [List.length_nil, Nat.zero_add, Nat.zero_add] at hends
  have hshown : cs.take shown.length = shown := by
    rw [hsplit, List.take_left]
  have hblanks : (cs.take (shown.length + skipped.length)).drop shown.length = skipped := by
    rw [hsplit, ← List.append_assoc, ← List.length_append, List.take_left, List.drop_left]
  have hsplit' : lx.rest = ('[' :: shown) ++ (skipped ++ more) := by
    rw [hrest, hsplit]
    rfl
  have hends' : headerEnds none lx.i lx.i lx.rest =
      (lx.i + ('[' :: shown).length, lx.i + ('[' :: shown).length + skipped.length) := by
    rw [hrest, headerEnds, if_neg (by decide), if_neg (by decide)]
    have hadd := headerEnds_add none (lx.i + 1) 0 0 cs
    rw [Nat.add_zero, hends] at hadd
    refine hadd.trans (Prod.ext ?_ ?_) <;> simp only [List.length_cons] <;> omega
  rw [hends]
  simp only [hshown, hblanks]
  exact ⟨⟨more, hsplit'⟩, List.cons_ne_nil _ _, pass_header h hkey hnesting hsplit' hends', hskipped⟩

/-- A pass takes its bite. -/
theorem pass_bite (h : Sound lx) {c : Char} {cs : List Char} (hrest : lx.rest = c :: cs) :
    Takes lx c (bite lx.nesting lx.expectKey c cs) := by
  have hchar : lx.rest = [c] ++ cs := hrest
  have hblank (kind : Kind) (expectKey : Bool) (hc : isWhitespace c = true)
      (hpass : lx.pass c = .ok (take lx kind [] [c] lx.nesting expectKey)) :
      Takes lx c ⟨kind, [], [c], lx.nesting, expectKey⟩ :=
    ⟨⟨cs, hrest⟩, List.cons_ne_nil _ _, hpass, List.forall_mem_singleton.mpr hc⟩
  rw [bite]
  by_cases hnewline : c = '\n'
  · rw [if_pos hnewline]
    subst hnewline
    exact hblank _ _ (by decide) (pass_newline lx)
  rw [if_neg hnewline]
  by_cases hspace : isWhitespace c = true
  · rw [if_pos hspace]
    exact hblank _ _ hspace (pass_space lx hspace hnewline)
  rw [if_neg hspace]
  by_cases hcomment : c = '#'
  · rw [if_pos hcomment]
    subst hcomment
    exact takes_comment h hrest
  rw [if_neg hcomment]
  by_cases hheader : c = '[' ∧ lx.expectKey = true ∧ lx.nesting.isEmpty = true
  · rw [if_pos hheader]
    obtain ⟨rfl, hkey, hnesting⟩ := hheader
    exact takes_header h hrest hkey (List.isEmpty_iff.mp hnesting)
  rw [if_neg hheader]
  by_cases hquote : c = '"' ∨ c = '\''
  · rw [if_pos hquote]
    exact takes_string h hquote hrest
  rw [if_neg hquote]
  by_cases hequals : c = '='
  · rw [if_pos hequals]
    subst hequals
    exact takes_shown hchar (List.cons_ne_nil _ _) rfl (pass_equals h hrest)
  rw [if_neg hequals]
  by_cases hdot : c = '.' ∧ lx.expectKey = true
  · rw [if_pos hdot]
    obtain ⟨rfl, hkey⟩ := hdot
    exact takes_shown hchar (List.cons_ne_nil _ _) rfl (pass_dot h hrest hkey)
  rw [if_neg hdot]
  by_cases hopen : c = '[' ∨ c = '{'
  · rw [if_pos hopen]
    exact takes_shown hchar (List.cons_ne_nil _ _) rfl (pass_open h hopen hrest hheader)
  rw [if_neg hopen]
  by_cases hclose : c = ']' ∨ c = '}'
  · rw [if_pos hclose]
    exact takes_shown hchar (List.cons_ne_nil _ _) rfl (pass_close h hclose hrest)
  rw [if_neg hclose]
  by_cases hcomma : c = ','
  · rw [if_pos hcomma]
    subst hcomma
    exact takes_shown hchar (List.cons_ne_nil _ _) rfl (pass_comma h hrest)
  rw [if_neg hcomma]
  by_cases hword : isWordChar c = true
  · rw [if_pos hword]
    exact takes_word h hword hrest
  rw [if_neg hword]
  -- what is left is no mark, or a dot in a value
  refine takes_shown hchar (List.cons_ne_nil _ _) rfl
    (pass_other h hrest (Bool.eq_false_iff.mpr hspace) (Bool.eq_false_iff.mpr hword) fun hmark => ?_)
  simp only [marks, List.mem_cons, List.not_mem_nil, or_false] at hmark
  rw [not_or] at hquote hopen hclose
  have hc : c = '.' := by
    simpa [hnewline, hcomment, hopen, hquote, hequals, hclose, hcomma] using hmark
  exact ⟨hc, Bool.eq_false_iff.mpr fun hkey => hdot ⟨hc, hkey⟩⟩

/-- A pass shows some characters and skips blanks, one of either at least. -/
def Advances (lx : Lexer) (c : Char) : Prop :=
  ∃ kind shown skipped more nesting expectKey, lx.rest = shown ++ (skipped ++ more) ∧ shown ++ skipped ≠ [] ∧
    lx.pass c = .ok (take lx kind shown skipped nesting expectKey) ∧ ∀ d ∈ skipped, isWhitespace d = true

theorem pass_advances (h : Sound lx) {c : Char} {cs : List Char} (hrest : lx.rest = c :: cs) : Advances lx c := by
  have htakes := pass_bite h hrest
  obtain ⟨more, hsplit⟩ := htakes.rest
  exact ⟨_, _, _, more, _, _, hsplit, htakes.nonempty, htakes.pass, htakes.blanks⟩

def unpainted (chars : List Char) : List (Char × Option Kind) := chars.map fun c => (c, none)

theorem map_unpainted (chars : List Char) : (unpainted chars).map Prod.fst = chars := by
  rw [unpainted, List.map_map]
  exact List.map_id chars

theorem unpainted_append (chars more : List Char) :
    unpainted (chars ++ more) = unpainted chars ++ unpainted more := List.map_append

/-- From every sound state the run reaches the end of the text. -/
theorem exists_moves (h : Sound lx) : ∃ lx', Moves lx lx' (unpainted lx.rest) ∧ lx'.rest = [] := by
  induction hlength : lx.rest.length using Nat.strongRecOn generalizing lx with
  | ind n ih =>
      cases hrest : lx.rest with
      | nil => exact ⟨lx, .refl h, hrest⟩
      | cons c cs =>
          obtain ⟨kind, shown, skipped, more, nesting, expectKey, hsplit, hne, hpass, hskipped⟩ :=
            pass_advances h hrest
          have hpainted : lx.rest = (unpainted shown).map Prod.fst ++ ((unpainted skipped).map Prod.fst ++ more) := by
            rw [map_unpainted, map_unpainted, hsplit]
          rw [← map_unpainted shown, ← map_unpainted skipped] at hpass
          have hblanks : ∀ d ∈ unpainted skipped, isWhitespace d.1 = true := by
            intro d hd
            obtain ⟨e, he, rfl⟩ := List.mem_map.mp hd
            exact hskipped e he
          have hne' : unpainted shown ++ unpainted skipped ≠ [] := by
            rwa [← unpainted_append, Ne, unpainted, List.map_eq_nil_iff]
          have hmove := moves_take h hpainted (by rw [hrest]; rfl) hne' hpass
            (fun d k hmem _ => by simp [unpainted] at hmem) hblanks
          have hmore : (take lx kind ((unpainted shown).map Prod.fst) ((unpainted skipped).map Prod.fst) nesting
              expectKey).rest = more := take_rest hpainted
          have hshorter : more.length < n := by
            have hpos := List.length_pos_iff.mpr hne
            rw [List.length_append] at hpos
            rw [← hlength, hsplit, List.length_append, List.length_append]
            omega
          obtain ⟨lx', hmove', hend⟩ := ih more.length hshorter hmove.sound (congrArg List.length hmore)
          refine ⟨lx', ?_, hend⟩
          have hall := hmove.trans hmove'
          rwa [hmore, ← unpainted_append, ← unpainted_append, List.append_assoc, ← hsplit, hrest] at hall

def Before (t u : Token) : Prop :=
  t.line < u.line ∨ t.line = u.line ∧ t.column + t.text.toList.length ≤ u.column

def Has (t : Token) (p : Place) : Prop :=
  p.1 = t.line ∧ t.column ≤ p.2 ∧ p.2 < t.column + t.text.toList.length

instance (t : Token) (p : Place) : Decidable (Has t p) := inferInstanceAs (Decidable (_ ∧ _))

/-- The tokens of a text are its lines without the blanks between them. -/
theorem tokenize_covers (text : String) : ∃ tokens, tokenize text = .ok tokens ∧
    (∀ t ∈ tokens, t.text ≠ "" ∧ '\n' ∉ t.text.toList ∧
      (∀ c ∈ t.text.toList.head?, isWhitespace c = false) ∧
      ∀ c ∈ t.text.toList.getLast?, isWhitespace c = false) ∧
    (∀ t ∈ tokens, ∀ i, (hi : i < t.text.toList.length) →
      charAt text.toList (t.line, t.column + i) = some t.text.toList[i]) ∧
    tokens.Pairwise Before ∧
    ∀ p c, charAt text.toList p = some c → isWhitespace c = false → tokens.countP (fun t => Has t p) = 1 := by
  obtain ⟨lx, hmoves, hend⟩ := exists_moves (new_sound text)
  obtain ⟨hpainted, htokens, htiles⟩ := tokenize_of_moves hmoves hend
  refine ⟨lx.tokens, htokens, fun t ht => ?_, fun t ht i hi => ?_, ?_, fun p c hp hc => ?_⟩
  · have htrimmed := htiles.trimmed (piece t) (List.mem_map_of_mem ht)
    refine ⟨fun he => htrimmed.nonempty ?_, htrimmed.oneLine, htrimmed.first, htrimmed.last⟩
    rw [piece, he]
    rfl
  · have hat := htiles.charAt (placeAfter_nil (0, 0)) (piece t) (List.mem_map_of_mem ht) i hi
    rw [hpainted] at hat
    exact hat
  · have hordered : lx.tokens.Pairwise fun t u => (piece t).Precedes (piece u) :=
      List.pairwise_map.mp htiles.ordered
    exact hordered
  · obtain ⟨part, rest, htext, rfl⟩ := exists_of_charAt hp
    have hsplit : unpainted (Lexer.new text).rest = unpainted part ++ (c, none) :: unpainted rest := by
      change unpainted text.toList = _
      rw [htext, unpainted_append]
      rfl
    have hcount := (htiles.holds hsplit hc).1
    rw [map_unpainted, List.countP_map] at hcount
    exact hcount

end LocalDevProxy.HighlightCover
