import LocalDevProxy.HighlightCover

namespace LocalDevProxy.HighlightCompose

open Lib.Fallible Lib.Tiling Text Highlight HighlightSteps HighlightCover

def multiLineCloses (quote : Char) : List Char → Bool
  | [] => false
  | [_] => false
  | c :: d :: chars =>
      if c = '\\' ∧ quote = '"' then multiLineCloses quote chars
      else if c = quote ∧ d = quote ∧ chars.head? = some quote then true
      else multiLineCloses quote (d :: chars)

/-- A multi-line string begins at a character, and the rest of the text does not close it. -/
def opensString (c : Char) (cs : List Char) : Bool :=
  decide (c = '"' ∨ c = '\'') && cs[0]? == some c && cs[1]? == some c && !multiLineCloses c (cs.drop 2)

/-- Whether the loop of run comes to a multi-line string that the text does not close. -/
def endsInString : Nat → Lexer → Bool
  | 0, _ => false
  | fuel + 1, lx =>
      match lx.rest with
      | [] => false
      | c :: cs => opensString c cs ||
          match lx.pass c with
          | .ok next => endsInString fuel next
          | .error _ => false

def newlines (text : String) : Nat := text.toList.count '\n'

def shifted (n : Nat) (t : Token) : Token := { t with line := t.line + n }

/-- Nothing is left of a line where the text goes on. -/
def Stops (suffix : List Char) : Prop := ∀ c ∈ suffix.head?, c = '\n'

variable {suffix : List Char}

theorem stops_cases (h : Stops suffix) : suffix = [] ∨ ∃ more, suffix = '\n' :: more := by
  cases suffix with
  | nil => exact .inl rfl
  | cons c more =>
      obtain rfl := h c rfl
      exact .inr ⟨more, rfl⟩

theorem stops_newline (more : List Char) : Stops ('\n' :: more) := fun _ hc => (Option.some.inj hc).symm

theorem takeWhile_stops (h : Stops suffix) {p : Char → Bool} (hp : p '\n' = false) (cs : List Char) :
    (cs ++ suffix).takeWhile p = cs.takeWhile p := by
  induction cs with
  | nil =>
      rcases stops_cases h with rfl | ⟨more, rfl⟩
      · rfl
      · rw [List.nil_append, List.takeWhile_cons_of_neg (by rw [hp]; exact Bool.false_ne_true)]
        rfl
  | cons c cs ih => rw [List.cons_append, List.takeWhile_cons, List.takeWhile_cons, ih]

theorem headerEnds_stops (h : Stops suffix) (quote : Option Char) (stop i : Nat) (cs : List Char) :
    headerEnds quote stop i (cs ++ suffix) = headerEnds quote stop i cs := by
  induction cs generalizing quote stop i with
  | nil =>
      rcases stops_cases h with rfl | ⟨more, rfl⟩
      · rfl
      · rw [List.nil_append, headerEnds, headerEnds, if_pos (.inl rfl)]
  | cons c cs ih => rw [List.cons_append, headerEnds, headerEnds, ih]

theorem headerEnds_le (cs : List Char) :
    (headerEnds none 0 0 cs).1 ≤ cs.length ∧ (headerEnds none 0 0 cs).2 ≤ cs.length := by
  obtain ⟨shown, skipped, more, hsplit, hends, _⟩ :=
    headerEnds_split none 0 cs (fun c (hc : c ∈ []) => by cases hc)
  rw [List.nil_append] at hsplit
  rw [List.length_nil, Nat.zero_add, Nat.zero_add] at hends
  rw [hends, hsplit, List.length_append, List.length_append]
  exact ⟨by simp only; omega, by simp only; omega⟩

theorem singleLineLength_stops (h : Stops suffix) (quote : Char) (cs : List Char) :
    singleLineLength quote (cs ++ suffix) = singleLineLength quote cs := by
  fun_induction singleLineLength quote cs with
  | case1 =>
      rcases stops_cases h with rfl | ⟨_ | ⟨d, more⟩, rfl⟩
      · rfl
      · rfl
      · rw [List.nil_append, singleLineLength, if_pos rfl]
  | case2 =>
      rcases stops_cases h with rfl | ⟨more, rfl⟩
      · rfl
      · rw [List.singleton_append, singleLineLength, if_pos rfl]
  | case3 c hc =>
      rcases stops_cases h with rfl | ⟨more, rfl⟩
      · rw [List.append_nil, singleLineLength, if_neg hc]
      · rw [List.singleton_append, singleLineLength, if_neg hc, if_neg (fun he => he.2.2 rfl)]
        have hend : singleLineLength quote ('\n' :: more) = 0 := by
          cases more <;> rw [singleLineLength, if_pos rfl]
        rw [hend]
        split <;> rfl
  | case4 d chars => rw [List.cons_append, List.cons_append, singleLineLength, if_pos rfl]
  | case5 c d chars hc hescape ih =>
      rw [List.cons_append, List.cons_append, singleLineLength, if_neg hc, if_pos hescape, ih]
  | case6 d chars hc hescape =>
      rw [List.cons_append, List.cons_append, singleLineLength, if_neg hc, if_neg hescape, if_pos rfl]
  | case7 c d chars hc hescape hquote ih =>
      rw [List.cons_append, List.cons_append, singleLineLength, if_neg hc, if_neg hescape, if_neg hquote]
      rw [List.cons_append] at ih
      rw [ih]

/-- A string that is closed ends where it does whatever follows on the next lines. -/
theorem multiLineLength_stops (h : Stops suffix) {quote : Char} (hquote : quote ≠ '\n') {cs : List Char}
    (hcloses : multiLineCloses quote cs = true) :
    multiLineLength quote (cs ++ suffix) = multiLineLength quote cs ∧ multiLineLength quote cs ≤ cs.length := by
  fun_induction multiLineCloses quote cs with
  | case1 => cases hcloses
  | case2 => cases hcloses
  | case3 c d chars hescape ih =>
      obtain ⟨hsame, hle⟩ := ih hcloses
      rw [List.cons_append, List.cons_append, multiLineLength, multiLineLength, if_pos hescape, if_pos hescape,
        hsame]
      exact ⟨rfl, by simp only [List.length_cons]; omega⟩
  | case4 c d chars hescape hdelimiter =>
      obtain ⟨more, rfl⟩ : ∃ more, chars = quote :: more := by
        cases chars with
        | nil => cases hdelimiter.2.2
        | cons e more => exact ⟨more, congrArg (· :: more) (Option.some.inj hdelimiter.2.2)⟩
      have hinside : ((more ++ suffix).take 2).takeWhile (· = quote) = (more.take 2).takeWhile (· = quote) := by
        rw [← List.take_takeWhile, ← List.take_takeWhile, takeWhile_stops h (decide_eq_false hquote.symm)]
      have hcount := (List.takeWhile_prefix (· = quote) (l := more.take 2)).length_le
      rw [List.length_take] at hcount
      have hlength (rest : List Char) : multiLineLength quote (c :: d :: quote :: rest) =
          3 + ((rest.take 2).takeWhile (· = quote)).length := by
        rw [multiLineLength, if_neg hescape, if_pos ⟨hdelimiter.1, hdelimiter.2.1, rfl⟩, List.tail_cons]
      rw [List.cons_append, List.cons_append, List.cons_append, hlength, hlength, hinside]
      exact ⟨rfl, by simp only [List.length_cons]; omega⟩
  | case5 c d chars hescape hdelimiter ih =>
      obtain ⟨hsame, hle⟩ := ih hcloses
      have hdelimiter' : ¬ (c = quote ∧ d = quote ∧ (chars ++ suffix).head? = some quote) := by
        rintro ⟨hc, hd, hhead⟩
        cases chars with
        | nil => exact hquote (h quote hhead)
        | cons e chars => exact hdelimiter ⟨hc, hd, hhead⟩
      rw [List.cons_append] at hsame
      rw [List.cons_append, List.cons_append, multiLineLength, multiLineLength, if_neg hescape, if_neg hescape,
        if_neg hdelimiter, if_neg hdelimiter', hsame]
      exact ⟨rfl, by simp only [List.length_cons] at hle ⊢; omega⟩

theorem getElem?_stops (h : Stops suffix) {quote : Char} (hquote : quote ≠ '\n') (cs : List Char) :
    (cs ++ suffix)[0]? = some quote ∧ (cs ++ suffix)[1]? = some quote ↔
      cs[0]? = some quote ∧ cs[1]? = some quote := by
  rcases stops_cases h with rfl | ⟨more, rfl⟩
  · rw [List.append_nil]
  · rcases cs with _ | ⟨c, _ | ⟨d, cs⟩⟩ <;> simp [hquote.symm]

theorem stringLength_stops (h : Stops suffix) {quote : Char} (hquote : quote = '"' ∨ quote = '\'')
    {cs : List Char} (hclosed : opensString quote cs = false) :
    stringLength quote (cs ++ suffix) = stringLength quote cs := by
  have hne : quote ≠ '\n' := by rcases hquote with rfl | rfl <;> decide
  rw [stringLength, stringLength]
  by_cases hdelimiter : cs[0]? = some quote ∧ cs[1]? = some quote
  · rw [if_pos ((getElem?_stops h hne cs).mpr hdelimiter), if_pos hdelimiter]
    obtain ⟨body, rfl⟩ : ∃ body, cs = quote :: quote :: body := by
      rcases cs with _ | ⟨first, _ | ⟨second, body⟩⟩
      · cases hdelimiter.1
      · cases hdelimiter.2
      · obtain rfl := Option.some.inj hdelimiter.1
        obtain rfl := Option.some.inj hdelimiter.2
        exact ⟨body, rfl⟩
    have hcloses : multiLineCloses quote body = true := by
      simpa [opensString, hquote] using hclosed
    obtain ⟨hsame, hle⟩ := multiLineLength_stops h hne hcloses
    simp only [List.cons_append, List.drop_succ_cons, List.drop_zero, List.length_cons, List.length_append, hsame]
    omega
  · rw [if_neg (fun he => hdelimiter ((getElem?_stops h hne cs).mp he)), if_neg hdelimiter,
      singleLineLength_stops h]

/-- A pass takes the same at the end of a line as at the end of the text,
outside a string that is still open. -/
theorem bite_stops (h : Stops suffix) (nesting : List Char) (expectKey : Bool) {c : Char} {cs : List Char}
    (hclosed : opensString c cs = false) :
    bite nesting expectKey c (cs ++ suffix) = bite nesting expectKey c cs := by
  have hcomment : (cs ++ suffix).takeWhile (· ≠ '\n') = cs.takeWhile (· ≠ '\n') := takeWhile_stops h rfl cs
  have hword : (cs ++ suffix).takeWhile (goesOn expectKey) = cs.takeWhile (goesOn expectKey) :=
    takeWhile_stops h (by cases expectKey <;> decide) cs
  have hle := headerEnds_le cs
  have hstop : (cs ++ suffix).take (headerEnds none 0 0 cs).1 = cs.take (headerEnds none 0 0 cs).1 :=
    List.take_append_of_le_length hle.1
  have hresume : (cs ++ suffix).take (headerEnds none 0 0 cs).2 = cs.take (headerEnds none 0 0 cs).2 :=
    List.take_append_of_le_length hle.2
  have hstring (hquote : c = '"' ∨ c = '\'') :
      (cs ++ suffix).take (stringLength c (cs ++ suffix) - 1) = cs.take (stringLength c cs - 1) := by
    have hlength := stringLength_le c cs
    rw [stringLength_stops h hquote hclosed, List.take_append_of_le_length (by omega)]
  rw [bite, bite, hcomment, hword, headerEnds_stops h]
  simp only [hstop, hresume]
  by_cases hquote : c = '"' ∨ c = '\''
  · rw [hstring hquote]
  · simp only [if_neg hquote]

/-- A lexer does what another one does, some lines further down, after some
tokens and with some text left behind. -/
structure Mirrors (told : List Token) (n : Nat) (suffix : List Char) (lx lx' : Lexer) : Prop where
  sound : Sound lx
  sound' : Sound lx'
  rest : lx'.rest = lx.rest ++ suffix
  nesting : lx'.nesting = lx.nesting
  expectKey : lx'.expectKey = lx.expectKey
  place : place lx' = below n (place lx)
  tokens : lx'.tokens = told ++ lx.tokens.map (shifted n)

theorem tokensOf_below (n : Nat) (kind : Kind) (p : Place) (run : List Char) :
    tokensOf kind (below n p) run = (tokensOf kind p run).map (shifted n) := by
  rw [tokensOf, tokensOf, cut_below, List.map_map, List.map_map]
  rfl

variable {told : List Token} {n : Nat} {lx lx' : Lexer}

/-- A pass that takes the same on both sides keeps them alike. -/
theorem Mirrors.pass (h : Mirrors told n suffix lx lx') {c : Char} {cs : List Char} (hrest : lx.rest = c :: cs)
    (hbite : bite lx.nesting lx.expectKey c (cs ++ suffix) = bite lx.nesting lx.expectKey c cs) :
    ∃ next next', lx.pass c = .ok next ∧ lx'.pass c = .ok next' ∧ Mirrors told n suffix next next' := by
  have hrest' : lx'.rest = c :: (cs ++ suffix) := by rw [h.rest, hrest, List.cons_append]
  have htakes := pass_bite h.sound hrest
  have htakes' := pass_bite h.sound' hrest'
  rw [h.nesting, h.expectKey, hbite] at htakes'
  generalize bite lx.nesting lx.expectKey c cs = b at htakes htakes'
  obtain ⟨more, hsplit⟩ := htakes.rest
  have hsplit' : lx'.rest = b.shown ++ (b.skipped ++ (more ++ suffix)) := by
    rw [h.rest, hsplit, List.append_assoc, List.append_assoc]
  refine ⟨_, _, htakes.pass, htakes'.pass, take_sound h.sound hsplit, take_sound h.sound' hsplit', ?_, rfl, rfl,
    ?_, ?_⟩
  · rw [take_rest hsplit, take_rest hsplit']
  · rw [take_place hsplit, take_place hsplit', h.place, placeAfter_below]
  · rw [take, take, h.place, tokensOf_below, h.tokens, List.map_append, List.append_assoc]

/-- A run that comes to no open string is mirrored by the run of the other lexer. -/
theorem Mirrors.run (hstops : Stops suffix) {fuel : Nat} {final : Lexer} (h : Mirrors told n suffix lx lx')
    (hrun : lx.run fuel = .ok final) (hclosed : suffix = [] ∨ endsInString fuel lx = false) :
    ∃ final', Mirrors told n suffix final final' ∧ final.rest = [] ∧
      ∀ extra last, final'.run extra = .ok last → lx'.run (fuel + extra) = .ok last := by
  induction fuel generalizing lx lx' with
  | zero =>
      cases hrest : lx.rest with
      | nil =>
          rw [run_done hrest] at hrun
          cases hrun
          exact ⟨lx', h, hrest, fun extra last hlast => run_more hlast 0⟩
      | cons c cs =>
          rw [Lexer.run, peek_rest, hrest] at hrun
          cases hrun
  | succ fuel ih =>
      cases hrest : lx.rest with
      | nil =>
          rw [run_done hrest] at hrun
          cases hrun
          exact ⟨lx', h, hrest, fun extra last hlast => run_more hlast (fuel + 1)⟩
      | cons c cs =>
          have hbite : bite lx.nesting lx.expectKey c (cs ++ suffix) = bite lx.nesting lx.expectKey c cs := by
            rcases hclosed with rfl | hclosed
            · rw [List.append_nil]
            · rw [endsInString, hrest, Bool.or_eq_false_iff] at hclosed
              exact bite_stops hstops _ _ hclosed.1
          obtain ⟨next, next', hpass, hpass', hnext⟩ := h.pass hrest hbite
          rw [run_step (by rw [hrest]; rfl), hpass] at hrun
          have hclosed' : suffix = [] ∨ endsInString fuel next = false := by
            refine hclosed.imp_right fun hclosed => ?_
            rw [endsInString, hrest, Bool.or_eq_false_iff] at hclosed
            simpa only [hpass] using hclosed.2
          obtain ⟨final', hfinal, hend, hruns⟩ := ih hnext hrun hclosed'
          refine ⟨final', hfinal, hend, fun extra last hlast => ?_⟩
          have hhead : lx'.rest.head? = some c := by
            rw [h.rest, hrest]
            rfl
          rw [Nat.add_right_comm, run_step hhead, hpass']
          exact hruns extra last hlast

theorem line_le {text : String} {tokens : List Token} (h : tokenize text = .ok tokens) :
    ∀ t ∈ tokens, t.line ≤ newlines text := by
  obtain ⟨tokens', htokens, htrimmed, hat, _⟩ := tokenize_covers text
  obtain rfl : tokens' = tokens := Except.ok.inj (htokens.symm.trans h)
  intro t ht
  have hpos : 0 < t.text.toList.length := by
    refine List.length_pos_iff.mpr fun he => (htrimmed t ht).1 (String.toList_inj.mp he)
  obtain ⟨part, rest, htext, hplace⟩ := exists_of_charAt (hat t ht 0 hpos)
  have hline := placeAfter_line_count (0, 0) part
  rw [hplace, Nat.zero_add] at hline
  rw [newlines, htext, List.count_append]
  simp only at hline
  omega

/-- A run over a whole text ends where the text does. -/
theorem final_place {text : String} {final : Lexer} (hrun : (Lexer.new text).run text.toList.length = .ok final) :
    place final = placeAfter (0, 0) text.toList := by
  obtain ⟨lx, hmoves, hend⟩ := exists_moves (new_sound text)
  obtain rfl := Except.ok.inj (hrun.symm.trans (run_of_moves hmoves hend))
  rw [hmoves.place, painted_of_moves hmoves hend]
  rfl

/-- A text that the lexer finishes outside brackets and open strings is coloured
on its own: what follows on the next lines has the tokens that it has alone. -/
theorem tokenize_composes (a b : String) (final : Lexer)
    (hrun : (Lexer.new a).run a.toList.length = .ok final) (hnesting : final.nesting = [])
    (hclosed : endsInString a.toList.length (.new a) = false) :
    ∃ tokens tokens', tokenize a = .ok tokens ∧ tokenize b = .ok tokens' ∧
      tokenize (a ++ "\n" ++ b) = .ok (tokens ++ tokens'.map (shifted (newlines a + 1))) ∧
      (tokens ++ tokens'.map (shifted (newlines a + 1))).filter (fun t => t.line ≤ newlines a) = tokens := by
  have htext : (a ++ "\n" ++ b).toList = a.toList ++ '\n' :: b.toList := by
    rw [String.toList_append, String.toList_append, List.append_assoc]
    rfl
  have ha : tokenize a = .ok final.tokens := by rw [tokenize, hrun]; rfl
  obtain ⟨tokens', hb, _⟩ := tokenize_covers b
  obtain ⟨last, hlast, rfl⟩ : ∃ last, (Lexer.new b).run b.toList.length = .ok last ∧ last.tokens = tokens' := by
    obtain ⟨last, hlast, htokens⟩ := bind_eq_ok.mp hb
    exact ⟨last, hlast, Except.ok.inj htokens⟩
  -- the whole text is read like a, up to the end of a
  have hstart : Mirrors [] 0 ('\n' :: b.toList) (.new a) (.new (a ++ "\n" ++ b)) :=
    ⟨new_sound a, new_sound _, htext, rfl, rfl, rfl, rfl⟩
  obtain ⟨middle, hmiddle, hend, hruns⟩ := hstart.run (stops_newline _) hrun (.inr hclosed)
  -- the newline makes it ready for a key again
  have hrest : middle.rest = '\n' :: b.toList := by rw [hmiddle.rest, hend, List.nil_append]
  have hsplit : middle.rest = [] ++ (['\n'] ++ b.toList) := hrest
  have hready : (middle.nesting.isEmpty || middle.expectKey) = true := by
    rw [hmiddle.nesting, hnesting]
    rfl
  have hpass := pass_newline middle
  rw [hready, hmiddle.nesting, hnesting] at hpass
  have hplace : place (take middle .plain [] ['\n'] [] true) = below (newlines a + 1) (0, 0) := by
    have hline := placeAfter_line_count (0, 0) a.toList
    rw [take_place hsplit, List.nil_append, placeAfter_cons, placeAfter_nil, advance_newline, hmiddle.place,
      final_place hrun, below, below, hline]
    exact Prod.ext (Nat.add_assoc 0 _ 1) rfl
  have htokens : (take middle .plain [] ['\n'] [] true).tokens = final.tokens := by
    rw [take_nothing, hmiddle.tokens, List.nil_append]
    exact List.map_id'' (fun _ => rfl) _
  -- from there it is read like b
  have hnext : Mirrors final.tokens (newlines a + 1) [] (.new b) (take middle .plain [] ['\n'] [] true) := by
    refine ⟨new_sound b, take_sound hmiddle.sound' hsplit, ?_, rfl, rfl, hplace, ?_⟩
    · rw [take_rest hsplit]
      exact (List.append_nil _).symm
    · rw [htokens]
      exact (List.append_nil _).symm
  obtain ⟨final', hfinal', hend', hruns'⟩ := hnext.run (fun _ hc => by cases hc) hlast (.inl rfl)
  have hfinished : final'.rest = [] := by rw [hfinal'.rest, hend', List.nil_append]
  have hwhole : (Lexer.new (a ++ "\n" ++ b)).run (a ++ "\n" ++ b).toList.length = .ok final' := by
    rw [htext, List.length_append, List.length_cons]
    refine hruns _ _ ?_
    rw [run_step (by rw [hrest]; rfl), hpass]
    exact hruns' 0 final' (run_done hfinished 0)
  refine ⟨final.tokens, last.tokens, ha, hb, ?_, ?_⟩
  · rw [tokenize, hwhole, ← hfinal'.tokens]
    rfl
  · have hbelow : (last.tokens.map (shifted (newlines a + 1))).filter (fun t => t.line ≤ newlines a) = [] := by
      refine List.filter_eq_nil_iff.mpr fun t ht => ?_
      obtain ⟨u, _, rfl⟩ := List.mem_map.mp ht
      have hgt : ¬ (shifted (newlines a + 1) u).line ≤ newlines a := by
        simp only [shifted]
        omega
      exact fun hle => hgt (of_decide_eq_true hle)
    rw [List.filter_append, hbelow, List.append_nil]
    exact List.filter_eq_self.mpr fun t ht => decide_eq_true (line_le ha t ht)

/-- A string without its closing quote, and an escape that the line ends, stay on their line. -/
theorem tokenize_composes_unterminated : ∃ tokens tokens',
    tokenize "a = [\n1] # b\nc = \"d\\" = .ok tokens ∧ tokenize "[e]" = .ok tokens' ∧
      tokenize ("a = [\n1] # b\nc = \"d\\" ++ "\n" ++ "[e]") = .ok (tokens ++ tokens'.map (shifted 3)) ∧
      (tokens ++ tokens'.map (shifted 3)).filter (fun t => t.line ≤ 2) = tokens := by
  have hnewlines : newlines "a = [\n1] # b\nc = \"d\\" = 2 := by decide
  have hcomposes := tokenize_composes "a = [\n1] # b\nc = \"d\\" "[e]" _ rfl rfl (by decide)
  rwa [hnewlines] at hcomposes

end LocalDevProxy.HighlightCompose
