import LocalDevProxy.HighlightToml

namespace LocalDevProxy.HighlightHeaders

open Lib.Tiling Lib.TomlGrammar Text Highlight HighlightSteps HighlightCover HighlightToml

/-- Quotes come in pairs of one kind, when a backslash counts for nothing. -/
inductive Paired : List Char → Prop
  | nil : Paired []
  | char {c : Char} {text : List Char} (hc : ¬ IsQuote c) (h : Paired text) : Paired (c :: text)
  | quoted {quote : Char} {body text : List Char} (hquote : IsQuote quote) (hbody : quote ∉ body)
      (h : Paired text) : Paired (quote :: (body ++ quote :: text))

def scan (quote : Option Char) (text : List Char) : Option Char := text.foldl nextQuote quote

theorem scan_append (quote : Option Char) (text more : List Char) :
    scan quote (text ++ more) = scan (scan quote text) more := List.foldl_append

theorem nextQuote_plain {c : Char} (hc : ¬ IsQuote c) : nextQuote none c = none := if_neg hc

theorem nextQuote_opens {c : Char} (hc : IsQuote c) : nextQuote none c = some c := if_pos hc

theorem nextQuote_closes (quote : Char) : nextQuote (some quote) quote = none := if_pos rfl

theorem nextQuote_inside {quote c : Char} (hc : c ≠ quote) : nextQuote (some quote) c = some quote := if_neg hc

theorem scan_inside {quote : Char} {body : List Char} (h : quote ∉ body) : scan (some quote) body = some quote := by
  induction body with
  | nil => rfl
  | cons c body ih =>
      rw [List.mem_cons, not_or] at h
      rw [scan, List.foldl_cons, nextQuote_inside (Ne.symm h.1)]
      exact ih h.2

theorem scan_quoted {quote : Char} {body : List Char} (hquote : IsQuote quote) (hbody : quote ∉ body)
    (text : List Char) : scan none (quote :: (body ++ quote :: text)) = scan none text := by
  rw [scan, List.foldl_cons, nextQuote_opens hquote]
  change scan (some quote) (body ++ quote :: text) = _
  rw [scan_append, scan_inside hbody, scan, List.foldl_cons, nextQuote_closes]
  rfl

theorem scan_paired {text : List Char} (h : Paired text) : scan none text = none := by
  induction h with
  | nil => rfl
  | char hc _ ih =>
      rw [scan, List.foldl_cons, nextQuote_plain hc]
      exact ih
  | quoted hquote hbody _ ih => rw [scan_quoted hquote hbody, ih]

/-- An open quote that a text closes is closed by its next occurrence. -/
theorem scan_closes {quote : Char} {text : List Char} (h : scan (some quote) text = none) :
    ∃ body rest, text = body ++ quote :: rest ∧ quote ∉ body ∧ scan none rest = none := by
  induction text with
  | nil => cases h
  | cons c text ih =>
      rw [scan, List.foldl_cons] at h
      by_cases hc : c = quote
      · subst hc
        rw [nextQuote_closes] at h
        exact ⟨[], text, rfl, List.not_mem_nil, h⟩
      · rw [nextQuote_inside hc] at h
        obtain ⟨body, rest, rfl, hbody, hrest⟩ := ih h
        exact ⟨c :: body, rest, rfl, List.not_mem_cons_of_ne_of_not_mem (Ne.symm hc) hbody, hrest⟩

theorem paired_of_scan {text : List Char} (h : scan none text = none) : Paired text := by
  induction hlength : text.length using Nat.strongRecOn generalizing text with
  | ind n ih =>
      cases text with
      | nil => exact .nil
      | cons c text =>
          rw [List.length_cons] at hlength
          rw [scan, List.foldl_cons] at h
          by_cases hc : IsQuote c
          · rw [nextQuote_opens hc] at h
            obtain ⟨body, rest, rfl, hbody, hrest⟩ := scan_closes h
            rw [List.length_append, List.length_cons] at hlength
            exact .quoted hc hbody (ih rest.length (by omega) hrest rfl)
          · rw [nextQuote_plain hc] at h
            exact .char hc (ih text.length (by omega) h rfl)

theorem paired_iff (text : List Char) : Paired text ↔ scan none text = none := ⟨scan_paired, paired_of_scan⟩

/-- What is open in a text is a quote. -/
theorem scan_isQuote (text : List Char) {quote : Option Char} (h : ∀ q ∈ quote, IsQuote q) :
    ∀ q ∈ scan quote text, IsQuote q := by
  induction text generalizing quote with
  | nil => exact h
  | cons c text ih =>
      refine ih ?_
      intro q hq
      cases quote with
      | none =>
          by_cases hc : IsQuote c
          · rw [nextQuote_opens hc] at hq
            exact Option.some.inj hq ▸ hc
          · rw [nextQuote_plain hc] at hq
            cases hq
      | some quote =>
          by_cases hc : c = quote
          · rw [hc, nextQuote_closes] at hq
            cases hq
          · rw [nextQuote_inside hc] at hq
            exact h q hq

theorem isBlank_not_quote {c : Char} (h : IsBlank c) : ¬ IsQuote c := by
  rcases h with rfl | rfl | rfl <;> rintro (h | h) <;> cases h

theorem scan_blanks {quote : Option Char} (hquote : ∀ q ∈ quote, IsQuote q) {blanks : List Char}
    (h : ∀ c ∈ blanks, IsBlank c) : scan quote blanks = quote := by
  induction blanks with
  | nil => rfl
  | cons c blanks ih =>
      rw [List.forall_mem_cons] at h
      have hc : nextQuote quote c = quote := by
        cases quote with
        | none => exact nextQuote_plain (isBlank_not_quote h.1)
        | some q => exact nextQuote_inside fun he => isBlank_not_quote h.1 (he ▸ hquote q rfl)
      rw [scan, List.foldl_cons, hc]
      exact ih h.2

def headerRun (quote : Option Char) : List Char → List Char
  | [] => []
  | c :: chars => if c = '\n' ∨ quote = none ∧ c = '#' then [] else c :: headerRun (nextQuote quote c) chars

def HashesInside (quote : Option Char) (text : List Char) : Prop :=
  ∀ before after, text = before ++ '#' :: after → scan quote before ≠ none

theorem hashesInside_cons {quote : Option Char} {c : Char} {text : List Char} :
    HashesInside quote (c :: text) ↔ ¬ (quote = none ∧ c = '#') ∧ HashesInside (nextQuote quote c) text := by
  constructor
  · intro h
    refine ⟨fun ⟨hquote, hc⟩ => h [] text (by rw [hc]; rfl) hquote, fun before after htext => ?_⟩
    exact h (c :: before) after (by rw [htext]; rfl)
  · rintro ⟨hhead, htail⟩ before after htext
    cases before with
    | nil =>
        obtain ⟨hc, _⟩ := List.cons.inj htext
        exact fun hquote => hhead ⟨hquote, hc⟩
    | cons d before =>
        obtain ⟨rfl, hrest⟩ := List.cons.inj htext
        exact htail before after hrest

theorem headerEnds_run (quote : Option Char) (stop i : Nat) (chars : List Char) :
    (headerEnds quote stop i chars).2 = i + (headerRun quote chars).length := by
  induction chars generalizing quote stop i with
  | nil => rfl
  | cons c chars ih =>
      rw [headerEnds, headerRun]
      split
      · rfl
      · rw [ih, List.length_cons]
        omega

theorem headerRun_take (quote : Option Char) (chars : List Char) :
    chars.take (headerRun quote chars).length = headerRun quote chars := by
  induction chars generalizing quote with
  | nil => rfl
  | cons c chars ih =>
      rw [headerRun]
      split
      · rfl
      · rw [List.length_cons, List.take_succ_cons, ih]

theorem headerRun_line (quote : Option Char) (chars : List Char) : '\n' ∉ headerRun quote chars := by
  induction chars generalizing quote with
  | nil => exact List.not_mem_nil
  | cons c chars ih =>
      rw [headerRun]
      split
      · exact List.not_mem_nil
      · rename_i hgoes
        exact List.not_mem_cons_of_ne_of_not_mem (fun he => hgoes (.inl he.symm)) (ih _)

theorem headerRun_append {quote : Option Char} {part : List Char} (hline : '\n' ∉ part)
    (hhashes : HashesInside quote part) (more : List Char) :
    headerRun quote (part ++ more) = part ++ headerRun (scan quote part) more := by
  induction part generalizing quote with
  | nil => rfl
  | cons c part ih =>
      rw [List.mem_cons, not_or] at hline
      obtain ⟨hhead, htail⟩ := hashesInside_cons.mp hhashes
      rw [List.cons_append, headerRun, if_neg (not_or.mpr ⟨Ne.symm hline.1, hhead⟩), ih hline.2 htail]
      rfl

/-- The loop does not go past a hash outside of quotes. -/
theorem headerRun_hash {quote : Option Char} {before : List Char} (h : scan quote before = none)
    (after : List Char) : (headerRun quote (before ++ '#' :: after)).length ≤ before.length := by
  induction before generalizing quote with
  | nil =>
      obtain rfl : quote = none := h
      rw [List.nil_append, headerRun, if_pos (.inr ⟨rfl, rfl⟩)]
  | cons c before ih =>
      rw [List.cons_append, headerRun]
      split
      · exact Nat.zero_le _
      · rw [List.length_cons, List.length_cons]
        exact Nat.succ_le_succ (ih h)

/-- A pass at a header shows what the loop goes over, without the blanks at its end. -/
theorem pass_headerRun {lx : Lexer} (h : Sound lx) (hkey : lx.expectKey = true) (hnesting : lx.nesting = []) :
    ∃ shown skipped more, lx.rest = shown ++ (skipped ++ more) ∧ shown ++ skipped = headerRun none lx.rest ∧
      (∀ c ∈ skipped, isWhitespace c = true) ∧
      lx.pass '[' = .ok (take lx .table shown skipped lx.nesting lx.expectKey) := by
  obtain ⟨shown, skipped, more, hsplit, hends, hskipped⟩ :=
    headerEnds_split none lx.i lx.rest (fun c (hc : c ∈ []) => by cases hc)
  rw [List.nil_append] at hsplit
  rw [List.length_nil, Nat.add_zero] at hends
  have hlength : (headerRun none lx.rest).length = (shown ++ skipped).length := by
    have hrun := headerEnds_run none lx.i lx.i lx.rest
    rw [hends] at hrun
    rw [List.length_append]
    simp only at hrun
    omega
  refine ⟨shown, skipped, more, hsplit, ?_, hskipped, pass_header h hkey hnesting hsplit hends⟩
  rw [← headerRun_take, hlength]
  conv_rhs => rw [hsplit, ← List.append_assoc]
  rw [List.take_left]

theorem rdropWhile_append {p : Char → Bool} {cs blanks : List Char} (h : ∀ c ∈ blanks, p c = true) :
    (cs ++ blanks).rdropWhile p = cs.rdropWhile p := by
  induction blanks using List.reverseRecOn with
  | nil => rw [List.append_nil]
  | append_singleton blanks c ih =>
      rw [List.forall_mem_append] at h
      rw [← List.append_assoc, List.rdropWhile_concat_pos _ _ _ (h.2 c List.mem_cons_self), ih h.1]

theorem tokensOf_line (kind : Kind) (p : Place) {c : Char} {cs : List Char} (hline : '\n' ∉ c :: cs)
    (hc : isWhitespace c = false) :
    tokensOf kind p (c :: cs) = [⟨p.1, p.2, .ofList ((c :: cs).rdropWhile isWhitespace), kind⟩] := by
  have hne : (c :: cs).rdropWhile isWhitespace ≠ [] := by
    intro he
    have hspace := List.rdropWhile_eq_nil_iff.mp he c List.mem_cons_self
    rw [hc] at hspace
    cases hspace
  have hno : ¬ isWhitespace c = true := Bool.eq_false_iff.mp hc
  rw [tokensOf, cut_line hline, trimLine, List.dropWhile_cons_of_neg hno, List.takeWhile_cons_of_neg hno,
    if_neg hne]
  rfl

theorem blank_line {blanks : List Char} (h : ∀ c ∈ blanks, IsBlank c) : '\n' ∉ blanks :=
  fun hmem => (blank_space (h _ hmem)).2 rfl

theorem singleLine_line {quote : Char} {cs : List Char} (hquote : IsQuote quote) (h : SingleLine quote cs) :
    '\n' ∉ cs := by
  induction h with
  | close => exact fun hmem => (isQuote_ne hquote).1 (List.mem_singleton.mp hmem).symm
  | char _ hnewline _ _ ih => exact List.not_mem_cons_of_ne_of_not_mem (Ne.symm hnewline) ih
  | escape _ hnewline _ ih =>
      exact List.not_mem_cons_of_ne_of_not_mem (by decide)
        (List.not_mem_cons_of_ne_of_not_mem (Ne.symm hnewline) ih)

theorem segment_line {cs : List Char} (h : Segment cs) : '\n' ∉ cs := by
  cases h with
  | bare _ h =>
      intro hmem
      have hnewline := h '\n' hmem
      exact absurd hnewline (by decide)
  | quoted hquote h =>
      exact List.not_mem_cons_of_ne_of_not_mem (Ne.symm (isQuote_ne hquote).1) (singleLine_line hquote h)

theorem key_line {key : Marked} (h : Key key) : '\n' ∉ key.map Prod.fst := by
  induction h with
  | segment h =>
      rw [map_mark]
      exact segment_line h
  | dotted hs hb hb' _ ih =>
      simp only [List.map_append, map_mark, map_unmarked, List.mem_append, not_or]
      exact ⟨⟨⟨⟨segment_line hs, blank_line hb⟩, by decide⟩, blank_line hb'⟩, ih⟩

theorem header_line {header : List Char} (h : Header header) : '\n' ∉ header := by
  cases h with
  | table hb hk hb' =>
      simp only [List.mem_cons, List.mem_append, not_or]
      exact ⟨by decide, ⟨⟨blank_line hb, key_line hk⟩, blank_line hb'⟩, by decide, List.not_mem_nil⟩
  | element hb hk hb' =>
      simp only [List.mem_cons, List.mem_append, not_or]
      exact ⟨by decide, by decide, ⟨⟨blank_line hb, key_line hk⟩, blank_line hb'⟩, by decide, by decide,
        List.not_mem_nil⟩

theorem header_opens {header : List Char} (h : Header header) : ∃ cs, header = '[' :: cs := by
  cases h <;> exact ⟨_, rfl⟩

theorem header_closes {header : List Char} (h : Header header) : header.rdropWhile isWhitespace = header := by
  have hlast : ∃ init, header = init ++ [']'] := by
    cases h with
    | @table blanks blanks' key => exact ⟨'[' :: (blanks ++ key.map Prod.fst ++ blanks'), rfl⟩
    | @element blanks blanks' key =>
        exact ⟨'[' :: '[' :: (blanks ++ key.map Prod.fst ++ blanks' ++ [']']), by simp⟩
  obtain ⟨init, rfl⟩ := hlast
  rw [List.rdropWhile_concat_neg]
  decide

/-- A line with a header, blanks around it, and a comment if there is one. -/
structure HeaderLine where
  indent : List Char
  header : List Char
  blanks : List Char
  /-- What comes after the hash. -/
  comment : Option (List Char)
  newline : Bool
  indent_blank : ∀ c ∈ indent, IsBlank c
  wellFormed : Header header
  blanks_blank : ∀ c ∈ blanks, IsBlank c
  comment_line : ∀ body ∈ comment, '\n' ∉ body

namespace HeaderLine

variable (line : HeaderLine)

def remark : List Char := line.comment.elim [] ('#' :: ·)

def ending : List Char := if line.newline then ['\n'] else []

def content : List Char := line.header ++ (line.blanks ++ (line.remark ++ line.ending))

def text : List Char := line.indent ++ line.content

def tableToken : Token := ⟨0, line.indent.length, .ofList line.header, .table⟩

def commentToken (body : List Char) : Token :=
  ⟨0, line.indent.length + line.header.length + line.blanks.length,
    .ofList (('#' :: body).rdropWhile isWhitespace), .comment⟩

/-- One token is the header, and one is the comment if there is one. -/
def ShownBy (tokens : List Token) : Prop :=
  tokens.filter (fun t => t.kind = .table) = [line.tableToken] ∧
    ∀ body ∈ line.comment, tokens.filter (fun t => t.kind = .comment) = [line.commentToken body]

/-- When a backslash counts for nothing, every hash of the header is in quotes
still, and no quote is open where a comment begins. -/
structure Clear : Prop where
  hashes : ∀ before after, line.header = before ++ '#' :: after → ¬ Paired before
  comment : line.comment ≠ none → Paired line.header

theorem tokensOf_remark : tokensOf .comment (0, line.indent.length + line.header.length + line.blanks.length)
    line.remark = line.comment.toList.map line.commentToken := by
  rw [remark]
  cases hcomment : line.comment with
  | none =>
      rw [Option.elim_none, tokensOf, cut_line List.not_mem_nil]
      rfl
  | some body =>
      have hline : '\n' ∉ '#' :: body :=
        List.not_mem_cons_of_ne_of_not_mem (by decide) (line.comment_line body hcomment)
      rw [Option.elim_some, tokensOf_line .comment _ hline (by decide)]
      rfl

theorem shownBy_tokens : line.ShownBy ([line.tableToken] ++ line.comment.toList.map line.commentToken) := by
  rw [ShownBy]
  cases line.comment with
  | none => exact ⟨rfl, fun body hbody => by cases hbody⟩
  | some body =>
      refine ⟨rfl, fun other hother => ?_⟩
      obtain rfl := Option.some.inj hother
      rfl

end HeaderLine

variable {line : HeaderLine}

theorem hashesInside_iff (text : List Char) :
    HashesInside none text ↔ ∀ before after, text = before ++ '#' :: after → ¬ Paired before :=
  forall₂_congr fun before _ => imp_congr_right fun _ => not_congr (paired_iff before).symm

theorem headerRun_ending (quote : Option Char) : headerRun quote line.ending = [] := by
  rw [HeaderLine.ending]
  split
  · rw [headerRun, if_pos (.inl rfl)]
  · rfl

theorem headerRun_header (hhashes : HashesInside none line.header) (more : List Char) :
    headerRun none (line.header ++ (line.blanks ++ more)) =
      line.header ++ (line.blanks ++ headerRun (scan none line.header) more) := by
  have hquote : ∀ q ∈ scan none line.header, IsQuote q := scan_isQuote _ fun q hq => by cases hq
  have hblanks : HashesInside (scan none line.header) line.blanks := by
    intro before after hsplit
    have hhash : IsBlank '#' := line.blanks_blank _ (by rw [hsplit]; simp)
    exact absurd hhash (by rintro (h | h | h) <;> cases h)
  rw [headerRun_append (header_line line.wellFormed) hhashes, headerRun_append (blank_line line.blanks_blank) hblanks,
    scan_blanks hquote line.blanks_blank]

/-- The loop goes over the header and blanks exactly where nothing is misread. -/
theorem headerRun_clear (h : line.Clear) :
    headerRun none line.content = line.header ++ line.blanks := by
  rw [HeaderLine.content, headerRun_header ((hashesInside_iff _).mpr h.hashes), HeaderLine.remark]
  cases hcomment : line.comment with
  | none => rw [Option.elim_none, List.nil_append, headerRun_ending, List.append_nil]
  | some body =>
      have hpaired := h.comment (by rw [hcomment]; exact Option.some_ne_none body)
      rw [scan_paired hpaired, Option.elim_some, List.cons_append, headerRun, if_pos (.inr ⟨rfl, rfl⟩),
        List.append_nil]

theorem clear_of_headerRun
    (h : (headerRun none line.content).rdropWhile isWhitespace = line.header) : line.Clear := by
  rw [HeaderLine.content] at h
  have hhashes : HashesInside none line.header := by
    rintro before after hsplit hscan
    have hshort := headerRun_hash hscan (after ++ (line.blanks ++ (line.remark ++ line.ending)))
    rw [← List.cons_append, ← List.append_assoc, ← hsplit] at hshort
    have hlonger := (List.rdropWhile_prefix isWhitespace (l := headerRun none
      (line.header ++ (line.blanks ++ (line.remark ++ line.ending))))).length_le
    rw [h, hsplit, List.length_append, List.length_cons] at hlonger
    rw [hsplit] at hshort
    omega
  refine ⟨(hashesInside_iff _).mp hhashes, fun hcomment => paired_of_scan (by_contra fun hopen => ?_)⟩
  obtain ⟨body, hbody⟩ := Option.ne_none_iff_exists'.mp hcomment
  have hgoes : ¬ ('#' = '\n' ∨ scan none line.header = none ∧ '#' = '#') := by
    rintro (he | ⟨he, _⟩)
    · exact absurd he (by decide)
    · exact hopen he
  -- the loop goes over the hash of the comment, which is no blank
  rw [headerRun_header hhashes, HeaderLine.remark, hbody, Option.elim_some, List.cons_append, headerRun,
    if_neg hgoes] at h
  generalize headerRun _ _ = rest at h
  have hsplit : _ = line.header ++ (line.blanks ++ '#' :: rest) :=
    List.rdropWhile_append_rtakeWhile (p := isWhitespace)
  rw [h, List.append_cancel_left_eq] at hsplit
  have hmem : '#' ∈ (line.header ++ (line.blanks ++ '#' :: rest)).rtakeWhile isWhitespace := by
    rw [hsplit]
    exact List.mem_append_right _ List.mem_cons_self
  exact absurd (List.mem_rtakeWhile_imp hmem) (by decide)

def Ends (lx final : Lexer) : Prop := ∃ fuel, lx.run fuel = .ok final

variable {lx next final : Lexer} {more : List Char}

theorem ends_done (h : lx.rest = []) : Ends lx lx := ⟨0, run_done h 0⟩

theorem ends_pass {c : Char} (hhead : lx.rest.head? = some c) (hpass : lx.pass c = .ok next)
    (h : Ends next final) : Ends lx final := by
  obtain ⟨fuel, hrun⟩ := h
  refine ⟨fuel + 1, ?_⟩
  rw [run_step hhead, hpass]
  exact hrun

/-- The run ends, and adds tokens to those that are there. -/
theorem exists_ends (h : Sound lx) : ∃ final tokens, Ends lx final ∧ final.tokens = lx.tokens ++ tokens := by
  obtain ⟨final, hmoves, hend⟩ := exists_moves h
  obtain ⟨tokens, htokens, _⟩ := hmoves.tokens
  exact ⟨final, tokens, ⟨_, hmoves.runs 0 final (run_done hend 0)⟩, htokens⟩

theorem tokenize_of_ends {text : String} (h : Ends (.new text) final) : tokenize text = .ok final.tokens := by
  obtain ⟨fuel, hrun⟩ := h
  obtain ⟨last, hmoves, hend⟩ := exists_moves (new_sound text)
  have hlast := run_of_moves hmoves hend
  have hsame := run_more hlast fuel
  rw [Nat.add_comm, run_more hrun] at hsame
  obtain rfl := Except.ok.inj hsame
  rw [tokenize, hlast]
  rfl

theorem ends_blanks {blanks : List Char} (h : ∀ c ∈ blanks, IsBlank c) (hrest : lx.rest = blanks ++ more)
    (hends : Ends { lx with i := lx.i + blanks.length } final) : Ends lx final := by
  induction blanks generalizing lx with
  | nil => exact hends
  | cons c blanks ih =>
      rw [List.forall_mem_cons] at h
      obtain ⟨hspace, hne⟩ := blank_space h.1
      have hsplit : lx.rest = [] ++ ([c] ++ (blanks ++ more)) := hrest
      refine ends_pass (by rw [hrest]; rfl) (pass_space lx hspace hne) (ih h.2 (take_rest hsplit) ?_)
      rw [take_nothing]
      rw [List.length_cons, Nat.add_comm blanks.length, ← Nat.add_assoc] at hends
      exact hends

/-- What is left after a header adds the token of the comment. -/
theorem ends_remark (h : Sound lx) (hrest : lx.rest = line.remark ++ line.ending) :
    ∃ final, Ends lx final ∧ final.tokens = lx.tokens ++ tokensOf .comment (place lx) line.remark := by
  have hending (lx : Lexer) (hrest : lx.rest = line.ending) : ∃ final, Ends lx final ∧ final.tokens = lx.tokens := by
    rw [HeaderLine.ending] at hrest
    split at hrest
    · have hsplit : lx.rest = [] ++ (['\n'] ++ []) := hrest
      refine ⟨_, ends_pass (by rw [hrest]; rfl) (pass_newline lx) (ends_done (take_rest hsplit)), ?_⟩
      rw [take_nothing]
    · exact ⟨lx, ends_done hrest, rfl⟩
  rw [HeaderLine.remark] at hrest ⊢
  cases hcomment : line.comment with
  | none =>
      rw [hcomment, Option.elim_none, List.nil_append] at hrest
      obtain ⟨final, hends, htokens⟩ := hending lx hrest
      rw [Option.elim_none, tokensOf, cut_line List.not_mem_nil]
      exact ⟨final, hends, by rw [htokens]; exact (List.append_nil _).symm⟩
  | some body =>
      rw [hcomment, Option.elim_some] at hrest
      have hmore : ∀ c ∈ line.ending.head?, c = '\n' := by
        rw [HeaderLine.ending]
        split
        · exact fun c hc => (Option.some.inj hc).symm
        · exact fun c hc => by cases hc
      have hsplit : lx.rest = '#' :: body ++ ([] ++ line.ending) := hrest
      have hpass := pass_comment h hrest (line.comment_line body hcomment) hmore
      obtain ⟨final, hends, htokens⟩ := hending _ (take_rest hsplit)
      refine ⟨final, ends_pass (by rw [hrest]; rfl) hpass hends, ?_⟩
      rw [htokens, take, Option.elim_some]

variable (line)

/-- The lexer after the pass at the header, whose token is what the loop goes over. -/
theorem exists_afterHeader : ∃ lx, Sound lx ∧
    (∀ final, Ends lx final → Ends (.new (.ofList line.text)) final) ∧
    headerRun none line.content ++ lx.rest = line.content ∧
    place lx = placeAfter (0, line.indent.length) (headerRun none line.content) ∧
    lx.tokens = [⟨0, line.indent.length,
      .ofList ((headerRun none line.content).rdropWhile isWhitespace), .table⟩] := by
  have hchars : (String.ofList line.text).toList = line.text := String.toList_ofList
  have hnew : (Lexer.new (.ofList line.text)).rest = line.indent ++ line.content := hchars
  obtain ⟨cs, hheader⟩ := header_opens line.wellFormed
  let start : Lexer := { Lexer.new (.ofList line.text) with i := 0 + line.indent.length }
  have htake : start = take (Lexer.new (.ofList line.text)) .plain [] line.indent [] true := by
    rw [take_nothing]
    rfl
  have hsplit : (Lexer.new (.ofList line.text)).rest = [] ++ (line.indent ++ line.content) := hnew
  have hsound : Sound start := htake ▸ take_sound (new_sound _) hsplit
  have hrest : start.rest = line.content := htake ▸ take_rest hsplit
  have hplace : place start = (0, line.indent.length) := by
    rw [htake, take_place hsplit]
    refine (placeAfter_line _ (blank_line line.indent_blank)).trans ?_
    exact Prod.ext rfl (Nat.zero_add _)
  obtain ⟨shown, skipped, more, hshown, hrun, hskipped, hpass⟩ := pass_headerRun hsound rfl rfl
  rw [hrest] at hrun hshown
  have hhead : line.content = '[' :: (cs ++ (line.blanks ++ (line.remark ++ line.ending))) := by
    rw [HeaderLine.content, hheader, List.cons_append]
  obtain ⟨shown, rfl⟩ : ∃ rest, shown = '[' :: rest := by
    cases shown with
    | nil =>
        -- the loop takes the bracket, which is no blank
        rw [hhead, headerRun, if_neg (by rintro (he | ⟨_, he⟩) <;> cases he), List.nil_append] at hrun
        have hspace := hskipped '[' (by rw [hrun]; exact List.mem_cons_self)
        exact absurd hspace (by decide)
    | cons c shown =>
        rw [hhead] at hshown
        exact ⟨shown, congrArg (· :: shown) (List.cons.inj hshown).1.symm⟩
  have hline : '\n' ∉ '[' :: shown := fun hmem =>
    headerRun_line none line.content (hrun ▸ List.mem_append_left skipped hmem)
  have hrest' : start.rest = ('[' :: shown) ++ (skipped ++ more) := hrest.trans hshown
  have hfirst : start.rest.head? = some '[' := by
    rw [hrest, hhead]
    rfl
  refine ⟨_, take_sound hsound hrest', fun final hends => ends_blanks line.indent_blank hnew
    (ends_pass hfirst hpass hends), ?_, ?_, ?_⟩
  · rw [take_rest hrest', ← hrun, List.append_assoc, ← hshown]
  · rw [take_place hrest', hplace, hrun]
  · rw [take, hplace, tokensOf_line .table _ hline (by decide), ← hrun, rdropWhile_append hskipped]
    rfl

/-- A header is shown as one token, and a comment after it as another one, exactly
where reading its quotes without escapes misreads no hash. -/
theorem tokenize_header :
    (∃ tokens, tokenize (.ofList line.text) = .ok tokens ∧ line.ShownBy tokens) ↔ line.Clear := by
  obtain ⟨lx, hsound, hruns, hrest, hplace, htokens⟩ := exists_afterHeader line
  constructor
  · rintro ⟨tokens, htokenize, htable, _⟩
    obtain ⟨final, later, hends, hfinal⟩ := exists_ends hsound
    rw [tokenize_of_ends (hruns final hends), hfinal, htokens] at htokenize
    obtain rfl := Except.ok.inj htokenize
    rw [List.singleton_append, List.filter_cons_of_pos (by exact decide_eq_true rfl)] at htable
    have htoken := congrArg Token.text (List.cons.inj htable).1
    exact clear_of_headerRun (String.ofList_injective htoken)
  · intro hclear
    have hrun := headerRun_clear hclear
    rw [hrun] at hrest hplace htokens
    rw [HeaderLine.content, ← List.append_assoc, List.append_cancel_left_eq] at hrest
    obtain ⟨final, hends, hfinal⟩ := ends_remark hsound hrest
    refine ⟨final.tokens, tokenize_of_ends (hruns final hends), ?_⟩
    have hblank : ∀ c ∈ line.blanks, isWhitespace c = true := fun c hc => (blank_space (line.blanks_blank c hc)).1
    have hplace' : place lx = (0, line.indent.length + line.header.length + line.blanks.length) := by
      have hline : '\n' ∉ line.header ++ line.blanks := fun hmem =>
        (List.mem_append.mp hmem).elim (header_line line.wellFormed) (blank_line line.blanks_blank)
      rw [hplace, placeAfter_line _ hline, List.length_append, Nat.add_assoc]
    rw [rdropWhile_append hblank, header_closes line.wellFormed] at htokens
    rw [hfinal, htokens, hplace', line.tokensOf_remark]
    exact line.shownBy_tokens

variable {line}

theorem header_escaped {cs : List Char} (h : SingleLine '"' cs) : Header ('[' :: '"' :: (cs ++ [']'])) := by
  have hnone : ∀ c ∈ ([] : List Char), IsBlank c := fun _ hc => absurd hc List.not_mem_nil
  have hkey : Key (mark .key ('"' :: cs)) := .segment (.quoted (.inl rfl) h)
  have hheader := Header.table hnone hkey hnone
  rw [map_mark, List.append_nil, List.nil_append] at hheader
  exact hheader

def commentAfterEscape : HeaderLine where
  indent := []
  header := ['[', '"', 'a', '\\', '"', 'b', '"', ']']
  blanks := [' ']
  comment := some [' ', 'c']
  newline := false
  indent_blank := fun _ hc => absurd hc List.not_mem_nil
  wellFormed := header_escaped
    (.char (by decide) (by decide) (by decide) (.escape rfl (by decide)
      (.char (by decide) (by decide) (by decide) .close)))
  blanks_blank := fun _ hc => .inl (List.mem_singleton.mp hc)
  comment_line := by
    rintro _ ⟨⟩
    decide

def hashAfterEscape : HeaderLine where
  indent := []
  header := ['[', '"', 'a', '\\', '"', '#', '"', ']']
  blanks := []
  comment := none
  newline := false
  indent_blank := fun _ hc => absurd hc List.not_mem_nil
  wellFormed := header_escaped
    (.char (by decide) (by decide) (by decide) (.escape rfl (by decide)
      (.char (by decide) (by decide) (by decide) .close)))
  blanks_blank := fun _ hc => absurd hc List.not_mem_nil
  comment_line := by rintro _ ⟨⟩

theorem not_shown {tokens : List Token} (h : tokenize (.ofList line.text) = .ok tokens)
    (hnot : tokens.filter (fun t => t.kind = .table) ≠ [line.tableToken]) :
    ¬ ∃ tokens, tokenize (.ofList line.text) = .ok tokens ∧ line.ShownBy tokens := by
  rintro ⟨others, hothers, htable, _⟩
  obtain rfl : others = tokens := Except.ok.inj (hothers.symm.trans h)
  exact hnot htable

/-- A comment is shown as part of the header, and a part of a header as a comment. -/
theorem escaped_quote_misread :
    tokenize (.ofList commentAfterEscape.text) = .ok [⟨0, 0, "[\"a\\\"b\"] # c", .table⟩] ∧
    (¬ ∃ tokens, tokenize (.ofList commentAfterEscape.text) = .ok tokens ∧ commentAfterEscape.ShownBy tokens) ∧
    tokenize (.ofList hashAfterEscape.text) = .ok [⟨0, 0, "[\"a\\\"", .table⟩, ⟨0, 5, "#\"]", .comment⟩] ∧
    ¬ ∃ tokens, tokenize (.ofList hashAfterEscape.text) = .ok tokens ∧ hashAfterEscape.ShownBy tokens := by
  have hcomment : tokenize (.ofList commentAfterEscape.text) =
      .ok [⟨0, 0, "[\"a\\\"b\"] # c", .table⟩] := rfl
  have hhash : tokenize (.ofList hashAfterEscape.text) =
      .ok [⟨0, 0, "[\"a\\\"", .table⟩, ⟨0, 5, "#\"]", .comment⟩] := rfl
  exact ⟨hcomment, not_shown hcomment (by decide), hhash, not_shown hhash (by decide)⟩

/-- Text with no double quote after a backslash. -/
def Unescaped (text : List Char) : Prop := ¬ ['\\', '"'] <:+: text

theorem unescaped_left {text more : List Char} (h : Unescaped (text ++ more)) : Unescaped text :=
  fun hfound => h (hfound.trans (List.prefix_append _ _).isInfix)

theorem unescaped_right {text more : List Char} (h : Unescaped (text ++ more)) : Unescaped more :=
  fun hfound => h (hfound.trans (List.suffix_append _ _).isInfix)

/-- A text that closes its quotes and has no hash outside of them. -/
structure Sealed (text : List Char) : Prop where
  scan : scan none text = none
  hashes : HashesInside none text

theorem hashesInside_append {quote : Option Char} {text more : List Char} (h : HashesInside quote text)
    (hmore : HashesInside (scan quote text) more) : HashesInside quote (text ++ more) := by
  induction text generalizing quote with
  | nil => exact hmore
  | cons c text ih =>
      obtain ⟨hhead, htail⟩ := hashesInside_cons.mp h
      exact hashesInside_cons.mpr ⟨hhead, ih htail hmore⟩

theorem Sealed.append {text more : List Char} (h : Sealed text) (hmore : Sealed more) : Sealed (text ++ more) := by
  refine ⟨?_, hashesInside_append h.hashes ?_⟩
  · rw [scan_append, h.scan, hmore.scan]
  · rw [h.scan]
    exact hmore.hashes

theorem sealed_plain {text : List Char} (h : ∀ c ∈ text, ¬ IsQuote c ∧ c ≠ '#') : Sealed text := by
  refine ⟨?_, fun before after hsplit => ?_⟩
  · induction text with
    | nil => rfl
    | cons c text ih =>
        rw [List.forall_mem_cons] at h
        rw [scan, List.foldl_cons, nextQuote_plain h.1.1]
        exact ih h.2
  · have hhash := h '#' (by rw [hsplit]; simp)
    exact absurd rfl hhash.2

theorem sealed_quoted {quote : Char} {body : List Char} (hquote : IsQuote quote) (hbody : quote ∉ body) :
    Sealed (quote :: (body ++ [quote])) := by
  refine ⟨scan_quoted hquote hbody [], hashesInside_cons.mpr ⟨?_, ?_⟩⟩
  · rintro ⟨_, rfl⟩
    rcases hquote with h | h <;> cases h
  · rw [nextQuote_opens hquote]
    refine hashesInside_append (fun before after hsplit => ?_) ?_
    · have hbefore : quote ∉ before := fun hmem => hbody (hsplit ▸ List.mem_append_left _ hmem)
      rw [scan_inside hbefore]
      exact Option.some_ne_none quote
    · rw [scan_inside hbody]
      refine hashesInside_cons.mpr ⟨fun he => Option.some_ne_none quote he.1, fun before after hsplit => ?_⟩
      exact absurd hsplit (by simp)

theorem singleLine_unescaped {quote : Char} {cs : List Char} (h : SingleLine quote cs) (hcs : Unescaped cs) :
    ∃ body, cs = body ++ [quote] ∧ quote ∉ body := by
  induction h with
  | close => exact ⟨[], rfl, List.not_mem_nil⟩
  | @char c cs hquote _ _ _ ih =>
      have hrest : Unescaped ([c] ++ cs) := hcs
      obtain ⟨body, rfl, hbody⟩ := ih (unescaped_right hrest)
      exact ⟨c :: body, rfl, List.not_mem_cons_of_ne_of_not_mem (Ne.symm hquote) hbody⟩
  | @escape c cs hbasic _ _ ih =>
      have hrest : Unescaped (['\\', c] ++ cs) := hcs
      obtain ⟨body, rfl, hbody⟩ := ih (unescaped_right hrest)
      have hc : c ≠ quote := by
        rintro rfl
        exact hcs ⟨[], body ++ [c], by rw [hbasic]; rfl⟩
      have hslash : '\\' ≠ quote := by
        rw [hbasic]
        decide
      refine ⟨'\\' :: c :: body, rfl, ?_⟩
      exact List.not_mem_cons_of_ne_of_not_mem hslash.symm (List.not_mem_cons_of_ne_of_not_mem hc.symm hbody)

theorem sealed_segment {cs : List Char} (h : Segment cs) (hcs : Unescaped cs) : Sealed cs := by
  cases h with
  | bare _ h =>
      refine sealed_plain fun c hc => ⟨?_, ?_⟩
      · rintro (rfl | rfl) <;> exact absurd (h _ hc) (by decide)
      · rintro rfl
        exact absurd (h _ hc) (by decide)
  | @quoted quote cs hquote h =>
      have hrest : Unescaped ([quote] ++ cs) := hcs
      obtain ⟨body, rfl, hbody⟩ := singleLine_unescaped h (unescaped_right hrest)
      exact sealed_quoted hquote hbody

theorem sealed_blanks {blanks : List Char} (h : ∀ c ∈ blanks, IsBlank c) : Sealed blanks := by
  refine sealed_plain fun c hc => ⟨isBlank_not_quote (h c hc), ?_⟩
  rintro rfl
  exact absurd (h _ hc) (by rintro (h | h | h) <;> cases h)

theorem sealed_char {c : Char} (hquote : ¬ IsQuote c) (hhash : c ≠ '#') : Sealed [c] :=
  sealed_plain fun _ hd => List.mem_singleton.mp hd ▸ ⟨hquote, hhash⟩

theorem sealed_key {key : Marked} (h : Key key) (hkey : Unescaped (key.map Prod.fst)) :
    Sealed (key.map Prod.fst) := by
  induction h with
  | segment h =>
      rw [map_mark] at hkey ⊢
      exact sealed_segment h hkey
  | dotted hs hb hb' _ ih =>
      simp only [List.map_append, map_mark, map_unmarked] at hkey ⊢
      have hdot : Sealed ((punctuation '.').map Prod.fst) := sealed_char (by rintro (h | h) <;> cases h) (by decide)
      have hsegment := sealed_segment hs (unescaped_left (unescaped_left (unescaped_left (unescaped_left hkey))))
      have hfront := ((hsegment.append (sealed_blanks hb)).append hdot).append (sealed_blanks hb')
      exact hfront.append (ih (unescaped_right hkey))

theorem sealed_bracket {c : Char} (hc : c = '[' ∨ c = ']') : Sealed [c] := by
  rcases hc with rfl | rfl <;> exact sealed_char (by rintro (h | h) <;> cases h) (by decide)

theorem sealed_header {header : List Char} (h : Header header) (hheader : Unescaped header) : Sealed header := by
  have hopen : Sealed ['['] := sealed_bracket (.inl rfl)
  have hclose : Sealed [']'] := sealed_bracket (.inr rfl)
  cases h with
  | @table blanks blanks' key hb hk hb' =>
      have hkey : Unescaped (key.map Prod.fst) := by
        have hfront : Unescaped (['['] ++ (blanks ++ key.map Prod.fst ++ blanks' ++ [']'])) := hheader
        exact unescaped_right (unescaped_left (unescaped_left (unescaped_right hfront)))
      have hinner := ((sealed_blanks hb).append (sealed_key hk hkey)).append (sealed_blanks hb')
      exact hopen.append (hinner.append hclose)
  | @element blanks blanks' key hb hk hb' =>
      have hkey : Unescaped (key.map Prod.fst) := by
        have hfront : Unescaped (['[', '['] ++ (blanks ++ key.map Prod.fst ++ blanks' ++ [']', ']'])) := hheader
        exact unescaped_right (unescaped_left (unescaped_left (unescaped_right hfront)))
      have hinner := ((sealed_blanks hb).append (sealed_key hk hkey)).append (sealed_blanks hb')
      exact (hopen.append hopen).append (hinner.append (hclose.append hclose))

/-- Only an escaped quote is ever misread. -/
theorem clear_of_unescaped (hheader : Unescaped line.header) : line.Clear := by
  have hsealed := sealed_header line.wellFormed hheader
  exact ⟨(hashesInside_iff _).mp hsealed.hashes, fun _ => paired_of_scan hsealed.scan⟩

end LocalDevProxy.HighlightHeaders
