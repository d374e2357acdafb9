import LocalDevProxy.HighlightCover
import LocalDevProxy.Lib.TomlGrammar

namespace LocalDevProxy.HighlightToml

open Lib.Tiling Lib.TomlGrammar Text Highlight HighlightSteps HighlightCover

def kindOf : Role → Kind
  | .key => .key
  | .string => .string
  | .number => .number
  | .boolean => .boolean
  | .comment => .comment
  | .punctuation => .punctuation

def tint (text : Marked) : List (Char × Option Kind) := text.map fun c => (c.1, c.2.map kindOf)

/-- What the lexer knows between two passes. -/
structure Mode where
  nesting : List Char
  expectKey : Bool

structure At (lx : Lexer) (rest : List Char) (m : Mode) : Prop where
  sound : Sound lx
  rest : lx.rest = rest
  nesting : lx.nesting = m.nesting
  expectKey : lx.expectKey = m.expectKey

/-- Before the given rest, the lexer shows a text as it is marked, and it comes
from one mode into the other. -/
def Goes (text : Marked) (more : List Char) (m m' : Mode) : Prop :=
  ∀ lx, At lx (text.map Prod.fst ++ more) m → ∃ lx', Moves lx lx' (tint text) ∧ At lx' more m'

variable {text text' : Marked} {more : List Char} {m m' m'' : Mode}

theorem map_tint (text : Marked) : (tint text).map Prod.fst = text.map Prod.fst := by
  rw [tint, List.map_map]
  rfl

theorem tint_append (text text' : Marked) : tint (text ++ text') = tint text ++ tint text' := List.map_append

theorem map_mark (role : Role) (cs : List Char) : (mark role cs).map Prod.fst = cs := by
  rw [mark, List.map_map]
  exact List.map_id cs

theorem map_unmarked (cs : List Char) : (unmarked cs).map Prod.fst = cs := by
  rw [unmarked, List.map_map]
  exact List.map_id cs

theorem goes_nil : Goes [] more m m := fun lx h => ⟨lx, .refl h.sound, h⟩

theorem Goes.trans (h : Goes text (text'.map Prod.fst ++ more) m m') (h' : Goes text' more m' m'') :
    Goes (text ++ text') more m m'' := by
  intro lx hat
  rw [List.map_append, List.append_assoc] at hat
  obtain ⟨lx', hmoves, hat'⟩ := h lx hat
  obtain ⟨lx'', hmoves', hat''⟩ := h' lx' hat'
  exact ⟨lx'', tint_append text text' ▸ hmoves.trans hmoves', hat''⟩

/-- A run that one pass shows. -/
theorem goes_shown {role : Role} {cs : List Char} {c : Char} (hc : cs.head? = some c)
    (hpass : ∀ lx, Sound lx → lx.rest = cs ++ more → lx.nesting = m.nesting → lx.expectKey = m.expectKey →
      lx.pass c = .ok (take lx (kindOf role) cs [] m'.nesting m'.expectKey)) :
    Goes (mark role cs) more m m' := by
  intro lx hat
  have hrest : lx.rest = cs ++ ([] ++ more) := by
    rw [hat.rest, map_mark]
    rfl
  have hchars : (tint (mark role cs)).map Prod.fst = cs := (map_tint _).trans (map_mark role cs)
  have hhead : lx.rest.head? = some c := by
    rw [hrest, List.head?_append, hc]
    rfl
  have hne : tint (mark role cs) ++ [] ≠ [] := by
    rw [List.append_nil, Ne, ← List.map_eq_nil_iff, hchars]
    rintro rfl
    cases hc
  have hrun := hpass lx hat.sound hrest hat.nesting hat.expectKey
  have hmoves : Moves lx (take lx (kindOf role) ((tint (mark role cs)).map Prod.fst) [] m'.nesting m'.expectKey)
      (tint (mark role cs) ++ []) := by
    refine moves_take hat.sound (by rw [hchars]; exact hrest) hhead hne (by rw [hchars]; exact hrun) ?_
      (fun d hd => by cases hd)
    intro d k hmem _
    simp only [tint, mark, List.map_map, List.mem_map, Function.comp, Option.map_some, Prod.mk.injEq,
      Option.some.injEq] at hmem
    obtain ⟨_, _, _, hk⟩ := hmem
    exact hk.symm
  rw [hchars, List.append_nil] at hmoves
  exact ⟨_, hmoves, hmoves.sound, take_rest hrest, rfl, rfl⟩

/-- A blank that one pass skips. -/
theorem goes_skipped {c : Char} (hc : isWhitespace c = true)
    (hpass : ∀ lx : Lexer, lx.nesting = m.nesting → lx.expectKey = m.expectKey →
      lx.pass c = .ok (take lx .plain [] [c] m'.nesting m'.expectKey)) :
    Goes (unmarked [c]) more m m' := by
  intro lx hat
  have hrest : lx.rest = ([] : List (Char × Option Kind)).map Prod.fst ++
      (([(c, none)] : List (Char × Option Kind)).map Prod.fst ++ more) := hat.rest
  have hmoves : Moves lx (take lx .plain [] [c] m'.nesting m'.expectKey) ([] ++ [(c, none)]) := by
    refine moves_take hat.sound hrest (by rw [hrest]; rfl) (List.cons_ne_nil _ _)
      (hpass lx hat.nesting hat.expectKey) (fun d k hmem => by cases hmem) fun d hd => ?_
    rw [List.mem_singleton.mp hd]
    exact hc
  exact ⟨_, hmoves, hmoves.sound, take_rest hrest, rfl, rfl⟩

theorem blank_space {c : Char} (hc : IsBlank c) : isWhitespace c = true ∧ c ≠ '\n' := by
  rcases hc with rfl | rfl | rfl <;> decide

theorem goes_blank {c : Char} (hc : IsBlank c) : Goes (unmarked [c]) more m m := by
  obtain ⟨hspace, hne⟩ := blank_space hc
  refine goes_skipped hspace fun lx hnesting hkey => ?_
  rw [pass_space lx hspace hne, hnesting, hkey]

theorem goes_blanks {blanks : List Char} (h : ∀ c ∈ blanks, IsBlank c) :
    Goes (unmarked blanks) more m m := by
  induction blanks with
  | nil => exact goes_nil
  | cons c blanks ih =>
      rw [List.forall_mem_cons] at h
      exact (goes_blank h.1).trans (ih h.2)

theorem goes_newline : Goes (unmarked ['\n']) more m ⟨m.nesting, m.nesting.isEmpty || m.expectKey⟩ := by
  refine goes_skipped (by decide) fun lx hnesting hkey => ?_
  rw [pass_newline lx, hnesting, hkey]

theorem goes_comment {comment : Marked} (h : Comment comment) (hmore : ∀ c ∈ more.head?, c = '\n') :
    Goes comment more m m := by
  obtain ⟨hbody⟩ := h
  refine goes_shown rfl fun lx hsound hrest hnesting hkey => ?_
  rw [pass_comment hsound hrest hbody hmore, hnesting, hkey]
  rfl

theorem goes_char {c : Char} (hpass : ∀ lx : Lexer, Sound lx → lx.rest = c :: more → lx.nesting = m.nesting →
    lx.expectKey = m.expectKey → lx.pass c = .ok (take lx .punctuation [c] [] m'.nesting m'.expectKey)) :
    Goes (punctuation c) more m m' := by
  have hshown : Goes (mark .punctuation [c]) more m m' := goes_shown rfl hpass
  exact hshown

theorem goes_equals : Goes (punctuation '=') more m ⟨m.nesting, false⟩ := by
  refine goes_char fun lx hsound hrest hnesting _ => ?_
  rw [pass_equals hsound hrest, hnesting]

theorem goes_dot (hkey : m.expectKey = true) : Goes (punctuation '.') more m m := by
  refine goes_char fun lx hsound hrest hnesting hexpect => ?_
  rw [pass_dot hsound hrest (hexpect.trans hkey), hnesting, hexpect]

theorem goes_comma : Goes (punctuation ',') more m ⟨m.nesting, m.nesting.head? = some '{'⟩ := by
  refine goes_char fun lx hsound hrest hnesting _ => ?_
  rw [pass_comma hsound hrest, hnesting]

theorem goes_open {c : Char} (hc : c = '[' ∨ c = '{') (hvalue : m.expectKey = false) :
    Goes (punctuation c) more m ⟨c :: m.nesting, c = '{'⟩ := by
  refine goes_char fun lx hsound hrest hnesting hexpect => ?_
  have hheader : ¬ (c = '[' ∧ lx.expectKey = true ∧ lx.nesting.isEmpty = true) := by
    rintro ⟨_, hkey, _⟩
    rw [hexpect, hvalue] at hkey
    cases hkey
  rw [pass_open hsound hc hrest hheader, hnesting]

theorem goes_close {c : Char} (hc : c = ']' ∨ c = '}') {nesting : List Char}
    (hnesting : m.nesting = opening c :: nesting) : Goes (punctuation c) more m ⟨nesting, false⟩ := by
  refine goes_char fun lx hsound hrest hlx _ => ?_
  rw [pass_close hsound hc hrest, hlx, hnesting, List.head?_cons, if_pos rfl, List.tail_cons]

/-- No quote follows, so that what comes before is not a longer string. -/
def NoQuote (more : List Char) : Prop := ∀ c ∈ more.head?, ¬ IsQuote c

theorem isQuote_ne {quote : Char} (h : IsQuote quote) : quote ≠ '\n' ∧ quote ≠ '\\' := by
  rcases h with rfl | rfl <;> decide

theorem singleLine_ne_nil {quote : Char} {cs : List Char} (h : SingleLine quote cs) : cs ≠ [] := by
  cases h <;> exact List.cons_ne_nil _ _

theorem singleLineLength_eq {quote : Char} {cs : List Char} (hquote : IsQuote quote) (h : SingleLine quote cs) :
    singleLineLength quote (cs ++ more) = cs.length := by
  obtain ⟨hnewline, hslash⟩ := isQuote_ne hquote
  induction h with
  | close =>
      cases more with
      | nil => rw [List.append_nil, singleLineLength, if_neg hnewline, List.length_singleton]
      | cons d more =>
          rw [List.singleton_append, singleLineLength, if_neg hnewline, if_neg (fun he => hslash he.1), if_pos rfl,
            List.length_singleton]
  | @char c cs hc hline hescape h ih =>
      obtain ⟨d, rest, hcs⟩ := List.exists_cons_of_ne_nil (singleLine_ne_nil h)
      rw [hcs] at ih ⊢
      rw [List.cons_append, List.cons_append, singleLineLength, if_neg hline,
        if_neg (fun he => hescape he.2.1 he.1), if_neg hc, ← List.cons_append, ih, Nat.add_comm]
      rfl
  | @escape c cs hbasic hline h ih =>
      rw [List.cons_append, List.cons_append, singleLineLength, if_neg (by decide), if_pos ⟨rfl, hbasic, hline⟩, ih,
        List.length_cons, List.length_cons]
      omega

theorem multiLine_ne_nil {quote : Char} {cs : List Char} (h : MultiLine quote cs) : cs ≠ [] := by
  cases h with
  | close => simp
  | _ => exact List.cons_ne_nil _ _

/-- The quotes just inside the delimiter, of which there are two at most. -/
theorem closing_quotes {quote : Char} {count : Nat} (hcount : count ≤ 2) (hmore : ∀ c ∈ more.head?, c ≠ quote) :
    (((List.replicate count quote ++ more).take 2).takeWhile (· = quote)).length = count := by
  have hstop : ∀ n, ((more.take n).takeWhile (· = quote)) = [] := by
    intro n
    cases more with
    | nil => rw [List.take_nil]; rfl
    | cons c more =>
        cases n with
        | zero => rfl
        | succ n =>
            rw [List.take_succ_cons, List.takeWhile_cons_of_neg]
            simpa using hmore
  rw [List.take_append, List.length_replicate, List.take_replicate, Nat.min_eq_right hcount,
    List.takeWhile_append_of_pos (by simp), hstop, List.append_nil, List.length_replicate]

theorem multiLineLength_eq {quote : Char} {cs : List Char} (hquote : IsQuote quote) (h : MultiLine quote cs)
    (hmore : ∀ c ∈ more.head?, c ≠ quote) : multiLineLength quote (cs ++ more) = cs.length := by
  obtain ⟨_, hslash⟩ := isQuote_ne hquote
  induction h with
  | @close count hcount =>
      have hsplit : List.replicate (3 + count) quote ++ more =
          quote :: quote :: quote :: (List.replicate count quote ++ more) := by
        rw [Nat.add_comm]
        rfl
      rw [hsplit, multiLineLength, if_neg (fun he => hslash he.1), if_pos ⟨rfl, rfl, rfl⟩, List.tail_cons,
        closing_quotes hcount hmore, List.length_replicate]
  | @char c cs hc hescape h ih =>
      obtain ⟨d, rest, hcs⟩ := List.exists_cons_of_ne_nil (multiLine_ne_nil h)
      rw [hcs] at ih ⊢
      rw [List.cons_append, List.cons_append, multiLineLength, if_neg (fun he => hescape he.2 he.1),
        if_neg (fun he => hc he.1), ← List.cons_append, ih, Nat.add_comm]
      rfl
  | @escape c cs hbasic h ih =>
      rw [List.cons_append, List.cons_append, multiLineLength, if_pos ⟨rfl, hbasic⟩, ih, List.length_cons,
        List.length_cons]
      omega
  | @oneQuote c cs hc h ih =>
      rw [List.cons_append, List.cons_append, multiLineLength, if_neg (fun he => hslash he.1),
        if_neg (fun he => hc he.2.1), ← List.cons_append, ih, Nat.add_comm]
      rfl
  | @twoQuotes c cs hc h ih =>
      have hthird : ((c :: cs) ++ more).head? ≠ some quote := fun he => hc (Option.some.inj he)
      rw [List.cons_append, List.cons_append, multiLineLength, if_neg (fun he => hslash he.1),
        if_neg (fun he => hthird he.2.2), List.cons_append, multiLineLength, if_neg (fun he => hslash he.1),
        if_neg (fun he => hc he.2.1), ← List.cons_append, ih]
      simp only [List.length_cons]
      omega

theorem stringLength_singleLine {quote : Char} {cs : List Char} (hquote : IsQuote quote)
    (h : SingleLine quote cs) (hmore : NoQuote more) :
    stringLength quote (cs ++ more) = (quote :: cs).length := by
  have hsingle : ¬ ((cs ++ more)[0]? = some quote ∧ (cs ++ more)[1]? = some quote) := by
    rintro ⟨hfirst, hsecond⟩
    cases h with
    | close =>
        rw [List.singleton_append, List.getElem?_cons_succ, ← List.head?_eq_getElem?] at hsecond
        exact hmore quote hsecond hquote
    | char hc _ _ _ => exact hc (Option.some.inj hfirst)
    | escape _ _ _ => exact (isQuote_ne hquote).2 (Option.some.inj hfirst).symm
  rw [stringLength, if_neg hsingle, singleLineLength_eq hquote h, List.length_cons, Nat.add_comm]

theorem stringLength_str {quote : Char} {cs : List Char} (h : Str (quote :: cs)) (hmore : NoQuote more) :
    stringLength quote (cs ++ more) = (quote :: cs).length := by
  cases h with
  | singleLine hquote h => exact stringLength_singleLine hquote h hmore
  | @multiLine _ cs hquote h =>
      have hne : ∀ c ∈ more.head?, c ≠ quote := fun c hc he => hmore c hc (he ▸ hquote)
      rw [stringLength, if_pos ⟨rfl, rfl⟩]
      simp only [List.cons_append, List.drop_succ_cons, List.drop_zero, List.length_cons, List.length_append,
        multiLineLength_eq hquote h hne]
      omega

theorem goes_string {quote : Char} {cs : List Char} {role : Role} (hquote : IsQuote quote)
    (hlength : stringLength quote (cs ++ more) = (quote :: cs).length)
    (hrole : kindOf role = if m.expectKey then .key else .string) :
    Goes (mark role (quote :: cs)) more m m := by
  refine goes_shown rfl fun lx hsound hrest hnesting hkey => ?_
  rw [pass_string hsound hquote hrest hlength, hnesting, hkey, hrole]

theorem goes_word {c : Char} {body : List Char} {role : Role} (hc : isWordChar c = true)
    (hbody : ∀ d ∈ body, goesOn m.expectKey d = true) (hmore : ∀ d ∈ more.head?, goesOn m.expectKey d = false)
    (hrole : kindOf role = if m.expectKey then .key else valueKind (.ofList (c :: body))) :
    Goes (mark role (c :: body)) more m m := by
  refine goes_shown rfl fun lx hsound hrest hnesting hkey => ?_
  rw [← hkey] at hbody hmore
  rw [pass_word hsound hc hrest hbody hmore, hnesting, hkey, hrole]

/-- Nothing follows that would go on with a key or begin a string. -/
def KeyEnds (more : List Char) : Prop := ∀ c ∈ more.head?, goesOn true c = false ∧ ¬ IsQuote c

def ValueEnds (more : List Char) : Prop := ∀ c ∈ more.head?, goesOn false c = false ∧ ¬ IsQuote c

theorem goes_segment {cs : List Char} (h : Segment cs) (hkey : m.expectKey = true) (hmore : KeyEnds more) :
    Goes (mark .key cs) more m m := by
  have hrole : kindOf .key = if m.expectKey then Kind.key else .string := by rw [hkey]; rfl
  cases h with
  | @bare _ hne h =>
      obtain ⟨c, body, rfl⟩ := List.exists_cons_of_ne_nil hne
      have hword : ∀ d ∈ c :: body, isWordChar d = true := by
        intro d hd
        have hbare := h d hd
        simp only [isBareKeyChar, Bool.or_eq_true, decide_eq_true_eq] at hbare
        rcases hbare with (hd | rfl) | rfl
        · simp [isWordChar, isAsciiAlphanumeric, hd]
        · decide
        · decide
      refine goes_word (hword c (List.mem_cons_self ..)) (fun d hd => ?_) (fun d hd => ?_) (by rw [hkey]; rfl)
      · rw [goesOn, hword d (List.mem_cons_of_mem _ hd), Bool.true_or]
      · rw [hkey]
        exact (hmore d hd).1
  | quoted hquote h =>
      exact goes_string hquote (stringLength_singleLine hquote h fun c hc => (hmore c hc).2) hrole

theorem keyEnds_of_blanks {blanks : List Char} (h : ∀ c ∈ blanks, IsBlank c) (hmore : KeyEnds more) :
    KeyEnds (blanks ++ more) := by
  cases blanks with
  | nil => exact hmore
  | cons c blanks =>
      rintro d ⟨⟩
      rcases h c (List.mem_cons_self ..) with rfl | rfl | rfl <;> exact ⟨by decide, by simp [IsQuote]⟩

theorem goes_key {key : Marked} (h : Key key) (hkey : m.expectKey = true) (hmore : KeyEnds more) :
    Goes key more m m := by
  induction h with
  | segment hs => exact goes_segment hs hkey hmore
  | @dotted cs blanks blanks' key hs hb hb' _ ih =>
      refine Goes.trans (Goes.trans (Goes.trans (Goes.trans (goes_segment hs hkey ?_) (goes_blanks hb))
        (goes_dot hkey)) (goes_blanks hb')) ih
      rw [map_unmarked]
      exact keyEnds_of_blanks hb fun c hc => by cases hc; exact ⟨by decide, by simp [IsQuote]⟩

/-- A key goes up to the equals sign and the blanks after it, where a value begins. -/
theorem goes_keyEquals {key : Marked} {blanks blanks' : List Char} (h : Key key) (hkey : m.expectKey = true)
    (hb : ∀ c ∈ blanks, IsBlank c) (hb' : ∀ c ∈ blanks', IsBlank c) :
    Goes (key ++ unmarked blanks ++ punctuation '=' ++ unmarked blanks') more m ⟨m.nesting, false⟩ := by
  refine Goes.trans (Goes.trans (Goes.trans (goes_key h hkey ?_) (goes_blanks hb)) goes_equals)
    (goes_blanks hb')
  rw [map_unmarked]
  exact keyEnds_of_blanks hb fun c hc => by cases hc; exact ⟨by decide, by simp [IsQuote]⟩

def Wordy (cs : List Char) : Prop := ∀ c ∈ cs, goesOn false c = true

theorem wordy_nil : Wordy [] := fun _ hc => by cases hc

theorem wordy_cons {c : Char} {cs : List Char} (hc : goesOn false c = true) (h : Wordy cs) : Wordy (c :: cs) :=
  List.forall_mem_cons.mpr ⟨hc, h⟩

theorem wordy_of_all {cs : List Char} (h : cs.all (goesOn false) = true) : Wordy cs := List.all_eq_true.mp h

theorem Wordy.append {cs cs' : List Char} (h : Wordy cs) (h' : Wordy cs') : Wordy (cs ++ cs') :=
  List.forall_mem_append.mpr ⟨h, h'⟩

theorem goesOn_digit {c : Char} (h : c.isDigit = true) : goesOn false c = true := by
  simp [goesOn, isWordChar, isAsciiAlphanumeric, Char.isAlphanum, h]

theorem wordy_digit {count : Nat} {cs : List Char} (h : Digit count cs) : Wordy cs :=
  fun c hc => goesOn_digit (h.2 c hc)

theorem wordy_digits {digit : Char → Bool} (hdigit : ∀ c, digit c = true → goesOn false c = true)
    {cs : List Char} (h : Digits digit cs) : Wordy cs := by
  induction h with
  | one hc => exact wordy_cons (hdigit _ hc) wordy_nil
  | more hc _ ih => exact wordy_cons (hdigit _ hc) ih
  | underscore hc _ ih => exact wordy_cons (hdigit _ hc) (wordy_cons (by decide) ih)

theorem wordy_signed {P : List Char → Prop} (hP : ∀ cs, P cs → Wordy cs) {cs : List Char} (h : Signed P cs) :
    Wordy cs := by
  cases h with
  | unsigned h => exact hP cs h
  | plus h => exact wordy_cons (by decide) (hP _ h)
  | minus h => exact wordy_cons (by decide) (hP _ h)

theorem wordy_decimal {cs : List Char} (h : Decimal cs) : Wordy cs := wordy_digits (fun _ => goesOn_digit) h.1

theorem goesOn_hex {c : Char} (h : isHexDigit c = true) : goesOn false c = true := by
  have hword : c.isAlphanum = true := by
    simp only [isHexDigit, Bool.or_eq_true, Bool.and_eq_true, decide_eq_true_eq] at h
    rcases h with (h | h) | h
    · exact Bool.or_eq_true_iff.mpr (.inr h)
    · exact isAlphanum_iff.mpr (.inl (.inr ⟨h.1, UInt32.le_trans h.2 (by decide)⟩))
    · exact isAlphanum_iff.mpr (.inl (.inl ⟨h.1, UInt32.le_trans h.2 (by decide)⟩))
  simp [goesOn, isWordChar, isAsciiAlphanumeric, hword]

theorem goesOn_octal {c : Char} (h : isOctalDigit c = true) : goesOn false c = true := by
  refine goesOn_digit ?_
  simp only [isOctalDigit, Bool.and_eq_true, decide_eq_true_eq] at h
  simp only [Char.isDigit, Bool.and_eq_true, decide_eq_true_eq, ge_iff_le]
  exact ⟨h.1, UInt32.le_trans h.2 (by decide)⟩

theorem goesOn_binary {c : Char} (h : isBinaryDigit c = true) : goesOn false c = true := by
  simp only [isBinaryDigit, Bool.or_eq_true, decide_eq_true_eq] at h
  rcases h with rfl | rfl <;> decide

def Begins (cs : List Char) : Prop :=
  ∃ d rest, d.isDigit = true ∧ (cs = d :: rest ∨ cs = '+' :: d :: rest ∨ cs = '-' :: d :: rest)

theorem Begins.append {cs : List Char} (h : Begins cs) (more : List Char) : Begins (cs ++ more) := by
  obtain ⟨d, rest, hd, hcs⟩ := h
  refine ⟨d, rest ++ more, hd, ?_⟩
  rcases hcs with rfl | rfl | rfl
  · exact .inl rfl
  · exact .inr (.inl rfl)
  · exact .inr (.inr rfl)

theorem begins_digit {count : Nat} {cs : List Char} (h : Digit (count + 1) cs) : Begins cs := by
  obtain ⟨hlength, hdigits⟩ := h
  cases cs with
  | nil => cases hlength
  | cons d rest => exact ⟨d, rest, hdigits d (List.mem_cons_self ..), .inl rfl⟩

theorem begins_decimal {cs : List Char} (h : Signed Decimal cs) : Begins cs := by
  have hfirst : ∀ {cs : List Char}, Decimal cs → ∃ d rest, d.isDigit = true ∧ cs = d :: rest := by
    rintro cs ⟨hdigits, _⟩
    cases hdigits with
    | one hc => exact ⟨_, _, hc, rfl⟩
    | more hc _ => exact ⟨_, _, hc, rfl⟩
    | underscore hc _ => exact ⟨_, _, hc, rfl⟩
  cases h with
  | unsigned h =>
      obtain ⟨d, rest, hd, rfl⟩ := hfirst h
      exact ⟨d, rest, hd, .inl rfl⟩
  | plus h =>
      obtain ⟨d, rest, hd, rfl⟩ := hfirst h
      exact ⟨d, rest, hd, .inr (.inl rfl)⟩
  | minus h =>
      obtain ⟨d, rest, hd, rfl⟩ := hfirst h
      exact ⟨d, rest, hd, .inr (.inr rfl)⟩

structure NumberWord (cs : List Char) : Prop where
  wordy : Wordy cs
  first : ∃ c body, cs = c :: body ∧ isWordChar c = true
  kind : valueKind (.ofList cs) = .number

theorem numberWord_of_begins {cs : List Char} (hwordy : Wordy cs) (h : Begins cs) : NumberWord cs := by
  obtain ⟨d, rest, hd, hcs⟩ := h
  have hword : isWordChar d = true := by simp [isWordChar, isAsciiAlphanumeric, Char.isAlphanum, hd]
  have hsign : d ≠ '+' ∧ d ≠ '-' := by
    constructor
    · rintro rfl
      exact absurd hd (by decide)
    · rintro rfl
      exact absurd hd (by decide)
  have hunsigned : cs.dropWhile (fun c => c = '+' || c = '-') = d :: rest := by
    have hstop : (d :: rest).dropWhile (fun c => c = '+' || c = '-') = d :: rest :=
      List.dropWhile_cons_of_neg (by simp [hsign])
    rcases hcs with rfl | rfl | rfl
    · exact hstop
    · rw [List.dropWhile_cons_of_pos (by decide), hstop]
    · rw [List.dropWhile_cons_of_pos (by decide), hstop]
  refine ⟨hwordy, ?_, ?_⟩
  · rcases hcs with rfl | rfl | rfl
    · exact ⟨d, rest, rfl, hword⟩
    · exact ⟨'+', d :: rest, rfl, by decide⟩
    · exact ⟨'-', d :: rest, rfl, by decide⟩
  · have hne : ∀ word : String, (word.toList.dropWhile (fun c => c = '+' || c = '-')).head? ≠ some d →
        String.ofList cs ≠ word := by
      rintro _ hword rfl
      rw [String.toList_ofList, hunsigned] at hword
      exact hword rfl
    have htrue : String.ofList cs ≠ "true" := hne _ fun he => by cases he; exact absurd hd (by decide)
    have hfalse : String.ofList cs ≠ "false" := hne _ fun he => by cases he; exact absurd hd (by decide)
    rw [valueKind, if_neg (not_or.mpr ⟨htrue, hfalse⟩), String.toList_ofList, hunsigned, if_pos]
    exact .inl hd

theorem begins_time {cs : List Char} (h : Time cs) : Begins cs := by
  cases h with
  | minutes hh _ => exact (begins_digit hh).append _
  | seconds hh _ _ => exact (begins_digit hh).append _
  | fraction hh _ _ _ => exact (begins_digit hh).append _

theorem wordy_time {cs : List Char} (h : Time cs) : Wordy cs := by
  cases h with
  | minutes hh hm => exact (wordy_digit hh).append (wordy_cons (by decide) (wordy_digit hm))
  | seconds hh hm hs =>
      exact (wordy_digit hh).append (wordy_cons (by decide) ((wordy_digit hm).append
        (wordy_cons (by decide) (wordy_digit hs))))
  | fraction hh hm hs hf =>
      exact (wordy_digit hh).append (wordy_cons (by decide) ((wordy_digit hm).append
        (wordy_cons (by decide) ((wordy_digit hs).append (wordy_cons (by decide) (wordy_digit hf))))))

theorem wordy_date {cs : List Char} (h : Date cs) : Wordy cs := by
  obtain ⟨hy, hm, hd⟩ := h
  exact (wordy_digit hy).append (wordy_cons (by decide) ((wordy_digit hm).append
    (wordy_cons (by decide) (wordy_digit hd))))

theorem begins_date {cs : List Char} (h : Date cs) : Begins cs := by
  obtain ⟨hy, _, _⟩ := h
  exact (begins_digit hy).append _

theorem wordy_offset {cs : List Char} (h : Offset cs) : Wordy cs := by
  cases h with
  | upper => exact wordy_cons (by decide) wordy_nil
  | lower => exact wordy_cons (by decide) wordy_nil
  | plus hh hm =>
      exact wordy_cons (by decide) ((wordy_digit hh).append (wordy_cons (by decide) (wordy_digit hm)))
  | minus hh hm =>
      exact wordy_cons (by decide) ((wordy_digit hh).append (wordy_cons (by decide) (wordy_digit hm)))

theorem clock_word {cs : List Char} (h : Clock cs) : Wordy cs ∧ Begins cs := by
  cases h with
  | here h => exact ⟨wordy_time h, begins_time h⟩
  | offset h ho => exact ⟨(wordy_time h).append (wordy_offset ho), (begins_time h).append _⟩

theorem wordy_exponent {cs : List Char} (h : Exponent cs) : Wordy cs := by
  cases h with
  | lower h => exact wordy_cons (by decide) (wordy_signed (fun _ => wordy_digits fun _ => goesOn_digit) h)
  | upper h => exact wordy_cons (by decide) (wordy_signed (fun _ => wordy_digits fun _ => goesOn_digit) h)

theorem wordy_fraction {cs : List Char} (h : Fraction cs) : Wordy cs := by
  obtain ⟨h⟩ := h
  exact wordy_cons (by decide) (wordy_digits (fun _ => goesOn_digit) h)

theorem wordy_whole {cs : List Char} (h : Signed Decimal cs) : Wordy cs := wordy_signed (fun _ => wordy_decimal) h

theorem numberWord_special {cs : List Char} (h : Signed (fun cs => cs = "inf".toList ∨ cs = "nan".toList) cs) :
    NumberWord cs := by
  cases h with
  | unsigned h => rcases h with rfl | rfl <;> exact ⟨wordy_of_all (by decide), ⟨_, _, rfl, by decide⟩, by decide⟩
  | plus h => rcases h with rfl | rfl <;> exact ⟨wordy_of_all (by decide), ⟨_, _, rfl, by decide⟩, by decide⟩
  | minus h => rcases h with rfl | rfl <;> exact ⟨wordy_of_all (by decide), ⟨_, _, rfl, by decide⟩, by decide⟩

theorem numeral_word {cs : List Char} (h : Numeral cs) : NumberWord cs := by
  cases h with
  | integer h =>
      have hzero : ∀ c cs, Begins ('0' :: c :: cs) := fun c cs => ⟨'0', c :: cs, by decide, .inl rfl⟩
      cases h with
      | decimal h => exact numberWord_of_begins (wordy_whole h) (begins_decimal h)
      | hex h =>
          refine numberWord_of_begins (wordy_cons (by decide) (wordy_cons (by decide) ?_)) (hzero _ _)
          exact wordy_digits (fun _ => goesOn_hex) h
      | octal h =>
          refine numberWord_of_begins (wordy_cons (by decide) (wordy_cons (by decide) ?_)) (hzero _ _)
          exact wordy_digits (fun _ => goesOn_octal) h
      | binary h =>
          refine numberWord_of_begins (wordy_cons (by decide) (wordy_cons (by decide) ?_)) (hzero _ _)
          exact wordy_digits (fun _ => goesOn_binary) h
  | float h =>
      cases h with
      | exponent hw he =>
          exact numberWord_of_begins ((wordy_whole hw).append (wordy_exponent he)) ((begins_decimal hw).append _)
      | fraction hw hf =>
          exact numberWord_of_begins ((wordy_whole hw).append (wordy_fraction hf)) ((begins_decimal hw).append _)
      | both hw hf he =>
          exact numberWord_of_begins (((wordy_whole hw).append (wordy_fraction hf)).append (wordy_exponent he))
            (((begins_decimal hw).append _).append _)
      | special h => exact numberWord_special h
  | date h => exact numberWord_of_begins (wordy_date h) (begins_date h)
  | time h => exact numberWord_of_begins (wordy_time h) (begins_time h)
  | @moment date clock c hd hc hk =>
      have hdelim : goesOn false c = true := by rcases hc with rfl | rfl <;> decide
      exact numberWord_of_begins ((wordy_date hd).append (wordy_cons hdelim (clock_word hk).1))
        ((begins_date hd).append _)

theorem goes_numberWord {cs : List Char} (h : NumberWord cs) (hvalue : m.expectKey = false)
    (hmore : ∀ c ∈ more.head?, goesOn false c = false) : Goes (mark .number cs) more m m := by
  obtain ⟨c, body, rfl, hc⟩ := h.first
  refine goes_word hc (fun d hd => ?_) (fun d hd => ?_) ?_
  · rw [hvalue]
    exact h.wordy d (List.mem_cons_of_mem _ hd)
  · rw [hvalue]
    exact hmore d hd
  · rw [hvalue, h.kind]
    rfl

theorem goes_boolean {cs : List Char} (h : cs = "true".toList ∨ cs = "false".toList)
    (hvalue : m.expectKey = false) (hmore : ∀ c ∈ more.head?, goesOn false c = false) :
    Goes (mark .boolean cs) more m m := by
  have hends : ∀ c ∈ more.head?, goesOn m.expectKey c = false := by rwa [hvalue]
  rcases h with rfl | rfl
  · have hbody : ∀ d ∈ ['r', 'u', 'e'], goesOn m.expectKey d = true := by
      rw [hvalue]
      exact wordy_of_all (by decide)
    refine goes_word (by decide) hbody hends ?_
    rw [hvalue]
    decide
  · have hbody : ∀ d ∈ ['a', 'l', 's', 'e'], goesOn m.expectKey d = true := by
      rw [hvalue]
      exact wordy_of_all (by decide)
    refine goes_word (by decide) hbody hends ?_
    rw [hvalue]
    decide

theorem goes_gap {gap : Marked} (h : Gap gap) (hnesting : m.nesting ≠ []) : Goes gap more m m := by
  have hnewline : ∀ {more : List Char}, Goes (unmarked ['\n']) more m m := by
    intro more
    have hgoes : Goes (unmarked ['\n']) more m ⟨m.nesting, m.nesting.isEmpty || m.expectKey⟩ := goes_newline
    rwa [List.isEmpty_eq_false_iff.mpr hnesting, Bool.false_or] at hgoes
  induction h with
  | nil => exact goes_nil
  | @blank c gap hc _ ih =>
      rcases hc with hc | rfl
      · exact (goes_blank hc).trans ih
      · exact hnewline.trans ih
  | @comment comment gap hc _ ih =>
      refine Goes.trans (goes_comment hc fun c he => ?_) (hnewline.trans ih)
      exact (Option.some.inj he).symm

theorem valueEnds_cons {c : Char} (hc : goesOn false c = false ∧ ¬ IsQuote c) : ValueEnds (c :: more) := by
  rintro d ⟨⟩
  exact hc

theorem valueEnds_blank {c : Char} (hc : IsBlank c) : ValueEnds (c :: more) := by
  rcases hc with rfl | rfl | rfl <;> exact valueEnds_cons ⟨by decide, by simp [IsQuote]⟩

theorem valueEnds_blanks {blanks : List Char} (h : ∀ c ∈ blanks, IsBlank c) (hmore : ValueEnds more) :
    ValueEnds (blanks ++ more) := by
  cases blanks with
  | nil => exact hmore
  | cons c blanks => exact valueEnds_blank (h c (List.mem_cons_self ..))

theorem valueEnds_comment {comment : Marked} (h : Comment comment) :
    ValueEnds (comment.map Prod.fst ++ more) := by
  obtain ⟨_⟩ := h
  exact valueEnds_cons ⟨by decide, by simp [IsQuote]⟩

theorem valueEnds_gap {gap : Marked} (h : Gap gap) (hmore : ValueEnds more) :
    ValueEnds (gap.map Prod.fst ++ more) := by
  cases h with
  | nil => exact hmore
  | blank hc _ =>
      rcases hc with hc | rfl
      · exact valueEnds_blank hc
      · exact valueEnds_cons ⟨by decide, by simp [IsQuote]⟩
  | comment hc _ =>
      rw [List.map_append, List.append_assoc]
      exact valueEnds_comment hc

/-- What a part of a value does to the lexer: a value leaves it in its mode, and
what an open bracket is followed by closes it. -/
def Reads : Part → Marked → Prop
  | .value, text => ∀ more m, m.expectKey = false → ValueEnds more → Goes text more m m
  | .items, text => ∀ more nesting, Goes text more ⟨'[' :: nesting, false⟩ ⟨nesting, false⟩
  | .entries, text => ∀ more nesting, Goes text more ⟨'{' :: nesting, true⟩ ⟨nesting, false⟩

theorem goes_item {before value after : Marked} {c : Char} {nesting : List Char} (hb : Gap before)
    (hv : Reads .value value) (ha : Gap after) (hc : goesOn false c = false ∧ ¬ IsQuote c) (hne : nesting ≠ []) :
    Goes (before ++ value ++ after) (c :: more) ⟨nesting, false⟩ ⟨nesting, false⟩ := by
  refine Goes.trans (Goes.trans (goes_gap hb hne) (hv _ _ rfl ?_)) (goes_gap ha hne)
  exact valueEnds_gap ha (valueEnds_cons hc)

theorem goes_entry {before key value after : Marked} {blanks blanks' : List Char} {c : Char} {nesting : List Char}
    (hb : Gap before) (hk : Key key) (hs : ∀ c ∈ blanks, IsBlank c) (hs' : ∀ c ∈ blanks', IsBlank c)
    (hv : Reads .value value) (ha : Gap after) (hc : goesOn false c = false ∧ ¬ IsQuote c) (hne : nesting ≠ []) :
    Goes (before ++ (key ++ unmarked blanks ++ punctuation '=' ++ unmarked blanks') ++ value ++ after)
      (c :: more) ⟨nesting, true⟩ ⟨nesting, false⟩ := by
  refine Goes.trans (Goes.trans (Goes.trans (goes_gap hb hne) (goes_keyEquals hk rfl hs hs'))
    (hv _ _ rfl ?_)) (goes_gap ha hne)
  exact valueEnds_gap ha (valueEnds_cons hc)

theorem derives_reads {part : Part} (h : Derives part text) : Reads part text := by
  have hbracket : goesOn false ']' = false ∧ ¬ IsQuote ']' := ⟨by decide, by simp [IsQuote]⟩
  have hbrace : goesOn false '}' = false ∧ ¬ IsQuote '}' := ⟨by decide, by simp [IsQuote]⟩
  have hcomma : goesOn false ',' = false ∧ ¬ IsQuote ',' := ⟨by decide, by simp [IsQuote]⟩
  induction h with
  | @string cs h =>
      intro more m hvalue hmore
      have hnoQuote : NoQuote more := fun c hc => (hmore c hc).2
      have hrole : kindOf .string = if m.expectKey then Kind.key else .string := by rw [hvalue]; rfl
      cases h with
      | singleLine hquote h => exact goes_string hquote (stringLength_singleLine hquote h hnoQuote) hrole
      | multiLine hquote h => exact goes_string hquote (stringLength_str (.multiLine hquote h) hnoQuote) hrole
  | number h =>
      intro more m hvalue hmore
      exact goes_numberWord (numeral_word h) hvalue fun c hc => (hmore c hc).1
  | @moment date clock hd hc =>
      intro more m hvalue hmore
      have hdate := numberWord_of_begins (wordy_date hd) (begins_date hd)
      have hclock := numberWord_of_begins (clock_word hc).1 (clock_word hc).2
      refine Goes.trans (Goes.trans (goes_numberWord hdate hvalue ?_) (goes_blank (.inl rfl)))
        (goes_numberWord hclock hvalue fun c hc => (hmore c hc).1)
      rintro _ ⟨⟩
      decide
  | boolean h =>
      intro more m hvalue hmore
      exact goes_boolean h hvalue fun c hc => (hmore c hc).1
  | array _ ih =>
      intro more m hvalue _
      obtain ⟨nesting, expectKey⟩ := m
      obtain rfl : expectKey = false := hvalue
      exact (goes_open (.inl rfl) rfl).trans (ih more nesting)
  | table _ ih =>
      intro more m hvalue _
      obtain ⟨nesting, expectKey⟩ := m
      obtain rfl : expectKey = false := hvalue
      exact (goes_open (.inr rfl) rfl).trans (ih more nesting)
  | noItem h =>
      intro more nesting
      exact (goes_gap h (List.cons_ne_nil _ _)).trans (goes_close (.inl rfl) rfl)
  | lastItem hb _ ha ih =>
      intro more nesting
      exact (goes_item hb ih ha hbracket (List.cons_ne_nil _ _)).trans (goes_close (.inl rfl) rfl)
  | item hb _ ha _ ihv ih =>
      intro more nesting
      refine Goes.trans (Goes.trans (goes_item hb ihv ha hcomma (List.cons_ne_nil _ _)) ?_) (ih more nesting)
      exact goes_comma
  | noEntry h =>
      intro more nesting
      exact (goes_gap h (List.cons_ne_nil _ _)).trans (goes_close (.inr rfl) rfl)
  | lastEntry hb hk hs hs' _ ha ih =>
      intro more nesting
      exact (goes_entry hb hk hs hs' ih ha hbrace (List.cons_ne_nil _ _)).trans (goes_close (.inr rfl) rfl)
  | entry hb hk hs hs' _ ha _ ihv ih =>
      intro more nesting
      refine Goes.trans (Goes.trans (goes_entry hb hk hs hs' ihv ha hcomma (List.cons_ne_nil _ _)) ?_)
        (ih more nesting)
      exact goes_comma

def AtLineEnd (more : List Char) : Prop := ∀ c ∈ more.head?, c = '\n'

theorem valueEnds_lineEnd (h : LineEnd text) (hmore : AtLineEnd more) :
    ValueEnds (text.map Prod.fst ++ more) := by
  have hends : ValueEnds more := by
    intro c hc
    rw [hmore c hc]
    exact ⟨by decide, by simp [IsQuote]⟩
  cases h with
  | blank h =>
      rw [map_unmarked]
      exact valueEnds_blanks h hends
  | comment h hc =>
      rw [List.map_append, map_unmarked, List.append_assoc]
      exact valueEnds_blanks h (valueEnds_comment hc)

theorem goes_lineEnd (h : LineEnd text) (hmore : AtLineEnd more) : Goes text more m m := by
  cases h with
  | blank h => exact goes_blanks h
  | comment h hc => exact (goes_blanks h).trans (goes_comment hc hmore)

theorem goes_line (h : Line text) (hmore : AtLineEnd more) :
    ∃ expectKey, Goes text more ⟨[], true⟩ ⟨[], expectKey⟩ := by
  cases h with
  | empty h => exact ⟨true, goes_lineEnd h hmore⟩
  | keyValue hb hk hs hs' hv h =>
      refine ⟨false, Goes.trans (Goes.trans (Goes.trans (goes_blanks hb) (goes_keyEquals hk rfl hs hs'))
        (derives_reads hv _ _ rfl ?_)) (goes_lineEnd h hmore)⟩
      exact valueEnds_lineEnd h hmore

theorem goes_document (h : Document text) : ∃ expectKey, Goes text [] ⟨[], true⟩ ⟨[], expectKey⟩ := by
  induction h with
  | last h => exact goes_line h fun c hc => by cases hc
  | @line line text hl _ ih =>
      obtain ⟨expectKey, hend⟩ := ih
      have hmore : AtLineEnd ((unmarked ['\n']).map Prod.fst ++ (text.map Prod.fst ++ [])) :=
        fun c hc => (Option.some.inj hc).symm
      obtain ⟨expectKey', hline⟩ := goes_line hl hmore
      refine ⟨expectKey, Goes.trans (Goes.trans hline ?_) hend⟩
      exact goes_newline

/-- Every character of a document that is no blank is in one token, which has
the kind of what the character belongs to. -/
theorem tokenize_classifies (text : Marked) (h : Document text) :
    ∃ tokens, tokenize (.ofList (text.map Prod.fst)) = .ok tokens ∧
      ∀ before c role after, text = before ++ (c, some role) :: after → isWhitespace c = false →
        tokens.countP (fun t => Has t (placeAfter (0, 0) (before.map Prod.fst))) = 1 ∧
        ∀ t ∈ tokens, Has t (placeAfter (0, 0) (before.map Prod.fst)) → t.kind = kindOf role := by
  have hchars : (String.ofList (text.map Prod.fst)).toList = text.map Prod.fst := String.toList_ofList
  have hat : At (.new (.ofList (text.map Prod.fst))) (text.map Prod.fst ++ []) ⟨[], true⟩ := by
    refine ⟨new_sound _, ?_, rfl, rfl⟩
    rw [List.append_nil]
    exact hchars
  obtain ⟨expectKey, hgoes⟩ := goes_document h
  obtain ⟨lx, hmoves, hend⟩ := hgoes _ hat
  obtain ⟨_, htokens, htiles⟩ := tokenize_of_moves hmoves hend.rest
  refine ⟨lx.tokens, htokens, ?_⟩
  rintro before c role after rfl hc
  rw [tint_append] at htiles
  obtain ⟨hcount, hlabel⟩ := htiles.holds rfl hc
  rw [map_tint] at hcount hlabel
  rw [List.countP_map] at hcount
  refine ⟨hcount, fun t ht hhas => ?_⟩
  exact (hlabel (piece t) (List.mem_map_of_mem ht) hhas (kindOf role) rfl).symm

/-- An array with a string in which a bracket and a hash are no bracket and no comment. -/
def quotedMarks : Marked :=
  unmarked [] ++ (mark .key ['a'] ++ unmarked [] ++ punctuation '=' ++ unmarked []) ++
    (punctuation '[' ++ ([] ++ mark .string ['"', ']', '#', '"'] ++ [] ++ punctuation ']')) ++
    (unmarked [' '] ++ mark .comment ['#', 'c'])

theorem document_quotedMarks : Document quotedMarks := by
  have hnone : ∀ c ∈ ([] : List Char), IsBlank c := fun _ hc => by cases hc
  have hstring : Derives .value (mark .string ['"', ']', '#', '"']) := by
    refine .string (.singleLine (.inl rfl) (.char (by decide) (by decide) (by decide) ?_))
    exact .char (by decide) (by decide) (by decide) .close
  have hbare : ∀ c ∈ ['a'], isBareKeyChar c = true := List.forall_mem_singleton.mpr (by decide)
  have hkey : Key (mark .key ['a']) := .segment (.bare (List.cons_ne_nil _ _) hbare)
  have hblank : ∀ c ∈ [' '], IsBlank c := fun c hc => .inl (List.mem_singleton.mp hc)
  refine .last (.keyValue hnone hkey hnone hnone (.array (.lastItem .nil hstring .nil)) ?_)
  exact .comment hblank (.intro (by decide))

theorem tokenize_classifies_quotedMarks : ∃ tokens, tokenize "a=[\"]#\"] #c" = .ok tokens ∧
    ∀ t ∈ tokens, Has t (0, 5) → t.kind = .string := by
  obtain ⟨tokens, htokens, hkinds⟩ := tokenize_classifies quotedMarks document_quotedMarks
  refine ⟨tokens, htokens, fun t ht hhas => ?_⟩
  have hkind := hkinds (quotedMarks.take 5) '#' .string (quotedMarks.drop 6) rfl (by decide)
  exact hkind.2 t ht hhas

end LocalDevProxy.HighlightToml
