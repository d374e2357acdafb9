import Mathlib.Data.List.Basic

namespace LocalDevProxy.Lib.TomlGrammar

inductive Role
  | key
  | string
  | number
  | boolean
  | comment
  | punctuation
deriving DecidableEq

/-- A text in which the characters have roles, apart from those around them. -/
abbrev Marked := List (Char × Option Role)

def mark (role : Role) (cs : List Char) : Marked := cs.map fun c => (c, some role)

def unmarked (cs : List Char) : Marked := cs.map fun c => (c, none)

def punctuation (c : Char) : Marked := [(c, some .punctuation)]

/-- A blank that ends no line. A return is one as well: it may stand before a newline. -/
def IsBlank (c : Char) : Prop := c = ' ' ∨ c = '\t' ∨ c = '\r'

def IsQuote (c : Char) : Prop := c = '"' ∨ c = '\''

/-- What follows the opening quote of a string on one line. An escape is a
backslash and a character: the digits of a code point are like other characters. -/
inductive SingleLine (quote : Char) : List Char → Prop
  | close : SingleLine quote [quote]
  | char {c : Char} {cs : List Char} (hquote : c ≠ quote) (hnewline : c ≠ '\n')
      (hescape : quote = '"' → c ≠ '\\') (h : SingleLine quote cs) : SingleLine quote (c :: cs)
  | escape {c : Char} {cs : List Char} (hbasic : quote = '"') (hnewline : c ≠ '\n')
      (h : SingleLine quote cs) : SingleLine quote ('\\' :: c :: cs)

/-- What follows the three opening quotes of a string on several lines. Up to
two quotes may stand anywhere in it, and before the three that close it. -/
inductive MultiLine (quote : Char) : List Char → Prop
  | close {count : Nat} (hcount : count ≤ 2) : MultiLine quote (List.replicate (3 + count) quote)
  | char {c : Char} {cs : List Char} (hquote : c ≠ quote) (hescape : quote = '"' → c ≠ '\\')
      (h : MultiLine quote cs) : MultiLine quote (c :: cs)
  | escape {c : Char} {cs : List Char} (hbasic : quote = '"') (h : MultiLine quote cs) :
      MultiLine quote ('\\' :: c :: cs)
  | oneQuote {c : Char} {cs : List Char} (hquote : c ≠ quote) (h : MultiLine quote (c :: cs)) :
      MultiLine quote (quote :: c :: cs)
  | twoQuotes {c : Char} {cs : List Char} (hquote : c ≠ quote) (h : MultiLine quote (c :: cs)) :
      MultiLine quote (quote :: quote :: c :: cs)

inductive Str : List Char → Prop
  | singleLine {quote : Char} {cs : List Char} (hquote : IsQuote quote) (h : SingleLine quote cs) :
      Str (quote :: cs)
  | multiLine {quote : Char} {cs : List Char} (hquote : IsQuote quote) (h : MultiLine quote cs) :
      Str (quote :: quote :: quote :: cs)

/-- Digits of which an underscore may separate any two. -/
inductive Digits (digit : Char → Bool) : List Char → Prop
  | one {c : Char} (hc : digit c = true) : Digits digit [c]
  | more {c : Char} {cs : List Char} (hc : digit c = true) (h : Digits digit cs) : Digits digit (c :: cs)
  | underscore {c : Char} {cs : List Char} (hc : digit c = true) (h : Digits digit cs) :
      Digits digit (c :: '_' :: cs)

inductive Signed (P : List Char → Prop) : List Char → Prop
  | unsigned {cs : List Char} (h : P cs) : Signed P cs
  | plus {cs : List Char} (h : P cs) : Signed P ('+' :: cs)
  | minus {cs : List Char} (h : P cs) : Signed P ('-' :: cs)

def isHexDigit (c : Char) : Bool := c.isDigit || 'a' ≤ c && c ≤ 'f' || 'A' ≤ c && c ≤ 'F'

def isOctalDigit (c : Char) : Bool := '0' ≤ c && c ≤ '7'

def isBinaryDigit (c : Char) : Bool := c = '0' || c = '1'

/-- A decimal number without a zero in front. -/
def Decimal (cs : List Char) : Prop := Digits Char.isDigit cs ∧ (cs.head? = some '0' → cs = ['0'])

inductive Integer : List Char → Prop
  | decimal {cs : List Char} (h : Signed Decimal cs) : Integer cs
  | hex {cs : List Char} (h : Digits isHexDigit cs) : Integer ('0' :: 'x' :: cs)
  | octal {cs : List Char} (h : Digits isOctalDigit cs) : Integer ('0' :: 'o' :: cs)
  | binary {cs : List Char} (h : Digits isBinaryDigit cs) : Integer ('0' :: 'b' :: cs)

inductive Exponent : List Char → Prop
  | lower {cs : List Char} (h : Signed (Digits Char.isDigit) cs) : Exponent ('e' :: cs)
  | upper {cs : List Char} (h : Signed (Digits Char.isDigit) cs) : Exponent ('E' :: cs)

inductive Fraction : List Char → Prop
  | digits {cs : List Char} (h : Digits Char.isDigit cs) : Fraction ('.' :: cs)

inductive Float : List Char → Prop
  | exponent {whole exponent : List Char} (hw : Signed Decimal whole) (he : Exponent exponent) :
      Float (whole ++ exponent)
  | fraction {whole fraction : List Char} (hw : Signed Decimal whole) (hf : Fraction fraction) :
      Float (whole ++ fraction)
  | both {whole fraction exponent : List Char} (hw : Signed Decimal whole) (hf : Fraction fraction)
      (he : Exponent exponent) : Float (whole ++ fraction ++ exponent)
  | special {cs : List Char} (h : Signed (fun cs => cs = "inf".toList ∨ cs = "nan".toList) cs) : Float cs

def Digit (count : Nat) (cs : List Char) : Prop := cs.length = count ∧ ∀ c ∈ cs, c.isDigit = true

inductive Date : List Char → Prop
  | ymd {year month day : List Char} (hy : Digit 4 year) (hm : Digit 2 month) (hd : Digit 2 day) :
      Date (year ++ '-' :: (month ++ '-' :: day))

inductive Time : List Char → Prop
  | minutes {hour minute : List Char} (hh : Digit 2 hour) (hm : Digit 2 minute) : Time (hour ++ ':' :: minute)
  | seconds {hour minute second : List Char} (hh : Digit 2 hour) (hm : Digit 2 minute) (hs : Digit 2 second) :
      Time (hour ++ ':' :: (minute ++ ':' :: second))
  | fraction {hour minute second : List Char} {count : Nat} {fraction : List Char} (hh : Digit 2 hour)
      (hm : Digit 2 minute) (hs : Digit 2 second) (hf : Digit count fraction) :
      Time (hour ++ ':' :: (minute ++ ':' :: (second ++ '.' :: fraction)))

inductive Offset : List Char → Prop
  | upper : Offset ['Z']
  | lower : Offset ['z']
  | plus {hour minute : List Char} (hh : Digit 2 hour) (hm : Digit 2 minute) : Offset ('+' :: (hour ++ ':' :: minute))
  | minus {hour minute : List Char} (hh : Digit 2 hour) (hm : Digit 2 minute) :
      Offset ('-' :: (hour ++ ':' :: minute))

inductive Clock : List Char → Prop
  | here {time : List Char} (h : Time time) : Clock time
  | offset {time offset : List Char} (h : Time time) (ho : Offset offset) : Clock (time ++ offset)

/-- A number or a date, without a blank in it. -/
inductive Numeral : List Char → Prop
  | integer {cs : List Char} (h : Integer cs) : Numeral cs
  | float {cs : List Char} (h : Float cs) : Numeral cs
  | date {cs : List Char} (h : Date cs) : Numeral cs
  | time {cs : List Char} (h : Time cs) : Numeral cs
  | moment {date clock : List Char} {c : Char} (hd : Date date) (hc : c = 'T' ∨ c = 't') (hk : Clock clock) :
      Numeral (date ++ c :: clock)

def isBareKeyChar (c : Char) : Bool := c.isAlphanum || c = '_' || c = '-'

inductive Segment : List Char → Prop
  | bare {cs : List Char} (hne : cs ≠ []) (h : ∀ c ∈ cs, isBareKeyChar c = true) : Segment cs
  | quoted {quote : Char} {cs : List Char} (hquote : IsQuote quote) (h : SingleLine quote cs) :
      Segment (quote :: cs)

inductive Key : Marked → Prop
  | segment {cs : List Char} (h : Segment cs) : Key (mark .key cs)
  | dotted {cs blanks blanks' : List Char} {key : Marked} (hs : Segment cs) (hb : ∀ c ∈ blanks, IsBlank c)
      (hb' : ∀ c ∈ blanks', IsBlank c) (hk : Key key) :
      Key (mark .key cs ++ unmarked blanks ++ punctuation '.' ++ unmarked blanks' ++ key)

inductive Comment : Marked → Prop
  | intro {body : List Char} (h : '\n' ∉ body) : Comment (mark .comment ('#' :: body))

/-- Blanks, newlines and comments, as they may stand between the values of an array. -/
inductive Gap : Marked → Prop
  | nil : Gap []
  | blank {c : Char} {gap : Marked} (hc : IsBlank c ∨ c = '\n') (h : Gap gap) : Gap ((c, none) :: gap)
  | comment {comment gap : Marked} (hc : Comment comment) (h : Gap gap) :
      Gap (comment ++ ('\n', none) :: gap)

inductive Part
  | value
  | items
  | entries

/-- A value, or what follows the opening bracket of an array or of an inline table. -/
inductive Derives : Part → Marked → Prop
  | string {cs : List Char} (h : Str cs) : Derives .value (mark .string cs)
  | number {cs : List Char} (h : Numeral cs) : Derives .value (mark .number cs)
  | moment {date clock : List Char} (hd : Date date) (hc : Clock clock) :
      Derives .value (mark .number date ++ unmarked [' '] ++ mark .number clock)
  | boolean {cs : List Char} (h : cs = "true".toList ∨ cs = "false".toList) : Derives .value (mark .boolean cs)
  | array {text : Marked} (h : Derives .items text) : Derives .value (punctuation '[' ++ text)
  | table {text : Marked} (h : Derives .entries text) : Derives .value (punctuation '{' ++ text)
  | noItem {gap : Marked} (h : Gap gap) : Derives .items (gap ++ punctuation ']')
  | lastItem {before value after : Marked} (hb : Gap before) (hv : Derives .value value) (ha : Gap after) :
      Derives .items (before ++ value ++ after ++ punctuation ']')
  | item {before value after text : Marked} (hb : Gap before) (hv : Derives .value value) (ha : Gap after)
      (h : Derives .items text) : Derives .items (before ++ value ++ after ++ punctuation ',' ++ text)
  | noEntry {gap : Marked} (h : Gap gap) : Derives .entries (gap ++ punctuation '}')
  | lastEntry {before key value after : Marked} {blanks blanks' : List Char} (hb : Gap before) (hk : Key key)
      (hs : ∀ c ∈ blanks, IsBlank c) (hs' : ∀ c ∈ blanks', IsBlank c) (hv : Derives .value value)
      (ha : Gap after) : Derives .entries
        (before ++ (key ++ unmarked blanks ++ punctuation '=' ++ unmarked blanks') ++ value ++ after ++
          punctuation '}')
  | entry {before key value after text : Marked} {blanks blanks' : List Char} (hb : Gap before) (hk : Key key)
      (hs : ∀ c ∈ blanks, IsBlank c) (hs' : ∀ c ∈ blanks', IsBlank c) (hv : Derives .value value)
      (ha : Gap after) (h : Derives .entries text) : Derives .entries
        (before ++ (key ++ unmarked blanks ++ punctuation '=' ++ unmarked blanks') ++ value ++ after ++
          punctuation ',' ++ text)

inductive LineEnd : Marked → Prop
  | blank {blanks : List Char} (h : ∀ c ∈ blanks, IsBlank c) : LineEnd (unmarked blanks)
  | comment {blanks : List Char} {comment : Marked} (h : ∀ c ∈ blanks, IsBlank c) (hc : Comment comment) :
      LineEnd (unmarked blanks ++ comment)

/-- A line without a key, or a key with its value, which may go over several lines. -/
inductive Line : Marked → Prop
  | empty {text : Marked} (h : LineEnd text) : Line text
  | keyValue {blanks blanks' blanks'' : List Char} {key value text : Marked} (hb : ∀ c ∈ blanks, IsBlank c)
      (hk : Key key) (hs : ∀ c ∈ blanks', IsBlank c) (hs' : ∀ c ∈ blanks'', IsBlank c)
      (hv : Derives .value value) (h : LineEnd text) : Line
        (unmarked blanks ++ (key ++ unmarked blanks' ++ punctuation '=' ++ unmarked blanks'') ++ value ++ text)

/-- Lines of keys and values, with a newline between each two. -/
inductive Document : Marked → Prop
  | last {line : Marked} (h : Line line) : Document line
  | line {line text : Marked} (hl : Line line) (h : Document text) :
      Document (line ++ unmarked ['\n'] ++ text)

inductive Header : List Char → Prop
  | table {blanks blanks' : List Char} {key : Marked} (hb : ∀ c ∈ blanks, IsBlank c) (hk : Key key)
      (hb' : ∀ c ∈ blanks', IsBlank c) : Header ('[' :: (blanks ++ key.map Prod.fst ++ blanks' ++ [']']))
  | element {blanks blanks' : List Char} {key : Marked} (hb : ∀ c ∈ blanks, IsBlank c) (hk : Key key)
      (hb' : ∀ c ∈ blanks', IsBlank c) :
      Header ('[' :: '[' :: (blanks ++ key.map Prod.fst ++ blanks' ++ [']', ']']))

end LocalDevProxy.Lib.TomlGrammar
