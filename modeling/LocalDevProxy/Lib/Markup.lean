import Mathlib.Data.List.Basic

namespace LocalDevProxy.Lib.Markup

/-- A tag between angle brackets, with the values of its attributes as they are meant. -/
structure Tag where
  name : List Char
  attributes : List (List Char × List Char)
deriving DecidableEq

/-- What a page consists of. Texts are meant literally. -/
inductive Token
  | tag (tag : Tag)
  | text (text : List Char)
deriving DecidableEq

def unescape : List Char → List Char
  | '&' :: 'a' :: 'm' :: 'p' :: ';' :: rest => '&' :: unescape rest
  | '&' :: 'l' :: 't' :: ';' :: rest => '<' :: unescape rest
  | '&' :: 'g' :: 't' :: ';' :: rest => '>' :: unescape rest
  | '&' :: 'q' :: 'u' :: 'o' :: 't' :: ';' :: rest => '"' :: unescape rest
  | '&' :: '#' :: 'x' :: '2' :: '7' :: ';' :: rest => '\'' :: unescape rest
  | c :: rest => c :: unescape rest
  | [] => []

inductive Part
  | gap
  | name (name : List Char)
  | assigned (name : List Char)
  | value (name : List Char) (quote : Char) (value : List Char)

def attributesFrom : Part → List Char → List (List Char × List Char)
  | .gap, [] => []
  | .gap, c :: rest => attributesFrom (if c = ' ' then .gap else .name [c]) rest
  | .name name, [] => [(name, [])]
  | .name name, c :: rest =>
      if c = ' ' then (name, []) :: attributesFrom .gap rest
      else attributesFrom (if c = '=' then .assigned name else .name (name ++ [c])) rest
  | .assigned name, [] => [(name, [])]
  | .assigned name, c :: rest => attributesFrom (.value name c []) rest
  | .value name _ value, [] => [(name, unescape value)]
  | .value name quote value, c :: rest =>
      if c = quote then (name, unescape value) :: attributesFrom .gap rest
      else attributesFrom (.value name quote (value ++ [c])) rest

def readTag (source : List Char) : Tag :=
  ⟨source.takeWhile (· ≠ ' '), attributesFrom .gap (source.dropWhile (· ≠ ' '))⟩

def flush (text : List Char) : List Token := if text = [] then [] else [.text (unescape text)]

/-- Where a reader of a page is: between tags, in a tag, or in a quoted value in a tag. -/
inductive Mode
  | text
  | tag
  | quoted (quote : Char)

def tokensFrom : Mode → List Char → List Char → List Token
  | .text, seen, [] => flush seen
  | .text, seen, c :: rest =>
      if c = '<' then flush seen ++ tokensFrom .tag [] rest else tokensFrom .text (seen ++ [c]) rest
  | .tag, seen, [] => flush ('<' :: seen)
  | .tag, seen, c :: rest =>
      if c = '>' then .tag (readTag seen) :: tokensFrom .text [] rest
      else tokensFrom (if c = '"' ∨ c = '\'' then .quoted c else .tag) (seen ++ [c]) rest
  | .quoted _, seen, [] => flush ('<' :: seen)
  | .quoted quote, seen, c :: rest =>
      tokensFrom (if c = quote then .tag else .quoted quote) (seen ++ [c]) rest

def tokens (page : List Char) : List Token := tokensFrom .text [] page

theorem unescape_cons {c : Char} (h : c ≠ '&') (rest : List Char) : unescape (c :: rest) = c :: unescape rest := by
  rw [unescape]
  all_goals exact fun _ hc => absurd hc h

theorem attributesFrom_value {name : List Char} {quote : Char} (seen value rest : List Char) (h : quote ∉ value) :
    attributesFrom (.value name quote seen) (value ++ quote :: rest) =
      (name, unescape (seen ++ value)) :: attributesFrom .gap rest := by
  induction value generalizing seen with
  | nil => rw [List.nil_append, List.append_nil, attributesFrom, if_pos rfl]
  | cons c value ih =>
      have hc : c ≠ quote := (List.ne_of_not_mem_cons h).symm
      have hvalue := List.not_mem_of_not_mem_cons h
      rw [List.cons_append, attributesFrom, if_neg hc, ih _ hvalue, List.append_assoc]
      rfl

theorem tokensFrom_text (seen text rest : List Char) (h : '<' ∉ text) :
    tokensFrom .text seen (text ++ rest) = tokensFrom .text (seen ++ text) rest := by
  induction text generalizing seen with
  | nil => rw [List.nil_append, List.append_nil]
  | cons c text ih =>
      have hc : c ≠ '<' := (List.ne_of_not_mem_cons h).symm
      have htext := List.not_mem_of_not_mem_cons h
      rw [List.cons_append, tokensFrom, if_neg hc, ih _ htext, List.append_assoc]
      rfl

theorem tokensFrom_quoted {quote : Char} (seen value rest : List Char) (h : quote ∉ value) :
    tokensFrom (.quoted quote) seen (value ++ quote :: rest) = tokensFrom .tag (seen ++ value ++ [quote]) rest := by
  induction value generalizing seen with
  | nil => rw [List.nil_append, List.append_nil, tokensFrom, if_pos rfl]
  | cons c value ih =>
      have hc : c ≠ quote := (List.ne_of_not_mem_cons h).symm
      have hvalue := List.not_mem_of_not_mem_cons h
      rw [List.cons_append, tokensFrom, if_neg hc, ih _ hvalue, List.append_assoc seen]
      rfl

end LocalDevProxy.Lib.Markup
