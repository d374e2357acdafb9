import LocalDevProxy.Lib.ByteOffset
import LocalDevProxy.Lib.Fallible
import LocalDevProxy.Text
import Mathlib.Data.List.DropRight

namespace LocalDevProxy.Highlight

open Lib.ByteOffset Lib.Fallible Text

inductive Kind
  | plain
  | comment
  | table
  | key
  | string
  | number
  | boolean
  | punctuation
deriving DecidableEq, Repr

/-- A run of text on one line. The column counts characters from the start of the line. -/
structure Token where
  line : Nat
  column : Nat
  text : String
  kind : Kind
deriving DecidableEq, Repr

/-- What would end the program: an access out of range, or a loop that does not end. -/
inductive Fault
  | outOfRange
  | unfinished
deriving DecidableEq, Repr

structure Lexer where
  chars : List Char
  /-- Line and column of each character. -/
  positions : List (Nat × Nat)
  i : Nat
  /-- Open arrays and inline tables, the innermost first. -/
  nesting : List Char
  /-- The next word is a key. -/
  expectKey : Bool
  tokens : List Token
deriving DecidableEq, Repr

def at? {α : Type} (xs : List α) (i : Nat) : Except Fault α :=
  match xs[i]? with
  | some x => .ok x
  | none => .error .outOfRange

def slice {α : Type} (xs : List α) (start stop : Nat) : Except Fault (List α) :=
  if start ≤ stop ∧ stop ≤ xs.length then .ok ((xs.take stop).drop start) else .error .outOfRange

def positionsFrom (line column : Nat) : List Char → List (Nat × Nat)
  | [] => []
  | c :: chars => (line, column) ::
      if c = '\n' then positionsFrom (line + 1) 0 chars else positionsFrom line (column + 1) chars

def Lexer.new (text : String) : Lexer :=
  ⟨text.toList, positionsFrom 0 0 text.toList, 0, [], true, []⟩

def Lexer.rest (lx : Lexer) : List Char := lx.chars.drop lx.i

def Lexer.peek (lx : Lexer) (offset : Nat) : Option Char := lx.chars[lx.i + offset]?

/-- Emit one piece without the whitespace around it, which draws nothing. -/
def Lexer.emitPiece (lx : Lexer) (kind : Kind) (pieceStart : Nat) (piece : List Char) (tokens : List Token) :
    Except Fault (List Token) :=
  let indent := (piece.takeWhile isWhitespace).length
  let text := (piece.drop indent).rdropWhile isWhitespace
  if text = [] then .ok tokens
  else do
    let position ← at? lx.positions (pieceStart + indent)
    .ok (tokens ++ [⟨position.1, position.2, .ofList text, kind⟩])

/-- The loop of emit over the indices that are left, with the start of the
piece that is not emitted yet. -/
def Lexer.emitFrom (lx : Lexer) (kind : Kind) : List Nat → Nat → List Token → Except Fault (List Token)
  | [], _, tokens => .ok tokens
  | i :: indices, pieceStart, tokens => do
      let ends ← if i = lx.i then .ok true else (at? lx.chars i).map (· = '\n')
      if ends then do
        let piece ← slice lx.chars pieceStart i
        let tokens ← lx.emitPiece kind pieceStart piece tokens
        lx.emitFrom kind indices (i + 1) tokens
      else lx.emitFrom kind indices pieceStart tokens

def Lexer.emit (lx : Lexer) (kind : Kind) (start : Nat) : Except Fault Lexer := do
  let tokens ← lx.emitFrom kind (List.range' start (lx.i + 1 - start)) start lx.tokens
  .ok { lx with tokens := tokens }

def Lexer.skipWhile (lx : Lexer) (condition : Char → Bool) : Lexer :=
  { lx with i := lx.i + (lx.rest.takeWhile condition).length }

def Lexer.skipToLineEnd (lx : Lexer) : Lexer := lx.skipWhile (· ≠ '\n')

def nextQuote (quote : Option Char) (c : Char) : Option Char :=
  match quote with
  | none => if c = '"' ∨ c = '\'' then some c else none
  | some q => if c = q then none else some q

def headerEnds (quote : Option Char) (stop i : Nat) : List Char → Nat × Nat
  | [] => (stop, i)
  | c :: chars =>
      if c = '\n' ∨ quote = none ∧ c = '#' then (stop, i)
      else headerEnds (nextQuote quote c) (if isWhitespace c then stop else i + 1) (i + 1) chars

def Lexer.tableHeader (lx : Lexer) : Except Fault Lexer := do
  let ends := headerEnds none lx.i lx.i lx.rest
  let after ← { lx with i := ends.1 }.emit .table lx.i
  .ok { after with i := ends.2 }

/-- How far the loop of a multi-line string goes. An escape at the end of the
text is taken for two characters. -/
def multiLineLength (quote : Char) : List Char → Nat
  | [] => 0
  | [c] => if c = '\\' ∧ quote = '"' then 2 else 1
  | c :: d :: chars =>
      if c = '\\' ∧ quote = '"' then 2 + multiLineLength quote chars
      else if c = quote ∧ d = quote ∧ chars.head? = some quote then
        -- up to two quotes may sit just inside the delimiter
        3 + ((chars.tail.take 2).takeWhile (· = quote)).length
      else 1 + multiLineLength quote (d :: chars)

def singleLineLength (quote : Char) : List Char → Nat
  | [] => 0
  | [c] => if c = '\n' then 0 else 1
  | c :: d :: chars =>
      if c = '\n' then 0
      else if c = '\\' ∧ quote = '"' ∧ d ≠ '\n' then 2 + singleLineLength quote chars
      else if c = quote then 1
      else 1 + singleLineLength quote (d :: chars)

def Lexer.string (lx : Lexer) : Except Fault Lexer := do
  let quote ← at? lx.chars lx.i
  if lx.peek 1 = some quote ∧ lx.peek 2 = some quote then
    .ok { lx with i := min (lx.i + 3 + multiLineLength quote (lx.rest.drop 3)) lx.chars.length }
  else .ok { lx with i := lx.i + 1 + singleLineLength quote (lx.rest.drop 1) }

def isWordChar (c : Char) : Bool := isAsciiAlphanumeric c || c = '_' || c = '-' || c = '+'

def valueKind (word : String) : Kind :=
  let unsigned := word.toList.dropWhile (fun c => c = '+' || c = '-')
  if word = "true" ∨ word = "false" then .boolean
  else if unsigned.head?.any Char.isDigit ∨ unsigned = "inf".toList ∨ unsigned = "nan".toList then .number
  else .plain

def Lexer.pass (lx : Lexer) (c : Char) : Except Fault Lexer :=
  if c = '\n' then
    .ok { lx with i := lx.i + 1, expectKey := lx.nesting.isEmpty || lx.expectKey }
  else if isWhitespace c then .ok { lx with i := lx.i + 1 }
  else if c = '#' then lx.skipToLineEnd.emit .comment lx.i
  else if c = '[' ∧ lx.expectKey = true ∧ lx.nesting.isEmpty = true then lx.tableHeader
  else if c = '"' ∨ c = '\'' then do
    let after ← lx.string
    after.emit (if after.expectKey then .key else .string) lx.i
  else if c = '=' then
    { lx with i := lx.i + 1, expectKey := false }.emit .punctuation lx.i
  else if c = '.' ∧ lx.expectKey = true then { lx with i := lx.i + 1 }.emit .punctuation lx.i
  else if c = '[' ∨ c = '{' then
    { lx with i := lx.i + 1, nesting := c :: lx.nesting, expectKey := c = '{' }.emit .punctuation lx.i
  else if c = ']' ∨ c = '}' then
    let opening := if c = ']' then '[' else '{'
    let nesting := if lx.nesting.head? = some opening then lx.nesting.tail else lx.nesting
    { lx with i := lx.i + 1, nesting := nesting, expectKey := false }.emit .punctuation lx.i
  else if c = ',' then
    { lx with i := lx.i + 1, expectKey := lx.nesting.head? = some '{' }.emit .punctuation lx.i
  else if isWordChar c then do
    let after := lx.skipWhile fun c => isWordChar c || !lx.expectKey && (c = '.' || c = ':')
    let word ← slice lx.chars lx.i after.i
    after.emit (if after.expectKey then .key else valueKind (.ofList word)) lx.i
  else { lx with i := lx.i + 1 }.emit .plain lx.i

/-- The loop of run, for a number of characters at most. -/
def Lexer.run : Nat → Lexer → Except Fault Lexer
  | 0, lx => if (lx.peek 0).isNone then .ok lx else .error .unfinished
  | fuel + 1, lx =>
      match lx.peek 0 with
      | none => .ok lx
      | some c => do
          let lx ← lx.pass c
          lx.run fuel

/-- The tokens of a text. Every pass of the loop takes a character at least. -/
def tokenize (text : String) : Except Fault (List Token) := do
  let lx ← (Lexer.new text).run text.toList.length
  .ok lx.tokens

def floorCharBoundary (text : List Char) : Nat → Nat
  | 0 => 0
  | stop + 1 => if isCharBoundary text (stop + 1) then stop + 1 else floorCharBoundary text stop

def sliceAt (text : List Char) (i : Nat) : Except Fault (List Char × List Char) :=
  match splitAtByte text i with
  | some parts => .ok parts
  | none => .error .outOfRange

def position (text : String) (byteOffset : Nat) : Except Fault (Nat × Nat) := do
  let stop := floorCharBoundary text.toList (min byteOffset text.utf8ByteSize)
  let before := (← sliceAt text.toList stop).1
  let lineStart := ((rfind '\n' before).map (· + 1)).getD 0
  let row := (← sliceAt before lineStart).2
  .ok (before.count '\n', row.length)

end LocalDevProxy.Highlight
