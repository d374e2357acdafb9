import Mathlib.Data.List.Basic

namespace LocalDevProxy.Text

def isAsciiAlphanumeric (c : Char) : Bool := c.isAlphanum

def toAsciiLowercase (s : String) : String := .ofList (s.toList.map Char.toLower)

def eqIgnoreAsciiCase (s t : String) : Bool := toAsciiLowercase s == toAsciiLowercase t

/-- The characters with Unicode's White_Space property, which trim removes. -/
def isWhitespace (c : Char) : Bool :=
  let n := c.toNat
  (0x09 ≤ n && n ≤ 0x0D) || n == 0x20 || n == 0x85 || n == 0xA0 || n == 0x1680 ||
    (0x2000 ≤ n && n ≤ 0x200A) || n == 0x2028 || n == 0x2029 || n == 0x202F || n == 0x205F ||
    n == 0x3000

def trim (s : String) : String :=
  .ofList (((s.toList.dropWhile isWhitespace).reverse.dropWhile isWhitespace).reverse)

def hexDigits (n : Nat) : List Char := Nat.toDigits 16 n

def debugChar (c : Char) : List Char :=
  if c = '"' then ['\\', '"']
  else if c = '\\' then ['\\', '\\']
  else if c = '\n' then ['\\', 'n']
  else if c = '\r' then ['\\', 'r']
  else if c = '\t' then ['\\', 't']
  else if c.toNat = 0 then ['\\', '0']
  else if c.toNat < 0x20 ∨ c.toNat = 0x7F then
    ['\\', 'u', '\x7b'] ++ hexDigits c.toNat ++ ['\x7d']
  else [c]

/-- The quoted form of a string in a message. Unprintable characters outside
ASCII, which are escaped as well, are left as they are. -/
def debugStr (s : String) : String := .ofList (['"'] ++ s.toList.flatMap debugChar ++ ['"'])

def digitsValue (cs : List Char) : Option Nat :=
  if cs ≠ [] ∧ cs.all Char.isDigit then some (Nat.ofDigitChars 10 cs 0) else none

def parseI64 (s : String) : Option Int :=
  let value : Option Int := match s.toList with
    | '-' :: cs => (digitsValue cs).map (fun n => -(n : Int))
    | '+' :: cs => (digitsValue cs).map (fun n => (n : Int))
    | cs => (digitsValue cs).map (fun n => (n : Int))
  value.filter (fun n => -9223372036854775808 ≤ n ∧ n ≤ 9223372036854775807)

def decimal (n : Nat) : String := toString n

theorem toList_decimal (n : Nat) : (decimal n).toList = Nat.toDigits 10 n := by
  rw [decimal, Nat.toString_eq_repr, Nat.toList_repr]

theorem decimal_inj {m n : Nat} (h : decimal m = decimal n) : m = n := by
  have hd : Nat.toDigits 10 m = Nat.toDigits 10 n := by
    rw [← toList_decimal, ← toList_decimal, h]
  rw [← Nat.ofDigitChars_ten_toDigits (n := m), ← Nat.ofDigitChars_ten_toDigits (n := n), hd]

theorem isDigit_of_mem_decimal {n : Nat} {c : Char} (h : c ∈ (decimal n).toList) : c.isDigit := by
  rw [toList_decimal] at h
  exact Nat.isDigit_of_mem_toDigits (by decide) (by decide) h

theorem not_mem_decimal {c : Char} (hc : c.isDigit = false) (n : Nat) :
    c ∉ (decimal n).toList := by
  intro h
  rw [isDigit_of_mem_decimal h] at hc
  cases hc

theorem toList_toAsciiLowercase (s : String) :
    (toAsciiLowercase s).toList = s.toList.map Char.toLower := by
  rw [toAsciiLowercase, String.toList_ofList]

/-- Only a capital letter changes in lower case, and it becomes a small one. -/
theorem eq_of_toLower {c d : Char} (hd : d.toNat < 97 ∨ 122 < d.toNat) (h : c.toLower = d) :
    c = d := by
  unfold Char.toLower at h
  split at h
  · rename_i hc
    have hlow : 65 ≤ c.toNat := hc.1
    have hhigh : c.toNat ≤ 90 := hc.2
    have hoffset : ('a'.val - 'A'.val).toNat = 32 := by decide
    have hsum : (c.val + ('a'.val - 'A'.val)).toNat = c.toNat + 32 := by
      rw [UInt32.toNat_add, hoffset]
      change (c.toNat + 32) % 2 ^ 32 = _
      omega
    have hv : (c.val + ('a'.val - 'A'.val)).toNat = d.toNat := congrArg Char.toNat h
    omega
  · exact h

end LocalDevProxy.Text
