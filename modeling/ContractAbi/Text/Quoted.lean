import ContractAbi.Text.Printable

/-!
# Quoted text and quoted octets

Error messages and descriptions show a text between quotes, on one line and in printable code points
only.  The quote is a single one unless the text holds a single quote and no double one; the chosen
quote and the backslash are escaped by a backslash, and an unprintable code point is written by its
number in two, four or eight hexadecimal digits.
-/

namespace ContractAbi

/-! ## 1. Hexadecimal digits -/

namespace Hex

/-- The lower case hexadecimal digit of a number below sixteen. -/
def digit (d : Nat) : CodePoint :=
  if d % 16 < 10 then ⟨48 + d % 16, by omega⟩ else ⟨87 + d % 16, by omega⟩

/-- The last `width` hexadecimal digits of a number. -/
def digits : (width n : Nat) → Text
  | 0, _ => []
  | width + 1, n => digits width (n / 16) ++ [digit n]

/-- The value of a hexadecimal digit in either case. -/
def value? (c : CodePoint) : Option Nat :=
  if 48 ≤ c.val && c.val ≤ 57 then some (c.val - 48)
  else if 97 ≤ c.val && c.val ≤ 102 then some (c.val - 87)
  else if 65 ≤ c.val && c.val ≤ 70 then some (c.val - 55)
  else none

end Hex

/-! ## 2. Quoting -/

namespace Quoted

/-- The quote for a text that holds single quotes or double ones. -/
def markFor (single double : Bool) : CodePoint := if single && !double then '"' else '\''

/-- An escape that names a code point by its number. -/
def numbered (n : Nat) : Text :=
  if n < 0x100 then ("\\x" : Text) ++ Hex.digits 2 n
  else if n < 0x10000 then ("\\u" : Text) ++ Hex.digits 4 n
  else ("\\U" : Text) ++ Hex.digits 8 n

/-- The code points that have an escape of their own whatever the quote is. -/
def named? (n : Nat) : Option Text :=
  if n = 92 then some "\\\\"
  else if n = 9 then some "\\t"
  else if n = 10 then some "\\n"
  else if n = 13 then some "\\r"
  else none

/-- One code point inside a quoted text. -/
def escape (mark c : CodePoint) : Text :=
  if c = mark then [CodePoint.ofChar '\\', c]
  else match named? c.val with
    | some t => t
    | none => if c.isPrintable then [c] else numbered c.val

/-- A text between quotes. -/
def text (t : Text) : Text :=
  let mark := markFor (t.contains (CodePoint.ofChar '\'')) (t.contains (CodePoint.ofChar '"'))
  mark :: t.flatMap (escape mark) ++ [mark]

/-- One octet inside quoted octets: printable ASCII shows as it is. -/
def escapeOctet (mark : CodePoint) (b : UInt8) : Text :=
  let n := b.toNat
  if n = mark.val then [CodePoint.ofChar '\\', mark]
  else match named? n with
    | some t => t
    | none => if h : 32 ≤ n ∧ n < 127 then [⟨n, by omega⟩] else numbered n

/-- Octets between quotes, after the letter `b`. -/
def octets (bs : List UInt8) : Text :=
  let mark := markFor (bs.contains 39) (bs.contains 34)
  CodePoint.ofChar 'b' :: mark :: bs.flatMap (escapeOctet mark) ++ [mark]

end Quoted

end ContractAbi
