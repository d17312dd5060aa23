import ContractAbi.Text.Decimal
import ContractAbi.Text.Digit
import ContractAbi.Text.Quoted

/-!
# Integers from the command line and the environment

Outside a type name an integer is written with more freedom than inside one: blanks may surround it,
a sign may stand in front, digits may come from any script, and a single underscore may stand
between two digits.  `Integer.plain` brings a text into ASCII, `Integer.isNumeral` says which runs
of digits and underscores are numerals.

The bound on the number of digits holds here too, and is checked before what follows the digits.
-/

namespace ContractAbi

namespace Integer

/-! ## 1. Numerals -/

/-- A digit of any script as an ASCII digit, a blank as a space; all else is left. -/
def plain (t : Text) : Text :=
  t.map fun c =>
    match c.decimalValue? with
    | some d => Decimal.digit d
    | none => if c.isWideBlank then CodePoint.ofChar ' ' else c

/-- The underscore, which separates groups of digits. -/
def separator : CodePoint := CodePoint.ofChar '_'

/-- Whether a text is a numeral: digits, of which each two neighbours may be separated once. -/
def isNumeral : Text → Bool
  | [] => false
  | [c] => Decimal.isDigit c
  | c :: d :: rest =>
    Decimal.isDigit c && (if d = separator then isNumeral rest else isNumeral (d :: rest))

/-! ## 2. Integers -/

/-- Why a text is no integer. -/
inductive Fault where
  /-- There are too many digits. -/
  | tooLong (digits : Nat)
  /-- It is not written like one. -/
  | malformed
deriving DecidableEq

/-- The number at the beginning of a text, behind which only blanks may follow. -/
def readUnsigned (t : Text) : Except Fault Nat :=
  let inNumeral (c : CodePoint) : Bool := Decimal.isDigit c || c = separator
  let numeral := t.takeWhile inNumeral
  if isNumeral numeral then
    match Decimal.read (numeral.filter Decimal.isDigit) with
    | .error n => .error (.tooLong n)
    | .ok n =>
      if (t.dropWhile inNumeral).all CodePoint.isAsciiBlank then .ok n else .error .malformed
  else .error .malformed

/-- The integer that a text writes. -/
def read (t : Text) : Except Fault Int :=
  match (plain t).dropWhile CodePoint.isAsciiBlank with
  | [] => .error .malformed
  | c :: rest =>
    if c = CodePoint.ofChar '-' then (readUnsigned rest).map fun n => -(n : Int)
    else if c = CodePoint.ofChar '+' then (readUnsigned rest).map Int.ofNat
    else (readUnsigned (c :: rest)).map Int.ofNat

/-! ## 3. Wording -/

/-- What is shown where a number has too many digits. -/
def tooLongMessage (digits : Nat) : Text :=
  ("Exceeds the limit (" : Text) ++ Decimal.render Decimal.digitLimit ++
    (" digits) for integer string conversion: value has " : Text) ++ Decimal.render digits ++
    (" digits; use sys.set_int_max_str_digits() to increase the limit" : Text)

/-- The length to which a text is cut where it is shown as no integer. -/
def shownLength : Nat := 200

/-- What is shown of a text that is no integer. -/
def Fault.message (t : Text) : Fault → Text
  | .tooLong digits => tooLongMessage digits
  | .malformed =>
    ("invalid literal for int() with base 10: " : Text) ++ (Quoted.text t).take shownLength

end Integer

end ContractAbi
