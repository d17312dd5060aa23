import ContractAbi.Value

/-!
# Writing JSON

What is written as JSON is written on one line, in printable ASCII only: any other code point is
escaped by its number, one beyond the basic plane by the numbers of a surrogate pair.  A comma and
a colon are followed by a space.
-/

namespace ContractAbi

/-- What is written as JSON. -/
inductive Json where
  | null
  | bool (b : Bool)
  | int (i : Int)
  | float (x : Binary64)
  | text (t : Text)
  | array (items : List Json)
  | object (fields : List (Text × Json))
deriving Inhabited

namespace Json

/-! ## 1. Strings -/

/-- A code point below `0x10000` by its number. -/
def escapeUnit (n : Nat) : Text := ("\\u" : Text) ++ Hex.digits 4 n

/-- A code point inside a string. -/
def escape (c : CodePoint) : Text :=
  if c = CodePoint.ofChar '"' then "\\\""
  else if c = CodePoint.ofChar '\\' then "\\\\"
  else if 32 ≤ c.val ∧ c.val < 127 then [c]
  else if c.val = 10 then "\\n"
  else if c.val = 13 then "\\r"
  else if c.val = 9 then "\\t"
  else if c.val = 12 then "\\f"
  else if c.val = 8 then "\\b"
  else if c.val < 0x10000 then escapeUnit c.val
  else
    escapeUnit (0xD800 + (c.val - 0x10000) / 0x400) ++
      escapeUnit (0xDC00 + (c.val - 0x10000) % 0x400)

/-- A string. -/
def writeText (t : Text) : Text := ("\"" : Text) ++ t.flatMap escape ++ ("\"" : Text)

/-! ## 2. Values -/

/-- A truth value. -/
def writeBool (b : Bool) : Text := if b then "true" else "false"

/-- A double.  What is not finite has a name of its own. -/
def writeFloat : Binary64 → Text
  | .nan => "NaN"
  | .infinity neg => if neg then "-Infinity" else "Infinity"
  | x => x.text

mutual

/-- The text of a JSON value. -/
def write : Json → Text
  | .null => "null"
  | .bool b => writeBool b
  | .int i => Decimal.renderInt i
  | .float x => writeFloat x
  | .text t => writeText t
  | .array items => ("[" : Text) ++ Text.join ", " (writeAll items) ++ ("]" : Text)
  | .object fields => ("\x7b" : Text) ++ Text.join ", " (writeFields fields) ++ ("\x7d" : Text)

/-- The texts of several values. -/
def writeAll : List Json → List Text
  | [] => []
  | j :: js => write j :: writeAll js

/-- The texts of several fields. -/
def writeFields : List (Text × Json) → List Text
  | [] => []
  | (name, j) :: fs => (writeText name ++ (": " : Text) ++ write j) :: writeFields fs

end

/-! ## 3. As values -/

mutual

/-- The value that a JSON value is to a parser. -/
def toValue : Json → Value
  | .null => .null
  | .bool b => .bool b
  | .int i => .int i
  | .float x => .float x
  | .text t => .text t
  | .array items => .list (toValues items)
  | .object fields => .mapping (toEntries fields)

/-- The values of several JSON values. -/
def toValues : List Json → List Value
  | [] => []
  | j :: js => toValue j :: toValues js

/-- The entries of several fields. -/
def toEntries : List (Text × Json) → List (Value × Value)
  | [] => []
  | (name, j) :: fs => (.text name, toValue j) :: toEntries fs

end

end Json

end ContractAbi
