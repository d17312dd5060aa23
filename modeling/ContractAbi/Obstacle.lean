import ContractAbi.Text.Decimal

/-!
# What stands in the way of a text

Types and values are written by functions that call themselves for the parts, and two things stand
in the way of that.  There is room for so many calls in one another only, so that what nests too
deep is not written at all; nor is a whole number of more digits than are read
(`Decimal.digitLimit`).

The *room* of a function is the number of calls that may lie in one another from its own call on,
and `enter` takes some of it.  How much a function takes is counted as an interpreter does for which
the built-in functions take room like any other, and the loop over the elements of a tuple takes a
call of its own.
-/

namespace ContractAbi

/-- Why something cannot be written. -/
inductive Obstacle where
  /-- It nests so deep that there is no room for the calls. -/
  | nesting
  /-- A whole number in it has too many digits. -/
  | digits
deriving DecidableEq

/-- What is said of an obstacle. -/
def Obstacle.message : Obstacle → Text
  | .nesting => "maximum recursion depth exceeded"
  | .digits =>
    ("Exceeds the limit (" : Text) ++ Decimal.render Decimal.digitLimit ++
      (" digits) for integer string conversion; " : Text) ++
      ("use sys.set_int_max_str_digits() to increase the limit" : Text)

/-- The obstacle that a step meets, if it meets one. -/
def Obstacle.met? {α : Type} : Except Obstacle α → Option Obstacle
  | .ok _ => none
  | .error o => some o

/-- The room that is left to a function of this library when a caller calls it. -/
def callRoom : Nat := 980

/-- Makes some calls in one another, if there is room for them, and goes on with the room that is
left. -/
def enter {α : Type} (calls room : Nat) (body : Nat → Except Obstacle α) : Except Obstacle α :=
  if calls ≤ room then body (room - calls) else .error .nesting

namespace Decimal

/-- Whether a number has no more digits than are written. -/
def Fits (n : Nat) : Prop := (render n).length ≤ digitLimit

instance (n : Nat) : Decidable (Fits n) := inferInstanceAs (Decidable (_ ≤ _))

/-- Looks whether a number can be written. -/
def check (n : Nat) : Except Obstacle Unit := if Fits n then .ok () else .error .digits

end Decimal

end ContractAbi
