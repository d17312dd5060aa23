import ContractAbi.Value

/-!
# Ceilings

A ceiling is the greatest depth to which types may nest, or there is none.  Ceilings are integers
wherever they are checked; but an option may be changed without a check, and then any value can
stand in the place of a ceiling (`Ceiling.unchecked`).  Such a ceiling still works if it is a number
of some kind, and is of no use otherwise (`Ceiling.exceededBy?`).
-/

namespace ContractAbi

/-- Whether a double is less than an integer. -/
def Binary64.lessThan (x : Binary64) (i : Int) : Bool :=
  match x with
  | .nan => false
  | .infinity neg => neg
  | .finite neg m q =>
    let r := ratio m q
    (if neg then -(r.num : Int) else r.num) < i * r.den

/-- Whether a value is less than an integer, if it is a number. -/
def Value.lessThan? (v : Value) (i : Int) : Option Bool :=
  match v with
  | .float x => some (x.lessThan i)
  | v => v.whole?.map fun n => n < i

/-- The ceiling for nesting: a depth beyond it is refused. -/
inductive Ceiling where
  /-- There is none. -/
  | unlimited
  /-- The greatest depth that is allowed. -/
  | limit (m : Int)
  /-- What stands in the place of a ceiling without having been checked. -/
  | unchecked (v : Value)

namespace Ceiling

/-- A ceiling that may be missing. -/
def ofOption : Option Int → Ceiling
  | none => .unlimited
  | some m => .limit m

/-- The ceiling that a value stands for. -/
def ofValue : Value → Ceiling
  | .null => .unlimited
  | .int m => .limit m
  | v => .unchecked v

/-- A ceiling as a value. -/
def toValue : Ceiling → Value
  | .unlimited => .null
  | .limit m => .int m
  | .unchecked v => v

/-- A ceiling, or another in its place if there is none. -/
def orElse (c other : Ceiling) : Ceiling :=
  match c with
  | .unlimited => other
  | c => c

/-- Whether a depth lies beyond a ceiling, if the two can be compared. -/
def exceededBy? (c : Ceiling) (depth : Int) : Option Bool :=
  match c with
  | .unlimited => some false
  | .limit m => some (m < depth)
  | .unchecked v => v.lessThan? depth

@[simp] theorem exceededBy?_unlimited (d : Int) : unlimited.exceededBy? d = some false := rfl

@[simp] theorem exceededBy?_limit (m d : Int) : (limit m).exceededBy? d = some (m < d : Bool) := rfl

end Ceiling

end ContractAbi
