import ContractAbi.Text.Digit
import ContractAbi.TypeName.Brackets

/-!
# Reading type names

A type name is a keyword (`address`), a keyword with a width (`uint256`), a name with an array
suffix (`bool[]`, `bool[3]`), or the names of elements between brackets (`[address,bool]`, or with
braces). The bare word `tuple` is the empty tuple.

Array suffixes bind before anything else, so they are taken off first, from the last one on
(`peel`); only then is what is left read as a tuple or a scalar.  Tuples nest, and only so many of
them in one another are read (`bracketLimit`); a *ceiling* may forbid deeper nesting earlier.
-/

namespace ContractAbi

/-- Refuses a depth beyond the ceiling. -/
def Ceiling.check (ceiling : Ceiling) (depth : Int) : Except Failure Unit :=
  match ceiling.exceededBy? depth with
  | some true => .error (.refused (.tooDeep ceiling))
  | some false => .ok ()
  | none => .error (.incomparable ceiling.toValue.kindName)

namespace TypeName

/-! ## 1. Numbers -/

/-- A width or length: one ASCII digit at least, and nothing else. -/
def number (ds name : Text) : Except Failure Nat :=
  if ds ≠ [] ∧ ds.all Decimal.isDigit then (Decimal.read ds).mapError .longNumber
  else .error (.refused (.number ds name))

/-! ## 2. Scalars -/

/-- The names that are one word. -/
def keywords : List (Text × AbiType) := [
  ("address", .leaf .address), ("bool", .leaf .bool), ("string", .leaf .string),
  ("bytes", .leaf .bytes), ("int", .leaf (.int 256)), ("uint", .leaf (.uint 256)),
  ("tuple", .tuple [])]

/-- The keyword that a name begins with and that takes a width, and what follows it. -/
def sized? (name : Text) : Option (Sized × Text) :=
  [Sized.uint, Sized.int, Sized.fixedBytes].findSome? fun k =>
    (Text.dropPrefix? k.keyword name).map (k, ·)

/-- Whether what follows a keyword is meant as a number, malformed or not.  A name such as `integer`
is not. -/
def looksNumeric (c : CodePoint) : Bool :=
  c.isDigit || c = CodePoint.ofChar '+' || c = CodePoint.ofChar '-'

/-- A keyword with a width. -/
def readSized (k : Sized) (suffix name : Text) : Except Failure AbiType :=
  match suffix with
  | [] => .error .offEnd
  | c :: _ =>
    if looksNumeric c then do
      let width ← number suffix name
      if width = 0 then .error (.refused (.name name (.zeroWidth k)))
      else ((k.scalar? width).map .leaf).mapError .rejected
    else .error (.refused (.name name .unknown))

/-- A name without brackets at its end. -/
def readScalar (name : Text) : Except Failure AbiType :=
  match keywords.lookup name with
  | some t => .ok t
  | none =>
    match sized? name with
    | some (k, suffix) => readSized k suffix name
    | none => .error (.refused (.name name .unknown))

/-! ## 3. Array suffixes -/

/-- What is left of a name when its array suffixes are gone. -/
inductive Core where
  /-- A name that does not end with a bracket. -/
  | scalar (name : Text)
  /-- A name that is one group, and the body of the group. -/
  | tuple (name body : Text)
deriving DecidableEq

/-- A name taken apart: its array suffixes, the last one first, what they are suffixes of, and the
depth at which that stands. -/
structure Peeled where
  dims : List TypeTree.Dimension
  core : Core
  depth : Int
deriving DecidableEq

/-- One suffix more. -/
def Peeled.push (d : TypeTree.Dimension) (p : Peeled) : Peeled := { p with dims := d :: p.dims }

/-- The length between the brackets of an array suffix. -/
def dimension (body name : Text) : Except Failure TypeTree.Dimension :=
  if body = [] then .ok none else (number body name).map some

/-- Takes the array suffixes off a name, which is given last code point first.  Braces are no array
suffix, and each suffix is a level of nesting. -/
def peel (ceiling : Ceiling) (depth : Int) : (reversed : Text) → Except Failure Peeled
  | [] => .ok ⟨[], .scalar [], depth⟩
  | c :: before =>
    match openerOf? c with
    | none => .ok ⟨[], .scalar (c :: before).reverse, depth⟩
    | some want =>
      match _h : scanBack want 0 [] before with
      | .error f => .error (.refused (.name (c :: before).reverse f))
      | .ok (body, []) => .ok ⟨[], .tuple (c :: before).reverse body, depth⟩
      | .ok (body, d :: rest) =>
        if c = CodePoint.ofChar ']' then do
          let dim ← dimension body (c :: before).reverse
          ceiling.check (depth + 1)
          (peel ceiling (depth + 1) (d :: rest)).map (Peeled.push dim)
        else .error (.refused (.name (c :: before).reverse .unknown))
termination_by reversed => reversed.length
decreasing_by
  exact Nat.lt_succ_of_lt (length_of_scanBack _h)

/-! ## 4. Names -/

/-- The number of tuples in one another that are read where nothing else is said.  It is that of an
interpreter with room for a thousand calls, for which the reading of a tuple takes a call and the
loop over its elements another; one that needs no call for the loop reads twice as many. -/
def bracketLimit : Nat := 490

/-- Reads a name that stands at a depth.  `budget` is the number of names in one another that may
still be read, this one included. -/
def readWithin (ceiling : Ceiling) : (budget : Nat) → (name : Text) → (depth : Int) →
    Except Failure AbiType
  | 0, _, _ => .error (.refused (.tooDeep ceiling))
  | budget + 1, name, depth => do
    ceiling.check depth
    let p ← peel ceiling depth name.reverse
    match p.core with
    | .scalar core => (readScalar core).map (TypeTree.wrap p.dims)
    | .tuple core body =>
      match pieces body with
      | .error f => .error (.refused (.name core f))
      | .ok ps =>
        (ps.mapM fun piece => readWithin ceiling budget piece (p.depth + 1)).map fun ts =>
          TypeTree.wrap p.dims (.tuple ts)

/-- Reads a name that stands at a depth.  `limit` is the number of tuples in one another that are
read. -/
def readAt (ceiling : Ceiling) (name : Text) (depth : Int) (limit : Nat := bracketLimit) :
    Except Failure AbiType :=
  readWithin ceiling (limit + 1) name depth

/-- Reads a type name. -/
def read (ceiling : Ceiling) (name : Text) (limit : Nat := bracketLimit) : Except Failure AbiType :=
  readAt ceiling name 0 limit

/-- Reads a value that should be a type name. -/
def readValue (ceiling : Ceiling) : Value → Except Failure AbiType
  | .text name => read ceiling name
  | v => .error (.refuse (.nameNotText v))

end TypeName

end ContractAbi
