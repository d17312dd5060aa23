import ContractAbi.Arguments
import ContractAbi.Value

/-!
# Putting types together

A type is put together from values that are checked on the way: widths are positive whole numbers,
lengths are whole numbers that are not negative, and elements are types.  Truth values are no whole
numbers here.

`Scalar.sized?` is the check that a reader of type names passes through too; `sized?_eq_ok_iff` says
that it refuses nothing but the width zero.
-/

namespace ContractAbi

/-! ## 1. Refusals -/

/-- Why a type cannot be put together. -/
inductive Rejection where
  /-- A width that is not a positive whole number. -/
  | width (c : TypeClass) (got : Value)
  /-- A length that is not a whole number, or negative. -/
  | length (got : Value)
  /-- An element that is no type. -/
  | element (c : TypeClass) (got : Value)
  /-- The elements of a tuple that are no list. -/
  | elements (got : Value)

namespace Rejection

/-- How a width is called in the refusal of a class. -/
def widthPhrase : TypeClass → Text
  | .int => "Invalid M provided for IntM: "
  | .uint => "Invalid M provided for UIntM: "
  | _ => "Invalid M for BytesM: "

/-- How a class is called in the refusal of an element. -/
def elementPhrase : TypeClass → Text
  | .fixedArray => "StaticArray element must be an ABIType, got "
  | .array => "DynamicArray element must be an ABIType, got "
  | _ => "Tuple element must be an ABIType, got "

/-- The message of a refusal. -/
def message : Rejection → Text
  | .width c got => widthPhrase c ++ got.quote
  | .length got => ("Invalid M for StaticArray: " : Text) ++ got.quote
  | .element c got => elementPhrase c ++ got.quote
  | .elements got => ("Tuple elements must be a sequence, got " : Text) ++ got.quote

end Rejection

/-! ## 2. Scalars of a width -/

/-- The scalars that have a width. -/
inductive Sized where
  | uint | int | fixedBytes
deriving DecidableEq

namespace Sized

/-- The class of scalars. -/
def typeClass : Sized → TypeClass
  | .uint => .uint
  | .int => .int
  | .fixedBytes => .fixedBytes

/-- The scalar of a given width. -/
def scalar : Sized → Nat → Scalar
  | .uint, n => .uint n
  | .int, n => .int n
  | .fixedBytes, n => .fixedBytes n

/-- What stands in front of the width in a name. -/
def keyword : Sized → Text
  | .uint => "uint"
  | .int => "int"
  | .fixedBytes => "bytes"

/-- The scalar of a given width, if the width is positive. -/
def scalar? (k : Sized) (n : Nat) : Except Rejection Scalar :=
  if 0 < n then .ok (k.scalar n) else .error (.width k.typeClass (.int n))

/-- Nothing but the width zero is refused. -/
theorem scalar?_eq_ok_iff {k : Sized} {n : Nat} {s : Scalar} :
    k.scalar? n = .ok s ↔ 0 < n ∧ s = k.scalar n := by
  unfold scalar?
  split
  · simp [*, eq_comm]
  · simp [*]

end Sized

/-! ## 3. Types from values -/

/-- Why a type cannot be put together. -/
inductive BuildFault where
  | arguments (f : ArgumentFault)
  | rejected (r : Rejection)

namespace Draft

/-- A scalar of the width that a value states. -/
def sized (k : Sized) : Value → Except Rejection Draft
  | .int (.ofNat n) => (k.scalar? n).map fun s => .leaf (some s)
  | v => .error (.width k.typeClass v)

/-- A value as the element of a class of types. -/
def asElement (c : TypeClass) : Value → Except Rejection Draft
  | .draft d => .ok d
  | v => .error (.element c v)

/-- A value as the length of an array. -/
def asLength : Value → Except Rejection Nat
  | .int (.ofNat n) => .ok n
  | v => .error (.length v)

/-- A value as the elements of a tuple. -/
def asElements (v : Value) : Except Rejection (List Draft) :=
  match v with
  | .list vs | .tuple vs => vs.mapM (asElement .tuple)
  | .record ps => (ps.map fun p => Value.tuple [p.1, p.2]).mapM (asElement .tuple)
  | _ => .error (.elements v)

/-- The argument list of a class. -/
def signature (c : TypeClass) : Signature :=
  match c with
  | .int | .uint => ⟨c.label, ["m_bits"], [], []⟩
  | .fixedBytes => ⟨c.label, ["m_bytes"], [], []⟩
  | .array => ⟨c.label, ["subtyp"], [], []⟩
  | .fixedArray => ⟨c.label, ["subtyp", "m_elems"], [], []⟩
  | .tuple => ⟨c.label, [], ["subtyps"], []⟩
  | _ => ⟨c.label, [], [], []⟩

/-- A type of a class from its arguments, of which there are the right number.  The element of an
array is checked before its length. -/
def assemble (c : TypeClass) (args : List Value) : Except Rejection Draft :=
  match c, args with
  | .address, _ => .ok (.leaf (some .address))
  | .bool, _ => .ok (.leaf (some .bool))
  | .string, _ => .ok (.leaf (some .string))
  | .bytes, _ => .ok (.leaf (some .bytes))
  | .int, v :: _ => sized .int v
  | .uint, v :: _ => sized .uint v
  | .fixedBytes, v :: _ => sized .fixedBytes v
  | .array, v :: _ => (asElement .array v).map .array
  | .fixedArray, v :: n :: _ => do
    let d ← asElement .fixedArray v
    let n ← asLength n
    pure (.fixedArray d n)
  | .tuple, [] => .ok (.tuple [])
  | .tuple, v :: _ => (asElements v).map .tuple
  | _, _ => .ok (.leaf none)

/-- A type of a class from an argument list. -/
def build (c : TypeClass) (args : List Value) : Except BuildFault Draft :=
  match (signature c).fits args with
  | .error f => .error (.arguments f)
  | .ok () => (assemble c args).mapError .rejected

end Draft

namespace Value

/-- The argument list of an event parameter. -/
def eventParamSignature : Signature := ⟨"EventParam", ["name", "kind"], ["indexed"], []⟩

/-- The argument list of a tuple parameter. -/
def tupleParamSignature : Signature := ⟨"TupleParam", ["name", "kind"], [], []⟩

/-- An event parameter from an argument list; it is not indexed unless it says so. -/
def buildEventParam (args : List Value) : Except ArgumentFault Value :=
  (eventParamSignature.bind args []).map fun bound =>
    let get (name : Text) (other : Value) : Value := (bound.lookup name).getD other
    .eventParam (get "name" .null) (get "kind" .null) (get "indexed" (.bool false))

/-- A tuple parameter from an argument list. -/
def buildTupleParam (args : List Value) : Except ArgumentFault Value :=
  (tupleParamSignature.bind args []).map fun bound =>
    let get (name : Text) : Value := (bound.lookup name).getD .null
    .tupleParam (get "name") (get "kind")

end Value

end ContractAbi
