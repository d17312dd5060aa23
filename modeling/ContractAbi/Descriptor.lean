import ContractAbi.Json.Write

/-!
# Types as JSON objects

In the JSON form of an interface a type is an object.  Its field `type` is the canonical name up to
the first tuple, which is written as the word `tuple`, and the elements of that tuple are the
objects of the field `components`.  So `components` is there exactly where the innermost element is
a tuple.

Like a name, the object is made within the room that there is for calls (`AbiType.toJsonWithin`),
and `AbiType.toJson` is the one that is made if nothing stands in the way.
-/

namespace ContractAbi

/-- A type in its JSON form. -/
inductive Descriptor where
  | mk (typeName : Text) (components : Option (List Descriptor))

namespace Descriptor

/-- The text of the field `type`. -/
def typeName : Descriptor → Text
  | .mk name _ => name

/-- The objects of the field `components`. -/
def components : Descriptor → Option (List Descriptor)
  | .mk _ cs => cs

/-- The descriptor of arrays of what a descriptor describes. -/
def arrayOf (d : Descriptor) (dim : TypeTree.Dimension) : Descriptor :=
  .mk (d.typeName ++ AbiType.suffix dim) d.components

mutual

/-- The descriptor of a type. -/
def ofType : AbiType → Descriptor
  | .leaf s => .mk s.name none
  | .array t => (ofType t).arrayOf none
  | .fixedArray t n => (ofType t).arrayOf (some n)
  | .tuple ts => .mk "tuple" (some (ofTypes ts))

/-- The descriptors of several types. -/
def ofTypes : List AbiType → List Descriptor
  | [] => []
  | t :: ts => ofType t :: ofTypes ts

end

@[simp] theorem ofTypes_eq (ts : List AbiType) : ofTypes ts = ts.map ofType := by
  induction ts with
  | nil => rfl
  | cons t ts ih => simp [ofTypes, ih]

mutual

/-- The fields of the object. -/
def fields : Descriptor → List (Text × Json)
  | .mk name none => [("type", .text name)]
  | .mk name (some cs) => [("type", .text name), ("components", .array (objects cs))]

/-- The objects of several descriptors. -/
def objects : List Descriptor → List Json
  | [] => []
  | d :: ds => .object (fields d) :: objects ds

end

@[simp] theorem objects_eq (ds : List Descriptor) :
    objects ds = ds.map fun d => Json.object d.fields := by
  induction ds with
  | nil => rfl
  | cons d ds ih => simp [objects, ih]

/-- A name in front of the fields, if there is one. -/
def nameField : Option Text → List (Text × Json)
  | none => []
  | some name => [("name", .text name)]

end Descriptor

/-- A type as a JSON object, under a name if there is one. -/
def AbiType.toJson (t : AbiType) (name : Option Text) : Json :=
  .object (Descriptor.nameField name ++ (Descriptor.ofType t).fields)

/-- How descriptors are made.  A scalar is asked for its selector name. -/
def Descriptor.rendering : Rendering Scalar Descriptor where
  leaf s := .mk s.name none
  numbers := Scalar.numbers
  arrayOf := Descriptor.arrayOf
  tuple ds := .mk "tuple" (some ds)
  leafCalls _ := 2
  arrayCalls := 1
  emptyCalls := 2
  tupleCalls := 2

/-- The descriptor of a type, made within some room. -/
def AbiType.describeWithin (room : Nat) (t : AbiType) : Except Obstacle Descriptor :=
  Descriptor.rendering.run room t

/-- The calls that lie in one another where the descriptor is made. -/
def AbiType.describeCalls (t : AbiType) : Nat := Descriptor.rendering.calls t

/-- A type as a JSON object, made within some room. -/
def AbiType.toJsonWithin (room : Nat) (t : AbiType) (name : Option Text) :
    Except Obstacle Json := do
  let d ← t.describeWithin room
  pure (.object (Descriptor.nameField name ++ d.fields))

end ContractAbi
