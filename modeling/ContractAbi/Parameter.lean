import ContractAbi.Descriptor

/-!
# Parameters

A parameter is a type with a name: one of the inputs of an event, which may be indexed, or one of
the elements of a tuple, whose name may be missing.  Here are the two kinds of parameters and their
JSON form, in which the name stands first and the flag last.
-/

namespace ContractAbi

/-! ## 1. Parameters -/

/-- An input of an event. -/
structure EventParam where
  name : Text
  kind : AbiType
  /-- Whether the value is found among the topics of a log, and not in its data. -/
  indexed : Bool
deriving DecidableEq

/-- An element of a tuple. -/
structure TupleParam where
  name : Option Text
  kind : AbiType
deriving DecidableEq

/-! ## 2. As JSON objects -/

namespace EventParam

/-- The parameter as a JSON object. -/
def toJson (p : EventParam) : Json :=
  .object (Descriptor.nameField (some p.name) ++ (Descriptor.ofType p.kind).fields ++
    [(("indexed" : Text), Json.bool p.indexed)])

/-- The parameter as a JSON object, made within some room. -/
def toJsonWithin (room : Nat) (p : EventParam) : Except Obstacle Json := do
  let d ← p.kind.describeWithin room
  pure (.object (Descriptor.nameField (some p.name) ++ d.fields ++
    [(("indexed" : Text), Json.bool p.indexed)]))

/-- The parameter as a value. -/
def toValue (p : EventParam) : Value :=
  .eventParam (.text p.name) (.draft (Draft.ofType p.kind)) (.bool p.indexed)

end EventParam

namespace TupleParam

/-- The parameter as a JSON object. -/
def toJson (p : TupleParam) : Json :=
  .object (Descriptor.nameField p.name ++ (Descriptor.ofType p.kind).fields)

/-- The parameter as a JSON object, made within some room. -/
def toJsonWithin (room : Nat) (p : TupleParam) : Except Obstacle Json :=
  p.kind.toJsonWithin room p.name

/-- The parameter as a value. -/
def toValue (p : TupleParam) : Value :=
  .tupleParam (p.name.elim .null .text) (.draft (Draft.ofType p.kind))

end TupleParam

end ContractAbi
