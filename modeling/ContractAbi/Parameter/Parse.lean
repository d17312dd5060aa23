import ContractAbi.Parameter
import ContractAbi.Parameter.Fields
import ContractAbi.Parse
import ContractAbi.TypeName

/-!
# Parsing parameters

The type of a parameter is written in two fields.  `type` holds a name, in which a tuple may be the
bare word `tuple`; its elements then stand in `components`, each an object with a type of its own.
Components describe the innermost element of the named type, below all of its array dimensions,
and replace whatever elements the name itself spells out (`resolve`).

* A tuple needs components, an array over tuples may have them.
* Beside any other type components have no effect.  That is refused in strict mode, and worth a
  notice otherwise.

Nesting is counted through both fields: the name continues at the depth of the object in which it
stands, and the components lie below the dimensions of the name.
-/

namespace ContractAbi

/-! ## 1. Rules -/

/-- One answer may be given for all notices. -/
instance : Coe Bool (Notice → Bool) := ⟨fun b _ => b⟩

/-- What the caller has settled. -/
structure Rules where
  /-- The greatest depth that is allowed. -/
  ceiling : Ceiling
  /-- Whether components without effect are refused. -/
  strict : Bool
  /-- The notices that end the parse. -/
  raiseNotices : Notice → Bool

namespace Rules

/-- Gives a notice. -/
def give (rules : Rules) (n : Notice) : Parse Unit :=
  if rules.raiseNotices n then .fail (.raised n) else .notice n

/-- Components stand beside a type that is no tuple. -/
def idleComponents (rules : Rules) (typeName : Text) : Parse Unit :=
  if rules.strict then .fail (.refused (.unexpectedComponents typeName))
  else rules.give (.ignoredComponents typeName)

end Rules

/-! ## 2. The type of a parameter -/

/-- The number of lists of components in one another that are parsed. -/
def componentsLimit : Nat := 490

/-- The objects in a value that should be a list of components. -/
def componentItems (v : Value) : Except Failure (List Value) :=
  match v.items? with
  | some items => .ok items
  | none => .error (.refuse (.componentsNotList v))

/-- The fields of a component, of which the type is required. -/
def componentFields (v : Value) : Except Failure (Value × Fields) :=
  match v.pairs? with
  | none => .error (.refuse (.componentNotObject v))
  | some pairs =>
    match Fields.collect Field.ofTuple pairs with
    | .error e => .error (.refused e)
    | .ok fs =>
      match fs.get? .type with
      | none => .error (.refused .typelessComponent)
      | some type => .ok (type, fs)

/-- The type that a name and components describe at a depth.  `elements` parses the components. -/
def resolve (rules : Rules) (elements : Value → Int → Parse (List AbiType)) (type : Value)
    (components : Option Value) (depth : Int) : Parse AbiType := do
  let typeName ← .quiet (Fields.text .type type)
  let named ← .quiet (TypeName.readAt rules.ceiling typeName depth)
  match named.element.isTuple, components with
  | true, some cs => do
    let ts ← elements cs (depth + named.dims.length + 1)
    pure (TypeTree.wrap named.dims (.tuple ts))
  | true, none =>
    if named.dims = [] then .fail (.refused (.missingField .components)) else pure named
  | false, some _ => do
    rules.idleComponents typeName
    pure named
  | false, none => pure named

/-- The types that components describe at a depth.  `budget` is the number of lists in one another
that may still be parsed, this one included. -/
def elementsWithin (rules : Rules) : (budget : Nat) → (components : Value) → (depth : Int) →
    Parse (List AbiType)
  | 0, _, _ => .fail (.refused (.tooDeep rules.ceiling))
  | budget + 1, components, depth => do
    .quiet (rules.ceiling.check depth)
    let items ← .quiet (componentItems components)
    items.mapM fun item => do
      let (type, fs) ← .quiet (componentFields item)
      resolve rules (elementsWithin rules budget) type (fs.get? .components) depth

/-- The types that components describe at a depth. -/
def elements (rules : Rules) (components : Value) (depth : Int) : Parse (List AbiType) :=
  elementsWithin rules componentsLimit components depth

/-- The type of a parameter that stands in no other, from its fields.  `budget` is the number of
lists of components in one another that may be parsed. -/
def kindOf (rules : Rules) (fs : Fields) (budget : Nat := componentsLimit) : Parse AbiType :=
  match fs.get? .type with
  | none => .fail (.refused (.missingField .type))
  | some type => resolve rules (elementsWithin rules budget) type (fs.get? .components) 0

/-! ## 3. Parameters -/

/-- What cannot be shown because it nests too deep is refused for nesting too deep. -/
def Rules.guard {α : Type} (rules : Rules) (p : Parse α) : Parse α :=
  p.mapFailure fun
    | .unshown .nesting => .refused (.tooDeep rules.ceiling)
    | e => e

/-- The flag of an event parameter. -/
def flag : Option Value → Except Failure Bool
  | none => .ok false
  | some (.bool b) => .ok b
  | some v => .error (.refuse (.flagNotBool v))

/-- The name of an event parameter, which is required. -/
def requiredName : Option Value → Except Failure Text
  | none => .error (.refused (.missingField .name))
  | some v => Fields.text .name v

/-- The name of a tuple parameter, which may be missing. -/
def optionalName : Option Value → Except Failure (Option Text)
  | none | some .null => .ok none
  | some v => (Fields.text .name v).map some

/-- Parses an event parameter: its name, then its type, then its flag. -/
def EventParam.parse (rules : Rules) (v : Value) : Parse EventParam :=
  rules.guard do
    let fs ← .quiet (Fields.ofObject Field.ofEvent v)
    let name ← .quiet (requiredName (fs.get? .name))
    let kind ← kindOf rules fs
    let indexed ← .quiet (flag (fs.get? .indexed))
    pure ⟨name, kind, indexed⟩

/-- Parses a tuple parameter: its name, then its type. -/
def TupleParam.parse (rules : Rules) (v : Value) (budget : Nat := componentsLimit) :
    Parse TupleParam :=
  rules.guard do
    let fs ← .quiet (Fields.ofObject Field.ofTuple v)
    let name ← .quiet (optionalName (fs.get? .name))
    let kind ← kindOf rules fs budget
    pure ⟨name, kind⟩

/-- Parses a list of tuple parameters from left to right.  The list counts among the lists in one
another, as a list of components does. -/
def TupleParam.parseList (rules : Rules) (v : Value) : Parse (List TupleParam) :=
  match v.items? with
  | some items => items.mapM fun item => TupleParam.parse rules item (componentsLimit - 1)
  | none => .fail (.refuse (.notList v))

/-- Parses a list of components to the types alone. -/
def parseElements (rules : Rules) (v : Value) : Parse (List AbiType) :=
  rules.guard (elements rules v 0)

end ContractAbi
