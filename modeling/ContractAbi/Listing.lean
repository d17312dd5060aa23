import ContractAbi.Parameter.Parse

/-!
# Listings

A listing has a line for each type name and for each parameter of a JSON text, in the order in which
they were given and in one format.  It is all or nothing: where one of them cannot be parsed, or its
line cannot be written, there is no line at all, and the failure is the first one in that order.
-/

namespace ContractAbi

/-! ## 1. Formats -/

/-- How a type or parameter is written on its line. -/
inductive Format where
  /-- How it was put together. -/
  | full
  /-- By its selector name. -/
  | selector
  /-- By its canonical name. -/
  | canonical
  /-- As a JSON object. -/
  | json
  /-- A parameter by its name, and its type by how that was put together. -/
  | brief
deriving DecidableEq

namespace Format

/-- The name of a format; any other name stands for the brief one. -/
def label : Format → Text
  | .full => "repr"
  | .selector => "selector"
  | .canonical => "canonical"
  | .json => "json"
  | .brief => "brief"

/-- The formats that can be chosen by name. -/
def choices : List Format := [.full, .selector, .canonical, .json]

/-- The format that a name chooses. -/
def ofLabel (t : Text) : Format := (choices.find? (·.label = t)).getD .brief

/-- The line of a type, if nothing stands in the way of writing it. -/
def ofType (f : Format) (t : AbiType) : Text :=
  match f with
  | .selector => AbiType.selector t
  | .canonical => AbiType.canonical t
  | .json => (AbiType.toJson t none).write
  | .full | .brief => (Draft.ofType t).text

/-- The line of a parameter by its name. -/
def named (kind : Text) (indexed : Bool) (name : Text) : Text :=
  kind ++ (if indexed then (" indexed" : Text) else []) ++
    (if name = [] then [] else (" " : Text) ++ name)

/-- The line of an event parameter, if nothing stands in the way. -/
def ofEventParam (f : Format) (p : EventParam) : Text :=
  match f with
  | .json => p.toJson.write
  | .full => p.toValue.quote
  | f => named (f.ofType p.kind) p.indexed p.name

/-- The line of a tuple parameter, if nothing stands in the way. -/
def ofTupleParam (f : Format) (p : TupleParam) : Text :=
  match f with
  | .json => p.toJson.write
  | .full => p.toValue.quote
  | f => named (f.ofType p.kind) false (p.name.getD [])

/-! ### Within some room -/

/-- The line of a type, written within some room. -/
def typeLine (f : Format) (room : Nat) (t : AbiType) : Except Obstacle Text :=
  match f with
  | .selector => t.selectorWithin room
  | .canonical => t.canonicalWithin room
  | .json => (t.toJsonWithin room none).map Json.write
  | .full | .brief => (Draft.ofType t).textWithin room

/-- The line of an event parameter, written within some room. -/
def eventParamLine (f : Format) (room : Nat) (p : EventParam) : Except Obstacle Text :=
  match f with
  | .json => (p.toJsonWithin room).map Json.write
  | .full => p.toValue.quoteWithin room
  | f => (f.typeLine room p.kind).map fun kind => named kind p.indexed p.name

/-- The line of a tuple parameter, written within some room. -/
def tupleParamLine (f : Format) (room : Nat) (p : TupleParam) : Except Obstacle Text :=
  match f with
  | .json => (p.toJsonWithin room).map Json.write
  | .full => p.toValue.quoteWithin room
  | f => (f.typeLine room p.kind).map fun kind => named kind false (p.name.getD [])

end Format

/-! ## 2. Listings -/

/-- What is to be listed. -/
structure ListingRequest where
  types : List Text
  /-- A JSON text that holds a parameter or a list of them. -/
  json : Option Text
  /-- Whether the parameters are those of an event. -/
  asEvent : Bool
  format : Format
deriving DecidableEq

namespace Listing

/-- The parameter objects that a decoded value holds: it may be one itself. -/
def objects : Value → Except Failure (List Value)
  | .record ps => .ok [.record ps]
  | .list vs => .ok vs
  | _ => .error (.refused .notInput)

/-- The parameter objects of a JSON text. -/
def ofJson (t : Text) : Except Failure (List Value) :=
  match Json.decode t with
  | .ok v => objects v
  | .error f => .error (.ofDecodeFault f)

/-- A line as a step of a listing. -/
def written (line : Except Obstacle Text) : Except Failure Text := line.mapError .unwritten

/-- The line of a parameter object. -/
def ofObject (rules : Rules) (asEvent : Bool) (format : Format) (v : Value) : Parse Text :=
  if asEvent then do
    let p ← EventParam.parse rules v
    .quiet (written (format.eventParamLine callRoom p))
  else do
    let p ← TupleParam.parse rules v
    .quiet (written (format.tupleParamLine callRoom p))

/-- The line of a type name. -/
def ofName (rules : Rules) (format : Format) (name : Text) : Except Failure Text := do
  let t ← TypeName.read rules.ceiling name
  written (format.typeLine callRoom t)

/-- The lines of type names. -/
def typeLines (rules : Rules) (format : Format) (names : List Text) : Except Failure (List Text) :=
  names.mapM (ofName rules format)

/-- The lines of a request. -/
def run (rules : Rules) (request : ListingRequest) : Parse (List Text) := do
  let types ← .quiet (typeLines rules request.format request.types)
  match request.json with
  | none => pure types
  | some t =>
    let values ← .quiet (ofJson t)
    let params ← values.mapM (ofObject rules request.asEvent request.format)
    pure (types ++ params)

end Listing

end ContractAbi
