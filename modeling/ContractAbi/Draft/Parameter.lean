import ContractAbi.Listing

/-!
# Parameters put together by hand

A caller may put a parameter together whose kind has holes, or is no type at all, and whose name is
no text.  Such a parameter still has a JSON form and a line, as far as its kind can be asked
(`Value.askKind`); the name stands in the JSON form unchanged unless there is none.
-/

namespace ContractAbi

/-- Why the kind of a parameter does not answer a question. -/
inductive KindFault where
  /-- It has a hole where the question leads. -/
  | lack (l : Lack)
  /-- Something stands in the way of the answer. -/
  | obstacle (o : Obstacle)
  /-- It is no type. -/
  | noType (v : Value) (l : Lack)

/-- The message of a fault.  A class is asked as if it were a type of that class. -/
def KindFault.message : KindFault → Text
  | .lack l => l.message
  | .obstacle o => o.message
  | .noType (.typeClass c) l =>
    c.label ++ ("." : Text) ++ l.label ++
      ("() missing 1 required positional argument: 'self'" : Text)
  | .noType v l =>
    ("'" : Text) ++ v.kindName ++ ("' object has no attribute " : Text) ++ Quoted.text l.label

namespace Value

/-- Asks a kind a question about types. -/
def askKind {β : Type} (kind : Value) (l : Lack)
    (question : Draft → Except Obstacle (Except Lack β)) : Except KindFault β :=
  match kind with
  | .draft d =>
    match question d with
    | .ok answer => answer.mapError .lack
    | .error o => .error (.obstacle o)
  | v => .error (.noType v l)

/-- Whether values of a kind vary in size. -/
def kindIsDynamic (kind : Value) : Except KindFault Bool :=
  kind.askKind .isDynamic (Draft.isDynamicWithin callRoom)

/-- The JSON form of a kind under a name, which may be any value. -/
def toNamedEntries (kind name : Value) : Except KindFault (List (Value × Value)) :=
  kind.askKind .selectorName fun d => d.ask fun t => do
    let named : List (Value × Value) :=
      match name with
      | .null => []
      | v => [(.text "name", v)]
    let d ← t.describeWithin callRoom
    pure (named ++ Json.toEntries d.fields)

/-- The JSON form of an event parameter. -/
def toEventEntries (kind name indexed : Value) : Except KindFault (List (Value × Value)) :=
  (kind.toNamedEntries name).map (· ++ [(.text "indexed", indexed)])

/-- The name of a parameter on its line. -/
def shownName (name : Value) : Text := if name.isPresent then name.plain else []

/-- The line of a parameter by one of the names of its type. -/
def line (kind : Value) (typeName : AbiType → Except Obstacle Text) (indexed : Bool)
    (name : Value) : Except KindFault Text :=
  (kind.askKind .selectorName (Draft.ask typeName)).map fun t =>
    Format.named t indexed (shownName name)

end Value

end ContractAbi
