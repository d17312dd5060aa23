import ContractAbi.Failure

/-!
# The fields of a parameter object

Of the pairs of an object those count whose key names a known field; all others are skipped.  No
known field may stand twice, and the first repetition is what is reported.
-/

namespace ContractAbi

/-- The field that a key names, among those that are known. -/
def Field.ofKey? (known : List Field) : Value → Option Field
  | .text t => known.find? (·.label = t)
  | _ => none

/-- The fields that an object has, with their values, in the order in which they stand. -/
abbrev Fields := List (Field × Value)

namespace Fields

/-- The value of a field, if the object has it. -/
def get? (fs : Fields) (f : Field) : Option Value := fs.lookup f

/-- Adds the known fields among some pairs to those that were found. -/
def collectInto (known : List Field) (found : Fields) :
    List (Value × Value) → Except ParseError Fields
  | [] => .ok found
  | (k, v) :: pairs =>
    match Field.ofKey? known k with
    | none => collectInto known found pairs
    | some f =>
      if (found.get? f).isSome then .error (.duplicateField f)
      else collectInto known (found ++ [(f, v)]) pairs

/-- The known fields among some pairs. -/
def collect (known : List Field) (pairs : List (Value × Value)) : Except ParseError Fields :=
  collectInto known [] pairs

/-- The known fields of an object, decoded or not. -/
def ofObject (known : List Field) (v : Value) : Except Failure Fields :=
  match v.pairs? with
  | some pairs => (collect known pairs).mapError .refused
  | none => .error (.refuse (.notObject v))

/-- A field that must be text. -/
def text (f : Field) : Value → Except Failure Text
  | .text t => .ok t
  | v => .error (.refuse (.fieldNotText f v))

end Fields

end ContractAbi
