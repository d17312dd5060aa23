import ContractAbi.Value

/-!
# Reports

What goes wrong is reported under a *kind*, and the kinds form a tree: whoever handles a kind
handles all kinds below it.  A report has a body, sometimes a hint that says what to do, and
attributes that hold the particulars.  `Report.message` is the body and the hint, `Report.text` is
what is shown; they differ only below `ReportKind.internal`, where a note is added for whoever meets
it.
-/

namespace ContractAbi

/-! ## 1. Kinds -/

/-- The kinds of reports. -/
inductive ReportKind where
  /-- Everything that is reported. -/
  | base
  /-- What a caller may be expected to handle. -/
  | general
  /-- What cannot be parsed. -/
  | parse
  /-- A text that is no type name. -/
  | invalidName
  /-- A width or length that is no unsigned decimal integer. -/
  | invalidNumber
  /-- A required field that is absent. -/
  | missingField
  /-- A field that occurs twice. -/
  | duplicateField
  /-- A tuple component without a type. -/
  | missingTypeField
  /-- A text that is no JSON, or JSON of the wrong shape. -/
  | json
  /-- A field that holds a value of the wrong kind. -/
  | invalidFieldValue
  /-- A field that must not be there. -/
  | unexpectedField
  /-- Nesting beyond the ceiling. -/
  | nestingTooDeep
  /-- A mistake of the program and not of its input. -/
  | internal
  /-- A type that cannot exist. -/
  | invalidType
  /-- What is worth a notice and no error. -/
  | warning
  /-- Components that have no effect. -/
  | ignoredComponents
deriving DecidableEq

namespace ReportKind

/-- The name of a kind. -/
def label : ReportKind → Text
  | .base => "_BaseABIException"
  | .general => "ABIException"
  | .parse => "ParseError"
  | .invalidName => "InvalidName"
  | .invalidNumber => "InvalidNumber"
  | .missingField => "MissingField"
  | .duplicateField => "DuplicateField"
  | .missingTypeField => "MissingTypeField"
  | .json => "JSONError"
  | .invalidFieldValue => "InvalidFieldValue"
  | .unexpectedField => "UnexpectedField"
  | .nestingTooDeep => "NestingTooDeep"
  | .internal => "ABIInternalException"
  | .invalidType => "InvalidABIType"
  | .warning => "ABIWarning"
  | .ignoredComponents => "IgnoredComponents"

/-- All kinds. -/
def all : List ReportKind :=
  [.base, .general, .parse, .invalidName, .invalidNumber, .missingField, .duplicateField,
    .missingTypeField, .json, .invalidFieldValue, .unexpectedField, .nestingTooDeep, .internal,
    .invalidType, .warning, .ignoredComponents]

/-- The kind with a given name. -/
def ofLabel? (t : Text) : Option ReportKind := all.find? (·.label = t)

/-- A kind and those above it, upwards. -/
def ancestry : ReportKind → List ReportKind
  | .base => [.base]
  | .general => [.general, .base]
  | .parse => [.parse, .general, .base]
  | .internal => [.internal, .base]
  | .invalidType => [.invalidType, .internal, .base]
  | .warning => [.warning, .base]
  | .ignoredComponents => [.ignoredComponents, .warning, .base]
  | k => [k, .parse, .general, .base]

/-- Whether a kind lies below another or is the same. -/
def isA (k above : ReportKind) : Bool := k.ancestry.contains above

/-- The names of a kind and of those above it, up to the exceptions of every program. -/
def lineage (k : ReportKind) : List Text :=
  let roots : List Text := if k.isA .warning then ["Warning", "Exception"] else ["Exception"]
  k.ancestry.map label ++ roots

end ReportKind

/-! ## 2. Reports -/

/-- A report: its kind, what it says, a hint that may be empty, and particulars. -/
structure Report where
  kind : ReportKind
  body : Text
  hint : Value
  attributes : List (Text × Value)

namespace Report

/-- How a hint is put behind a body. -/
def hintPhrase (hint : Value) : Text := ("\n\n  (hint: " : Text) ++ hint.plain ++ (")" : Text)

/-- The body and, where there is one, the hint. -/
def message (r : Report) : Text :=
  if r.hint.isPresent then r.body ++ hintPhrase r.hint else r.body

/-- What is added to a report of an internal mistake. -/
def internalNote : Text :=
  "\n\nThis is an unhandled internal error. Please create an issue to notify the developers!"

/-- What is shown. -/
def text (r : Report) : Text :=
  if r.kind.isA .internal then r.message ++ internalNote else r.message

/-! ## 3. The reports of each kind -/

/-- The body of a report that says nothing. -/
def silentBody : Text := "Error Message not found."

/-- A report without particulars. -/
def ofBody (kind : ReportKind) (body : Text) (hint : Value) : Report := ⟨kind, body, hint, []⟩

/-- A text that is no type name. -/
def invalidName (name hint : Value) : Report :=
  ⟨.invalidName, ("Invalid ABI type name: " : Text) ++ name.quote, hint, [("name", name)]⟩

/-- Where a number stands, if that is known. -/
def inType : Value → Text
  | .null => []
  | v => (" in ABI type " : Text) ++ v.quote

/-- A number that is no unsigned decimal integer. -/
def invalidNumber (value typeName : Value) : Report :=
  ⟨.invalidNumber, ("Invalid number " : Text) ++ value.quote ++ inType typeName,
    .text "expected an unsigned decimal integer", [("value", value), ("type_name", typeName)]⟩

/-- A field between backquotes. -/
def fieldPhrase (phrase : Text) (field : Value) : Text :=
  phrase ++ (" `" : Text) ++ field.plain ++ ("`" : Text)

/-- A field that is absent. -/
def missingField (field : Value) : Report :=
  ⟨.missingField, fieldPhrase "missing field" field, .null, [("field", field)]⟩

/-- A field that occurs twice. -/
def duplicateField (field : Value) : Report :=
  ⟨.duplicateField, fieldPhrase "duplicate field" field, .null, [("field", field)]⟩

/-- The body of a report on a component without a type. -/
def typelessBody : Text := "Invalid tuple param type: component has no `type` field"

/-- A text that is no JSON, with the place if it is known. -/
def json (body : Text) (line column : Value) : Report :=
  ⟨.json, body, .null, [("lineno", line), ("col_offset", column)]⟩

/-- A field of the wrong kind. -/
def invalidFieldValue (field : Value) (body : Text) : Report :=
  ⟨.invalidFieldValue, fieldPhrase "invalid value for field" field ++ (": " : Text) ++ body, .null,
    [("field", field)]⟩

/-- A field that must not be there. -/
def unexpectedField (field hint : Value) : Report :=
  ⟨.unexpectedField, fieldPhrase "unexpected field" field, hint, [("field", field)]⟩

/-- What is too deep, if that is known. -/
def ofName : Value → Text
  | .null => []
  | v => (": " : Text) ++ v.quote

/-- Nesting beyond a ceiling, or beyond what can be parsed without one. -/
def nestingTooDeep (ceiling typeName : Value) : Report :=
  let (body, hint) : Text × Text :=
    match ceiling with
    | .null =>
      ("ABI type nesting is too deep to parse",
        "tuple nesting is limited by the interpreter recursion limit")
    | v =>
      (("ABI type nesting exceeds the maximum depth of " : Text) ++ v.plain,
        "raise or unset ABIPARSE_MAX_NESTING_DEPTH")
  ⟨.nestingTooDeep, body ++ ofName typeName, .text hint, [("max_depth", ceiling)]⟩

end Report

end ContractAbi
