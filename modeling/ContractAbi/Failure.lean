import ContractAbi.Ceiling
import ContractAbi.Draft.Build
import ContractAbi.Json.Decode
import ContractAbi.Report
import ContractAbi.Text.Integer

/-!
# Why a parse ends without a result

A `ParseError` is a cause for which the input is to blame, and `ParseError.report` is the one place
where each cause is put into words.  A `Failure` is any way in which a parse can end without a
result: mostly such a cause, but also a whole number that is too long to be read, a notice that the
caller wants raised, and a few ends that lie outside what a caller can mend.
-/

namespace ContractAbi

/-! ## 1. Fields -/

/-- The fields of a parameter object that mean something. -/
inductive Field where
  | name | type | indexed | components
deriving DecidableEq

namespace Field

/-- The key under which a field stands. -/
def label : Field → Text
  | .name => "name"
  | .type => "type"
  | .indexed => "indexed"
  | .components => "components"

/-- The fields of an event parameter. -/
def ofEvent : List Field := [.name, .type, .indexed, .components]

/-- The fields of a tuple parameter. -/
def ofTuple : List Field := [.name, .type, .components]

end Field

/-! ## 2. Causes -/

/-- Why a text is no type name. -/
inductive NameFault where
  /-- It follows no rule for names. -/
  | unknown
  /-- A bracket is closed by one of the other shape. -/
  | mismatched
  /-- A bracket is not closed, or closed without being opened. -/
  | unbalanced
  /-- An element of a tuple is empty. -/
  | emptyElement
  /-- A width is zero. -/
  | zeroWidth (k : Sized)
deriving DecidableEq

/-- What may be done about it. -/
def NameFault.hint : NameFault → Value
  | .unknown => .null
  | .mismatched => .text "mismatched brackets"
  | .unbalanced => .text "unbalanced brackets"
  | .emptyElement => .text "tuple elements cannot be empty"
  | .zeroWidth k => .text (k.keyword ++ (" widths must be positive" : Text))

/-- A cause for which the input is to blame. -/
inductive ParseError where
  /-- A type name that is no text. -/
  | nameNotText (got : Value)
  /-- A text that is no type name. -/
  | name (name : Text) (fault : NameFault)
  /-- A width or length that is no run of digits, and the name in which it stands. -/
  | number (digits name : Text)
  /-- A required field is absent. -/
  | missingField (f : Field)
  /-- A field occurs twice. -/
  | duplicateField (f : Field)
  /-- A component has no type. -/
  | typelessComponent
  /-- A component is no object. -/
  | componentNotObject (got : Value)
  /-- A field that must be text is not. -/
  | fieldNotText (f : Field) (got : Value)
  /-- The flag of an event parameter is no truth value. -/
  | flagNotBool (got : Value)
  /-- The components are no list. -/
  | componentsNotList (got : Value)
  /-- Components stand beside a type that is no tuple. -/
  | unexpectedComponents (typeName : Text)
  /-- The nesting goes beyond the ceiling in force, or beyond what can be parsed without one. -/
  | tooDeep (ceiling : Ceiling)
  /-- A parameter is no object. -/
  | notObject (got : Value)
  /-- A list of parameters is no list. -/
  | notList (got : Value)
  /-- A JSON text is neither a parameter nor a list of them. -/
  | notInput
  /-- A text is wrong as JSON at some place. -/
  | misplaced (p : Json.Problem) (line column : Nat)
  /-- A JSON text nests too deep. -/
  | jsonTooDeep
  /-- Octets that should be JSON are no text. -/
  | encoding (f : EncodingFault)

/-- A notice: something in the input has no effect. -/
inductive Notice where
  /-- Components stand beside a type that is no tuple. -/
  | ignoredComponents (typeName : Text)
deriving DecidableEq

/-- How a parse ends without a result. -/
inductive Failure where
  /-- The input is to blame. -/
  | refused (e : ParseError)
  /-- A whole number has too many digits. -/
  | longNumber (digits : Nat)
  /-- A notice that the caller wants raised. -/
  | raised (n : Notice)
  /-- A value that is refused cannot be shown. -/
  | unshown (o : Obstacle)
  /-- What was parsed cannot be written. -/
  | unwritten (o : Obstacle)
  /-- A type was to be built that cannot exist. -/
  | rejected (r : Rejection)
  /-- A text was read beyond its end. -/
  | offEnd
  /-- A JSON source is neither text nor octets. -/
  | noSource (kind : Text)
  /-- What stands in the place of a ceiling is no number. -/
  | incomparable (kind : Text)

/-! ## 3. Wording -/

/-- The text of a value that is not of the expected kind. -/
def expectedPhrase (expected : Text) (got : Value) : Text :=
  ("expected " : Text) ++ expected ++ (", got " : Text) ++ got.quote

/-- A field as a particular of a report. -/
def Field.value (f : Field) : Value := .text f.label

namespace ParseError

/-- The hint on components beside a type that is no tuple. -/
def notTupleHint (typeName : Text) : Text :=
  ("`" : Text) ++ typeName ++ ("` is not a tuple type" : Text)

/-- What is reported of a cause. -/
def report : ParseError → Report
  | .nameNotText got => .invalidName got (.text "ABI type names must be strings")
  | .name n fault => .invalidName (.text n) fault.hint
  | .number digits n => .invalidNumber (.text digits) (.text n)
  | .missingField f => .missingField f.value
  | .duplicateField f => .duplicateField f.value
  | .typelessComponent => .ofBody .missingTypeField Report.typelessBody .null
  | .componentNotObject got =>
    .ofBody .missingTypeField
      (("Invalid tuple param type: " : Text) ++ got.quote ++ (" is not an object" : Text)) .null
  | .fieldNotText f got => .invalidFieldValue f.value (expectedPhrase "a string" got)
  | .flagNotBool got => .invalidFieldValue Field.indexed.value (expectedPhrase "a boolean" got)
  | .componentsNotList got =>
    .invalidFieldValue Field.components.value (expectedPhrase "a list" got)
  | .unexpectedComponents typeName =>
    .unexpectedField Field.components.value (.text (notTupleHint typeName))
  | .tooDeep ceiling => .nestingTooDeep ceiling.toValue .null
  | .notObject got =>
    .json (("expected a JSON object, got " : Text) ++ got.kindName ++ (": " : Text) ++ got.quote)
      .null .null
  | .notList got => .json (expectedPhrase "a JSON array of tuple params" got) .null .null
  | .notInput => .json "JSON input must be a parameter object or a list of them" .null .null
  | .misplaced p line column =>
    .json (("invalid JSON: " : Text) ++ p.phrase) (.int line) (.int column)
  | .jsonTooDeep => .json "invalid JSON: nesting too deep to decode" .null .null
  | .encoding f => .json (("invalid JSON: " : Text) ++ f.message) .null .null

/-- The value that is shown where a cause is put into words. -/
def shown? : ParseError → Option Value
  | .nameNotText got | .componentNotObject got | .fieldNotText _ got | .flagNotBool got
  | .componentsNotList got | .notObject got | .notList got => some got
  | .tooDeep ceiling => some ceiling.toValue
  | _ => none

/-- What stands in the way of putting a cause into words. -/
def obstacle? (e : ParseError) : Option Obstacle := e.shown?.bind Value.obstacle?

end ParseError

/-- What is reported of a notice. -/
def Notice.report : Notice → Report
  | .ignoredComponents typeName =>
    .ofBody .ignoredComponents
      (("ignoring `components` of non-tuple type `" : Text) ++ typeName ++ ("`" : Text)) .null

/-- What is reported of a type that cannot exist. -/
def Rejection.report (r : Rejection) : Report := .ofBody .invalidType r.message .null

namespace Failure

/-- The report of a failure, if it is one of the kinds that are reported. -/
def report? : Failure → Option Report
  | .refused e => some e.report
  | .raised n => some n.report
  | .rejected r => some r.report
  | .longNumber _ | .unshown _ | .unwritten _ | .offEnd | .noSource _ | .incomparable _ => none

/-- What is shown of a failure. -/
def message : Failure → Text
  | .refused e => e.report.text
  | .raised n => n.report.text
  | .rejected r => r.report.text
  | .longNumber digits => Integer.tooLongMessage digits
  | .offEnd => "string index out of range"
  | .unshown .nesting =>
    Obstacle.nesting.message ++ (" while getting the repr of an object" : Text)
  | .unshown .digits => Obstacle.digits.message
  | .unwritten o => o.message
  | .noSource kind =>
    ("the JSON object must be str, bytes or bytearray, not " : Text) ++ kind
  | .incomparable kind =>
    ("'>' not supported between instances of 'int' and '" : Text) ++ kind ++ ("'" : Text)

/-- Refuses an input by a cause, if the cause can be put into words. -/
def refuse (e : ParseError) : Failure :=
  match e.obstacle? with
  | none => .refused e
  | some o => .unshown o

/-- What a text does not decode by. -/
def ofDecodeFault : Json.DecodeFault → Failure
  | .misplaced p line column => .refused (.misplaced p line column)
  | .tooDeep => .refused .jsonTooDeep
  | .longNumber n => .longNumber n
  | .encoding f => .refused (.encoding f)
  | .noSource kind => .noSource kind

end Failure

end ContractAbi
