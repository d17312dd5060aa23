import ContractAbi.Draft.Build
import ContractAbi.Report

/-!
# Reports put together by hand

A caller may report something of its own under any kind.  Which arguments a kind takes is its
signature; kinds without particulars take a message and, by name only, a hint.  Nothing checks what
is handed over: the message may be any value, and the hint may be a class, which then stands for the
type that it makes without arguments.

So what comes out is only a draft, which is asked for its hint, its message and its text, and each
of these questions can fail.  A draft whose message is a text, and whose hint is no class, is as
good as a report (`toReport_ofReport`).
-/

namespace ContractAbi

/-! ## 1. Drafts -/

/-- A report whose message and hint are unchecked. -/
structure ReportDraft where
  kind : ReportKind
  body : Value
  hint : Value
  attributes : List (Text × Value)

/-- Why a draft cannot be shown. -/
inductive ReportDraftFault where
  /-- The hint is a class that makes no type without arguments. -/
  | hint (f : BuildFault)
  /-- The hint cannot be put behind a message of some kind. -/
  | unjoinable (kind : Text)
  /-- The message is of some kind, and no text. -/
  | notText (kind : Text)

namespace ReportDraft

/-- A report as a draft. -/
def ofReport (r : Report) : ReportDraft := ⟨r.kind, .text r.body, r.hint, r.attributes⟩

/-- The hint that is meant. -/
def hintValue (r : ReportDraft) : Except ReportDraftFault Value :=
  match r.hint with
  | .typeClass c => ((Draft.build c []).map Value.draft).mapError .hint
  | v => .ok v

/-- The code points of a text, each as a text of its own. -/
def pieces (t : Text) : List Value := t.map fun c => .text [c]

/-- A message with a text behind it.  A list takes the code points of the text as new members. -/
def join (body : Value) (t : Text) : Except ReportDraftFault Value :=
  match body with
  | .text b => .ok (.text (b ++ t))
  | .list vs => .ok (.list (vs ++ pieces t))
  | .record ps => .ok (.list (ps.map (fun p => .tuple [p.1, p.2]) ++ pieces t))
  | v => .error (.unjoinable v.kindName)

/-- What stands in for a message once it was joined: a list keeps its new members. -/
def kept (body joined : Value) : Value :=
  match joined with
  | .list vs => .list vs
  | _ => body

/-- The message and, where there is one, the hint; and the draft as it is afterwards. -/
def message (r : ReportDraft) : Except ReportDraftFault (Value × ReportDraft) := do
  let hint ← r.hintValue
  if hint.isPresent then
    let joined ← join r.body (Report.hintPhrase hint)
    pure (joined, { r with body := kept r.body joined })
  else pure (r.body, r)

/-- What is shown, which must be a text unless a note is added to it; and the draft as it is
afterwards. -/
def text (r : ReportDraft) : Except ReportDraftFault (Text × ReportDraft) := do
  let (m, after) ← r.message
  if r.kind.isA .internal then pure (m.plain ++ Report.internalNote, after)
  else match m with
    | .text t => pure (t, after)
    | _ => .error (.notText r.body.kindName)

/-- The report that a draft is, if its message is a text. -/
def toReport (r : ReportDraft) : Except ReportDraftFault Report := do
  let hint ← r.hintValue
  match r.body with
  | .text t => pure ⟨r.kind, t, hint, r.attributes⟩
  | v =>
    let _ ← r.message
    .error (.notText v.kindName)

/-- A report is a draft of itself, unless its hint is a class. -/
theorem toReport_ofReport {r : Report} (h : ∀ c, r.hint ≠ .typeClass c) :
    (ofReport r).toReport = .ok r := by
  obtain ⟨kind, body, hint, attributes⟩ := r
  cases hint with
  | typeClass c => exact absurd rfl (h c)
  | _ => rfl

end ReportDraft

namespace ReportDraftFault

/-- What is said of a message behind which no hint can be put. -/
def joinMessage (kind : Text) : Text :=
  if kind = ("tuple" : Text) then "can only concatenate tuple (not \"str\") to tuple"
  else if kind = ("bytes" : Text) then "can't concat str to bytes"
  else ("unsupported operand type(s) for +=: '" : Text) ++ kind ++ ("' and 'str'" : Text)

/-- The message of a fault; a class that makes no type has a report of its own. -/
def message : ReportDraftFault → Text
  | .hint _ => []
  | .unjoinable kind => joinMessage kind
  | .notText kind => ("__str__ returned non-string (type " : Text) ++ kind ++ (")" : Text)

end ReportDraftFault

/-! ## 2. Drafts from arguments -/

/-- The arguments of a kind. -/
def ReportKind.signature : ReportKind → Signature
  | .invalidName => ⟨label .invalidName, ["name"], [], ["hint"]⟩
  | .invalidNumber => ⟨label .invalidNumber, ["value"], ["type_name"], []⟩
  | .missingField => ⟨label .missingField, ["field"], [], []⟩
  | .duplicateField => ⟨label .duplicateField, ["field"], [], []⟩
  | .missingTypeField => ⟨label .missingTypeField, [], ["message"], []⟩
  | .json => ⟨label .json, ["msg"], ["lineno", "col_offset"], []⟩
  | .invalidFieldValue => ⟨label .invalidFieldValue, ["field", "message"], [], []⟩
  | .unexpectedField => ⟨label .unexpectedField, ["field"], [], ["hint"]⟩
  | .nestingTooDeep => ⟨label .nestingTooDeep, [], ["max_depth", "type_name"], []⟩
  | .base | .general | .parse | .internal | .invalidType | .warning | .ignoredComponents =>
    ⟨label .base, [], ["message"], ["hint"]⟩

namespace ReportDraft

/-- A draft of a kind from the arguments that `arg` knows by name.  An argument that was left out is
nothing. -/
def assemble (kind : ReportKind) (arg : Text → Option Value) : ReportDraft :=
  let get (name : Text) : Value := (arg name).getD .null
  let message (other : Text) : Value := (arg "message").getD (.text other)
  match kind with
  | .invalidName => ofReport (.invalidName (get "name") (get "hint"))
  | .invalidNumber => ofReport (.invalidNumber (get "value") (get "type_name"))
  | .missingField => ofReport (.missingField (get "field"))
  | .duplicateField => ofReport (.duplicateField (get "field"))
  | .missingTypeField => ⟨.missingTypeField, message Report.typelessBody, .null, []⟩
  | .json =>
    { ofReport (.json [] (get "lineno") (get "col_offset")) with body := get "msg" }
  | .invalidFieldValue => ofReport (.invalidFieldValue (get "field") (get "message").plain)
  | .unexpectedField => ofReport (.unexpectedField (get "field") (get "hint"))
  | .nestingTooDeep => ofReport (.nestingTooDeep (get "max_depth") (get "type_name"))
  | kind => ⟨kind, message Report.silentBody, get "hint", []⟩

/-- A draft of a kind from arguments by position and by name. -/
def ofArguments (kind : ReportKind) (args : List Value) (named : List (Text × Value)) :
    Except ArgumentFault ReportDraft :=
  (kind.signature.bind args named).map fun bound => assemble kind fun name => bound.lookup name

end ReportDraft

end ContractAbi
