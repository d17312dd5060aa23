import ContractAbi.Json.Lexeme

/-!
# Decoding a JSON text

A machine reads the words of a JSON text one by one.  Its state says what may come next, and holds
the containers that are still open, innermost first; so the depth of the text is the height of that
stack, and a container beyond `depthLimit` is refused as soon as it opens, whatever is wrong
further on.

Objects decode to `Value.record`, which keeps the order of the fields and every repetition.
-/

namespace ContractAbi.Json

/-! ## 1. Faults of a whole text -/

/-- Why a text does not decode. -/
inductive DecodeFault where
  /-- Something is wrong at a line and a column, both counted from one. -/
  | misplaced (p : Problem) (line column : Nat)
  /-- The containers nest too deep. -/
  | tooDeep
  /-- A whole number has too many digits. -/
  | longNumber (digits : Nat)
  /-- The octets are no text. -/
  | encoding (f : EncodingFault)
  /-- The source is neither text nor octets. -/
  | noSource (kind : Text)
deriving DecidableEq

/-- The line and the column at which a part of a text begins, given its length. -/
def placeOf (t : Text) (left : Nat) : Nat × Nat :=
  let before := t.take (t.length - left)
  let feed := CodePoint.ofChar '\n'
  (before.count feed + 1, (before.reverse.takeWhile (· ≠ feed)).length + 1)

/-- The depth beyond which containers are not decoded. -/
def depthLimit : Nat := 990

/-! ## 2. The machine -/

/-- A container that is still open, and what it holds so far, last first. -/
inductive Frame where
  | list (done : List Value)
  /-- The value of a field is being read. -/
  | field (done : List (Value × Value)) (key : Text)

/-- What may come next. -/
inductive State where
  /-- A value. -/
  | value (outer : List Frame)
  /-- The first item of a list, or its end. -/
  | firstItem (outer : List Frame)
  /-- A comma or the end of a list. -/
  | afterItem (done : List Value) (outer : List Frame)
  /-- The name of a field. -/
  | name (done : List (Value × Value)) (outer : List Frame)
  /-- The name of the first field, or the end of an object. -/
  | firstName (outer : List Frame)
  /-- The colon behind a name. -/
  | colon (done : List (Value × Value)) (key : Text) (outer : List Frame)
  /-- A comma or the end of an object. -/
  | afterField (done : List (Value × Value)) (outer : List Frame)
  /-- Nothing. -/
  | finished (v : Value)

/-- Why the machine stops. -/
inductive Halt where
  | fault (f : Fault)
  | tooDeep
  | longNumber (digits : Nat)

/-- A value is complete: it goes into the innermost open container. -/
def deliver (v : Value) : List Frame → State
  | [] => .finished v
  | .list done :: fs => .afterItem (v :: done) fs
  | .field done key :: fs => .afterField ((.text key, v) :: done) fs

/-- A container opens, if there is room for it. -/
def enter (limit : Nat) (fs : List Frame) (s : State) : Except Halt State :=
  if fs.length < limit then .ok s else .error .tooDeep

/-- The word at the beginning of a value. -/
def stepValue (limit : Nat) (fs : List Frame) (here : Text) : Lexeme → Except Halt State
  | .text t => .ok (deliver (.text t) fs)
  | .atom v => .ok (deliver v fs)
  | .openList => enter limit fs (.firstItem fs)
  | .openRecord => enter limit fs (.firstName fs)
  | .longNumber n => .error (.longNumber n)
  | .badText f => .error (.fault f)
  | .closeList | .closeRecord | .colon | .comma | .unreadable =>
    .error (.fault ⟨.expectingValue, here⟩)

/-- The word at the place of a field's name. -/
def stepName (done : List (Value × Value)) (fs : List Frame) (here : Text) :
    Lexeme → Except Halt State
  | .text t => .ok (.colon done t fs)
  | .badText f => .error (.fault f)
  | _ => .error (.fault ⟨.expectingName, here⟩)

/-- One word. -/
def step (limit : Nat) (s : State) (w : Lexeme × Text) : Except Halt State :=
  let (l, here) := w
  match s, l with
  | .value fs, l => stepValue limit fs here l
  | .firstItem fs, .closeList => .ok (deliver (.list []) fs)
  | .firstItem fs, l => stepValue limit (.list [] :: fs) here l
  | .afterItem done fs, .comma => .ok (.value (.list done :: fs))
  | .afterItem done fs, .closeList => .ok (deliver (.list done.reverse) fs)
  | .afterItem _ _, _ => .error (.fault ⟨.expectingComma, here⟩)
  | .firstName fs, .closeRecord => .ok (deliver (.record []) fs)
  | .firstName fs, l => stepName [] fs here l
  | .name done fs, l => stepName done fs here l
  | .colon done key fs, .colon => .ok (.value (.field done key :: fs))
  | .colon _ _ _, _ => .error (.fault ⟨.expectingColon, here⟩)
  | .afterField done fs, .comma => .ok (.name done fs)
  | .afterField done fs, .closeRecord => .ok (deliver (.record done.reverse) fs)
  | .afterField _ _, _ => .error (.fault ⟨.expectingComma, here⟩)
  | .finished _, _ => .error (.fault ⟨.extraData, here⟩)

/-- What is missing at the end of the text. -/
def finish : State → Except Halt Value
  | .finished v => .ok v
  | .value _ | .firstItem _ => .error (.fault ⟨.expectingValue, []⟩)
  | .name _ _ | .firstName _ => .error (.fault ⟨.expectingName, []⟩)
  | .colon _ _ _ => .error (.fault ⟨.expectingColon, []⟩)
  | .afterItem _ _ | .afterField _ _ => .error (.fault ⟨.expectingComma, []⟩)

/-- All words of a text. -/
def run (limit : Nat) (s : State) : List (Lexeme × Text) → Except Halt Value
  | [] => finish s
  | w :: ws =>
    match step limit s w with
    | .ok s' => run limit s' ws
    | .error h => .error h

/-! ## 3. Decoding -/

/-- The fault of a text at which the machine stopped. -/
def Halt.toFault (t : Text) : Halt → DecodeFault
  | .fault f =>
    let (line, column) := placeOf t f.left.length
    .misplaced f.problem line column
  | .tooDeep => .tooDeep
  | .longNumber n => .longNumber n

/-- The value that the words of a text write. -/
def decodeWords (t : Text) : Except DecodeFault Value :=
  (run depthLimit (.value []) (lexemes t)).mapError (Halt.toFault t)

/-- Decodes a text.  A byte order mark in front of it is refused. -/
def decode (t : Text) : Except DecodeFault Value :=
  match t with
  | c :: _ => if c.val = 0xFEFF then .error (.misplaced .byteOrderMark 1 1) else decodeWords t
  | [] => decodeWords t

/-- Decodes octets.  Here a byte order mark is part of the encoding. -/
def decodeOctets (bs : List UInt8) : Except DecodeFault Value :=
  match Encoding.decode bs with
  | .ok t => decodeWords t
  | .error f => .error (.encoding f)

/-- Decodes a text or octets. -/
def decodeSource : Value → Except DecodeFault Value
  | .text t => decode t
  | .octets bs => decodeOctets bs
  | v => .error (.noSource v.kindName)

end ContractAbi.Json
