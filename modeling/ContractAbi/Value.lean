import ContractAbi.Binary64.Shortest
import ContractAbi.Draft
import ContractAbi.Text.Quoted

/-!
# Values

What a caller may hand to a parser: anything that a JSON text decodes to, and more, since parsers
are also called on values that never were text.  A value that is refused is shown in the message
that refuses it, so every value has a text (`Value.quote`), unless something stands in the way of
writing it (`Value.quoteWithin`): it nests too deep, or a whole number in it has too many digits.

Decoded objects keep their pairs in source order with repeated keys (`Value.record`), so that a
parser can see that a field occurs twice; a `Value.mapping` has one entry per key.
-/

namespace ContractAbi

/-! ## 1. Values -/

/-- The classes of types, as values of their own. -/
inductive TypeClass where
  | any | address | bool | string | bytes | fixedBytes | int | uint | array | fixedArray | tuple
deriving DecidableEq

namespace TypeClass

/-- The name of a class. -/
def label : TypeClass → Text
  | .any => "ABIType"
  | .address => "ABI_Address"
  | .bool => "ABI_Bool"
  | .string => "ABI_String"
  | .bytes => "ABI_Bytes"
  | .fixedBytes => "ABI_BytesM"
  | .int => "ABI_IntM"
  | .uint => "ABI_UIntM"
  | .array => "ABI_DynamicArray"
  | .fixedArray => "ABI_StaticArray"
  | .tuple => "ABI_Tuple"

/-- The classes that describe types. -/
def concrete : List TypeClass :=
  [.address, .bool, .string, .bytes, .fixedBytes, .int, .uint, .array, .fixedArray, .tuple]

/-- The class with a given name. -/
def ofLabel? (t : Text) : Option TypeClass := (.any :: concrete).find? (·.label = t)

end TypeClass

/-- The class of a draft. -/
def Draft.typeClass : Draft → TypeClass
  | .leaf none => .any
  | .leaf (some .address) => .address
  | .leaf (some .bool) => .bool
  | .leaf (some .string) => .string
  | .leaf (some .bytes) => .bytes
  | .leaf (some (.int _)) => .int
  | .leaf (some (.uint _)) => .uint
  | .leaf (some (.fixedBytes _)) => .fixedBytes
  | .array _ => .array
  | .fixedArray _ _ => .fixedArray
  | .tuple _ => .tuple

/-- A value that may be handed to a parser. -/
inductive Value where
  | null
  | bool (b : Bool)
  | int (i : Int)
  | float (x : Binary64)
  | text (t : Text)
  | octets (bs : List UInt8)
  /-- A list, as an array of a JSON text decodes to. -/
  | list (vs : List Value)
  /-- A sequence of fixed length. -/
  | tuple (vs : List Value)
  /-- A decoded object: its pairs in source order, repeated keys included. -/
  | record (pairs : List (Value × Value))
  /-- Entries with distinct keys, in order of insertion. -/
  | mapping (entries : List (Value × Value))
  /-- A type, possibly with holes. -/
  | draft (d : Draft)
  /-- An event parameter put together by hand, and unchecked. -/
  | eventParam (name kind indexed : Value)
  /-- A tuple parameter put together by hand, and unchecked. -/
  | tupleParam (name kind : Value)
  /-- A class of types, and not a type of that class. -/
  | typeClass (c : TypeClass)

namespace Value

/-- What kind of value this is, as messages call it. -/
def kindName : Value → Text
  | .null => "NoneType"
  | .bool _ => "bool"
  | .int _ => "int"
  | .float _ => "float"
  | .text _ => "str"
  | .octets _ => "bytes"
  | .list _ => "list"
  | .tuple _ => "tuple"
  | .record _ => "JSONObject"
  | .mapping _ => "dict"
  | .draft d => d.typeClass.label
  | .eventParam .. => "EventParam"
  | .tupleParam .. => "TupleParam"
  | .typeClass _ => "type"

/-! ## 2. The text of a value -/

/-- A truth value as it is shown. -/
def boolText (b : Bool) : Text := if b then "True" else "False"

/-- A pair as it is shown. -/
def pairText (k v : Text) : Text := ("(" : Text) ++ k ++ (", " : Text) ++ v ++ (")" : Text)

/-- An entry as it is shown. -/
def entryText (k v : Text) : Text := k ++ (": " : Text) ++ v

/-- A list as it is shown. -/
def listText (ts : List Text) : Text := ("[" : Text) ++ Text.join ", " ts ++ ("]" : Text)

/-- An event parameter as it is shown. -/
def eventParamText (name kind indexed : Text) : Text :=
  ("EventParam(name=" : Text) ++ name ++ (", kind=" : Text) ++ kind ++ (", indexed=" : Text) ++
    indexed ++ (")" : Text)

/-- A tuple parameter as it is shown. -/
def tupleParamText (name kind : Text) : Text :=
  ("TupleParam(name=" : Text) ++ name ++ (", kind=" : Text) ++ kind ++ (")" : Text)

mutual

/-- The text that shows a value. -/
def quote : Value → Text
  | .null => "None"
  | .bool b => boolText b
  | .int i => Decimal.renderInt i
  | .float x => x.text
  | .text t => Quoted.text t
  | .octets bs => Quoted.octets bs
  | .list vs => listText (quoteAll vs)
  | .tuple vs => Draft.sequenceText (quoteAll vs)
  | .record ps => listText (quotePairs pairText ps)
  | .mapping es => ("\x7b" : Text) ++ Text.join ", " (quotePairs entryText es) ++ ("\x7d" : Text)
  | .draft d => d.text
  | .eventParam n k i => eventParamText (quote n) (quote k) (quote i)
  | .tupleParam n k => tupleParamText (quote n) (quote k)
  | .typeClass c => ("<class 'abiparse.abi_types." : Text) ++ c.label ++ ("'>" : Text)

/-- The texts of several values. -/
def quoteAll : List Value → List Text
  | [] => []
  | v :: vs => quote v :: quoteAll vs

/-- The texts of several pairs. -/
def quotePairs (f : Text → Text → Text) : List (Value × Value) → List Text
  | [] => []
  | (k, v) :: ps => f (quote k) (quote v) :: quotePairs f ps

end

/-- The text that stands for a value inside a sentence: a text stands for itself. -/
def plain : Value → Text
  | .text t => t
  | v => v.quote

/-! ## 3. Within some room -/

mutual

/-- The text that shows a value, written within some room.  The pairs of a decoded object are
sequences, which are written like any other. -/
def quoteWithin : (room : Nat) → Value → Except Obstacle Text
  | room, .int i => enter 1 room fun _ => do
    Decimal.check i.natAbs
    pure (Decimal.renderInt i)
  | room, .list vs => enter 1 room fun room => do
    let ts ← quoteAllWithin room vs
    pure (listText ts)
  | room, .tuple vs => enter 1 room fun room => do
    let ts ← quoteAllWithin room vs
    pure (Draft.sequenceText ts)
  | room, .record ps => enter 1 room fun room => do
    let ts ← quotePairsWithin 1 pairText room ps
    pure (listText ts)
  | room, .mapping es => enter 1 room fun room => do
    let ts ← quotePairsWithin 0 entryText room es
    pure (("\x7b" : Text) ++ Text.join ", " ts ++ ("\x7d" : Text))
  | room, .draft d => d.textWithin room
  | room, .eventParam n k i => enter 3 room fun room => do
    let n ← quoteWithin room n
    let k ← quoteWithin room k
    let i ← quoteWithin room i
    pure (eventParamText n k i)
  | room, .tupleParam n k => enter 3 room fun room => do
    let n ← quoteWithin room n
    let k ← quoteWithin room k
    pure (tupleParamText n k)
  | room, v => enter 1 room fun _ => pure v.quote

/-- The texts of several values. -/
def quoteAllWithin : (room : Nat) → List Value → Except Obstacle (List Text)
  | _, [] => pure []
  | room, v :: vs => do
    let t ← quoteWithin room v
    let ts ← quoteAllWithin room vs
    pure (t :: ts)

/-- The texts of several pairs, each of which takes some calls. -/
def quotePairsWithin (calls : Nat) (f : Text → Text → Text) :
    (room : Nat) → List (Value × Value) → Except Obstacle (List Text)
  | _, [] => pure []
  | room, (k, v) :: ps => do
    let t ← enter calls room fun room => do
      let k ← quoteWithin room k
      let v ← quoteWithin room v
      pure (f k v)
    let ts ← quotePairsWithin calls f room ps
    pure (t :: ts)

end

/-- What stands in the way of showing a value. -/
def obstacle? (v : Value) : Option Obstacle := Obstacle.met? (v.quoteWithin callRoom)

/-! ## 4. Views -/

/-- The pairs of an object, decoded or not. -/
def pairs? : Value → Option (List (Value × Value))
  | .record ps | .mapping ps => some ps
  | _ => none

/-- The members of a list or sequence.  A decoded object is neither. -/
def items? : Value → Option (List Value)
  | .list vs | .tuple vs => some vs
  | _ => none

/-- Whether a value counts as present: nothing, zero and the empty values do not. -/
def isPresent : Value → Bool
  | .null => false
  | .bool b => b
  | .int i => i ≠ 0
  | .float x => !x.isZero
  | .text t => !t.isEmpty
  | .octets bs => !bs.isEmpty
  | .list vs | .tuple vs => !vs.isEmpty
  | .record ps | .mapping ps => !ps.isEmpty
  | .draft _ | .eventParam .. | .tupleParam .. | .typeClass _ => true

/-- The whole number that a value is: truth values count as zero and one. -/
def whole? : Value → Option Int
  | .bool b => some (if b then 1 else 0)
  | .int i => some i
  | .float x => x.toInt?
  | _ => none

/-! ## 5. Equality -/

mutual

/-- Whether two values are equal.  Numbers of any kind are compared as numbers, truth values among
them, and what is not a number equals not even itself.  A decoded object equals the list of its
pairs; of a mapping the order of the entries does not count. -/
def same : Value → Value → Bool
  | .null, .null => true
  | .float .nan, .float _ => false
  | .float x, .float y => x = y || (x.isZero && y.isZero)
  | .text s, .text t => s = t
  | .octets as, .octets bs => as = bs
  | .list us, .list vs | .tuple us, .tuple vs => sameAll us vs
  | .list us, .record qs => sameAll us (qs.map fun q => .tuple [q.1, q.2])
  | .record ps, .list vs => samePairs ps vs
  | .record ps, .record qs => samePairs ps (qs.map fun q => .tuple [q.1, q.2])
  | .mapping es, .mapping fs => es.length = fs.length && sameEntries es fs
  | .draft d, .draft e => d = e
  | .eventParam n k i, .eventParam m l j => same n m && same k l && same i j
  | .tupleParam n k, .tupleParam m l => same n m && same k l
  | .typeClass c, .typeClass d => c = d
  | u, v =>
    match u.whole?, v.whole? with
    | some i, some j => i = j
    | _, _ => false

/-- Whether two lists of values are equal. -/
def sameAll : List Value → List Value → Bool
  | [], [] => true
  | u :: us, v :: vs => same u v && sameAll us vs
  | _, _ => false

/-- Whether the pairs of an object are the members of a list. -/
def samePairs : List (Value × Value) → List Value → Bool
  | [], [] => true
  | (k, u) :: ps, .tuple [l, v] :: vs => same k l && same u v && samePairs ps vs
  | _, _ => false

/-- Whether all entries of a mapping are found among those of another. -/
def sameEntries : List (Value × Value) → List (Value × Value) → Bool
  | [], _ => true
  | (k, u) :: es, fs => fs.any (fun f => same k f.1 && same u f.2) && sameEntries es fs

end

/-! ## 6. Keys -/

mutual

/-- What keeps a value from being the key of an entry: the first part of it that can change. -/
def changeable? : Value → Option Value
  | .list vs => some (.list vs)
  | .record ps => some (.record ps)
  | .mapping es => some (.mapping es)
  | .tuple vs => changeableAmong? vs
  | .eventParam n k i => (changeable? n).or ((changeable? k).or (changeable? i))
  | .tupleParam n k => (changeable? n).or (changeable? k)
  | _ => none

/-- The first part of some values that can change. -/
def changeableAmong? : List Value → Option Value
  | [] => none
  | v :: vs => (changeable? v).or (changeableAmong? vs)

end

/-- What is said of a value that can be no key, by its kind. -/
def noKeyMessage (kind : Text) : Text := ("unhashable type: '" : Text) ++ kind ++ ("'" : Text)

end Value

end ContractAbi
