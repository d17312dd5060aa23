import ContractAbi.AbiType

/-!
# Types under construction

A type that a caller puts together piece by piece may have holes: places where some type stands of
which nothing is known.  A draft has a description, which shows how it was put together, but a name
only once no hole is left.  `Draft.toType?_ofType` says that a type is a draft without holes.

Like names, descriptions are written within the room that there is for calls (`Draft.textWithin`);
`Draft.text` is the description that is written if nothing stands in the way.
-/

namespace ContractAbi

/-- A type whose leaves are scalars or holes. -/
abbrev Draft := TypeTree (Option Scalar)

/-- The questions that a hole leaves open. -/
inductive Lack where
  /-- Whether the type varies in size. -/
  | isDynamic
  /-- What the type is called. -/
  | selectorName
  /-- Whether the type has elements. -/
  | isComplexType
deriving DecidableEq

/-- The name of the question. -/
def Lack.label : Lack → Text
  | .isDynamic => "is_dynamic"
  | .selectorName => "selector_name"
  | .isComplexType => "is_complex_type"

/-- The question as it is reported. -/
def Lack.message (l : Lack) : Text := ("ABIType." : Text) ++ l.label

namespace Draft

/-! ## 1. Drafts and types -/

/-- A type as a draft. -/
def ofType (t : AbiType) : Draft := TypeTree.map some t

/-- The type that a draft without holes stands for. -/
def toType? (d : Draft) : Option AbiType := TypeTree.mapM? id d

private theorem mapAllM?_map_some (ts : List AbiType)
    (h : ∀ t ∈ ts, TypeTree.mapM? id (TypeTree.map some t) = some t) :
    TypeTree.mapAllM? id (ts.map (TypeTree.map some)) = some ts := by
  induction ts with
  | nil => rfl
  | cons t ts ih =>
    have ht := h t (List.mem_cons_self ..)
    have hts := ih fun u hu => h u (List.mem_cons_of_mem _ hu)
    simp [TypeTree.mapAllM?, ht, hts]

/-- A type has no holes. -/
theorem toType?_ofType (t : AbiType) : toType? (ofType t) = some t := by
  unfold toType? ofType
  induction t using TypeTree.induction with
  | leaf s => rfl
  | array t ih => simp [TypeTree.map, TypeTree.mapM?, ih]
  | fixedArray t n ih => simp [TypeTree.map, TypeTree.mapM?, ih]
  | tuple ts ih => simp [TypeTree.map, TypeTree.mapM?, mapAllM?_map_some ts ih]

/-! ## 2. Descriptions -/

/-- How a leaf was put together. -/
def leafText : Option Scalar → Text
  | none => "ABIType()"
  | some .address => "ABI_Address()"
  | some .bool => "ABI_Bool()"
  | some .string => "ABI_String()"
  | some .bytes => "ABI_Bytes()"
  | some (.int n) => ("ABI_IntM(m_bits=" : Text) ++ Decimal.render n ++ (")" : Text)
  | some (.uint n) => ("ABI_UIntM(m_bits=" : Text) ++ Decimal.render n ++ (")" : Text)
  | some (.fixedBytes n) => ("ABI_BytesM(m_bytes=" : Text) ++ Decimal.render n ++ (")" : Text)

/-- A sequence between parentheses: a single member keeps its comma. -/
def sequenceText : List Text → Text
  | [] => "()"
  | [t] => ("(" : Text) ++ t ++ (",)" : Text)
  | ts => ("(" : Text) ++ Text.join ", " ts ++ (")" : Text)

mutual

/-- How a draft was put together. -/
def text : Draft → Text
  | .leaf a => leafText a
  | .array d => ("ABI_DynamicArray(subtyp=" : Text) ++ text d ++ (")" : Text)
  | .fixedArray d n =>
    ("ABI_StaticArray(subtyp=" : Text) ++ text d ++ (", m_elems=" : Text) ++ Decimal.render n ++
      (")" : Text)
  | .tuple ds => ("ABI_Tuple(subtyps=" : Text) ++ sequenceText (texts ds) ++ (")" : Text)

/-- How several drafts were put together. -/
def texts : List Draft → List Text
  | [] => []
  | d :: ds => text d :: texts ds

end

@[simp] theorem texts_eq (ds : List Draft) : texts ds = ds.map text := by
  induction ds with
  | nil => rfl
  | cons d ds ih => simp [texts, ih]

/-- How descriptions are written.  A width is one call deeper than the leaf it belongs to. -/
def textRendering : Rendering (Option Scalar) Text where
  leaf := leafText
  numbers a := a.elim [] Scalar.numbers
  arrayOf
    | text, none => ("ABI_DynamicArray(subtyp=" : Text) ++ text ++ (")" : Text)
    | text, some n =>
      ("ABI_StaticArray(subtyp=" : Text) ++ text ++ (", m_elems=" : Text) ++ Decimal.render n ++
        (")" : Text)
  tuple texts := ("ABI_Tuple(subtyps=" : Text) ++ sequenceText texts ++ (")" : Text)
  leafCalls a := if (a.elim [] Scalar.numbers).isEmpty then 3 else 4
  arrayCalls := 3
  emptyCalls := 4
  tupleCalls := 4

/-- The description of a draft, written within some room. -/
def textWithin (room : Nat) (d : Draft) : Except Obstacle Text := textRendering.run room d

/-! ## 3. What a draft can be asked -/

/-- Asks the type of a draft, which needs every leaf.  There may be no room for the answer. -/
def ask {β : Type} (question : AbiType → Except Obstacle β) (d : Draft) :
    Except Obstacle (Except Lack β) :=
  match toType? d with
  | some t => (question t).map .ok
  | none => .ok (.error .selectorName)

mutual

/-- Whether values vary in size, as far as there is room to find out.  An array of any length
answers for its element, and a dynamic element for all that follow it in its tuple, so a hole behind
either is not asked. -/
def isDynamicWithin : (room : Nat) → Draft → Except Obstacle (Except Lack Bool)
  | room, .leaf none => enter 1 room fun _ => pure (.error .isDynamic)
  | room, .leaf (some s) => enter 1 room fun _ => pure (.ok s.isDynamic)
  | room, .array _ => enter 1 room fun _ => pure (.ok true)
  | room, .fixedArray d _ => enter 1 room fun room => isDynamicWithin room d
  | room, .tuple ds => enter 3 room fun room => anyDynamicWithin room ds

/-- Whether some draft of a list is dynamic. -/
def anyDynamicWithin : (room : Nat) → List Draft → Except Obstacle (Except Lack Bool)
  | _, [] => pure (.ok false)
  | room, d :: ds => do
    match ← isDynamicWithin room d with
    | .ok false => anyDynamicWithin room ds
    | answer => pure answer

end

/-- Whether values have elements. -/
def isComposite : Draft → Except Lack Bool
  | .leaf none => .error .isComplexType
  | d => .ok (TypeTree.isComposite d)

end Draft

end ContractAbi
