import ContractAbi.TypeTree.Rendering

/-!
# The types of a contract

The types over which a contract's interface is written: scalars, arrays and tuples.  Any positive
width is allowed here; which widths can be encoded is a question for an encoder.

A type has two names.  The *selector name* writes a tuple between parentheses, and function and
event selectors are computed from it.  The *canonical name* writes a tuple between square brackets,
the empty one as `tuple`, and is a name that the reader accepts.

A name is written within the room that there is for calls, and so may fail to be written
(`AbiType.selectorWithin`, `AbiType.canonicalWithin`).  `AbiType.selector` and `AbiType.canonical`
are the names that are written if nothing stands in the way.
-/

namespace ContractAbi

/-! ## 1. Scalars -/

/-- The types without parts. -/
inductive Scalar where
  /-- An account. -/
  | address
  /-- A truth value. -/
  | bool
  /-- Text of any length. -/
  | string
  /-- Octets of any number. -/
  | bytes
  /-- A signed integer of some number of bits. -/
  | int (bits : Nat)
  /-- An unsigned integer of some number of bits. -/
  | uint (bits : Nat)
  /-- Octets of a fixed number. -/
  | fixedBytes (size : Nat)
deriving DecidableEq

namespace Scalar

/-- The name of a scalar. -/
def name : Scalar → Text
  | .address => "address"
  | .bool => "bool"
  | .string => "string"
  | .bytes => "bytes"
  | .int bits => ("int" : Text) ++ Decimal.render bits
  | .uint bits => ("uint" : Text) ++ Decimal.render bits
  | .fixedBytes size => ("bytes" : Text) ++ Decimal.render size

/-- Scalars of varying size, which are encoded behind an offset. -/
def isDynamic : Scalar → Bool
  | .string | .bytes => true
  | _ => false

/-- The widths in the name of a scalar. -/
def numbers : Scalar → List Nat
  | .int n | .uint n | .fixedBytes n => [n]
  | _ => []

/-- Widths are positive. -/
def WellFormed : Scalar → Prop
  | .int n | .uint n | .fixedBytes n => 0 < n
  | _ => True

instance : DecidablePred WellFormed := fun s => by
  cases s <;> unfold WellFormed <;> infer_instance

end Scalar

/-! ## 2. Types -/

/-- The types of a contract. -/
abbrev AbiType := TypeTree Scalar

namespace AbiType

/-- Every width in the type is positive. -/
def WellFormed (t : AbiType) : Prop := ∀ s ∈ t.leaves, s.WellFormed

instance (t : AbiType) : Decidable (WellFormed t) :=
  inferInstanceAs (Decidable (∀ s ∈ t.leaves, s.WellFormed))

theorem wellFormed_leaf {s : Scalar} : WellFormed (.leaf s) ↔ s.WellFormed := by
  simp [WellFormed, TypeTree.leaves]

theorem wellFormed_array {t : AbiType} : WellFormed (.array t) ↔ WellFormed t := Iff.rfl

theorem wellFormed_fixedArray {t : AbiType} {n : Nat} :
    WellFormed (.fixedArray t n) ↔ WellFormed t := Iff.rfl

theorem wellFormed_tuple {ts : List AbiType} :
    WellFormed (.tuple ts) ↔ ∀ t ∈ ts, WellFormed t := by
  simp only [WellFormed, TypeTree.leaves, TypeTree.leavesAll_eq, List.mem_flatMap]
  exact ⟨fun h t ht s hs => h s ⟨t, ht, hs⟩, fun h s ⟨t, ht, hs⟩ => h t ht s hs⟩

mutual

/-- Whether values of the type vary in size.  An array of one length does so with its elements, even
where that length is zero. -/
def isDynamic : AbiType → Bool
  | .leaf s => s.isDynamic
  | .array _ => true
  | .fixedArray t _ => isDynamic t
  | .tuple ts => anyDynamic ts

/-- Whether some type of a list is dynamic. -/
def anyDynamic : List AbiType → Bool
  | [] => false
  | t :: ts => isDynamic t || anyDynamic ts

end

@[simp] theorem anyDynamic_eq (ts : List AbiType) : anyDynamic ts = ts.any isDynamic := by
  induction ts with
  | nil => rfl
  | cons t ts ih => simp [anyDynamic, ih]

/-! ## 3. Names -/

/-- An array dimension behind the name of an element type. -/
def suffix : TypeTree.Dimension → Text
  | none => "[]"
  | some n => ("[" : Text) ++ Decimal.render n ++ ("]" : Text)

mutual

/-- The selector name of a type. -/
def selector : AbiType → Text
  | .leaf s => s.name
  | .array t => selector t ++ suffix none
  | .fixedArray t n => selector t ++ suffix (some n)
  | .tuple ts => ("(" : Text) ++ Text.join "," (selectors ts) ++ (")" : Text)

/-- The selector names of several types. -/
def selectors : List AbiType → List Text
  | [] => []
  | t :: ts => selector t :: selectors ts

end

@[simp] theorem selectors_eq (ts : List AbiType) : selectors ts = ts.map selector := by
  induction ts with
  | nil => rfl
  | cons t ts ih => simp [selectors, ih]

mutual

/-- The canonical name of a type. -/
def canonical : AbiType → Text
  | .leaf s => s.name
  | .array t => canonical t ++ suffix none
  | .fixedArray t n => canonical t ++ suffix (some n)
  | .tuple [] => "tuple"
  | .tuple (t :: ts) =>
    ("[" : Text) ++ Text.join "," (canonical t :: canonicals ts) ++ ("]" : Text)

/-- The canonical names of several types. -/
def canonicals : List AbiType → List Text
  | [] => []
  | t :: ts => canonical t :: canonicals ts

end

@[simp] theorem canonicals_eq (ts : List AbiType) : canonicals ts = ts.map canonical := by
  induction ts with
  | nil => rfl
  | cons t ts ih => simp [canonicals, ih]

/-! ## 4. Within some room -/

/-- How selector names are written.  Even a tuple without elements takes the calls of the loop over
them. -/
def selectorRendering : Rendering Scalar Text where
  leaf := Scalar.name
  numbers := Scalar.numbers
  arrayOf name d := name ++ suffix d
  tuple names := ("(" : Text) ++ Text.join "," names ++ (")" : Text)
  leafCalls _ := 1
  arrayCalls := 1
  emptyCalls := 3
  tupleCalls := 3

/-- The canonical name of a tuple of types with these names. -/
def groupName : List Text → Text
  | [] => "tuple"
  | names => ("[" : Text) ++ Text.join "," names ++ ("]" : Text)

/-- How canonical names are written.  A scalar is asked for its selector name. -/
def canonicalRendering : Rendering Scalar Text where
  leaf := Scalar.name
  numbers := Scalar.numbers
  arrayOf name d := name ++ suffix d
  tuple := groupName
  leafCalls _ := 2
  arrayCalls := 1
  emptyCalls := 1
  tupleCalls := 3

/-- The selector name of a type, written within some room. -/
def selectorWithin (room : Nat) (t : AbiType) : Except Obstacle Text := selectorRendering.run room t

/-- The calls that lie in one another where the selector name is written. -/
def selectorCalls (t : AbiType) : Nat := selectorRendering.calls t

/-- The canonical name of a type, written within some room. -/
def canonicalWithin (room : Nat) (t : AbiType) : Except Obstacle Text :=
  canonicalRendering.run room t

/-- The calls that lie in one another where the canonical name is written. -/
def canonicalCalls (t : AbiType) : Nat := canonicalRendering.calls t

mutual

/-- Whether a type is dynamic, as far as there is room to find out.  No part is asked once the
answer is known: an array of any length answers for its element, and a dynamic element for those
behind it in its tuple. -/
def isDynamicWithin : (room : Nat) → AbiType → Except Obstacle Bool
  | room, .leaf s => enter 1 room fun _ => pure s.isDynamic
  | room, .array _ => enter 1 room fun _ => pure true
  | room, .fixedArray t _ => enter 1 room fun room => isDynamicWithin room t
  | room, .tuple ts => enter 3 room fun room => anyDynamicWithin room ts

/-- Whether some type of a list is dynamic. -/
def anyDynamicWithin : (room : Nat) → List AbiType → Except Obstacle Bool
  | _, [] => pure false
  | room, t :: ts => do
    if ← isDynamicWithin room t then pure true else anyDynamicWithin room ts

end

end AbiType

end ContractAbi
