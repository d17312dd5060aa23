import ContractAbi.Obstacle
import ContractAbi.TypeTree

/-!
# Renderings of trees

A tree is rendered from the inside out: first its parts and then, from what became of these, the
tree.  All renderings go through a tree in the same way.  They differ in what becomes of a leaf, an
array and a tuple, and in the number of calls that lie in one another for it; so a `Rendering` says
just that.

`Rendering.run` is the recursion, which obstacles may stop, and `Rendering.result` is what becomes
of a tree where none does.
-/

namespace ContractAbi

/-- A way to make something of type `β` from trees with leaves of type `α`. -/
structure Rendering (α β : Type) where
  leaf : α → β
  /-- The whole numbers that are written for a leaf. -/
  numbers : α → List Nat
  /-- An array of one dimension over what was rendered. -/
  arrayOf : β → TypeTree.Dimension → β
  tuple : List β → β
  /-- The calls for a leaf. -/
  leafCalls : α → Nat
  /-- The calls for an array, in which its element is rendered. -/
  arrayCalls : Nat
  /-- The calls for a tuple without elements. -/
  emptyCalls : Nat
  /-- The calls for a tuple, in which its elements are rendered. -/
  tupleCalls : Nat

namespace Rendering

variable {α β : Type}

/-! ## 1. Without obstacles -/

mutual

/-- What becomes of a tree. -/
def result (r : Rendering α β) : TypeTree α → β
  | .leaf a => r.leaf a
  | .array t => r.arrayOf (result r t) none
  | .fixedArray t n => r.arrayOf (result r t) (some n)
  | .tuple ts => r.tuple (results r ts)

/-- What becomes of several trees. -/
def results (r : Rendering α β) : List (TypeTree α) → List β
  | [] => []
  | t :: ts => result r t :: results r ts

end

@[simp] theorem results_eq (r : Rendering α β) (ts : List (TypeTree α)) :
    r.results ts = ts.map r.result := by
  induction ts with
  | nil => rfl
  | cons t ts ih => rw [results, ih, List.map_cons]

/-! ## 2. With obstacles -/

mutual

/-- Renders a tree within some room.  A length is looked at when the element has been rendered. -/
def run (r : Rendering α β) : (room : Nat) → TypeTree α → Except Obstacle β
  | room, .leaf a => enter (r.leafCalls a) room fun _ => do
    (r.numbers a).forM Decimal.check
    pure (r.leaf a)
  | room, .array t => enter r.arrayCalls room fun room => do
    let b ← run r room t
    pure (r.arrayOf b none)
  | room, .fixedArray t n => enter r.arrayCalls room fun room => do
    let b ← run r room t
    Decimal.check n
    pure (r.arrayOf b (some n))
  | room, .tuple [] => enter r.emptyCalls room fun _ => pure (r.tuple [])
  | room, .tuple (t :: ts) => enter r.tupleCalls room fun room => do
    let b ← run r room t
    let bs ← runAll r room ts
    pure (r.tuple (b :: bs))

/-- Renders several trees, from left to right. -/
def runAll (r : Rendering α β) : (room : Nat) → List (TypeTree α) → Except Obstacle (List β)
  | _, [] => pure []
  | room, t :: ts => do
    let b ← run r room t
    let bs ← runAll r room ts
    pure (b :: bs)

end

/-! ## 3. What a tree takes -/

mutual

/-- The calls that lie in one another where a tree is rendered. -/
def calls (r : Rendering α β) : TypeTree α → Nat
  | .leaf a => r.leafCalls a
  | .array t => r.arrayCalls + calls r t
  | .fixedArray t _ => r.arrayCalls + calls r t
  | .tuple [] => r.emptyCalls
  | .tuple (t :: ts) => r.tupleCalls + max (calls r t) (callsAll r ts)

/-- The calls that lie in one another where several trees are rendered. -/
def callsAll (r : Rendering α β) : List (TypeTree α) → Nat
  | [] => 0
  | t :: ts => max (calls r t) (callsAll r ts)

end

mutual

/-- The whole numbers that are written for a tree. -/
def numbersOf (r : Rendering α β) : TypeTree α → List Nat
  | .leaf a => r.numbers a
  | .array t => numbersOf r t
  | .fixedArray t n => n :: numbersOf r t
  | .tuple ts => numbersOfAll r ts

/-- The whole numbers that are written for several trees. -/
def numbersOfAll (r : Rendering α β) : List (TypeTree α) → List Nat
  | [] => []
  | t :: ts => numbersOf r t ++ numbersOfAll r ts

end

@[simp] theorem callsAll_eq (r : Rendering α β) (ts : List (TypeTree α)) :
    r.callsAll ts = (ts.map r.calls).foldr max 0 := by
  induction ts with
  | nil => rfl
  | cons t ts ih => rw [callsAll, ih, List.map_cons, List.foldr_cons]

@[simp] theorem numbersOfAll_eq (r : Rendering α β) (ts : List (TypeTree α)) :
    r.numbersOfAll ts = ts.flatMap r.numbersOf := by
  induction ts with
  | nil => rfl
  | cons t ts ih => rw [numbersOfAll, ih, List.flatMap_cons]

end Rendering

end ContractAbi
