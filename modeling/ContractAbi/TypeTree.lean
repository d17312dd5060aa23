/-!
# Trees of types

A type is built from leaves by arrays of any length, arrays of a fixed length and tuples.  What the
leaves are is left open: the types of a contract have scalars as leaves (`AbiType`), and a type that
is still being put together may have holes (`Draft`).

* `TypeTree.induction` is induction on a tree, with the elements of a tuple as smaller trees.
* `TypeTree.dims` and `TypeTree.element` take the array dimensions off a tree and
  `TypeTree.wrap` puts dimensions back on; `wrap_dims_element` says that nothing is lost between.
-/

namespace ContractAbi

/-! ## 1. Trees -/

/-- Types over the leaves `α`. -/
inductive TypeTree (α : Type) where
  /-- A type without parts. -/
  | leaf (a : α)
  /-- An array of any length. -/
  | array (elem : TypeTree α)
  /-- An array of one length. -/
  | fixedArray (elem : TypeTree α) (length : Nat)
  /-- A tuple, possibly empty. -/
  | tuple (elems : List (TypeTree α))

namespace TypeTree

variable {α β : Type}

/-- Induction on a tree: a tuple may assume the statement for each of its elements. -/
@[elab_as_elim]
theorem induction {P : TypeTree α → Prop} (leaf : ∀ a, P (.leaf a))
    (array : ∀ e, P e → P (.array e)) (fixedArray : ∀ e n, P e → P (.fixedArray e n))
    (tuple : ∀ es, (∀ e ∈ es, P e) → P (.tuple es)) : ∀ t, P t
  | .leaf a => leaf a
  | .array e => array e (induction leaf array fixedArray tuple e)
  | .fixedArray e n => fixedArray e n (induction leaf array fixedArray tuple e)
  | .tuple es => tuple es fun e _ => induction leaf array fixedArray tuple e

/-! ## 2. Equality is decidable -/

section

variable [DecidableEq α]

mutual

/-- Decides whether two trees are equal. -/
def decEq : (s t : TypeTree α) → Decidable (s = t)
  | .leaf a, .leaf b => decidable_of_iff (a = b) (by simp)
  | .array d, .array e =>
    match decEq d e with
    | isTrue h => isTrue (h ▸ rfl)
    | isFalse h => isFalse fun he => h (TypeTree.array.inj he)
  | .fixedArray d m, .fixedArray e n =>
    match decEq d e, Nat.decEq m n with
    | isTrue h, isTrue h' => isTrue (h ▸ h' ▸ rfl)
    | isFalse h, _ => isFalse fun he => h (TypeTree.fixedArray.inj he).1
    | _, isFalse h => isFalse fun he => h (TypeTree.fixedArray.inj he).2
  | .tuple ds, .tuple es =>
    match decEqAll ds es with
    | isTrue h => isTrue (h ▸ rfl)
    | isFalse h => isFalse fun he => h (TypeTree.tuple.inj he)
  | .leaf _, .array _ | .leaf _, .fixedArray _ _ | .leaf _, .tuple _
  | .array _, .leaf _ | .array _, .fixedArray _ _ | .array _, .tuple _
  | .fixedArray _ _, .leaf _ | .fixedArray _ _, .array _ | .fixedArray _ _, .tuple _
  | .tuple _, .leaf _ | .tuple _, .array _ | .tuple _, .fixedArray _ _ => isFalse nofun

/-- Decides whether two lists of trees are equal. -/
def decEqAll : (ss ts : List (TypeTree α)) → Decidable (ss = ts)
  | [], [] => isTrue rfl
  | s :: ss, t :: ts =>
    match decEq s t, decEqAll ss ts with
    | isTrue h, isTrue h' => isTrue (h ▸ h' ▸ rfl)
    | isFalse h, _ => isFalse fun he => h (List.cons.inj he).1
    | _, isFalse h => isFalse fun he => h (List.cons.inj he).2
  | [], _ :: _ | _ :: _, [] => isFalse nofun

end

instance : DecidableEq (TypeTree α) := decEq

end

/-! ## 3. Leaves -/

mutual

/-- The leaves from left to right. -/
def leaves : TypeTree α → List α
  | .leaf a => [a]
  | .array e => e.leaves
  | .fixedArray e _ => e.leaves
  | .tuple es => leavesAll es

/-- The leaves of several trees. -/
def leavesAll : List (TypeTree α) → List α
  | [] => []
  | t :: ts => t.leaves ++ leavesAll ts

end

@[simp] theorem leavesAll_eq (ts : List (TypeTree α)) : leavesAll ts = ts.flatMap leaves := by
  induction ts with
  | nil => rfl
  | cons t ts ih => simp [leavesAll, ih]

mutual

/-- The tree over other leaves, if every leaf has an image. -/
def mapM? (f : α → Option β) : TypeTree α → Option (TypeTree β)
  | .leaf a => (f a).map .leaf
  | .array e => (e.mapM? f).map .array
  | .fixedArray e n => (e.mapM? f).map (.fixedArray · n)
  | .tuple es => (mapAllM? f es).map .tuple

/-- The trees over other leaves, if every leaf has an image. -/
def mapAllM? (f : α → Option β) : List (TypeTree α) → Option (List (TypeTree β))
  | [] => some []
  | t :: ts => (t.mapM? f).bind fun u => (mapAllM? f ts).map (u :: ·)

end

mutual

/-- The tree over other leaves. -/
def map (f : α → β) : TypeTree α → TypeTree β
  | .leaf a => .leaf (f a)
  | .array e => .array (e.map f)
  | .fixedArray e n => .fixedArray (e.map f) n
  | .tuple es => .tuple (mapAll f es)

/-- The trees over other leaves. -/
def mapAll (f : α → β) : List (TypeTree α) → List (TypeTree β)
  | [] => []
  | t :: ts => t.map f :: mapAll f ts

end

@[simp] theorem mapAll_eq (f : α → β) (ts : List (TypeTree α)) : mapAll f ts = ts.map (map f) := by
  induction ts with
  | nil => rfl
  | cons t ts ih => simp [mapAll, ih]

/-! ## 4. Array dimensions -/

/-- One array dimension: its length, or `none` for any length. -/
abbrev Dimension := Option Nat

/-- The array of one dimension over a tree. -/
def arrayOf (t : TypeTree α) : Dimension → TypeTree α
  | none => .array t
  | some n => .fixedArray t n

/-- The array dimensions on top of a tree, outermost first. -/
def dims : TypeTree α → List Dimension
  | .array e => none :: e.dims
  | .fixedArray e n => some n :: e.dims
  | .leaf _ | .tuple _ => []

/-- What the array dimensions on top of a tree are dimensions of. -/
def element : TypeTree α → TypeTree α
  | .array e => e.element
  | .fixedArray e _ => e.element
  | .leaf a => .leaf a
  | .tuple es => .tuple es

/-- Puts dimensions on a tree, the first of the list outermost. -/
def wrap (ds : List Dimension) (t : TypeTree α) : TypeTree α := ds.foldr (fun d u => arrayOf u d) t

@[simp] theorem wrap_nil (t : TypeTree α) : wrap [] t = t := rfl

@[simp] theorem wrap_cons (d : Dimension) (ds : List Dimension) (t : TypeTree α) :
    wrap (d :: ds) t = arrayOf (wrap ds t) d := rfl

/-- A tree is its element under its dimensions. -/
@[simp] theorem wrap_dims_element (t : TypeTree α) : wrap t.dims t.element = t := by
  induction t using induction with
  | leaf a => rfl
  | array e ih => simp [dims, element, arrayOf, ih]
  | fixedArray e n ih => simp [dims, element, arrayOf, ih]
  | tuple es _ => rfl

/-- An element is no array. -/
@[simp] theorem dims_element (t : TypeTree α) : t.element.dims = [] := by
  induction t using induction with
  | leaf a => rfl
  | array e ih => simpa [element] using ih
  | fixedArray e n ih => simpa [element] using ih
  | tuple es _ => rfl

/-- The dimensions on top of a wrapped tree are those put on, and then its own. -/
@[simp] theorem dims_wrap (ds : List Dimension) (t : TypeTree α) :
    (wrap ds t).dims = ds ++ t.dims := by
  induction ds with
  | nil => rfl
  | cons d ds ih => cases d <;> simp [arrayOf, dims, ih]

/-- Dimensions do not touch the element. -/
@[simp] theorem element_wrap (ds : List Dimension) (t : TypeTree α) :
    (wrap ds t).element = t.element := by
  induction ds with
  | nil => rfl
  | cons d ds ih => cases d <;> simp [arrayOf, element, ih]

/-- Whether a tree is a tuple. -/
def isTuple : TypeTree α → Bool
  | .tuple _ => true
  | _ => false

/-- Whether a tree has elements: arrays and tuples do, even empty ones. -/
def isComposite : TypeTree α → Bool
  | .leaf _ => false
  | _ => true

end TypeTree

end ContractAbi
