import ContractAbi.AbiType

/-!
# Bounds of types

A type can be written whatever its size, but it is read back within bounds only.

* Tuples nest.  `bracketDepth` counts those that a name spells with brackets, and `tupleDepth` all
  of them; the two differ by the empty tuple, which has a word of its own.
* Widths and lengths have digits, and a type is `NumbersFit` if none of its numbers has more than
  are read.
-/

namespace ContractAbi

/-- The greatest of some numbers is bounded as all of them are. -/
theorem foldr_max_le_iff {ns : List Nat} {n : Nat} : ns.foldr max 0 ≤ n ↔ ∀ m ∈ ns, m ≤ n := by
  induction ns with
  | nil => simp
  | cons m ns ih => rw [List.foldr_cons, Nat.max_le, ih, List.forall_mem_cons]

/-- What is measured of one of some things is at most the greatest. -/
theorem le_foldr_max {α : Type} (f : α → Nat) {l : List α} {a : α} (h : a ∈ l) :
    f a ≤ (l.map f).foldr max 0 :=
  foldr_max_le_iff.mp (Nat.le_refl _) _ (List.mem_map_of_mem h)

namespace AbiType

/-! ## 1. Depth -/

mutual

/-- The number of tuples in one another, where a tuple without elements does not count: it has a
name of its own, without brackets. -/
def bracketDepth : AbiType → Nat
  | .leaf _ => 0
  | .array t => bracketDepth t
  | .fixedArray t _ => bracketDepth t
  | .tuple [] => 0
  | .tuple (t :: ts) => max (bracketDepth t) (bracketDepths ts) + 1

/-- The greatest depth among several types. -/
def bracketDepths : List AbiType → Nat
  | [] => 0
  | t :: ts => max (bracketDepth t) (bracketDepths ts)

end

@[simp] theorem bracketDepths_eq (ts : List AbiType) :
    bracketDepths ts = (ts.map bracketDepth).foldr max 0 := by
  induction ts with
  | nil => rfl
  | cons t ts ih => rw [bracketDepths, ih, List.map_cons, List.foldr_cons]

/-- A tuple with elements is one level deeper than the deepest of them. -/
theorem bracketDepth_tuple {ts : List AbiType} (h : ts ≠ []) :
    bracketDepth (.tuple ts) = (ts.map bracketDepth).foldr max 0 + 1 := by
  obtain ⟨t, ts, rfl⟩ := List.exists_cons_of_ne_nil h
  rw [bracketDepth, bracketDepths_eq, List.map_cons, List.foldr_cons]

mutual

/-- The number of tuples in one another, empty ones included. -/
def tupleDepth : AbiType → Nat
  | .leaf _ => 0
  | .array t => tupleDepth t
  | .fixedArray t _ => tupleDepth t
  | .tuple ts => tupleDepths ts + 1

/-- The greatest depth among several types. -/
def tupleDepths : List AbiType → Nat
  | [] => 0
  | t :: ts => max (tupleDepth t) (tupleDepths ts)

end

@[simp] theorem tupleDepths_eq (ts : List AbiType) :
    tupleDepths ts = (ts.map tupleDepth).foldr max 0 := by
  induction ts with
  | nil => rfl
  | cons t ts ih => rw [tupleDepths, ih, List.map_cons, List.foldr_cons]

/-! ## 2. Numbers -/

mutual

/-- The widths and lengths that the type states. -/
def numbers : AbiType → List Nat
  | .leaf (.int n) | .leaf (.uint n) | .leaf (.fixedBytes n) => [n]
  | .leaf _ => []
  | .array t => numbers t
  | .fixedArray t n => n :: numbers t
  | .tuple ts => numbersAll ts

/-- The widths and lengths of several types. -/
def numbersAll : List AbiType → List Nat
  | [] => []
  | t :: ts => numbers t ++ numbersAll ts

end

@[simp] theorem numbersAll_eq (ts : List AbiType) : numbersAll ts = ts.flatMap numbers := by
  induction ts with
  | nil => rfl
  | cons t ts ih => simp [numbersAll, ih]

/-- No width and no length has more digits than are read. -/
def NumbersFit (t : AbiType) : Prop :=
  ∀ n ∈ t.numbers, (Decimal.render n).length ≤ Decimal.digitLimit

instance (t : AbiType) : Decidable (NumbersFit t) :=
  inferInstanceAs (Decidable (∀ n ∈ t.numbers, (Decimal.render n).length ≤ Decimal.digitLimit))

theorem numbersFit_array {t : AbiType} : NumbersFit (.array t) ↔ NumbersFit t := by
  rw [NumbersFit, numbers, NumbersFit]

theorem numbersFit_fixedArray {t : AbiType} {n : Nat} :
    NumbersFit (.fixedArray t n) ↔
      (Decimal.render n).length ≤ Decimal.digitLimit ∧ NumbersFit t := by
  rw [NumbersFit, numbers, List.forall_mem_cons, NumbersFit]

theorem numbersFit_tuple {ts : List AbiType} :
    NumbersFit (.tuple ts) ↔ ∀ t ∈ ts, NumbersFit t := by
  simp only [NumbersFit, numbers, numbersAll_eq, List.mem_flatMap]
  exact ⟨fun h t ht n hn => h n ⟨t, ht, hn⟩, fun h n ⟨t, ht, hn⟩ => h t ht n hn⟩

end AbiType

end ContractAbi
