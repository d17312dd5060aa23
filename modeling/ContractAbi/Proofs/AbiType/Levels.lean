import ContractAbi.Proofs.AbiType.Bounds

/-!
# Levels of nesting

How deep a type nests is what a ceiling bounds: every array dimension and every tuple is a level,
and `levels` counts those on the deepest path.

A name does not spell all of them.  The empty tuple is a word like any other, and `spelledLevels`
counts the levels that a name spells with brackets.  The two differ by no more than that
(`levels_eq_spelledLevels`), and what a name spells is never deeper than the type
(`spelledLevels_le_levels`).
-/

namespace ContractAbi

/-- Behind some depth all of some numbers stay within a bound, if there are any, exactly if the
greatest of them does. -/
theorem add_foldr_max_le_iff {α : Type} {f : α → Nat} {l : List α} (hne : l ≠ []) {d m : Int} :
    d + ((l.map f).foldr max 0 : Nat) ≤ m ↔ ∀ a ∈ l, d + f a ≤ m := by
  constructor
  · intro h a ha
    have hle := le_foldr_max f ha
    omega
  · intro h
    obtain ⟨a, l, rfl⟩ := List.exists_cons_of_ne_nil hne
    have hd : d ≤ m := by
      have ha := h a (List.mem_cons_self ..)
      omega
    have hle : ((a :: l).map f).foldr max 0 ≤ (m - d).toNat := by
      rw [foldr_max_le_iff]
      intro n hn
      obtain ⟨b, hb, rfl⟩ := List.mem_map.mp hn
      have hb' := h b hb
      omega
    omega

/-- The greatest of some numbers grows with each of them. -/
theorem foldr_max_le_foldr_max {α : Type} {f g : α → Nat} {l : List α}
    (h : ∀ a ∈ l, f a ≤ g a) : (l.map f).foldr max 0 ≤ (l.map g).foldr max 0 := by
  rw [foldr_max_le_iff]
  intro n hn
  obtain ⟨a, ha, rfl⟩ := List.mem_map.mp hn
  exact Nat.le_trans (h a ha) (le_foldr_max g ha)

namespace AbiType

/-! ## 1. All levels -/

mutual

/-- The array dimensions and tuples on the deepest path through a type, empty tuples included. -/
def levels : AbiType → Nat
  | .leaf _ => 0
  | .array t => levels t + 1
  | .fixedArray t _ => levels t + 1
  | .tuple ts => levelsAll ts + 1

/-- The greatest number of levels among several types. -/
def levelsAll : List AbiType → Nat
  | [] => 0
  | t :: ts => max (levels t) (levelsAll ts)

end

@[simp] theorem levelsAll_eq (ts : List AbiType) :
    levelsAll ts = (ts.map levels).foldr max 0 := by
  induction ts with
  | nil => rfl
  | cons t ts ih => rw [levelsAll, ih, List.map_cons, List.foldr_cons]

theorem levels_tuple (ts : List AbiType) :
    levels (.tuple ts) = (ts.map levels).foldr max 0 + 1 := by
  rw [levels, levelsAll_eq]

/-- What is no array of tuples has no levels but its dimensions. -/
theorem levels_of_isTuple {t : AbiType} (h : t.element.isTuple = false) :
    t.levels = t.dims.length := by
  induction t using TypeTree.induction with
  | leaf s => rfl
  | array t ih => exact congrArg (· + 1) (ih h)
  | fixedArray t n ih => exact congrArg (· + 1) (ih h)
  | tuple ts _ => cases h

/-- The levels of the innermost tuple lie below the dimensions over it. -/
theorem levels_of_element {t : AbiType} {ts : List AbiType} (h : t.element = .tuple ts) :
    t.levels = t.dims.length + 1 + (ts.map levels).foldr max 0 := by
  have hstep : ∀ {n k l : Nat}, n = k + 1 + l → n + 1 = k + 1 + 1 + l := by omega
  induction t using TypeTree.induction with
  | leaf s => cases h
  | array t ih => exact hstep (ih h)
  | fixedArray t n ih => exact hstep (ih h)
  | tuple us _ =>
    cases h
    rw [levels_tuple, TypeTree.dims, List.length_nil]
    omega

/-! ## 2. The levels that a name spells -/

mutual

/-- The array suffixes and brackets around tuples on the deepest path through the name of a type.
The empty tuple has neither. -/
def spelledLevels : AbiType → Nat
  | .leaf _ => 0
  | .array t => spelledLevels t + 1
  | .fixedArray t _ => spelledLevels t + 1
  | .tuple [] => 0
  | .tuple (t :: ts) => max (spelledLevels t) (spelledLevelsAll ts) + 1

/-- The greatest number of spelled levels among several types. -/
def spelledLevelsAll : List AbiType → Nat
  | [] => 0
  | t :: ts => max (spelledLevels t) (spelledLevelsAll ts)

end

@[simp] theorem spelledLevelsAll_eq (ts : List AbiType) :
    spelledLevelsAll ts = (ts.map spelledLevels).foldr max 0 := by
  induction ts with
  | nil => rfl
  | cons t ts ih => rw [spelledLevelsAll, ih, List.map_cons, List.foldr_cons]

/-- A tuple with elements is spelled one level around the deepest of them. -/
theorem spelledLevels_tuple {ts : List AbiType} (h : ts ≠ []) :
    spelledLevels (.tuple ts) = (ts.map spelledLevels).foldr max 0 + 1 := by
  obtain ⟨t, ts, rfl⟩ := List.exists_cons_of_ne_nil h
  rw [spelledLevels, spelledLevelsAll_eq, List.map_cons, List.foldr_cons]

/-- An array suffix is one level, whatever it is a suffix of. -/
theorem spelledLevels_arrayOf (t : AbiType) (d : TypeTree.Dimension) :
    spelledLevels (TypeTree.arrayOf t d) = spelledLevels t + 1 := by
  cases d <;> rfl

/-- **A name spells no more levels than the type has.** -/
theorem spelledLevels_le_levels (t : AbiType) : t.spelledLevels ≤ t.levels := by
  induction t using TypeTree.induction with
  | leaf s => exact Nat.le_refl _
  | array t ih => exact Nat.succ_le_succ ih
  | fixedArray t n ih => exact Nat.succ_le_succ ih
  | tuple ts ih =>
    by_cases hne : ts = []
    · subst hne
      exact Nat.zero_le _
    · rw [spelledLevels_tuple hne, levels_tuple]
      exact Nat.succ_le_succ (foldr_max_le_foldr_max ih)

/-- Brackets are spelled around tuples only, and not around all of them. -/
theorem bracketDepth_le_tupleDepth (t : AbiType) : t.bracketDepth ≤ t.tupleDepth := by
  induction t using TypeTree.induction with
  | leaf s => exact Nat.le_refl _
  | array t ih => exact ih
  | fixedArray t n ih => exact ih
  | tuple ts ih =>
    by_cases hne : ts = []
    · subst hne
      exact Nat.zero_le _
    · rw [bracketDepth_tuple hne, tupleDepth, tupleDepths_eq]
      exact Nat.succ_le_succ (foldr_max_le_foldr_max ih)

/-! ## 3. Empty tuples -/

mutual

/-- Whether a tuple without elements stands anywhere in a type. -/
def hasEmptyTuple : AbiType → Bool
  | .leaf _ => false
  | .array t => hasEmptyTuple t
  | .fixedArray t _ => hasEmptyTuple t
  | .tuple [] => true
  | .tuple (t :: ts) => hasEmptyTuple t || anyEmptyTuple ts

/-- Whether one stands in any of several types. -/
def anyEmptyTuple : List AbiType → Bool
  | [] => false
  | t :: ts => hasEmptyTuple t || anyEmptyTuple ts

end

@[simp] theorem anyEmptyTuple_eq (ts : List AbiType) :
    anyEmptyTuple ts = ts.any hasEmptyTuple := by
  induction ts with
  | nil => rfl
  | cons t ts ih => rw [anyEmptyTuple, ih, List.any_cons]

/-- A tuple holds no empty tuple if it has elements and none of these holds one. -/
theorem hasEmptyTuple_tuple {ts : List AbiType} :
    hasEmptyTuple (.tuple ts) = false ↔ ts ≠ [] ∧ ∀ t ∈ ts, hasEmptyTuple t = false := by
  cases ts with
  | nil => simp [hasEmptyTuple]
  | cons t ts => simp [hasEmptyTuple]

/-- **Without empty tuples a name spells every level.** -/
theorem levels_eq_spelledLevels {t : AbiType} (h : t.hasEmptyTuple = false) :
    t.levels = t.spelledLevels := by
  induction t using TypeTree.induction with
  | leaf s => rfl
  | array t ih => exact congrArg (· + 1) (ih h)
  | fixedArray t n ih => exact congrArg (· + 1) (ih h)
  | tuple ts ih =>
    obtain ⟨hne, hts⟩ := hasEmptyTuple_tuple.mp h
    rw [levels_tuple, spelledLevels_tuple hne, List.map_congr_left fun t ht => ih t ht (hts t ht)]

end AbiType

end ContractAbi
