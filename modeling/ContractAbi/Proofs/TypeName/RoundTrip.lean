import ContractAbi.Proofs.AbiType.Written
import ContractAbi.Proofs.TypeName.Reading

/-!
# Canonical names are read back

The canonical name of a type is derived for the type (`derives_canonical`), so that reading it back
is a case of the completeness of the reader: nothing is left to show but that the name keeps to the
bounds of the reader if its type does (`runsFit_canonical`).  But the name has to be written first,
and that may take more room than there is (`read_canonicalWithin`).
-/

namespace ContractAbi.TypeName

open Text (RunsFit)

/-! ## 1. Canonical names are derived -/

/-- The name of a scalar is a word. -/
theorem word_name {s : Scalar} (wf : s.WellFormed) : Word s.name (.leaf s) := by
  have hsized : ∀ (k : Sized) {n : Nat}, 0 < n →
      Word (k.keyword ++ Decimal.render n) (.leaf (k.scalar n)) := by
    intro k n hn
    have hword := Word.sized k (Decimal.isNumeral_render n)
    rw [Decimal.value_render] at hword
    exact hword hn
  cases s with
  | address => exact .address
  | bool => exact .bool
  | string => exact .string
  | bytes => exact .bytes
  | int n => exact hsized .int wf
  | uint n => exact hsized .uint wf
  | fixedBytes n => exact hsized .fixedBytes wf

/-- **The canonical name of a type is derived for the type.** -/
theorem derives_canonical {t : AbiType} (wf : t.WellFormed) : Derives t.canonical t := by
  induction t using TypeTree.induction with
  | leaf s =>
    rw [AbiType.canonical]
    exact .word (word_name (AbiType.wellFormed_leaf.mp wf))
  | array t ih =>
    rw [AbiType.canonical]
    exact .array (ih (AbiType.wellFormed_array.mp wf))
  | fixedArray t n ih =>
    have hder := (ih (AbiType.wellFormed_fixedArray.mp wf)).fixedArray (Decimal.isNumeral_render n)
    rw [Decimal.value_render, List.append_assoc, List.append_assoc] at hder
    rw [AbiType.canonical, AbiType.suffix, List.append_assoc]
    exact hder
  | tuple ts ih =>
    cases ts with
    | nil =>
      rw [AbiType.canonical]
      exact .word .tuple
    | cons t ts =>
      have hder := @Derives.tuple '[' ']' ((t :: ts).map fun u => (u.canonical, u))
        (List.mem_cons_self ..) (by simp) fun e he => by
          obtain ⟨u, hu, rfl⟩ := List.mem_map.mp he
          exact ih u hu (AbiType.wellFormed_tuple.mp wf u hu)
      rw [List.map_map, List.map_map] at hder
      rw [AbiType.canonical, AbiType.canonicals_eq]
      simpa [Function.comp_def, Text.ofString] using hder

/-! ## 2. Canonical names keep to the bounds -/

/-- The name of a scalar has no run of digits but its width. -/
theorem runsFit_name {s : Scalar} (fit : AbiType.NumbersFit (.leaf s)) : RunsFit s.name := by
  have hsized : ∀ (k : Sized) {n : Nat}, (Decimal.render n).length ≤ Decimal.digitLimit →
      RunsFit (k.keyword ++ Decimal.render n) := by
    intro k n hn
    obtain ⟨front, c, hk, hlen, hc⟩ : ∃ front c, k.keyword = front ++ [c] ∧
        front.length ≤ Decimal.digitLimit ∧ Decimal.isDigit c = false := by
      cases k with
      | uint => exact ⟨"uin", 't', rfl, by decide, rfl⟩
      | int => exact ⟨"in", 't', rfl, by decide, rfl⟩
      | fixedBytes => exact ⟨"byte", 's', rfl, by decide, rfl⟩
    rw [hk, List.append_assoc]
    exact (Text.runsFit_of_length hlen).append_cons hc (Text.runsFit_of_length hn)
  cases s with
  | int n => exact hsized .int (fit n (by simp [AbiType.numbers]))
  | uint n => exact hsized .uint (fit n (by simp [AbiType.numbers]))
  | fixedBytes n => exact hsized .fixedBytes (fit n (by simp [AbiType.numbers]))
  | _ => exact Text.runsFit_of_length (by decide)

/-- **The canonical name of a type has no longer numbers than the type.** -/
theorem runsFit_canonical {t : AbiType} (fit : t.NumbersFit) : RunsFit t.canonical := by
  have hnil : RunsFit [] := Text.runsFit_of_length (Nat.zero_le _)
  induction t using TypeTree.induction with
  | leaf s =>
    rw [AbiType.canonical]
    exact runsFit_name fit
  | array t ih =>
    rw [AbiType.canonical]
    exact (ih (AbiType.numbersFit_array.mp fit)).append_cons rfl (hnil.append_cons rfl hnil)
  | fixedArray t n ih =>
    obtain ⟨hn, fit⟩ := AbiType.numbersFit_fixedArray.mp fit
    rw [AbiType.canonical, AbiType.suffix, List.append_assoc]
    exact (ih fit).append_cons rfl ((Text.runsFit_of_length hn).append_cons rfl hnil)
  | tuple ts ih =>
    cases ts with
    | nil => exact Text.runsFit_of_length (by decide)
    | cons t ts =>
      rw [AbiType.canonical, AbiType.canonicals_eq, List.append_assoc]
      refine hnil.append_cons rfl (RunsFit.append_cons ?_ rfl hnil)
      refine Text.runsFit_join rfl fun p hp => ?_
      rw [← List.map_cons] at hp
      obtain ⟨u, hu, rfl⟩ := List.mem_map.mp hp
      exact ih u hu (AbiType.numbersFit_tuple.mp fit u hu)

/-! ## 3. Reading back -/

theorem readAt_canonical {t : AbiType} (wf : t.WellFormed) (fit : t.NumbersFit) {limit : Nat}
    (nesting : t.bracketDepth ≤ limit) (depth : Int) :
    readAt .unlimited t.canonical depth limit = .ok t :=
  readWithin_of_derives (derives_canonical wf) (runsFit_canonical fit) nesting depth

/-- **The canonical name of a type is read as the type, where there is room to write it.**  The
reader takes as many tuples in one another as it may; where there is no room for the name, it is not
written. -/
theorem read_canonicalWithin {t : AbiType} (wf : t.WellFormed) (fit : t.NumbersFit) {limit : Nat}
    (nesting : t.bracketDepth ≤ limit) (room : Nat) :
    (t.canonicalCalls ≤ room →
        ∃ name, t.canonicalWithin room = .ok name ∧ read .unlimited name limit = .ok t) ∧
      (room < t.canonicalCalls → t.canonicalWithin room = .error .nesting) := by
  rw [AbiType.canonicalWithin_of_fits fit]
  refine ⟨fun h => ⟨t.canonical, if_pos h, readAt_canonical wf fit nesting 0⟩, fun h => ?_⟩
  exact if_neg (Nat.not_le.mpr h)

/-- Arrays over a tuple that holds an empty tuple and an array of its own. -/
theorem read_canonicalWithin_nested :
    let t : AbiType := .array (.fixedArray (.tuple [.tuple [], .array (.leaf (.uint 8))]) 0)
    t.WellFormed ∧ t.NumbersFit ∧ t.bracketDepth ≤ 1 ∧
      t.canonicalWithin 8 = .ok "[tuple,uint8[]][0][]" ∧
      read .unlimited "[tuple,uint8[]][0][]" 1 = .ok t ∧
      t.canonicalWithin 7 = .error .nesting := by
  intro t
  have wf : t.WellFormed := by decide
  have fit : t.NumbersFit := by decide +kernel
  have nesting : t.bracketDepth ≤ 1 := by decide
  have hname : t.canonicalWithin 8 = .ok "[tuple,uint8[]][0][]" :=
    Outcome.toOption_eq_some_iff.mp (by decide +kernel)
  obtain ⟨name, hwritten, hread⟩ := (read_canonicalWithin wf fit nesting 8).1 (by decide)
  cases hwritten.symm.trans hname
  exact ⟨wf, fit, nesting, hname, hread, (read_canonicalWithin wf fit nesting 7).2 (by decide)⟩

/-- An array of many dimensions has no tuples in one another, and still no canonical name that could
be read. -/
theorem not_read_deepArray :
    AbiType.deepArray.WellFormed ∧ AbiType.deepArray.NumbersFit ∧
      AbiType.deepArray.bracketDepth = 0 ∧
      ¬ ∃ name, AbiType.deepArray.canonicalWithin callRoom = .ok name ∧
        read .unlimited name = .ok AbiType.deepArray := by
  refine ⟨AbiType.wellFormed_deepArray, AbiType.numbersFit_deepArray,
    AbiType.bracketDepth_deepArray, ?_⟩
  rintro ⟨name, hname, -⟩
  rw [AbiType.canonicalWithin_deepArray] at hname
  cases hname

end ContractAbi.TypeName
