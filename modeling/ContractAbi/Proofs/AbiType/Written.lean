import ContractAbi.Draft
import ContractAbi.Descriptor
import ContractAbi.Proofs.TypeTree.Rendering

/-!
# What is written of a type

Names, descriptions and descriptors are renderings, so that they are written exactly if there is
room for the calls, as long as the numbers of the type fit (`selectorWithin_of_fits` and its like).
Whether a type is dynamic is found out in another way, since not every part is asked; but this takes
no more calls than the selector name (`dynamicCalls_le_selectorCalls`).

Since every array dimension takes a call, a type of many dimensions is not written at all
(`deepArray`).
-/

namespace ContractAbi

/-! ## 1. Without obstacles -/

/-- The numbers that are written for a type are those that it states. -/
theorem Rendering.numbersOf_eq {β : Type} {r : Rendering Scalar β} (h : r.numbers = Scalar.numbers)
    (t : AbiType) : r.numbersOf t = t.numbers := by
  induction t using TypeTree.induction with
  | leaf s =>
    rw [numbersOf, h]
    cases s <;> rfl
  | array t ih => exact ih
  | fixedArray t n ih => rw [numbersOf, ih, AbiType.numbers]
  | tuple ts ih =>
    rw [numbersOf, numbersOfAll_eq, AbiType.numbers, AbiType.numbersAll_eq, List.flatMap_def,
      List.flatMap_def, List.map_congr_left ih]

namespace AbiType

theorem result_selectorRendering (t : AbiType) : selectorRendering.result t = t.selector := by
  induction t using TypeTree.induction with
  | leaf s => rfl
  | array t ih => rw [Rendering.result, ih, selector]; rfl
  | fixedArray t n ih => rw [Rendering.result, ih, selector]; rfl
  | tuple ts ih =>
    rw [Rendering.result, Rendering.results_eq, List.map_congr_left ih, selector, selectors_eq]
    rfl

theorem result_canonicalRendering (t : AbiType) : canonicalRendering.result t = t.canonical := by
  induction t using TypeTree.induction with
  | leaf s => rfl
  | array t ih => rw [Rendering.result, ih, canonical]; rfl
  | fixedArray t n ih => rw [Rendering.result, ih, canonical]; rfl
  | tuple ts ih =>
    rw [Rendering.result, Rendering.results_eq, List.map_congr_left ih]
    cases ts with
    | nil => rfl
    | cons t ts =>
      rw [canonical, canonicals_eq, ← List.map_cons]
      rfl

end AbiType

theorem Descriptor.result_rendering (t : AbiType) : rendering.result t = ofType t := by
  induction t using TypeTree.induction with
  | leaf s => rfl
  | array t ih => rw [Rendering.result, ih, ofType]; rfl
  | fixedArray t n ih => rw [Rendering.result, ih, ofType]; rfl
  | tuple ts ih =>
    rw [Rendering.result, Rendering.results_eq, List.map_congr_left ih, ofType, ofTypes_eq]
    rfl

theorem Draft.result_textRendering (d : Draft) : textRendering.result d = d.text := by
  induction d using TypeTree.induction with
  | leaf a => rfl
  | array d ih => rw [Rendering.result, ih, text]; rfl
  | fixedArray d n ih => rw [Rendering.result, ih, text]; rfl
  | tuple ds ih =>
    rw [Rendering.result, Rendering.results_eq, List.map_congr_left ih, text, texts_eq]
    rfl

/-- A type without holes states the numbers of the type. -/
theorem Draft.numbersOf_ofType (t : AbiType) : textRendering.numbersOf (ofType t) = t.numbers := by
  induction t using TypeTree.induction with
  | leaf s => cases s <;> rfl
  | array t ih => exact ih
  | fixedArray t n ih => exact congrArg (n :: ·) ih
  | tuple ts ih =>
    rw [ofType, TypeTree.map, TypeTree.mapAll_eq, Rendering.numbersOf, Rendering.numbersOfAll_eq,
      AbiType.numbers, AbiType.numbersAll_eq, List.flatMap_def, List.flatMap_def, List.map_map,
      ← List.map_congr_left ih]
    rfl

/-! ## 2. Within some room -/

namespace AbiType

variable {t : AbiType} {room : Nat}

/-- **A selector name is written exactly if there is room for it.** -/
theorem selectorWithin_of_fits (fit : t.NumbersFit) (room : Nat) :
    t.selectorWithin room = if t.selectorCalls ≤ room then .ok t.selector else .error .nesting := by
  have hnumbers : selectorRendering.numbersOf t = t.numbers := Rendering.numbersOf_eq rfl t
  rw [selectorWithin, Rendering.run_of_fits (by rwa [hnumbers]), result_selectorRendering,
    selectorCalls]

/-- **A canonical name is written exactly if there is room for it.** -/
theorem canonicalWithin_of_fits (fit : t.NumbersFit) (room : Nat) :
    t.canonicalWithin room =
      if t.canonicalCalls ≤ room then .ok t.canonical else .error .nesting := by
  have hnumbers : canonicalRendering.numbersOf t = t.numbers := Rendering.numbersOf_eq rfl t
  rw [canonicalWithin, Rendering.run_of_fits (by rwa [hnumbers]), result_canonicalRendering,
    canonicalCalls]

/-- **A descriptor is made exactly if there is room for it.** -/
theorem describeWithin_of_fits (fit : t.NumbersFit) (room : Nat) :
    t.describeWithin room =
      if t.describeCalls ≤ room then .ok (Descriptor.ofType t) else .error .nesting := by
  have hnumbers : Descriptor.rendering.numbersOf t = t.numbers := Rendering.numbersOf_eq rfl t
  rw [describeWithin, Rendering.run_of_fits (by rwa [hnumbers]), Descriptor.result_rendering,
    describeCalls]

theorem toJsonWithin_of_fits (fit : t.NumbersFit) (room : Nat) (name : Option Text) :
    t.toJsonWithin room name =
      if t.describeCalls ≤ room then .ok (t.toJson name) else .error .nesting := by
  rw [toJsonWithin, describeWithin_of_fits fit]
  split <;> rfl

/-- What is written in spite of all obstacles is the selector name. -/
theorem eq_of_selectorWithin {name : Text} (h : t.selectorWithin room = .ok name) :
    name = t.selector :=
  (Rendering.eq_result_of_run h).trans (result_selectorRendering t)

theorem eq_of_canonicalWithin {name : Text} (h : t.canonicalWithin room = .ok name) :
    name = t.canonical :=
  (Rendering.eq_result_of_run h).trans (result_canonicalRendering t)

theorem eq_of_describeWithin {d : Descriptor} (h : t.describeWithin room = .ok d) :
    d = Descriptor.ofType t :=
  (Rendering.eq_result_of_run h).trans (Descriptor.result_rendering t)

theorem eq_of_toJsonWithin {name : Option Text} {j : Json}
    (h : t.toJsonWithin room name = .ok j) : j = t.toJson name := by
  obtain ⟨d, hd, hj⟩ := Outcome.bind_eq_ok_iff.mp h
  cases hj
  rw [eq_of_describeWithin hd]
  rfl

theorem eq_of_textWithin {d : Draft} {s : Text} (h : d.textWithin room = .ok s) : s = d.text :=
  (Rendering.eq_result_of_run h).trans (Draft.result_textRendering d)

/-! ## 3. Whether a type is dynamic -/

mutual

/-- The calls that lie in one another where it is found out whether a type is dynamic. -/
def dynamicCalls : AbiType → Nat
  | .leaf _ => 1
  | .array _ => 1
  | .fixedArray t _ => 1 + dynamicCalls t
  | .tuple ts => 3 + dynamicCallsAny ts

/-- The calls that lie in one another where it is found out whether some type is dynamic: those
behind the first that is are not asked. -/
def dynamicCallsAny : List AbiType → Nat
  | [] => 0
  | t :: ts => if isDynamic t then dynamicCalls t else max (dynamicCalls t) (dynamicCallsAny ts)

end

/-- Types of which it is found out one after another whether they are dynamic. -/
theorem anyDynamicWithin_eq {ts : List AbiType}
    (h : ∀ t ∈ ts, ∀ room, isDynamicWithin room t =
      if dynamicCalls t ≤ room then .ok t.isDynamic else .error .nesting) (room : Nat) :
    anyDynamicWithin room ts =
      if dynamicCallsAny ts ≤ room then .ok (anyDynamic ts) else .error .nesting := by
  induction ts with
  | nil => simp [anyDynamicWithin, dynamicCallsAny, anyDynamic, pure, Except.pure]
  | cons t ts ih =>
    rw [List.forall_mem_cons] at h
    rw [anyDynamicWithin, h.1, ih h.2, dynamicCallsAny, anyDynamic]
    by_cases hroom : dynamicCalls t ≤ room
    · rw [if_pos hroom]
      cases isDynamic t with
      | true =>
        rw [if_pos rfl, if_pos hroom]
        rfl
      | false =>
        have hiff : max (dynamicCalls t) (dynamicCallsAny ts) ≤ room ↔
            dynamicCallsAny ts ≤ room := by omega
        simp only [Bool.false_eq_true, if_false, Bool.false_or, hiff]
        rfl
    · have hle : dynamicCalls t ≤
          if isDynamic t then dynamicCalls t else max (dynamicCalls t) (dynamicCallsAny ts) := by
        split <;> omega
      rw [if_neg hroom, if_neg fun h => hroom (Nat.le_trans hle h)]
      rfl

/-- **Whether a type is dynamic is found out exactly if there is room for it.** -/
theorem isDynamicWithin_eq (t : AbiType) (room : Nat) :
    t.isDynamicWithin room =
      if t.dynamicCalls ≤ room then .ok t.isDynamic else .error .nesting := by
  induction t using TypeTree.induction generalizing room with
  | leaf s => rfl
  | array t _ => rfl
  | fixedArray t n ih =>
    rw [isDynamicWithin, dynamicCalls, isDynamic, ← enter_ite]
    exact congrArg (enter 1 room) (funext ih)
  | tuple ts ih =>
    rw [isDynamicWithin, dynamicCalls, isDynamic, ← enter_ite]
    exact congrArg (enter 3 room) (funext fun room => anyDynamicWithin_eq ih room)

/-- **This takes no more calls than the selector name.** -/
theorem dynamicCalls_le_selectorCalls (t : AbiType) : t.dynamicCalls ≤ t.selectorCalls := by
  unfold selectorCalls
  induction t using TypeTree.induction with
  | leaf s => exact Nat.le_refl 1
  | array t _ => exact Nat.le_add_right 1 _
  | fixedArray t n ih => exact Nat.add_le_add_left ih 1
  | tuple ts ih =>
    cases ts with
    | nil => exact Nat.le_refl 3
    | cons t ts =>
      have hany : ∀ us : List AbiType, (∀ u ∈ us, u.dynamicCalls ≤ selectorRendering.calls u) →
          dynamicCallsAny us ≤ selectorRendering.callsAll us := by
        intro us hus
        induction us with
        | nil => exact Nat.le_refl 0
        | cons u us ih =>
          obtain ⟨hu, hus⟩ := List.forall_mem_cons.mp hus
          rw [dynamicCallsAny, Rendering.callsAll]
          split
          · exact Nat.le_trans hu (Nat.le_max_left ..)
          · have hrest := ih hus
            omega
      exact Nat.add_le_add_left (hany _ ih) 3

/-! ## 4. Many dimensions -/

/-- An array of more dimensions than there is room for. -/
def deepArray : AbiType := TypeTree.wrap (List.replicate 1200 none) (.leaf .bool)

theorem leaves_wrap {α : Type} (ds : List TypeTree.Dimension) (t : TypeTree α) :
    (TypeTree.wrap ds t).leaves = t.leaves := by
  induction ds with
  | nil => rfl
  | cons d ds ih => cases d <;> exact ih

theorem wellFormed_deepArray : deepArray.WellFormed := by
  rw [WellFormed, deepArray, leaves_wrap]
  decide

/-- Dimensions of any length state no number. -/
theorem numbers_wrap_replicate (n : Nat) (t : AbiType) :
    numbers (TypeTree.wrap (List.replicate n none) t) = t.numbers := by
  induction n with
  | zero => rfl
  | succ n ih => exact ih

theorem numbersFit_deepArray : deepArray.NumbersFit := by
  rw [NumbersFit, deepArray, numbers_wrap_replicate]
  decide

theorem canonical_wrap_replicate (n : Nat) (t : AbiType) :
    canonical (TypeTree.wrap (List.replicate n none) t) =
      t.canonical ++ (List.replicate n (suffix none)).flatten := by
  induction n with
  | zero => exact (List.append_nil _).symm
  | succ n ih =>
    have hcons : canonical (TypeTree.wrap (List.replicate (n + 1) none) t) =
        canonical (TypeTree.wrap (List.replicate n none) t) ++ suffix none := by
      rw [List.replicate_succ, TypeTree.wrap_cons, TypeTree.arrayOf, canonical]
    rw [hcons, ih, List.replicate_succ', List.flatten_append, List.flatten_singleton,
      List.append_assoc]

theorem bracketDepth_wrap (ds : List TypeTree.Dimension) (t : AbiType) :
    bracketDepth (TypeTree.wrap ds t) = t.bracketDepth := by
  induction ds with
  | nil => rfl
  | cons d ds ih => cases d <;> exact ih

/-- It has no tuples in one another. -/
theorem bracketDepth_deepArray : deepArray.bracketDepth = 0 := by
  rw [deepArray, bracketDepth_wrap, bracketDepth]

theorem callRoom_lt_deepArray {β : Type} {r : Rendering Scalar β} (h : r.arrayCalls = 1) :
    callRoom < r.calls deepArray := by
  rw [deepArray, Rendering.calls_wrap, List.length_replicate, h, callRoom]
  omega

theorem selectorWithin_deepArray : deepArray.selectorWithin callRoom = .error .nesting := by
  rw [selectorWithin_of_fits numbersFit_deepArray]
  exact if_neg (Nat.not_le.mpr (callRoom_lt_deepArray rfl))

theorem canonicalWithin_deepArray : deepArray.canonicalWithin callRoom = .error .nesting := by
  rw [canonicalWithin_of_fits numbersFit_deepArray]
  exact if_neg (Nat.not_le.mpr (callRoom_lt_deepArray rfl))

theorem toJsonWithin_deepArray (name : Option Text) :
    deepArray.toJsonWithin callRoom name = .error .nesting := by
  rw [toJsonWithin_of_fits numbersFit_deepArray]
  exact if_neg (Nat.not_le.mpr (callRoom_lt_deepArray rfl))

end AbiType

end ContractAbi
