import ContractAbi.Proofs.Parameter.Ceiling
import ContractAbi.Proofs.Parameter.RoundTrip

/-!
# One ceiling for two spellings

A type can be handed over as a name, or as a JSON object.  The name spells tuples with brackets, and
the object has a list of components in the place of every tuple, so that depth is counted in other
places: behind array suffixes and inside brackets on the one side, from list to list on the other.

It comes to the same.  The object reaches as deep as the type has levels (`reach_descriptor`), and
the name as deep as it spells levels.  Only the empty tuple is a level without being spelled: its
list of components is there, and its brackets are not.
-/

namespace ContractAbi

/-! ## 1. How deep a descriptor reaches -/

/-- An outline spells its dimensions only. -/
theorem AbiType.spelledLevels_outline (t : AbiType) :
    t.outline.spelledLevels = t.dims.length := by
  induction t using TypeTree.induction with
  | leaf s => rfl
  | array t ih => exact congrArg (· + 1) ih
  | fixedArray t n ih => exact congrArg (· + 1) ih
  | tuple ts _ => rfl

/-- What reaches some numbers deeper than a depth reaches the greatest of them deeper. -/
theorem foldr_max_add {α : Type} (f : α → Nat) (l : List α) (d : Int) :
    (l.map fun a => d + f a).foldr max d = d + ((l.map f).foldr max 0 : Nat) := by
  induction l with
  | nil => simp
  | cons a l ih =>
    rw [List.map_cons, List.foldr_cons, ih, List.map_cons, List.foldr_cons]
    omega

/-- The descriptor of a type reaches as deep as the type has levels, if its components do. -/
theorem reach_descriptor {below : Value → Int → Int} {t : AbiType} (wf : t.WellFormed)
    (fit : t.NumbersFit)
    (hbelow : ∀ ts d, t.element = .tuple ts →
      below (.list ((ts.map Descriptor.ofType).map Descriptor.toValue)) d =
        d + ((ts.map AbiType.levels).foldr max 0 : Nat)) (depth : Int) :
    Site.reach below ⟨.text (Descriptor.ofType t).typeName, (Descriptor.ofType t).componentsValue,
      depth⟩ = depth + t.levels := by
  have hread : TypeName.read .unlimited (Descriptor.ofType t).typeName = .ok t.outline :=
    readAt_typeName wf fit 0
  simp only [Site.reach, hread, AbiType.isTuple_element_outline, Descriptor.componentsValue,
    AbiType.spelledLevels_outline, AbiType.dims_outline]
  cases helement : t.element with
  | tuple ts =>
    simp only [TypeTree.isTuple, Descriptor.components_ofType_of_element helement,
      Option.map_some, hbelow ts _ helement, AbiType.levels_of_element helement]
    omega
  | _ =>
    have hno : t.element.isTuple = false := by rw [helement]; rfl
    simp only [TypeTree.isTuple, AbiType.levels_of_isTuple hno]

/-- **Descriptors among components reach as deep as their types have levels**, counted from the
depth of the components. -/
theorem componentsReach_descriptors {ts : List AbiType} (wf : ∀ t ∈ ts, t.WellFormed)
    (fit : ∀ t ∈ ts, t.NumbersFit) {budget : Nat}
    (nesting : (ts.map AbiType.tupleDepth).foldr max 0 < budget) (depth : Int) :
    componentsReach budget (.list ((ts.map Descriptor.ofType).map Descriptor.toValue)) depth =
      depth + ((ts.map AbiType.levels).foldr max 0 : Nat) := by
  induction budget generalizing ts depth with
  | zero => exact absurd nesting (Nat.not_lt_zero _)
  | succ budget ih =>
    have hitem : ∀ t ∈ ts, itemReach (componentsReach budget) depth (Descriptor.ofType t).toValue =
        depth + t.levels := by
      intro t ht
      simp only [itemReach, componentFields_toValue, Descriptor.get?_components_found]
      refine reach_descriptor (wf t ht) (fit t ht) (fun us d hus => ?_) depth
      refine ih ((wf t ht).of_element hus) ((fit t ht).of_element hus) ?_ d
      have ht' := foldr_max_le_iff.mp (Nat.le_of_lt_succ nesting) _ (List.mem_map_of_mem ht)
      rw [AbiType.tupleDepth_of_element hus] at ht'
      exact ht'
    simp only [componentsReach, componentItems, Value.items?, List.map_map]
    rw [← foldr_max_add, List.map_congr_left]
    exact hitem

/-- A tuple parameter reaches as deep as its type has levels. -/
theorem parameterReach_toJson {t : AbiType} (wf : t.WellFormed) (fit : t.NumbersFit)
    (nesting : t.tupleDepth ≤ componentsLimit) (name : Option Text) :
    parameterReach Field.ofTuple (TupleParam.mk name t).toJson.toValue = t.levels := by
  obtain ⟨-, htype, hcomponents⟩ := (TupleParam.mk name t).get?_found
  simp only [parameterReach, ofObject_tupleParam, fieldsReach, htype, hcomponents]
  rw [reach_descriptor wf fit (fun ts d hts => ?_) 0, Int.zero_add]
  refine componentsReach_descriptors (wf.of_element hts) (fit.of_element hts) ?_ d
  rw [AbiType.tupleDepth_of_element hts] at nesting
  exact nesting

/-! ## 2. Both spellings under a ceiling -/

/-- What is accepted without a ceiling is accepted under one as far as it reaches. -/
theorem outcome_of_filters {α : Type} (run : Ceiling → Except Failure α) {reach : Int} {p : α}
    (h : ∀ m, Filters m (reach ≤ m) (run .unlimited) (run (.limit m)))
    (hp : run .unlimited = .ok p) (m : Option Int) :
    run (.ofOption m) =
      if ∀ k ∈ m, reach ≤ k then .ok p else .error (.refused (.tooDeep (.ofOption m))) := by
  cases m with
  | none =>
    rw [if_pos fun k hk => nomatch hk]
    exact hp
  | some k =>
    by_cases hk : reach ≤ k
    · rw [if_pos (by simpa using hk)]
      exact (h k).keeps p hp hk
    · rw [if_neg (by simpa using hk)]
      exact (h k).refuses p hp hk

theorem read_canonical_under {t : AbiType} (wf : t.WellFormed) (fit : t.NumbersFit)
    (nesting : t.bracketDepth ≤ TypeName.bracketLimit) (m : Option Int) :
    TypeName.read (.ofOption m) t.canonical =
      if ∀ k ∈ m, (t.spelledLevels : Int) ≤ k then .ok t
      else .error (.refused (.tooDeep (.ofOption m))) := by
  have hfree : TypeName.read .unlimited t.canonical = .ok t :=
    TypeName.readAt_canonical wf fit nesting 0
  refine outcome_of_filters (fun c => TypeName.read c t.canonical) (fun m => ?_) hfree m
  refine (TypeName.filters_readAt m t.canonical 0 _).congr fun _ _ => ?_
  rw [hfree, TypeName.within_ok, Int.zero_add]

theorem parse_toJson_under {t : AbiType} (wf : t.WellFormed) (fit : t.NumbersFit)
    (nesting : t.tupleDepth ≤ componentsLimit) (strict : Bool) (raiseNotices : Notice → Bool)
    (name : Option Text) (m : Option Int) :
    (TupleParam.parse ⟨.ofOption m, strict, raiseNotices⟩ (t.toJson name).toValue).outcome =
      if ∀ k ∈ m, (t.levels : Int) ≤ k then .ok ⟨name, t⟩
      else .error (.refused (.tooDeep (.ofOption m))) := by
  have hfree : TupleParam.parse ⟨.unlimited, strict, raiseNotices⟩ (t.toJson name).toValue =
      pure ⟨name, t⟩ := TupleParam.parse_descriptor rfl wf fit nesting name
  refine outcome_of_filters
    (fun c => (TupleParam.parse ⟨c, strict, raiseNotices⟩ (t.toJson name).toValue).outcome)
    (fun m => ?_) (congrArg Parse.outcome hfree) m
  rw [← parameterReach_toJson wf fit nesting name]
  exact filters_tupleParam m strict raiseNotices _

/-- **The name and the JSON form of a type come to the same under every ceiling**, but for empty
tuples, which are levels of the JSON form only. -/
theorem spellings_under_ceiling {t : AbiType} (wf : t.WellFormed) (fit : t.NumbersFit)
    (nesting : t.tupleDepth ≤ componentsLimit) (m : Option Int) (strict : Bool)
    (raiseNotices : Notice → Bool) (name : Option Text) :
    let tooDeep : Failure := .refused (.tooDeep (.ofOption m))
    let read := TypeName.read (.ofOption m) t.canonical
    let parsed :=
      (TupleParam.parse ⟨.ofOption m, strict, raiseNotices⟩ (t.toJson name).toValue).outcome
    (t.hasEmptyTuple = false →
      (read = .ok t ∧ parsed = .ok ⟨name, t⟩) ∨
        (read = .error tooDeep ∧ parsed = .error tooDeep)) ∧
      (parsed = if ∀ k ∈ m, (t.levels : Int) ≤ k then .ok ⟨name, t⟩ else .error tooDeep) ∧
      (read = if ∀ k ∈ m, (t.spelledLevels : Int) ≤ k then .ok t else .error tooDeep) ∧
      (parsed = .ok ⟨name, t⟩ → read = .ok t) := by
  intro tooDeep read parsed
  have hbrackets : t.bracketDepth ≤ TypeName.bracketLimit :=
    Nat.le_trans (Nat.le_trans t.bracketDepth_le_tupleDepth nesting) (by decide)
  have hread := read_canonical_under wf fit hbrackets m
  have hparsed := parse_toJson_under wf fit nesting strict raiseNotices name m
  refine ⟨fun hfilled => ?_, hparsed, hread, fun h => ?_⟩
  · rw [AbiType.levels_eq_spelledLevels hfilled] at hparsed
    by_cases hfits : ∀ k ∈ m, (t.spelledLevels : Int) ≤ k
    · rw [if_pos hfits] at hread hparsed
      exact Or.inl ⟨hread, hparsed⟩
    · rw [if_neg hfits] at hread hparsed
      exact Or.inr ⟨hread, hparsed⟩
  · have hfits : ∀ k ∈ m, (t.levels : Int) ≤ k := by
      refine Decidable.byContradiction fun hno => ?_
      have hrefused := (if_neg hno).symm.trans (hparsed.symm.trans h)
      cases hrefused
    refine hread.trans (if_pos fun k hk => ?_)
    have hle := t.spelledLevels_le_levels
    have hk' := hfits k hk
    omega

/-- An array of tuples with an empty tuple in each, under the ceiling that its name keeps to and its
JSON form does not, and an array of pairs, which keeps to it in both spellings. -/
theorem spellings_under_ceiling_two :
    let empties : AbiType := .array (.tuple [.tuple []])
    let pairs : AbiType := .array (.tuple [.leaf .bool, .leaf .address])
    TypeName.read (.limit 2) empties.canonical = .ok empties ∧
      (TupleParam.parse ⟨.limit 2, false, false⟩ (empties.toJson none).toValue).outcome =
        .error (.refused (.tooDeep (.limit 2))) ∧
      TypeName.read (.limit 2) pairs.canonical = .ok pairs ∧
      (TupleParam.parse ⟨.limit 2, false, false⟩ (pairs.toJson none).toValue).outcome =
        .ok ⟨none, pairs⟩ := by
  intro empties pairs
  have hempties := spellings_under_ceiling (t := empties) (by decide) (by decide) (by decide)
    (some 2) false false none
  have hpairs := spellings_under_ceiling (t := pairs) (by decide) (by decide) (by decide)
    (some 2) false false none
  exact ⟨hempties.2.2.1, hempties.2.1, hpairs.2.2.1, hpairs.2.1⟩

end ContractAbi
