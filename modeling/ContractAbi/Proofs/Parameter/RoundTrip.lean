import ContractAbi.Parameter.Parse
import ContractAbi.Proofs.Parse
import ContractAbi.Proofs.TypeName.RoundTrip

/-!
# Parameters are parsed back

The JSON form of a type is one recursion over the type, which pushes array suffixes onto a name that
was written further in.  The parser goes about it in another way: it reads the whole name, puts the
components in the place of the innermost tuple, and parses these by a recursion of their own.

The two meet in the *outline* of a type, the type without the elements of its innermost tuple.  The
name in a descriptor is the canonical name of the outline (`typeName_ofType`), so the parser reads
it as the outline; and the type is its outline with the elements put back
(`wrap_outline_of_element`).
-/

namespace ContractAbi

/-! ## 1. The outline of a type -/

namespace AbiType

/-- The type without the elements of its innermost tuple. -/
def outline : AbiType → AbiType
  | .leaf s => .leaf s
  | .array t => .array (outline t)
  | .fixedArray t n => .fixedArray (outline t) n
  | .tuple _ => .tuple []

theorem dims_outline (t : AbiType) : t.outline.dims = t.dims := by
  induction t using TypeTree.induction with
  | leaf s => rfl
  | array t ih => exact congrArg (none :: ·) ih
  | fixedArray t n ih => exact congrArg (some n :: ·) ih
  | tuple ts _ => rfl

/-- What has no innermost tuple is its own outline. -/
theorem outline_of_element {t : AbiType} (h : t.element.isTuple = false) : t.outline = t := by
  induction t using TypeTree.induction with
  | leaf s => rfl
  | array t ih => exact congrArg TypeTree.array (ih h)
  | fixedArray t n ih => exact congrArg (TypeTree.fixedArray · n) (ih h)
  | tuple ts _ => cases h

theorem isTuple_element_outline (t : AbiType) :
    t.outline.element.isTuple = t.element.isTuple := by
  induction t using TypeTree.induction with
  | leaf s => rfl
  | array t ih => exact ih
  | fixedArray t n ih => exact ih
  | tuple ts _ => rfl

/-- A type is its outline with the elements put back. -/
theorem wrap_outline_of_element {t : AbiType} {ts : List AbiType} (h : t.element = .tuple ts) :
    TypeTree.wrap t.outline.dims (.tuple ts) = t := by
  rw [dims_outline, ← h, TypeTree.wrap_dims_element]

theorem bracketDepth_outline (t : AbiType) : t.outline.bracketDepth = 0 := by
  induction t using TypeTree.induction with
  | leaf s => rfl
  | array t ih => exact ih
  | fixedArray t n ih => exact ih
  | tuple ts _ => rfl

theorem WellFormed.outline {t : AbiType} (wf : t.WellFormed) : t.outline.WellFormed := by
  induction t using TypeTree.induction with
  | leaf s => exact wf
  | array t ih => exact wellFormed_array.mpr (ih (wellFormed_array.mp wf))
  | fixedArray t n ih => exact wellFormed_fixedArray.mpr (ih (wellFormed_fixedArray.mp wf))
  | tuple ts _ => exact wellFormed_tuple.mpr fun _ hu => absurd hu List.not_mem_nil

theorem NumbersFit.outline {t : AbiType} (fit : t.NumbersFit) : t.outline.NumbersFit := by
  induction t using TypeTree.induction with
  | leaf s => exact fit
  | array t ih => exact numbersFit_array.mpr (ih (numbersFit_array.mp fit))
  | fixedArray t n ih =>
    obtain ⟨hn, fit⟩ := numbersFit_fixedArray.mp fit
    exact numbersFit_fixedArray.mpr ⟨hn, ih fit⟩
  | tuple ts _ => exact numbersFit_tuple.mpr fun _ hu => absurd hu List.not_mem_nil

/-! ### The innermost tuple -/

variable {t : AbiType} {ts : List AbiType}

theorem WellFormed.of_element (wf : t.WellFormed) (h : t.element = .tuple ts) :
    ∀ u ∈ ts, WellFormed u := by
  induction t using TypeTree.induction with
  | leaf s => cases h
  | array t ih => exact ih (wellFormed_array.mp wf) h
  | fixedArray t n ih => exact ih (wellFormed_fixedArray.mp wf) h
  | tuple us _ =>
    cases h
    exact wellFormed_tuple.mp wf

theorem NumbersFit.of_element (fit : t.NumbersFit) (h : t.element = .tuple ts) :
    ∀ u ∈ ts, NumbersFit u := by
  induction t using TypeTree.induction with
  | leaf s => cases h
  | array t ih => exact ih (numbersFit_array.mp fit) h
  | fixedArray t n ih => exact ih (numbersFit_fixedArray.mp fit).2 h
  | tuple us _ =>
    cases h
    exact numbersFit_tuple.mp fit

theorem tupleDepth_of_element (h : t.element = .tuple ts) :
    t.tupleDepth = (ts.map tupleDepth).foldr max 0 + 1 := by
  induction t using TypeTree.induction with
  | leaf s => cases h
  | array t ih => exact ih h
  | fixedArray t n ih => exact ih h
  | tuple us _ =>
    cases h
    exact congrArg (· + 1) (tupleDepths_eq ts)

end AbiType

/-! ## 2. Descriptors -/

namespace Descriptor

/-- **The name in a descriptor is the canonical name of the outline.** -/
theorem typeName_ofType (t : AbiType) : (ofType t).typeName = t.outline.canonical := by
  induction t using TypeTree.induction with
  | leaf s => rfl
  | array t ih => exact congrArg (· ++ AbiType.suffix none) ih
  | fixedArray t n ih => exact congrArg (· ++ AbiType.suffix (some n)) ih
  | tuple ts _ => rfl

/-- A type that is no array of tuples has no components. -/
theorem components_ofType_of_isTuple {t : AbiType} (h : t.element.isTuple = false) :
    (ofType t).components = none := by
  induction t using TypeTree.induction with
  | leaf s => rfl
  | array t ih => exact ih h
  | fixedArray t n ih => exact ih h
  | tuple ts _ => cases h

/-- The components are the descriptors of the elements of the innermost tuple. -/
theorem components_ofType_of_element {t : AbiType} {ts : List AbiType}
    (h : t.element = .tuple ts) : (ofType t).components = some (ts.map ofType) := by
  induction t using TypeTree.induction with
  | leaf s => cases h
  | array t ih => exact ih h
  | fixedArray t n ih => exact ih h
  | tuple us _ =>
    cases h
    exact congrArg some (ofTypes_eq ts)

/-! ### As values -/

/-- The value that a descriptor is to a parser. -/
def toValue (d : Descriptor) : Value := (Json.object d.fields).toValue

/-- The components as a value. -/
def componentsValue (d : Descriptor) : Option Value :=
  d.components.map fun cs => .list (cs.map toValue)

theorem toValues_objects (ds : List Descriptor) :
    Json.toValues (objects ds) = ds.map toValue := by
  induction ds with
  | nil => rfl
  | cons d ds ih => rw [objects, Json.toValues, ih, List.map_cons, toValue]

/-- The pairs of a descriptor: its name, and its components if it has any. -/
theorem toEntries_fields (d : Descriptor) :
    Json.toEntries d.fields =
      (.text "type", .text d.typeName) ::
        (d.componentsValue.toList.map fun v => (.text "components", v)) := by
  obtain ⟨name, _ | cs⟩ := d
  · rfl
  · simp only [fields, Json.toEntries, Json.toValue, toValues_objects]
    rfl

/-- The fields that a parser finds in a descriptor. -/
def found (d : Descriptor) : Fields :=
  (.type, .text d.typeName) :: (d.componentsValue.toList.map fun v => (.components, v))

theorem get?_type_found (d : Descriptor) : d.found.get? .type = some (.text d.typeName) := rfl

theorem get?_components_found (d : Descriptor) :
    d.found.get? .components = d.componentsValue := by
  unfold found
  cases d.componentsValue <;> rfl

end Descriptor

/-! ## 3. Components -/

/-- Without a ceiling the name in a descriptor is read as the outline, at every depth. -/
theorem readAt_typeName {t : AbiType} (wf : t.WellFormed) (fit : t.NumbersFit) (depth : Int) :
    TypeName.readAt .unlimited (Descriptor.ofType t).typeName depth = .ok t.outline := by
  rw [Descriptor.typeName_ofType]
  refine TypeName.readAt_canonical wf.outline fit.outline ?_ depth
  rw [AbiType.bracketDepth_outline]
  exact Nat.zero_le _

/-- A type is found from the name and the components in its descriptor. -/
theorem resolve_descriptor {rules : Rules} (unlimited : rules.ceiling = .unlimited)
    {elements : Value → Int → Parse (List AbiType)} {t : AbiType} (wf : t.WellFormed)
    (fit : t.NumbersFit)
    (helem : ∀ ts d, t.element = .tuple ts →
      elements (.list ((ts.map Descriptor.ofType).map Descriptor.toValue)) d = pure ts)
    (depth : Int) :
    resolve rules elements (.text (Descriptor.ofType t).typeName)
      (Descriptor.ofType t).componentsValue depth = pure t := by
  have hread : TypeName.readAt rules.ceiling (Descriptor.ofType t).typeName depth =
      .ok t.outline := by
    rw [unlimited]
    exact readAt_typeName wf fit depth
  simp only [resolve, Fields.text, Parse.quiet_ok, pure_bind, hread,
    AbiType.isTuple_element_outline, Descriptor.componentsValue]
  cases helement : t.element with
  | tuple ts =>
    simp only [TypeTree.isTuple, Descriptor.components_ofType_of_element helement,
      Option.map_some, helem ts _ helement, pure_bind, AbiType.wrap_outline_of_element helement]
  | _ =>
    have hno : t.element.isTuple = false := by rw [helement]; rfl
    simp only [TypeTree.isTuple, Descriptor.components_ofType_of_isTuple hno, Option.map_none,
      AbiType.outline_of_element hno]

/-- A descriptor among components has a type, and is found to have what it has. -/
theorem componentFields_toValue (d : Descriptor) :
    componentFields d.toValue = .ok (.text d.typeName, d.found) := by
  have hcollect : Fields.collect Field.ofTuple (Json.toEntries d.fields) = .ok d.found := by
    rw [Descriptor.toEntries_fields, Descriptor.found]
    cases d.componentsValue <;> rfl
  simp only [componentFields, Descriptor.toValue, Json.toValue, Value.pairs?, hcollect,
    Descriptor.get?_type_found]

/-- **The descriptors of some types are parsed as the types**, if the lists of components do not
nest deeper than the budget. -/
theorem elementsWithin_descriptors {rules : Rules} (unlimited : rules.ceiling = .unlimited)
    {ts : List AbiType} (wf : ∀ t ∈ ts, t.WellFormed) (fit : ∀ t ∈ ts, t.NumbersFit)
    {budget : Nat} (nesting : (ts.map AbiType.tupleDepth).foldr max 0 < budget) (depth : Int) :
    elementsWithin rules budget (.list ((ts.map Descriptor.ofType).map Descriptor.toValue)) depth =
      pure ts := by
  induction budget generalizing ts depth with
  | zero => exact absurd nesting (Nat.not_lt_zero _)
  | succ budget ih =>
    have hcheck : rules.ceiling.check depth = .ok () := by
      rw [unlimited]
      rfl
    simp only [elementsWithin, hcheck, Parse.quiet_ok, pure_bind, componentItems, Value.items?,
      List.map_map]
    refine Parse.mapM_map_eq_pure fun t ht => ?_
    simp only [Function.comp_apply, componentFields_toValue, Parse.quiet_ok, pure_bind,
      Descriptor.get?_components_found]
    refine resolve_descriptor unlimited (wf t ht) (fit t ht) (fun us d hus => ?_) depth
    refine ih ((wf t ht).of_element hus) ((fit t ht).of_element hus) ?_ d
    have ht' := foldr_max_le_iff.mp (Nat.le_of_lt_succ nesting) _ (List.mem_map_of_mem ht)
    rw [AbiType.tupleDepth_of_element hus] at ht'
    exact ht'

/-! ## 4. Parameters -/

/-- The type of a parameter is found from the fields of its descriptor, whatever stands around
them. -/
theorem kindOf_descriptor {rules : Rules} (unlimited : rules.ceiling = .unlimited) {t : AbiType}
    (wf : t.WellFormed) (fit : t.NumbersFit) (nesting : t.tupleDepth ≤ componentsLimit)
    {fs : Fields} (htype : fs.get? .type = some (.text (Descriptor.ofType t).typeName))
    (hcomponents : fs.get? .components = (Descriptor.ofType t).componentsValue) :
    kindOf rules fs = pure t := by
  simp only [kindOf, htype, hcomponents]
  refine resolve_descriptor unlimited wf fit (fun ts d hts => ?_) 0
  refine elementsWithin_descriptors unlimited (wf.of_element hts) (fit.of_element hts) ?_ d
  rw [AbiType.tupleDepth_of_element hts] at nesting
  exact nesting

theorem toEntries_append (fs gs : List (Text × Json)) :
    Json.toEntries (fs ++ gs) = Json.toEntries fs ++ Json.toEntries gs := by
  induction fs with
  | nil => rfl
  | cons f fs ih => rw [List.cons_append, Json.toEntries, Json.toEntries, ih, List.cons_append]

/-- The fields that a parser finds in an event parameter. -/
def EventParam.found (p : EventParam) : Fields :=
  (.name, .text p.name) :: ((Descriptor.ofType p.kind).found ++ [(.indexed, .bool p.indexed)])

theorem ofObject_eventParam (p : EventParam) :
    Fields.ofObject Field.ofEvent p.toJson.toValue = .ok p.found := by
  simp only [EventParam.toJson, EventParam.found, Json.toValue, toEntries_append,
    Descriptor.toEntries_fields, Descriptor.found]
  cases (Descriptor.ofType p.kind).componentsValue <;> rfl

theorem EventParam.get?_found (p : EventParam) :
    p.found.get? .components = (Descriptor.ofType p.kind).componentsValue ∧
      p.found.get? .indexed = some (.bool p.indexed) := by
  unfold found Descriptor.found
  cases (Descriptor.ofType p.kind).componentsValue <;> exact ⟨rfl, rfl⟩

/-- The fields that a parser finds in a tuple parameter, with no name if it has none. -/
def TupleParam.found (p : TupleParam) : Fields :=
  (p.name.toList.map fun name => (.name, .text name)) ++ (Descriptor.ofType p.kind).found

theorem ofObject_tupleParam (p : TupleParam) :
    Fields.ofObject Field.ofTuple p.toJson.toValue = .ok p.found := by
  simp only [TupleParam.toJson, TupleParam.found, Json.toValue, toEntries_append,
    Descriptor.toEntries_fields, Descriptor.found]
  cases (Descriptor.ofType p.kind).componentsValue <;> cases p.name <;> rfl

theorem TupleParam.get?_found (p : TupleParam) :
    p.found.get? .name = p.name.map .text ∧
      p.found.get? .type = some (.text (Descriptor.ofType p.kind).typeName) ∧
      p.found.get? .components = (Descriptor.ofType p.kind).componentsValue := by
  unfold found Descriptor.found
  cases (Descriptor.ofType p.kind).componentsValue <;> cases p.name <;> exact ⟨rfl, rfl, rfl⟩

/-- An event parameter is parsed back from its JSON form. -/
theorem EventParam.parse_descriptor {rules : Rules} (unlimited : rules.ceiling = .unlimited)
    {t : AbiType} (wf : t.WellFormed) (fit : t.NumbersFit)
    (nesting : t.tupleDepth ≤ componentsLimit) (name : Text) (indexed : Bool) :
    EventParam.parse rules (EventParam.mk name t indexed).toJson.toValue =
      pure ⟨name, t, indexed⟩ := by
  obtain ⟨hcomponents, hindexed⟩ := (EventParam.mk name t indexed).get?_found
  have hname : (EventParam.mk name t indexed).found.get? .name = some (.text name) := rfl
  have htype : (EventParam.mk name t indexed).found.get? .type =
      some (.text (Descriptor.ofType t).typeName) := rfl
  simp only [EventParam.parse, ofObject_eventParam, Parse.quiet_ok, pure_bind, hname, requiredName,
    Fields.text, kindOf_descriptor unlimited wf fit nesting htype hcomponents, hindexed, flag]
  rfl

/-- A tuple parameter is parsed back from its JSON form. -/
theorem TupleParam.parse_descriptor {rules : Rules} (unlimited : rules.ceiling = .unlimited)
    {t : AbiType} (wf : t.WellFormed) (fit : t.NumbersFit)
    (nesting : t.tupleDepth ≤ componentsLimit) (name : Option Text) :
    TupleParam.parse rules (TupleParam.mk name t).toJson.toValue = pure ⟨name, t⟩ := by
  obtain ⟨hname, htype, hcomponents⟩ := (TupleParam.mk name t).get?_found
  have hoptional : optionalName (name.map .text) = .ok name := by
    cases name <;> rfl
  simp only [TupleParam.parse, ofObject_tupleParam, Parse.quiet_ok, pure_bind, hname, hoptional,
    kindOf_descriptor unlimited wf fit nesting htype hcomponents]
  rfl

/-- **Parameters are parsed back from their JSON form**, under all rules without a ceiling and
without a notice. -/
theorem parse_toJson {t : AbiType} (wf : t.WellFormed) (fit : t.NumbersFit)
    (nesting : t.tupleDepth ≤ componentsLimit) (strict : Bool) (raiseNotices : Notice → Bool) :
    (∀ name indexed,
      EventParam.parse ⟨.unlimited, strict, raiseNotices⟩
        (EventParam.mk name t indexed).toJson.toValue = ⟨[], .ok ⟨name, t, indexed⟩⟩) ∧
      ∀ name,
        TupleParam.parse ⟨.unlimited, strict, raiseNotices⟩
          (TupleParam.mk name t).toJson.toValue = ⟨[], .ok ⟨name, t⟩⟩ :=
  ⟨EventParam.parse_descriptor rfl wf fit nesting, TupleParam.parse_descriptor rfl wf fit nesting⟩

/-- An array of tuples of an empty tuple, under an empty name and under none, where components
without effect are refused. -/
theorem parse_toJson_nested :
    EventParam.parse ⟨.unlimited, true, true⟩
        (EventParam.mk [] (.array (.tuple [.tuple []])) true).toJson.toValue =
          ⟨[], .ok ⟨[], .array (.tuple [.tuple []]), true⟩⟩ ∧
      TupleParam.parse ⟨.unlimited, true, true⟩
        (TupleParam.mk none (.array (.tuple [.tuple []]))).toJson.toValue =
          ⟨[], .ok ⟨none, .array (.tuple [.tuple []])⟩⟩ := by
  have hparse := parse_toJson (t := .array (.tuple [.tuple []])) (by decide) (by decide)
    (by decide) true true
  exact ⟨hparse.1 [] true, hparse.2 none⟩

end ContractAbi
