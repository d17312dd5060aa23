import ContractAbi.Proofs.AbiType.Written

/-!
# Expanding the JSON objects of types

The JSON form of a type does not show its selector name.  An array suffix is pushed onto the name of
a descriptor that was made further in, and the elements of a tuple are objects of their own.  But
the selector name can be put together from the objects alone (`Json.expand?`): where there are
components, their expansions stand in parentheses in the place of the word `tuple`.

That word and the components go together at every level (`Json.Level`), which is why the expansion
never fails (`AbiType.expand?_toJson`).  The carrying fact is that an array suffix lies behind all
that is expanded, so that it may be pushed on before or afterwards (`Descriptor.expand?_arrayOf`).
-/

namespace ContractAbi

/-! ## 1. Expansion and levels -/

namespace Json

/-- The text of a field. -/
def textField? (name : Text) (fields : List (Text × Json)) : Option Text :=
  match fields.lookup name with
  | some (.text t) => some t
  | _ => none

/-- Expansions of components in the place of the word `tuple`, if a name begins with that word. -/
def inPlaceOfTuple? (name : Text) (inner : List Text) : Option Text :=
  (Text.dropPrefix? "tuple" name).map fun rest =>
    ("(" : Text) ++ Text.join "," inner ++ (")" : Text) ++ rest

mutual

/-- The name that the object of a type stands for: the text of its field `type` if it has no
components, and otherwise that text with the expansions of the components in the place of the word
`tuple`. -/
def expand? : Json → Option Text
  | .object fields =>
    (textField? "type" fields).bind fun name =>
      if (fields.lookup ("components" : Text)).isSome then
        (expandComponents? fields).bind (inPlaceOfTuple? name)
      else some name
  | _ => none

/-- The expansions of the field `components` among some fields. -/
def expandComponents? : List (Text × Json) → Option (List Text)
  | [] => none
  | (name, j) :: fields =>
    if name = ("components" : Text) then expandItems? j else expandComponents? fields

/-- The expansions of the items of an array. -/
def expandItems? : Json → Option (List Text)
  | .array items => expandAll? items
  | _ => none

/-- The expansions of several objects. -/
def expandAll? : List Json → Option (List Text)
  | [] => some []
  | j :: js => (expand? j).bind fun t => (expandAll? js).map (t :: ·)

end

/-- `Level j o`: the object `o` is found in `j` on the way through components, at whatever level. -/
inductive Level (j : Json) : Json → Prop
  | top : Level j j
  | component {fields : List (Text × Json)} {items : List Json} {o : Json}
    (above : Level j (.object fields))
    (components : fields.lookup ("components" : Text) = some (.array items)) (item : o ∈ items) :
    Level j o

/-- The object of a type that has components exactly if its type begins with the word `tuple`. -/
def ComponentsIffTuple (o : Json) : Prop :=
  ∃ fields name, o = .object fields ∧ textField? "type" fields = some name ∧
    ((fields.lookup ("components" : Text)).isSome = true ↔ ("tuple" : Text) <+: name)

theorem inPlaceOfTuple?_append (suffixes : Text) (inner : List Text) :
    inPlaceOfTuple? (("tuple" : Text) ++ suffixes) inner =
      some (("(" : Text) ++ Text.join "," inner ++ (")" : Text) ++ suffixes) := by
  rw [inPlaceOfTuple?, Text.dropPrefix?_eq_some_iff.mpr rfl]
  rfl

theorem expandComponents?_eq (fields : List (Text × Json)) :
    expandComponents? fields = (fields.lookup ("components" : Text)).bind expandItems? := by
  induction fields with
  | nil => rfl
  | cons field fields ih =>
    obtain ⟨name, j⟩ := field
    by_cases h : name = ("components" : Text)
    · simp [expandComponents?, h]
    · have hne : (("components" : Text) == name) = false := beq_false_of_ne (Ne.symm h)
      simp [expandComponents?, List.lookup_cons, h, hne, ih]

@[simp] theorem expandAll?_eq (js : List Json) : expandAll? js = js.mapM expand? := by
  induction js with
  | nil => rfl
  | cons j js ih =>
    rw [expandAll?, ih, List.mapM_cons]
    cases expand? j with
    | none => rfl
    | some t => cases js.mapM expand? <;> rfl

/-- Objects with an expansion each expand together. -/
theorem mapM_expand?_map {α : Type} {object : α → Json} {expansion : α → Text} {l : List α}
    (h : ∀ a ∈ l, expand? (object a) = some (expansion a)) :
    (l.map object).mapM expand? = some (l.map expansion) := by
  induction l with
  | nil => rfl
  | cons a l ih =>
    rw [List.forall_mem_cons] at h
    rw [List.map_cons, List.mapM_cons, h.1, ih h.2]
    rfl

end Json

/-! ## 2. Descriptors -/

namespace Descriptor

theorem textField?_fields (name : Option Text) (d : Descriptor) :
    Json.textField? "type" (nameField name ++ d.fields) = some d.typeName := by
  obtain ⟨typeName, _ | cs⟩ := d <;> cases name <;> rfl

theorem lookup_components_fields (name : Option Text) (d : Descriptor) :
    (nameField name ++ d.fields).lookup ("components" : Text) =
      d.components.map fun cs => .array (objects cs) := by
  obtain ⟨typeName, _ | cs⟩ := d <;> cases name <;> rfl

/-- What the object of a descriptor expands to.  A name in front of its fields does not matter. -/
theorem expand?_fields (name : Option Text) (d : Descriptor) :
    Json.expand? (.object (nameField name ++ d.fields)) =
      match d.components with
      | none => some d.typeName
      | some cs => ((objects cs).mapM Json.expand?).bind (Json.inPlaceOfTuple? d.typeName) := by
  rw [Json.expand?, textField?_fields, Json.expandComponents?_eq, lookup_components_fields]
  cases d.components with
  | none => rfl
  | some cs =>
    have hitems : Json.expandItems? (.array (objects cs)) = (objects cs).mapM Json.expand? := by
      rw [Json.expandItems?, Json.expandAll?_eq]
    exact congrArg (·.bind (Json.inPlaceOfTuple? d.typeName)) hitems

/-- **An array suffix may be pushed on before or after the expansion.** -/
theorem expand?_arrayOf {name : Option Text} {d : Descriptor} {expansion : Text}
    (h : Json.expand? (.object (nameField name ++ d.fields)) = some expansion)
    (dim : TypeTree.Dimension) :
    Json.expand? (.object (nameField name ++ (d.arrayOf dim).fields)) =
      some (expansion ++ AbiType.suffix dim) := by
  obtain ⟨typeName, components⟩ := d
  rw [expand?_fields] at h ⊢
  cases components with
  | none =>
    cases h
    rfl
  | some cs =>
    obtain ⟨inner, hinner, h⟩ := Option.bind_eq_some_iff.mp h
    obtain ⟨rest, hrest, rfl⟩ := Option.map_eq_some_iff.mp h
    obtain rfl := Text.dropPrefix?_eq_some_iff.mp hrest
    refine Option.bind_eq_some_iff.mpr ⟨inner, hinner, ?_⟩
    change Json.inPlaceOfTuple? (("tuple" : Text) ++ rest ++ AbiType.suffix dim) inner = _
    rw [List.append_assoc, Json.inPlaceOfTuple?_append, ← List.append_assoc]

/-- What the descriptor of a type is: the name of a scalar without components, or the word `tuple`
with the descriptors of its elements.  Array suffixes stand behind the one or the other. -/
inductive OfType : Descriptor → Prop
  | scalar (s : Scalar) (suffixes : Text) : OfType (.mk (s.name ++ suffixes) none)
  | tuple (ts : List AbiType) (suffixes : Text) :
    OfType (.mk (("tuple" : Text) ++ suffixes) (some (ts.map ofType)))

theorem OfType.arrayOf {d : Descriptor} (h : OfType d) (dim : TypeTree.Dimension) :
    OfType (d.arrayOf dim) := by
  cases h with
  | scalar s suffixes =>
    rw [Descriptor.arrayOf, typeName, List.append_assoc]
    exact .scalar s _
  | tuple ts suffixes =>
    rw [Descriptor.arrayOf, typeName, List.append_assoc]
    exact .tuple ts _

/-- **Every descriptor of a type is of that form.** -/
theorem ofType_ofType (t : AbiType) : OfType (ofType t) := by
  induction t using TypeTree.induction with
  | leaf s =>
    have h := OfType.scalar s []
    rwa [List.append_nil] at h
  | array t ih => exact ih.arrayOf none
  | fixedArray t n ih => exact ih.arrayOf (some n)
  | tuple ts _ =>
    have h := OfType.tuple ts []
    rwa [List.append_nil, ← ofTypes_eq] at h

/-- A component is the descriptor of a type too. -/
theorem OfType.exists_of_mem {d c : Descriptor} {cs : List Descriptor} (h : OfType d)
    (hcs : d.components = some cs) (hc : c ∈ cs) : ∃ u, c = ofType u := by
  cases h with
  | scalar s suffixes => cases hcs
  | tuple ts suffixes =>
    cases hcs
    obtain ⟨u, -, rfl⟩ := List.mem_map.mp hc
    exact ⟨u, rfl⟩

/-- There are components exactly where the name begins with the word `tuple`: the name of a scalar
begins with another letter. -/
theorem OfType.isSome_components_iff {d : Descriptor} (h : OfType d) :
    d.components.isSome = true ↔ ("tuple" : Text) <+: d.typeName := by
  cases h with
  | scalar s suffixes =>
    refine iff_of_false nofun ?_
    rintro ⟨after, h⟩
    cases s <;> cases h
  | tuple ts suffixes => exact iff_of_true rfl (List.prefix_append ..)

end Descriptor

/-! ## 3. Types -/

namespace AbiType

/-- Every level of the object of a type is the object of a type. -/
theorem exists_of_level {t : AbiType} {name : Option Text} {o : Json}
    (h : (t.toJson name).Level o) : ∃ (u : AbiType) (name' : Option Text), o = u.toJson name' := by
  induction h with
  | top => exact ⟨t, name, rfl⟩
  | component _ components item ih =>
    obtain ⟨u, name', hu⟩ := ih
    obtain rfl := Json.object.inj hu
    rw [Descriptor.lookup_components_fields] at components
    obtain ⟨cs, hcs, hitems⟩ := Option.map_eq_some_iff.mp components
    obtain rfl := Json.array.inj hitems
    rw [Descriptor.objects_eq] at item
    obtain ⟨c, hc, rfl⟩ := List.mem_map.mp item
    obtain ⟨v, rfl⟩ := (Descriptor.ofType_ofType u).exists_of_mem hcs hc
    exact ⟨v, none, rfl⟩

/-- The object of a type has components exactly if its type begins with the word `tuple`. -/
theorem componentsIffTuple_toJson (t : AbiType) (name : Option Text) :
    (t.toJson name).ComponentsIffTuple := by
  refine ⟨_, _, rfl, Descriptor.textField?_fields name (Descriptor.ofType t), ?_⟩
  rw [Descriptor.lookup_components_fields, Option.isSome_map]
  exact (Descriptor.ofType_ofType t).isSome_components_iff

/-- What the object of a type expands to, whatever name stands in it. -/
theorem expand?_toJson (t : AbiType) (name : Option Text) :
    (t.toJson name).expand? = some t.selector := by
  induction t using TypeTree.induction generalizing name with
  | leaf s => exact Descriptor.expand?_fields name _
  | array t ih => exact Descriptor.expand?_arrayOf (ih name) none
  | fixedArray t n ih => exact Descriptor.expand?_arrayOf (ih name) (some n)
  | tuple ts ih =>
    have hinner : (Descriptor.objects (ts.map Descriptor.ofType)).mapM Json.expand? =
        some (ts.map selector) := by
      rw [Descriptor.objects_eq, List.map_map]
      exact Json.mapM_expand?_map fun u hu => ih u hu none
    have hword : (Descriptor.ofType (.tuple ts)).typeName = ("tuple" : Text) ++ [] := rfl
    calc (toJson (.tuple ts) name).expand?
        = ((Descriptor.objects (ts.map Descriptor.ofType)).mapM Json.expand?).bind
            (Json.inPlaceOfTuple? (Descriptor.ofType (.tuple ts)).typeName) := by
          rw [toJson, Descriptor.expand?_fields, Descriptor.ofType, Descriptor.ofTypes_eq]
          rfl
      _ = Json.inPlaceOfTuple? (("tuple" : Text) ++ []) (ts.map selector) := by
          rw [hinner, hword]
          rfl
      _ = some (selector (.tuple ts)) := by
          rw [Json.inPlaceOfTuple?_append, List.append_nil, selector, selectors_eq]

/-- Two tuples of a flag and an empty tuple. -/
example :
    let flag : Json := .object [("type", .text "bool")]
    let empty : Json := .object [("type", .text "tuple"), ("components", .array [])]
    Json.expand? (.object [("type", .text "tuple[2]"), ("components", .array [flag, empty])]) =
      some "(bool,())[2]" := by decide +kernel

/-- **Where there is room for it, the JSON form of a type carries its selector name**, under
whatever name: it expands to it.  And at every level of it there are components exactly where the
type begins with the word `tuple`.  Where there is no room for the form or for the name, it is not
written. -/
theorem toJsonWithin_carries_selector {t : AbiType} (fit : t.NumbersFit) (name : Option Text)
    (room : Nat) :
    (t.describeCalls ≤ room → ∃ j, t.toJsonWithin room name = .ok j ∧
        (∀ o, j.Level o → o.ComponentsIffTuple) ∧
        (t.selectorCalls ≤ room → ∃ s, t.selectorWithin room = .ok s ∧ j.expand? = some s)) ∧
      (room < t.describeCalls → t.toJsonWithin room name = .error .nesting) ∧
      (room < t.selectorCalls → t.selectorWithin room = .error .nesting) := by
  rw [toJsonWithin_of_fits fit, selectorWithin_of_fits fit]
  refine ⟨fun h => ⟨t.toJson name, if_pos h, fun o ho => ?_, fun h' => ?_⟩, fun h => ?_,
    fun h => ?_⟩
  · obtain ⟨u, name', rfl⟩ := exists_of_level ho
    exact componentsIffTuple_toJson u name'
  · exact ⟨t.selector, if_pos h', expand?_toJson t name⟩
  · exact if_neg (Nat.not_le.mpr h)
  · exact if_neg (Nat.not_le.mpr h)

/-- A tuple under an array, with an empty tuple in it. -/
theorem toJsonWithin_carries_selector_array :
    let t : AbiType := .fixedArray (.tuple [.leaf .bool, .tuple []]) 2
    t.NumbersFit ∧
      (∃ j, t.toJsonWithin 7 (some "a") = .ok j ∧ (∀ o, j.Level o → o.ComponentsIffTuple) ∧
        ∃ s, t.selectorWithin 7 = .ok s ∧ j.expand? = some s) ∧
      t.toJsonWithin 4 none = .error .nesting ∧ t.selectorWithin 6 = .error .nesting := by
  intro t
  have fit : t.NumbersFit := by decide +kernel
  obtain ⟨j, hj, hlevels, hname⟩ := (toJsonWithin_carries_selector fit (some "a") 7).1 (by decide)
  exact ⟨fit, ⟨j, hj, hlevels, hname (by decide)⟩,
    (toJsonWithin_carries_selector fit none 4).2.1 (by decide),
    (toJsonWithin_carries_selector fit none 6).2.2 (by decide)⟩

/-- An array of many dimensions has neither a JSON form nor a selector name. -/
theorem not_toJsonWithin_deepArray :
    deepArray.WellFormed ∧ deepArray.NumbersFit ∧
      ¬ ∃ j s, deepArray.toJsonWithin callRoom none = .ok j ∧
        deepArray.selectorWithin callRoom = .ok s ∧ j.expand? = some s := by
  refine ⟨wellFormed_deepArray, numbersFit_deepArray, ?_⟩
  rintro ⟨j, s, hj, -⟩
  rw [toJsonWithin_deepArray] at hj
  cases hj

end AbiType

end ContractAbi
