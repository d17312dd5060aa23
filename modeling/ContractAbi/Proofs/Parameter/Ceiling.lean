import ContractAbi.Proofs.Parameter.Visits
import ContractAbi.Proofs.TypeName.Ceiling

/-!
# Parsing parameters under a ceiling

A ceiling bounds a parameter as a whole.  What is compared with it is the *reach* of the parameter,
the greatest depth that its parse comes to: a name reaches as far as the levels that it spells,
counted from the depth of its object, a list of components reaches its own depth, and the lists lie
below the dimensions of the name beside them (`Site.reach`, `componentsReach`).

The reach is a matter of the parameter alone and knows of no ceiling.  `parse_under_limit` says that
a ceiling does nothing but compare the reach with itself.
-/

namespace ContractAbi

/-! ## 1. Reach -/

/-- The depth that a type reaches at its site.  `below` says how far components reach from a depth;
they count where they describe a tuple, and stand below the dimensions over it. -/
def Site.reach (below : Value → Int → Int) (s : Site) : Int :=
  match s.type with
  | .text name =>
    match TypeName.read .unlimited name with
    | .ok named =>
      match named.element.isTuple, s.components with
      | true, some components =>
        max (s.depth + named.spelledLevels) (below components (s.depth + named.dims.length + 1))
      | _, _ => s.depth + named.spelledLevels
    | .error _ => s.depth
  | _ => s.depth

/-- The depth that an object among components reaches. -/
def itemReach (below : Value → Int → Int) (depth : Int) (item : Value) : Int :=
  match componentFields item with
  | .ok (type, fs) => Site.reach below ⟨type, fs.get? .components, depth⟩
  | .error _ => depth

/-- The depth that components reach: their own, or further with the deepest of them.  `budget` is
the number of lists in one another that are parsed. -/
def componentsReach : (budget : Nat) → (components : Value) → (depth : Int) → Int
  | 0, _, depth => depth
  | budget + 1, components, depth =>
    match componentItems components with
    | .ok items => (items.map (itemReach (componentsReach budget) depth)).foldr max depth
    | .error _ => depth

/-- The depth that a parameter reaches, from its fields. -/
def fieldsReach (fs : Fields) : Int :=
  match fs.get? .type with
  | some type => Site.reach (componentsReach componentsLimit) ⟨type, fs.get? .components, 0⟩
  | none => 0

/-- The depth that a parameter reaches, if these are the fields that it may have. -/
def parameterReach (known : List Field) (v : Value) : Int :=
  match Fields.ofObject known v with
  | .ok fs => fieldsReach fs
  | .error _ => 0

/-- Some depths stay within a bound exactly if the greatest of them does. -/
theorem foldr_max_le_int_iff {ns : List Int} {d m : Int} :
    ns.foldr max d ≤ m ↔ d ≤ m ∧ ∀ n ∈ ns, n ≤ m := by
  induction ns with
  | nil => simp
  | cons n ns ih =>
    rw [List.foldr_cons, Int.max_le, ih, List.forall_mem_cons]
    exact and_left_comm

/-! ## 2. Types -/

variable {m : Int} {strict : Bool} {raiseNotices : Notice → Bool}

/-- What is left to compare with the ceiling once a name was read: the components, if they
describe the tuple that was named. -/
def BelowFits (m : Int) (below : Value → Int → Int) (s : Site) (named : AbiType) : Prop :=
  named.element.isTuple = true → ∀ components, s.components = some components →
    below components (s.depth + named.dims.length + 1) ≤ m

theorem reach_le_iff {below : Value → Int → Int} {s : Site} {name : Text} {named : AbiType}
    (htype : s.type = .text name) (hread : TypeName.read .unlimited name = .ok named) :
    s.reach below ≤ m ↔ s.depth + named.spelledLevels ≤ m ∧ BelowFits m below s named := by
  unfold Site.reach BelowFits
  simp only [htype, hread]
  cases named.element.isTuple with
  | false => simp
  | true =>
    cases s.components with
    | none => simp
    | some components =>
      dsimp only
      rw [Int.max_le]
      simp

/-- **A ceiling is compared with the name at a site, and then with the components below.** -/
theorem filters_resolve {elements elements' : Value → Int → Parse (List AbiType)}
    {below : Value → Int → Int}
    (helem : ∀ components depth, Filters m (below components depth ≤ m)
      (elements components depth).outcome (elements' components depth).outcome) (s : Site) :
    Filters m (s.reach below ≤ m)
      (resolve ⟨.unlimited, strict, raiseNotices⟩ elements s.type s.components s.depth).outcome
      (resolve ⟨.limit m, strict, raiseNotices⟩ elements' s.type s.components s.depth).outcome := by
  unfold resolve
  simp only [Parse.outcome_bind, Parse.outcome_quiet]
  cases htype : Fields.text .type s.type with
  | error e => exact filters_error m _ e
  | ok name =>
    have htype := text_eq_ok_iff.mp htype
    simp only [Outcome.ok_bind]
    refine ((TypeName.filters_readAt m name s.depth _).bind (q := BelowFits m below s)
      fun named _ => ?_).congr fun t ht => ?_
    · unfold BelowFits
      cases named.element.isTuple with
      | false =>
        -- Components without effect are refused, or not, whatever the ceiling is.
        cases s.components with
        | none => exact (filters_refl m _).congr fun _ _ => by simp
        | some components => exact (filters_refl m _).congr fun _ _ => by simp
      | true =>
        cases s.components with
        | none => exact (filters_refl m _).congr fun _ _ => by simp
        | some components =>
          simp only [Parse.outcome_bind]
          refine ((helem components _).bind (q := fun _ => True) fun ts _ =>
            filters_refl m _).congr fun _ _ => ?_
          simp
    · obtain ⟨named, hread, -⟩ := Outcome.bind_eq_ok_iff.mp ht
      rw [TypeName.readAt_unlimited] at hread
      rw [reach_le_iff htype hread, hread, TypeName.within_ok, TypeName.readAt_unlimited, hread]
      refine and_congr_right fun _ => ⟨fun h => h named rfl, fun h u hu => ?_⟩
      cases hu
      exact h

theorem filters_parseItem {budget : Nat} (helem : ∀ components depth,
      Filters m (componentsReach budget components depth ≤ m)
        (elementsWithin ⟨.unlimited, strict, raiseNotices⟩ budget components depth).outcome
        (elementsWithin ⟨.limit m, strict, raiseNotices⟩ budget components depth).outcome)
    (depth : Int) (item : Value) :
    Filters m (itemReach (componentsReach budget) depth item ≤ m)
      (parseItem ⟨.unlimited, strict, raiseNotices⟩ budget depth item).outcome
      (parseItem ⟨.limit m, strict, raiseNotices⟩ budget depth item).outcome := by
  unfold parseItem itemReach
  simp only [Parse.outcome_bind, Parse.outcome_quiet]
  cases componentFields item with
  | error e => exact filters_error m _ e
  | ok found =>
    obtain ⟨type, fs⟩ := found
    simp only [Outcome.ok_bind]
    exact filters_resolve helem ⟨type, fs.get? .components, depth⟩

/-- **A ceiling is compared with the depth of a list of components, and then with its types.** -/
theorem filters_elementsWithin (m : Int) (strict : Bool) (raiseNotices : Notice → Bool)
    (budget : Nat) (components : Value) (depth : Int) :
    Filters m (componentsReach budget components depth ≤ m)
      (elementsWithin ⟨.unlimited, strict, raiseNotices⟩ budget components depth).outcome
      (elementsWithin ⟨.limit m, strict, raiseNotices⟩ budget components depth).outcome := by
  induction budget generalizing components depth with
  | zero => exact filters_refused nofun
  | succ budget ih =>
    simp only [elementsWithin_succ, Parse.outcome_bind, Parse.outcome_quiet, Parse.outcome_mapM,
      componentsReach]
    cases componentItems components with
    | error e =>
      simp only [Outcome.error_bind]
      refine ((filters_check m depth).bind (q := fun _ => True) fun _ _ =>
        filters_error m _ e).congr fun _ _ => ?_
      simp
    | ok items =>
      simp only [Outcome.ok_bind]
      refine ((filters_check m depth).bind fun _ _ =>
        filters_mapM fun item _ => filters_parseItem ih depth item).congr fun _ _ => ?_
      rw [foldr_max_le_int_iff, List.forall_mem_map]
      exact and_congr_right fun _ => ⟨fun h => h () rfl, fun h _ _ => h⟩

/-! ## 3. Parameters -/

theorem filters_kindOf (m : Int) (strict : Bool) (raiseNotices : Notice → Bool) (fs : Fields) :
    Filters m (fieldsReach fs ≤ m) (kindOf ⟨.unlimited, strict, raiseNotices⟩ fs).outcome
      (kindOf ⟨.limit m, strict, raiseNotices⟩ fs).outcome := by
  unfold kindOf fieldsReach
  cases fs.get? .type with
  | none => exact filters_error m _ _
  | some type =>
    exact filters_resolve (filters_elementsWithin m strict raiseNotices componentsLimit)
      ⟨type, fs.get? .components, 0⟩

/-- What cannot be shown is refused for nesting too deep, under whatever ceiling. -/
theorem filters_guard {α : Type} {p p' : Parse α} {fits : Prop}
    (h : Filters m fits p.outcome p'.outcome) :
    Filters m fits (Rules.guard ⟨.unlimited, strict, raiseNotices⟩ p).outcome
      (Rules.guard ⟨.limit m, strict, raiseNotices⟩ p').outcome := by
  unfold Rules.guard
  simp only [Parse.outcome_mapFailure]
  refine ⟨fun a ha hfits => ?_, fun a ha hfits => ?_, fun e he => ?_⟩
  · rw [h.keeps a (Outcome.mapError_eq_ok_iff.mp ha) hfits]
    rfl
  · rw [h.refuses a (Outcome.mapError_eq_ok_iff.mp ha) hfits]
    rfl
  · obtain ⟨e', he', rfl⟩ := Outcome.mapError_eq_error_iff.mp he
    rcases h.fails e' he' with hc | hc
    · rw [hc]
      cases e' with
      | unshown o =>
        cases o with
        | nesting => exact Or.inr rfl
        | digits => exact Or.inl rfl
      | _ => exact Or.inl rfl
    · rw [hc]
      exact Or.inr rfl

/-- **A parser of parameters compares the ceiling with the type only.** -/
theorem filters_parameter (m : Int) {α β : Type} {known : List Field} {v : Value}
    (nameOf : Option Value → Except Failure α) (rest : Fields → α → AbiType → Parse β) :
    Filters m (parameterReach known v ≤ m)
      (Rules.guard ⟨.unlimited, strict, raiseNotices⟩ (do
        let fs ← Parse.quiet (Fields.ofObject known v)
        let name ← .quiet (nameOf (fs.get? .name))
        let kind ← kindOf ⟨.unlimited, strict, raiseNotices⟩ fs
        rest fs name kind)).outcome
      (Rules.guard ⟨.limit m, strict, raiseNotices⟩ (do
        let fs ← Parse.quiet (Fields.ofObject known v)
        let name ← .quiet (nameOf (fs.get? .name))
        let kind ← kindOf ⟨.limit m, strict, raiseNotices⟩ fs
        rest fs name kind)).outcome := by
  refine filters_guard ?_
  unfold parameterReach
  simp only [Parse.outcome_bind, Parse.outcome_quiet]
  cases Fields.ofObject known v with
  | error e => exact filters_error m _ e
  | ok fs =>
    simp only [Outcome.ok_bind]
    cases nameOf (fs.get? .name) with
    | error e => exact filters_error m _ e
    | ok name =>
      simp only [Outcome.ok_bind]
      refine ((filters_kindOf m strict raiseNotices fs).bind (q := fun _ => True) fun kind _ =>
        filters_refl m _).congr fun _ _ => ?_
      simp

theorem filters_eventParam (m : Int) (strict : Bool) (raiseNotices : Notice → Bool) (v : Value) :
    Filters m (parameterReach Field.ofEvent v ≤ m)
      (EventParam.parse ⟨.unlimited, strict, raiseNotices⟩ v).outcome
      (EventParam.parse ⟨.limit m, strict, raiseNotices⟩ v).outcome := by
  unfold EventParam.parse
  exact filters_parameter m requiredName fun fs name kind => do
    let indexed ← Parse.quiet (flag (fs.get? .indexed))
    pure (EventParam.mk name kind indexed)

theorem filters_tupleParam (m : Int) (strict : Bool) (raiseNotices : Notice → Bool) (v : Value) :
    Filters m (parameterReach Field.ofTuple v ≤ m)
      (TupleParam.parse ⟨.unlimited, strict, raiseNotices⟩ v).outcome
      (TupleParam.parse ⟨.limit m, strict, raiseNotices⟩ v).outcome := by
  unfold TupleParam.parse
  exact filters_parameter m optionalName fun _ name kind => pure (TupleParam.mk name kind)

/-! ## 4. What a ceiling does -/

/-- `FilteredBy run reach`: all that a ceiling does to `run` is to refuse what reaches beyond it. -/
structure FilteredBy {α : Type} (run : Ceiling → Except Failure α) (reach : Int) : Prop where
  /-- A result stays the same up to the ceiling, and is refused from there on. -/
  accepted : ∀ p, run .unlimited = .ok p → ∀ m,
    run (.limit m) = if reach ≤ m then .ok p else .error (Ceiling.refusal m)
  /-- A failure stays, or a refusal comes before it. -/
  failed : ∀ e, run .unlimited = .error e → ∀ m,
    run (.limit m) = .error e ∨ run (.limit m) = .error (Ceiling.refusal m)
  /-- A ceiling adds no result. -/
  sound : ∀ m p, run (.limit m) = .ok p → run .unlimited = .ok p
  /-- What is accepted stays so under a higher ceiling. -/
  monotone : ∀ m m' p, m ≤ m' → run (.limit m) = .ok p → run (.limit m') = .ok p

theorem filteredBy_of_filters {α : Type} {run : Ceiling → Except Failure α} {reach : Int}
    (h : ∀ m, Filters m (reach ≤ m) (run .unlimited) (run (.limit m))) :
    FilteredBy run reach := by
  refine ⟨fun p hp m => ?_, fun e he m => (h m).fails e he,
    fun m p hp => ((h m).of_ok hp).1, fun m m' p hle hp => ?_⟩
  · by_cases hreach : reach ≤ m
    · rw [if_pos hreach]
      exact (h m).keeps p hp hreach
    · rw [if_neg hreach]
      exact (h m).refuses p hp hreach
  · obtain ⟨hfree, hreach⟩ := (h m).of_ok hp
    exact (h m').keeps p hfree (Int.le_trans hreach hle)

/-- **A ceiling bounds a parameter as a whole, and only filters.** -/
theorem parse_under_limit (strict : Bool) (raiseNotices : Notice → Bool) (v : Value) :
    FilteredBy (fun c => (EventParam.parse ⟨c, strict, raiseNotices⟩ v).outcome)
        (parameterReach Field.ofEvent v) ∧
      FilteredBy (fun c => (TupleParam.parse ⟨c, strict, raiseNotices⟩ v).outcome)
        (parameterReach Field.ofTuple v) :=
  ⟨filteredBy_of_filters fun m => filters_eventParam m strict raiseNotices v,
    filteredBy_of_filters fun m => filters_tupleParam m strict raiseNotices v⟩

/-- An array of tuples, whose name spells elements that its components replace: these count for the
ceiling, though they are gone from the type. -/
theorem parse_under_limit_spelled :
    let v : Value := .record [(.text "name", .text "a"), (.text "type", .text "[bool[]][]"),
      (.text "components", .list [.record [(.text "type", .text "bool")]])]
    let p : EventParam := ⟨"a", .array (.tuple [.leaf .bool]), false⟩
    (EventParam.parse ⟨.unlimited, true, true⟩ v).outcome = .ok p ∧
      (EventParam.parse ⟨.limit 3, true, true⟩ v).outcome = .ok p ∧
      (EventParam.parse ⟨.limit 2, true, true⟩ v).outcome =
        .error (.refused (.tooDeep (.limit 2))) := by
  intro v p
  have hreach : parameterReach Field.ofEvent v = 3 := by decide +kernel
  have hfree : (EventParam.parse ⟨.unlimited, true, true⟩ v).outcome = .ok p :=
    Outcome.toOption_eq_some_iff.mp (by decide +kernel)
  have hlimit := (parse_under_limit true true v).1.accepted p hfree
  rw [hreach] at hlimit
  exact ⟨hfree, hlimit 3, hlimit 2⟩

end ContractAbi
