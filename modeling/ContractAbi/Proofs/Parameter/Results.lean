import ContractAbi.Proofs.Parameter.Fields
import ContractAbi.Proofs.Parameter.Visits

/-!
# What a result is made of

A parse that has a result found each of its parts on the way.  Here is what the parts are, for every
parser, as equations about the steps that led to them.
-/

namespace ContractAbi

variable {rules : Rules} {budget : Nat}

/-! ## 1. Fields -/

theorem guard_eq_ok_iff {α : Type} (rules : Rules) {p : Parse α} {a : α} :
    (rules.guard p).outcome = .ok a ↔ p.outcome = .ok a :=
  Outcome.mapError_eq_ok_iff

theorem ofObject_eq_ok_iff {known : List Field} {v : Value} {fs : Fields} :
    Fields.ofObject known v = .ok fs ↔
      ∃ ps, v.pairs? = some ps ∧ Fields.collect known ps = .ok fs := by
  unfold Fields.ofObject
  cases v.pairs? with
  | none => simp
  | some ps => simp [Outcome.mapError_eq_ok_iff]

/-- The fields of a component are those of a tuple parameter, and there is a type among them. -/
theorem componentFields_eq_ok_iff {v type : Value} {fs : Fields} :
    componentFields v = .ok (type, fs) ↔
      Fields.ofObject Field.ofTuple v = .ok fs ∧ fs.get? .type = some type := by
  rw [ofObject_eq_ok_iff]
  unfold componentFields
  cases v.pairs? with
  | none => simp
  | some ps =>
    cases hfs : Fields.collect Field.ofTuple ps with
    | error e => simp [hfs]
    | ok gs =>
      cases htype : gs.get? .type with
      | none =>
        simp only [htype, Option.some.injEq, exists_eq_left', hfs, Except.ok.injEq, reduceCtorEq,
          false_iff]
        rintro ⟨rfl, h⟩
        rw [htype] at h
        cases h
      | some u =>
        simp only [htype, Option.some.injEq, exists_eq_left', hfs, Except.ok.injEq, Prod.mk.injEq]
        constructor
        · rintro ⟨rfl, rfl⟩
          exact ⟨rfl, htype⟩
        · rintro ⟨rfl, h⟩
          rw [htype] at h
          exact ⟨Option.some.inj h, rfl⟩

theorem requiredName_eq_ok_iff {v : Option Value} {name : Text} :
    requiredName v = .ok name ↔ v = some (.text name) := by
  cases v with
  | none => simp [requiredName]
  | some v => simp [requiredName, text_eq_ok_iff]

theorem optionalName_eq_ok_iff {v : Option Value} {name : Option Text} :
    optionalName v = .ok name ↔
      (name = none ∧ (v = none ∨ v = some .null)) ∨ ∃ t, name = some t ∧ v = some (.text t) := by
  unfold optionalName
  split
  · simp [eq_comm]
  · simp [eq_comm]
  · next v hnull =>
    have hne : v ≠ .null := fun h => hnull (by rw [h])
    rw [Outcome.map_eq_ok_iff]
    simp only [text_eq_ok_iff, reduceCtorEq, Option.some.injEq, hne, or_self, and_false, false_or]
    constructor
    · rintro ⟨t, rfl, rfl⟩
      exact ⟨t, rfl, rfl⟩
    · rintro ⟨t, rfl, rfl⟩
      exact ⟨t, rfl, rfl⟩

/-! ## 2. Types -/

/-- A type that was resolved is the one that was named, or has the types of the components in the
place of the elements that were named. -/
theorem of_resolve_eq_ok {s : Site} {t : AbiType} (h : (s.resolve rules budget).outcome = .ok t) :
    ∃ name named, s.type = .text name ∧
      TypeName.readAt rules.ceiling name s.depth = .ok named ∧
      (t = named ∨ ∃ components ts, s.components = some components ∧
        (elementsWithin rules budget components (s.depth + named.dims.length + 1)).outcome =
          .ok ts ∧ t = TypeTree.wrap named.dims (.tuple ts)) := by
  rw [Site.resolve, resolve] at h
  obtain ⟨name, htext, h⟩ := Parse.of_bind_eq_ok h
  obtain ⟨named, hread, h⟩ := Parse.of_bind_eq_ok h
  refine ⟨name, named, text_eq_ok_iff.mp htext, hread, ?_⟩
  split at h
  · next components _ hcomponents =>
    obtain ⟨ts, hts, h⟩ := Parse.of_bind_eq_ok h
    cases h
    exact Or.inr ⟨components, ts, hcomponents, hts, rfl⟩
  · split at h
    · cases h
    · cases h
      exact Or.inl rfl
  · obtain ⟨_, -, h⟩ := Parse.of_bind_eq_ok h
    cases h
    exact Or.inl rfl
  · cases h
    exact Or.inl rfl

theorem kindOf_eq_ok_iff {fs : Fields} {t : AbiType} :
    (kindOf rules fs budget).outcome = .ok t ↔
      ∃ type, fs.get? .type = some type ∧
        (Site.resolve rules budget ⟨type, fs.get? .components, 0⟩).outcome = .ok t := by
  cases htype : fs.get? .type with
  | none => simp [kindOf, htype]
  | some type => simp [kindOf_eq_resolve htype]

theorem parseItem_eq_ok_iff {depth : Int} {item : Value} {t : AbiType} :
    (parseItem rules budget depth item).outcome = .ok t ↔
      ∃ type fs, Fields.ofObject Field.ofTuple item = .ok fs ∧ fs.get? .type = some type ∧
        (Site.resolve rules budget ⟨type, fs.get? .components, depth⟩).outcome = .ok t := by
  rw [parseItem, Parse.outcome_bind, Outcome.bind_eq_ok_iff]
  constructor
  · rintro ⟨⟨type, fs⟩, hfields, h⟩
    obtain ⟨hfields, htype⟩ := componentFields_eq_ok_iff.mp hfields
    exact ⟨type, fs, hfields, htype, h⟩
  · rintro ⟨type, fs, hfields, htype, h⟩
    exact ⟨(type, fs), componentFields_eq_ok_iff.mpr ⟨hfields, htype⟩, h⟩

theorem componentItems_eq_ok_iff {v : Value} {items : List Value} :
    componentItems v = .ok items ↔ v.items? = some items := by
  unfold componentItems
  cases v.items? <;> simp

/-- Components have types if the depth is allowed and each of them has one. -/
theorem elementsWithin_eq_ok_iff {components : Value} {depth : Int} {ts : List AbiType} :
    (elementsWithin rules (budget + 1) components depth).outcome = .ok ts ↔
      rules.ceiling.check depth = .ok () ∧ ∃ items, components.items? = some items ∧
        (items.mapM fun item => (parseItem rules budget depth item).outcome) = .ok ts := by
  rw [elementsWithin_succ, Parse.outcome_bind, Outcome.bind_eq_ok_iff]
  constructor
  · rintro ⟨_, hcheck, h⟩
    obtain ⟨items, hitems, h⟩ := Parse.of_bind_eq_ok h
    rw [Parse.outcome_mapM] at h
    exact ⟨hcheck, items, componentItems_eq_ok_iff.mp hitems, h⟩
  · rintro ⟨hcheck, items, hitems, h⟩
    refine ⟨(), hcheck, ?_⟩
    rw [Parse.outcome_bind]
    refine Outcome.bind_eq_ok_iff.mpr ⟨items, componentItems_eq_ok_iff.mpr hitems, ?_⟩
    rwa [Parse.outcome_mapM]

/-! ## 3. Parameters -/

/-- **What an event parameter is made of.** -/
theorem eventParam_eq_ok_iff {v : Value} {p : EventParam} :
    (EventParam.parse rules v).outcome = .ok p ↔
      ∃ fs, Fields.ofObject Field.ofEvent v = .ok fs ∧ fs.get? .name = some (.text p.name) ∧
        (kindOf rules fs).outcome = .ok p.kind ∧ flag (fs.get? .indexed) = .ok p.indexed := by
  rw [EventParam.parse, guard_eq_ok_iff]
  simp only [Parse.outcome_bind, Outcome.bind_eq_ok_iff, Parse.outcome_quiet,
    requiredName_eq_ok_iff]
  constructor
  · rintro ⟨fs, hfields, name, hname, kind, hkind, indexed, hflag, h⟩
    cases h
    exact ⟨fs, hfields, hname, hkind, hflag⟩
  · rintro ⟨fs, hfields, hname, hkind, hflag⟩
    exact ⟨fs, hfields, p.name, hname, p.kind, hkind, p.indexed, hflag, rfl⟩

/-- **What a tuple parameter is made of.** -/
theorem tupleParam_eq_ok_iff {v : Value} {p : TupleParam} :
    (TupleParam.parse rules v budget).outcome = .ok p ↔
      ∃ fs, Fields.ofObject Field.ofTuple v = .ok fs ∧
        optionalName (fs.get? .name) = .ok p.name ∧
        (kindOf rules fs budget).outcome = .ok p.kind := by
  rw [TupleParam.parse, guard_eq_ok_iff]
  simp only [Parse.outcome_bind, Outcome.bind_eq_ok_iff, Parse.outcome_quiet]
  constructor
  · rintro ⟨fs, hfields, name, hname, kind, hkind, h⟩
    cases h
    exact ⟨fs, hfields, hname, hkind⟩
  · rintro ⟨fs, hfields, hname, hkind⟩
    exact ⟨fs, hfields, p.name, hname, p.kind, hkind, rfl⟩

theorem parseList_eq_ok_iff {v : Value} {ps : List TupleParam} :
    (TupleParam.parseList rules v).outcome = .ok ps ↔
      ∃ items, v.items? = some items ∧
        (items.mapM fun item => (TupleParam.parse rules item (componentsLimit - 1)).outcome) =
          .ok ps := by
  unfold TupleParam.parseList
  cases v.items? with
  | none => simp
  | some items => simp [Parse.outcome_mapM]

theorem parseElements_eq_ok_iff {v : Value} {ts : List AbiType} :
    (parseElements rules v).outcome = .ok ts ↔
      rules.ceiling.check 0 = .ok () ∧ ∃ items, v.items? = some items ∧
        (items.mapM fun item => (parseItem rules (componentsLimit - 1) 0 item).outcome) =
          .ok ts := by
  rw [parseElements, guard_eq_ok_iff]
  exact elementsWithin_eq_ok_iff

end ContractAbi
