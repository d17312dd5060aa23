import ContractAbi.Proofs.Parameter.Fields
import ContractAbi.Proofs.Parameter.Visits

/-!
# Repeated fields

A parse refuses an object in which a known field stands twice.  `VisitsObject` says which objects a
parse comes to, with the place in which each stands, for what is known depends on the place.  A
parse ends with a repeated field exactly if an object that it comes to repeats one
(`eventParam_repeats_iff`, `tupleParam_repeats_iff`).

`Parse.Repeats` goes through chains of parses step by step, as an `iff`, so that both directions
come out of one induction.
-/

namespace ContractAbi

/-! ## 1. Parses that end with a repeated field -/

/-- The parse ends with a field that stands twice. -/
def Parse.Repeats {α : Type} (p : Parse α) : Prop :=
  ∃ f, p.outcome = .error (.refused (.duplicateField f))

namespace Parse

variable {α β : Type}

theorem not_repeats_of_ok {p : Parse α} {a : α} (h : p.outcome = .ok a) : ¬ p.Repeats := by
  rintro ⟨f, hf⟩
  rw [h] at hf
  cases hf

theorem not_repeats_pure (a : α) : ¬ (pure a : Parse α).Repeats := not_repeats_of_ok rfl

theorem repeats_quiet_iff {r : Except Failure α} :
    (quiet r).Repeats ↔ ∃ f, r = .error (.refused (.duplicateField f)) := Iff.rfl

/-- **A chain repeats a field in its first step, or behind it.** -/
theorem repeats_bind_iff {p : Parse α} {g : α → Parse β} :
    (p >>= g).Repeats ↔ p.Repeats ∨ ∃ a, p.outcome = .ok a ∧ (g a).Repeats := by
  unfold Repeats
  simp only [outcome_bind, Outcome.bind_eq_error_iff]
  constructor
  · rintro ⟨f, hf | ⟨a, ha, hf⟩⟩
    · exact Or.inl ⟨f, hf⟩
    · exact Or.inr ⟨a, ha, f, hf⟩
  · rintro (⟨f, hf⟩ | ⟨a, ha, f, hf⟩)
    · exact ⟨f, Or.inl hf⟩
    · exact ⟨f, Or.inr ⟨a, ha, hf⟩⟩

/-- **A list of parses repeats a field in one of them**, and those in front have a result. -/
theorem repeats_mapM_iff {g : α → Parse β} {l : List α} :
    (l.mapM g).Repeats ↔
      ∃ before a after, l = before ++ a :: after ∧
        (∀ x ∈ before, ∃ b, (g x).outcome = .ok b) ∧ (g a).Repeats := by
  unfold Repeats
  simp only [outcome_mapM, Outcome.mapM_eq_error_iff]
  constructor
  · rintro ⟨f, before, a, after, hl, hbefore, hf⟩
    exact ⟨before, a, after, hl, hbefore, f, hf⟩
  · rintro ⟨before, a, after, hl, hbefore, f, hf⟩
    exact ⟨f, before, a, after, hl, hbefore, hf⟩

end Parse

/-- A value that cannot be shown is no repeated field, and neither is what it is refused for. -/
theorem repeats_guard_iff {α : Type} (rules : Rules) {p : Parse α} :
    (rules.guard p).Repeats ↔ p.Repeats := by
  unfold Parse.Repeats Rules.guard
  rw [Parse.outcome_mapFailure]
  cases p.outcome with
  | ok a => simp
  | error e =>
    cases e with
    | unshown o => cases o <;> simp
    | _ => simp

/-- A value out of place is refused for what is said of it. -/
theorem eq_of_refuse {e e' : ParseError} (h : Failure.refuse e = .refused e') : e = e' := by
  unfold Failure.refuse at h
  split at h
  · exact Failure.refused.inj h
  · cases h

theorem not_repeats_text (f : Field) (v : Value) : ¬ (Parse.quiet (Fields.text f v)).Repeats := by
  rw [Parse.repeats_quiet_iff]
  rintro ⟨g, hg⟩
  unfold Fields.text at hg
  split at hg
  · cases hg
  · cases eq_of_refuse (Except.error.inj hg)

theorem check_ne_duplicateField (ceiling : Ceiling) (depth : Int) (f : Field) :
    ceiling.check depth ≠ .error (.refused (.duplicateField f)) := by
  unfold Ceiling.check
  split <;> exact nofun

theorem not_repeats_check (ceiling : Ceiling) (depth : Int) :
    ¬ (Parse.quiet (ceiling.check depth)).Repeats := by
  rw [Parse.repeats_quiet_iff]
  rintro ⟨f, hf⟩
  exact check_ne_duplicateField ceiling depth f hf

theorem not_repeats_readAt (ceiling : Ceiling) (name : Text) (depth : Int) :
    ¬ (Parse.quiet (TypeName.readAt ceiling name depth)).Repeats := by
  rw [Parse.repeats_quiet_iff]
  rintro ⟨f, hf⟩
  have hfault : TypeName.Fault ceiling (TypeName.bracketLimit + 1) name
      (.refused (.duplicateField f)) := TypeName.fault_of_readWithin hf
  cases hfault with
  | ceiling depth hcheck => exact check_ne_duplicateField ceiling depth f hcheck

theorem not_repeats_componentItems (v : Value) : ¬ (Parse.quiet (componentItems v)).Repeats := by
  rw [Parse.repeats_quiet_iff]
  rintro ⟨f, hf⟩
  unfold componentItems at hf
  split at hf
  · cases hf
  · cases eq_of_refuse (Except.error.inj hf)

variable {rules : Rules} {budget : Nat}

theorem not_repeats_idleComponents (name : Text) : ¬ (rules.idleComponents name).Repeats := by
  rintro ⟨f, hf⟩
  unfold Rules.idleComponents Rules.give at hf
  split at hf
  · cases hf
  · split at hf <;> cases hf

/-! ## 2. Objects -/

/-- Two values stand under the key of one known field. -/
def Value.Repeats (known : List Field) (v : Value) : Prop :=
  ∃ pairs, v.pairs? = some pairs ∧ ∃ f, 2 ≤ (Fields.valuesOf known f pairs).length

/-- The fields of an object are refused for a repetition exactly if there is one. -/
theorem repeats_collect_iff {known : List Field} {v : Value} {pairs : List (Value × Value)}
    (h : v.pairs? = some pairs) :
    (∃ e, Fields.collect known pairs = .error e) ↔ v.Repeats known := by
  constructor
  · rintro ⟨e, he⟩
    obtain ⟨f, -, hlen⟩ := Fields.repeats_of_collect he
    exact ⟨pairs, h, f, hlen⟩
  · rintro ⟨pairs', h', f, hlen⟩
    rw [h] at h'
    cases h'
    cases hc : Fields.collect known pairs with
    | error e => exact ⟨e, rfl⟩
    | ok fs =>
      have hle := Fields.length_valuesOf_le hc f
      omega

/-- A step that is refused for a repetition of fields, and never otherwise for a repeated field. -/
theorem repeats_fields_iff {α : Type} {known : List Field} {v : Value} {r : Except Failure α}
    (hnone : v.pairs? = none → ∀ f, r ≠ .error (.refused (.duplicateField f)))
    (herror : ∀ pairs e, v.pairs? = some pairs → Fields.collect known pairs = .error e →
      r = .error (.refused e))
    (hok : ∀ pairs fs, v.pairs? = some pairs → Fields.collect known pairs = .ok fs →
      ∀ f, r ≠ .error (.refused (.duplicateField f))) :
    (Parse.quiet r).Repeats ↔ v.Repeats known := by
  rw [Parse.repeats_quiet_iff]
  cases hpairs : v.pairs? with
  | none =>
    refine iff_of_false ?_ ?_
    · rintro ⟨f, hf⟩
      exact hnone hpairs f hf
    · rintro ⟨pairs, h, -⟩
      rw [hpairs] at h
      cases h
  | some pairs =>
    rw [← repeats_collect_iff hpairs]
    cases hcollect : Fields.collect known pairs with
    | error e =>
      obtain ⟨f, rfl, -⟩ := Fields.repeats_of_collect hcollect
      exact iff_of_true ⟨f, herror pairs _ hpairs hcollect⟩ ⟨_, rfl⟩
    | ok fs =>
      refine iff_of_false ?_ nofun
      rintro ⟨f, hf⟩
      exact hok pairs fs hpairs hcollect f hf

theorem repeats_componentFields_iff {v : Value} :
    (Parse.quiet (componentFields v)).Repeats ↔ v.Repeats Field.ofTuple := by
  unfold componentFields
  refine repeats_fields_iff ?_ ?_ ?_
  · intro hpairs f hf
    rw [hpairs] at hf
    cases eq_of_refuse (Except.error.inj hf)
  · intro pairs e hpairs hcollect
    simp only [hpairs, hcollect]
  · intro pairs fs hpairs hcollect f hf
    simp only [hpairs, hcollect] at hf
    split at hf <;> cases hf

theorem repeats_ofObject_iff {known : List Field} {v : Value} :
    (Parse.quiet (Fields.ofObject known v)).Repeats ↔ v.Repeats known := by
  unfold Fields.ofObject
  refine repeats_fields_iff ?_ ?_ ?_
  · intro hpairs f hf
    rw [hpairs] at hf
    cases eq_of_refuse (Except.error.inj hf)
  · intro pairs e hpairs hcollect
    simp only [hpairs, hcollect, Outcome.mapError_error]
  · intro pairs fs hpairs hcollect f hf
    simp only [hpairs, hcollect] at hf
    cases hf

/-! ## 3. Components -/

/-- `ComesTo rules budget components depth item`: the parser of the components comes to this one.
Those in front have a type. -/
inductive ComesTo (rules : Rules) (budget : Nat) (components : Value) (depth : Int) : Value → Prop
  | intro (hcheck : rules.ceiling.check depth = .ok ()) {before after : List Value} {item : Value}
    (hitems : componentItems components = .ok (before ++ item :: after))
    (hbefore : ∀ x ∈ before, ∃ t, (parseItem rules budget depth x).outcome = .ok t) :
    ComesTo rules budget components depth item

/-- `VisitsItem rules budget s item`: to resolve the type at the site `s` the parser comes to this
object among components. -/
inductive VisitsItem (rules : Rules) : (budget : Nat) → (s : Site) → (item : Value) → Prop
  /-- It is one of the components of the tuple that the name is read as. -/
  | listed {budget : Nat} {s : Site} {item : Value} {name : Text} {named : AbiType}
    {components : Value} (htype : s.type = .text name)
    (hread : TypeName.readAt rules.ceiling name s.depth = .ok named)
    (htuple : named.element.isTuple = true) (hcomponents : s.components = some components)
    (hcomes : ComesTo rules budget components (s.depth + named.dims.length + 1) item) :
    VisitsItem rules (budget + 1) s item
  /-- It is one that the type of such a component has. -/
  | inside {budget : Nat} {s : Site} {item inner type : Value} {fs : Fields} {name : Text}
    {named : AbiType} {components : Value} (htype : s.type = .text name)
    (hread : TypeName.readAt rules.ceiling name s.depth = .ok named)
    (htuple : named.element.isTuple = true) (hcomponents : s.components = some components)
    (hcomes : ComesTo rules budget components (s.depth + named.dims.length + 1) item)
    (hfields : componentFields item = .ok (type, fs))
    (h : VisitsItem rules budget
      ⟨type, fs.get? .components, s.depth + named.dims.length + 1⟩ inner) :
    VisitsItem rules (budget + 1) s inner

/-- Components repeat a field in one that their parser comes to. -/
theorem repeats_elementsWithin_iff {components : Value} {depth : Int} :
    (elementsWithin rules (budget + 1) components depth).Repeats ↔
      ∃ item, ComesTo rules budget components depth item ∧
        (parseItem rules budget depth item).Repeats := by
  rw [elementsWithin_succ, Parse.repeats_bind_iff, or_iff_right (not_repeats_check _ _)]
  constructor
  · rintro ⟨_, hcheck, h⟩
    rw [Parse.repeats_bind_iff, or_iff_right (not_repeats_componentItems _)] at h
    obtain ⟨items, hitems, h⟩ := h
    obtain ⟨before, item, after, rfl, hbefore, h⟩ := Parse.repeats_mapM_iff.mp h
    exact ⟨item, .intro hcheck hitems hbefore, h⟩
  · rintro ⟨item, ⟨hcheck, hitems, hbefore⟩, h⟩
    refine ⟨(), hcheck, ?_⟩
    rw [Parse.repeats_bind_iff]
    exact Or.inr ⟨_, hitems, Parse.repeats_mapM_iff.mpr ⟨_, item, _, rfl, hbefore, h⟩⟩

/-- A component repeats a field of its own, or its type does. -/
theorem repeats_parseItem_iff {depth : Int} {item : Value} :
    (parseItem rules budget depth item).Repeats ↔
      item.Repeats Field.ofTuple ∨ ∃ type fs, componentFields item = .ok (type, fs) ∧
        (Site.resolve rules budget ⟨type, fs.get? .components, depth⟩).Repeats := by
  rw [parseItem, Parse.repeats_bind_iff, repeats_componentFields_iff]
  constructor
  · rintro (h | ⟨⟨type, fs⟩, hfields, h⟩)
    · exact Or.inl h
    · exact Or.inr ⟨type, fs, hfields, h⟩
  · rintro (h | ⟨type, fs, hfields, h⟩)
    · exact Or.inl h
    · exact Or.inr ⟨(type, fs), hfields, h⟩

/-- A type repeats a field in its components, and nowhere else. -/
theorem repeats_resolve_iff {s : Site} :
    (s.resolve rules budget).Repeats ↔
      ∃ name named components, s.type = .text name ∧
        TypeName.readAt rules.ceiling name s.depth = .ok named ∧ named.element.isTuple = true ∧
        s.components = some components ∧
        (elementsWithin rules budget components (s.depth + named.dims.length + 1)).Repeats := by
  rw [Site.resolve, resolve, Parse.repeats_bind_iff, or_iff_right (not_repeats_text _ _)]
  constructor
  · rintro ⟨name, htext, h⟩
    rw [Parse.repeats_bind_iff, or_iff_right (not_repeats_readAt _ _ _)] at h
    obtain ⟨named, hread, h⟩ := h
    split at h
    · next components htuple hcomponents =>
      rw [Parse.repeats_bind_iff] at h
      rcases h with h | ⟨ts, -, h⟩
      · exact ⟨name, named, components, text_eq_ok_iff.mp htext, hread, htuple, hcomponents, h⟩
      · exact absurd h (Parse.not_repeats_pure _)
    · split at h
      · obtain ⟨f, hf⟩ := h
        cases hf
      · exact absurd h (Parse.not_repeats_pure _)
    · rw [Parse.repeats_bind_iff, or_iff_right (not_repeats_idleComponents _)] at h
      obtain ⟨_, -, h⟩ := h
      exact absurd h (Parse.not_repeats_pure _)
    · exact absurd h (Parse.not_repeats_pure _)
  · rintro ⟨name, named, components, htype, hread, htuple, hcomponents, h⟩
    refine ⟨name, text_eq_ok_iff.mpr htype, ?_⟩
    rw [Parse.repeats_bind_iff]
    refine Or.inr ⟨named, hread, ?_⟩
    rw [htuple, hcomponents]
    exact Parse.repeats_bind_iff.mpr (Or.inl h)

/-- **A type repeats a field exactly if an object that its parser comes to does.** -/
theorem repeats_site_iff {s : Site} :
    (s.resolve rules budget).Repeats ↔
      ∃ item, VisitsItem rules budget s item ∧ item.Repeats Field.ofTuple := by
  induction budget generalizing s with
  | zero =>
    rw [repeats_resolve_iff]
    constructor
    · rintro ⟨_, _, _, _, _, _, _, f, hf⟩
      cases hf
    · rintro ⟨item, hvisits, -⟩
      cases hvisits
  | succ budget ih =>
    rw [repeats_resolve_iff]
    constructor
    · rintro ⟨name, named, components, htype, hread, htuple, hcomponents, h⟩
      obtain ⟨item, hcomes, h⟩ := repeats_elementsWithin_iff.mp h
      rcases repeats_parseItem_iff.mp h with h | ⟨type, fs, hfields, h⟩
      · exact ⟨item, .listed htype hread htuple hcomponents hcomes, h⟩
      · obtain ⟨inner, hvisits, h⟩ := ih.mp h
        exact ⟨inner, .inside htype hread htuple hcomponents hcomes hfields hvisits, h⟩
    · rintro ⟨item, hvisits, h⟩
      cases hvisits with
      | listed htype hread htuple hcomponents hcomes =>
        refine ⟨_, _, _, htype, hread, htuple, hcomponents, ?_⟩
        exact repeats_elementsWithin_iff.mpr ⟨item, hcomes, repeats_parseItem_iff.mpr (Or.inl h)⟩
      | inside htype hread htuple hcomponents hcomes hfields hinner =>
        refine ⟨_, _, _, htype, hread, htuple, hcomponents, ?_⟩
        refine repeats_elementsWithin_iff.mpr ⟨_, hcomes, repeats_parseItem_iff.mpr (Or.inr ?_)⟩
        exact ⟨_, _, hfields, ih.mpr ⟨item, hinner, h⟩⟩

/-! ## 4. Parameters -/

/-- Where an object stands that describes a type. -/
inductive Place where
  | event | tuple | component
deriving DecidableEq

namespace Place

/-- The fields that are known there. -/
def known : Place → List Field
  | .event => Field.ofEvent
  | .tuple | .component => Field.ofTuple

/-- Whether the name of an object is accepted there. -/
def Names (place : Place) (fs : Fields) : Prop :=
  match place with
  | .event => ∃ name, requiredName (fs.get? .name) = .ok name
  | .tuple => ∃ name, optionalName (fs.get? .name) = .ok name
  | .component => True

end Place

/-- `VisitsObject rules place v place' o`: the parser of the object `v` in its place comes to the
object `o`, which stands in the place `place'`. -/
inductive VisitsObject (rules : Rules) (place : Place) (v : Value) : Place → Value → Prop
  | top : VisitsObject rules place v place v
  /-- The name is accepted, and the components of the type are resolved. -/
  | below {fs : Fields} {type item : Value} (hfields : Fields.ofObject place.known v = .ok fs)
    (hname : place.Names fs) (htype : fs.get? .type = some type)
    (h : VisitsItem rules componentsLimit ⟨type, fs.get? .components, 0⟩ item) :
    VisitsObject rules place v .component item

/-- No object that the parser of `v` comes to repeats a field that is known in its place. -/
def SingleFields (rules : Rules) (place : Place) (v : Value) : Prop :=
  ∀ place' o, VisitsObject rules place v place' o → ¬ o.Repeats place'.known

theorem repeats_kindOf_iff {fs : Fields} :
    (kindOf rules fs).Repeats ↔
      ∃ type item, fs.get? .type = some type ∧
        VisitsItem rules componentsLimit ⟨type, fs.get? .components, 0⟩ item ∧
        item.Repeats Field.ofTuple := by
  cases htype : fs.get? .type with
  | none =>
    unfold kindOf
    rw [htype]
    refine iff_of_false ?_ nofun
    rintro ⟨f, hf⟩
    cases hf
  | some type =>
    rw [kindOf_eq_resolve htype, repeats_site_iff]
    constructor
    · rintro ⟨item, hvisits, h⟩
      exact ⟨type, item, rfl, hvisits, h⟩
    · rintro ⟨type', item, htype', hvisits, h⟩
      cases htype'
      exact ⟨item, hvisits, h⟩

/-- A parameter repeats a field at the top or below, once its name is accepted. -/
theorem repeats_parameter_iff {α β : Type} (place : Place) {v : Value}
    {name : Fields → Except Failure α} {rest : α → AbiType → Fields → Parse β}
    (hname : ∀ fs, ¬ (Parse.quiet (name fs)).Repeats)
    (hnames : ∀ fs, (∃ a, name fs = .ok a) ↔ place.Names fs)
    (hrest : ∀ a k fs, ¬ (rest a k fs).Repeats) :
    (rules.guard do
      let fs ← .quiet (Fields.ofObject place.known v)
      let a ← .quiet (name fs)
      let k ← kindOf rules fs
      rest a k fs).Repeats ↔ ∃ place' o, VisitsObject rules place v place' o ∧
        o.Repeats place'.known := by
  rw [repeats_guard_iff, Parse.repeats_bind_iff, repeats_ofObject_iff]
  constructor
  · rintro (h | ⟨fs, hfields, h⟩)
    · exact ⟨place, v, .top, h⟩
    · rw [Parse.repeats_bind_iff, or_iff_right (hname fs)] at h
      obtain ⟨a, ha, h⟩ := h
      rw [Parse.repeats_bind_iff] at h
      rcases h with h | ⟨k, -, h⟩
      · obtain ⟨type, item, htype, hvisits, h⟩ := repeats_kindOf_iff.mp h
        exact ⟨.component, item, .below hfields ((hnames fs).mp ⟨a, ha⟩) htype hvisits, h⟩
      · exact absurd h (hrest a k fs)
  · rintro ⟨place', o, hvisits, h⟩
    cases hvisits with
    | top => exact Or.inl h
    | below hfields hn htype hvisits =>
      obtain ⟨a, ha⟩ := (hnames _).mpr hn
      refine Or.inr ⟨_, hfields, ?_⟩
      refine Parse.repeats_bind_iff.mpr (Or.inr ⟨a, ha, ?_⟩)
      exact Parse.repeats_bind_iff.mpr (Or.inl (repeats_kindOf_iff.mpr ⟨_, _, htype, hvisits, h⟩))

theorem not_repeats_requiredName (v : Option Value) :
    ¬ (Parse.quiet (requiredName v)).Repeats := by
  cases v with
  | none =>
    rintro ⟨f, hf⟩
    cases hf
  | some v => exact not_repeats_text .name v

theorem not_repeats_optionalName (v : Option Value) :
    ¬ (Parse.quiet (optionalName v)).Repeats := by
  rintro ⟨f, hf⟩
  rw [Parse.outcome_quiet] at hf
  unfold optionalName at hf
  split at hf
  · cases hf
  · cases hf
  · next v _ => exact not_repeats_text .name v ⟨f, Outcome.map_eq_error_iff.mp hf⟩

theorem not_repeats_flag (v : Option Value) : ¬ (Parse.quiet (flag v)).Repeats := by
  rintro ⟨f, hf⟩
  rw [Parse.outcome_quiet] at hf
  unfold flag at hf
  split at hf
  · cases hf
  · cases hf
  · cases eq_of_refuse (Except.error.inj hf)

/-- **The parse of an event parameter ends with a repeated field exactly if an object that it comes
to repeats one.** -/
theorem eventParam_repeats_iff {v : Value} :
    (EventParam.parse rules v).Repeats ↔
      ∃ place o, VisitsObject rules .event v place o ∧ o.Repeats place.known := by
  refine repeats_parameter_iff .event (fun _ => not_repeats_requiredName _)
    (fun _ => Iff.rfl) fun name kind fs => ?_
  rw [Parse.repeats_bind_iff, or_iff_right (not_repeats_flag _)]
  rintro ⟨b, -, h⟩
  exact absurd h (Parse.not_repeats_pure _)

/-- **The parse of a tuple parameter ends with a repeated field exactly if an object that it comes
to repeats one.** -/
theorem tupleParam_repeats_iff {v : Value} :
    (TupleParam.parse rules v).Repeats ↔
      ∃ place o, VisitsObject rules .tuple v place o ∧ o.Repeats place.known :=
  repeats_parameter_iff .tuple (fun _ => not_repeats_optionalName _)
    (fun _ => Iff.rfl) fun _ _ _ => Parse.not_repeats_pure _

theorem singleFields_event_iff {v : Value} :
    SingleFields rules .event v ↔ ¬ (EventParam.parse rules v).Repeats := by
  rw [eventParam_repeats_iff]
  simp [SingleFields]

theorem singleFields_tuple_iff {v : Value} :
    SingleFields rules .tuple v ↔ ¬ (TupleParam.parse rules v).Repeats := by
  rw [tupleParam_repeats_iff]
  simp [SingleFields]

end ContractAbi
