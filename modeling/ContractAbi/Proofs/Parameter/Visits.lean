import ContractAbi.Parameter.Parse
import ContractAbi.Proofs.Parameter.Fields
import ContractAbi.Proofs.Parse
import ContractAbi.Proofs.TypeName.Numerals

/-!
# What a parse comes to

The type of a parameter is resolved by reading a name, and then the types of the components one
after another, in which further components may stand.  A *site* is a place where a type stands.  To
resolve the type at a site the parser comes to *points* where the parse may end otherwise than by a
plain refusal: to names, that it reads at some depth, and to values out of place, that it has to
show.  `Visits` says which points these are, and only what lies in front of the first refusal is
among them.

The parse fails as it does at any of its points (`fails_of_visits`).  Otherwise it fails by a value
that is refused, at a ceiling, or by a notice that is to be raised (`fault_of_resolve`).
-/

namespace ContractAbi

/-! ## 1. Sites -/

/-- A place where a type stands: the value that should be its name, the components beside it, and
its depth. -/
structure Site where
  type : Value
  components : Option Value
  depth : Int

/-- The type at a site.  `budget` is the number of lists of components in one another that may still
be parsed. -/
def Site.resolve (rules : Rules) (budget : Nat) (s : Site) : Parse AbiType :=
  ContractAbi.resolve rules (elementsWithin rules budget) s.type s.components s.depth

/-- The type of a parameter is that at the site of its fields. -/
theorem kindOf_eq_resolve {rules : Rules} {budget : Nat} {fs : Fields} {type : Value}
    (h : fs.get? .type = some type) :
    kindOf rules fs budget = Site.resolve rules budget ⟨type, fs.get? .components, 0⟩ := by
  rw [kindOf, h]
  rfl

/-- The type of an object among components. -/
def parseItem (rules : Rules) (budget : Nat) (depth : Int) (item : Value) : Parse AbiType := do
  let (type, fs) ← .quiet (componentFields item)
  Site.resolve rules budget ⟨type, fs.get? .components, depth⟩

/-- Components are parsed one by one. -/
theorem elementsWithin_succ (rules : Rules) (budget : Nat) (components : Value) (depth : Int) :
    elementsWithin rules (budget + 1) components depth = (do
      Parse.quiet (rules.ceiling.check depth)
      let items ← .quiet (componentItems components)
      items.mapM (parseItem rules budget depth)) := rfl

/-- `s.Opens rules components depth`: the name at the site is read as a tuple under some dimensions,
and its components lie below these, at this depth. -/
inductive Site.Opens (rules : Rules) (s : Site) : (components : Value) → (depth : Int) → Prop
  | intro {name : Text} {named : AbiType} {components : Value} (htype : s.type = .text name)
    (hread : TypeName.readAt rules.ceiling name s.depth = .ok named)
    (htuple : named.element.isTuple = true) (hcomponents : s.components = some components) :
    Opens rules s components (s.depth + named.dims.length + 1)

/-- `Enters rules budget components depth s`: the parser of the components comes to the site `s`,
the type of one of them.  Those in front have a type. -/
inductive Enters (rules : Rules) (budget : Nat) (components : Value) (depth : Int) : Site → Prop
  | intro (hcheck : rules.ceiling.check depth = .ok ()) {before after : List Value}
    {item type : Value} {fs : Fields}
    (hitems : componentItems components = .ok (before ++ item :: after))
    (hbefore : ∀ x ∈ before, ∃ t, (parseItem rules budget depth x).outcome = .ok t)
    (hfields : componentFields item = .ok (type, fs)) :
    Enters rules budget components depth ⟨type, fs.get? .components, depth⟩

/-! ## 2. Values out of place -/

variable {rules : Rules} {budget : Nat}

/-- A value that is refused is shown, if nothing stands in the way of that. -/
theorem refuse_cases {e : ParseError} {v : Value} (h : e.shown? = some v) :
    (e.obstacle? = none ∧ Failure.refuse e = .refused e) ∨
      ∃ o, v.obstacle? = some o ∧ Failure.refuse e = .unshown o := by
  have hobstacle : e.obstacle? = v.obstacle? := by rw [ParseError.obstacle?, h, Option.bind_some]
  unfold Failure.refuse
  rw [hobstacle]
  cases v.obstacle? with
  | none => exact Or.inl ⟨rfl, rfl⟩
  | some o => exact Or.inr ⟨o, rfl, rfl⟩

theorem refuse_of_obstacle {e : ParseError} {v : Value} {o : Obstacle} (h : e.shown? = some v)
    (ho : v.obstacle? = some o) : Failure.refuse e = .unshown o := by
  rw [Failure.refuse, ParseError.obstacle?, h, Option.bind_some, ho]

theorem text_eq_ok_iff {f : Field} {v : Value} {t : Text} :
    Fields.text f v = .ok t ↔ v = .text t := by
  cases v <;> simp [Fields.text]

theorem text_eq_error_iff {f : Field} {v : Value} {e : Failure} :
    Fields.text f v = .error e ↔ (∀ t, v ≠ .text t) ∧ .refuse (.fieldNotText f v) = e := by
  cases v <;> simp [Fields.text]

theorem componentItems_eq_error_iff {v : Value} {e : Failure} :
    componentItems v = .error e ↔ v.items? = none ∧ .refuse (.componentsNotList v) = e := by
  unfold componentItems
  cases v.items? <;> simp

/-- `Misfits rules budget components depth v`: the parser of the components comes to a value that is
out of place.  The components are no list, or this one of them is no object. -/
inductive Misfits (rules : Rules) (budget : Nat) (components : Value) (depth : Int) : Value → Prop
  | list (hcheck : rules.ceiling.check depth = .ok ()) (h : components.items? = none) :
    Misfits rules budget components depth components
  | item (hcheck : rules.ceiling.check depth = .ok ()) {before after : List Value} {item : Value}
    (hitems : componentItems components = .ok (before ++ item :: after))
    (hbefore : ∀ x ∈ before, ∃ t, (parseItem rules budget depth x).outcome = .ok t)
    (h : item.pairs? = none) : Misfits rules budget components depth item

/-! ## 3. Points -/

/-- Where a parse may end otherwise than by a plain refusal. -/
inductive Point where
  /-- A name that is read at a depth. -/
  | name (t : Text) (depth : Int)
  /-- A value out of place, which has to be shown. -/
  | shown (v : Value)

/-- `p.FailsBy ceiling e`: at this point a parse ends by `e`. -/
def Point.FailsBy (ceiling : Ceiling) : Point → Failure → Prop
  | .name t depth, e => TypeName.readAt ceiling t depth = .error e
  | .shown v, e => ∃ o, v.obstacle? = some o ∧ e = .unshown o

/-- `Visits rules budget s p`: to resolve the type at `s` the parser comes to the point `p`. -/
inductive Visits (rules : Rules) : (budget : Nat) → Site → Point → Prop
  | name {budget : Nat} {s : Site} {t : Text} (htype : s.type = .text t) :
    Visits rules budget s (.name t s.depth)
  | type {budget : Nat} {s : Site} (htype : ∀ t, s.type ≠ .text t) :
    Visits rules budget s (.shown s.type)
  | misfit {budget : Nat} {s : Site} {components v : Value} {depth : Int}
    (hopens : s.Opens rules components depth) (h : Misfits rules budget components depth v) :
    Visits rules (budget + 1) s (.shown v)
  | inside {budget : Nat} {s s' : Site} {components : Value} {depth : Int} {p : Point}
    (hopens : s.Opens rules components depth) (henter : Enters rules budget components depth s')
    (h : Visits rules budget s' p) : Visits rules (budget + 1) s p

/-- `ListVisits rules budget components depth p`: the parser of the components comes to `p`. -/
inductive ListVisits (rules : Rules) (budget : Nat) (components : Value) (depth : Int) :
    Point → Prop
  | misfit {v : Value} (h : Misfits rules budget components depth v) :
    ListVisits rules budget components depth (.shown v)
  | inside {s : Site} {p : Point} (henter : Enters rules budget components depth s)
    (h : Visits rules budget s p) : ListVisits rules budget components depth p

/-- A list of components fails where a value out of place cannot be shown. -/
theorem fails_of_misfits {components v : Value} {depth : Int} {o : Obstacle}
    (h : Misfits rules budget components depth v) (ho : v.obstacle? = some o) :
    (elementsWithin rules (budget + 1) components depth).outcome = .error (.unshown o) := by
  rw [elementsWithin_succ]
  cases h with
  | list hcheck hitems =>
    rw [hcheck, Parse.quiet_ok, pure_bind, componentItems_eq_error_iff.mpr ⟨hitems, rfl⟩,
      refuse_of_obstacle rfl ho]
    rfl
  | item hcheck hitems hbefore hpairs =>
    rw [hcheck, Parse.quiet_ok, pure_bind, hitems, Parse.quiet_ok, pure_bind, Parse.outcome_mapM]
    refine Outcome.mapM_eq_error_iff.mpr ⟨_, _, _, rfl, hbefore, ?_⟩
    rw [parseItem, componentFields, hpairs, refuse_of_obstacle rfl ho]
    rfl

/-- A list of components fails as the type does that its parser comes to. -/
theorem fails_of_enters {components : Value} {depth : Int} {s : Site} {e : Failure}
    (h : Enters rules budget components depth s)
    (he : (s.resolve rules budget).outcome = .error e) :
    (elementsWithin rules (budget + 1) components depth).outcome = .error e := by
  obtain ⟨hcheck, hitems, hbefore, hfields⟩ := h
  rw [elementsWithin_succ, hcheck, Parse.quiet_ok, pure_bind, hitems, Parse.quiet_ok, pure_bind,
    Parse.outcome_mapM]
  refine Outcome.mapM_eq_error_iff.mpr ⟨_, _, _, rfl, hbefore, ?_⟩
  rw [parseItem, hfields, Parse.quiet_ok, pure_bind]
  exact he

/-- A type fails as its components do. -/
theorem fails_of_opens {s : Site} {components : Value} {depth : Int} {e : Failure}
    (h : s.Opens rules components depth)
    (he : (elementsWithin rules budget components depth).outcome = .error e) :
    (s.resolve rules budget).outcome = .error e := by
  obtain ⟨htype, hread, htuple, hcomponents⟩ := h
  rw [Site.resolve, ContractAbi.resolve, htype, hcomponents]
  simp only [Fields.text, Parse.quiet_ok, pure_bind, hread, htuple, Parse.outcome_bind, he,
    Outcome.error_bind]

/-- **A type fails as the parser does at a point that it comes to.** -/
theorem fails_of_visits {s : Site} {p : Point} {e : Failure} (h : Visits rules budget s p)
    (hp : p.FailsBy rules.ceiling e) : (s.resolve rules budget).outcome = .error e := by
  induction h with
  | name htype =>
    rw [Point.FailsBy] at hp
    rw [Site.resolve, ContractAbi.resolve, htype]
    simp only [Fields.text, Parse.quiet_ok, pure_bind, hp]
    rfl
  | type htype =>
    obtain ⟨o, ho, rfl⟩ := hp
    rw [Site.resolve, ContractAbi.resolve, text_eq_error_iff.mpr ⟨htype, rfl⟩,
      refuse_of_obstacle rfl ho]
    rfl
  | misfit hopens h =>
    obtain ⟨o, ho, rfl⟩ := hp
    exact fails_of_opens hopens (fails_of_misfits h ho)
  | inside hopens henter _ ih => exact fails_of_opens hopens (fails_of_enters henter (ih hp))

theorem fails_of_listVisits {components : Value} {depth : Int} {p : Point} {e : Failure}
    (h : ListVisits rules budget components depth p) (hp : p.FailsBy rules.ceiling e) :
    (elementsWithin rules (budget + 1) components depth).outcome = .error e := by
  cases h with
  | misfit h =>
    obtain ⟨o, ho, rfl⟩ := hp
    exact fails_of_misfits h ho
  | inside henter h => exact fails_of_enters henter (fails_of_visits h hp)

/-! ## 4. Faults -/

/-- The ways in which a parse may end but for what happens at its points. -/
inductive Rules.Stops (rules : Rules) : Failure → Prop
  /-- The input is refused by a cause that can be put into words. -/
  | refused {e : ParseError} (h : e.obstacle? = none) : Stops rules (.refused e)
  /-- Components nest too deep to be parsed. -/
  | nesting : Stops rules (.refused (.tooDeep rules.ceiling))
  /-- The ceiling is passed, or is none. -/
  | ceiling (depth : Int) {e : Failure} (h : rules.ceiling.check depth = .error e) :
    Stops rules e
  /-- A notice is to be raised. -/
  | raised {n : Notice} (h : rules.raiseNotices n = true) : Stops rules (.raised n)

/-- A value out of place is refused, or cannot be shown. -/
theorem stops_or_shown (rules : Rules) {e : ParseError} {v : Value} (h : e.shown? = some v) :
    rules.Stops (.refuse e) ∨ (Point.shown v).FailsBy rules.ceiling (.refuse e) := by
  rcases refuse_cases h with ⟨hnone, heq⟩ | hshown
  · rw [heq]
    exact Or.inl (.refused hnone)
  · exact Or.inr hshown

theorem stops_of_collect {known : List Field} {pairs : List (Value × Value)} {e : ParseError}
    (h : Fields.collect known pairs = .error e) : rules.Stops (.refused e) := by
  obtain ⟨f, rfl, -⟩ := Fields.repeats_of_collect h
  exact .refused rfl

theorem stops_of_idleComponents {name : Text} {e : Failure}
    (h : (rules.idleComponents name).outcome = .error e) : rules.Stops e := by
  unfold Rules.idleComponents at h
  split at h
  · cases h
    exact .refused rfl
  · unfold Rules.give at h
    split at h
    · next hraise =>
      cases h
      exact .raised hraise
    · cases h

/-- The fields of a component are refused, or it is no object and cannot be shown. -/
theorem fault_of_componentFields {v : Value} {e : Failure} (h : componentFields v = .error e) :
    rules.Stops e ∨ (v.pairs? = none ∧ (Point.shown v).FailsBy rules.ceiling e) := by
  unfold componentFields at h
  split at h
  · next hpairs =>
    cases h
    exact (stops_or_shown rules rfl).imp_right fun hshown => ⟨hpairs, hshown⟩
  · split at h
    · next hcollect =>
      cases h
      exact Or.inl (stops_of_collect hcollect)
    · split at h
      · cases h
        exact Or.inl (.refused rfl)
      · cases h

/-- A list of components fails by itself, at a value out of place, or as one of its types. -/
theorem fault_of_elementsWithin {components : Value} {depth : Int} {e : Failure}
    (h : (elementsWithin rules (budget + 1) components depth).outcome = .error e) :
    rules.Stops e ∨
      (∃ v, Misfits rules budget components depth v ∧ (Point.shown v).FailsBy rules.ceiling e) ∨
      ∃ s, Enters rules budget components depth s ∧
        (s.resolve rules budget).outcome = .error e := by
  rw [elementsWithin_succ, Parse.outcome_bind] at h
  rcases Outcome.bind_eq_error_iff.mp h with hcheck | ⟨_, hcheck, h⟩
  · exact Or.inl (.ceiling depth hcheck)
  rw [Parse.outcome_bind] at h
  rcases Outcome.bind_eq_error_iff.mp h with hitems | ⟨items, hitems, h⟩
  · obtain ⟨hnone, rfl⟩ := componentItems_eq_error_iff.mp hitems
    exact (stops_or_shown rules rfl).imp_right fun hshown =>
      Or.inl ⟨components, .list hcheck hnone, hshown⟩
  rw [Parse.outcome_mapM] at h
  obtain ⟨before, item, after, rfl, hbefore, h⟩ := Outcome.mapM_eq_error_iff.mp h
  rw [parseItem, Parse.outcome_bind] at h
  rcases Outcome.bind_eq_error_iff.mp h with hfields | ⟨⟨type, fs⟩, hfields, h⟩
  · exact (fault_of_componentFields hfields).imp_right fun ⟨hpairs, hshown⟩ =>
      Or.inl ⟨item, .item hcheck hitems hbefore hpairs, hshown⟩
  · exact Or.inr (Or.inr ⟨_, .intro hcheck hitems hbefore hfields, h⟩)

/-- A type fails by itself, at its name, or as its components. -/
theorem fault_of_resolve_with {s : Site} {e : Failure}
    (h : (s.resolve rules budget).outcome = .error e) :
    rules.Stops e ∨ (∃ p, Visits rules budget s p ∧ p.FailsBy rules.ceiling e) ∨
      ∃ components depth, s.Opens rules components depth ∧
        (elementsWithin rules budget components depth).outcome = .error e := by
  unfold Site.resolve ContractAbi.resolve at h
  rw [Parse.outcome_bind] at h
  rcases Outcome.bind_eq_error_iff.mp h with htext | ⟨name, htext, h⟩
  · obtain ⟨htype, rfl⟩ := text_eq_error_iff.mp htext
    exact (stops_or_shown rules rfl).imp_right fun hshown => Or.inl ⟨_, .type htype, hshown⟩
  have htype : s.type = .text name := text_eq_ok_iff.mp htext
  rw [Parse.outcome_bind] at h
  rcases Outcome.bind_eq_error_iff.mp h with hread | ⟨named, hread, h⟩
  · exact Or.inr (Or.inl ⟨_, .name htype, hread⟩)
  split at h
  · next components htuple hcomponents =>
    rw [Parse.outcome_bind] at h
    rcases Outcome.bind_eq_error_iff.mp h with helem | ⟨_, -, h⟩
    · exact Or.inr (Or.inr ⟨components, _, .intro htype hread htuple hcomponents, helem⟩)
    · cases h
  · split at h
    · cases h
      exact Or.inl (.refused rfl)
    · cases h
  · rw [Parse.outcome_bind] at h
    rcases Outcome.bind_eq_error_iff.mp h with hidle | ⟨_, -, h⟩
    · exact Or.inl (stops_of_idleComponents hidle)
    · cases h
  · cases h

/-- **A type fails by itself, or as the parser does at a point that it comes to.** -/
theorem fault_of_resolve {s : Site} {e : Failure}
    (h : (s.resolve rules budget).outcome = .error e) :
    rules.Stops e ∨ ∃ p, Visits rules budget s p ∧ p.FailsBy rules.ceiling e := by
  induction budget generalizing s with
  | zero =>
    rcases fault_of_resolve_with h with h | h | ⟨components, depth, -, helem⟩
    · exact Or.inl h
    · exact Or.inr h
    · cases helem
      exact Or.inl .nesting
  | succ budget ih =>
    rcases fault_of_resolve_with h with h | h | ⟨components, depth, hopens, helem⟩
    · exact Or.inl h
    · exact Or.inr h
    rcases fault_of_elementsWithin helem with h | ⟨v, hmisfits, hshown⟩ | ⟨s', henter, h⟩
    · exact Or.inl h
    · exact Or.inr ⟨_, .misfit hopens hmisfits, hshown⟩
    · exact (ih h).imp_right fun ⟨p, hvisits, hp⟩ => ⟨p, .inside hopens henter hvisits, hp⟩

theorem fault_of_components {components : Value} {depth : Int} {e : Failure}
    (h : (elementsWithin rules (budget + 1) components depth).outcome = .error e) :
    rules.Stops e ∨ ∃ p, ListVisits rules budget components depth p ∧
      p.FailsBy rules.ceiling e := by
  rcases fault_of_elementsWithin h with h | ⟨v, hmisfits, hshown⟩ | ⟨s, henter, h⟩
  · exact Or.inl h
  · exact Or.inr ⟨_, .misfit hmisfits, hshown⟩
  · exact (fault_of_resolve h).imp_right fun ⟨p, hvisits, hp⟩ => ⟨p, .inside henter hvisits, hp⟩

end ContractAbi
