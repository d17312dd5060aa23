import ContractAbi.Proofs.Parameter.Visits
import ContractAbi.Proofs.TypeName.Ceiling

/-!
# Components and the tuple that they describe

The name of a type may read as a tuple below any number of array dimensions.  Its components make up
that tuple and touch nothing else: the dimensions stay as they were named, and whatever elements the
name itself spells are gone (`populate`).

A tuple parameter is resolved so, and so is every object among components, at whatever level it
stands (`components_populate`).  What the components come to is what they come to alone: without a
ceiling the depth of a list does not matter, and the levels above it count only where too many lists
stand in one another.  Both follow from one comparison of two parses (`upTo_elementsWithin`).
-/

namespace ContractAbi

/-! ## 1. Populated tuples -/

/-- What a name that reads as a tuple below some dimensions comes to.  Components make up the tuple.
Without components an array stays as the name spells it, and a tuple is refused. -/
def populate (elements : Value → Parse (List AbiType)) (ds : List TypeTree.Dimension)
    (spelled : List AbiType) : Option Value → Parse AbiType
  | some components => (fun ts => TypeTree.wrap ds (.tuple ts)) <$> elements components
  | none =>
    if ds = [] then .fail (.refused (.missingField .components))
    else pure (TypeTree.wrap ds (.tuple spelled))

variable {rules : Rules} {name : Text} {ds : List TypeTree.Dimension} {spelled : List AbiType}

/-- **A name that reads as a tuple below some dimensions is populated.** -/
theorem resolve_eq_populate {elements : Value → Int → Parse (List AbiType)} {depth : Int}
    (hread : TypeName.readAt rules.ceiling name depth = .ok (TypeTree.wrap ds (.tuple spelled)))
    (components : Option Value) :
    resolve rules elements (.text name) components depth =
      populate (fun cs => elements cs (depth + ds.length + 1)) ds spelled components := by
  have htuple : (TypeTree.wrap ds (.tuple spelled) : AbiType).element.isTuple = true := by
    rw [TypeTree.element_wrap]
    rfl
  have hdims : (TypeTree.wrap ds (.tuple spelled) : AbiType).dims = ds := by
    rw [TypeTree.dims_wrap]
    exact List.append_nil ds
  unfold resolve
  simp only [Fields.text, Parse.quiet_ok, pure_bind, hread, htuple, hdims]
  cases components with
  | none => rfl
  | some components => exact (map_eq_pure_bind _ _).symm

/-! ## 2. Parses that may stop early -/

namespace Parse

variable {α β : Type} {e : ParseError} {cut : Prop} {p q : Parse α}

/-- `UpTo e cut p q`: `p` is the parse `q`, unless it is `cut` short and refused by `e`. -/
def UpTo (e : ParseError) (cut : Prop) (p q : Parse α) : Prop :=
  p = q ∨ cut ∧ p.outcome = .error (.refused e)

theorem upTo_refl (e : ParseError) (cut : Prop) (p : Parse α) : UpTo e cut p p := Or.inl rfl

/-- What is not cut short is the same. -/
theorem UpTo.eq (h : UpTo e cut p q) (hcut : ¬ cut) : p = q :=
  h.resolve_right fun hc => hcut hc.1

theorem UpTo.mono {cut' : Prop} (h : UpTo e cut p q) (hcut : cut → cut') : UpTo e cut' p q :=
  h.imp_right (And.imp_left hcut)

theorem UpTo.bind {f g : α → Parse β} (h : UpTo e cut p q) (hf : ∀ a, UpTo e cut (f a) (g a)) :
    UpTo e cut (p >>= f) (q >>= g) := by
  rcases h with rfl | ⟨hc, hp⟩
  · obtain ⟨ns, o⟩ := p
    cases o with
    | error e' => exact Or.inl rfl
    | ok a =>
      rcases hf a with ha | ⟨hc, ha⟩
      · exact Or.inl (by rw [mk_ok_bind, mk_ok_bind, ha])
      · exact Or.inr ⟨hc, ha⟩
  · refine Or.inr ⟨hc, ?_⟩
    rw [outcome_bind, hp]
    rfl

theorem upTo_mapM {f g : α → Parse β} (h : ∀ a, UpTo e cut (f a) (g a)) (l : List α) :
    UpTo e cut (l.mapM f) (l.mapM g) := by
  induction l with
  | nil => exact upTo_refl ..
  | cons a l ih =>
    rw [List.mapM_cons, List.mapM_cons]
    exact (h a).bind fun b => ih.bind fun bs => upTo_refl ..

end Parse

open Parse (UpTo upTo_refl upTo_mapM)

/-- What is shown of a refusal does not change it. -/
theorem Parse.UpTo.guard {α : Type} {e : ParseError} {cut : Prop} {p q : Parse α}
    (h : UpTo e cut p q) (rules : Rules) : UpTo e cut (rules.guard p) (rules.guard q) := by
  rcases h with rfl | ⟨hc, hp⟩
  · exact upTo_refl ..
  · refine Or.inr ⟨hc, ?_⟩
    rw [Rules.guard, Parse.outcome_mapFailure, hp]
    rfl

/-! ## 3. Levels -/

variable {e : ParseError} {cut : Prop}

theorem upTo_resolve (free : rules.ceiling = .unlimited)
    {elements elements' : Value → Int → Parse (List AbiType)}
    (helem : ∀ cs d d', UpTo e cut (elements cs d) (elements' cs d')) (type : Value)
    (components : Option Value) (d d' : Int) :
    UpTo e cut (resolve rules elements type components d)
      (resolve rules elements' type components d') := by
  unfold resolve
  refine (upTo_refl ..).bind fun typeName => ?_
  rw [free, TypeName.readAt_unlimited, TypeName.readAt_unlimited]
  refine (upTo_refl ..).bind fun named => ?_
  split
  · exact (helem ..).bind fun ts => upTo_refl ..
  · exact upTo_refl ..
  · exact upTo_refl ..
  · exact upTo_refl ..

/-- **The depth of a list of components does not matter without a ceiling, and its level only where
the budget ends.** -/
theorem upTo_elementsWithin (free : rules.ceiling = .unlimited) {b b' : Nat} (hle : b ≤ b')
    (components : Value) (d d' : Int) :
    UpTo (.tooDeep .unlimited) (b < b') (elementsWithin rules b components d)
      (elementsWithin rules b' components d') := by
  induction b generalizing b' components d d' with
  | zero =>
    cases b' with
    | zero => exact upTo_refl ..
    | succ b' =>
      refine Or.inr ⟨Nat.succ_pos b', ?_⟩
      rw [elementsWithin, free]
      rfl
  | succ b ih =>
    obtain ⟨c, rfl⟩ : ∃ c, b' = c + 1 := ⟨b' - 1, by omega⟩
    have hlists : ∀ cs d d', UpTo (.tooDeep .unlimited) (b + 1 < c + 1)
        (elementsWithin rules b cs d) (elementsWithin rules c cs d') := fun cs d d' =>
      (ih (Nat.le_of_succ_le_succ hle) cs d d').mono Nat.succ_lt_succ
    rw [elementsWithin_succ, elementsWithin_succ, free]
    refine (upTo_refl ..).bind fun _ => (upTo_refl ..).bind fun items => ?_
    refine upTo_mapM (fun item => ?_) items
    exact (upTo_refl ..).bind fun found => upTo_resolve free hlists ..

/-- A list of components comes to the same at every depth. -/
theorem elementsWithin_unlimited_depth (free : rules.ceiling = .unlimited) (budget : Nat)
    (components : Value) (d d' : Int) :
    elementsWithin rules budget components d = elementsWithin rules budget components d' :=
  (upTo_elementsWithin free (Nat.le_refl budget) components d d').eq (Nat.lt_irrefl budget)

/-- Where no ceiling is set, components come to the same below any dimensions and at any depth. -/
theorem resolve_eq_populate_alone (free : rules.ceiling = .unlimited)
    (hread : TypeName.read .unlimited name = .ok (TypeTree.wrap ds (.tuple spelled)))
    (budget : Nat) (components : Option Value) (depth : Int) :
    resolve rules (elementsWithin rules budget) (.text name) components depth =
      populate (fun cs => elementsWithin rules budget cs 0) ds spelled components := by
  have hat : TypeName.readAt rules.ceiling name depth =
      .ok (TypeTree.wrap ds (.tuple spelled)) := by
    rw [free, TypeName.readAt_unlimited]
    exact hread
  have hdepth : (fun cs => elementsWithin rules budget cs (depth + ds.length + 1)) =
      fun cs => elementsWithin rules budget cs 0 :=
    funext fun cs => elementsWithin_unlimited_depth free ..
  rw [resolve_eq_populate hat, hdepth]

/-! ## 4. Parameters -/

theorem guard_map {α β : Type} (rules : Rules) (f : α → β) (p : Parse α) :
    rules.guard (f <$> p) = f <$> rules.guard p := by
  obtain ⟨ns, o⟩ := p
  cases o <;> rfl

theorem guard_populate (rules : Rules) (elements : Value → Parse (List AbiType))
    (components : Option Value) :
    rules.guard (populate elements ds spelled components) =
      populate (fun cs => rules.guard (elements cs)) ds spelled components := by
  cases components with
  | none =>
    simp only [populate]
    split <;> rfl
  | some components => exact guard_map ..

/-- A tuple parameter has the type that its name and its components are resolved to. -/
theorem parse_eq_populate (free : rules.ceiling = .unlimited)
    (hread : TypeName.read .unlimited name = .ok (TypeTree.wrap ds (.tuple spelled)))
    {v : Value} {fs : Fields} {label : Option Text}
    (hfields : Fields.ofObject Field.ofTuple v = .ok fs)
    (htype : fs.get? .type = some (.text name))
    (hlabel : optionalName (fs.get? .name) = .ok label) :
    TupleParam.parse rules v =
      TupleParam.mk label <$>
        populate (parseElements rules) ds spelled (fs.get? .components) := by
  have hkind : kindOf rules fs =
      populate (fun cs => elements rules cs 0) ds spelled (fs.get? .components) := by
    simp only [kindOf, htype]
    exact resolve_eq_populate_alone free hread ..
  unfold TupleParam.parse
  simp only [hfields, hlabel, Parse.quiet_ok, pure_bind, hkind]
  rw [← map_eq_pure_bind, guard_map, guard_populate]
  rfl

/-- An object among components has the type that its name and its components are resolved to. -/
theorem parseItem_eq_populate (free : rules.ceiling = .unlimited)
    (hread : TypeName.read .unlimited name = .ok (TypeTree.wrap ds (.tuple spelled)))
    (budget : Nat) (depth : Int) {item : Value} {fs : Fields}
    (hfields : componentFields item = .ok (.text name, fs)) :
    parseItem rules budget depth item =
      populate (fun cs => elementsWithin rules budget cs 0) ds spelled (fs.get? .components) := by
  simp only [parseItem, hfields, Parse.quiet_ok, pure_bind]
  exact resolve_eq_populate_alone free hread ..

end ContractAbi
