import ContractAbi.Proofs.Parameter.FirstRepeat

/-!
# The tour of the objects

A parse that has a result came to every object that counts, in the order in which they are written:
each before those in the list that makes up its tuple, and these before whatever follows.  `Tour` is
that order.  It is a matter of the data alone, whatever the rules are; there is only one
(`tour_unique`), and it leaves nothing out (`mem_tour_iff`).

On its way a lenient parse gives one notice for each object whose components have no effect
(`Fields.idleName?`), and no other.  So its notices can be read off the tour: a parser of a single
object says so of that object (`Tells`), and a chain of parsers says what its links do
(`tourGives_mapM`).
-/

namespace ContractAbi

/-! ## 1. Tours -/

/-- `Tour waiting visited`: these are the objects that are visited while those that wait are taken
from the left, and the objects that make up the tuple of one are put in its place. -/
inductive Tour : (waiting visited : List Fields) → Prop
  | nil : Tour [] []
  /-- No components make up the type of the object. -/
  | leaf {fs : Fields} {waiting visited : List Fields}
    (hleaf : ∀ components, ¬ fs.Describe components) (h : Tour waiting visited) :
    Tour (fs :: waiting) (fs :: visited)
  | tuple {fs : Fields} {waiting inner visited : List Fields} {components : Value}
    {items : List Value} (hdescribe : fs.Describe components)
    (hitems : components.items? = some items)
    (hfields : items.mapM (Fields.ofObject Field.ofTuple) = .ok inner)
    (h : Tour (inner ++ waiting) visited) : Tour (fs :: waiting) (fs :: visited)

/-- What waits behind other objects is visited behind them. -/
theorem tour_append {as bs vs ws : List Fields} (h : Tour as vs) (h' : Tour bs ws) :
    Tour (as ++ bs) (vs ++ ws) := by
  induction h with
  | nil => exact h'
  | leaf hleaf _ ih => exact .leaf hleaf ih
  | tuple hdescribe hitems hfields _ ih =>
    rw [List.append_assoc] at ih
    exact .tuple hdescribe hitems hfields ih

/-- The components that make up a tuple are those of the object. -/
theorem Fields.Describe.unique {fs : Fields} {v w : Value} (h : fs.Describe v)
    (h' : fs.Describe w) : v = w := by
  obtain ⟨-, -, -, -, -, hv⟩ := h
  obtain ⟨-, -, -, -, -, hw⟩ := h'
  exact Option.some.inj (hv.symm.trans hw)

/-- **There is no other tour.** -/
theorem tour_unique {waiting vs ws : List Fields} (h : Tour waiting vs) (h' : Tour waiting ws) :
    vs = ws := by
  induction h generalizing ws with
  | nil =>
    cases h'
    rfl
  | leaf hleaf _ ih =>
    cases h' with
    | leaf _ h' => rw [ih h']
    | tuple hdescribe => exact absurd hdescribe (hleaf _)
  | tuple hdescribe hitems hfields _ ih =>
    cases h' with
    | leaf hleaf => exact absurd hdescribe (hleaf _)
    | tuple hdescribe' hitems' hfields' h' =>
      cases hdescribe.unique hdescribe'
      cases hitems.symm.trans hitems'
      cases hfields.symm.trans hfields'
      rw [ih h']

/-- `fs.Holds gs`: the object `gs` is one that makes up the tuple of `fs`, or that of an object in
it, at whatever level. -/
def Fields.Holds (fs gs : Fields) : Prop :=
  ∃ components item, fs.Describe components ∧ components.Holds item ∧
    Fields.ofObject Field.ofTuple item = .ok gs

/-- What an object holds stands in the list that makes up its tuple, or is held by what stands
there. -/
theorem Fields.holds_iff {fs gs : Fields} {components : Value} {items : List Value}
    {inner : List Fields} (hdescribe : fs.Describe components)
    (hitems : components.items? = some items)
    (hfields : items.mapM (Fields.ofObject Field.ofTuple) = .ok inner) :
    fs.Holds gs ↔ gs ∈ inner ∨ ∃ hs ∈ inner, hs.Holds gs := by
  have hmem := fun hs : Fields => Outcome.mem_iff_of_mapM_eq_ok hfields (b := hs)
  constructor
  · rintro ⟨components', item, hdescribe', hholds, hgs⟩
    cases hdescribe.unique hdescribe'
    cases hholds with
    | member hitems' hitem =>
      cases hitems.symm.trans hitems'
      exact Or.inl ((hmem gs).mpr ⟨item, hitem, hgs⟩)
    | @inside _ outer below _ _ hs hitems' houter hhs hbelow hholds =>
      cases hitems.symm.trans hitems'
      exact Or.inr ⟨hs, (hmem hs).mpr ⟨outer, houter, hhs⟩, below, item, hbelow, hholds, hgs⟩
  · rintro (hgs | ⟨hs, hhs, below, item, hbelow, hholds, hgs⟩)
    · obtain ⟨item, hitem, hgs⟩ := (hmem gs).mp hgs
      exact ⟨components, item, hdescribe, .member hitems hitem, hgs⟩
    · obtain ⟨outer, houter, hhs⟩ := (hmem hs).mp hhs
      exact ⟨components, item, hdescribe, .inside hitems houter hhs hbelow hholds, hgs⟩

/-- **A tour comes to the objects that wait, to those that they hold, and to no other.** -/
theorem mem_tour_iff {waiting visited : List Fields} (h : Tour waiting visited) {fs : Fields} :
    fs ∈ visited ↔ fs ∈ waiting ∨ ∃ outer ∈ waiting, outer.Holds fs := by
  induction h with
  | nil => simp
  | @leaf gs waiting visited hleaf _ ih =>
    have hnone : ¬ gs.Holds fs := fun ⟨components, _, hdescribe, _⟩ => hleaf components hdescribe
    simp only [List.mem_cons, exists_eq_or_imp, ih, hnone, false_or, or_assoc]
  | tuple hdescribe hitems hfields _ ih =>
    simp only [List.mem_cons, List.mem_append, ih, or_and_right, exists_or, exists_eq_left,
      Fields.holds_iff hdescribe hitems hfields, or_assoc, or_left_comm]

/-! ## 2. Components without effect -/

/-- The name of the type of an object, if components stand beside it that have no effect: the name
is read as something that is neither a tuple nor an array over one. -/
def Fields.idleName? (fs : Fields) : Option Text :=
  match fs.get? .type, fs.get? .components with
  | some (.text name), some _ =>
    match TypeName.read .unlimited name with
    | .ok named => if named.element.isTuple then none else some name
    | .error _ => none
  | _, _ => none

section

variable {fs : Fields} {name : Text} {named : AbiType} (htype : fs.get? .type = some (.text name))
  (hread : TypeName.read .unlimited name = .ok named)
include htype hread

/-- Components make up the type of an object if that is a tuple below its dimensions. -/
theorem Fields.describe_iff {components : Value} :
    fs.Describe components ↔
      named.element.isTuple = true ∧ fs.get? .components = some components := by
  constructor
  · rintro ⟨name', ds, spelled, htype', hread', hcomponents⟩
    cases htype.symm.trans htype'
    cases hread.symm.trans hread'
    rw [TypeTree.element_wrap]
    exact ⟨rfl, hcomponents⟩
  · rintro ⟨htuple, hcomponents⟩
    cases helement : named.element with
    | tuple spelled =>
      refine ⟨name, named.dims, spelled, htype, ?_, hcomponents⟩
      rw [← helement, TypeTree.wrap_dims_element]
      exact hread
    | _ =>
      rw [helement] at htuple
      cases htuple

/-- Otherwise they have no effect. -/
theorem Fields.idleName?_eq :
    fs.idleName? =
      if !named.element.isTuple && (fs.get? .components).isSome then some name else none := by
  unfold Fields.idleName?
  rw [htype]
  cases fs.get? .components with
  | none => simp
  | some components =>
    dsimp only
    rw [hread]
    dsimp only
    cases named.element.isTuple <;> rfl

end

/-- The names of the types beside which components have no effect, in the order of the objects. -/
def idleNames (visited : List Fields) : List Text := visited.filterMap Fields.idleName?

theorem idleNames_append (vs ws : List Fields) :
    idleNames (vs ++ ws) = idleNames vs ++ idleNames ws := List.filterMap_append ..

theorem idleNames_cons (fs : Fields) (visited : List Fields) :
    idleNames (fs :: visited) = fs.idleName?.toList ++ idleNames visited := by
  unfold idleNames
  rw [List.filterMap_cons]
  cases fs.idleName? <;> rfl

/-- `TourGives waiting notices`: there is a tour of these objects, and the notices are those of the
components without effect on it. -/
def TourGives (waiting : List Fields) (notices : List Notice) : Prop :=
  ∃ visited, Tour waiting visited ∧ notices = (idleNames visited).map .ignoredComponents

theorem tourGives_nil : TourGives [] [] := ⟨[], .nil, rfl⟩

theorem TourGives.append {as bs : List Fields} {ns ms : List Notice} (h : TourGives as ns)
    (h' : TourGives bs ms) : TourGives (as ++ bs) (ns ++ ms) := by
  obtain ⟨vs, hvs, rfl⟩ := h
  obtain ⟨ws, hws, rfl⟩ := h'
  refine ⟨vs ++ ws, tour_append hvs hws, ?_⟩
  rw [idleNames_append, List.map_append]

/-- An object that no components make up gives its own notice, if any. -/
theorem tourGives_leaf {fs : Fields} (h : ∀ components, ¬ fs.Describe components) :
    TourGives [fs] (fs.idleName?.toList.map .ignoredComponents) := by
  refine ⟨[fs], .leaf h .nil, ?_⟩
  rw [idleNames_cons, idleNames, List.filterMap_nil, List.append_nil]

/-- A tuple gives the notices of what makes it up. -/
theorem TourGives.tuple {fs : Fields} {inner : List Fields} {components : Value}
    {items : List Value} {ns : List Notice} (hdescribe : fs.Describe components)
    (hitems : components.items? = some items)
    (hfields : items.mapM (Fields.ofObject Field.ofTuple) = .ok inner) (h : TourGives inner ns) :
    TourGives [fs] ns := by
  obtain ⟨visited, htour, rfl⟩ := h
  rw [← List.append_nil inner] at htour
  refine ⟨fs :: visited, .tuple hdescribe hitems hfields htour, ?_⟩
  obtain ⟨name, ds, spelled, htype, hread, -⟩ := hdescribe
  have hidle : fs.idleName? = none := by
    rw [Fields.idleName?_eq htype hread, TypeTree.element_wrap]
    rfl
  rw [idleNames_cons, hidle]
  rfl

/-! ## 3. Types and components -/

/-- `Tells known run`: an object that has a result has these fields, and the notices of the run are
those of a tour from there. -/
def Tells {α : Type} (known : List Field) (run : Value → Parse α) : Prop :=
  ∀ v a, (run v).outcome = .ok a →
    ∃ fs, Fields.ofObject known v = .ok fs ∧ TourGives [fs] (run v).notices

/-- A quiet step behind a parse gives no more notices. -/
theorem Tells.bind_quiet {α β : Type} {known : List Field} {run : Value → Parse α}
    (h : Tells known run) (f : α → Except Failure β) :
    Tells known fun v => run v >>= fun a => .quiet (f a) := by
  intro v b hb
  obtain ⟨a, ha, -⟩ := Parse.of_bind_eq_ok hb
  rw [Parse.notices_bind_of_ok ha, Parse.notices_quiet, List.append_nil]
  exact h v a ha

/-- **Several objects tell one after another.** -/
theorem tourGives_mapM {α : Type} {known : List Field} {run : Value → Parse α}
    (hrun : Tells known run) {vs : List Value} {as : List α} (h : (vs.mapM run).outcome = .ok as) :
    ∃ fss, vs.mapM (Fields.ofObject known) = .ok fss ∧ TourGives fss (vs.mapM run).notices := by
  induction vs generalizing as with
  | nil => exact ⟨[], rfl, tourGives_nil⟩
  | cons v vs ih =>
    rw [List.mapM_cons] at h
    obtain ⟨a, ha, h⟩ := Parse.of_bind_eq_ok h
    obtain ⟨bs, hbs, -⟩ := Parse.of_bind_eq_ok h
    obtain ⟨fs, hfs, hfirst⟩ := hrun v a ha
    obtain ⟨fss, hfss, hrest⟩ := ih hbs
    refine ⟨fs :: fss, ?_, ?_⟩
    · rw [List.mapM_cons, hfs, hfss]
      rfl
    · rw [List.mapM_cons, Parse.notices_bind_of_ok ha, Parse.notices_bind_of_ok hbs,
        Parse.pure_def, List.append_nil]
      exact hfirst.append hrest

variable {c : Ceiling}

/-- A type tells of its own object, and then of its components if they make it up. -/
theorem tourGives_resolve {elements : Value → Int → Parse (List AbiType)}
    (helem : ∀ components depth ts, (elements components depth).outcome = .ok ts →
      ∃ items inner, components.items? = some items ∧
        items.mapM (Fields.ofObject Field.ofTuple) = .ok inner ∧
          TourGives inner (elements components depth).notices)
    {fs : Fields} {type : Value} {depth : Int} {t : AbiType} (htype : fs.get? .type = some type)
    (h : (resolve ⟨c, false, false⟩ elements type (fs.get? .components) depth).outcome = .ok t) :
    TourGives [fs]
      (resolve ⟨c, false, false⟩ elements type (fs.get? .components) depth).notices := by
  unfold resolve at h ⊢
  obtain ⟨name, htext, h⟩ := Parse.of_bind_eq_ok h
  obtain ⟨named, hread, h⟩ := Parse.of_bind_eq_ok h
  rw [Parse.outcome_quiet] at htext hread
  rw [htext, Parse.quiet_ok, pure_bind, hread, Parse.quiet_ok, pure_bind]
  rw [text_eq_ok_iff.mp htext] at htype
  replace hread := TypeName.read_of_readAt hread
  have hdescribe : ∀ cs, fs.Describe cs ↔
      named.element.isTuple = true ∧ fs.get? .components = some cs :=
    fun _ => Fields.describe_iff htype hread
  have hidle := Fields.idleName?_eq htype hread
  cases htuple : named.element.isTuple with
  | true =>
    cases hcomponents : fs.get? .components with
    | some components =>
      rw [htuple, hcomponents] at h
      dsimp only at h ⊢
      obtain ⟨ts, hts, -⟩ := Parse.of_bind_eq_ok h
      obtain ⟨items, inner, hitems, hfields, hgives⟩ := helem _ _ ts hts
      rw [Parse.notices_bind_of_ok hts, Parse.pure_def, List.append_nil]
      exact hgives.tuple ((hdescribe _).mpr ⟨htuple, hcomponents⟩) hitems hfields
    | none =>
      have hleaf : ∀ cs, ¬ fs.Describe cs := by
        intro cs hcs
        cases hcomponents.symm.trans ((hdescribe cs).mp hcs).2
      have hgives := tourGives_leaf hleaf
      rw [hidle, htuple] at hgives
      rw [htuple, hcomponents] at h
      dsimp only at h ⊢
      split at h
      · cases h
      · next hdims =>
        rw [if_neg hdims]
        exact hgives
  | false =>
    have hleaf : ∀ cs, ¬ fs.Describe cs := by
      intro cs hcs
      cases htuple.symm.trans ((hdescribe cs).mp hcs).1
    have hgives := tourGives_leaf hleaf
    rw [hidle, htuple] at hgives
    cases hcomponents : fs.get? .components with
    | some components =>
      rw [hcomponents] at hgives
      exact hgives
    | none =>
      rw [hcomponents] at hgives
      exact hgives

/-- **Components tell of their objects, level by level.** -/
theorem tourGives_elementsWithin {budget : Nat} {components : Value} {depth : Int}
    {ts : List AbiType}
    (h : (elementsWithin ⟨c, false, false⟩ budget components depth).outcome = .ok ts) :
    ∃ items inner, components.items? = some items ∧
      items.mapM (Fields.ofObject Field.ofTuple) = .ok inner ∧
        TourGives inner (elementsWithin ⟨c, false, false⟩ budget components depth).notices := by
  induction budget generalizing components depth ts with
  | zero => cases h
  | succ budget ih =>
    have hitem : Tells Field.ofTuple (parseItem ⟨c, false, false⟩ budget depth) := by
      intro item t ht
      obtain ⟨type, fs, hfields, htype, hresolve⟩ := parseItem_eq_ok_iff.mp ht
      refine ⟨fs, hfields, ?_⟩
      rw [parseItem, componentFields_eq_ok_iff.mpr ⟨hfields, htype⟩, Parse.quiet_ok, pure_bind]
      exact tourGives_resolve (fun _ _ _ => ih) htype hresolve
    rw [elementsWithin_succ] at h ⊢
    obtain ⟨_, hcheck, h⟩ := Parse.of_bind_eq_ok h
    obtain ⟨items, hitems, h⟩ := Parse.of_bind_eq_ok h
    rw [Parse.outcome_quiet] at hcheck hitems
    rw [hcheck, Parse.quiet_ok, pure_bind, hitems, Parse.quiet_ok, pure_bind]
    obtain ⟨inner, hfields, hgives⟩ := tourGives_mapM hitem h
    exact ⟨items, inner, componentItems_eq_ok_iff.mp hitems, hfields, hgives⟩

theorem tourGives_kindOf {fs : Fields} {budget : Nat} {t : AbiType}
    (h : (kindOf ⟨c, false, false⟩ fs budget).outcome = .ok t) :
    TourGives [fs] (kindOf ⟨c, false, false⟩ fs budget).notices := by
  obtain ⟨type, htype, hresolve⟩ := kindOf_eq_ok_iff.mp h
  rw [kindOf_eq_resolve htype]
  exact tourGives_resolve (fun _ _ _ => tourGives_elementsWithin) htype hresolve

/-! ## 4. Parameters -/

/-- **An event parameter tells of all its objects.** -/
theorem tells_eventParam (c : Ceiling) :
    Tells Field.ofEvent (EventParam.parse ⟨c, false, false⟩) := by
  intro v p h
  obtain ⟨fs, hfields, hname, hkind, hflag⟩ := eventParam_eq_ok_iff.mp h
  refine ⟨fs, hfields, ?_⟩
  unfold EventParam.parse Rules.guard
  simp only [Parse.notices_mapFailure, hfields, requiredName_eq_ok_iff.mpr hname, hflag,
    Parse.quiet_ok, pure_bind]
  rw [Parse.notices_bind_of_ok hkind, Parse.pure_def, List.append_nil]
  exact tourGives_kindOf hkind

/-- **So does a tuple parameter.** -/
theorem tells_tupleParam (c : Ceiling) (budget : Nat) :
    Tells Field.ofTuple fun v => TupleParam.parse ⟨c, false, false⟩ v budget := by
  intro v p h
  obtain ⟨fs, hfields, hname, hkind⟩ := tupleParam_eq_ok_iff.mp h
  refine ⟨fs, hfields, ?_⟩
  unfold TupleParam.parse Rules.guard
  simp only [Parse.notices_mapFailure, hfields, hname, Parse.quiet_ok, pure_bind]
  rw [Parse.notices_bind_of_ok hkind, Parse.pure_def, List.append_nil]
  exact tourGives_kindOf hkind

end ContractAbi
