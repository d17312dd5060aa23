import ContractAbi.Proofs.Parameter.Repeats
import ContractAbi.Proofs.TypeName.Ceiling
import Mathlib.Logic.Relation

/-!
# What of an object does not count

The order of the pairs of an object does not count, nor do keys that mean nothing in its place, nor
components beside a type that is no tuple, nor the names of components.  An `Edit` changes one of
these in an object or in one below it; objects that differ by any number of edits are parsed alike,
with the same notices and the same result or failure (`parse_edited`).

That holds as long as the parse does not end with a repeated field, for which of two values counts
may depend on their order.  `Parse.Alike` carries this condition through chains of parses, and an
edit far down in an object is handed up through it, one list of components at a time.
-/

namespace ContractAbi

/-! ## 1. Parses that are alike -/

namespace Parse

variable {α β : Type}

/-- `p.Alike q`: the parses are the same, unless the first ends with a repeated field. -/
def Alike (p q : Parse α) : Prop := ¬ p.Repeats → q = p

theorem alike_refl (p : Parse α) : p.Alike p := fun _ => rfl

/-- Whatever is refused for a repeated field is like anything. -/
theorem alike_of_repeats {p : Parse α} (h : p.Repeats) (q : Parse α) : p.Alike q :=
  fun hnot => absurd h hnot

/-- **Chains are alike if their steps are.** -/
theorem Alike.bind {p q : Parse α} {f g : α → Parse β} (h : p.Alike q)
    (hf : ∀ a, (f a).Alike (g a)) : (p >>= f).Alike (q >>= g) := by
  intro hnot
  have hp : ¬ p.Repeats := fun hp => hnot (repeats_bind_iff.mpr (Or.inl hp))
  rw [h hp]
  obtain ⟨ns, o⟩ := p
  cases o with
  | error e => rfl
  | ok a =>
    have ha : ¬ (f a).Repeats := fun ha => hnot (repeats_bind_iff.mpr (Or.inr ⟨a, rfl, ha⟩))
    rw [mk_ok_bind, mk_ok_bind, hf a ha]

/-- The same first step leads to parses that are alike. -/
theorem alike_bind_right (p : Parse α) {f g : α → Parse β} (hf : ∀ a, (f a).Alike (g a)) :
    (p >>= f).Alike (p >>= g) :=
  (alike_refl p).bind hf

theorem Alike.bind_left {p q : Parse α} (h : p.Alike q) (f : α → Parse β) :
    (p >>= f).Alike (q >>= f) :=
  h.bind fun a => alike_refl (f a)

/-- Lists that differ in one place are parsed alike if the two members there are. -/
theorem alike_mapM {f : α → Parse β} {a a' : α} (h : (f a).Alike (f a')) (before after : List α) :
    ((before ++ a :: after).mapM f).Alike ((before ++ a' :: after).mapM f) := by
  simp only [List.mapM_append, List.mapM_cons]
  refine alike_bind_right _ fun bs => ?_
  exact (h.bind_left _).bind_left _

end Parse

theorem Parse.Alike.guard {α : Type} {p q : Parse α} (h : p.Alike q) (rules : Rules) :
    (rules.guard p).Alike (rules.guard q) := by
  intro hnot
  have hp : ¬ p.Repeats := mt (repeats_guard_iff rules).mpr hnot
  rw [h hp]

/-! ## 2. Edits -/

/-- The name among some pairs is read as a tuple, or as an array over one. -/
def NamesTuple (pairs : List (Value × Value)) : Prop :=
  ∃ name named, .text name ∈ Field.values .type pairs ∧
    TypeName.read .unlimited name = .ok named ∧ named.element.isTuple = true

/-- `Edit place ps qs`: the pairs of an object in that place are changed in something that does not
count. -/
inductive Edit : (place : Place) → (ps qs : List (Value × Value)) → Prop
  /-- The pairs stand in another order. -/
  | permute {place : Place} {ps qs : List (Value × Value)} (h : ps.Perm qs) : Edit place ps qs
  /-- A pair is new, and its key means nothing there. -/
  | insert {place : Place} (ps qs : List (Value × Value)) {k : Value}
    (hkey : Field.ofKey? place.known k = none) (v : Value) :
    Edit place (ps ++ qs) (ps ++ (k, v) :: qs)
  /-- A pair is gone, and its key means nothing there. -/
  | delete {place : Place} (ps qs : List (Value × Value)) {k : Value}
    (hkey : Field.ofKey? place.known k = none) (v : Value) :
    Edit place (ps ++ (k, v) :: qs) (ps ++ qs)
  /-- Other components stand beside a type that is no tuple. -/
  | idle {place : Place} (ps qs : List (Value × Value)) {v : Value}
    (htype : ¬ NamesTuple (ps ++ (Field.components.value, v) :: qs)) (w : Value) :
    Edit place (ps ++ (Field.components.value, v) :: qs) (ps ++ (Field.components.value, w) :: qs)
  /-- A component has another name. -/
  | rename (ps qs : List (Value × Value)) (v w : Value) :
    Edit .component (ps ++ (Field.name.value, v) :: qs) (ps ++ (Field.name.value, w) :: qs)
  /-- A component has lost its name. -/
  | unname (ps qs : List (Value × Value)) (v : Value) :
    Edit .component (ps ++ (Field.name.value, v) :: qs) (ps ++ qs)
  /-- One of the components is edited. -/
  | inside {place : Place} (ps qs : List (Value × Value)) {os os' : List (Value × Value)}
    {v w item item' : Value} (before after : List Value)
    (hitems : v.items? = some (before ++ item :: after))
    (hitems' : w.items? = some (before ++ item' :: after)) (hpairs : item.pairs? = some os)
    (hpairs' : item'.pairs? = some os') (h : Edit .component os os') :
    Edit place (ps ++ (Field.components.value, v) :: qs) (ps ++ (Field.components.value, w) :: qs)

/-- `EditsTo place v w`: an edit makes the object `w` of the object `v`. -/
def EditsTo (place : Place) (v w : Value) : Prop :=
  ∃ ps qs, v.pairs? = some ps ∧ w.pairs? = some qs ∧ Edit place ps qs

/-- `Edits place v w`: any number of edits, one after another. -/
def Edits (place : Place) : Value → Value → Prop := Relation.ReflTransGen (EditsTo place)

/-! ## 3. Types at a site -/

variable {rules : Rules}

/-- What components stand beside a type that is no tuple does not count. -/
theorem resolve_idle {budget : Nat} {type : Value} {depth : Int} (v w : Value)
    (h : ∀ name named, type = .text name → TypeName.read .unlimited name = .ok named →
      named.element.isTuple = false) :
    Site.resolve rules budget ⟨type, some w, depth⟩ =
      Site.resolve rules budget ⟨type, some v, depth⟩ := by
  unfold Site.resolve resolve
  cases htext : Fields.text .type type with
  | error e => rfl
  | ok name =>
    rw [Parse.quiet_ok, pure_bind, pure_bind]
    cases hread : TypeName.readAt rules.ceiling name depth with
    | error e => rfl
    | ok named =>
      have htuple : named.element.isTuple = false :=
        h name named (text_eq_ok_iff.mp htext) (TypeName.read_of_readAt hread)
      rw [Parse.quiet_ok, pure_bind, pure_bind, htuple]

/-- A type is resolved alike if its components are. -/
theorem alike_resolve {budget : Nat} {v w : Value}
    (h : ∀ depth, (elementsWithin rules budget v depth).Alike (elementsWithin rules budget w depth))
    (type : Value) (depth : Int) :
    (Site.resolve rules budget ⟨type, some v, depth⟩).Alike
      (Site.resolve rules budget ⟨type, some w, depth⟩) := by
  unfold Site.resolve resolve
  refine Parse.alike_bind_right _ fun name => Parse.alike_bind_right _ fun named => ?_
  cases named.element.isTuple with
  | true => exact (h _).bind_left _
  | false => exact Parse.alike_refl _

/-- Components are parsed alike if the one in which they differ is. -/
theorem alike_elementsWithin {v w item item' : Value} {before after : List Value}
    (hitems : v.items? = some (before ++ item :: after))
    (hitems' : w.items? = some (before ++ item' :: after))
    (h : ∀ budget depth, (parseItem rules budget depth item).Alike
      (parseItem rules budget depth item')) (budget : Nat) (depth : Int) :
    (elementsWithin rules budget v depth).Alike (elementsWithin rules budget w depth) := by
  cases budget with
  | zero => exact Parse.alike_refl _
  | succ budget =>
    have hv : componentItems v = .ok (before ++ item :: after) := by rw [componentItems, hitems]
    have hw : componentItems w = .ok (before ++ item' :: after) := by rw [componentItems, hitems']
    rw [elementsWithin_succ, elementsWithin_succ, hv, hw]
    refine Parse.alike_bind_right _ fun _ => ?_
    exact Parse.alike_mapM (h budget depth) before after

/-! ## 4. What an edit keeps -/

/-- What an edit keeps of the fields of an object: those that are read as they are, and the type
that its name and components describe, at any depth and on any budget. -/
structure Keeps (rules : Rules) (place : Place) (fs gs : Fields) : Prop where
  name : place ≠ .component → gs.get? .name = fs.get? .name
  type : gs.get? .type = fs.get? .type
  indexed : gs.get? .indexed = fs.get? .indexed
  kind : ∀ type, fs.get? .type = some type → ∀ budget depth,
    (Site.resolve rules budget ⟨type, fs.get? .components, depth⟩).Alike
      (Site.resolve rules budget ⟨type, gs.get? .components, depth⟩)

/-- The same fields are kept. -/
theorem keeps_of_get? {place : Place} {fs gs : Fields} (h : ∀ f, gs.get? f = fs.get? f) :
    Keeps rules place fs gs := by
  refine ⟨fun _ => h .name, h .type, h .indexed, fun type _ budget depth => ?_⟩
  rw [h .components]
  exact Parse.alike_refl _

/-- The name of a component does not count. -/
theorem keeps_of_get?_but_name {fs gs : Fields} (h : ∀ f, f ≠ .name → gs.get? f = fs.get? f) :
    Keeps rules .component fs gs := by
  refine ⟨fun hplace => absurd rfl hplace, h .type nofun, h .indexed nofun,
    fun type _ budget depth => ?_⟩
  rw [h .components nofun]
  exact Parse.alike_refl _

theorem components_mem_known (place : Place) : Field.components ∈ place.known := by
  cases place <;> decide

theorem type_mem_known (place : Place) : Field.type ∈ place.known := by
  cases place <;> decide

/-- Other components are kept if the types that they describe are. -/
theorem keeps_of_components {place : Place} {ps qs : List (Value × Value)} {v w : Value}
    {fs : Fields}
    (h : Fields.collect place.known (ps ++ (Field.components.value, v) :: qs) = .ok fs)
    (hkind : ∀ type, fs.get? .type = some type → ∀ budget depth,
      (Site.resolve rules budget ⟨type, some v, depth⟩).Alike
        (Site.resolve rules budget ⟨type, some w, depth⟩)) :
    ∃ gs, Fields.collect place.known (ps ++ (Field.components.value, w) :: qs) = .ok gs ∧
      Keeps rules place fs gs := by
  obtain ⟨hv, gs, hgs, hw, hother⟩ := Fields.collect_replace (components_mem_known place) w h
  refine ⟨gs, hgs, fun _ => hother .name nofun, hother .type nofun, hother .indexed nofun, ?_⟩
  intro type htype budget depth
  rw [hv, hw]
  exact hkind type htype budget depth

/-- A component with the same fields, as far as they are kept, is parsed alike. -/
theorem alike_parseItem {item item' : Value} {os os' : List (Value × Value)}
    (hpairs : item.pairs? = some os) (hpairs' : item'.pairs? = some os')
    (h : ∀ fs, Fields.collect Field.ofTuple os = .ok fs →
      ∃ gs, Fields.collect Field.ofTuple os' = .ok gs ∧ Keeps rules .component fs gs)
    (budget : Nat) (depth : Int) :
    (parseItem rules budget depth item).Alike (parseItem rules budget depth item') := by
  cases hfs : Fields.collect Field.ofTuple os with
  | error e =>
    have hrep : item.Repeats Field.ofTuple := (repeats_collect_iff hpairs).mp ⟨e, hfs⟩
    exact Parse.alike_of_repeats (repeats_parseItem_iff.mpr (Or.inl hrep)) _
  | ok fs =>
    obtain ⟨gs, hgs, hkeeps⟩ := h fs hfs
    unfold parseItem componentFields
    rw [hpairs, hpairs']
    dsimp only
    rw [hfs, hgs]
    dsimp only
    rw [hkeeps.type]
    cases htype : fs.get? .type with
    | none => exact Parse.alike_refl _
    | some type => exact hkeeps.kind type htype budget depth

/-- **An edit keeps the fields of an object.**  The induction is on where the edit is made. -/
theorem Edit.keeps (rules : Rules) {place : Place} {ps qs : List (Value × Value)}
    (h : Edit place ps qs) {fs : Fields} (hfs : Fields.collect place.known ps = .ok fs) :
    ∃ gs, Fields.collect place.known qs = .ok gs ∧ Keeps rules place fs gs := by
  induction h generalizing fs with
  | permute h =>
    obtain ⟨gs, hgs, hget⟩ := Fields.collect_of_perm hfs h
    exact ⟨gs, hgs, keeps_of_get? hget⟩
  | @insert place ps qs k hkey v =>
    have hvalues : ∀ f, Fields.valuesOf place.known f (ps ++ (k, v) :: qs) =
        Fields.valuesOf place.known f (ps ++ qs) := by
      intro f
      rw [Fields.valuesOf_append, Fields.valuesOf_cons_unknown hkey, ← Fields.valuesOf_append]
    obtain ⟨gs, hgs, hget⟩ := Fields.collect_of_values hfs hvalues
    exact ⟨gs, hgs, keeps_of_get? hget⟩
  | @delete place ps qs k hkey v =>
    have hvalues : ∀ f, Fields.valuesOf place.known f (ps ++ qs) =
        Fields.valuesOf place.known f (ps ++ (k, v) :: qs) := by
      intro f
      rw [Fields.valuesOf_append, Fields.valuesOf_append, Fields.valuesOf_cons_unknown hkey]
    obtain ⟨gs, hgs, hget⟩ := Fields.collect_of_values hfs hvalues
    exact ⟨gs, hgs, keeps_of_get? hget⟩
  | @idle place ps qs v htype w =>
    refine keeps_of_components hfs fun type hget budget depth => ?_
    have hnot : ∀ name named, type = .text name → TypeName.read .unlimited name = .ok named →
        named.element.isTuple = false := by
      intro name named hname hread
      rw [← Bool.not_eq_true]
      intro htuple
      have hvalues := Fields.values_of_collect hfs .type
      rw [Fields.valuesOf_of_mem (type_mem_known place), hget, hname] at hvalues
      have hmem : Value.text name ∈
          Field.values .type (ps ++ (Field.components.value, v) :: qs) := by
        rw [hvalues]
        exact List.mem_singleton.mpr rfl
      exact htype ⟨name, named, hmem, hread, htuple⟩
    intro _
    exact resolve_idle v w hnot
  | rename ps qs v w =>
    obtain ⟨-, gs, hgs, -, hother⟩ := Fields.collect_replace (by decide) w hfs
    exact ⟨gs, hgs, keeps_of_get?_but_name hother⟩
  | unname ps qs v =>
    obtain ⟨gs, hgs, hother⟩ := Fields.collect_drop (by decide) hfs
    exact ⟨gs, hgs, keeps_of_get?_but_name hother⟩
  | @inside place ps qs os os' v w item item' before after hitems hitems' hpairs hpairs' _ ih =>
    refine keeps_of_components hfs fun type _ budget depth => ?_
    have hitem : ∀ budget depth, (parseItem rules budget depth item).Alike
        (parseItem rules budget depth item') :=
      alike_parseItem hpairs hpairs' fun fs hfs => ih hfs
    exact alike_resolve (alike_elementsWithin hitems hitems' hitem budget) type depth

/-! ## 5. Parameters -/

theorem Keeps.kindOf {place : Place} {fs gs : Fields} (h : Keeps rules place fs gs) :
    (ContractAbi.kindOf rules fs).Alike (ContractAbi.kindOf rules gs) := by
  cases htype : fs.get? .type with
  | none =>
    unfold ContractAbi.kindOf
    rw [h.type, htype]
    exact Parse.alike_refl _
  | some type =>
    have htype' : gs.get? .type = some type := by rw [h.type, htype]
    rw [kindOf_eq_resolve htype, kindOf_eq_resolve htype']
    exact h.kind type htype _ _

/-- What an edit makes of the fields of an object, if they are not refused. -/
theorem EditsTo.ofObject (rules : Rules) {place : Place} {v w : Value} (h : EditsTo place v w) :
    (Parse.quiet (Fields.ofObject place.known v)).Repeats ∨
      ∃ fs gs, Fields.ofObject place.known v = .ok fs ∧ Fields.ofObject place.known w = .ok gs ∧
        Keeps rules place fs gs := by
  obtain ⟨ps, qs, hps, hqs, hedit⟩ := h
  cases hfs : Fields.collect place.known ps with
  | error e => exact Or.inl (repeats_ofObject_iff.mpr ((repeats_collect_iff hps).mp ⟨e, hfs⟩))
  | ok fs =>
    obtain ⟨gs, hgs, hkeeps⟩ := hedit.keeps rules hfs
    refine Or.inr ⟨fs, gs, ?_, ?_, hkeeps⟩
    · rw [Fields.ofObject, hps]
      dsimp only
      rw [hfs, Outcome.mapError_ok]
    · rw [Fields.ofObject, hqs]
      dsimp only
      rw [hgs, Outcome.mapError_ok]

theorem EditsTo.alike_eventParam {v w : Value} (h : EditsTo .event v w) :
    (EventParam.parse rules v).Alike (EventParam.parse rules w) := by
  refine Parse.Alike.guard ?_ rules
  rcases h.ofObject rules with hrep | ⟨fs, gs, hfs, hgs, hkeeps⟩
  · exact Parse.alike_of_repeats (Parse.repeats_bind_iff.mpr (Or.inl hrep)) _
  · rw [show Field.ofEvent = Place.event.known from rfl, hfs, hgs, Parse.quiet_ok, pure_bind,
      Parse.quiet_ok, pure_bind, hkeeps.name nofun, hkeeps.indexed]
    exact Parse.alike_bind_right _ fun name => hkeeps.kindOf.bind_left _

theorem EditsTo.alike_tupleParam {v w : Value} (h : EditsTo .tuple v w) :
    (TupleParam.parse rules v).Alike (TupleParam.parse rules w) := by
  refine Parse.Alike.guard ?_ rules
  rcases h.ofObject rules with hrep | ⟨fs, gs, hfs, hgs, hkeeps⟩
  · exact Parse.alike_of_repeats (Parse.repeats_bind_iff.mpr (Or.inl hrep)) _
  · rw [show Field.ofTuple = Place.tuple.known from rfl, hfs, hgs, Parse.quiet_ok, pure_bind,
      Parse.quiet_ok, pure_bind, hkeeps.name nofun]
    exact Parse.alike_bind_right _ fun name => hkeeps.kindOf.bind_left _

/-- What every single edit leaves alike stays the same under any number of them. -/
theorem Edits.eq_of_alike {α : Type} {place : Place} {parse : Value → Parse α} {v w : Value}
    (h : Edits place v w) (hstep : ∀ v w, EditsTo place v w → (parse v).Alike (parse w))
    (hv : ¬ (parse v).Repeats) : parse w = parse v := by
  induction h with
  | refl => rfl
  | @tail u w _ hedit ih =>
    have hu : ¬ (parse u).Repeats := by rwa [ih]
    rw [hstep u w hedit hu, ih]

/-- **What does not count makes no difference.**  Objects of which no field is repeated are parsed
alike, with the same notices and the same end, however they are edited. -/
theorem parse_edited (rules : Rules) {v w : Value} :
    (SingleFields rules .event v → Edits .event v w →
        EventParam.parse rules w = EventParam.parse rules v) ∧
      (SingleFields rules .tuple v → Edits .tuple v w →
        TupleParam.parse rules w = TupleParam.parse rules v) := by
  constructor
  · intro hsingle hedits
    exact hedits.eq_of_alike (fun _ _ h => h.alike_eventParam) (singleFields_event_iff.mp hsingle)
  · intro hsingle hedits
    exact hedits.eq_of_alike (fun _ _ h => h.alike_tupleParam) (singleFields_tuple_iff.mp hsingle)

/-- A component is renamed and carries other components in vain, a key that means nothing comes in,
and the pairs are turned round. -/
theorem parse_edited_shuffled :
    let v : Value := .record [(.text "name", .text "pair"), (.text "type", .text "tuple[2]"),
      (.text "components", .list [.record
        [(.text "name", .text "a"), (.text "type", .text "bool"), (.text "components", .int 1)]])]
    let w : Value := .mapping [(.text "note", .null),
      (.text "components", .tuple [.record
        [(.text "name", .int 7), (.text "type", .text "bool"), (.text "components", .null)]]),
      (.text "type", .text "tuple[2]"), (.text "name", .text "pair")]
    let rules : Rules := ⟨.limit 3, false, false⟩
    (SingleFields rules .event v ∧ Edits .event v w ∧
        EventParam.parse rules w = EventParam.parse rules v) ∧
      (SingleFields rules .tuple v ∧ Edits .tuple v w ∧
        TupleParam.parse rules w = TupleParam.parse rules v) := by
  intro v w rules
  have hbool : ¬ NamesTuple
      [(.text "name", .int 7), (.text "type", .text "bool"), (.text "components", .int 1)] := by
    rintro ⟨name, named, hmem, hread, htuple⟩
    have hname : name = "bool" := by simpa [Field.values, Field.isKey, Field.label] using hmem
    have hleaf : TypeName.read .unlimited "bool" = .ok (.leaf .bool) :=
      Outcome.toOption_eq_some_iff.mp (by decide +kernel)
    rw [hname, hleaf] at hread
    cases hread
    cases htuple
  -- The parameter with its components, as it is after each of the edits below it.
  let top (item : List (Value × Value)) : List (Value × Value) :=
    [(.text "name", .text "pair"), (.text "type", .text "tuple[2]"),
      (.text "components", .tuple [.record item])]
  let renamed : List (Value × Value) :=
    [(.text "name", .int 7), (.text "type", .text "bool"), (.text "components", .int 1)]
  let idle : List (Value × Value) :=
    [(.text "name", .int 7), (.text "type", .text "bool"), (.text "components", .null)]
  have hedits : ∀ place, Field.ofKey? (Place.known place) (.text "note") = none →
      Edits place v w := by
    intro place hnote
    have hrename : EditsTo place v (.record (top renamed)) :=
      ⟨_, _, rfl, rfl, .inside [_, _] [] [] [] rfl rfl rfl rfl (.rename [] _ _ _)⟩
    have hidle : EditsTo place (.record (top renamed)) (.record (top idle)) :=
      ⟨_, _, rfl, rfl, .inside [_, _] [] [] [] rfl rfl rfl rfl
        (.idle [_, _] [] hbool _)⟩
    have hinsert : EditsTo place (.record (top idle))
        (.mapping (top idle ++ [(.text "note", .null)])) :=
      ⟨_, _, rfl, rfl, .insert (top idle) [] hnote _⟩
    have hpermute : EditsTo place (.mapping (top idle ++ [(.text "note", .null)])) w :=
      ⟨_, _, rfl, rfl, .permute (List.reverse_perm _).symm⟩
    exact (((Relation.ReflTransGen.single hrename).tail hidle).tail hinsert).tail hpermute
  have hevent : SingleFields rules .event v := by
    have hok : (EventParam.parse rules v).outcome =
        .ok ⟨"pair", .fixedArray (.tuple [.leaf .bool]) 2, false⟩ :=
      Outcome.toOption_eq_some_iff.mp (by decide +kernel)
    exact singleFields_event_iff.mpr (Parse.not_repeats_of_ok hok)
  have htuple : SingleFields rules .tuple v := by
    have hok : (TupleParam.parse rules v).outcome =
        .ok ⟨some "pair", .fixedArray (.tuple [.leaf .bool]) 2⟩ :=
      Outcome.toOption_eq_some_iff.mp (by decide +kernel)
    exact singleFields_tuple_iff.mpr (Parse.not_repeats_of_ok hok)
  have heditsEvent : Edits .event v w := hedits .event (by decide)
  have heditsTuple : Edits .tuple v w := hedits .tuple (by decide)
  exact ⟨⟨hevent, heditsEvent, (parse_edited rules).1 hevent heditsEvent⟩,
    htuple, heditsTuple, (parse_edited rules).2 htuple heditsTuple⟩

end ContractAbi
