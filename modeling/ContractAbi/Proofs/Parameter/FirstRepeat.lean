import ContractAbi.Proofs.Parameter.Population
import ContractAbi.Proofs.Parameter.Repeats
import ContractAbi.Proofs.Parameter.Results
import Mathlib.Data.List.Induction

/-!
# The first repetition

An object in which a known field stands twice is refused before anything else of it is looked at,
and the refusal names the field whose second pair comes first (`Fields.FirstRepeat`).

Below the top the same holds of every object that a parse comes to.  A parse that has a result came
to all of them: to each object in a list that makes up a tuple, in whatever list of such an object
(`Value.Holds`).  So no object in it repeats a field, and no value of a repeated field is ever
silently dropped (`repeats_caught`).
-/

namespace ContractAbi

/-! ## 1. The pairs of an object -/

namespace Fields

variable {known : List Field} {found fs : Fields} {pairs ps qs : List (Value × Value)} {f : Field}

/-- `FirstRepeat known pairs f`: the earliest pair under the key of a known field that stood before
stands under the key of `f`. -/
def FirstRepeat (known : List Field) (pairs : List (Value × Value)) (f : Field) : Prop :=
  ∃ before k v after, pairs = before ++ (k, v) :: after ∧ Field.ofKey? known k = some f ∧
    valuesOf known f before ≠ [] ∧ ∀ g, (valuesOf known g before).length ≤ 1

/-- What stands behind other pairs is added to what they have. -/
theorem collectInto_append :
    collectInto known found (ps ++ qs) =
      collectInto known found ps >>= fun fs => collectInto known fs qs := by
  induction ps generalizing found with
  | nil => rfl
  | cons p ps ih =>
    obtain ⟨k, v⟩ := p
    rw [List.cons_append, collectInto, collectInto]
    split
    · exact ih
    · split
      · rfl
      · exact ih

/-- A field was found before exactly if there is a value under its key. -/
theorem valuesOf_ne_nil_iff (h : collect known ps = .ok fs) :
    valuesOf known f ps ≠ [] ↔ (fs.get? f).isSome = true := by
  rw [values_of_collect h f]
  cases fs.get? f <;> simp

/-- The pair that comes first with a repetition is the one that is refused. -/
theorem collect_of_firstRepeat (h : FirstRepeat known pairs f) :
    collect known pairs = .error (.duplicateField f) := by
  obtain ⟨before, k, v, after, rfl, hk, hvalues, hone⟩ := h
  obtain ⟨fs, hfs⟩ := exists_collect hone
  have hsome : (fs.get? f).isSome = true := (valuesOf_ne_nil_iff hfs).mp hvalues
  rw [collect, collectInto_append]
  change (collect known before >>= _) = _
  rw [hfs, Outcome.ok_bind, collectInto, hk]
  simp only [hsome, if_true]

/-- Pairs that are refused have a first repetition.  The induction is on the last pair, since only
those in front of a pair decide whether it repeats one. -/
theorem firstRepeat_of_collect {e : ParseError} (h : collect known pairs = .error e) :
    ∃ f, FirstRepeat known pairs f := by
  induction pairs using List.reverseRecOn with
  | nil => cases h
  | append_singleton ps p ih =>
    obtain ⟨k, v⟩ := p
    rw [collect, collectInto_append] at h
    rcases Outcome.bind_eq_error_iff.mp h with hps | ⟨fs, hfs, h⟩
    · obtain ⟨f, before, k', v', after, rfl, hrepeat⟩ := ih hps
      exact ⟨f, before, k', v', after ++ [(k, v)], by simp, hrepeat⟩
    · cases hk : Field.ofKey? known k with
      | none =>
        simp only [collectInto, hk] at h
        cases h
      | some f =>
        simp only [collectInto, hk] at h
        split at h
        · next hsome =>
          exact ⟨f, ps, k, v, [], rfl, hk, (valuesOf_ne_nil_iff hfs).mpr hsome,
            length_valuesOf_le hfs⟩
        · cases h

/-- **An object that repeats a known field has a first repetition**, and is refused for it. -/
theorem firstRepeat_of_repeats {v : Value} (hpairs : v.pairs? = some pairs)
    (h : v.Repeats known) :
    ∃ f, FirstRepeat known pairs f ∧
      ofObject known v = .error (.refused (.duplicateField f)) := by
  obtain ⟨e, he⟩ := (repeats_collect_iff hpairs).mpr h
  obtain ⟨f, hf⟩ := firstRepeat_of_collect he
  refine ⟨f, hf, ?_⟩
  rw [ofObject, hpairs]
  simp only [collect_of_firstRepeat hf, Outcome.mapError_error]

/-- An object whose fields were found repeats none. -/
theorem not_repeats_of_ofObject {v : Value} (h : ofObject known v = .ok fs) :
    ¬ v.Repeats known := by
  obtain ⟨pairs, hpairs, hfs⟩ := ofObject_eq_ok_iff.mp h
  intro hrepeats
  obtain ⟨e, he⟩ := (repeats_collect_iff hpairs).mpr hrepeats
  cases hfs.symm.trans he

end Fields

/-! ## 2. The objects of a parameter -/

/-- `fs.Describe components`: among these fields the components make up the tuple that the name of
the type reads as, below its dimensions. -/
def Fields.Describe (fs : Fields) (components : Value) : Prop :=
  ∃ name ds spelled, fs.get? .type = some (.text name) ∧
    TypeName.read .unlimited name = .ok (TypeTree.wrap ds (.tuple spelled)) ∧
    fs.get? .components = some components

/-- `components.Holds item`: the object stands in the list, or in one that makes up a tuple of an
object in it, at whatever level. -/
inductive Value.Holds : (components item : Value) → Prop
  | member {components item : Value} {items : List Value}
    (hitems : components.items? = some items) (hmem : item ∈ items) : Holds components item
  | inside {components outer inner item : Value} {items : List Value} {fs : Fields}
    (hitems : components.items? = some items) (hmem : outer ∈ items)
    (hfields : Fields.ofObject Field.ofTuple outer = .ok fs) (hinner : fs.Describe inner)
    (h : Holds inner item) : Holds components item

variable {rules : Rules} {budget : Nat}

/-- A type that was resolved has its components parsed, if they make up a tuple. -/
theorem elements_of_resolve {fs : Fields} {type components : Value} {depth : Int} {t : AbiType}
    (htype : fs.get? .type = some type) (hdescribe : fs.Describe components)
    (h : (Site.resolve rules budget ⟨type, fs.get? .components, depth⟩).outcome = .ok t) :
    ∃ depth' ts, (elementsWithin rules budget components depth').outcome = .ok ts := by
  obtain ⟨name, ds, spelled, hname, hread, hcomponents⟩ := hdescribe
  obtain rfl : type = .text name := Option.some.inj (htype.symm.trans hname)
  obtain ⟨name', named, heq, hat, -⟩ := of_resolve_eq_ok h
  cases heq
  cases hread.symm.trans (TypeName.read_of_readAt hat)
  rw [Site.resolve, resolve_eq_populate hat, hcomponents, populate, Parse.outcome_map] at h
  obtain ⟨ts, hts, -⟩ := Outcome.map_eq_ok_iff.mp h
  exact ⟨_, ts, hts⟩

/-- **Components that have types were parsed object by object**: each has fields, and a type. -/
theorem fields_of_mem {components item : Value} {items : List Value} {depth : Int}
    {ts : List AbiType} (hitems : components.items? = some items) (hmem : item ∈ items)
    (h : (elementsWithin rules budget components depth).outcome = .ok ts) :
    ∃ budget' type fs t, Fields.ofObject Field.ofTuple item = .ok fs ∧
      fs.get? .type = some type ∧
        (Site.resolve rules budget' ⟨type, fs.get? .components, depth⟩).outcome = .ok t := by
  cases budget with
  | zero => cases h
  | succ budget =>
    obtain ⟨-, items', hitems', hparsed⟩ := elementsWithin_eq_ok_iff.mp h
    cases hitems.symm.trans hitems'
    obtain ⟨t, ht⟩ := Outcome.exists_of_mapM_eq_ok hparsed hmem
    obtain ⟨type, fs, hfields, htype, hresolve⟩ := parseItem_eq_ok_iff.mp ht
    exact ⟨budget, type, fs, t, hfields, htype, hresolve⟩

/-- So were all that they hold. -/
theorem exists_fields_of_holds {components item : Value} {depth : Int} {ts : List AbiType}
    (hholds : components.Holds item)
    (h : (elementsWithin rules budget components depth).outcome = .ok ts) :
    ∃ fs, Fields.ofObject Field.ofTuple item = .ok fs := by
  induction hholds generalizing budget depth ts with
  | member hitems hmem =>
    obtain ⟨_, _, fs, _, hfields, -⟩ := fields_of_mem hitems hmem h
    exact ⟨fs, hfields⟩
  | inside hitems hmem hfields hinner _ ih =>
    obtain ⟨_, type, fs, t, hfields', htype, hresolve⟩ := fields_of_mem hitems hmem h
    cases hfields.symm.trans hfields'
    obtain ⟨depth', ts', hparsed⟩ := elements_of_resolve htype hinner hresolve
    exact ih hparsed

/-- What the components of a parameter hold repeats no field, if the parameter has a type. -/
theorem not_repeats_of_kindOf {fs : Fields} {t : AbiType} {components item : Value}
    (h : (kindOf rules fs budget).outcome = .ok t) (hdescribe : fs.Describe components)
    (hholds : components.Holds item) : ¬ item.Repeats Field.ofTuple := by
  obtain ⟨type, htype, hresolve⟩ := kindOf_eq_ok_iff.mp h
  obtain ⟨depth, ts, hparsed⟩ := elements_of_resolve htype hdescribe hresolve
  obtain ⟨gs, hfields⟩ := exists_fields_of_holds hholds hparsed
  exact Fields.not_repeats_of_ofObject hfields

/-! ## 3. Parsers -/

/-- `CatchesRepeats known run`: no object gets past the parser with a repeated field. -/
structure CatchesRepeats {α : Type} (known : List Field) (run : Value → Parse α) : Prop where
  /-- An object that repeats a known field is refused for its first repetition, and without a
  notice. -/
  refused : ∀ v pairs, v.pairs? = some pairs → v.Repeats known →
    ∃ f, Fields.FirstRepeat known pairs f ∧ run v = .fail (.refused (.duplicateField f))
  /-- An object that has a result repeats no known field. -/
  top : ∀ v a, (run v).outcome = .ok a → ¬ v.Repeats known
  /-- Nor does any object among its components. -/
  below : ∀ v a, (run v).outcome = .ok a → ∀ fs components item,
    Fields.ofObject known v = .ok fs → fs.Describe components → components.Holds item →
      ¬ item.Repeats Field.ofTuple

/-- A parser that looks at the fields of an object first, and then at its type, catches every
repetition. -/
theorem catchesRepeats_of_fields (rules : Rules) {α : Type} {known : List Field}
    {run : Value → Parse α}
    (hrefused : ∀ v e, Fields.ofObject known v = .error (.refused e) → run v = .fail (.refused e))
    (hok : ∀ v a, (run v).outcome = .ok a → ∃ fs t, Fields.ofObject known v = .ok fs ∧
      (kindOf rules fs).outcome = .ok t) : CatchesRepeats known run := by
  refine ⟨fun v pairs hpairs hrepeats => ?_, fun v a h => ?_, fun v a h fs components item => ?_⟩
  · obtain ⟨f, hf, hfields⟩ := Fields.firstRepeat_of_repeats hpairs hrepeats
    exact ⟨f, hf, hrefused v _ hfields⟩
  · obtain ⟨fs, t, hfields, -⟩ := hok v a h
    exact Fields.not_repeats_of_ofObject hfields
  · intro hfields hdescribe hholds
    obtain ⟨fs', t, hfields', hkind⟩ := hok v a h
    cases hfields.symm.trans hfields'
    exact not_repeats_of_kindOf hkind hdescribe hholds

/-- **Repeated fields are always caught**: at the top of an event or tuple parameter before anything
else is looked at, and in every object among the components of one that has a result. -/
theorem repeats_caught (rules : Rules) :
    CatchesRepeats Field.ofEvent (EventParam.parse rules) ∧
      CatchesRepeats Field.ofTuple (fun v => TupleParam.parse rules v) ∧
        ∀ components ts, (parseElements rules components).outcome = .ok ts →
          ∀ item, components.Holds item → ¬ item.Repeats Field.ofTuple := by
  refine ⟨catchesRepeats_of_fields rules (fun v e he => ?_) fun v p hp => ?_,
    catchesRepeats_of_fields rules (fun v e he => ?_) fun v p hp => ?_,
    fun components ts hts item hholds => ?_⟩
  · rw [EventParam.parse, he]
    rfl
  · obtain ⟨fs, hfields, -, hkind, -⟩ := eventParam_eq_ok_iff.mp hp
    exact ⟨fs, p.kind, hfields, hkind⟩
  · rw [TupleParam.parse, he]
    rfl
  · obtain ⟨fs, hfields, -, hkind⟩ := tupleParam_eq_ok_iff.mp hp
    exact ⟨fs, p.kind, hfields, hkind⟩
  · rw [parseElements, guard_eq_ok_iff] at hts
    obtain ⟨fs, hfields⟩ := exists_fields_of_holds hholds hts
    exact Fields.not_repeats_of_ofObject hfields

/-- An event parameter without a name, whose type is no text and stands twice; and components in
which one object stands below an array of another. -/
theorem repeats_caught_both :
    let rules : Rules := ⟨.limit 0, true, true⟩
    let pairs : List (Value × Value) := [(.text "type", .null), (.text "internalType", .null),
      (.text "internalType", .null), (.text "type", .text "bool"), (.text "indexed", .null),
      (.text "indexed", .null)]
    let item : Value := .record [(.text "name", .null), (.text "type", .text "bool"),
      (.text "indexed", .null), (.text "indexed", .null)]
    let outer : Value := .record [(.text "type", .text "tuple[]"),
      (.text "components", .list [item])]
    EventParam.parse rules (.record pairs) = .fail (.refused (.duplicateField .type)) ∧
      (parseElements ⟨.unlimited, true, true⟩ (.list [outer])).outcome =
          .ok [.array (.tuple [.leaf .bool])] ∧
        ¬ item.Repeats Field.ofTuple := by
  intro rules pairs item outer
  have hrepeats : Value.Repeats Field.ofEvent (.record pairs) := ⟨_, rfl, .type, by decide⟩
  obtain ⟨f, hf, hparse⟩ := (repeats_caught rules).1.refused (.record pairs) pairs rfl hrepeats
  have hcollect : Fields.collect Field.ofEvent pairs = .error (.duplicateField .type) := rfl
  cases hcollect.symm.trans (Fields.collect_of_firstRepeat hf)
  have hkinds : (parseElements ⟨.unlimited, true, true⟩ (.list [outer])).outcome =
      .ok [.array (.tuple [.leaf .bool])] := Outcome.toOption_eq_some_iff.mp (by decide +kernel)
  have hread : TypeName.read .unlimited "tuple[]" = .ok (TypeTree.wrap [none] (.tuple [])) :=
    Outcome.toOption_eq_some_iff.mp (by decide +kernel)
  have hholds : Value.Holds (.list [outer]) item :=
    .inside rfl (List.mem_singleton.mpr rfl) rfl ⟨_, _, _, rfl, hread, rfl⟩
      (.member rfl (List.mem_singleton.mpr rfl))
  exact ⟨hparse, hkinds, (repeats_caught _).2.2 _ _ hkinds item hholds⟩

end ContractAbi
