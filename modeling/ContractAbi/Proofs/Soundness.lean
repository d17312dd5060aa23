import ContractAbi.Proofs.AbiType.Reassembly
import ContractAbi.Proofs.Handled
import ContractAbi.Proofs.Parameter.Results
import ContractAbi.Proofs.TypeName.LookUps
import ContractAbi.Proofs.TypeName.Unambiguity

/-!
# Only possible types

Whatever a parser is given, it never tries to build a type that cannot exist, never reads beyond an
end, and every type it returns is one that could have been put together by hand (`parsers_sound`).

* The two ends that would be the parser's own fault are `Failure.Internal`.  The reader of names has
  them in its code, for a width that is refused behind its back and for a keyword with nothing
  behind it; that it never comes there was seen when its failures were counted
  (`fault_of_readWithin`).
* Types are well-formed because names are derived by the grammar, and because components are put
  where elements were, under the same dimensions (`wellFormed_of_resolve`).
* Look-ups that can miss are made so as to miss, and shown to be the ones that run: in the scan for
  a bracket (`TypeName.peelAt_eq`), and below the last of the arrays of a type
  (`TypeTree.innermost?_eq`).
-/

namespace ContractAbi

/-! ## 1. The last array -/

namespace TypeTree

variable {α : Type}

/-- The arrays on top of a tree, outermost first. -/
def arrays : TypeTree α → List (TypeTree α)
  | .array e => .array e :: e.arrays
  | .fixedArray e n => .fixedArray e n :: e.arrays
  | .leaf _ | .tuple _ => []

/-- What an array is an array of, if it is one. -/
def subtree? : TypeTree α → Option (TypeTree α)
  | .array e | .fixedArray e _ => some e
  | .leaf _ | .tuple _ => none

/-- What the last of the arrays on top of a tree is an array of, or the tree itself if there are
none. -/
def innermost? (t : TypeTree α) : Option (TypeTree α) :=
  if t.arrays.isEmpty then some t else t.arrays.getLast?.bind subtree?

/-- One array more on top does not change what is innermost. -/
theorem innermost?_cons {t e : TypeTree α} (harrays : t.arrays = t :: e.arrays)
    (hsub : t.subtree? = some e) : t.innermost? = e.innermost? := by
  unfold innermost?
  rw [harrays]
  cases hrest : e.arrays with
  | nil =>
    simp only [List.isEmpty_cons, Bool.false_eq_true, if_false, List.getLast?_singleton,
      Option.bind_some, List.isEmpty_nil, if_true]
    exact hsub
  | cons u us =>
    simp only [List.isEmpty_cons, Bool.false_eq_true, if_false]
    rw [List.getLast?_cons_cons]

/-- **The last array is looked up only where there is one**, and leads to the element. -/
theorem innermost?_eq (t : TypeTree α) : t.innermost? = some t.element := by
  induction t using induction with
  | leaf a => rfl
  | array e ih => exact (innermost?_cons rfl rfl).trans ih
  | fixedArray e n ih => exact (innermost?_cons rfl rfl).trans ih
  | tuple es _ => rfl

end TypeTree

/-! ## 2. Failures -/

/-- The ends of a parse that would be the parser's own fault: a type was to be built that cannot
exist, or something was read beyond its end. -/
inductive Failure.Internal : Failure → Prop
  | rejected (r : Rejection) : Internal (.rejected r)
  | offEnd : Internal .offEnd

variable {rules : Rules} {budget : Nat} {e : Failure}

theorem not_internal_of_refuse (c : ParseError) : ¬ (Failure.refuse c).Internal := by
  unfold Failure.refuse
  split <;> exact nofun

theorem not_internal_of_check {ceiling : Ceiling} {depth : Int}
    (h : ceiling.check depth = .error e) : ¬ e.Internal := by
  intro hint
  rcases Ceiling.check_eq_error h with rfl | ⟨-, rfl⟩ <;> cases hint

theorem not_internal_of_stops (h : rules.Stops e) : ¬ e.Internal := by
  cases h with
  | ceiling depth h => exact not_internal_of_check h
  | refused | nesting | raised => exact nofun

theorem not_internal_of_readAt {ceiling : Ceiling} {name : Text} {depth : Int}
    (h : TypeName.readAt ceiling name depth = .error e) : ¬ e.Internal := by
  cases TypeName.fault_of_readWithin h with
  | ceiling depth h => exact not_internal_of_check h
  | _ => exact nofun

/-- A parse that was traced ends by no fault of its own. -/
theorem not_internal_of_traces {α : Type} {p : Parse α} {visits : Point → Prop}
    (h : Traces rules p visits) (he : p.outcome = .error e) : ¬ e.Internal := by
  rcases h.fault e he with hstop | ⟨pt, -, hpt⟩
  · exact not_internal_of_stops hstop
  · cases pt with
    | name t depth => exact not_internal_of_readAt hpt
    | shown v =>
      obtain ⟨o, -, rfl⟩ := hpt
      exact nofun

/-- What cannot be shown is refused instead, which is no fault of the parser either. -/
theorem not_internal_of_guard {α : Type} {p : Parse α} {visits : Point → Prop}
    (htraces : Traces rules p visits) (h : (rules.guard p).outcome = .error e) : ¬ e.Internal := by
  obtain ⟨e', he', rfl⟩ := Outcome.mapError_eq_error_iff.mp h
  have hnot : ¬ e'.Internal := not_internal_of_traces htraces he'
  cases e' with
  | unshown o => cases o <;> exact nofun
  | _ => exact hnot

theorem not_internal_of_eventParam {v : Value}
    (h : (EventParam.parse rules v).outcome = .error e) : ¬ e.Internal := by
  obtain ⟨p, hp, htraces⟩ := traces_eventParam v
  rw [hp] at h
  exact not_internal_of_guard htraces h

theorem not_internal_of_tupleParam {v : Value}
    (h : (TupleParam.parse rules v budget).outcome = .error e) : ¬ e.Internal := by
  obtain ⟨p, hp, htraces⟩ := traces_tupleParam v
  rw [hp] at h
  exact not_internal_of_guard htraces h

theorem not_internal_of_parseList {v : Value}
    (h : (TupleParam.parseList rules v).outcome = .error e) : ¬ e.Internal := by
  unfold TupleParam.parseList at h
  split at h
  · next items _ =>
    rw [Parse.outcome_mapM] at h
    obtain ⟨before, item, after, -, -, h⟩ := Outcome.mapM_eq_error_iff.mp h
    exact not_internal_of_tupleParam h
  · cases h
    exact not_internal_of_refuse _

theorem not_internal_of_parseElements {v : Value}
    (h : (parseElements rules v).outcome = .error e) : ¬ e.Internal :=
  not_internal_of_guard (traces_elementsWithin v 0) h

/-! ## 3. Types -/

namespace AbiType

theorem wellFormed_wrap {ds : List TypeTree.Dimension} {t : AbiType} :
    WellFormed (TypeTree.wrap ds t) ↔ WellFormed t := by
  induction ds with
  | nil => exact Iff.rfl
  | cons d ds ih =>
    rw [TypeTree.wrap_cons, ← ih]
    cases d <;> exact Iff.rfl

end AbiType

theorem wellFormed_of_readAt {ceiling : Ceiling} {name : Text} {depth : Int} {t : AbiType}
    (h : TypeName.readAt ceiling name depth = .ok t) : t.WellFormed :=
  TypeName.wellFormed_of_derives (TypeName.derives_of_readWithin h)

/-- What is true of every result of a list of steps is true of every one of its members. -/
theorem forall_mem_of_mapM {α β : Type} {f : α → Except Failure β} {P : β → Prop} {l : List α}
    {bs : List β} (h : l.mapM f = .ok bs) (hf : ∀ a b, f a = .ok b → P b) : ∀ b ∈ bs, P b := by
  obtain ⟨es, -, rfl, hes⟩ := Outcome.mapM_eq_ok_iff_pairs.mp h
  intro b hb
  obtain ⟨p, hp, rfl⟩ := List.mem_map.mp hb
  exact hf p.1 p.2 (hes p hp)

/-- **A type that is resolved is well-formed**, at every depth of its components. -/
theorem wellFormed_of_resolve {s : Site} {t : AbiType}
    (h : (s.resolve rules budget).outcome = .ok t) : t.WellFormed := by
  induction budget generalizing s t with
  | zero =>
    obtain ⟨name, named, -, hread, rfl | ⟨components, ts, -, hts, -⟩⟩ := of_resolve_eq_ok h
    · exact wellFormed_of_readAt hread
    · cases hts
  | succ budget ih =>
    obtain ⟨name, named, -, hread, rfl | ⟨components, ts, -, hts, rfl⟩⟩ := of_resolve_eq_ok h
    · exact wellFormed_of_readAt hread
    · obtain ⟨-, items, -, hitems⟩ := elementsWithin_eq_ok_iff.mp hts
      refine AbiType.wellFormed_wrap.mpr (AbiType.wellFormed_tuple.mpr ?_)
      refine forall_mem_of_mapM hitems fun item u hu => ?_
      obtain ⟨type, fs, -, -, hresolve⟩ := parseItem_eq_ok_iff.mp hu
      exact ih hresolve

theorem wellFormed_of_parseItem {depth : Int} {item : Value} {t : AbiType}
    (h : (parseItem rules budget depth item).outcome = .ok t) : t.WellFormed := by
  obtain ⟨type, fs, -, -, hresolve⟩ := parseItem_eq_ok_iff.mp h
  exact wellFormed_of_resolve hresolve

theorem wellFormed_of_kindOf {fs : Fields} {t : AbiType}
    (h : (kindOf rules fs budget).outcome = .ok t) : t.WellFormed := by
  obtain ⟨type, -, hresolve⟩ := kindOf_eq_ok_iff.mp h
  exact wellFormed_of_resolve hresolve

theorem wellFormed_of_tupleParam {v : Value} {p : TupleParam}
    (h : (TupleParam.parse rules v budget).outcome = .ok p) : p.kind.WellFormed := by
  obtain ⟨fs, -, -, hkind⟩ := tupleParam_eq_ok_iff.mp h
  exact wellFormed_of_kindOf hkind

/-! ## 4. Every way into the library -/

/-- The end of a parse that returns types: it is not the parser's own fault, and every type returned
is well-formed and passes every check of the constructors. -/
structure Sound (r : Except Failure (List AbiType)) : Prop where
  blameless : ∀ e, r = .error e → ¬ e.Internal
  wellFormed : ∀ ts, r = .ok ts → ∀ t ∈ ts, t.WellFormed
  reassembles : ∀ ts, r = .ok ts → ∀ t ∈ ts, t.reassemble = .ok (Draft.ofType t)

/-- A parse whose results hold well-formed types only. -/
theorem sound_map {α : Type} {r : Except Failure α} {types : α → List AbiType}
    (hfail : ∀ e, r = .error e → ¬ e.Internal)
    (hok : ∀ a, r = .ok a → ∀ t ∈ types a, t.WellFormed) : Sound (r.map types) := by
  have hwf : ∀ ts, r.map types = .ok ts → ∀ t ∈ ts, t.WellFormed := by
    intro ts hts
    obtain ⟨a, ha, rfl⟩ := Outcome.map_eq_ok_iff.mp hts
    exact hok a ha
  refine ⟨fun e he => hfail e (Outcome.map_eq_error_iff.mp he), hwf, fun ts hts t ht => ?_⟩
  exact AbiType.reassemble_eq_ok_iff.mpr (hwf ts hts t ht)

namespace Entry

/-- The types in what a parser comes to. -/
def kinds (rules : Rules) : Entry → Value → Except Failure (List AbiType)
  | .eventParam, v => (EventParam.parse rules v).outcome.map fun p => [p.kind]
  | .tupleParam, v => (TupleParam.parse rules v).outcome.map fun p => [p.kind]
  | .tupleParamList, v => (TupleParam.parseList rules v).outcome.map fun ps => ps.map (·.kind)
  | .elements, v => (parseElements rules v).outcome.map fun ts => ts

/-- The types in what a parser comes to on a JSON source. -/
def loadKinds (rules : Rules) (entry : Entry) (source : Value) : Except Failure (List AbiType) := do
  let v ← (Json.decodeSource source).mapError .ofDecodeFault
  entry.kinds rules v

theorem sound_kinds (entry : Entry) (v : Value) : Sound (entry.kinds rules v) := by
  cases entry with
  | eventParam =>
    refine sound_map (fun e he => not_internal_of_eventParam he) fun p hp t ht => ?_
    rw [List.mem_singleton.mp ht]
    obtain ⟨fs, -, -, hkind, -⟩ := eventParam_eq_ok_iff.mp hp
    exact wellFormed_of_kindOf hkind
  | tupleParam =>
    refine sound_map (fun e he => not_internal_of_tupleParam he) fun p hp t ht => ?_
    rw [List.mem_singleton.mp ht]
    exact wellFormed_of_tupleParam hp
  | tupleParamList =>
    refine sound_map (fun e he => not_internal_of_parseList he) fun ps hps t ht => ?_
    obtain ⟨p, hp, rfl⟩ := List.mem_map.mp ht
    obtain ⟨items, -, hitems⟩ := parseList_eq_ok_iff.mp hps
    exact forall_mem_of_mapM hitems (fun _ _ h => wellFormed_of_tupleParam h) p hp
  | elements =>
    refine sound_map (fun e he => not_internal_of_parseElements he) fun ts hts => ?_
    obtain ⟨-, items, -, hitems⟩ := parseElements_eq_ok_iff.mp hts
    exact forall_mem_of_mapM hitems fun _ _ h => wellFormed_of_parseItem h

theorem sound_loadKinds (entry : Entry) (source : Value) :
    Sound (entry.loadKinds rules source) := by
  unfold loadKinds
  cases Json.decodeSource source with
  | ok v => exact sound_kinds entry v
  | error f =>
    refine ⟨fun e he => ?_, nofun, nofun⟩
    cases he
    cases f <;> exact nofun

end Entry

/-- The reading of a name at any depth. -/
theorem sound_readAt (ceiling : Ceiling) (name : Text) (depth : Int) :
    Sound ((TypeName.readAt ceiling name depth).map fun t => [t]) := by
  refine sound_map (fun e he => not_internal_of_readAt he) fun t ht u hu => ?_
  rw [List.mem_singleton.mp hu]
  exact wellFormed_of_readAt ht

theorem sound_readValue (ceiling : Ceiling) (v : Value) :
    Sound ((TypeName.readValue ceiling v).map fun t => [t]) := by
  cases v with
  | text name => exact sound_readAt ceiling name 0
  | _ =>
    refine sound_map (fun e he => ?_) nofun
    cases he
    exact not_internal_of_refuse _

/-- **No input makes a parser build an impossible type**, under any rules: no parse ends by its own
fault and every type that is returned is well-formed.  Every name that a parser reads on its way is
read so too, the brackets that are looked up by their place are found, and so is what stands below
the last array of a type. -/
theorem parsers_sound (rules : Rules) :
    (∀ v, Sound ((TypeName.readValue rules.ceiling v).map fun t => [t])) ∧
      (∀ entry v, Sound (Entry.kinds rules entry v)) ∧
      (∀ entry source, Sound (Entry.loadKinds rules entry source)) ∧
      (∀ name depth, Sound ((TypeName.readAt rules.ceiling name depth).map fun t => [t])) ∧
      (∀ name depth, TypeName.peelAt rules.ceiling depth name =
        TypeName.peel rules.ceiling depth name.reverse) ∧
      ∀ t : AbiType, t.innermost? = some t.element := by
  refine ⟨?_, ?_, ?_, ?_, ?_, ?_⟩
  · intro v
    exact sound_readValue rules.ceiling v
  · intro entry v
    exact Entry.sound_kinds entry v
  · intro entry source
    exact Entry.sound_loadKinds entry source
  · intro name depth
    exact sound_readAt rules.ceiling name depth
  · intro name depth
    exact TypeName.peelAt_eq rules.ceiling depth name
  · intro t
    exact TypeTree.innermost?_eq t

end ContractAbi
