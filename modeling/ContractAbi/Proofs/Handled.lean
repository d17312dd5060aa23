import ContractAbi.Proofs.Json.LongNumber
import ContractAbi.Proofs.Parameter.Visits

/-!
# What a caller has to handle

A caller handles results and refusals that can be put into words.  Under settings that were checked,
and with no notice to be raised, a call ends in one of these but for three reasons.

* It comes to a number of too many digits, in a type name (`NameMeets`) or in a JSON text
  (`Json.MeetsLong`).
* It refuses a value that cannot be shown.  For a whole number of too many digits in that value this
  is so in every parser.  The parsers of one parameter turn a value that nests too deep into a
  refusal for nesting; those of a name and of a list of parameters do not.
* It refuses for nesting, and the ceiling has too many digits to be written
  (`overlong_ofOption_iff`).

`handled_iff` says that these are the only reasons, and that each of them is one: it is exact for
every way into the library.

A parser is described by the points that it comes to (`Traces`), and its steps are put together by
`Traces.bind`.  What remains is to see at which points it ends by no refusal (`Point.Escapes`).
-/

namespace ContractAbi

/-! ## 1. Results and refusals -/

/-- A step ends in a result, or in a refusal that can be put into words. -/
def Handled {α : Type} (r : Except Failure α) : Prop :=
  ∀ f, r = .error f → ∃ e, f = .refused e ∧ e.obstacle? = none

/-- A step refuses for nesting, and the ceiling cannot be written. -/
def Overlong {α : Type} (ceiling : Ceiling) (r : Except Failure α) : Prop :=
  ceiling.toValue.obstacle? ≠ none ∧ r = .error (.refused (.tooDeep ceiling))

/-- Under such rules a depth is refused or allowed, and notices are no failures. -/
structure Rules.Settled (rules : Rules) : Prop where
  quiet : ∀ n, rules.raiseNotices n = false
  comparable : ∀ depth, rules.ceiling.exceededBy? depth ≠ none

/-- Checked settings settle the rules. -/
theorem settled_ofOption (m : Option Int) (strict : Bool) :
    Rules.Settled ⟨.ofOption m, strict, false⟩ := by
  refine ⟨fun _ => rfl, fun depth => ?_⟩
  cases m <;> simp [Ceiling.ofOption]

/-- Refusals, whether or not the ceiling in them can be written. -/
inductive Rules.Refuses (rules : Rules) : Failure → Prop
  | worded {e : ParseError} (h : e.obstacle? = none) : Refuses rules (.refused e)
  | tooDeep : Refuses rules (.refused (.tooDeep rules.ceiling))

variable {rules : Rules} {budget : Nat}

theorem handled_map_iff {α β : Type} {r : Except Failure α} {f : α → β} :
    Handled (r.map f) ↔ Handled r := by
  simp only [Handled, Outcome.map_eq_error_iff]

/-- A step with an unwritten ceiling is not handled. -/
theorem Overlong.not_handled {α : Type} {ceiling : Ceiling} {r : Except Failure α}
    (h : Overlong ceiling r) : ¬ Handled r := by
  intro hr
  obtain ⟨e, he, hnone⟩ := hr _ h.2
  cases he
  exact h.1 hnone

/-- Of the ceilings that pass a check, only those of too many digits are unwritten. -/
theorem overlong_ofOption_iff {α : Type} {m : Option Int} {r : Except Failure α} :
    Overlong (.ofOption m) r ↔
      ∃ i, m = some i ∧ ¬ Decimal.Fits i.natAbs ∧ r = .error (.refused (.tooDeep (.limit i))) := by
  have hobstacle : ∀ i : Int, (Value.int i).obstacle? ≠ none ↔ ¬ Decimal.Fits i.natAbs := by
    intro i
    rw [Value.obstacle?, Value.quoteWithin, enter, if_pos (by decide), Decimal.check]
    by_cases hfits : Decimal.Fits i.natAbs
    · rw [if_pos hfits]
      exact iff_of_false (fun h => h rfl) (fun h => h hfits)
    · rw [if_neg hfits]
      exact iff_of_true nofun hfits
  cases m with
  | none => exact iff_of_false (fun h => h.1 rfl) nofun
  | some i =>
    rw [Overlong, Ceiling.ofOption, Ceiling.toValue, hobstacle]
    constructor
    · rintro ⟨hfits, hr⟩
      exact ⟨i, rfl, hfits, hr⟩
    · rintro ⟨j, hj, hfits, hr⟩
      cases hj
      exact ⟨hfits, hr⟩

/-- A refusal is handled, unless the ceiling in it cannot be written. -/
theorem Rules.Refuses.handled {e : Failure} (h : rules.Refuses e) {α : Type}
    (hceiling : ¬ Overlong rules.ceiling (.error e : Except Failure α)) :
    ∃ e', e = .refused e' ∧ e'.obstacle? = none := by
  cases h with
  | worded h => exact ⟨_, rfl, h⟩
  | tooDeep => exact ⟨_, rfl, not_not.mp fun hobstacle => hceiling ⟨hobstacle, rfl⟩⟩

namespace Rules.Settled

theorem refuses_of_check (settled : rules.Settled) {depth : Int} {e : Failure}
    (h : rules.ceiling.check depth = .error e) : rules.Refuses e := by
  rcases Ceiling.check_eq_error h with rfl | ⟨hnone, -⟩
  · exact .tooDeep
  · exact absurd hnone (settled.comparable depth)

theorem refuses_of_stops (settled : rules.Settled) {e : Failure} (h : rules.Stops e) :
    rules.Refuses e := by
  cases h with
  | refused h => exact .worded h
  | nesting => exact .tooDeep
  | ceiling depth h => exact settled.refuses_of_check h
  | @raised n h => exact absurd (h.symm.trans (settled.quiet n)) (by decide)

/-- The reader of a name shows no value. -/
theorem refuses_of_readAt (settled : rules.Settled) {name : Text} {depth : Int} {e : Failure}
    (h : TypeName.readAt rules.ceiling name depth = .error e) :
    rules.Refuses e ∨ ∃ n, e = .longNumber n := by
  cases TypeName.fault_of_readWithin h with
  | spelling | number => exact Or.inl (.worded rfl)
  | long => exact Or.inr ⟨_, rfl⟩
  | ceiling depth h => exact Or.inl (settled.refuses_of_check h)
  | nesting => exact Or.inl .tooDeep

end Rules.Settled

/-! ## 2. Points -/

/-- The reader of a name that stands at a depth comes to a number of too many digits. -/
def NameMeets (ceiling : Ceiling) (name : Text) (depth : Int) : Prop :=
  ∃ ds, TypeName.Meets ceiling (TypeName.bracketLimit + 1) name depth ds ∧
    Decimal.digitLimit < ds.length

/-- A parser that comes to this point ends there, and not by a refusal: a number in the name has too
many digits, or one in the value that is to be shown. -/
def Point.Escapes (ceiling : Ceiling) : Point → Prop
  | .name t depth => NameMeets ceiling t depth
  | .shown v => v.obstacle? = some .digits

theorem nameMeets_iff {ceiling : Ceiling} {name : Text} {depth : Int} :
    NameMeets ceiling name depth ↔
      ∃ n, TypeName.readAt ceiling name depth = .error (.longNumber n) := by
  simp only [TypeName.readAt, TypeName.readWithin_eq_longNumber_iff]
  constructor
  · rintro ⟨ds, hmeets, hlen⟩
    exact ⟨_, ds, hmeets, hlen, rfl⟩
  · rintro ⟨_, ds, hmeets, hlen, -⟩
    exact ⟨ds, hmeets, hlen⟩

/-- `Traces rules p visits`: a parse fails as it does at any of these points, and otherwise by
itself. -/
structure Traces (rules : Rules) {α : Type} (p : Parse α) (visits : Point → Prop) : Prop where
  fails : ∀ pt e, visits pt → pt.FailsBy rules.ceiling e → p.outcome = .error e
  fault : ∀ e, p.outcome = .error e →
    rules.Stops e ∨ ∃ pt, visits pt ∧ pt.FailsBy rules.ceiling e

namespace Traces

variable {α β : Type}

/-- The points may be described in any way. -/
theorem congr {p : Parse α} {visits visits' : Point → Prop} (h : Traces rules p visits)
    (hiff : ∀ pt, visits pt ↔ visits' pt) : Traces rules p visits' := by
  obtain rfl : visits = visits' := funext fun pt => propext (hiff pt)
  exact h

theorem pure (a : α) : Traces rules (Pure.pure a) fun _ => False :=
  ⟨fun _ _ h => h.elim, nofun⟩

/-- **A chain comes to the points of its first step, and then to those behind it.** -/
theorem bind {p : Parse α} {f : α → Parse β} {visits : Point → Prop} {behind : α → Point → Prop}
    (hp : Traces rules p visits) (hf : ∀ a, Traces rules (f a) (behind a)) :
    Traces rules (p >>= f) fun pt => visits pt ∨ ∃ a, p.outcome = .ok a ∧ behind a pt := by
  constructor
  · rintro pt e (h | ⟨a, ha, h⟩) hpt
    · rw [Parse.outcome_bind, hp.fails pt e h hpt, Outcome.error_bind]
    · rw [Parse.outcome_bind, ha, Outcome.ok_bind]
      exact (hf a).fails pt e h hpt
  · intro e he
    rw [Parse.outcome_bind] at he
    rcases Outcome.bind_eq_error_iff.mp he with he | ⟨a, ha, he⟩
    · exact (hp.fault e he).imp_right fun ⟨pt, h, hpt⟩ => ⟨pt, Or.inl h, hpt⟩
    · exact ((hf a).fault e he).imp_right fun ⟨pt, h, hpt⟩ => ⟨pt, Or.inr ⟨a, ha, h⟩, hpt⟩

/-- A step comes to the values that it refuses and shows, and to nothing else. -/
theorem quiet {r : Except Failure α} {shows : Value → Prop}
    (hshows : ∀ v, shows v → ∃ e : ParseError, e.shown? = some v ∧ r = .error (.refuse e))
    (hfault : ∀ e, r = .error e →
      rules.Stops e ∨ ∃ v c, shows v ∧ ParseError.shown? c = some v ∧ e = .refuse c) :
    Traces rules (.quiet r) fun pt => ∃ v, pt = .shown v ∧ shows v := by
  constructor
  · rintro pt e ⟨v, rfl, hv⟩ ⟨o, ho, rfl⟩
    obtain ⟨c, hshown, rfl⟩ := hshows v hv
    rw [Parse.outcome_quiet, refuse_of_obstacle hshown ho]
  · intro e he
    rcases hfault e he with hstop | ⟨v, c, hv, hshown, rfl⟩
    · exact Or.inl hstop
    · exact (stops_or_shown rules hshown).imp_right fun hpt => ⟨_, ⟨v, rfl, hv⟩, hpt⟩

end Traces

/-! ## 3. Refusals for nesting -/

/-- What cannot be shown for its nesting is refused, so a refusal is all there is where no point
escapes. -/
theorem refuses_of_guard (settled : rules.Settled) {α : Type} {p : Parse α}
    {visits : Point → Prop} (h : Traces rules p visits)
    (hescape : ¬ ∃ pt, visits pt ∧ pt.Escapes rules.ceiling) {f : Failure}
    (hf : (rules.guard p).outcome = .error f) : rules.Refuses f := by
  have hguard : ∀ e, rules.Refuses e → p.outcome = .error e → rules.Refuses f := by
    intro e he hp
    obtain ⟨e', he', rfl⟩ := Outcome.mapError_eq_error_iff.mp hf
    cases hp.symm.trans he'
    cases he with
    | worded hnone => exact .worded hnone
    | tooDeep => exact .tooDeep
  obtain ⟨e, he, hfe⟩ := Outcome.mapError_eq_error_iff.mp hf
  rcases h.fault e he with hstop | ⟨pt, hvisits, hpt⟩
  · exact hguard e (settled.refuses_of_stops hstop) he
  · cases pt with
    | name t depth =>
      rcases settled.refuses_of_readAt hpt with hr | ⟨n, rfl⟩
      · exact hguard e hr he
      · exact absurd ⟨_, hvisits, nameMeets_iff.mpr ⟨n, hpt⟩⟩ hescape
    | shown v =>
      obtain ⟨o, ho, rfl⟩ := hpt
      cases o with
      | nesting =>
        cases hfe
        exact .tooDeep
      | digits => exact absurd ⟨_, hvisits, ho⟩ hescape

/-- At a point that escapes a parse is not handled. -/
theorem not_handled_of_escapes {α : Type} {p : Parse α} {visits : Point → Prop}
    (h : Traces rules p visits) {pt : Point} (hvisits : visits pt)
    (hpt : pt.Escapes rules.ceiling) : ¬ Handled (rules.guard p).outcome := by
  intro hhandled
  cases pt with
  | name t depth =>
    obtain ⟨n, hn⟩ := nameMeets_iff.mp hpt
    have hp := h.fails _ _ hvisits hn
    obtain ⟨e, he, -⟩ := hhandled _ (Outcome.mapError_eq_error_iff.mpr ⟨_, hp, rfl⟩)
    cases he
  | shown v =>
    have hp := h.fails _ _ hvisits ⟨.digits, hpt, rfl⟩
    obtain ⟨e, he, -⟩ := hhandled _ (Outcome.mapError_eq_error_iff.mpr ⟨_, hp, rfl⟩)
    cases he

/-- **Where nesting is refused, a parse is handled exactly if no point that it comes to escapes**,
and no unwritten ceiling stands in its refusal. -/
theorem handled_guard_iff (settled : rules.Settled) {α : Type} {p : Parse α}
    {visits : Point → Prop} (h : Traces rules p visits) :
    Handled (rules.guard p).outcome ↔ ¬ (Overlong rules.ceiling (rules.guard p).outcome ∨
      ∃ pt, visits pt ∧ pt.Escapes rules.ceiling) := by
  constructor
  · rintro hhandled (hover | ⟨pt, hvisits, hpt⟩)
    · exact hover.not_handled hhandled
    · exact not_handled_of_escapes h hvisits hpt hhandled
  · intro hno f hf
    obtain ⟨hover, hescape⟩ := not_or.mp hno
    exact (refuses_of_guard settled h hescape hf).handled (hf ▸ hover)

/-! ## 4. Parameters -/

theorem traces_resolve (s : Site) : Traces rules (s.resolve rules budget) (Visits rules budget s) :=
  ⟨fun _ _ h hp => fails_of_visits h hp, fun _ he => fault_of_resolve he⟩

theorem traces_elementsWithin (components : Value) (depth : Int) :
    Traces rules (elementsWithin rules (budget + 1) components depth)
      (ListVisits rules budget components depth) :=
  ⟨fun _ _ h hp => fails_of_listVisits h hp, fun _ he => fault_of_components he⟩

/-- To find the type of a parameter, given its fields, the parser comes to a point. -/
def FieldsVisit (rules : Rules) (budget : Nat) (fs : Fields) (pt : Point) : Prop :=
  ∃ type, fs.get? .type = some type ∧ Visits rules budget ⟨type, fs.get? .components, 0⟩ pt

theorem traces_kindOf (fs : Fields) :
    Traces rules (kindOf rules fs budget) (FieldsVisit rules budget fs) := by
  cases htype : fs.get? .type with
  | none =>
    rw [kindOf, htype]
    refine ⟨fun pt e h => ?_, fun e he => ?_⟩
    · obtain ⟨type, hsome, -⟩ := h
      cases htype.symm.trans hsome
    · cases he
      exact Or.inl (.refused rfl)
  | some type =>
    rw [kindOf_eq_resolve htype]
    refine (traces_resolve _).congr fun pt => ⟨fun h => ⟨type, htype, h⟩, ?_⟩
    rintro ⟨type', htype', h⟩
    cases htype.symm.trans htype'
    exact h

theorem traces_ofObject (known : List Field) (v : Value) :
    Traces rules (.quiet (Fields.ofObject known v)) fun pt =>
      ∃ w, pt = .shown w ∧ w = v ∧ v.pairs? = none := by
  unfold Fields.ofObject
  cases hpairs : v.pairs? with
  | none =>
    refine .quiet ?_ fun e he => ?_
    · rintro w ⟨rfl, -⟩
      exact ⟨_, rfl, rfl⟩
    · cases he
      exact Or.inr ⟨v, _, ⟨rfl, rfl⟩, rfl, rfl⟩
  | some pairs =>
    refine .quiet (fun w h => nomatch h.2) fun e he => Or.inl ?_
    obtain ⟨c, hcollect, rfl⟩ := Outcome.mapError_eq_error_iff.mp he
    exact stops_of_collect hcollect

theorem traces_requiredName (o : Option Value) :
    Traces rules (.quiet (requiredName o)) fun pt =>
      ∃ name, pt = .shown name ∧ o = some name ∧ ∀ t, name ≠ .text t := by
  refine .quiet ?_ fun e he => ?_
  · rintro name ⟨rfl, hname⟩
    exact ⟨_, rfl, text_eq_error_iff.mpr ⟨hname, rfl⟩⟩
  · cases o with
    | none =>
      cases he
      exact Or.inl (.refused rfl)
    | some name =>
      obtain ⟨hname, rfl⟩ := text_eq_error_iff.mp he
      exact Or.inr ⟨name, _, ⟨rfl, hname⟩, rfl, rfl⟩

theorem optionalName_some {v : Value} (h : v ≠ .null) :
    optionalName (some v) = (Fields.text .name v).map some := by
  cases v with
  | null => exact absurd rfl h
  | _ => rfl

theorem traces_optionalName (o : Option Value) :
    Traces rules (.quiet (optionalName o)) fun pt =>
      ∃ name, pt = .shown name ∧ o = some name ∧ name ≠ .null ∧ ∀ t, name ≠ .text t := by
  refine .quiet ?_ fun e he => ?_
  · rintro name ⟨rfl, hnull, hname⟩
    rw [optionalName_some hnull, text_eq_error_iff.mpr ⟨hname, rfl⟩]
    exact ⟨_, rfl, rfl⟩
  · cases o with
    | none => cases he
    | some name =>
      by_cases hnull : name = .null
      · subst hnull
        cases he
      · rw [optionalName_some hnull, Outcome.map_eq_error_iff] at he
        obtain ⟨hname, rfl⟩ := text_eq_error_iff.mp he
        exact Or.inr ⟨name, _, ⟨rfl, hnull, hname⟩, rfl, rfl⟩

theorem traces_flag (o : Option Value) :
    Traces rules (.quiet (flag o)) fun pt =>
      ∃ v, pt = .shown v ∧ o = some v ∧ ∀ b, v ≠ .bool b := by
  have hflag : ∀ v : Value, (∀ b, v ≠ .bool b) →
      flag (some v) = .error (.refuse (.flagNotBool v)) := by
    intro v hv
    cases v with
    | bool b => exact absurd rfl (hv b)
    | _ => rfl
  refine .quiet ?_ fun e he => ?_
  · rintro v ⟨rfl, hv⟩
    exact ⟨_, rfl, hflag v hv⟩
  · cases o with
    | none => cases he
    | some v =>
      by_cases hv : ∀ b, v ≠ .bool b
      · rw [hflag v hv] at he
        cases he
        exact Or.inr ⟨v, _, ⟨rfl, hv⟩, rfl, rfl⟩
      · obtain ⟨b, hb⟩ := not_forall_not.mp hv
        subst hb
        cases he

/-- `EventParam.Visits rules v pt`: the parser of an event parameter comes to this point. -/
inductive EventParam.Visits (rules : Rules) (v : Value) : Point → Prop
  | object (hpairs : v.pairs? = none) : Visits rules v (.shown v)
  | name {fs : Fields} {name : Value} (hfs : Fields.ofObject Field.ofEvent v = .ok fs)
    (hget : fs.get? .name = some name) (hname : ∀ t, name ≠ .text t) :
    Visits rules v (.shown name)
  | type {fs : Fields} {name : Text} {pt : Point} (hfs : Fields.ofObject Field.ofEvent v = .ok fs)
    (hname : requiredName (fs.get? .name) = .ok name)
    (h : FieldsVisit rules componentsLimit fs pt) : Visits rules v pt
  | flag {fs : Fields} {name : Text} {kind : AbiType} {indexed : Value}
    (hfs : Fields.ofObject Field.ofEvent v = .ok fs)
    (hname : requiredName (fs.get? .name) = .ok name)
    (hkind : (kindOf rules fs).outcome = .ok kind) (hget : fs.get? .indexed = some indexed)
    (hindexed : ∀ b, indexed ≠ .bool b) : Visits rules v (.shown indexed)

/-- `TupleParam.Visits rules budget v pt`: the parser of a tuple parameter comes to this point. -/
inductive TupleParam.Visits (rules : Rules) (budget : Nat) (v : Value) : Point → Prop
  | object (hpairs : v.pairs? = none) : Visits rules budget v (.shown v)
  | name {fs : Fields} {name : Value} (hfs : Fields.ofObject Field.ofTuple v = .ok fs)
    (hget : fs.get? .name = some name) (hnull : name ≠ .null) (hname : ∀ t, name ≠ .text t) :
    Visits rules budget v (.shown name)
  | type {fs : Fields} {name : Option Text} {pt : Point}
    (hfs : Fields.ofObject Field.ofTuple v = .ok fs)
    (hname : optionalName (fs.get? .name) = .ok name) (h : FieldsVisit rules budget fs pt) :
    Visits rules budget v pt

/-- The parser of event parameters comes to its points in this order: the object, the name, those of
the type, and the flag. -/
theorem traces_eventParam (v : Value) :
    ∃ p, EventParam.parse rules v = rules.guard p ∧ Traces rules p (EventParam.Visits rules v) := by
  refine ⟨_, rfl, ((traces_ofObject Field.ofEvent v).bind fun fs =>
    (traces_requiredName (fs.get? .name)).bind fun name => (traces_kindOf fs).bind fun kind =>
      (traces_flag (fs.get? .indexed)).bind fun indexed =>
        .pure (EventParam.mk name kind indexed)).congr fun pt => ⟨?_, ?_⟩⟩
  · rintro (⟨_, rfl, rfl, hpairs⟩ | ⟨fs, hfs, ⟨name, rfl, hget, hname⟩ | ⟨name, hname, hvisit |
      ⟨kind, hkind, ⟨v, rfl, hget, hv⟩ | ⟨_, -, h⟩⟩⟩⟩)
    · exact .object hpairs
    · exact .name hfs hget hname
    · exact .type hfs hname hvisit
    · exact .flag hfs hname hkind hget hv
    · exact h.elim
  · rintro (hpairs | ⟨hfs, hget, hname⟩ | ⟨hfs, hname, hvisit⟩ | ⟨hfs, hname, hkind, hget, hv⟩)
    · exact Or.inl ⟨_, rfl, rfl, hpairs⟩
    · exact Or.inr ⟨_, hfs, Or.inl ⟨_, rfl, hget, hname⟩⟩
    · exact Or.inr ⟨_, hfs, Or.inr ⟨_, hname, Or.inl hvisit⟩⟩
    · exact Or.inr ⟨_, hfs, Or.inr ⟨_, hname, Or.inr ⟨_, hkind, Or.inl ⟨_, rfl, hget, hv⟩⟩⟩⟩

/-- That of tuple parameters comes to the object, the name and the points of the type. -/
theorem traces_tupleParam (v : Value) :
    ∃ p, TupleParam.parse rules v budget = rules.guard p ∧
      Traces rules p (TupleParam.Visits rules budget v) := by
  refine ⟨_, rfl, ((traces_ofObject Field.ofTuple v).bind fun fs =>
    (traces_optionalName (fs.get? .name)).bind fun name => (traces_kindOf fs).bind fun kind =>
      .pure (TupleParam.mk name kind)).congr fun pt => ⟨?_, ?_⟩⟩
  · rintro (⟨_, rfl, rfl, hpairs⟩ | ⟨fs, hfs, ⟨name, rfl, hget, hnull, hname⟩ |
      ⟨name, hname, hvisit | ⟨_, -, h⟩⟩⟩)
    · exact .object hpairs
    · exact .name hfs hget hnull hname
    · exact .type hfs hname hvisit
    · exact h.elim
  · rintro (hpairs | ⟨hfs, hget, hnull, hname⟩ | ⟨hfs, hname, hvisit⟩)
    · exact Or.inl ⟨_, rfl, rfl, hpairs⟩
    · exact Or.inr ⟨_, hfs, Or.inl ⟨_, rfl, hget, hnull, hname⟩⟩
    · exact Or.inr ⟨_, hfs, Or.inr ⟨_, hname, Or.inl hvisit⟩⟩

/-- What a caller does not expect of an event parameter. -/
def EventParam.Escapes (rules : Rules) (v : Value) : Prop :=
  Overlong rules.ceiling (EventParam.parse rules v).outcome ∨
    ∃ pt, EventParam.Visits rules v pt ∧ pt.Escapes rules.ceiling

/-- What a caller does not expect of a tuple parameter. -/
def TupleParam.Escapes (rules : Rules) (v : Value) (budget : Nat := componentsLimit) : Prop :=
  Overlong rules.ceiling (TupleParam.parse rules v budget).outcome ∨
    ∃ pt, TupleParam.Visits rules budget v pt ∧ pt.Escapes rules.ceiling

theorem handled_eventParam_iff (settled : rules.Settled) (v : Value) :
    Handled (EventParam.parse rules v).outcome ↔ ¬ EventParam.Escapes rules v := by
  obtain ⟨p, hp, htraces⟩ := traces_eventParam v
  rw [EventParam.Escapes, hp]
  exact handled_guard_iff settled htraces

theorem handled_tupleParam_iff (settled : rules.Settled) (v : Value) :
    Handled (TupleParam.parse rules v budget).outcome ↔ ¬ TupleParam.Escapes rules v budget := by
  obtain ⟨p, hp, htraces⟩ := traces_tupleParam v
  rw [TupleParam.Escapes, hp]
  exact handled_guard_iff settled htraces

/-! ## 5. Names and lists -/

/-- What a caller of a parser does not expect of a value that should be a name. -/
def NameEscapes (ceiling : Ceiling) (v : Value) : Prop :=
  Overlong ceiling (TypeName.readValue ceiling v) ∨
    match v with
    | .text name => NameMeets ceiling name 0
    | v => v.obstacle? ≠ none

/-- What a caller of a parser does not expect of a value that should be a list of parameters: it is
no list and cannot be shown, or one of its items, behind others that are parsed, is not expected. -/
def ListEscapes (rules : Rules) (v : Value) : Prop :=
  (v.items? = none ∧ v.obstacle? ≠ none) ∨
    ∃ before item after, v.items? = some (before ++ item :: after) ∧
      (∀ x ∈ before, ∃ p, (TupleParam.parse rules x (componentsLimit - 1)).outcome = .ok p) ∧
      TupleParam.Escapes rules item (componentsLimit - 1)

/-- What a caller of a parser does not expect of a list of components. -/
def ElementsEscape (rules : Rules) (v : Value) : Prop :=
  Overlong rules.ceiling (parseElements rules v).outcome ∨
    ∃ pt, ListVisits rules (componentsLimit - 1) v 0 pt ∧ pt.Escapes rules.ceiling

/-- A value that is shown in a refusal is handled exactly if it can be. -/
theorem handled_refuse_iff {α : Type} {v : Value} {e : ParseError} (h : e.shown? = some v) :
    Handled (.error (.refuse e) : Except Failure α) ↔ v.obstacle? = none := by
  constructor
  · intro hhandled
    cases ho : v.obstacle? with
    | none => rfl
    | some o =>
      obtain ⟨e', he', -⟩ := hhandled _ rfl
      cases (refuse_of_obstacle h ho).symm.trans he'
  · intro hnone f hf
    cases hf
    rcases refuse_cases h with ⟨hobstacle, heq⟩ | ⟨o, ho, -⟩
    · exact ⟨e, heq, hobstacle⟩
    · cases hnone.symm.trans ho

theorem handled_readAt_iff (settled : rules.Settled) (name : Text) (depth : Int) :
    Handled (TypeName.readAt rules.ceiling name depth) ↔
      ¬ (Overlong rules.ceiling (TypeName.readAt rules.ceiling name depth) ∨
        NameMeets rules.ceiling name depth) := by
  rw [nameMeets_iff]
  constructor
  · rintro hhandled (hover | ⟨n, hn⟩)
    · exact hover.not_handled hhandled
    · obtain ⟨e, he, -⟩ := hhandled _ hn
      cases he
  · intro hno f hf
    obtain ⟨hover, hlong⟩ := not_or.mp hno
    rcases settled.refuses_of_readAt hf with hr | ⟨n, rfl⟩
    · exact hr.handled (hf ▸ hover)
    · exact absurd ⟨n, hf⟩ hlong

theorem handled_readValue_iff (settled : rules.Settled) (v : Value) :
    Handled (TypeName.readValue rules.ceiling v) ↔ ¬ NameEscapes rules.ceiling v := by
  -- What is said of a value that is no text has no ceiling in it.
  have hother : ∀ e : ParseError, e.shown? = some v → e ≠ .tooDeep rules.ceiling →
      (Handled (.error (.refuse e) : Except Failure AbiType) ↔
        ¬ (Overlong rules.ceiling (.error (.refuse e) : Except Failure AbiType) ∨
          v.obstacle? ≠ none)) := by
    intro e he hne
    rw [handled_refuse_iff he, not_or, ne_eq, not_not, iff_and_self]
    rintro hnone ⟨-, hover⟩
    rcases refuse_cases he with ⟨-, heq⟩ | ⟨o, ho, -⟩
    · rw [heq] at hover
      cases hover
      exact hne rfl
    · cases hnone.symm.trans ho
  cases v with
  | text name => exact handled_readAt_iff settled name 0
  | _ => exact hother (.nameNotText _) rfl nofun

/-- A number of 4301 digits is refused where a name should be, and cannot be shown. -/
example : ¬ Handled (TypeName.readValue .unlimited (.int (10 ^ 4300))) :=
  mt (handled_readValue_iff (settled_ofOption none false) _).mp
    (not_not.mpr (Or.inr (by decide +kernel)))

/-- So is a type that nests too deep. -/
example : ¬ Handled (TypeName.readValue .unlimited
    (.draft (.ofType (TypeTree.wrap (List.replicate 400 none) (.leaf .bool))))) :=
  mt (handled_readValue_iff (settled_ofOption none false) _).mp
    (not_not.mpr (Or.inr (by decide +kernel)))

theorem handled_parseList_iff (settled : rules.Settled) (v : Value) :
    Handled (TupleParam.parseList rules v).outcome ↔ ¬ ListEscapes rules v := by
  unfold TupleParam.parseList ListEscapes
  cases hitems : v.items? with
  | none =>
    simp only [Parse.outcome_fail, true_and, reduceCtorEq, false_and, exists_false, or_false]
    rw [handled_refuse_iff rfl, ne_eq, not_not]
  | some items =>
    simp only [Parse.outcome_mapM, reduceCtorEq, false_and, false_or, Option.some.injEq]
    constructor
    · rintro h ⟨before, item, after, rfl, hbefore, hescape⟩
      refine (handled_tupleParam_iff settled item).mp (fun f hf => ?_) hescape
      exact h f (Outcome.mapM_eq_error_iff.mpr ⟨before, item, after, rfl, hbefore, hf⟩)
    · intro h f hf
      obtain ⟨before, item, after, rfl, hbefore, hf⟩ := Outcome.mapM_eq_error_iff.mp hf
      refine (handled_tupleParam_iff settled item).mpr (fun hescape => h ?_) f hf
      exact ⟨before, item, after, rfl, hbefore, hescape⟩

theorem handled_parseElements_iff (settled : rules.Settled) (v : Value) :
    Handled (parseElements rules v).outcome ↔ ¬ ElementsEscape rules v :=
  handled_guard_iff settled (traces_elementsWithin v 0)

/-! ## 6. Every way into the library -/

/-- The parsers of values that are more than a name. -/
inductive Entry where
  | eventParam | tupleParam | tupleParamList | elements

namespace Entry

/-- What a parser comes to, whatever its result. -/
def run (rules : Rules) : Entry → Value → Except Failure Unit
  | .eventParam, v => (EventParam.parse rules v).outcome.map fun _ => ()
  | .tupleParam, v => (TupleParam.parse rules v).outcome.map fun _ => ()
  | .tupleParamList, v => (TupleParam.parseList rules v).outcome.map fun _ => ()
  | .elements, v => (parseElements rules v).outcome.map fun _ => ()

/-- What a parser comes to on a JSON source. -/
def load (rules : Rules) (entry : Entry) (source : Value) : Except Failure Unit := do
  let v ← (Json.decodeSource source).mapError .ofDecodeFault
  entry.run rules v

/-- What a caller of a parser does not expect of a value. -/
def Escapes (rules : Rules) : Entry → Value → Prop
  | .eventParam, v => EventParam.Escapes rules v
  | .tupleParam, v => TupleParam.Escapes rules v
  | .tupleParamList, v => ListEscapes rules v
  | .elements, v => ElementsEscape rules v

/-- What a caller of a parser does not expect of a JSON source: a whole number in it has too many
digits, or what it decodes to is not expected. -/
def SourceEscapes (rules : Rules) (entry : Entry) (source : Value) : Prop :=
  (∃ t ds, Json.sourceText? source = some t ∧ Json.MeetsLong t ds) ∨
    ∃ v, Json.decodeSource source = .ok v ∧ entry.Escapes rules v

end Entry

theorem handled_run_iff (settled : rules.Settled) (entry : Entry) (v : Value) :
    Handled (entry.run rules v) ↔ ¬ entry.Escapes rules v := by
  cases entry with
  | eventParam => exact handled_map_iff.trans (handled_eventParam_iff settled v)
  | tupleParam => exact handled_map_iff.trans (handled_tupleParam_iff settled v)
  | tupleParamList => exact handled_map_iff.trans (handled_parseList_iff settled v)
  | elements => exact handled_map_iff.trans (handled_parseElements_iff settled v)

theorem handled_load_iff (settled : rules.Settled) (entry : Entry) {source : Value}
    (hsource : (∃ t, source = .text t) ∨ ∃ bs, source = .octets bs) :
    Handled (entry.load rules source) ↔ ¬ entry.SourceEscapes rules source := by
  unfold Entry.load Entry.SourceEscapes
  cases hdecode : Json.decodeSource source with
  | ok v =>
    have hno : ¬ ∃ t ds, Json.sourceText? source = some t ∧ Json.MeetsLong t ds := by
      rintro ⟨t, ds, ht, hmeets⟩
      have hlong := Json.decodeSource_eq_longNumber_iff.mpr ⟨t, ds, ht, hmeets, rfl⟩
      rw [hdecode] at hlong
      cases hlong
    simp only [Outcome.mapError_ok, Outcome.ok_bind, handled_run_iff settled, hno, false_or,
      Except.ok.injEq, exists_eq_left']
  | error fault =>
    simp only [Outcome.mapError_error, Outcome.error_bind, reduceCtorEq, false_and, exists_false,
      or_false]
    constructor
    · rintro h ⟨t, ds, ht, hmeets⟩
      have hlong := Json.decodeSource_eq_longNumber_iff.mpr ⟨t, ds, ht, hmeets, rfl⟩
      rw [hdecode] at hlong
      cases hlong
      obtain ⟨e, he, -⟩ := h _ rfl
      cases he
    · rintro h f hf
      cases hf
      cases fault with
      | misplaced p line column => exact ⟨_, rfl, rfl⟩
      | tooDeep => exact ⟨_, rfl, rfl⟩
      | longNumber n =>
        obtain ⟨t, ds, ht, hmeets, -⟩ := Json.decodeSource_eq_longNumber_iff.mp hdecode
        exact absurd ⟨t, ds, ht, hmeets⟩ h
      | encoding f => exact ⟨_, rfl, rfl⟩
      | noSource kind => exact absurd hdecode (Json.decodeSource_ne_noSource hsource kind)

/-- **The reasons for which a call ends otherwise than in a result or a refusal in words**, under
all settings and with no notice to be raised: a number of too many digits that is come to, in a
name, in a JSON text or in a value that is refused; a value that nests too deep to be shown, where
nesting is not refused for it; and a ceiling that is too long for its own refusal. -/
theorem handled_iff (m : Option Int) (strict : Bool) :
    (∀ v, Handled (TypeName.readValue (.ofOption m) v) ↔ ¬ NameEscapes (.ofOption m) v) ∧
      (∀ entry v, Handled (Entry.run ⟨.ofOption m, strict, false⟩ entry v) ↔
        ¬ Entry.Escapes ⟨.ofOption m, strict, false⟩ entry v) ∧
      (∀ entry t, Handled (Entry.load ⟨.ofOption m, strict, false⟩ entry (.text t)) ↔
        ¬ Entry.SourceEscapes ⟨.ofOption m, strict, false⟩ entry (.text t)) ∧
      ∀ entry bs, Handled (Entry.load ⟨.ofOption m, strict, false⟩ entry (.octets bs)) ↔
        ¬ Entry.SourceEscapes ⟨.ofOption m, strict, false⟩ entry (.octets bs) := by
  have settled := settled_ofOption m strict
  exact ⟨handled_readValue_iff settled, handled_run_iff settled,
    fun entry t => handled_load_iff settled entry (Or.inl ⟨t, rfl⟩),
    fun entry bs => handled_load_iff settled entry (Or.inr ⟨bs, rfl⟩)⟩

/-- A width of 4301 digits ends the reading, and is not refused. -/
theorem not_handled_longWidth :
    ¬ Handled (TypeName.readValue .unlimited
      (.text (("uint" : Text) ++ List.replicate 4301 (CodePoint.ofChar '1')))) := by
  have hlong : Decimal.digitLimit < (List.replicate 4301 (CodePoint.ofChar '1')).length := by
    rw [List.length_replicate]
    decide
  have hds : Decimal.IsNumeral (List.replicate 4301 (CodePoint.ofChar '1')) := by
    refine ⟨List.ne_nil_of_length_pos (Nat.zero_lt_of_lt hlong), fun c hc => ?_⟩
    rw [List.eq_of_mem_replicate hc]
    rfl
  have hread := TypeName.readWithin_of_meets
    (.width rfl .uint hds : TypeName.Meets .unlimited (TypeName.bracketLimit + 1) _ 0 _) hlong
  intro h
  obtain ⟨e, he, -⟩ := h _ hread
  cases he

end ContractAbi
