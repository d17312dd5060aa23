import ContractAbi.Listing
import ContractAbi.Proofs.AbiType.Written

/-!
# Lines within some room

Whatever is written within some room is written as it would be without obstacles: a value as
`Value.quote` has it (`Value.eq_of_quoteWithin`), and the line of a type or parameter as its format
has it (`Format.eq_of_typeLine`, `Format.eq_of_eventParamLine`, `Format.eq_of_tupleParamLine`).

Where the numbers of a type are no obstacle, a line is written exactly if there is room for the
calls that it takes (`Format.eventParamLine_of_fits`, `Format.tupleParamLine_of_fits`).
-/

namespace ContractAbi

/-! ## 1. Values -/

namespace Value

mutual

/-- **A value that is shown is shown by its text.** -/
theorem eq_of_quoteWithin : (v : Value) → ∀ {room : Nat} {t : Text},
    v.quoteWithin room = .ok t → t = v.quote
  | .null, _, _, h | .bool _, _, _, h | .float _, _, _, h | .text _, _, _, h | .octets _, _, _, h
  | .typeClass _, _, _, h => by
    obtain ⟨-, h⟩ := enter_eq_ok_iff.mp h
    exact (Except.ok.inj h).symm
  | .int i, _, _, h => by
    obtain ⟨-, h⟩ := enter_eq_ok_iff.mp h
    obtain ⟨_, -, h⟩ := Outcome.bind_eq_ok_iff.mp h
    exact (Except.ok.inj h).symm
  | .list vs, _, _, h => by
    obtain ⟨-, h⟩ := enter_eq_ok_iff.mp h
    obtain ⟨ts, hts, h⟩ := Outcome.bind_eq_ok_iff.mp h
    cases eq_of_quoteAllWithin vs hts
    exact (Except.ok.inj h).symm
  | .tuple vs, _, _, h => by
    obtain ⟨-, h⟩ := enter_eq_ok_iff.mp h
    obtain ⟨ts, hts, h⟩ := Outcome.bind_eq_ok_iff.mp h
    cases eq_of_quoteAllWithin vs hts
    exact (Except.ok.inj h).symm
  | .record ps, _, _, h => by
    obtain ⟨-, h⟩ := enter_eq_ok_iff.mp h
    obtain ⟨ts, hts, h⟩ := Outcome.bind_eq_ok_iff.mp h
    cases eq_of_quotePairsWithin ps hts
    exact (Except.ok.inj h).symm
  | .mapping es, _, _, h => by
    obtain ⟨-, h⟩ := enter_eq_ok_iff.mp h
    obtain ⟨ts, hts, h⟩ := Outcome.bind_eq_ok_iff.mp h
    cases eq_of_quotePairsWithin es hts
    exact (Except.ok.inj h).symm
  | .draft d, _, _, h => AbiType.eq_of_textWithin h
  | .eventParam n k i, _, _, h => by
    obtain ⟨-, h⟩ := enter_eq_ok_iff.mp h
    obtain ⟨tn, hn, h⟩ := Outcome.bind_eq_ok_iff.mp h
    obtain ⟨tk, hk, h⟩ := Outcome.bind_eq_ok_iff.mp h
    obtain ⟨ti, hi, h⟩ := Outcome.bind_eq_ok_iff.mp h
    cases eq_of_quoteWithin n hn
    cases eq_of_quoteWithin k hk
    cases eq_of_quoteWithin i hi
    exact (Except.ok.inj h).symm
  | .tupleParam n k, _, _, h => by
    obtain ⟨-, h⟩ := enter_eq_ok_iff.mp h
    obtain ⟨tn, hn, h⟩ := Outcome.bind_eq_ok_iff.mp h
    obtain ⟨tk, hk, h⟩ := Outcome.bind_eq_ok_iff.mp h
    cases eq_of_quoteWithin n hn
    cases eq_of_quoteWithin k hk
    exact (Except.ok.inj h).symm

theorem eq_of_quoteAllWithin : (vs : List Value) → ∀ {room : Nat} {ts : List Text},
    quoteAllWithin room vs = .ok ts → ts = quoteAll vs
  | [], _, _, h => (Except.ok.inj h).symm
  | v :: vs, _, _, h => by
    obtain ⟨t, ht, h⟩ := Outcome.bind_eq_ok_iff.mp h
    obtain ⟨ts, hts, h⟩ := Outcome.bind_eq_ok_iff.mp h
    cases eq_of_quoteWithin v ht
    cases eq_of_quoteAllWithin vs hts
    exact (Except.ok.inj h).symm

theorem eq_of_quotePairsWithin {calls : Nat} {f : Text → Text → Text} :
    (ps : List (Value × Value)) → ∀ {room : Nat} {ts : List Text},
    quotePairsWithin calls f room ps = .ok ts → ts = quotePairs f ps
  | [], _, _, h => (Except.ok.inj h).symm
  | (k, v) :: ps, _, _, h => by
    obtain ⟨t, ht, h⟩ := Outcome.bind_eq_ok_iff.mp h
    obtain ⟨ts, hts, h⟩ := Outcome.bind_eq_ok_iff.mp h
    obtain ⟨-, ht⟩ := enter_eq_ok_iff.mp ht
    obtain ⟨tk, hk, ht⟩ := Outcome.bind_eq_ok_iff.mp ht
    obtain ⟨tv, hv, ht⟩ := Outcome.bind_eq_ok_iff.mp ht
    cases eq_of_quoteWithin k hk
    cases eq_of_quoteWithin v hv
    cases eq_of_quotePairsWithin ps hts
    cases ht
    exact (Except.ok.inj h).symm

end

end Value

/-- A JSON object that is made for an event parameter is that of the parameter. -/
theorem EventParam.eq_of_toJsonWithin {p : EventParam} {room : Nat} {j : Json}
    (h : p.toJsonWithin room = .ok j) : j = p.toJson := by
  obtain ⟨d, hd, hj⟩ := Outcome.bind_eq_ok_iff.mp h
  cases hj
  rw [AbiType.eq_of_describeWithin hd]
  rfl

/-! ## 2. What a line takes -/

namespace Format

variable {f : Format} {room : Nat} {line : Text}

/-- The calls that lie in one another where the line of a type is written. -/
def typeCalls (f : Format) (t : AbiType) : Nat :=
  match f with
  | .selector => t.selectorCalls
  | .canonical => t.canonicalCalls
  | .json => t.describeCalls
  | .full | .brief => Draft.textRendering.calls (Draft.ofType t)

/-- Those for the line of a parameter of that type. -/
def paramCalls (f : Format) (t : AbiType) : Nat :=
  match f with
  | .full => 3 + f.typeCalls t
  | f => f.typeCalls t

theorem textWithin_of_fits {t : AbiType} (fit : t.NumbersFit) (room : Nat) :
    (Draft.ofType t).textWithin room =
      if Draft.textRendering.calls (Draft.ofType t) ≤ room then .ok (Draft.ofType t).text
      else .error .nesting := by
  have hnumbers := Draft.numbersOf_ofType t
  rw [Draft.textWithin, Rendering.run_of_fits (by rwa [hnumbers]), Draft.result_textRendering]

theorem typeLine_of_fits {t : AbiType} (fit : t.NumbersFit) (room : Nat) :
    f.typeLine room t =
      if f.typeCalls t ≤ room then .ok (f.ofType t) else .error .nesting := by
  cases f with
  | selector => exact AbiType.selectorWithin_of_fits fit room
  | canonical => exact AbiType.canonicalWithin_of_fits fit room
  | json =>
    rw [typeLine, AbiType.toJsonWithin_of_fits fit, typeCalls]
    split <;> rfl
  | full | brief => exact textWithin_of_fits fit room

theorem map_typeLine_of_fits {t : AbiType} (fit : t.NumbersFit) (room : Nat) {g : Text → Text} :
    (f.typeLine room t).map g =
      if f.typeCalls t ≤ room then .ok (g (f.ofType t)) else .error .nesting := by
  rw [typeLine_of_fits fit]
  split <;> rfl

theorem eq_of_typeLine {t : AbiType} (h : f.typeLine room t = .ok line) : line = f.ofType t := by
  cases f with
  | selector => exact AbiType.eq_of_selectorWithin h
  | canonical => exact AbiType.eq_of_canonicalWithin h
  | json =>
    obtain ⟨j, hj, rfl⟩ := Outcome.map_eq_ok_iff.mp h
    exact congrArg Json.write (AbiType.eq_of_toJsonWithin hj)
  | full | brief => exact AbiType.eq_of_textWithin h

/-- **A line that is written is the line of the parameter in its format.** -/
theorem eq_of_eventParamLine {p : EventParam} (h : f.eventParamLine room p = .ok line) :
    line = f.ofEventParam p := by
  cases f with
  | json =>
    obtain ⟨j, hj, rfl⟩ := Outcome.map_eq_ok_iff.mp h
    exact congrArg Json.write (EventParam.eq_of_toJsonWithin hj)
  | full => exact p.toValue.eq_of_quoteWithin h
  | selector | canonical | brief =>
    obtain ⟨kind, hkind, rfl⟩ := Outcome.map_eq_ok_iff.mp h
    rw [eq_of_typeLine hkind]
    rfl

theorem eq_of_tupleParamLine {p : TupleParam} (h : f.tupleParamLine room p = .ok line) :
    line = f.ofTupleParam p := by
  cases f with
  | json =>
    obtain ⟨j, hj, rfl⟩ := Outcome.map_eq_ok_iff.mp h
    exact congrArg Json.write (AbiType.eq_of_toJsonWithin hj)
  | full => exact p.toValue.eq_of_quoteWithin h
  | selector | canonical | brief =>
    obtain ⟨kind, hkind, rfl⟩ := Outcome.map_eq_ok_iff.mp h
    rw [eq_of_typeLine hkind]
    rfl

/-- A description takes more calls than a name or a flag beside it. -/
theorem one_le_textCalls (d : Draft) : 1 ≤ Draft.textRendering.calls d := by
  cases d with
  | leaf a =>
    show 1 ≤ if (a.elim [] Scalar.numbers).isEmpty then 3 else 4
    split <;> decide
  | array d | fixedArray d n =>
    rw [Rendering.calls]
    exact Nat.le_add_right_of_le (by decide)
  | tuple ds =>
    cases ds with
    | nil => exact (by decide : 1 ≤ Draft.textRendering.emptyCalls)
    | cons d ds =>
      rw [Rendering.calls]
      exact Nat.le_add_right_of_le (by decide)

/-- Where a description is written there is room for a name or a flag beside it. -/
theorem enter_one_of_le {d : Draft} {t : Text} (h : Draft.textRendering.calls d ≤ room) :
    (enter 1 room fun _ => pure t) = .ok t :=
  if_pos (Nat.le_trans (one_le_textCalls d) h)

/-- What stands around the description of a type finds room if the description does, and without it
there is no line. -/
theorem around_of_fits {t : AbiType} (fit : t.NumbersFit) {name text : Text}
    {around : Text → Text → Except Obstacle Text}
    (h : Draft.textRendering.calls (Draft.ofType t) ≤ room →
      around name (Draft.ofType t).text = .ok text) :
    ((enter 1 room fun _ => pure name) >>= fun name =>
        (Value.draft (Draft.ofType t)).quoteWithin room >>= around name) =
      if Draft.textRendering.calls (Draft.ofType t) ≤ room then .ok text else .error .nesting := by
  have hkind : (Value.draft (Draft.ofType t)).quoteWithin room = _ := textWithin_of_fits fit room
  by_cases hcalls : Draft.textRendering.calls (Draft.ofType t) ≤ room
  · rw [if_pos hcalls] at hkind ⊢
    rw [enter_one_of_le hcalls, hkind]
    exact h hcalls
  · rw [if_neg hcalls] at hkind ⊢
    rw [hkind, enter]
    split <;> rfl

theorem quoteWithin_eventParam {p : EventParam} (fit : p.kind.NumbersFit) (room : Nat) :
    p.toValue.quoteWithin room =
      if 3 + Draft.textRendering.calls (Draft.ofType p.kind) ≤ room then .ok p.toValue.quote
      else .error .nesting := by
  rw [← enter_ite]
  refine congrArg (enter 3 room) (funext fun room => around_of_fits fit fun hcalls => ?_)
  have hflag : (Value.bool p.indexed).quoteWithin room = .ok (Value.boolText p.indexed) :=
    enter_one_of_le hcalls
  rw [hflag]
  rfl

theorem quoteWithin_tupleParam {p : TupleParam} (fit : p.kind.NumbersFit) (room : Nat) :
    p.toValue.quoteWithin room =
      if 3 + Draft.textRendering.calls (Draft.ofType p.kind) ≤ room then .ok p.toValue.quote
      else .error .nesting := by
  have hname : ∀ room, (p.name.elim .null .text : Value).quoteWithin room =
      enter 1 room fun _ => pure (p.name.elim .null .text : Value).quote := by
    intro room
    cases p.name <;> rfl
  rw [← enter_ite, TupleParam.toValue, Value.quoteWithin]
  refine congrArg (enter 3 room) (funext fun room => ?_)
  rw [hname]
  exact around_of_fits fit fun _ => rfl

/-- **The line of an event parameter is written exactly if there is room**, where the numbers in its
type are no obstacle. -/
theorem eventParamLine_of_fits {p : EventParam} (fit : p.kind.NumbersFit) (room : Nat) :
    f.eventParamLine room p =
      if f.paramCalls p.kind ≤ room then .ok (f.ofEventParam p) else .error .nesting := by
  cases f with
  | json =>
    show (p.toJsonWithin room).map _ = if p.kind.describeCalls ≤ room then _ else _
    rw [EventParam.toJsonWithin, AbiType.describeWithin_of_fits fit]
    split <;> rfl
  | full => exact quoteWithin_eventParam fit room
  | selector | canonical | brief => exact map_typeLine_of_fits fit room

theorem tupleParamLine_of_fits {p : TupleParam} (fit : p.kind.NumbersFit) (room : Nat) :
    f.tupleParamLine room p =
      if f.paramCalls p.kind ≤ room then .ok (f.ofTupleParam p) else .error .nesting := by
  cases f with
  | json =>
    show (p.kind.toJsonWithin room p.name).map _ = if p.kind.describeCalls ≤ room then _ else _
    rw [AbiType.toJsonWithin_of_fits fit]
    split <;> rfl
  | full => exact quoteWithin_tupleParam fit room
  | selector | canonical | brief => exact map_typeLine_of_fits fit room

end Format

end ContractAbi
