import ContractAbi.Proofs.Parameter.Visits

/-!
# The first notice

Strict rules and rules that raise notices change nothing but what happens where a notice would be
given: the parse ends there.  So they need not be followed through the parser a second time.  What
they come to can be read off the parse under lenient rules, which goes on: it is that parse, cut off
at its first notice (`Parse.endAt`).

`Parse.endAt` goes through chains of parses step by step (`endAt_bind`, `endAt_mapM`), and that is
all there is to the mutual recursion of types and components.
-/

namespace ContractAbi

/-! ## 1. Parses that end at a notice -/

namespace Parse

variable {α β : Type} {f : Notice → Failure}

/-- What a parse comes to if its first notice ends it, by the failure `f` makes of the notice. -/
def endAt (f : Notice → Failure) (p : Parse α) : Parse α :=
  match p.notices with
  | [] => p
  | n :: _ => .fail (f n)

theorem endAt_quiet (r : Except Failure α) : (quiet r).endAt f = quiet r := rfl

theorem endAt_fail (e : Failure) : (fail e : Parse α).endAt f = fail e := rfl

/-- **A chain ends in the first of its steps that gives a notice.** -/
theorem endAt_bind (p : Parse α) (g : α → Parse β) :
    (p >>= g).endAt f = p.endAt f >>= fun a => (g a).endAt f := by
  obtain ⟨ns, o⟩ := p
  cases ns with
  | nil =>
    cases o with
    | error e => rfl
    | ok a =>
      change (pure a >>= g).endAt f = pure a >>= fun a => (g a).endAt f
      rw [bind_of_pure, bind_of_pure]
  | cons n ns => cases o <;> rfl

theorem endAt_mapM (g : α → Parse β) (l : List α) :
    (l.mapM g).endAt f = l.mapM fun a => (g a).endAt f := by
  induction l with
  | nil => rfl
  | cons a l ih =>
    rw [List.mapM_cons, List.mapM_cons, endAt_bind]
    refine bind_congr fun b => ?_
    rw [endAt_bind, ih]
    rfl

/-- Putting failures into other words may come before or after, if it leaves that of a notice. -/
theorem endAt_mapFailure {g : Failure → Failure} (hg : ∀ n, g (f n) = f n) (p : Parse α) :
    (p.mapFailure g).endAt f = (p.endAt f).mapFailure g := by
  obtain ⟨ns, o⟩ := p
  cases ns with
  | nil => rfl
  | cons n ns => exact congrArg fail (hg n).symm

end Parse

/-! ## 2. Rules that end parses -/

/-- `rules.Ends f lenient`: these rules end a parse, by the failure `f` makes of a notice, where the
lenient rules give the notice and go on. -/
structure Rules.Ends (rules : Rules) (f : Notice → Failure) (lenient : Rules) : Prop where
  ceiling : rules.ceiling = lenient.ceiling
  idle : ∀ name, rules.idleComponents name = (lenient.idleComponents name).endAt f
  /-- What is said of a notice can be shown. -/
  shown : ∀ n o, f n ≠ .unshown o

/-- The refusal that strict rules make of a notice. -/
def Notice.refusal : Notice → Failure
  | .ignoredComponents name => .refused (.unexpectedComponents name)

theorem ends_strict (c : Ceiling) (raiseNotices : Notice → Bool) :
    Rules.Ends ⟨c, true, raiseNotices⟩ Notice.refusal ⟨c, false, false⟩ :=
  ⟨rfl, fun _ => rfl, fun n _ h => by cases n; cases h⟩

theorem ends_raising (c : Ceiling) : Rules.Ends ⟨c, false, true⟩ .raised ⟨c, false, false⟩ :=
  ⟨rfl, fun _ => rfl, fun _ _ h => by cases h⟩

variable {rules lenient : Rules} {f : Notice → Failure}

/-! ## 3. Types and components -/

theorem Rules.Ends.resolve (h : rules.Ends f lenient)
    {elements elements' : Value → Int → Parse (List AbiType)}
    (helem : ∀ components depth, elements' components depth = (elements components depth).endAt f)
    (type : Value) (components : Option Value) (depth : Int) :
    ContractAbi.resolve rules elements' type components depth =
      (ContractAbi.resolve lenient elements type components depth).endAt f := by
  unfold ContractAbi.resolve
  rw [h.ceiling, Parse.endAt_bind, Parse.endAt_quiet]
  refine bind_congr fun typeName => ?_
  rw [Parse.endAt_bind, Parse.endAt_quiet]
  refine bind_congr fun named => ?_
  cases named.element.isTuple with
  | true =>
    cases components with
    | some components =>
      simp only [helem, Parse.endAt_bind]
      rfl
    | none =>
      dsimp only
      split <;> rfl
  | false =>
    cases components with
    | some components =>
      simp only [h.idle, Parse.endAt_bind]
      rfl
    | none => rfl

theorem Rules.Ends.elementsWithin (h : rules.Ends f lenient) (budget : Nat) (components : Value)
    (depth : Int) :
    ContractAbi.elementsWithin rules budget components depth =
      (ContractAbi.elementsWithin lenient budget components depth).endAt f := by
  induction budget generalizing components depth with
  | zero =>
    rw [ContractAbi.elementsWithin, ContractAbi.elementsWithin, h.ceiling, Parse.endAt_fail]
  | succ budget ih =>
    rw [elementsWithin_succ, elementsWithin_succ, h.ceiling, Parse.endAt_bind, Parse.endAt_quiet]
    refine bind_congr fun _ => ?_
    rw [Parse.endAt_bind, Parse.endAt_quiet]
    refine bind_congr fun items => ?_
    rw [Parse.endAt_mapM]
    refine congrArg (items.mapM ·) (funext fun item => ?_)
    unfold parseItem
    rw [Parse.endAt_bind, Parse.endAt_quiet]
    refine bind_congr fun found => ?_
    exact h.resolve ih found.1 (found.2.get? .components) depth

theorem Rules.Ends.kindOf (h : rules.Ends f lenient) (fs : Fields) (budget : Nat) :
    ContractAbi.kindOf rules fs budget = (ContractAbi.kindOf lenient fs budget).endAt f := by
  unfold ContractAbi.kindOf
  cases fs.get? .type with
  | none => rfl
  | some type => exact h.resolve (h.elementsWithin budget) type (fs.get? .components) 0

theorem Rules.Ends.guard {α : Type} (h : rules.Ends f lenient) (p : Parse α) :
    rules.guard (p.endAt f) = (lenient.guard p).endAt f := by
  unfold Rules.guard
  rw [h.ceiling, Parse.endAt_mapFailure]
  intro n
  cases hn : f n with
  | unshown o => exact absurd hn (h.shown n o)
  | _ => rfl

/-! ## 4. Parameters -/

theorem Rules.Ends.eventParam (h : rules.Ends f lenient) (v : Value) :
    EventParam.parse rules v = (EventParam.parse lenient v).endAt f := by
  unfold EventParam.parse
  rw [← h.guard]
  simp only [Parse.endAt_bind, Parse.endAt_quiet, h.kindOf]
  rfl

theorem Rules.Ends.tupleParam (h : rules.Ends f lenient) (v : Value) (budget : Nat) :
    TupleParam.parse rules v budget = (TupleParam.parse lenient v budget).endAt f := by
  unfold TupleParam.parse
  rw [← h.guard]
  simp only [Parse.endAt_bind, Parse.endAt_quiet, h.kindOf]
  rfl

theorem Rules.Ends.parseList (h : rules.Ends f lenient) (v : Value) :
    TupleParam.parseList rules v = (TupleParam.parseList lenient v).endAt f := by
  unfold TupleParam.parseList
  cases v.items? with
  | none => rfl
  | some items =>
    rw [Parse.endAt_mapM]
    exact congrArg (items.mapM ·) (funext fun item => h.tupleParam item _)

theorem Rules.Ends.parseElements (h : rules.Ends f lenient) (v : Value) :
    ContractAbi.parseElements rules v = (ContractAbi.parseElements lenient v).endAt f := by
  unfold ContractAbi.parseElements
  rw [← h.guard]
  exact congrArg rules.guard (h.elementsWithin componentsLimit v 0)

/-- `StopsAlike c run`: under the ceiling `c` the lenient run, the strict one and the one that
raises notices all come to the same if the first gives no notice.  If it gives one, the others end
there: the strict run refuses the components of which the first notice is, and the raising run
raises that notice. -/
def StopsAlike {α : Type} (c : Ceiling) (run : Rules → Parse α) : Prop :=
  let lenient := run ⟨c, false, false⟩
  match lenient.notices with
  | [] =>
    (∀ raiseNotices, run ⟨c, true, raiseNotices⟩ = lenient) ∧ run ⟨c, false, true⟩ = lenient
  | .ignoredComponents name :: _ =>
    (∀ raiseNotices, run ⟨c, true, raiseNotices⟩ =
        .fail (.refused (.unexpectedComponents name))) ∧
      run ⟨c, false, true⟩ = .fail (.raised (.ignoredComponents name))

theorem stopsAlike_of_ends {α : Type} {c : Ceiling} {run : Rules → Parse α}
    (h : ∀ rules f, rules.Ends f ⟨c, false, false⟩ → run rules = (run ⟨c, false, false⟩).endAt f) :
    StopsAlike c run := by
  have hstrict := fun raiseNotices => h _ _ (ends_strict c raiseNotices)
  have hraising := h _ _ (ends_raising c)
  unfold StopsAlike
  simp only [hstrict, hraising, Parse.endAt]
  cases (run ⟨c, false, false⟩).notices with
  | nil => exact ⟨fun _ => rfl, rfl⟩
  | cons n ns =>
    obtain ⟨name⟩ := n
    exact ⟨fun _ => rfl, rfl⟩

/-- Two objects whose types are no tuples carry components, and the parse fails behind them. -/
example :
    (parseElements ⟨.unlimited, false, false⟩ (.list [
      .record [(.text "type", .text "bool"), (.text "components", .null)],
      .record [(.text "type", .text "uint8"), (.text "components", .list [])],
      .record []])).notices = [.ignoredComponents "bool", .ignoredComponents "uint8"] := by
  decide +kernel

end ContractAbi
