import ContractAbi.Proofs.TypeName.Reading

/-!
# The numerals that a reader comes to

A name may hold many numerals, and a reader that stops does not come to all of them.  It comes to
the width of a scalar, to the length of an array, and to what it meets further in once the length
of the array, or the elements in front, were read.

`Meets` says which numerals these are.  A numeral of too many digits ends the reading exactly if the
reader comes to it (`readWithin_eq_longNumber_iff`).
-/

namespace ContractAbi

/-- A depth is refused for being too great, or because the ceiling is none. -/
theorem Ceiling.check_eq_error {ceiling : Ceiling} {depth : Int} {e : Failure}
    (h : ceiling.check depth = .error e) :
    e = .refused (.tooDeep ceiling) ∨
      (ceiling.exceededBy? depth = none ∧ e = .incomparable ceiling.toValue.kindName) := by
  unfold check at h
  split at h
  · exact Or.inl (Except.error.inj h).symm
  · cases h
  · next hnone => exact Or.inr ⟨hnone, (Except.error.inj h).symm⟩

namespace TypeName

variable {ceiling : Ceiling} {budget : Nat} {name : Text} {depth : Int}

/-- `Meets ceiling budget name depth ds`: the reader of the name comes to the numeral `ds`. -/
inductive Meets (ceiling : Ceiling) : (budget : Nat) → (name : Text) → (depth : Int) →
    (ds : Text) → Prop
  /-- The width of a scalar. -/
  | width {budget : Nat} {depth : Int} (hcheck : ceiling.check depth = .ok ()) (k : Sized)
    {ds : Text} (hds : Decimal.IsNumeral ds) :
    Meets ceiling (budget + 1) (k.keyword ++ ds) depth ds
  /-- The length of an array. -/
  | length {budget : Nat} {name : Text} {depth : Int} (hcheck : ceiling.check depth = .ok ())
    {before ds : Text} (hend : ending name = .suffix before ds) (hds : Decimal.IsNumeral ds) :
    Meets ceiling (budget + 1) name depth ds
  /-- A numeral before an array suffix that can be read. -/
  | before {budget : Nat} {name : Text} {depth : Int} (hcheck : ceiling.check depth = .ok ())
    {before body ds : Text} (hend : ending name = .suffix before body)
    {dim : TypeTree.Dimension} (hdim : dimension body name = .ok dim)
    (h : Meets ceiling (budget + 1) before (depth + 1) ds) :
    Meets ceiling (budget + 1) name depth ds
  /-- A numeral in an element behind others that can be read. -/
  | element {budget : Nat} {name : Text} {depth : Int} (hcheck : ceiling.check depth = .ok ())
    {body p ds : Text} {ps qs : List Text} (hend : ending name = .group body)
    (hpieces : pieces body = .ok (ps ++ p :: qs))
    (hread : ∀ q ∈ ps, ∃ t, readWithin ceiling budget q (depth + 1) = .ok t)
    (h : Meets ceiling budget p (depth + 1) ds) :
    Meets ceiling (budget + 1) name depth ds

theorem ending_keyword_append (k : Sized) {ds : Text} (hds : Decimal.IsNumeral ds) :
    ending (k.keyword ++ ds) = .bare := by
  obtain ⟨front, c, rfl⟩ : ∃ front c, ds = front ++ [c] :=
    ⟨ds.dropLast, ds.getLast hds.1, (List.dropLast_concat_getLast hds.1).symm⟩
  rw [← List.append_assoc]
  exact ending_eq_bare (isPlain_iff.mp (isPlain_of_isDigit (hds.2 c (by simp)))).2.1

/-- A numeral of too many digits ends the reading when the reader comes to it. -/
theorem readWithin_of_meets {ds : Text} (h : Meets ceiling budget name depth ds)
    (long : Decimal.digitLimit < ds.length) :
    readWithin ceiling budget name depth = .error (.longNumber ds.length) := by
  have hnumber : Decimal.IsNumeral ds → ∀ s, number ds s = .error (.longNumber ds.length) :=
    fun hds s => number_eq_error_iff.mpr (Or.inr ⟨hds, long, rfl⟩)
  induction h with
  | width hcheck k hds =>
    rw [readWithin_succ, hcheck, Outcome.ok_bind, readEnd, ending_keyword_append k hds]
    simp only [readScalar_keyword_append k hds, hnumber hds, Outcome.error_bind]
  | @length budget name depth hcheck before ds hend hds =>
    have hdim := dimension_eq_error_iff.mpr ⟨hds.1, hnumber hds name⟩
    rw [readWithin_succ, hcheck, Outcome.ok_bind, readEnd, hend]
    simp only [hdim, Outcome.error_bind]
  | before hcheck hend hdim _ ih =>
    rw [readWithin_succ, hcheck, Outcome.ok_bind, readEnd, hend]
    simp only [hdim, Outcome.ok_bind, ih long hnumber]
    rfl
  | @element budget name depth hcheck body p ds ps qs hend hpieces hread _ ih =>
    have hps : (ps ++ p :: qs).mapM (fun piece => readWithin ceiling budget piece (depth + 1)) =
        .error (.longNumber ds.length) :=
      Outcome.mapM_eq_error_iff.mpr ⟨ps, p, qs, rfl, hread, ih long hnumber⟩
    rw [readWithin_succ, hcheck, Outcome.ok_bind, readEnd, hend]
    simp only [hpieces, hps]
    rfl

/-- The numeral in question, if a name fails by its end for one of too many digits. -/
theorem meets_of_endFails {inner : Text → Except Failure AbiType} {n : Nat}
    (hcheck : ceiling.check depth = .ok ())
    (hinner : ∀ before body, ending name = .suffix before body →
      inner before = .error (.longNumber n) →
        ∃ ds, Meets ceiling (budget + 1) before (depth + 1) ds ∧
          Decimal.digitLimit < ds.length ∧ ds.length = n)
    (hpiece : ∀ p, readWithin ceiling budget p (depth + 1) = .error (.longNumber n) →
      ∃ ds, Meets ceiling budget p (depth + 1) ds ∧ Decimal.digitLimit < ds.length ∧
        ds.length = n)
    (h : EndFails inner (fun p => readWithin ceiling budget p (depth + 1)) name
      (.longNumber n)) :
    ∃ ds, Meets ceiling (budget + 1) name depth ds ∧ Decimal.digitLimit < ds.length ∧
      ds.length = n := by
  have hlong : ∀ {ds s}, number ds s = .error (.longNumber n) →
      Decimal.IsNumeral ds ∧ Decimal.digitLimit < ds.length ∧ ds.length = n := by
    intro ds s hnum
    rcases number_eq_error_iff.mp hnum with ⟨-, he⟩ | ⟨hds, hlen, he⟩
    · cases he
    · cases he
      exact ⟨hds, hlen, rfl⟩
  cases h with
  | scalar _ h =>
    rcases readScalar_eq_error h with ⟨f, he⟩ | ⟨k, ds, rfl, hnum⟩
    · cases he
    · obtain ⟨hds, hlen⟩ := hlong hnum
      exact ⟨ds, .width hcheck k hds, hlen⟩
  | @element _ body p before after hend hpieces hread hp =>
    obtain ⟨ds, hmeets, hlen⟩ := hpiece p hp
    exact ⟨ds, .element hcheck hend hpieces hread hmeets, hlen⟩
  | @length _ before body hend hdim =>
    obtain ⟨hds, hlen⟩ := hlong (dimension_eq_error_iff.mp hdim).2
    exact ⟨body, .length hcheck hend hds, hlen⟩
  | @before _ before body dim hend hdim h =>
    obtain ⟨ds, hmeets, hlen⟩ := hinner before body hend h
    exact ⟨ds, .before hcheck hend hdim hmeets, hlen⟩

/-- **A numeral of too many digits ends the reading exactly if the reader comes to it.** -/
theorem readWithin_eq_longNumber_iff {n : Nat} :
    readWithin ceiling budget name depth = .error (.longNumber n) ↔
      ∃ ds, Meets ceiling budget name depth ds ∧ Decimal.digitLimit < ds.length ∧
        ds.length = n := by
  constructor
  · intro h
    induction budget, name, depth using reading_induction with
    | zero name depth => cases h
    | succ budget name depth hinner hpiece =>
      rw [readWithin_succ] at h
      rcases Outcome.bind_eq_error_iff.mp h with hcheck | ⟨_, hcheck, h⟩
      · rcases Ceiling.check_eq_error hcheck with he | ⟨-, he⟩ <;> cases he
      · exact meets_of_endFails hcheck (fun before body hend he => hinner before body hend _ he)
          (fun p he => hpiece p _ he) (endFails_of_readEnd h)
  · rintro ⟨ds, hmeets, hlen, rfl⟩
    exact readWithin_of_meets hmeets hlen

end TypeName

end ContractAbi
