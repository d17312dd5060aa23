import ContractAbi.Proofs.TypeName.Reading

/-!
# The piece at fault

A name that is refused has many pieces, and one of them is at fault: what stands before some of the
array suffixes, an element of a tuple, or a piece of such an element.  The refusal names that piece,
and the piece alone is refused in the same way (`refusal_names_piece`).

What carries this is that the reader stops at the end of some piece (`FailsAtEnd`).  There it has
read none of the parts of the piece, so that the failure depends on the piece and on nothing around
it: neither on its depth, nor on the budget that is left, nor on the suffixes behind it.
-/

namespace ContractAbi.TypeName

variable {name : Text} {e : Failure} {inner piece : Text → Except Failure AbiType}

/-! ## 1. Faults at the end of a name -/

/-- `FailsAtEnd name e`: the end of the name is at fault, whatever its parts are read as. -/
def FailsAtEnd (name : Text) (e : Failure) : Prop :=
  ∀ inner piece, readEnd inner piece name = .error e

/-- **A name at fault at its end fails wherever it stands.** -/
theorem FailsAtEnd.readWithin (h : FailsAtEnd name e) (budget : Nat) (depth : Int) :
    TypeName.readWithin .unlimited (budget + 1) name depth = .error e := by
  rw [readWithin_unlimited]
  exact h _ _

/-- At the end of a name its spelling is at fault, or a number that stands there. -/
theorem FailsAtEnd.cause (h : FailsAtEnd name e) :
    (∃ f, e = .refused (.name name f)) ∨ ∃ ds, ds <:+: name ∧ number ds name = .error e := by
  -- Readers that accept everything leave no fault to the parts.
  have hend := h (fun _ => .ok (.tuple [])) (fun _ => .ok (.tuple []))
  cases endFails_of_readEnd hend with
  | spelling f => exact Or.inl ⟨f, rfl⟩
  | scalar _ hscalar =>
    rcases readScalar_eq_error hscalar with hname | ⟨k, ds, rfl, hnum⟩
    · exact Or.inl hname
    · exact Or.inr ⟨ds, List.infix_append_right .., hnum⟩
  | element _ _ _ hp => cases hp
  | @length _ before body hsuffix hdim =>
    exact Or.inr ⟨body, infix_body hsuffix, (dimension_eq_error_iff.mp hdim).2⟩
  | before _ _ hbefore => cases hbefore

/-- A name of which no part is read fails at its end. -/
theorem failsAtEnd_of_no_part (hsuffix : ∀ before body, ending name ≠ .suffix before body)
    (hgroup : ∀ body ps, ending name = .group body → pieces body ≠ .ok ps)
    (h : readEnd inner piece name = .error e) : FailsAtEnd name e := by
  intro inner' piece'
  rw [← h]
  exact readEnd_congr (fun before body hend => absurd hend (hsuffix before body))
    fun body ps _ hend hps => absurd hps (hgroup body ps hend)

/-! ## 2. Faults of a part -/

/-- `PartFails inner piece name e`: the reading of a name by its end comes to a part that fails. -/
inductive PartFails (inner piece : Text → Except Failure AbiType) (name : Text) (e : Failure) : Prop
  | before {before body : Text} (hend : ending name = .suffix before body)
    (h : inner before = .error e)
  | element {body p : Text} {ps : List Text} (hend : ending name = .group body)
    (hpieces : pieces body = .ok ps) (hmem : p ∈ ps) (h : piece p = .error e)

/-- **A name fails at its end, or in a part that its end leads to.** -/
theorem failsAtEnd_or_part (h : readEnd inner piece name = .error e) :
    FailsAtEnd name e ∨ PartFails inner piece name e := by
  cases hend : ending name with
  | suffix before body =>
    cases hdim : dimension body name with
    | error e' =>
      have hread : ∀ inner' piece', readEnd inner' piece' name = .error e' := by
        intro inner' piece'
        simp only [readEnd, hend, hdim, Outcome.error_bind]
      cases (hread inner piece).symm.trans h
      exact Or.inl hread
    | ok dim =>
      simp only [readEnd, hend, hdim, Outcome.ok_bind] at h
      exact Or.inr (.before hend (Outcome.map_eq_error_iff.mp h))
  | group body =>
    cases hps : pieces body with
    | error f =>
      refine Or.inl (failsAtEnd_of_no_part (fun before text hs => ?_) (fun text ps hg hp => ?_) h)
      · cases hend.symm.trans hs
      · cases hend.symm.trans hg
        cases hps.symm.trans hp
    | ok ps =>
      simp only [readEnd, hend, hps] at h
      obtain ⟨before, p, after, rfl, -, hp⟩ :=
        Outcome.mapM_eq_error_iff.mp (Outcome.map_eq_error_iff.mp h)
      exact Or.inr (.element hend hps (List.mem_append_right _ (List.mem_cons_self ..)) hp)
  | _ =>
    refine Or.inl (failsAtEnd_of_no_part (fun before text hs => ?_) (fun text ps hg => ?_) h)
    · cases hend.symm.trans hs
    · cases hend.symm.trans hg

/-- **Every failure but that of too deep a nesting has a piece of the name that is at fault at its
end.** -/
theorem failsAtEnd_of_readWithin {budget : Nat} {depth : Int}
    (h : readWithin .unlimited budget name depth = .error e) :
    e = .refused (.tooDeep .unlimited) ∨ ∃ s, s <:+: name ∧ FailsAtEnd s e := by
  induction budget, name, depth using reading_induction with
  | zero name depth =>
    cases h
    exact Or.inl rfl
  | succ budget name depth hinner hpiece =>
    rw [readWithin_unlimited] at h
    rcases failsAtEnd_or_part h with hend | ⟨hend, hbefore⟩ | ⟨hend, hps, hmem, hp⟩
    · exact Or.inr ⟨name, List.infix_rfl, hend⟩
    · rcases hinner _ _ hend _ hbefore with he | ⟨s, hs, hfails⟩
      · exact Or.inl he
      · exact Or.inr ⟨s, hs.trans (infix_before hend), hfails⟩
    · rcases hpiece _ _ hp with he | ⟨s, hs, hfails⟩
      · exact Or.inl he
      · have hpart := infix_piece hend (pieces_eq_ok_iff.mp hps).1 hmem
        exact Or.inr ⟨s, hs.trans hpart, hfails⟩

/-! ## 3. What a refusal names -/

/-- **A refusal names the piece at fault.**  What is reported as no name is a part of the name that
was read, and what is reported as no number is a part of such a part and no numeral.  The part in
question, read alone, is refused in the same way, however many tuples in one another are read. -/
theorem refusal_names_piece {r : Report} {limit : Nat} (h : read .unlimited name limit = .error e)
    (hreport : e.report? = some r) :
    (r.kind = .invalidName → ∃ s f, e = .refused (.name s f) ∧ s <:+: name ∧
        read .unlimited s limit = .error e) ∧
      (r.kind = .invalidNumber → ∃ ds s, e = .refused (.number ds s) ∧ s <:+: name ∧ ds <:+: s ∧
        ¬ Decimal.IsNumeral ds ∧ read .unlimited s limit = .error e) := by
  rcases failsAtEnd_of_readWithin h with rfl | ⟨s, hs, hfails⟩
  · cases hreport
    exact ⟨nofun, nofun⟩
  have hread : read .unlimited s limit = .error e := hfails.readWithin limit 0
  rcases hfails.cause with ⟨f, rfl⟩ | ⟨ds, hds, hnum⟩
  · cases hreport
    exact ⟨fun _ => ⟨s, f, rfl, hs, hread⟩, nofun⟩
  · rcases number_eq_error_iff.mp hnum with ⟨hno, rfl⟩ | ⟨-, -, rfl⟩
    · cases hreport
      exact ⟨nofun, fun _ => ⟨ds, s, rfl, hs, hds, hno, hread⟩⟩
    · cases hreport

/-- The length of an array that is an element of a tuple, behind one that can be read. -/
theorem refusal_names_piece_length :
    let name : Text := "[bool,uint8[1x]][2]"
    let s : Text := "uint8[1x]"
    let e : Failure := .refused (.number "1x" s)
    read .unlimited name = .error e ∧ s <:+: name ∧ read .unlimited s = .error e := by
  intro name s e
  have hs : FailsAtEnd s e := fun _ _ => rfl
  have hpieces : ∀ depth,
      ([("bool" : Text), s].mapM fun p => readWithin .unlimited bracketLimit p depth) =
        .error e := by
    intro depth
    refine Outcome.mapM_eq_error_iff.mpr ⟨["bool"], s, [], rfl, fun q hq => ?_, hs.readWithin _ _⟩
    obtain rfl := List.mem_singleton.mp hq
    exact ⟨.leaf .bool, readWithin_unlimited ..⟩
  have htuple : ∀ depth,
      readWithin .unlimited (bracketLimit + 1) "[bool,uint8[1x]]" depth = .error e := by
    intro depth
    rw [readWithin_unlimited]
    exact Outcome.map_eq_error_iff.mpr (hpieces _)
  have hname : read .unlimited name = .error e := by
    rw [read, readAt, readWithin_unlimited]
    exact Outcome.bind_eq_error_iff.mpr
      (Or.inr ⟨some 2, rfl, Outcome.map_eq_error_iff.mpr (htuple _)⟩)
  obtain ⟨ds, t, he, ht, -, -, hread⟩ := (refusal_names_piece hname rfl).2 rfl
  simp only [e, Failure.refused.injEq, ParseError.number.injEq] at he
  obtain ⟨-, rfl⟩ := he
  exact ⟨hname, ht, hread⟩

end ContractAbi.TypeName
