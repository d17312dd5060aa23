import ContractAbi.Proofs.TypeName.Balance

/-!
# How a name ends

A name is read from its end: a bracket there closes either the whole name, which is then a tuple,
or an array suffix.  `ending` looks at that bracket alone, and `readWithin_succ` reads a name by it,
one suffix at a time.

The reader itself takes all array suffixes off before it looks at what is left, and puts the
dimensions back on at the end.  That the two come to the same is what `readWithin_succ` says, for
every ceiling and every depth; all that is proved about reading below goes through it and never
through the loop.  `reading_induction` is the induction that goes with it.
-/

namespace ContractAbi.TypeName

/-! ## 1. Endings -/

/-- What the end of a name says about the name. -/
inductive Ending where
  /-- There is no bracket at the end. -/
  | bare
  /-- The bracket at the end closes nothing, or what another shape of bracket opened. -/
  | faulty (f : NameFault)
  /-- The name is one group. -/
  | group (body : Text)
  /-- An array suffix, and what stands before it. -/
  | suffix (before body : Text)
  /-- A group in braces behind something else. -/
  | braces

/-- The end of a name. -/
def ending (name : Text) : Ending :=
  match name.reverse with
  | [] => .bare
  | c :: before =>
    match openerOf? c with
    | none => .bare
    | some want =>
      match scanBack want 0 [] before with
      | .error f => .faulty f
      | .ok (body, []) => .group body
      | .ok (body, d :: rest) =>
        if c = CodePoint.ofChar ']' then .suffix (d :: rest).reverse body else .braces

theorem ending_eq_bare {name : Text} {c : CodePoint} (h : isCloser c = false) :
    ending (name ++ [c]) = .bare := by
  have hc : openerOf? c = none := by
    rw [isCloser] at h
    exact Option.isNone_iff_eq_none.mp (by simpa using h)
  simp [ending, hc]

/-- What the scan from the right makes of a bracket at the end. -/
theorem ending_append_closer {name : Text} {o c : CodePoint} (h : (o, c) ∈ bracketPairs) :
    ending (name ++ [c]) =
      match scanBack o 0 [] name.reverse with
      | .error f => .faulty f
      | .ok (body, []) => .group body
      | .ok (body, d :: rest) =>
        if c = CodePoint.ofChar ']' then .suffix (d :: rest).reverse body else .braces := by
  simp [ending, openerOf?_eq_some_iff.mpr h]

/-- **A name that is one group**: a balanced body between brackets of one shape. -/
theorem ending_eq_group_iff {name body : Text} :
    ending name = .group body ↔
      ∃ o c, (o, c) ∈ bracketPairs ∧ name = o :: (body ++ [c]) ∧ Balanced body := by
  constructor
  · intro h
    unfold ending at h
    split at h
    · cases h
    · next c before hrev =>
      split at h
      · cases h
      · next want hw =>
        have hp := openerOf?_eq_some_iff.mp hw
        split at h
        · cases h
        · next body' hs =>
          cases h
          obtain ⟨rfl, hb⟩ := (scanBack_eq_ok_iff (isOpener_of_mem_pairs hp)).mp hs
          refine ⟨want, c, hp, ?_, hb⟩
          simpa using congrArg List.reverse hrev
        · split at h <;> cases h
  · rintro ⟨o, c, hp, rfl, hb⟩
    have hs : scanBack o 0 [] (o :: body).reverse = .ok (body, []) :=
      (scanBack_eq_ok_iff (isOpener_of_mem_pairs hp)).mpr ⟨by simp, hb⟩
    rw [← List.cons_append, ending_append_closer hp, hs]

/-- **A name with an array suffix**: something in front of a balanced text in square brackets. -/
theorem ending_eq_suffix_iff {name before body : Text} :
    ending name = .suffix before body ↔
      before ≠ [] ∧ Balanced body ∧
        name = before ++ CodePoint.ofChar '[' :: (body ++ [CodePoint.ofChar ']']) := by
  have hp : (CodePoint.ofChar '[', CodePoint.ofChar ']') ∈ bracketPairs := List.mem_cons_self ..
  constructor
  · intro h
    unfold ending at h
    split at h
    · cases h
    · next c before' hrev =>
      split at h
      · cases h
      · next want hw =>
        have hp := openerOf?_eq_some_iff.mp hw
        split at h
        · cases h
        · cases h
        · next body' d rest hs =>
          split at h
          · next hc =>
            cases h
            subst hc
            obtain rfl : want = CodePoint.ofChar '[' := by
              simpa [openerOf?, eq_comm] using hw
            obtain ⟨rfl, hb⟩ := (scanBack_eq_ok_iff (isOpener_of_mem_pairs hp)).mp hs
            refine ⟨by simp, hb, ?_⟩
            simpa using congrArg List.reverse hrev
          · cases h
  · rintro ⟨hne, hb, rfl⟩
    have hs : scanBack (CodePoint.ofChar '[') 0 []
        (before ++ CodePoint.ofChar '[' :: body).reverse = .ok (body, before.reverse) :=
      (scanBack_eq_ok_iff (isOpener_of_mem_pairs hp)).mpr ⟨by simp, hb⟩
    obtain ⟨d, rest, hrev⟩ := List.exists_cons_of_ne_nil (mt List.reverse_eq_nil_iff.mp hne)
    rw [← List.cons_append, ← List.append_assoc, ending_append_closer hp, hs, hrev]
    simp only [if_true, Ending.suffix.injEq, and_true]
    rw [← hrev, List.reverse_reverse]

/-- What stands before an array suffix is shorter than the name. -/
theorem length_of_suffix {name before body : Text} (h : ending name = .suffix before body) :
    before.length < name.length := by
  obtain ⟨-, -, rfl⟩ := ending_eq_suffix_iff.mp h
  simp only [List.length_append, List.length_cons]
  omega

/-! ## 2. Reading by the end -/

/-- Reads a name by its end.  `inner` reads what an array suffix is a suffix of, and `piece` reads
an element of a tuple. -/
def readEnd (inner piece : Text → Except Failure AbiType) (name : Text) : Except Failure AbiType :=
  match ending name with
  | .bare => readScalar name
  | .faulty f => .error (.refused (.name name f))
  | .group body =>
    match pieces body with
    | .error f => .error (.refused (.name name f))
    | .ok ps => (ps.mapM piece).map .tuple
  | .suffix before body => do
    let dim ← dimension body name
    (inner before).map fun t => TypeTree.arrayOf t dim
  | .braces => .error (.refused (.name name .unknown))

/-- Only what is read of the parts of a name counts. -/
theorem readEnd_congr {inner inner' piece piece' : Text → Except Failure AbiType} {name : Text}
    (hinner : ∀ before body, ending name = .suffix before body → inner before = inner' before)
    (hpiece : ∀ body ps p, ending name = .group body → pieces body = .ok ps → p ∈ ps →
      piece p = piece' p) :
    readEnd inner piece name = readEnd inner' piece' name := by
  unfold readEnd
  cases hend : ending name with
  | suffix before body => simp only [hinner before body hend]
  | group body =>
    dsimp only
    cases hps : pieces body with
    | error f => rfl
    | ok ps =>
      dsimp only
      rw [Outcome.mapM_congr fun p hp => hpiece body ps p hend hps hp]
  | _ => rfl

/-- Reads what is left of a name when its array suffixes are gone, and puts the suffixes back on. -/
def readPeeled (ceiling : Ceiling) (budget : Nat) (p : Peeled) : Except Failure AbiType :=
  match p.core with
  | .scalar core => (readScalar core).map (TypeTree.wrap p.dims)
  | .tuple core body =>
    match pieces body with
    | .error f => .error (.refused (.name core f))
    | .ok ps =>
      (ps.mapM fun piece => readWithin ceiling budget piece (p.depth + 1)).map fun ts =>
        TypeTree.wrap p.dims (.tuple ts)

theorem readWithin_eq_peel (ceiling : Ceiling) (budget : Nat) (name : Text) (depth : Int) :
    readWithin ceiling (budget + 1) name depth = (do
      ceiling.check depth
      let p ← peel ceiling depth name.reverse
      readPeeled ceiling budget p) := by
  rw [readWithin]
  rfl

/-- A suffix that was read off goes back on outermost. -/
theorem readPeeled_push (ceiling : Ceiling) (budget : Nat) (d : TypeTree.Dimension) (p : Peeled) :
    readPeeled ceiling budget (p.push d) =
      (readPeeled ceiling budget p).map fun t => TypeTree.arrayOf t d := by
  obtain ⟨dims, core, depth⟩ := p
  cases core with
  | scalar core =>
    simp only [readPeeled, Peeled.push]
    cases readScalar core <;> rfl
  | tuple core body =>
    simp only [readPeeled, Peeled.push]
    cases pieces body with
    | error f => rfl
    | ok ps =>
      simp only
      cases ps.mapM fun piece => readWithin ceiling budget piece (depth + 1) <;> rfl

/-- The loop over the array suffixes, one round at a time. -/
theorem peel_reverse (ceiling : Ceiling) (depth : Int) (name : Text) :
    peel ceiling depth name.reverse =
      match ending name with
      | .bare => .ok ⟨[], .scalar name, depth⟩
      | .faulty f => .error (.refused (.name name f))
      | .group body => .ok ⟨[], .tuple name body, depth⟩
      | .suffix before body => do
        let dim ← dimension body name
        ceiling.check (depth + 1)
        (peel ceiling (depth + 1) before.reverse).map (Peeled.push dim)
      | .braces => .error (.refused (.name name .unknown)) := by
  unfold ending
  cases hrev : name.reverse with
  | nil =>
    obtain rfl := List.reverse_eq_nil_iff.mp hrev
    rw [peel]
  | cons c before =>
    obtain rfl : name = (c :: before).reverse := by rw [← hrev, List.reverse_reverse]
    rw [peel.eq_def]
    simp only
    cases openerOf? c with
    | none => rfl
    | some want =>
      simp only
      split
      · next f hs => simp only [hs]
      · next body hs => simp only [hs]
      · next body d rest hs =>
        simp only [hs]
        by_cases hc : c = CodePoint.ofChar ']'
        · simp only [hc, if_true, List.reverse_reverse]
        · simp only [hc, if_false]

/-- **A name is read by its end.**  An array suffix is read off and the rest of the name is read one
level deeper, a group is read piece by piece, and anything else is a scalar or nothing. -/
theorem readWithin_succ (ceiling : Ceiling) (budget : Nat) (name : Text) (depth : Int) :
    readWithin ceiling (budget + 1) name depth = (do
      ceiling.check depth
      readEnd (fun inner => readWithin ceiling (budget + 1) inner (depth + 1))
        (fun piece => readWithin ceiling budget piece (depth + 1)) name) := by
  rw [readWithin_eq_peel]
  refine bind_congr fun _ => ?_
  rw [peel_reverse, readEnd]
  cases ending name with
  | bare =>
    simp only [Outcome.ok_bind, readPeeled]
    cases readScalar name <;> rfl
  | faulty f => rfl
  | group body =>
    simp only [Outcome.ok_bind, readPeeled]
    rfl
  | suffix before body =>
    simp only [readWithin_eq_peel, bind_assoc]
    refine bind_congr fun dim => ?_
    cases hcheck : ceiling.check (depth + 1) with
    | error e => rfl
    | ok _ =>
      simp only [Outcome.ok_bind]
      cases peel ceiling (depth + 1) before.reverse with
      | error e => rfl
      | ok p => exact readPeeled_push ceiling budget dim p
  | braces => rfl

/-! ## 3. Induction over a reading -/

/-- **Induction over the reading of names.**  What stands before an array suffix is read on the same
budget as the name, and an element of a tuple on a smaller one. -/
@[elab_as_elim]
theorem reading_induction {P : Nat → Text → Int → Prop} (zero : ∀ name depth, P 0 name depth)
    (succ : ∀ budget name depth,
      (∀ before body, ending name = .suffix before body → ∀ d, P (budget + 1) before d) →
        (∀ piece d, P budget piece d) → P (budget + 1) name depth)
    (budget : Nat) (name : Text) (depth : Int) : P budget name depth := by
  induction budget generalizing name depth with
  | zero => exact zero name depth
  | succ budget ih =>
    induction hn : name.length using Nat.strongRecOn generalizing name depth with
    | ind n ihn =>
      subst hn
      refine succ budget name depth (fun before body hend d => ?_) ih
      exact ihn before.length (length_of_suffix hend) before d rfl

/-- `EndFails inner piece name e`: what is at fault when a name fails to be read by its end. -/
inductive EndFails (inner piece : Text → Except Failure AbiType) (name : Text) : Failure → Prop
  /-- The end follows no rule, or what it closes is no list of elements. -/
  | spelling (f : NameFault) : EndFails inner piece name (.refused (.name name f))
  | scalar {e : Failure} (hend : ending name = .bare) (h : readScalar name = .error e) :
    EndFails inner piece name e
  /-- The first element that fails to be read. -/
  | element {e : Failure} {body p : Text} {before after : List Text}
    (hend : ending name = .group body) (hpieces : pieces body = .ok (before ++ p :: after))
    (hread : ∀ q ∈ before, ∃ t, piece q = .ok t) (h : piece p = .error e) :
    EndFails inner piece name e
  | length {e : Failure} {before body : Text} (hend : ending name = .suffix before body)
    (h : dimension body name = .error e) : EndFails inner piece name e
  /-- What stands before an array suffix that can be read. -/
  | before {e : Failure} {before body : Text} {dim : TypeTree.Dimension}
    (hend : ending name = .suffix before body) (hdim : dimension body name = .ok dim)
    (h : inner before = .error e) : EndFails inner piece name e

theorem endFails_of_readEnd {inner piece : Text → Except Failure AbiType} {name : Text}
    {e : Failure} (h : readEnd inner piece name = .error e) : EndFails inner piece name e := by
  unfold readEnd at h
  split at h
  · next hend => exact .scalar hend h
  · cases h
    exact .spelling _
  · next body hend =>
    split at h
    · cases h
      exact .spelling _
    · next ps hps =>
      obtain ⟨before, p, after, rfl, hread, hp⟩ :=
        Outcome.mapM_eq_error_iff.mp (Outcome.map_eq_error_iff.mp h)
      exact .element hend hps hread hp
  · next before body hend =>
    rcases Outcome.bind_eq_error_iff.mp h with hdim | ⟨dim, hdim, h⟩
    · exact .length hend hdim
    · exact .before hend hdim (Outcome.map_eq_error_iff.mp h)
  · cases h
    exact .spelling _

end ContractAbi.TypeName
