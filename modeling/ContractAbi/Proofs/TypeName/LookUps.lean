import ContractAbi.Proofs.TypeName.Ending
import Mathlib.Data.List.Induction

/-!
# Names by position

The scan from the right may also be told by positions: each code point is looked up by its place in
the name, and when the bracket that opens the last group is found, what the last code point of the
name closes is looked up as well.  Either look-up may miss, and then the scan has no answer
(`openerAt?`).

No look-up misses where a name ends with a bracket (`matchingOpener?_eq`), and the loop over the
array suffixes scans no other names.  So the loop told by positions (`peelAt`) is the loop that
runs, and never comes to the end it has for a miss (`peelAt_eq`).
-/

namespace ContractAbi.TypeName

/-! ## 1. The scan -/

/-- Scans the first `pos` code points of a name from the right, with `nesting` brackets open behind
them, for the place of the bracket that brings this number to zero.  There is no answer if a look-up
misses. -/
def openerAt? (name : Text) : (pos : Nat) → (nesting : Int) → Option (Except NameFault Nat)
  | 0, _ => some (.error .unbalanced)
  | pos + 1, nesting =>
    match name[pos]? with
    | none => none
    | some c =>
      if isCloser c then openerAt? name pos (nesting + 1)
      else if isOpener c then
        if nesting - 1 = 0 then
          match name.getLast?.bind openerOf? with
          | none => none
          | some want => some (if c = want then .ok pos else .error .mismatched)
        else openerAt? name pos (nesting - 1)
      else openerAt? name pos nesting

/-- The place of the bracket that opens the group at the end of a name. -/
def matchingOpener? (name : Text) : Option (Except NameFault Nat) := openerAt? name name.length 0

/-- The code points in front of a place, last first. -/
theorem reverse_take_succ {name : Text} {pos : Nat} (h : pos < name.length) :
    (name.take (pos + 1)).reverse = name[pos] :: (name.take pos).reverse := by
  rw [List.take_add_one, List.getElem?_eq_getElem h]
  simp

/-- **The scan by positions is the scan from the right**, if the name ends with what closes the
wanted bracket.  Between the brackets one more is open than the other scan owes. -/
theorem openerAt?_eq {name : Text} {want : CodePoint}
    (hlast : name.getLast?.bind openerOf? = some want) (owed : Nat) (body : Text) {pos : Nat}
    (hpos : pos ≤ name.length) :
    openerAt? name pos (owed + 1) =
      some ((scanBack want owed body (name.take pos).reverse).map fun g => g.2.length) := by
  induction pos generalizing owed body with
  | zero => rfl
  | succ pos ih =>
    have hlt : pos < name.length := hpos
    have hle : pos ≤ name.length := Nat.le_of_lt hlt
    rw [reverse_take_succ hlt, openerAt?, List.getElem?_eq_getElem hlt]
    dsimp only
    rcases bracket_cases name[pos] with ho | ⟨ho, hc⟩ | ⟨ho, hc⟩
    · rw [isCloser_eq_false_of_isOpener ho, ho]
      simp only [Bool.false_eq_true, if_false, if_true]
      cases owed with
      | zero =>
        rw [hlast, scanBack.eq_def]
        simp only [isCloser_eq_false_of_isOpener ho, ho, Bool.false_eq_true, if_false, if_true,
          Int.ofNat_zero, Int.zero_add, Int.sub_self]
        by_cases hw : name[pos] = want
        · simp [hw, Except.map, Nat.min_eq_left hle]
        · simp [hw, Except.map]
      | succ owed =>
        have hne : ((owed + 1 : Nat) : Int) + 1 - 1 ≠ 0 := by omega
        have hsub : ((owed + 1 : Nat) : Int) + 1 - 1 = (owed : Int) + 1 := by omega
        rw [if_neg hne, hsub, scanBack_opener ho]
        exact ih owed _ hle
    · rw [hc]
      simp only [if_true]
      rw [scanBack_closer hc]
      exact ih (owed + 1) _ hle
    · rw [hc, ho]
      simp only [Bool.false_eq_true, if_false]
      rw [scanBack_other ho hc]
      exact ih owed _ hle

/-- **Where a name ends with a bracket no look-up misses**, and the place that is found is the
length of what stands before the last group. -/
theorem matchingOpener?_eq {name : Text} {c want : CodePoint} (h : openerOf? c = some want) :
    matchingOpener? (name ++ [c]) =
      some ((scanBack want 0 [] name.reverse).map fun g => g.2.length) := by
  have hcloser : isCloser c = true := by rw [isCloser, h]; rfl
  have hlast : (name ++ [c]).getLast?.bind openerOf? = some want := by
    rw [List.getLast?_concat]
    exact h
  have hpos : name.length ≤ (name ++ [c]).length := by simp
  have hscan := openerAt?_eq hlast 0 [] hpos
  rw [List.take_left] at hscan
  rw [matchingOpener?, List.length_append, List.length_singleton, openerAt?]
  simp only [List.getElem?_concat_length, hcloser, if_true]
  exact hscan

/-! ## 2. The end of a name -/

/-- What stands in a name between a bracket at a place and the last code point. -/
def bodyFrom (name : Text) (start : Nat) : Text := (name.drop (start + 1)).dropLast

/-- The end of a name by positions. -/
def endingAt? (name : Text) : Option Ending :=
  match name.getLast? with
  | none => some .bare
  | some c =>
    if isCloser c then
      match matchingOpener? name with
      | none => none
      | some (.error f) => some (.faulty f)
      | some (.ok 0) => some (.group (bodyFrom name 0))
      | some (.ok (start + 1)) =>
        if c = CodePoint.ofChar ']' then
          some (.suffix (name.take (start + 1)) (bodyFrom name (start + 1)))
        else some .braces
    else some .bare

/-- The body that the scan from the right passes stands behind the bracket it finds. -/
theorem bodyFrom_of_scanBack {name body rest : Text} {c want : CodePoint}
    (h : scanBack want 0 [] name.reverse = .ok (body, rest)) :
    bodyFrom (name ++ [c]) rest.length = body ∧ (name ++ [c]).take rest.length = rest.reverse := by
  obtain ⟨t, rfl, hrev, -⟩ := exists_of_scanBack h
  have hname : name = rest.reverse ++ want :: t := by
    rw [← List.reverse_reverse name, hrev]
    simp
  have hlen : rest.length = rest.reverse.length := List.length_reverse.symm
  rw [hname, hlen, bodyFrom, List.append_assoc]
  constructor
  · rw [List.drop_append]
    simp
  · exact List.take_left

/-- **The end of a name by positions is its end**, and is found for every name. -/
theorem endingAt?_eq (name : Text) : endingAt? name = some (ending name) := by
  induction name using List.reverseRecOn with
  | nil => rfl
  | append_singleton name c _ =>
    unfold endingAt?
    rw [List.getLast?_concat]
    dsimp only
    cases hopen : openerOf? c with
    | none =>
      have hcloser : isCloser c = false := by rw [isCloser, hopen]; rfl
      rw [hcloser, ending_eq_bare hcloser]
      rfl
    | some want =>
      have hcloser : isCloser c = true := by rw [isCloser, hopen]; rfl
      rw [hcloser, if_pos rfl, matchingOpener?_eq hopen,
        ending_append_closer (openerOf?_eq_some_iff.mp hopen)]
      cases hscan : scanBack want 0 [] name.reverse with
      | error f => rfl
      | ok g =>
        obtain ⟨body, rest⟩ := g
        obtain ⟨hbody, hbefore⟩ := bodyFrom_of_scanBack (c := c) hscan
        cases rest with
        | nil => exact congrArg (fun b => some (Ending.group b)) hbody
        | cons d rest =>
          rw [List.length_cons] at hbody hbefore
          simp only [Except.map, List.length_cons, hbody, hbefore]
          split <;> rfl

/-! ## 3. The loop -/

/-- Takes the array suffixes off a name, by positions.  A look-up that misses would end it. -/
def peelAt (ceiling : Ceiling) (depth : Int) (name : Text) : Except Failure Peeled :=
  match _h : endingAt? name with
  | none => .error .offEnd
  | some .bare => .ok ⟨[], .scalar name, depth⟩
  | some (.faulty f) => .error (.refused (.name name f))
  | some (.group body) => .ok ⟨[], .tuple name body, depth⟩
  | some (.suffix before body) => do
    let dim ← dimension body name
    ceiling.check (depth + 1)
    (peelAt ceiling (depth + 1) before).map (Peeled.push dim)
  | some .braces => .error (.refused (.name name .unknown))
termination_by name.length
decreasing_by
  rw [endingAt?_eq] at _h
  exact length_of_suffix (Option.some.inj _h)

/-- **The loop by positions is the loop over the array suffixes.** -/
theorem peelAt_eq (ceiling : Ceiling) (depth : Int) (name : Text) :
    peelAt ceiling depth name = peel ceiling depth name.reverse := by
  induction hlen : name.length using Nat.strongRecOn generalizing name depth with
  | ind n ih =>
    rw [peelAt.eq_def, peel_reverse]
    have hend := endingAt?_eq name
    split
    · next hat => cases hend.symm.trans hat
    · next hat => rw [Option.some.inj (hend.symm.trans hat)]
    · next hat => rw [Option.some.inj (hend.symm.trans hat)]
    · next hat => rw [Option.some.inj (hend.symm.trans hat)]
    · next before body hat =>
      have hsuffix : ending name = .suffix before body := Option.some.inj (hend.symm.trans hat)
      rw [hsuffix]
      have hshort : before.length < n := hlen ▸ length_of_suffix hsuffix
      refine bind_congr fun dim => bind_congr fun _ => ?_
      rw [ih before.length hshort (depth + 1) before rfl]
    · next hat => rw [Option.some.inj (hend.symm.trans hat)]

end ContractAbi.TypeName
