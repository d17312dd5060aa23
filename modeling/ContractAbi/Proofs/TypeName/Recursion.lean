import ContractAbi.Proofs.TypeName.Grammar
import ContractAbi.Proofs.TypeName.LookUps

/-!
# The loop and the recursion

A name with array suffixes can be read in two ways.  The *recursion* reads what stands before the
last suffix as a name of its own, one level deeper, and puts the suffix on its type
(`readRecursively`).  The *loop* takes one suffix after another off the name and keeps what it needs
in registers (`Registers`): the lengths so far, the running depth, and the place of the last bracket
that was looked up, which decides behind the loop whether a tuple is left.  Only then does it read
what is left, and puts the suffixes back on in reverse (`readByTurns`).

Both are the reader that runs (`reading_three_ways`), failures included.  What carries the loop is
that its registers hold, at the head of every turn, the lengths of the suffixes that are gone and no
place from the turn before (`turns_eq`).
-/

namespace ContractAbi.TypeName

/-! ## 1. The recursion -/

/-- Reads a name that stands at a depth by recursion: the name before an array suffix and the
elements of a tuple are read one level deeper.  Nothing bounds how deep they nest. -/
def readRecursively (ceiling : Ceiling) (name : Text) (depth : Int) : Except Failure AbiType := do
  ceiling.check depth
  match _h : ending name with
  | .bare => readScalar name
  | .faulty f => .error (.refused (.name name f))
  | .group body =>
    match _hs : pieces body with
    | .error f => .error (.refused (.name name f))
    | .ok ps =>
      (ps.attach.mapM fun p => readRecursively ceiling p.1 (depth + 1)).map .tuple
  | .suffix before body => do
    let dim ← dimension body name
    (readRecursively ceiling before (depth + 1)).map fun t => TypeTree.arrayOf t dim
  | .braces => .error (.refused (.name name .unknown))
termination_by name.length
decreasing_by
  · have hlen := length_of_group _h (pieces_eq_ok_iff.mp _hs).1 p.2
    omega
  · exact length_of_suffix _h

theorem readRecursively_eq (ceiling : Ceiling) (name : Text) (depth : Int) :
    readRecursively ceiling name depth = (do
      ceiling.check depth
      readEnd (fun inner => readRecursively ceiling inner (depth + 1))
        (fun piece => readRecursively ceiling piece (depth + 1)) name) := by
  rw [readRecursively]
  refine bind_congr fun _ => ?_
  unfold readEnd
  split
  · next h => rw [h]
  · next h => rw [h]
  · next h =>
    rw [h]
    dsimp only
    split
    · next hs => rw [hs]
    · next ps hs =>
      have helements : ∀ p (hp : p ∈ ps),
          (fun q : { q // q ∈ ps } => readRecursively ceiling q.1 (depth + 1)) ⟨p, hp⟩ =
            readRecursively ceiling p (depth + 1) := fun _ _ => rfl
      rw [hs, List.mapM_subtype helements, List.unattach_attach]
  · next h => rw [h]
  · next h => rw [h]

/-- **The reader is the recursion**, for names whose tuples nest within the budget. -/
theorem readWithin_eq_readRecursively (ceiling : Ceiling) {budget : Nat} {name : Text}
    (nesting : tupleNesting name < budget) (depth : Int) :
    readWithin ceiling budget name depth = readRecursively ceiling name depth := by
  induction budget, name, depth using reading_induction with
  | zero name depth => exact absurd nesting (Nat.not_lt_zero _)
  | succ budget name depth hinner hpiece =>
    rw [readWithin_succ, readRecursively_eq]
    refine bind_congr fun _ => readEnd_congr (fun before body hend => ?_) ?_
    · exact hinner before body hend _ (by rwa [← tupleNesting_of_suffix hend])
    · intro body ps p hend hps hp
      rw [tupleNesting_of_group hend (pieces_eq_ok_iff.mp hps).1] at nesting
      have hle := le_foldr_max tupleNesting hp
      exact hpiece p _ (by omega)

/-! ## 2. The loop -/

/-- The registers of the loop. -/
structure Registers where
  /-- What is left of the name. -/
  name : Text
  /-- The lengths of the array suffixes that are gone, the last suffix of the name first. -/
  lengths : List TypeTree.Dimension
  /-- The depth of what is left. -/
  depth : Int
  /-- The place of the bracket that opens the last group, where it was looked up in this turn. -/
  start : Option Nat

/-- Takes the turns of the loop.  A turn looks up where the group at the end of the name begins.
The loop ends without such a group, or where the group is all that is left; then its place stays in
the register. -/
def turns (ceiling : Ceiling) (r : Registers) : Except Failure Registers :=
  match _h : endingAt? r.name with
  | none => .error .offEnd
  | some .bare => .ok r
  | some (.faulty f) => .error (.refused (.name r.name f))
  | some (.group _) => .ok { r with start := some 0 }
  | some (.suffix before body) => do
    let dim ← dimension body r.name
    ceiling.check (r.depth + 1)
    turns ceiling ⟨before, r.lengths ++ [dim], r.depth + 1, none⟩
  | some .braces => .error (.refused (.name r.name .unknown))
termination_by r.name.length
decreasing_by
  rw [endingAt?_eq] at _h
  exact length_of_suffix (Option.some.inj _h)

/-- What is done behind the loop.  The place zero in the register says that a tuple is left, and the
suffixes go back on from the first one of the name to the last. -/
def Registers.finish (piece : Text → Int → Except Failure AbiType) (r : Registers) :
    Except Failure AbiType := do
  let t ←
    if r.start = some 0 then
      match pieces (bodyFrom r.name 0) with
      | .error f => .error (.refused (.name r.name f))
      | .ok ps => (ps.mapM fun p => piece p (r.depth + 1)).map TypeTree.tuple
    else readScalar r.name
  pure (r.lengths.reverse.foldl TypeTree.arrayOf t)

/-- Reads a name that stands at a depth by the loop, on a budget of names in one another. -/
def readByTurns (ceiling : Ceiling) : (budget : Nat) → (name : Text) → (depth : Int) →
    Except Failure AbiType
  | 0, _, _ => .error (.refused (.tooDeep ceiling))
  | budget + 1, name, depth => do
    ceiling.check depth
    let r ← turns ceiling ⟨name, [], depth, none⟩
    r.finish (readByTurns ceiling budget)

theorem bodyFrom_of_group {name body : Text} (h : ending name = .group body) :
    bodyFrom name 0 = body := by
  obtain ⟨o, c, -, rfl, -⟩ := ending_eq_group_iff.mp h
  simp [bodyFrom]

/-- The suffixes go back on in the order in which they were on the name. -/
theorem foldl_reverse_arrayOf (lengths : List TypeTree.Dimension) (t : AbiType) :
    lengths.reverse.foldl TypeTree.arrayOf t = TypeTree.wrap lengths t :=
  List.foldl_reverse

/-- **What the loop comes to from the head of a turn on.**  It reads the name by its end, and puts
the suffixes that are gone already on what it reads. -/
theorem turns_finish (ceiling : Ceiling) (piece : Text → Int → Except Failure AbiType)
    (name : Text) (lengths : List TypeTree.Dimension) (depth : Int) :
    (turns ceiling ⟨name, lengths, depth, none⟩ >>= Registers.finish piece) =
      (readEnd (fun inner => do
          ceiling.check (depth + 1)
          turns ceiling ⟨inner, [], depth + 1, none⟩ >>= Registers.finish piece)
        (fun p => piece p (depth + 1)) name).map (TypeTree.wrap lengths) := by
  induction hlen : name.length using Nat.strongRecOn generalizing name lengths depth with
  | ind n ih =>
    rw [turns.eq_def, readEnd]
    have hend := endingAt?_eq name
    split
    · next hat => cases hend.symm.trans hat
    · next hat =>
      rw [← Option.some.inj (hat.symm.trans hend)]
      simp only [Outcome.ok_bind, Registers.finish, reduceCtorEq, if_false, foldl_reverse_arrayOf]
      cases readScalar name <;> rfl
    · next f hat =>
      rw [← Option.some.inj (hat.symm.trans hend)]
      rfl
    · next body hat =>
      have hgroup : ending name = .group body := Option.some.inj (hend.symm.trans hat)
      rw [hgroup]
      simp only [Outcome.ok_bind, Registers.finish, if_true, foldl_reverse_arrayOf,
        bodyFrom_of_group hgroup]
      cases pieces body with
      | error f => rfl
      | ok ps =>
        dsimp only
        cases ps.mapM fun p => piece p (depth + 1) <;> rfl
    · next before body hat =>
      have hsuffix : ending name = .suffix before body := Option.some.inj (hend.symm.trans hat)
      have hshort : before.length < n := hlen ▸ length_of_suffix hsuffix
      rw [hsuffix]
      dsimp only
      cases dimension body name with
      | error e => rfl
      | ok dim =>
        cases hcheck : ceiling.check (depth + 1) with
        | error e => rfl
        | ok _ =>
          have hrest := ih before.length hshort before (lengths ++ [dim]) (depth + 1) rfl
          have hfresh := ih before.length hshort before [] (depth + 1) rfl
          simp only [Outcome.ok_bind, hrest, hfresh]
          cases readEnd _ (fun p => piece p (depth + 1 + 1)) before with
          | error e => rfl
          | ok t => simp [Except.map, TypeTree.wrap]
    · next hat =>
      rw [← Option.some.inj (hat.symm.trans hend)]
      rfl

/-- **The loop reads what the reader reads**, on every budget. -/
theorem readByTurns_eq (ceiling : Ceiling) (budget : Nat) (name : Text) (depth : Int) :
    readByTurns ceiling budget name depth = readWithin ceiling budget name depth := by
  induction budget, name, depth using reading_induction with
  | zero name depth => rfl
  | succ budget name depth hinner hpiece =>
    rw [readByTurns, readWithin_succ]
    refine bind_congr fun _ => ?_
    have hread : readEnd (fun inner => readByTurns ceiling (budget + 1) inner (depth + 1))
        (fun p => readByTurns ceiling budget p (depth + 1)) name =
          readEnd (fun inner => readWithin ceiling (budget + 1) inner (depth + 1))
            (fun p => readWithin ceiling budget p (depth + 1)) name :=
      readEnd_congr (fun before body hend => hinner before body hend (depth + 1))
        fun _ _ p _ _ _ => hpiece p (depth + 1)
    simp only [readByTurns] at hread
    -- Nothing is gone at the head of the first turn, so nothing goes back on behind the last.
    rw [turns_finish, hread]
    cases readEnd _ (fun p => readWithin ceiling budget p (depth + 1)) name <;> rfl

/-! ## 3. All three -/

/-- **The reader, the recursion and the loop come to the same**: the same type, or the same failure
with all that it reports.  This holds of every name whose tuples nest as deep as tuples are read,
however deep that is, well spelled or not, at every depth and under every ceiling. -/
theorem reading_three_ways (ceiling : Ceiling) {name : Text} {limit : Nat}
    (nesting : tupleNesting name ≤ limit) (depth : Int) :
    readAt ceiling name depth limit = readRecursively ceiling name depth ∧
      readByTurns ceiling (limit + 1) name depth = readRecursively ceiling name depth := by
  have hread := readWithin_eq_readRecursively ceiling (Nat.lt_succ_of_le nesting) depth
  exact ⟨hread, (readByTurns_eq ..).trans hread⟩

/-- Suffixes behind a tuple and inside of it, at the last depth that the ceiling allows. -/
theorem reading_three_ways_suffixes :
    let name : Text := "[bool[],[tuple,uint8][2]][][3]"
    let t : AbiType := .fixedArray (.array (.tuple [.array (.leaf .bool),
      .fixedArray (.tuple [.tuple [], .leaf (.uint 8)]) 2])) 3
    tupleNesting name ≤ bracketLimit ∧ readRecursively (.limit 8) name 3 = .ok t ∧
      readByTurns (.limit 8) (bracketLimit + 1) name 3 = .ok t := by
  intro name t
  have hnesting : tupleNesting name ≤ bracketLimit := by decide +kernel
  have hread : readAt (.limit 8) name 3 = .ok t :=
    Outcome.toOption_eq_some_iff.mp (by decide +kernel)
  obtain ⟨hrec, hturns⟩ := reading_three_ways (.limit 8) hnesting 3
  exact ⟨hnesting, hrec.symm.trans hread, hturns.trans (hrec.symm.trans hread)⟩

end ContractAbi.TypeName
