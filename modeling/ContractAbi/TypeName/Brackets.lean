import ContractAbi.Failure

/-!
# Brackets in type names

Square brackets and braces stand around tuples, square brackets also around the length of an array.
A name is taken apart by two scans.

* `lastGroup` finds the group that the last bracket of a name closes.  It runs from the right, and
  counts both shapes of brackets alike; only the two brackets of the group itself must match.
* `split` cuts the body of a group at the commas that stand in no bracket of the body.  It runs from
  the left.

The first hands the second balanced bodies only, so that `split` never meets a bracket that closes
nothing.
-/

namespace ContractAbi.TypeName

/-! ## 1. Bracket characters -/

/-- The brackets that open a group. -/
def isOpener (c : CodePoint) : Bool := c = CodePoint.ofChar '[' || c = CodePoint.ofChar '{'

/-- The bracket that opens what a bracket closes. -/
def openerOf? (c : CodePoint) : Option CodePoint :=
  if c = CodePoint.ofChar ']' then some (CodePoint.ofChar '[')
  else if c = CodePoint.ofChar '}' then some (CodePoint.ofChar '{')
  else none

/-- The brackets that close a group. -/
def isCloser (c : CodePoint) : Bool := (openerOf? c).isSome

/-! ## 2. The group at the end -/

/-- Scans a name from the right, behind the bracket that closes the group: `want` must open it,
`owed` brackets are open inside, and `body` was passed already.  The result is the body of the group
and, last first, what stands before it. -/
def scanBack (want : CodePoint) : (owed : Nat) → (body reversed : Text) →
    Except NameFault (Text × Text)
  | _, _, [] => .error .unbalanced
  | owed, body, c :: before =>
    if isCloser c then scanBack want (owed + 1) (c :: body) before
    else if isOpener c then
      match owed with
      | 0 => if c = want then .ok (body, before) else .error .mismatched
      | owed + 1 => scanBack want owed (c :: body) before
    else scanBack want owed (c :: body) before

/-- What stands before a group is shorter than what was scanned. -/
theorem length_of_scanBack {want : CodePoint} {owed : Nat} {body reversed body' before : Text}
    (h : scanBack want owed body reversed = .ok (body', before)) :
    before.length < reversed.length := by
  fun_induction scanBack want owed body reversed with
  | case1 => cases h
  | case2 _ _ _ _ _ ih => exact Nat.lt_succ_of_lt (ih h)
  | case3 => cases h; simp
  | case4 => cases h
  | case5 _ _ _ _ _ _ ih => exact Nat.lt_succ_of_lt (ih h)
  | case6 _ _ _ _ _ _ ih => exact Nat.lt_succ_of_lt (ih h)

/-- The group that the last bracket of a name closes: what stands before it, and its body.  A name
that does not end with a closing bracket has none. -/
def lastGroup (name : Text) : Except NameFault (Text × Text) :=
  match name.reverse with
  | [] => .error .unbalanced
  | c :: before =>
    match openerOf? c with
    | none => .error .unbalanced
    | some want => (scanBack want 0 [] before).map fun (body, before) => (before.reverse, body)

/-! ## 3. The pieces of a body -/

/-- A code point in front of the first piece. -/
def consFirst (c : CodePoint) : List Text → List Text
  | [] => [[c]]
  | p :: ps => (c :: p) :: ps

/-- Cuts a body at its commas; `owed` brackets are open. -/
def split : (owed : Nat) → Text → Except NameFault (List Text)
  | _, [] => .ok [[]]
  | owed, c :: rest =>
    if isOpener c then (split (owed + 1) rest).map (consFirst c)
    else if isCloser c then
      match owed with
      | 0 => .error .unbalanced
      | owed + 1 => (split owed rest).map (consFirst c)
    else if c = CodePoint.ofChar ',' ∧ owed = 0 then (split 0 rest).map ([] :: ·)
    else (split owed rest).map (consFirst c)

/-- The elements of a tuple, which must not be empty. -/
def pieces (body : Text) : Except NameFault (List Text) :=
  match split 0 body with
  | .error f => .error f
  | .ok ps => if ps.any (·.isEmpty) then .error .emptyElement else .ok ps

end ContractAbi.TypeName
