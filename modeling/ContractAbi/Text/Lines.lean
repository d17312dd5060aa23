import ContractAbi.Text

/-!
# Lines

The lines of a file end with a line feed, a carriage return, or both in that order; read as text,
each of them is a line feed (`Lines.normalize`), and no other one is left.
-/

namespace ContractAbi.Lines

/-- The line feed. -/
def feed : CodePoint := CodePoint.ofChar '\n'

/-- The carriage return. -/
def carriageReturn : CodePoint := CodePoint.ofChar '\r'

/-- Ends every line with a line feed. -/
def normalize : Text → Text
  | [] => []
  | c :: t =>
    if c = carriageReturn then
      match t with
      | [] => [feed]
      | d :: rest => if d = feed then feed :: normalize rest else feed :: normalize (d :: rest)
    else c :: normalize t

/-- A text of normalized lines has no carriage return. -/
theorem carriageReturn_notMem_normalize (t : Text) : carriageReturn ∉ normalize t := by
  have h : carriageReturn ≠ feed := by decide
  fun_induction normalize t with
  | case1 => simp
  | case2 => simpa using h
  | case3 => simp_all
  | case4 => simp_all
  | case5 c t hc ih => simp [ih, Ne.symm hc]

end ContractAbi.Lines
