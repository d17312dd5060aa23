import ContractAbi.Text

/-!
# Decimal numerals

Widths and lengths are written in ASCII digits, most significant first.  `render` writes a number
without leading zeros and `value` reads any run of digits, leading zeros included; `value_render`
ties the two together.

Numerals are bounded: a run of more than `digitLimit` digits is not read at all, whatever its value,
so that no reader spends quadratic time on a hostile text.
-/

namespace ContractAbi.Decimal

/-! ## 1. Digits -/

/-- The ASCII digits, and no others. -/
def isDigit (c : CodePoint) : Bool := 48 ≤ c.val && c.val ≤ 57

/-- The digit of a number below ten. -/
def digit (d : Nat) : CodePoint := ⟨48 + d % 10, by omega⟩

@[simp] theorem val_digit (d : Nat) : (digit d).val = 48 + d % 10 := rfl

@[simp] theorem isDigit_digit (d : Nat) : isDigit (digit d) = true := by
  have h : d % 10 < 10 := Nat.mod_lt _ (by decide)
  rw [isDigit, Bool.and_eq_true]
  exact ⟨decide_eq_true (Nat.le_add_right _ _), decide_eq_true (by rw [val_digit]; omega)⟩

/-! ## 2. Reading -/

/-- One digit more: what was read so far moves up a place. -/
def push (n : Nat) (c : CodePoint) : Nat := 10 * n + (c.val - 48)

/-- The value of a run of digits. -/
def value (ds : Text) : Nat := ds.foldl push 0

@[simp] theorem value_nil : value [] = 0 := rfl

theorem value_append_singleton (ds : Text) (c : CodePoint) :
    value (ds ++ [c]) = 10 * value ds + (c.val - 48) := by
  simp [value, push]

/-! ## 3. Writing -/

/-- The digits of `n` in front of `rest`. -/
def renderOnto (n : Nat) (rest : Text) : Text :=
  if n < 10 then digit n :: rest else renderOnto (n / 10) (digit (n % 10) :: rest)
termination_by n
decreasing_by omega

/-- The decimal numeral of a number, without leading zeros. -/
def render (n : Nat) : Text := renderOnto n []

theorem renderOnto_eq (n : Nat) (rest : Text) : renderOnto n rest = render n ++ rest := by
  induction n using Nat.strongRecOn generalizing rest with
  | ind n ih =>
    by_cases h : n < 10
    · simp [render, renderOnto, h]
    · rw [render, renderOnto, renderOnto.eq_def n [], if_neg h, if_neg h, ih (n / 10) (by omega),
        ih (n / 10) (by omega) [_]]
      simp

/-- Below ten a numeral is one digit. -/
theorem render_of_lt {n : Nat} (h : n < 10) : render n = [digit n] := by
  rw [render, renderOnto, if_pos h]

/-- From ten on the last digit is the remainder by ten. -/
theorem render_of_le {n : Nat} (h : 10 ≤ n) : render n = render (n / 10) ++ [digit (n % 10)] := by
  rw [render, renderOnto, if_neg (by omega), renderOnto_eq]

/-- Writing and reading back loses nothing. -/
theorem value_render (n : Nat) : value (render n) = n := by
  induction n using Nat.strongRecOn with
  | ind n ih =>
    by_cases h : n < 10
    · rw [render_of_lt h]
      simp [value, push]
      omega
    · rw [render_of_le (by omega), value_append_singleton, ih (n / 10) (by omega)]
      simp
      omega

/-- A numeral holds digits only. -/
theorem isDigit_of_mem_render {n : Nat} {c : CodePoint} (h : c ∈ render n) : isDigit c = true := by
  induction n using Nat.strongRecOn with
  | ind n ih =>
    by_cases hn : n < 10
    · rw [render_of_lt hn] at h
      simp at h
      simp [h]
    · rw [render_of_le (by omega)] at h
      rcases List.mem_append.1 h with h | h
      · exact ih (n / 10) (by omega) h
      · simp at h
        simp [h]

/-- A numeral is never empty. -/
theorem render_ne_nil (n : Nat) : render n ≠ [] := by
  by_cases hn : n < 10
  · simp [render_of_lt hn]
  · simp [render_of_le (Nat.le_of_not_lt hn)]

/-- The decimal numeral of an integer: a minus sign stands in front of a negative one. -/
def renderInt : Int → Text
  | .ofNat n => render n
  | .negSucc n => CodePoint.ofChar '-' :: render (n + 1)

/-! ## 4. The bound on numerals -/

/-- The greatest number of digits that is read as a number. -/
def digitLimit : Nat := 4300

/-- The value of a run of digits, or the number of its digits if they are too many. -/
def read (ds : Text) : Except Nat Nat :=
  if digitLimit < ds.length then .error ds.length else .ok (value ds)

end ContractAbi.Decimal
