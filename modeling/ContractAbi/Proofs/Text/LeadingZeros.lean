import ContractAbi.Proofs.Text.Runs

/-!
# Leading zeros

A number has one numeral that is written and many that are read: they differ by zeros in front.
`Decimal.trim` drops these, and what is left is the numeral that would be written (`render_value`).
-/

namespace ContractAbi.Decimal

/-- A run of digits without the zeros in front of it.  A run of zeros keeps one. -/
def trim (ds : Text) : Text :=
  match ds.dropWhile (· = digit 0) with
  | [] => [digit 0]
  | c :: rest => c :: rest

theorem trim_zero (ds : Text) : trim (digit 0 :: ds) = trim ds := by
  rw [trim, trim, List.dropWhile_cons_of_pos (by simp)]

theorem trim_cons {c : CodePoint} {ds : Text} (h : c ≠ digit 0) : trim (c :: ds) = c :: ds := by
  rw [trim, List.dropWhile_cons_of_neg (by simpa using h)]

/-- A digit is the digit of its value. -/
theorem digit_sub {c : CodePoint} (h : isDigit c = true) :
    c.val - 48 < 10 ∧ digit (c.val - 48) = c := by
  simp only [isDigit, Bool.and_eq_true, decide_eq_true_eq] at h
  refine ⟨by omega, CodePoint.ext_val ?_⟩
  rw [val_digit]
  omega

/-- Behind a number that is not zero a digit is written as it is read. -/
theorem render_push {n : Nat} {c : CodePoint} (hn : 0 < n) (h : isDigit c = true) :
    render (push n c) = render n ++ [c] := by
  obtain ⟨hlt, hc⟩ := digit_sub h
  have hdiv : push n c / 10 = n := by
    unfold push
    omega
  have hmod : push n c % 10 = c.val - 48 := by
    unfold push
    omega
  have hle : 10 ≤ push n c := by
    unfold push
    omega
  rw [render_of_le hle, hdiv, hmod, hc]

theorem render_foldl_push {n : Nat} {ds : Text} (hn : 0 < n) (h : ∀ c ∈ ds, isDigit c = true) :
    render (ds.foldl push n) = render n ++ ds := by
  induction ds generalizing n with
  | nil => simp
  | cons c ds ih =>
    rw [List.forall_mem_cons] at h
    have hpos : 0 < push n c := by
      unfold push
      omega
    rw [List.foldl_cons, ih hpos h.2, render_push hn h.1, List.append_assoc, List.singleton_append]

/-- **The numeral of the value of a numeral is that numeral without leading zeros.** -/
theorem render_value {ds : Text} (h : IsNumeral ds) : render (value ds) = trim ds := by
  obtain ⟨hne, hdig⟩ := h
  induction ds with
  | nil => exact absurd rfl hne
  | cons c ds ih =>
    rw [List.forall_mem_cons] at hdig
    by_cases hc : c = digit 0
    · subst hc
      have hvalue : value (digit 0 :: ds) = value ds := rfl
      cases ds with
      | nil => rw [hvalue, value_nil, render_of_lt (by decide)]; rfl
      | cons d ds => rw [hvalue, trim_zero, ih (by simp) hdig.2]
    · obtain ⟨hlt, hdigit⟩ := digit_sub hdig.1
      have hpos : 0 < c.val - 48 := by
        refine Nat.pos_of_ne_zero fun h0 => hc ?_
        rw [← hdigit, h0]
      have hvalue : value (c :: ds) = ds.foldl push (c.val - 48) := by
        rw [value, List.foldl_cons, push]
        simp
      rw [hvalue, render_foldl_push hpos hdig.2, render_of_lt hlt, hdigit, trim_cons hc]
      rfl

end ContractAbi.Decimal
