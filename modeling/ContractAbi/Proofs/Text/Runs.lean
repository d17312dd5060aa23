import ContractAbi.Text.Decimal

/-!
# Runs of digits

A number in a name is read only if it has at most `Decimal.digitLimit` digits.  `RunsFit t` says so
of every run of digits in `t`, and so of every number that a reader can come upon in it.

The property passes to every part of a text (`RunsFit.part`), and a text has it if its parts do and
something else than a digit stands between them (`RunsFit.append_cons`).
-/

namespace ContractAbi

/-! ## 1. Numerals -/

namespace Decimal

/-- A numeral: ASCII digits, one at least. -/
def IsNumeral (ds : Text) : Prop := ds ≠ [] ∧ ∀ c ∈ ds, isDigit c = true

instance (ds : Text) : Decidable (IsNumeral ds) :=
  inferInstanceAs (Decidable (ds ≠ [] ∧ ∀ c ∈ ds, isDigit c = true))

theorem isNumeral_render (n : Nat) : IsNumeral (render n) :=
  ⟨render_ne_nil n, fun _ => isDigit_of_mem_render⟩

theorem read_eq_ok_iff {ds : Text} {n : Nat} :
    read ds = .ok n ↔ ds.length ≤ digitLimit ∧ value ds = n := by
  unfold read
  by_cases h : digitLimit < ds.length
  · simp [h, Nat.not_le.mpr h]
  · simp [h, Nat.le_of_not_lt h]

theorem read_eq_error_iff {ds : Text} {n : Nat} :
    read ds = .error n ↔ digitLimit < ds.length ∧ n = ds.length := by
  unfold read
  by_cases h : digitLimit < ds.length
  · simp [h, eq_comm]
  · simp [h]

end Decimal

namespace Text

/-! ## 2. Parts of a text -/

/-- What is joined is found in the whole. -/
theorem infix_join (sep : Text) {p : Text} {ps : List Text} (h : p ∈ ps) : p <:+: join sep ps := by
  induction ps with
  | nil => cases h
  | cons q qs ih =>
    cases qs with
    | nil =>
      obtain rfl := List.mem_singleton.mp h
      exact List.infix_rfl
    | cons r rs =>
      rw [join_cons_cons]
      rcases List.mem_cons.mp h with rfl | h
      · exact List.infix_append_of_infix_left (List.infix_append_left ..)
      · exact List.infix_append_of_infix_right (ih h)

/-- A part without some code point stands on one side of it. -/
theorem infix_or_infix {ds s t : Text} {c : CodePoint} (h : ds <:+: s ++ c :: t) (hc : c ∉ ds) :
    ds <:+: s ∨ ds <:+: t := by
  have hnil : ∀ y : Text, y <+: c :: t → c ∉ y → y = [] := by
    intro y hy hcy
    rcases List.prefix_cons_iff.mp hy with rfl | ⟨z, rfl, -⟩
    · rfl
    · exact absurd (List.mem_cons_self ..) hcy
  rcases List.infix_append_iff_ne_nil.mp h with h | h | ⟨x, y, -, hy, rfl, -, hpre⟩
  · exact Or.inl h
  · rcases List.infix_cons_iff.mp h with h | h
    · obtain rfl := hnil ds h hc
      exact Or.inl List.nil_infix
    · exact Or.inr h
  · exact absurd (hnil y hpre fun hm => hc (List.mem_append_right _ hm)) hy

/-! ## 3. Runs of digits -/

/-- `RunsFit t`: no run of digits in `t` is too long to be read as a number. -/
def RunsFit (t : Text) : Prop :=
  ∀ ds, ds <:+: t → (∀ c ∈ ds, Decimal.isDigit c = true) → ds.length ≤ Decimal.digitLimit

/-- A part of a text has no longer runs than the text. -/
theorem RunsFit.part {s t : Text} (h : RunsFit t) (hs : s <:+: t) : RunsFit s :=
  fun ds hds => h ds (hds.trans hs)

/-- A short text has short runs. -/
theorem runsFit_of_length {t : Text} (h : t.length ≤ Decimal.digitLimit) : RunsFit t :=
  fun _ hds _ => Nat.le_trans hds.length_le h

/-- Anything but a digit ends a run. -/
theorem RunsFit.append_cons {s t : Text} {c : CodePoint} (hs : RunsFit s)
    (hc : Decimal.isDigit c = false) (ht : RunsFit t) : RunsFit (s ++ c :: t) := by
  intro ds hds hdig
  have hmem : c ∉ ds := by
    intro hm
    rw [hdig c hm] at hc
    cases hc
  rcases infix_or_infix hds hmem with h | h
  · exact hs ds h hdig
  · exact ht ds h hdig

/-- A separator ends a run. -/
theorem runsFit_join {c : CodePoint} (hc : Decimal.isDigit c = false) {ps : List Text}
    (h : ∀ p ∈ ps, RunsFit p) : RunsFit (join [c] ps) := by
  induction ps with
  | nil => exact runsFit_of_length (Nat.zero_le _)
  | cons p ps ih =>
    rw [List.forall_mem_cons] at h
    cases ps with
    | nil => exact h.1
    | cons q qs =>
      rw [join_cons_cons, List.append_assoc]
      exact h.1.append_cons hc (ih h.2)

end Text

end ContractAbi
