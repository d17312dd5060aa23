import ContractAbi.Proofs.AbiType.SelectorNames
import ContractAbi.Proofs.AbiType.Written

/-!
# Canonical names by replacement

The canonical name of a type comes from its selector name by three replacements of one text by
another, none of which knows what a type is (`AbiType.bracketed_selector`).  `Text.replaceAll` is
such a replacement for any text and its substitute.  The pass that goes through a selector name part
by part (`AbiType.respell`) is the three of them: each `()` is looked for from left to right, and
the replacement of single code points is a map.

Both names are written within the room that there is only, and then the one comes from the other
(`AbiType.canonicalWithin_eq_bracketed`).
-/

namespace ContractAbi

/-! ## 1. Replacement -/

namespace Text

/-- Writes `new` for every `old` behind the next `skip` code points, which are left out: they belong
to an `old` that was found before. -/
def replaceBehind (old new : Text) : (skip : Nat) → Text → Text
  | _, [] => []
  | skip + 1, _ :: t => replaceBehind old new skip t
  | 0, c :: t =>
    if old <+: c :: t then new ++ replaceBehind old new (old.length - 1) t
    else c :: replaceBehind old new 0 t

/-- Writes `new` for every `old` in a text, from left to right.  What is found does not overlap, and
what was written is not looked at again.  `old` must not be empty. -/
def replaceAll (old new t : Text) : Text := replaceBehind old new 0 t

variable {old new : Text}

theorem replaceBehind_append (skipped t : Text) :
    replaceBehind old new skipped.length (skipped ++ t) = replaceAll old new t := by
  induction skipped with
  | nil => rfl
  | cons c skipped ih => exact ih

/-- Where `old` begins, `new` is written and `old` is passed over. -/
theorem replaceAll_append (hne : old ≠ []) (t : Text) :
    replaceAll old new (old ++ t) = new ++ replaceAll old new t := by
  obtain ⟨c, rest, rfl⟩ := List.exists_cons_of_ne_nil hne
  have hfound : c :: rest <+: c :: (rest ++ t) := List.prefix_append (c :: rest) t
  rw [replaceAll, List.cons_append, replaceBehind, if_pos hfound]
  exact congrArg (new ++ ·) (replaceBehind_append rest t)

/-- Where `old` does not begin, one code point is kept. -/
theorem replaceAll_cons {c : CodePoint} {t : Text} (h : ¬ old <+: c :: t) :
    replaceAll old new (c :: t) = c :: replaceAll old new t := by
  rw [replaceAll, replaceBehind, if_neg h]
  rfl

/-- To replace a code point by another is to do so with each code point of the text. -/
theorem replaceAll_singleton (a b : CodePoint) (t : Text) :
    replaceAll [a] [b] t = t.map fun c => if c = a then b else c := by
  induction t with
  | nil => rfl
  | cons c t ih =>
    by_cases h : c = a
    · subst h
      have hfound : replaceAll [c] [b] (c :: t) = [b] ++ replaceAll [c] [b] t :=
        replaceAll_append (List.cons_ne_nil c []) t
      rw [hfound, ih, List.map_cons, if_pos rfl]
      rfl
    · have hnot : ¬ [a] <+: c :: t := by
        rw [List.cons_prefix_cons]
        exact fun hp => h hp.1.symm
      rw [replaceAll_cons hnot, ih, List.map_cons, if_neg h]

/-- What is written is not looked at again: the `()` that comes about stays. -/
example : replaceAll "()" "" "(())" = "()" := by decide

end Text

/-! ## 2. Selector names -/

namespace AbiType

theorem nameEmpty_eq_replaceAll (t : Text) : nameEmpty t = Text.replaceAll "()" "tuple" t := by
  fun_induction nameEmpty t with
  | case1 => rfl
  | case2 c =>
    have hshort : ¬ ("()" : Text) <+: [c] := fun h => absurd h.length_le (by decide : ¬ 2 ≤ 1)
    exact (Text.replaceAll_cons hshort).symm
  | case3 c d rest h ih =>
    obtain ⟨rfl, rfl⟩ := h
    rw [ih]
    exact (Text.replaceAll_append (by decide) rest).symm
  | case4 c d rest h ih =>
    rw [ih]
    refine (Text.replaceAll_cons fun hfound => h ?_).symm
    obtain ⟨after, hafter⟩ := hfound
    obtain ⟨hc, hd⟩ := List.cons.inj hafter
    exact ⟨hc.symm, (List.cons.inj hd).1.symm⟩

theorem map_squareParen_eq_replaceAll (t : Text) :
    t.map squareParen = Text.replaceAll ")" "]" (Text.replaceAll "(" "[" t) := by
  have hopen : Text.replaceAll "(" "[" t = t.map fun c => if c = CodePoint.ofChar '(' then
      CodePoint.ofChar '[' else c := Text.replaceAll_singleton _ _ t
  have hclose : ∀ u, Text.replaceAll ")" "]" u = u.map fun c => if c = CodePoint.ofChar ')' then
      CodePoint.ofChar ']' else c := Text.replaceAll_singleton _ _
  rw [hopen, hclose, List.map_map]
  refine List.map_congr_left fun c _ => ?_
  by_cases h : c = CodePoint.ofChar '('
  · simp [squareParen, h]
  · simp [squareParen, h]

/-- A selector name with other brackets around tuples: each `()` is replaced by `tuple`, then each
`(` by `[` and each `)` by `]`. -/
def bracketed (name : Text) : Text :=
  Text.replaceAll ")" "]" (Text.replaceAll "(" "[" (Text.replaceAll "()" "tuple" name))

/-- **The canonical name is the selector name up to the brackets around tuples.** -/
theorem bracketed_selector (t : AbiType) : bracketed t.selector = t.canonical := by
  have hrespells : respell t.selector = t.canonical := by
    have h : respell (t.selector ++ []) = t.canonical ++ [] := respells_selector t []
    rwa [List.append_nil, List.append_nil] at h
  rw [bracketed, ← map_squareParen_eq_replaceAll, ← nameEmpty_eq_replaceAll, ← hrespells, respell]

/-! ## 3. Names that are written -/

/-- **Where there is room for both names of a type, the canonical one is the selector name up to the
brackets around tuples**, and where there is none for one of them, it is not written. -/
theorem canonicalWithin_eq_bracketed {t : AbiType} (fit : t.NumbersFit) (room : Nat) :
    (t.selectorCalls ≤ room → t.canonicalCalls ≤ room →
        ∃ name, t.selectorWithin room = .ok name ∧ t.canonicalWithin room = .ok (bracketed name)) ∧
      (room < t.selectorCalls → t.selectorWithin room = .error .nesting) ∧
      (room < t.canonicalCalls → t.canonicalWithin room = .error .nesting) := by
  rw [selectorWithin_of_fits fit, canonicalWithin_of_fits fit]
  refine ⟨fun hselector hcanonical => ⟨t.selector, if_pos hselector, ?_⟩, fun h => ?_, fun h => ?_⟩
  · rw [if_pos hcanonical, bracketed_selector]
  · exact if_neg (Nat.not_le.mpr h)
  · exact if_neg (Nat.not_le.mpr h)

/-- An empty tuple in a tuple takes six calls for the one name and four for the other. -/
theorem canonicalWithin_eq_bracketed_pair :
    let t : AbiType := .tuple [.leaf (.uint 8), .tuple []]
    t.NumbersFit ∧
      (∃ name, t.selectorWithin 6 = .ok name ∧ t.canonicalWithin 6 = .ok (bracketed name)) ∧
      t.selectorWithin 5 = .error .nesting ∧ t.canonicalWithin 4 = .error .nesting := by
  intro t
  have fit : t.NumbersFit := by decide +kernel
  exact ⟨fit, (canonicalWithin_eq_bracketed fit 6).1 (by decide) (by decide),
    (canonicalWithin_eq_bracketed fit 5).2.1 (by decide),
    (canonicalWithin_eq_bracketed fit 4).2.2 (by decide)⟩

/-- An array of many dimensions has neither name. -/
theorem not_canonicalWithin_deepArray :
    deepArray.WellFormed ∧ deepArray.NumbersFit ∧
      ¬ ∃ name, deepArray.selectorWithin callRoom = .ok name ∧
        deepArray.canonicalWithin callRoom = .ok (bracketed name) := by
  refine ⟨wellFormed_deepArray, numbersFit_deepArray, ?_⟩
  rintro ⟨name, hname, -⟩
  rw [selectorWithin_deepArray] at hname
  cases hname

end AbiType

end ContractAbi
