import ContractAbi.Proofs.AbiType.Written

/-!
# Dynamic types by their names

Whether a type is dynamic is a question about all of its parts.  But its selector name answers it
without being read: there are three signs of a dynamic type (`dynamicSigns`), and a type is dynamic
exactly if one of them stands somewhere in its name (`isDynamic_iff_standsIn`).  The signs are `[]`,
`string`, and `bytes` with no digit behind it.

What has to be excluded is a sign that no part of the type has and that comes about where parts
meet.  Parentheses and commas are in no sign, and none of them keeps a sign from being one, so that a
sign in a tuple stands in one of its elements (`Sign.standsIn_append_cons_iff`).  The suffix of an
array of one length is another matter: its bracket is in a sign.  There it is the digit behind the
bracket that keeps the two sides apart (`standsIn_suffix_iff`).
-/

namespace ContractAbi.AbiType

/-! ## 1. Signs -/

/-- A sign in a name: a word, and what may come right behind it. -/
structure Sign where
  word : Text
  mayFollow : CodePoint → Bool

/-- The sign of an array of any length. -/
def emptyBrackets : Sign := ⟨"[]", fun _ => true⟩

/-- The sign of text of any length. -/
def stringWord : Sign := ⟨"string", fun _ => true⟩

/-- The sign of octets of any number: behind those of a fixed number there is a digit. -/
def bytesWord : Sign := ⟨"bytes", fun c => !Decimal.isDigit c⟩

/-- The signs of a dynamic type. -/
def dynamicSigns : List Sign := [emptyBrackets, stringWord, bytesWord]

namespace Sign

variable {g : Sign} {s t : Text} {c : CodePoint}

/-- The word of a sign stands somewhere in a text, and nothing comes right behind it but what
may. -/
def StandsIn (g : Sign) (s : Text) : Prop :=
  ∃ before after, s = before ++ g.word ++ after ∧ ∀ c ∈ after.head?, g.mayFollow c = true

/-- A code point that is not in the word, and that may come right behind it. -/
def Separates (c : CodePoint) (g : Sign) : Prop := c ∉ g.word ∧ g.mayFollow c = true

instance : Decidable (Separates c g) := inferInstanceAs (Decidable (_ ∧ _))

/-- A text that lacks a code point of the word lacks the sign. -/
theorem not_standsIn_of_notMem (hc : c ∈ g.word) (hs : c ∉ s) : ¬ g.StandsIn s := by
  rintro ⟨before, after, rfl, -⟩
  exact hs (List.mem_append_left _ (List.mem_append_right _ hc))

/-- What follows a sign does not matter beyond the first code point. -/
theorem StandsIn.append_cons (h : g.StandsIn s) (hc : g.mayFollow c = true) (t : Text) :
    g.StandsIn (s ++ c :: t) := by
  obtain ⟨before, after, rfl, hafter⟩ := h
  refine ⟨before, after ++ c :: t, List.append_assoc .., ?_⟩
  cases after with
  | nil =>
    rintro d hd
    obtain rfl : c = d := Option.some.inj hd
    exact hc
  | cons d after => exact hafter

theorem StandsIn.append_left (h : g.StandsIn t) (s : Text) : g.StandsIn (s ++ t) := by
  obtain ⟨before, after, rfl, hafter⟩ := h
  exact ⟨s ++ before, after, by simp only [List.append_assoc], hafter⟩

/-- A word at the end of a text lies behind a code point that it lacks. -/
theorem behind_of_notMem {before word rest : Text} (h : before ++ word = s ++ c :: rest)
    (hc : c ∉ word) : ∃ y, rest = y ++ word := by
  rcases List.append_eq_append_iff.mp h with ⟨x, -, hword⟩ | ⟨y, -, hy⟩
  · refine absurd ?_ hc
    rw [hword]
    exact List.mem_append_right _ (List.mem_cons_self ..)
  · cases y with
    | nil =>
      refine absurd ?_ hc
      rw [List.nil_append] at hy
      rw [← hy]
      exact List.mem_cons_self ..
    | cons d y => exact ⟨y, (List.cons.inj hy).2⟩

/-- **A sign stands on one side of what separates it.** -/
theorem standsIn_append_cons_iff (hc : Separates c g) :
    g.StandsIn (s ++ c :: t) ↔ g.StandsIn s ∨ g.StandsIn t := by
  constructor
  · rintro ⟨before, after, h, hafter⟩
    rcases List.append_eq_append_iff.mp h with ⟨x, hx, ht⟩ | ⟨x, rfl, rfl⟩
    · cases x with
      | nil =>
        left
        rw [List.append_nil] at hx
        exact ⟨before, [], by rw [hx, List.append_nil], nofun⟩
      | cons d x =>
        right
        obtain ⟨rfl, rfl⟩ := List.cons.inj ht
        obtain ⟨y, rfl⟩ := behind_of_notMem hx hc.1
        exact ⟨y, after, rfl, hafter⟩
    · left
      refine ⟨before, x, rfl, ?_⟩
      cases x with
      | nil => exact nofun
      | cons d x => exact hafter
  · rintro (h | h)
    · exact h.append_cons hc.2 t
    · have h' := h.append_left (s ++ [c])
      rwa [List.append_assoc] at h'

theorem not_standsIn_nil (hne : g.word ≠ []) : ¬ g.StandsIn [] := by
  obtain ⟨d, word, hword⟩ := List.exists_cons_of_ne_nil hne
  exact not_standsIn_of_notMem (c := d) (hword ▸ List.mem_cons_self ..) List.not_mem_nil

/-- A sign in a joined text stands in one of the parts, if the separator separates it. -/
theorem standsIn_join_iff (hc : Separates c g) (hne : g.word ≠ []) {parts : List Text} :
    g.StandsIn (Text.join [c] parts) ↔ ∃ p ∈ parts, g.StandsIn p := by
  induction parts with
  | nil => simpa using not_standsIn_nil hne
  | cons p parts ih =>
    cases parts with
    | nil => simp
    | cons q parts =>
      rw [Text.join_cons_cons, List.append_assoc, List.singleton_append,
        standsIn_append_cons_iff hc, ih]
      simp only [List.mem_cons, exists_eq_or_imp]

end Sign

/-! ## 2. Parts of a selector name -/

variable {g : Sign} {s : Text}

/-- Parentheses and commas separate every sign. -/
theorem separates_of_mem (hg : g ∈ dynamicSigns) :
    g.word ≠ [] ∧ Sign.Separates '(' g ∧ Sign.Separates ',' g ∧ Sign.Separates ')' g := by
  have hall : ∀ g ∈ dynamicSigns,
      g.word ≠ [] ∧ Sign.Separates '(' g ∧ Sign.Separates ',' g ∧ Sign.Separates ')' g := by decide
  exact hall g hg

/-- A sign in the name of a tuple stands in the name of one of its elements. -/
theorem standsIn_tuple_iff (hg : g ∈ dynamicSigns) (ts : List AbiType) :
    g.StandsIn (selector (.tuple ts)) ↔ ∃ t ∈ ts, g.StandsIn (selector t) := by
  obtain ⟨hne, hopen, hcomma, hclose⟩ := separates_of_mem hg
  have hnil : ¬ g.StandsIn [] := Sign.not_standsIn_nil hne
  have hgroup : selector (.tuple ts) = [] ++ CodePoint.ofChar '(' ::
      (Text.join "," (ts.map selector) ++ CodePoint.ofChar ')' :: []) := by
    rw [selector, selectors_eq, List.append_assoc]
    rfl
  have hjoin : g.StandsIn (Text.join "," (ts.map selector)) ↔ ∃ p ∈ ts.map selector, g.StandsIn p :=
    Sign.standsIn_join_iff hcomma hne
  rw [hgroup, Sign.standsIn_append_cons_iff hopen, Sign.standsIn_append_cons_iff hclose,
    or_iff_right hnil, or_iff_left hnil, hjoin]
  constructor
  · rintro ⟨p, hp, h⟩
    obtain ⟨t, ht, rfl⟩ := List.mem_map.mp hp
    exact ⟨t, ht, h⟩
  · rintro ⟨t, ht, h⟩
    exact ⟨_, List.mem_map_of_mem ht, h⟩

/-- Digits and a closing bracket hold no sign. -/
theorem not_standsIn_digits (hg : g ∈ dynamicSigns) {ds : Text}
    (hds : ∀ c ∈ ds, Decimal.isDigit c = true) : ¬ g.StandsIn (ds ++ [CodePoint.ofChar ']']) := by
  have hall : ∀ g ∈ dynamicSigns,
      ∃ c ∈ g.word, Decimal.isDigit c = false ∧ c ≠ CodePoint.ofChar ']' := by decide
  obtain ⟨c, hc, hdigit, hclose⟩ := hall g hg
  refine Sign.not_standsIn_of_notMem hc fun hmem => ?_
  rcases List.mem_append.mp hmem with hmem | hmem
  · rw [hds c hmem] at hdigit
    cases hdigit
  · exact hclose (List.mem_singleton.mp hmem)

/-- An opening bracket at the end completes no sign. -/
theorem standsIn_concat_iff (hg : g ∈ dynamicSigns) :
    g.StandsIn (s ++ [CodePoint.ofChar '[']) ↔ g.StandsIn s := by
  have hall : ∀ g ∈ dynamicSigns, g.mayFollow '[' = true ∧ 1 ≤ g.word.length ∧
      ¬ [CodePoint.ofChar '['] <:+ g.word := by decide
  obtain ⟨hfollow, hlength, hlast⟩ := hall g hg
  constructor
  · rintro ⟨before, after, h, hafter⟩
    rcases List.eq_nil_or_concat after with rfl | ⟨after, d, rfl⟩
    · rw [List.append_nil] at h
      have hbracket : [CodePoint.ofChar '['] <:+ before ++ g.word := ⟨s, h⟩
      exact absurd (List.suffix_of_suffix_length_le hbracket (List.suffix_append ..) hlength) hlast
    · rw [List.concat_eq_append, ← List.append_assoc] at h
      obtain ⟨rfl, -⟩ := List.append_inj' h rfl
      refine ⟨before, after, rfl, fun c hc => hafter c ?_⟩
      rw [List.concat_eq_append, List.head?_append, hc]
      rfl
  · exact fun h => h.append_cons hfollow []

/-- The one sign with a bracket in it is separated by a digit. -/
theorem separates_digit (hg : g ∈ dynamicSigns)
    (hbracket : ¬ Sign.Separates (CodePoint.ofChar '[') g) {d : CodePoint}
    (hd : Decimal.isDigit d = true) : Sign.Separates d g := by
  have hwords : ∀ g ∈ [stringWord, bytesWord], Sign.Separates (CodePoint.ofChar '[') g := by decide
  have hnodigit : ∀ c ∈ emptyBrackets.word, Decimal.isDigit c = false := by decide
  rcases List.mem_cons.mp hg with rfl | hg
  · refine ⟨fun hmem => ?_, rfl⟩
    rw [hnodigit d hmem] at hd
    cases hd
  · exact absurd (hwords g hg) hbracket

/-- **The suffix of an array of one length adds no sign.**  A bracket may be in a sign, but not one
with a digit behind it. -/
theorem standsIn_suffix_iff (hg : g ∈ dynamicSigns) (n : Nat) :
    g.StandsIn (s ++ suffix (some n)) ↔ g.StandsIn s := by
  have hdigits : ∀ c ∈ Decimal.render n, Decimal.isDigit c = true :=
    fun _ => Decimal.isDigit_of_mem_render
  have hsuffix : s ++ suffix (some n) =
      s ++ CodePoint.ofChar '[' :: (Decimal.render n ++ [CodePoint.ofChar ']']) := by
    rw [suffix, List.append_assoc]
    rfl
  rw [hsuffix]
  by_cases hbracket : Sign.Separates '[' g
  · rw [Sign.standsIn_append_cons_iff hbracket, or_iff_left (not_standsIn_digits hg hdigits)]
  · obtain ⟨d, ds, hrender⟩ := List.exists_cons_of_ne_nil (Decimal.render_ne_nil n)
    rw [hrender, List.forall_mem_cons] at hdigits
    have hd : Sign.Separates d g := separates_digit hg hbracket hdigits.1
    have hsplit : s ++ CodePoint.ofChar '[' :: (Decimal.render n ++ [CodePoint.ofChar ']']) =
        (s ++ [CodePoint.ofChar '[']) ++ d :: (ds ++ [CodePoint.ofChar ']']) := by
      rw [hrender, List.append_assoc]
      rfl
    rw [hsplit, Sign.standsIn_append_cons_iff hd, or_iff_left (not_standsIn_digits hg hdigits.2),
      standsIn_concat_iff hg]

/-! ## 3. Names of scalars -/

/-- A keyword and a number lack a sign if the keyword lacks something of it that is no digit. -/
theorem not_standsIn_sized {keyword : Text}
    (h : ∃ c ∈ g.word, c ∉ keyword ∧ Decimal.isDigit c = false) (n : Nat) :
    ¬ g.StandsIn (keyword ++ Decimal.render n) := by
  obtain ⟨c, hc, hkeyword, hdigit⟩ := h
  refine Sign.not_standsIn_of_notMem hc fun hmem => ?_
  rcases List.mem_append.mp hmem with hmem | hmem
  · exact hkeyword hmem
  · rw [Decimal.isDigit_of_mem_render hmem] at hdigit
    cases hdigit

/-- In the name of octets of a fixed number a digit stands behind `bytes`, which stands there only
once. -/
theorem not_standsIn_fixedBytes (n : Nat) :
    ¬ bytesWord.StandsIn (("bytes" : Text) ++ Decimal.render n) := by
  rintro ⟨before, after, h, hafter⟩
  cases before with
  | nil =>
    have hrender : Decimal.render n = after := List.append_cancel_left h
    obtain ⟨d, ds, hds⟩ := List.exists_cons_of_ne_nil (Decimal.render_ne_nil n)
    have hd : Decimal.isDigit d = true :=
      Decimal.isDigit_of_mem_render (hds ▸ List.mem_cons_self .. : d ∈ Decimal.render n)
    have hfollow : (!Decimal.isDigit d) = true := by
      refine hafter d ?_
      rw [← hrender, hds]
      rfl
    rw [hd] at hfollow
    cases hfollow
  | cons c before =>
    -- The word would begin with a letter that is found at the very front only.
    have htail : ("ytes" : Text) ++ Decimal.render n = before ++ ("bytes" : Text) ++ after :=
      (List.cons.inj h).2
    have hmem : CodePoint.ofChar 'b' ∈ ("ytes" : Text) ++ Decimal.render n := by
      rw [htail]
      exact List.mem_append_left _ (List.mem_append_right _ (List.mem_cons_self ..))
    rcases List.mem_append.mp hmem with hmem | hmem
    · revert hmem
      decide
    · exact absurd (Decimal.isDigit_of_mem_render hmem) (by decide)

/-- The name of a scalar shows a sign exactly if the scalar is dynamic. -/
theorem standsIn_name_iff (s : Scalar) :
    (∃ g ∈ dynamicSigns, g.StandsIn s.name) ↔ s.isDynamic = true := by
  have hlacks : ∀ name : Text, (∀ g ∈ dynamicSigns, ∃ c ∈ g.word, c ∉ name) →
      ¬ ∃ g ∈ dynamicSigns, g.StandsIn name := by
    rintro name h ⟨g, hg, hstands⟩
    obtain ⟨c, hc, hname⟩ := h g hg
    exact Sign.not_standsIn_of_notMem hc hname hstands
  have hsized : ∀ keyword : Text,
      (∀ g ∈ dynamicSigns, ∃ c ∈ g.word, c ∉ keyword ∧ Decimal.isDigit c = false) →
      ∀ n, ¬ ∃ g ∈ dynamicSigns, g.StandsIn (keyword ++ Decimal.render n) := by
    rintro keyword h n ⟨g, hg, hstands⟩
    exact not_standsIn_sized (h g hg) n hstands
  cases s with
  | address => exact iff_of_false (hlacks _ (by decide)) nofun
  | bool => exact iff_of_false (hlacks _ (by decide)) nofun
  | string => exact iff_of_true ⟨stringWord, by simp [dynamicSigns], [], [], rfl, nofun⟩ rfl
  | bytes => exact iff_of_true ⟨bytesWord, by simp [dynamicSigns], [], [], rfl, nofun⟩ rfl
  | int n => exact iff_of_false (hsized "int" (by decide) n) nofun
  | uint n => exact iff_of_false (hsized "uint" (by decide) n) nofun
  | fixedBytes n =>
    refine iff_of_false ?_ nofun
    have hothers : ∀ g ∈ [emptyBrackets, stringWord],
        ∃ c ∈ g.word, c ∉ ("bytes" : Text) ∧ Decimal.isDigit c = false := by decide
    rintro ⟨g, hg, hstands⟩
    have hcases : g ∈ [emptyBrackets, stringWord] ∨ g = bytesWord := by
      simpa [dynamicSigns, or_assoc] using hg
    rcases hcases with hg | rfl
    · exact not_standsIn_sized (hothers g hg) n hstands
    · exact not_standsIn_fixedBytes n hstands

/-! ## 4. Types -/

theorem isDynamic_iff_standsIn (t : AbiType) :
    t.isDynamic = true ↔ ∃ g ∈ dynamicSigns, g.StandsIn t.selector := by
  induction t using TypeTree.induction with
  | leaf s =>
    rw [isDynamic, selector]
    exact (standsIn_name_iff s).symm
  | array t ih =>
    have hnone : ∀ c ∈ ([] : Text).head?, emptyBrackets.mayFollow c = true := fun _ _ => rfl
    refine iff_of_true rfl ⟨emptyBrackets, List.mem_cons_self .., selector t, [], ?_, hnone⟩
    rw [selector, List.append_nil]
    rfl
  | fixedArray t n ih =>
    rw [isDynamic, ih, selector]
    exact exists_congr fun g => and_congr_right fun hg => (standsIn_suffix_iff hg n).symm
  | tuple ts ih =>
    rw [isDynamic, anyDynamic_eq, List.any_eq_true]
    constructor
    · rintro ⟨t, ht, h⟩
      obtain ⟨g, hg, hstands⟩ := (ih t ht).mp h
      exact ⟨g, hg, (standsIn_tuple_iff hg ts).mpr ⟨t, ht, hstands⟩⟩
    · rintro ⟨g, hg, h⟩
      obtain ⟨t, ht, hstands⟩ := (standsIn_tuple_iff hg ts).mp h
      exact ⟨t, ht, (ih t ht).mpr ⟨g, hg, hstands⟩⟩

/-- A name shows that a type is dynamic: `[]` or `string` stands in it somewhere, or `bytes` without
a digit right behind. -/
def ShowsDynamic (name : Text) : Prop :=
  ("[]" : Text) <:+: name ∨ ("string" : Text) <:+: name ∨
    ∃ before after, name = before ++ ("bytes" : Text) ++ after ∧
      ∀ c ∈ after.head?, Decimal.isDigit c = false

theorem showsDynamic_iff (name : Text) :
    ShowsDynamic name ↔ ∃ g ∈ dynamicSigns, g.StandsIn name := by
  have hanywhere : ∀ w : Text, Sign.StandsIn ⟨w, fun _ => true⟩ name ↔ w <:+: name := by
    intro w
    constructor
    · rintro ⟨before, after, h, -⟩
      exact ⟨before, after, h.symm⟩
    · rintro ⟨before, after, h⟩
      exact ⟨before, after, h.symm, fun _ _ => rfl⟩
  have hbytes : bytesWord.StandsIn name ↔
      ∃ before after, name = before ++ ("bytes" : Text) ++ after ∧
        ∀ c ∈ after.head?, Decimal.isDigit c = false := by
    simp only [Sign.StandsIn, bytesWord, Bool.not_eq_true']
  rw [ShowsDynamic, ← hanywhere, ← hanywhere, ← hbytes]
  simp only [dynamicSigns, List.mem_cons, List.not_mem_nil, or_false, exists_eq_or_imp,
    exists_eq_left]
  rfl

/-- **Where there is room for the selector name of a type, it can be read off whether the type is
dynamic.**  To find that out from the type takes no more room, and where there is none for the name,
the name is not written. -/
theorem isDynamicWithin_iff_showsDynamic {t : AbiType} (fit : t.NumbersFit) (room : Nat) :
    (t.selectorCalls ≤ room → ∃ answer name, t.isDynamicWithin room = .ok answer ∧
        t.selectorWithin room = .ok name ∧ (answer = true ↔ ShowsDynamic name)) ∧
      (room < t.selectorCalls → t.selectorWithin room = .error .nesting) ∧
      (room < t.dynamicCalls → t.isDynamicWithin room = .error .nesting) := by
  rw [selectorWithin_of_fits fit, isDynamicWithin_eq]
  refine ⟨fun h => ⟨t.isDynamic, t.selector, ?_, if_pos h, ?_⟩, fun h => ?_, fun h => ?_⟩
  · exact if_pos (Nat.le_trans (dynamicCalls_le_selectorCalls t) h)
  · rw [showsDynamic_iff, isDynamic_iff_standsIn]
  · exact if_neg (Nat.not_le.mpr h)
  · exact if_neg (Nat.not_le.mpr h)

/-- Octets of a fixed number, and behind them an array of no text. -/
theorem isDynamicWithin_iff_showsDynamic_pair :
    let t : AbiType := .tuple [.leaf (.fixedBytes 4), .fixedArray (.leaf .string) 0]
    t.NumbersFit ∧
      (∃ answer name, t.isDynamicWithin 5 = .ok answer ∧ t.selectorWithin 5 = .ok name ∧
        (answer = true ↔ ShowsDynamic name)) ∧
      t.selectorWithin 4 = .error .nesting ∧ t.isDynamicWithin 4 = .error .nesting := by
  intro t
  have fit : t.NumbersFit := by decide +kernel
  exact ⟨fit, (isDynamicWithin_iff_showsDynamic fit 5).1 (by decide),
    (isDynamicWithin_iff_showsDynamic fit 4).2.1 (by decide),
    (isDynamicWithin_iff_showsDynamic fit 4).2.2 (by decide)⟩

/-- An array of many dimensions has no selector name, though it is found out that it is dynamic. -/
theorem not_showsDynamic_deepArray :
    deepArray.WellFormed ∧ deepArray.NumbersFit ∧ deepArray.isDynamicWithin callRoom = .ok true ∧
      ¬ ∃ answer name, deepArray.isDynamicWithin callRoom = .ok answer ∧
        deepArray.selectorWithin callRoom = .ok name ∧ (answer = true ↔ ShowsDynamic name) := by
  have hanswer : deepArray.isDynamicWithin callRoom = .ok true := rfl
  refine ⟨wellFormed_deepArray, numbersFit_deepArray, hanswer, ?_⟩
  rintro ⟨answer, name, -, hname, -⟩
  rw [selectorWithin_deepArray] at hname
  cases hname

end ContractAbi.AbiType
