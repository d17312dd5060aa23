import ContractAbi.Proofs.TypeName.Unambiguity

/-!
# Selector names

The reader accepts no selector name that has a tuple in it, since that stands between parentheses
there.  But nothing else is a parenthesis, and the two side by side are always an empty tuple: what
stands in a tuple begins with a letter or with a tuple of its own.  So a selector name can be
respelled without knowing what it means, each `()` as `tuple`, and then each parenthesis as the
square bracket that looks the same way.

What comes out is the canonical name (`respells_selector`), which tells types apart.  Hence selector
names tell types apart too (`selector_inj`).
-/

namespace ContractAbi.AbiType

/-! ## 1. Respelling a text -/

/-- Whether a code point is a parenthesis. -/
def isParen (c : CodePoint) : Bool := c = CodePoint.ofChar '(' || c = CodePoint.ofChar ')'

/-- Writes each `()` as `tuple`, from left to right. -/
def nameEmpty : Text → Text
  | [] => []
  | [c] => [c]
  | c :: d :: rest =>
    if c = CodePoint.ofChar '(' ∧ d = CodePoint.ofChar ')' then ("tuple" : Text) ++ nameEmpty rest
    else c :: nameEmpty (d :: rest)

/-- A parenthesis as a square bracket. -/
def squareParen (c : CodePoint) : CodePoint :=
  if c = CodePoint.ofChar '(' then '[' else if c = CodePoint.ofChar ')' then ']' else c

/-- Writes each `()` as `tuple`, and then each parenthesis as a square bracket. -/
def respell (t : Text) : Text := (nameEmpty t).map squareParen

theorem squareParen_of_isParen {c : CodePoint} (h : isParen c = false) : squareParen c = c := by
  simp only [isParen, Bool.or_eq_false_iff, decide_eq_false_iff_not] at h
  rw [squareParen, if_neg h.1, if_neg h.2]

/-- Where no `()` begins, one code point is respelled on its own. -/
theorem respell_cons {c : CodePoint} {t : Text}
    (h : c = CodePoint.ofChar '(' → t.head? ≠ some (CodePoint.ofChar ')')) :
    respell (c :: t) = squareParen c :: respell t := by
  cases t with
  | nil => rfl
  | cons d rest =>
    have hne : ¬ (c = CodePoint.ofChar '(' ∧ d = CodePoint.ofChar ')') := by
      rintro ⟨hc, rfl⟩
      exact h hc rfl
    rw [respell, nameEmpty, if_neg hne]
    rfl

/-! ## 2. Parts that are respelled on their own -/

/-- `Respells s t`: whatever comes behind `s`, it is respelled as `t`. -/
def Respells (s t : Text) : Prop := ∀ after, respell (s ++ after) = t ++ respell after

variable {s s' t t' : Text}

theorem Respells.unique (h : Respells s t) (h' : Respells s t') : t = t' :=
  List.append_cancel_right ((h []).symm.trans (h' []))

theorem Respells.append (h : Respells s t) (h' : Respells s' t') :
    Respells (s ++ s') (t ++ t') := by
  intro after
  rw [List.append_assoc, h, h', List.append_assoc]

/-- Without a parenthesis nothing changes. -/
theorem respells_self (h : ∀ c ∈ s, isParen c = false) : Respells s s := by
  intro after
  induction s with
  | nil => rfl
  | cons c s ih =>
    have hc : isParen c = false := h c (List.mem_cons_self ..)
    have hopen : c ≠ CodePoint.ofChar '(' := by
      rintro rfl
      cases hc
    rw [List.cons_append, respell_cons fun he => absurd he hopen, squareParen_of_isParen hc,
      ih fun d hd => h d (List.mem_cons_of_mem _ hd)]
    rfl

theorem respells_join {ts : List AbiType} {f g : AbiType → Text}
    (h : ∀ t ∈ ts, Respells (f t) (g t)) :
    Respells (Text.join "," (ts.map f)) (Text.join "," (ts.map g)) := by
  induction ts with
  | nil => exact fun after => rfl
  | cons t ts ih =>
    have hhead : Respells (f t) (g t) := h t (List.mem_cons_self ..)
    have htail := ih fun u hu => h u (List.mem_cons_of_mem _ hu)
    cases ts with
    | nil => exact hhead
    | cons u ts =>
      have hcomma : Respells "," "," := respells_self (by decide)
      exact (hhead.append hcomma).append htail

/-- A group between parentheses is one between square brackets, if there is something in it that
does not close it. -/
theorem Respells.group (h : Respells s t) {c : CodePoint} {rest : Text} (hs : s = c :: rest)
    (hc : c ≠ CodePoint.ofChar ')') :
    Respells (("(" : Text) ++ s ++ (")" : Text)) (("[" : Text) ++ t ++ ("]" : Text)) := by
  intro after
  have hclose : respell (CodePoint.ofChar ')' :: after) = CodePoint.ofChar ']' :: respell after :=
    respell_cons nofun
  calc respell (("(" : Text) ++ s ++ (")" : Text) ++ after)
      = respell (CodePoint.ofChar '(' :: (s ++ CodePoint.ofChar ')' :: after)) := by
        rw [List.append_assoc, List.append_assoc]
        rfl
    _ = CodePoint.ofChar '[' :: respell (s ++ CodePoint.ofChar ')' :: after) :=
        respell_cons fun _ => by simp [hs, hc]
    _ = CodePoint.ofChar '[' :: (t ++ CodePoint.ofChar ']' :: respell after) := by rw [h, hclose]
    _ = ("[" : Text) ++ t ++ ("]" : Text) ++ respell after := by
        rw [List.append_assoc, List.append_assoc]
        rfl

/-! ## 3. Names of types -/

theorem isParen_of_isDigit {c : CodePoint} (h : Decimal.isDigit c = true) : isParen c = false := by
  cases hc : isParen c with
  | false => rfl
  | true =>
    simp only [isParen, Bool.or_eq_true, decide_eq_true_eq] at hc
    rcases hc with rfl | rfl <;> cases h

/-- The name of a scalar has no parenthesis. -/
theorem isParen_name (s : Scalar) : ∀ c ∈ s.name, isParen c = false := by
  have hsized : ∀ (keyword : Text) n, (∀ c ∈ keyword, isParen c = false) →
      ∀ c ∈ keyword ++ Decimal.render n, isParen c = false := by
    intro keyword n hkeyword c hc
    rcases List.mem_append.mp hc with hc | hc
    · exact hkeyword c hc
    · exact isParen_of_isDigit (Decimal.isDigit_of_mem_render hc)
  cases s with
  | int n => exact hsized "int" n (by decide)
  | uint n => exact hsized "uint" n (by decide)
  | fixedBytes n => exact hsized "bytes" n (by decide)
  | _ => decide

/-- Nor has an array suffix. -/
theorem isParen_suffix (d : TypeTree.Dimension) : ∀ c ∈ suffix d, isParen c = false := by
  cases d with
  | none => decide
  | some n =>
    intro c hc
    rw [suffix, List.mem_append, List.mem_append] at hc
    rcases hc with (hc | hc) | hc
    · rw [List.mem_singleton.mp hc]
      rfl
    · exact isParen_of_isDigit (Decimal.isDigit_of_mem_render hc)
    · rw [List.mem_singleton.mp hc]
      rfl

/-- A selector name begins with a letter or an opening parenthesis. -/
theorem selector_begins (t : AbiType) :
    ∃ c rest, t.selector = c :: rest ∧ c ≠ CodePoint.ofChar ')' := by
  induction t using TypeTree.induction with
  | leaf s => cases s <;> exact ⟨_, _, rfl, by decide⟩
  | array t ih | fixedArray t n ih =>
    obtain ⟨c, rest, h, hc⟩ := ih
    exact ⟨c, rest ++ suffix _, by rw [selector, h, List.cons_append], hc⟩
  | tuple ts => exact ⟨_, _, by rw [selector]; rfl, by decide⟩

/-- **A selector name is respelled as the canonical name.** -/
theorem respells_selector (t : AbiType) : Respells t.selector t.canonical := by
  have hsuffix : ∀ d, Respells (suffix d) (suffix d) := fun d => respells_self (isParen_suffix d)
  induction t using TypeTree.induction with
  | leaf s =>
    rw [selector, canonical]
    exact respells_self (isParen_name s)
  | array t ih =>
    rw [selector, canonical]
    exact ih.append (hsuffix none)
  | fixedArray t n ih =>
    rw [selector, canonical]
    exact ih.append (hsuffix (some n))
  | tuple ts ih =>
    cases ts with
    | nil => exact fun after => rfl
    | cons t ts =>
      rw [selector, selectors_eq, canonical, canonicals_eq, ← List.map_cons]
      obtain ⟨c, rest, hfirst, hc⟩ := selector_begins t
      have hjoin : ∃ rest', Text.join "," ((t :: ts).map selector) = c :: rest' := by
        cases ts <;> simp [hfirst]
      obtain ⟨rest', hjoin⟩ := hjoin
      exact (respells_join ih).group hjoin hc

/-! ## 4. One selector name, one type -/

variable {t u : AbiType}

/-- **Selector names tell types apart.** -/
theorem selector_inj (wf : t.WellFormed) (wf' : u.WellFormed) :
    t.selector = u.selector ↔ t = u := by
  refine ⟨fun h => ?_, fun h => by rw [h]⟩
  have hrespells : Respells t.selector u.canonical := by
    rw [h]
    exact respells_selector u
  exact TypeName.canonical_injective wf wf' ((respells_selector t).unique hrespells)

/-- An array of octets and octets of a fixed number, each beside an empty tuple. -/
theorem selector_inj_bytes :
    let t : AbiType := .tuple [.fixedArray (.leaf .bytes) 32, .tuple []]
    let u : AbiType := .tuple [.leaf (.fixedBytes 32), .tuple []]
    t.WellFormed ∧ u.WellFormed ∧ t.selector ≠ u.selector := by
  intro t u
  have wf : t.WellFormed := by decide
  have wf' : u.WellFormed := by decide
  exact ⟨wf, wf', (not_congr (selector_inj wf wf')).mpr (by decide)⟩

end ContractAbi.AbiType
