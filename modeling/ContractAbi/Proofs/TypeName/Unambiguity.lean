import ContractAbi.Proofs.TypeName.RoundTrip

/-!
# Names and types

A name is derived for one type at most (`Derives.unique`).  The last rule of a derivation can be
told from the end of the name, so that two derivations of one name go through the same parts; the
bounds of the reader do not come into it.

Hence canonical names tell types apart (`canonical_injective`): they are derived, if widths are
positive, and every type that has a name at all is of this kind (`wellFormed_of_derives`).
-/

namespace ContractAbi.TypeName

/-! ## 1. One word, one type -/

/-- A word is looked up, or is a keyword with its width. -/
theorem Word.lookup {s : Text} {t : AbiType} (h : Word s t) :
    keywords.lookup s = some t ∨
      keywords.lookup s = none ∧
        ∃ k ds, sized? s = some (k, ds) ∧ t = .leaf (k.scalar (Decimal.value ds)) := by
  cases h with
  | @sized k ds hds _ =>
    obtain ⟨c, rest, rfl⟩ := List.exists_cons_of_ne_nil hds.1
    have hc : c ∈ k.keyword ++ c :: rest := List.mem_append_right _ (List.mem_cons_self ..)
    exact Or.inr ⟨keywords_lookup_eq_none hc (hds.2 c (List.mem_cons_self ..)), k, c :: rest,
      sized?_keyword_append k _, rfl⟩
  | _ => exact Or.inl rfl

theorem Word.unique {s : Text} {t t' : AbiType} (h : Word s t) (h' : Word s t') : t = t' := by
  rcases h.lookup with hkw | ⟨hkw, k, ds, hsized, rfl⟩ <;>
    rcases h'.lookup with hkw' | ⟨hkw', k', ds', hsized', rfl⟩
  · exact Option.some.inj (hkw.symm.trans hkw')
  · cases hkw.symm.trans hkw'
  · cases hkw.symm.trans hkw'
  · cases Option.some.inj (hsized.symm.trans hsized')
    rfl

/-! ## 2. The last rule of a derivation -/

variable {s before body : Text} {t : AbiType} {elems : List (Text × AbiType)}

/-- What does not end with a bracket is a word. -/
theorem Derives.word_of_ending (h : Derives s t) (hend : ending s = .bare) : Word s t := by
  cases h with
  | word h => exact h
  | array h => cases hend.symm.trans (ending_array h.ne_nil)
  | fixedArray h hds => cases hend.symm.trans (ending_fixedArray h.ne_nil hds)
  | tuple hp _ h => cases hend.symm.trans (ending_tuple hp h)

/-- What ends with an array suffix is an array over what stands in front. -/
theorem Derives.array_of_ending (h : Derives s t) (hend : ending s = .suffix before body) :
    ∃ u, Derives before u ∧
      (body = [] ∧ t = .array u ∨
        Decimal.IsNumeral body ∧ t = .fixedArray u (Decimal.value body)) := by
  cases h with
  | word h => cases hend.symm.trans (ending_word h)
  | array h =>
    cases hend.symm.trans (ending_array h.ne_nil)
    exact ⟨_, h, Or.inl ⟨rfl, rfl⟩⟩
  | fixedArray h hds =>
    cases hend.symm.trans (ending_fixedArray h.ne_nil hds)
    exact ⟨_, h, Or.inr ⟨hds, rfl⟩⟩
  | tuple hp _ h => cases hend.symm.trans (ending_tuple hp h)

/-- What is one group is a tuple of the types of its pieces. -/
theorem Derives.tuple_of_ending (h : Derives s t) (hend : ending s = .group body) :
    ∃ elems : List (Text × AbiType), pieces body = .ok (elems.map (·.1)) ∧
      (∀ e ∈ elems, Derives e.1 e.2) ∧ t = .tuple (elems.map (·.2)) := by
  cases h with
  | word h => cases hend.symm.trans (ending_word h)
  | array h => cases hend.symm.trans (ending_array h.ne_nil)
  | fixedArray h hds => cases hend.symm.trans (ending_fixedArray h.ne_nil hds)
  | @tuple o c elems hp hne h =>
    cases hend.symm.trans (ending_tuple hp h)
    exact ⟨elems, pieces_elems hne h, h, rfl⟩

/-! ## 3. One name, one type -/

/-- Lists of pairs agree if their names do, and each name of the one has one type only. -/
theorem types_eq_of_names_eq {elems' : List (Text × AbiType)}
    (hunique : ∀ e ∈ elems, ∀ {u}, Derives e.1 u → e.2 = u)
    (hnames : elems.map (·.1) = elems'.map (·.1)) (h' : ∀ e ∈ elems', Derives e.1 e.2) :
    elems.map (·.2) = elems'.map (·.2) := by
  induction elems generalizing elems' with
  | nil =>
    rw [List.map_eq_nil_iff.mp hnames.symm]
  | cons e elems ih =>
    cases elems' with
    | nil => cases hnames
    | cons e' elems' =>
      obtain ⟨hname, hnames⟩ : e.1 = e'.1 ∧ elems.map (·.1) = elems'.map (·.1) :=
        List.cons.inj hnames
      have hhead : e.2 = e'.2 := by
        refine hunique e (List.mem_cons_self ..) ?_
        rw [hname]
        exact h' e' (List.mem_cons_self ..)
      have htail := ih (fun e he => hunique e (List.mem_cons_of_mem _ he)) hnames
        fun e he => h' e (List.mem_cons_of_mem _ he)
      rw [List.map_cons, List.map_cons, hhead, htail]

/-- **A name is derived for one type at most.** -/
theorem Derives.unique {t' : AbiType} (h : Derives s t) (h' : Derives s t') : t = t' := by
  induction h generalizing t' with
  | word h => exact h.unique (h'.word_of_ending (ending_word h))
  | array h ih =>
    obtain ⟨u, hu, ⟨-, rfl⟩ | ⟨hds, -⟩⟩ := h'.array_of_ending (ending_array h.ne_nil)
    · rw [ih hu]
    · exact absurd rfl hds.1
  | fixedArray h hds ih =>
    obtain ⟨u, hu, ⟨hnil, -⟩ | ⟨-, rfl⟩⟩ := h'.array_of_ending (ending_fixedArray h.ne_nil hds)
    · exact absurd hnil hds.1
    · rw [ih hu]
  | tuple hp hne h ih =>
    obtain ⟨elems', hpieces, helems', rfl⟩ := h'.tuple_of_ending (ending_tuple hp h)
    have hnames := Except.ok.inj ((pieces_elems hne h).symm.trans hpieces)
    rw [types_eq_of_names_eq ih hnames helems']

/-! ## 4. One type, one canonical name -/

/-- Only types of positive widths have names. -/
theorem wellFormed_of_derives (h : Derives s t) : t.WellFormed := by
  induction h with
  | word h =>
    cases h with
    | sized k _ hpos =>
      rw [AbiType.wellFormed_leaf]
      cases k <;> exact hpos
    | _ => decide
  | array _ ih => exact AbiType.wellFormed_array.mpr ih
  | fixedArray _ _ ih => exact AbiType.wellFormed_fixedArray.mpr ih
  | tuple _ _ _ ih =>
    refine AbiType.wellFormed_tuple.mpr fun u hu => ?_
    obtain ⟨e, he, rfl⟩ := List.mem_map.mp hu
    exact ih e he

/-- **Canonical names tell types apart.** -/
theorem canonical_injective {t' : AbiType} (wf : t.WellFormed) (wf' : t'.WellFormed)
    (h : t.canonical = t'.canonical) : t = t' := by
  have hder := derives_canonical wf'
  rw [← h] at hder
  exact (derives_canonical wf).unique hder

end ContractAbi.TypeName
