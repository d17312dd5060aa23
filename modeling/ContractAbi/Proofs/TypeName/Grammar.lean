import ContractAbi.Proofs.AbiType.Bounds
import ContractAbi.Proofs.Text.Runs
import ContractAbi.Proofs.TypeName.Ending

/-!
# The grammar of type names

`Derives s t` says that the grammar derives the name `s` for the type `t`.  It grows names from the
inside out, and knows nothing of the way in which a reader takes them apart: no counting of
brackets, no order in which suffixes come off, no limit on digits or nesting.

Two facts about derived names are what a reader depends on.

* `Derives.element`: a derived name is balanced and hides its commas, so neither scan of the reader
  ever leaves it too early.
* `tupleNesting_of_derives`: the brackets that a name spells around tuples nest as deep as the
  non-empty tuples of its type.
-/

namespace ContractAbi.TypeName

/-! ## 1. The grammar -/

/-- `Word s t`: `s` is the name of the type `t`, and holds no bracket. -/
inductive Word : Text → AbiType → Prop
  | address : Word "address" (.leaf .address)
  | bool : Word "bool" (.leaf .bool)
  | string : Word "string" (.leaf .string)
  | bytes : Word "bytes" (.leaf .bytes)
  | int : Word "int" (.leaf (.int 256))
  | uint : Word "uint" (.leaf (.uint 256))
  | tuple : Word "tuple" (.tuple [])
  /-- A width may have zeros in front, but is not zero. -/
  | sized (k : Sized) {ds : Text} (hds : Decimal.IsNumeral ds) (hpos : 0 < Decimal.value ds) :
    Word (k.keyword ++ ds) (.leaf (k.scalar (Decimal.value ds)))

/-- `Derives s t`: the grammar derives the name `s` for the type `t`. -/
inductive Derives : Text → AbiType → Prop
  | word {s : Text} {t : AbiType} (h : Word s t) : Derives s t
  | array {s : Text} {t : AbiType} (h : Derives s t) : Derives (s ++ ("[]" : Text)) (.array t)
  /-- A length may have zeros in front, and may be zero. -/
  | fixedArray {s ds : Text} {t : AbiType} (h : Derives s t) (hds : Decimal.IsNumeral ds) :
    Derives (s ++ ("[" : Text) ++ ds ++ ("]" : Text)) (.fixedArray t (Decimal.value ds))
  /-- The elements of a tuple stand in brackets of one shape, whatever their own brackets are. -/
  | tuple {o c : CodePoint} {elems : List (Text × AbiType)} (hp : (o, c) ∈ bracketPairs)
    (hne : elems ≠ []) (h : ∀ e ∈ elems, Derives e.1 e.2) :
    Derives (o :: (Text.join "," (elems.map (·.1)) ++ [c])) (.tuple (elems.map (·.2)))

/-! ## 2. Derived names are elements -/

theorem isPlain_of_isDigit {c : CodePoint} (h : Decimal.isDigit c = true) : isPlain c = true := by
  have hne : ∀ d : Char, Decimal.isDigit (CodePoint.ofChar d) = false → c ≠ CodePoint.ofChar d := by
    rintro d hd rfl
    rw [hd] at h
    cases h
  simp [isPlain, isOpener, isCloser, openerOf?, hne '[' rfl, hne '{' rfl, hne ']' rfl,
    hne '}' rfl, hne ',' rfl]

/-- A word has letters and digits only. -/
theorem Word.isPlain {s : Text} {t : AbiType} (h : Word s t) : ∀ c ∈ s, isPlain c = true := by
  cases h with
  | sized k hds _ =>
    have hk : ∀ c ∈ k.keyword, TypeName.isPlain c = true := by
      cases k <;> decide
    intro c hc
    rcases List.mem_append.mp hc with hc | hc
    · exact hk c hc
    · exact isPlain_of_isDigit (hds.2 c hc)
  | _ => decide

theorem Word.ne_nil {s : Text} {t : AbiType} (h : Word s t) : s ≠ [] := by
  cases h with
  | sized k hds _ => exact fun hs => hds.1 (List.append_eq_nil_iff.mp hs).2
  | _ => decide

/-- An array suffix behind an element changes nothing about its brackets. -/
theorem Element.suffix {s body : Text} (hs : Element s) (hb : Balanced body) :
    Element (s ++ CodePoint.ofChar '[' :: (body ++ [CodePoint.ofChar ']'])) :=
  hs.append (element_group (List.mem_cons_self ..) hb)

theorem Derives.ne_nil {s : Text} {t : AbiType} (h : Derives s t) : s ≠ [] := by
  cases h with
  | word h => exact h.ne_nil
  | array _ => simp [Text.ofString]
  | fixedArray _ _ => simp [Text.ofString]
  | tuple _ _ _ => simp

/-- **A derived name can be an element of a tuple.** -/
theorem Derives.element {s : Text} {t : AbiType} (h : Derives s t) : Element s := by
  induction h with
  | word h => exact element_of_plain h.isPlain
  | array _ ih => exact ih.suffix balanced_nil
  | @fixedArray s ds t _ hds ih =>
    have hd : Balanced ds := level_of_plain (fun c hc => isPlain_of_isDigit (hds.2 c hc)) 0
    rw [List.append_assoc, List.append_assoc]
    exact ih.suffix hd
  | @tuple o c elems hp _ _ ih =>
    refine element_group hp (balanced_join fun p hm => ?_)
    obtain ⟨e, he, rfl⟩ := List.mem_map.mp hm
    exact (ih e he).balanced

/-! ## 3. How a derived name ends -/

theorem ending_array {s : Text} (hs : s ≠ []) : ending (s ++ ("[]" : Text)) = .suffix s [] :=
  ending_eq_suffix_iff.mpr ⟨hs, balanced_nil, rfl⟩

theorem ending_fixedArray {s ds : Text} (hs : s ≠ []) (hds : Decimal.IsNumeral ds) :
    ending (s ++ ("[" : Text) ++ ds ++ ("]" : Text)) = .suffix s ds := by
  refine ending_eq_suffix_iff.mpr ⟨hs, ?_, ?_⟩
  · exact level_of_plain (fun c hc => isPlain_of_isDigit (hds.2 c hc)) 0
  · rw [List.append_assoc, List.append_assoc]
    rfl

theorem ending_word {s : Text} {t : AbiType} (h : Word s t) : ending s = .bare := by
  obtain ⟨c, hc⟩ : ∃ c, s.getLast? = some c := by
    cases hl : s.getLast? with
    | none => exact absurd (List.getLast?_eq_none_iff.mp hl) h.ne_nil
    | some c => exact ⟨c, rfl⟩
  obtain ⟨s, rfl⟩ := List.getLast?_eq_some_iff.mp hc
  exact ending_eq_bare (isPlain_iff.mp (h.isPlain c (by simp))).2.1

variable {elems : List (Text × AbiType)}

theorem element_of_mem_elems (h : ∀ e ∈ elems, Derives e.1 e.2) :
    ∀ p ∈ elems.map (·.1), Element p ∧ p ≠ [] := by
  intro p hm
  obtain ⟨e, he, rfl⟩ := List.mem_map.mp hm
  exact ⟨(h e he).element, (h e he).ne_nil⟩

theorem ending_tuple {o c : CodePoint} (hp : (o, c) ∈ bracketPairs)
    (h : ∀ e ∈ elems, Derives e.1 e.2) :
    ending (o :: (Text.join "," (elems.map (·.1)) ++ [c])) =
      .group (Text.join "," (elems.map (·.1))) :=
  ending_eq_group_iff.mpr
    ⟨o, c, hp, rfl, balanced_join fun p hm => (element_of_mem_elems h p hm).1.balanced⟩

/-- The pieces of a tuple are its elements. -/
theorem pieces_elems (hne : elems ≠ []) (h : ∀ e ∈ elems, Derives e.1 e.2) :
    pieces (Text.join "," (elems.map (·.1))) = .ok (elems.map (·.1)) :=
  pieces_eq_ok_iff.mpr
    ⟨split_join (mt List.map_eq_nil_iff.mp hne) fun p hm => (element_of_mem_elems h p hm).1,
      fun p hm => (element_of_mem_elems h p hm).2⟩

/-! ## 4. Parts of a name -/

theorem infix_before {name before body : Text} (h : ending name = .suffix before body) :
    before <:+: name := by
  obtain ⟨-, -, rfl⟩ := ending_eq_suffix_iff.mp h
  exact List.infix_append_left ..

theorem infix_body {name before body : Text} (h : ending name = .suffix before body) :
    body <:+: name := by
  obtain ⟨-, -, rfl⟩ := ending_eq_suffix_iff.mp h
  exact List.infix_append_of_infix_right (List.infix_cons (List.infix_append_left ..))

theorem infix_piece {name body p : Text} {ps : List Text} (h : ending name = .group body)
    (hs : split 0 body = .ok ps) (hp : p ∈ ps) : p <:+: name := by
  obtain ⟨o, c, -, rfl, -⟩ := ending_eq_group_iff.mp h
  rw [← (join_of_split hs).1]
  exact List.infix_cons (List.infix_append_of_infix_left (Text.infix_join "," hp))

theorem length_of_group {name body p : Text} {ps : List Text} (h : ending name = .group body)
    (hs : split 0 body = .ok ps) (hp : p ∈ ps) : p.length + 2 ≤ name.length := by
  obtain ⟨o, c, -, rfl, -⟩ := ending_eq_group_iff.mp h
  have hle : p.length ≤ body.length := by
    rw [← (join_of_split hs).1]
    exact (Text.infix_join "," hp).length_le
  simp only [List.length_append, List.length_cons]
  omega

/-! ## 5. The nesting of a name -/

/-- The number of tuples in one another that a name spells with brackets.  The brackets of an array
suffix do not count. -/
def tupleNesting (name : Text) : Nat :=
  match _h : ending name with
  | .suffix before _ => tupleNesting before
  | .group body =>
    match _hs : split 0 body with
    | .ok ps => (ps.attach.map fun ⟨p, _⟩ => tupleNesting p).foldr max 0 + 1
    | .error _ => 0
  | _ => 0
termination_by name.length
decreasing_by
  · exact length_of_suffix _h
  · rename_i hp
    have hlen := length_of_group _h _hs hp
    omega

theorem tupleNesting_of_suffix {name before body : Text} (h : ending name = .suffix before body) :
    tupleNesting name = tupleNesting before := by
  rw [tupleNesting]
  split
  · next before' body' h' =>
    rw [h] at h'
    cases h'
    rfl
  · next h' =>
    rw [h] at h'
    cases h'
  · next h' _ => exact absurd h (h' before body)

theorem tupleNesting_of_group {name body : Text} {ps : List Text} (h : ending name = .group body)
    (hs : split 0 body = .ok ps) :
    tupleNesting name = (ps.map tupleNesting).foldr max 0 + 1 := by
  rw [tupleNesting]
  split
  · next h' =>
    rw [h] at h'
    cases h'
  · next body' h' =>
    rw [h] at h'
    cases h'
    split
    · next ps' hs' =>
      rw [hs] at hs'
      cases hs'
      simp
    · next hs' =>
      rw [hs] at hs'
      cases hs'
  · next _ h' => exact absurd h (h' body)

/-- **The nesting of a derived name is that of its type.** -/
theorem tupleNesting_of_derives {s : Text} {t : AbiType} (h : Derives s t) :
    tupleNesting s = t.bracketDepth := by
  induction h with
  | @word s t h =>
    have hbare : tupleNesting s = 0 := by
      rw [tupleNesting]
      split
      · next h' => rw [ending_word h] at h'; cases h'
      · next h' => rw [ending_word h] at h'; cases h'
      · rfl
    cases h <;> exact hbare
  | array h ih => rw [tupleNesting_of_suffix (ending_array h.ne_nil), ih, AbiType.bracketDepth]
  | fixedArray h hds ih =>
    rw [tupleNesting_of_suffix (ending_fixedArray h.ne_nil hds), ih, AbiType.bracketDepth]
  | @tuple o c elems hp hne h ih =>
    have hne' : elems.map (·.2) ≠ [] := mt List.map_eq_nil_iff.mp hne
    have hsplit := (pieces_eq_ok_iff.mp (pieces_elems hne h)).1
    rw [tupleNesting_of_group (ending_tuple hp h) hsplit, AbiType.bracketDepth_tuple hne',
      List.map_map, List.map_map]
    exact congrArg (·.foldr max 0 + 1) (List.map_congr_left ih)

/-- A short name cannot nest deep: each level takes two brackets. -/
theorem tupleNesting_le_length (name : Text) : 2 * tupleNesting name ≤ name.length := by
  fun_induction tupleNesting name with
  | case1 name before body h ih =>
    have hlen := length_of_suffix h
    omega
  | case2 name body h ps hs ih =>
    have htwo : 2 ≤ name.length := by
      obtain ⟨o, c, -, rfl, -⟩ := ending_eq_group_iff.mp h
      simp
    have hmax : (ps.attach.map fun ⟨p, _⟩ => tupleNesting p).foldr max 0 ≤
        (name.length - 2) / 2 := by
      rw [foldr_max_le_iff]
      intro m hm
      obtain ⟨⟨p, hp⟩, -, rfl⟩ := List.mem_map.mp hm
      have hlen := length_of_group h hs hp
      have hp' := ih p hp
      change tupleNesting p ≤ _
      omega
    omega
  | case3 => exact Nat.zero_le _
  | case4 => exact Nat.zero_le _

end ContractAbi.TypeName
