import ContractAbi.Proofs.TypeName.Grammar

/-!
# Reading and the grammar

The reader accepts exactly the names that the grammar derives, and reads them as the types for which
it derives them (`read_spec`).  The grammar has no bounds, so the statement is about names within
the bounds of the reader: runs of digits that fit, and tuples that do not nest too deep.

* Soundness, `derives_of_readWithin`, needs neither bound, and holds under every ceiling.
* Completeness, `readWithin_of_derives`, is an induction on the derivation.  What carries it is that
  a derived name ends as its last rule says (`ending_array`, `ending_fixedArray`, `ending_tuple`).
* Failures are described by `Fault`, and `fault_of_readWithin` finds every one of them there.
  Within the bounds nothing is left of these but the spelling of the name.
-/

namespace ContractAbi.TypeName

/-! ## 1. Numbers -/

theorem number_eq_ok_iff {ds name : Text} {n : Nat} :
    number ds name = .ok n ↔
      Decimal.IsNumeral ds ∧ ds.length ≤ Decimal.digitLimit ∧ Decimal.value ds = n := by
  unfold number
  by_cases h : Decimal.IsNumeral ds
  · rw [if_pos ⟨h.1, List.all_eq_true.mpr h.2⟩, Outcome.mapError_eq_ok_iff, Decimal.read_eq_ok_iff]
    simp [h]
  · rw [if_neg fun h' => h ⟨h'.1, List.all_eq_true.mp h'.2⟩]
    simp [h]

theorem number_eq_error_iff {ds name : Text} {e : Failure} :
    number ds name = .error e ↔
      (¬ Decimal.IsNumeral ds ∧ e = .refused (.number ds name)) ∨
        (Decimal.IsNumeral ds ∧ Decimal.digitLimit < ds.length ∧ e = .longNumber ds.length) := by
  unfold number
  by_cases h : Decimal.IsNumeral ds
  · rw [if_pos ⟨h.1, List.all_eq_true.mpr h.2⟩, Outcome.mapError_eq_error_iff]
    simp only [Decimal.read_eq_error_iff, h, not_true_eq_false, false_and, false_or, true_and]
    constructor
    · rintro ⟨n, ⟨hlt, rfl⟩, rfl⟩
      exact ⟨hlt, rfl⟩
    · rintro ⟨hlt, rfl⟩
      exact ⟨_, ⟨hlt, rfl⟩, rfl⟩
  · rw [if_neg fun h' => h ⟨h'.1, List.all_eq_true.mp h'.2⟩]
    simp [h, eq_comm]

theorem dimension_eq_ok_iff {body name : Text} {d : TypeTree.Dimension} :
    dimension body name = .ok d ↔
      (body = [] ∧ d = none) ∨ ∃ n, number body name = .ok n ∧ d = some n := by
  unfold dimension
  by_cases h : body = []
  · subst h
    have hn : ∀ n, number [] name ≠ .ok n := fun n hn => (number_eq_ok_iff.mp hn).1.1 rfl
    simp [hn, eq_comm]
  · rw [if_neg h, Outcome.map_eq_ok_iff]
    simp [h, eq_comm]

theorem dimension_eq_error_iff {body name : Text} {e : Failure} :
    dimension body name = .error e ↔ body ≠ [] ∧ number body name = .error e := by
  unfold dimension
  by_cases h : body = []
  · simp [h]
  · rw [if_neg h, Outcome.map_eq_error_iff]
    simp [h]

/-! ## 2. Words -/

/-- No keyword holds a digit. -/
theorem keywords_lookup_eq_none {name : Text} {c : CodePoint} (hc : c ∈ name)
    (hd : Decimal.isDigit c = true) : keywords.lookup name = none := by
  have hkw : ∀ p ∈ keywords, ∀ d ∈ p.1, Decimal.isDigit d = false := by decide
  rw [List.lookup_eq_none_iff]
  intro p hp
  rw [bne_iff_ne]
  rintro rfl
  rw [hkw p hp c hc] at hd
  cases hd

theorem word_of_keywords_lookup {name : Text} {t : AbiType} (h : keywords.lookup name = some t) :
    Word name t := by
  obtain ⟨before, after, heq, -⟩ := List.lookup_eq_some_iff.mp h
  have hmem : (name, t) ∈ keywords := by
    rw [heq]
    exact List.mem_append_right _ (List.mem_cons_self ..)
  simp only [keywords, List.mem_cons, Prod.mk.injEq, List.not_mem_nil, or_false] at hmem
  rcases hmem with ⟨rfl, rfl⟩ | ⟨rfl, rfl⟩ | ⟨rfl, rfl⟩ | ⟨rfl, rfl⟩ | ⟨rfl, rfl⟩ | ⟨rfl, rfl⟩ |
    ⟨rfl, rfl⟩
  · exact .address
  · exact .bool
  · exact .string
  · exact .bytes
  · exact .int
  · exact .uint
  · exact .tuple

theorem eq_of_sized? {name suffix : Text} {k : Sized} (h : sized? name = some (k, suffix)) :
    name = k.keyword ++ suffix := by
  obtain ⟨k', -, hk⟩ := List.exists_of_findSome?_eq_some h
  obtain ⟨rest, hrest, heq⟩ := Option.map_eq_some_iff.mp hk
  cases heq
  exact Text.dropPrefix?_eq_some_iff.mp hrest

/-- None of the keywords that take a width begins with another. -/
theorem sized?_keyword_append (k : Sized) (suffix : Text) :
    sized? (k.keyword ++ suffix) = some (k, suffix) := by
  cases k <;> rfl

theorem looksNumeric_of_isDigit {c : CodePoint} (h : Decimal.isDigit c = true) :
    looksNumeric c = true := by
  have hc : 48 ≤ c.val ∧ c.val < 58 := by
    simp only [Decimal.isDigit, Bool.and_eq_true, decide_eq_true_eq] at h
    omega
  have hsome : (Digit.zeros.find? fun z => z ≤ c.val && c.val < z + 10).isSome = true := by
    rw [List.find?_isSome]
    exact ⟨0x30, List.mem_cons_self .., by simpa using hc⟩
  simp [looksNumeric, CodePoint.isDigit, CodePoint.decimalValue?, hsome]

/-- A numeral behind a keyword is taken for its width. -/
theorem readScalar_keyword_append (k : Sized) {ds : Text} (hds : Decimal.IsNumeral ds) :
    readScalar (k.keyword ++ ds) = (do
      let width ← number ds (k.keyword ++ ds)
      if width = 0 then .error (.refused (.name (k.keyword ++ ds) (.zeroWidth k)))
      else ((k.scalar? width).map .leaf).mapError .rejected) := by
  obtain ⟨c, rest, rfl⟩ := List.exists_cons_of_ne_nil hds.1
  have hd : Decimal.isDigit c = true := hds.2 c (List.mem_cons_self ..)
  have hlookup : keywords.lookup (k.keyword ++ c :: rest) = none :=
    keywords_lookup_eq_none (List.mem_append_right _ (List.mem_cons_self ..)) hd
  simp only [readScalar, hlookup, sized?_keyword_append, readSized, looksNumeric_of_isDigit hd,
    if_true]

/-- Nothing but the width zero is refused of a width that was read. -/
theorem readWidth_eq {k : Sized} {n : Nat} (h : n ≠ 0) :
    ((k.scalar? n).map TypeTree.leaf).mapError Failure.rejected = .ok (.leaf (k.scalar n)) := by
  rw [Sized.scalar?_eq_ok_iff.mpr ⟨Nat.pos_of_ne_zero h, rfl⟩]
  rfl

/-- **A word is read as the type it is the word of.** -/
theorem readScalar_of_word {s : Text} {t : AbiType} (h : Word s t) (runs : Text.RunsFit s) :
    readScalar s = .ok t := by
  cases h with
  | @sized k ds hds hpos =>
    have hlen : ds.length ≤ Decimal.digitLimit := runs ds (List.infix_append_right ..) hds.2
    rw [readScalar_keyword_append k hds, number_eq_ok_iff.mpr ⟨hds, hlen, rfl⟩, Outcome.ok_bind,
      if_neg (Nat.ne_of_gt hpos), readWidth_eq (Nat.ne_of_gt hpos)]
  | _ => rfl

/-- What is read as a scalar is a word. -/
theorem word_of_readScalar {s : Text} {t : AbiType} (h : readScalar s = .ok t) : Word s t := by
  unfold readScalar at h
  split at h
  · next t' hlookup =>
    cases h
    exact word_of_keywords_lookup hlookup
  · split at h
    · next k suffix hk =>
      obtain rfl := eq_of_sized? hk
      unfold readSized at h
      split at h
      · cases h
      · next c rest =>
        split at h
        · obtain ⟨width, hwidth, h⟩ := Outcome.bind_eq_ok_iff.mp h
          obtain ⟨hds, -, rfl⟩ := number_eq_ok_iff.mp hwidth
          split at h
          · cases h
          · next hpos =>
            rw [readWidth_eq hpos] at h
            cases h
            exact .sized k hds (Nat.pos_of_ne_zero hpos)
        · cases h
    · cases h

/-- **A scalar is refused for its spelling, or for a width of too many digits.** -/
theorem readScalar_eq_error {name : Text} {e : Failure} (h : readScalar name = .error e) :
    (∃ f, e = .refused (.name name f)) ∨
      ∃ k ds, name = Sized.keyword k ++ ds ∧ number ds name = .error e := by
  unfold readScalar at h
  split at h
  · cases h
  · next hlookup =>
    split at h
    · next k suffix hk =>
      obtain rfl := eq_of_sized? hk
      unfold readSized at h
      split at h
      · -- A keyword alone is a word, and was looked up.
        have hnone : ∀ k, keywords.lookup (Sized.keyword k ++ []) ≠ none := by
          rintro (_ | _ | _) <;> decide
        exact absurd hlookup (hnone k)
      · next c rest =>
        split at h
        · rcases Outcome.bind_eq_error_iff.mp h with hnum | ⟨width, -, h⟩
          · exact Or.inr ⟨k, c :: rest, rfl, hnum⟩
          · split at h
            · exact Or.inl ⟨_, (Except.error.inj h).symm⟩
            · next hpos =>
              rw [readWidth_eq hpos] at h
              cases h
        · exact Or.inl ⟨_, (Except.error.inj h).symm⟩
    · exact Or.inl ⟨_, (Except.error.inj h).symm⟩

/-! ## 3. Soundness -/

/-- A name has the type that its end says, if the parts of the name have theirs. -/
theorem derives_of_readEnd {inner piece : Text → Except Failure AbiType} {name : Text}
    {t : AbiType}
    (hinner : ∀ before body u, ending name = .suffix before body → inner before = .ok u →
      Derives before u)
    (hpiece : ∀ p u, piece p = .ok u → Derives p u) (h : readEnd inner piece name = .ok t) :
    Derives name t := by
  unfold readEnd at h
  split at h
  · exact .word (word_of_readScalar h)
  · cases h
  · next body hend =>
    obtain ⟨o, c, hp, rfl, -⟩ := ending_eq_group_iff.mp hend
    split at h
    · cases h
    · next ps hps =>
      obtain ⟨ts, hts, rfl⟩ := Outcome.map_eq_ok_iff.mp h
      obtain ⟨elems, rfl, rfl, helem⟩ := Outcome.mapM_eq_ok_iff_pairs.mp hts
      obtain ⟨hjoin, hne⟩ := join_of_split (pieces_eq_ok_iff.mp hps).1
      rw [← hjoin]
      exact .tuple hp (fun hnil => hne (by rw [hnil, List.map_nil]))
        fun e he => hpiece _ _ (helem e he)
  · next before body hend =>
    obtain ⟨dim, hdim, h⟩ := Outcome.bind_eq_ok_iff.mp h
    obtain ⟨u, hu, rfl⟩ := Outcome.map_eq_ok_iff.mp h
    have hder := hinner before body u hend hu
    obtain ⟨-, -, rfl⟩ := ending_eq_suffix_iff.mp hend
    rcases dimension_eq_ok_iff.mp hdim with ⟨rfl, rfl⟩ | ⟨n, hn, rfl⟩
    · exact .array hder
    · obtain ⟨hds, -, rfl⟩ := number_eq_ok_iff.mp hn
      rw [show before ++ CodePoint.ofChar '[' :: (body ++ [CodePoint.ofChar ']']) =
        before ++ ("[" : Text) ++ body ++ ("]" : Text) by simp [Text.ofString]]
      exact .fixedArray hder hds
  · cases h

/-- **What is read is derived**, whatever the ceiling and the budget. -/
theorem derives_of_readWithin {ceiling : Ceiling} {budget : Nat} {name : Text} {depth : Int}
    {t : AbiType} (h : readWithin ceiling budget name depth = .ok t) : Derives name t := by
  induction budget, name, depth using reading_induction generalizing t with
  | zero name depth => cases h
  | succ budget name depth hinner hpiece =>
    rw [readWithin_succ] at h
    obtain ⟨_, -, h⟩ := Outcome.bind_eq_ok_iff.mp h
    exact derives_of_readEnd (fun before body u hend hu => hinner before body hend _ hu)
      (fun p u hu => hpiece p _ hu) h

/-! ## 4. Completeness -/

/-- Without a ceiling no depth is checked. -/
theorem readWithin_unlimited (budget : Nat) (name : Text) (depth : Int) :
    readWithin .unlimited (budget + 1) name depth =
      readEnd (fun inner => readWithin .unlimited (budget + 1) inner (depth + 1))
        (fun piece => readWithin .unlimited budget piece (depth + 1)) name := by
  rw [readWithin_succ]
  rfl

/-- **What is derived is read**, if its runs of digits fit and its tuples do not nest too deep. -/
theorem readWithin_of_derives {s : Text} {t : AbiType} (h : Derives s t) (runs : Text.RunsFit s)
    {budget : Nat} (hdepth : t.bracketDepth ≤ budget) (depth : Int) :
    readWithin .unlimited (budget + 1) s depth = .ok t := by
  induction h generalizing budget depth with
  | word h =>
    rw [readWithin_unlimited, readEnd, ending_word h]
    exact readScalar_of_word h runs
  | @array s t h ih =>
    have hread := ih (runs.part (List.infix_append_left ..)) hdepth (depth + 1)
    rw [readWithin_unlimited, readEnd, ending_array h.ne_nil]
    simp only [hread]
    rfl
  | @fixedArray s ds t h hds ih =>
    rw [readWithin_unlimited, readEnd, ending_fixedArray h.ne_nil hds]
    rw [List.append_assoc, List.append_assoc] at runs
    have hread := ih (runs.part (List.infix_append_left ..)) hdepth (depth + 1)
    have hlen : ds.length ≤ Decimal.digitLimit := by
      refine runs ds ?_ hds.2
      exact List.infix_append_of_infix_right
        (List.infix_append_of_infix_right (List.infix_append_left ..))
    have hdim : ∀ name, dimension ds name = .ok (some (Decimal.value ds)) := fun name =>
      dimension_eq_ok_iff.mpr (Or.inr ⟨_, number_eq_ok_iff.mpr ⟨hds, hlen, rfl⟩, rfl⟩)
    simp only [hread, hdim]
    rfl
  | @tuple o c elems hp hne h ih =>
    rw [AbiType.bracketDepth_tuple (mt List.map_eq_nil_iff.mp hne)] at hdepth
    obtain ⟨budget, rfl⟩ : ∃ b, budget = b + 1 := ⟨budget - 1, by omega⟩
    have hread : (elems.map (·.1)).mapM
        (fun piece => readWithin .unlimited (budget + 1) piece (depth + 1)) =
          .ok (elems.map (·.2)) := by
      refine Outcome.mapM_eq_ok_iff_pairs.mpr ⟨elems, rfl, rfl, fun e he => ?_⟩
      refine ih e he (runs.part ?_) ?_ _
      · exact List.infix_cons (List.infix_append_of_infix_left
          (Text.infix_join "," (List.mem_map_of_mem he)))
      · exact foldr_max_le_iff.mp (Nat.le_of_succ_le_succ hdepth) _
          (List.mem_map_of_mem (List.mem_map_of_mem he))
    rw [readWithin_unlimited, readEnd, ending_tuple hp h]
    simp only [pieces_elems hne h, hread]
    rfl

/-! ## 5. Faults -/

/-- The ways in which the reading of a name may fail on a budget. -/
inductive Fault (ceiling : Ceiling) (budget : Nat) (name : Text) : Failure → Prop
  /-- A part of the name follows no rule. -/
  | spelling {s : Text} (f : NameFault) (hs : s <:+: name) :
    Fault ceiling budget name (.refused (.name s f))
  /-- What should be a width or a length is no run of digits. -/
  | number {ds s : Text} (hds : ds <:+: s) (hs : s <:+: name) (h : ¬ Decimal.IsNumeral ds) :
    Fault ceiling budget name (.refused (.number ds s))
  /-- A width or a length has too many digits. -/
  | long {ds : Text} (hds : ds <:+: name) (h : Decimal.IsNumeral ds)
    (hlen : Decimal.digitLimit < ds.length) : Fault ceiling budget name (.longNumber ds.length)
  /-- The ceiling is passed, or is none. -/
  | ceiling (depth : Int) {e : Failure} (h : ceiling.check depth = .error e) :
    Fault ceiling budget name e
  /-- The tuples nest deeper than the budget. -/
  | nesting (h : budget ≤ tupleNesting name) :
    Fault ceiling budget name (.refused (.tooDeep ceiling))

namespace Fault

variable {ceiling : Ceiling} {budget : Nat} {name : Text} {e : Failure}

theorem of_number {ds s : Text} (h : TypeName.number ds s = .error e) (hds : ds <:+: s)
    (hs : s <:+: name) : Fault ceiling budget name e := by
  rcases number_eq_error_iff.mp h with ⟨hno, rfl⟩ | ⟨hnum, hlen, rfl⟩
  · exact .number hds hs hno
  · exact .long (hds.trans hs) hnum hlen

/-- A fault of a part is a fault of the whole. -/
theorem of_part {budget' : Nat} {s : Text} (h : Fault ceiling budget' s e) (hs : s <:+: name)
    (hnest : budget' ≤ tupleNesting s → budget ≤ tupleNesting name) :
    Fault ceiling budget name e := by
  cases h with
  | spelling f hs' => exact .spelling f (hs'.trans hs)
  | number hds hs' hno => exact .number hds (hs'.trans hs) hno
  | long hds hnum hlen => exact .long (hds.trans hs) hnum hlen
  | ceiling depth hcheck => exact .ceiling depth hcheck
  | nesting hn => exact .nesting (hnest hn)

theorem of_readScalar (h : readScalar name = .error e) : Fault ceiling budget name e := by
  rcases readScalar_eq_error h with ⟨f, rfl⟩ | ⟨k, ds, hname, hnum⟩
  · exact .spelling f List.infix_rfl
  · refine of_number hnum ?_ List.infix_rfl
    rw [hname]
    exact List.infix_append_right ..

/-- A name fails to be read by its end only if its spelling is at fault, or a part of it is. -/
theorem of_endFails {inner piece : Text → Except Failure AbiType}
    (hinner : ∀ before body e, ending name = .suffix before body → inner before = .error e →
      Fault ceiling (budget + 1) before e)
    (hpiece : ∀ p e, piece p = .error e → Fault ceiling budget p e)
    (h : EndFails inner piece name e) : Fault ceiling (budget + 1) name e := by
  cases h with
  | spelling f => exact .spelling f List.infix_rfl
  | scalar _ h => exact of_readScalar h
  | @element _ body p before after hend hpieces _ hp =>
    have hmem : p ∈ before ++ p :: after := List.mem_append_right _ (List.mem_cons_self ..)
    have hsplit := (pieces_eq_ok_iff.mp hpieces).1
    refine (hpiece p e hp).of_part (infix_piece hend hsplit hmem) fun hn => ?_
    rw [tupleNesting_of_group hend hsplit]
    have hmax := foldr_max_le_iff.mp (Nat.le_refl _) (tupleNesting p) (List.mem_map_of_mem hmem)
    omega
  | length hend hdim =>
    exact of_number (dimension_eq_error_iff.mp hdim).2 (infix_body hend) List.infix_rfl
  | @before _ before body dim hend _ h =>
    refine (hinner before body e hend h).of_part (infix_before hend) fun hn => ?_
    rwa [tupleNesting_of_suffix hend]

end Fault

/-- **Every failure to read a name is one of its faults.** -/
theorem fault_of_readWithin {ceiling : Ceiling} {budget : Nat} {name : Text} {depth : Int}
    {e : Failure} (h : readWithin ceiling budget name depth = .error e) :
    Fault ceiling budget name e := by
  induction budget, name, depth using reading_induction generalizing e with
  | zero name depth =>
    cases h
    exact .nesting (Nat.zero_le _)
  | succ budget name depth hinner hpiece =>
    rw [readWithin_succ] at h
    rcases Outcome.bind_eq_error_iff.mp h with hcheck | ⟨_, -, h⟩
    · exact .ceiling depth hcheck
    · exact .of_endFails (fun before body e hend he => hinner before body hend _ he)
        (fun p e he => hpiece p _ he) (endFails_of_readEnd h)

/-! ## 6. The reader and its grammar -/

/-- **The reader accepts exactly the grammar.**  A name within the bounds of the reader, however
many tuples in one another it takes, is read as a type exactly if the grammar derives it for that
type, and any other is refused as no name or for a malformed number. -/
theorem read_spec {name : Text} (runs : Text.RunsFit name) {limit : Nat}
    (nesting : tupleNesting name ≤ limit) :
    (∀ t, read .unlimited name limit = .ok t ↔ Derives name t) ∧
      ((∀ t, ¬ Derives name t) →
        (∃ s f, read .unlimited name limit = .error (.refused (.name s f))) ∨
          ∃ ds s, read .unlimited name limit = .error (.refused (.number ds s))) := by
  have hread : ∀ t, read .unlimited name limit = .ok t ↔ Derives name t := by
    refine fun t => ⟨derives_of_readWithin, fun h => readWithin_of_derives h runs ?_ 0⟩
    rwa [← tupleNesting_of_derives h]
  refine ⟨hread, fun hno => ?_⟩
  cases h : read .unlimited name limit with
  | ok t => exact absurd ((hread t).mp h) (hno t)
  | error e =>
    cases fault_of_readWithin h with
    | @spelling s f _ => exact Or.inl ⟨s, f, rfl⟩
    | @number ds s _ _ _ => exact Or.inr ⟨ds, s, rfl⟩
    | @long ds hds hnum hlen => exact absurd (runs ds hds hnum.2) (Nat.not_le.mpr hlen)
    | ceiling depth hcheck => cases hcheck
    | nesting hn => exact absurd (Nat.lt_of_succ_le hn) (Nat.not_lt.mpr nesting)

/-- A tuple in braces around one in brackets, with a zero in front of a width; and a bracket that
closes nothing. -/
theorem read_spec_braces :
    read .unlimited "\x7buint08,[bool]\x7d[]" =
        .ok (.array (.tuple [.leaf (.uint 8), .tuple [.leaf .bool]])) ∧
      ((∃ s f, read .unlimited "bool]" = .error (.refused (.name s f))) ∨
        ∃ ds s, read .unlimited "bool]" = .error (.refused (.number ds s))) := by
  have hnest : ∀ s : Text, s.length ≤ bracketLimit → tupleNesting s ≤ bracketLimit := by
    intro s hs
    have hle := tupleNesting_le_length s
    omega
  have hwidth : Derives "uint08" (.leaf (.uint 8)) :=
    .word (@Word.sized .uint "08" (by decide) (by decide))
  have hbool : Derives "[bool]" (.tuple [.leaf .bool]) := by
    refine @Derives.tuple '[' ']' [("bool", .leaf .bool)] (by decide) (by simp) fun e he => ?_
    obtain rfl := List.mem_singleton.mp he
    exact .word .bool
  have hpair : Derives "\x7buint08,[bool]\x7d"
      (.tuple [.leaf (.uint 8), .tuple [.leaf .bool]]) := by
    refine @Derives.tuple '{' '}' [("uint08", .leaf (.uint 8)), ("[bool]", .tuple [.leaf .bool])]
      (by decide) (by simp) fun e he => ?_
    simp only [List.mem_cons, List.not_mem_nil, or_false] at he
    rcases he with rfl | rfl
    · exact hwidth
    · exact hbool
  have hno : ∀ t, ¬ Derives "bool]" t := by
    intro t ht
    have hbal : level 0 "bool]" = some 0 := ht.element.balanced
    revert hbal
    decide
  exact ⟨((read_spec (Text.runsFit_of_length (by decide)) (hnest _ (by decide))).1 _).mpr
      (.array hpair),
    (read_spec (Text.runsFit_of_length (by decide)) (hnest _ (by decide))).2 hno⟩

end ContractAbi.TypeName
