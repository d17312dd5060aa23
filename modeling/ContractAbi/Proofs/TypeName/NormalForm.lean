import Mathlib.Data.List.SplitBy
import ContractAbi.Proofs.Text.LeadingZeros
import ContractAbi.Proofs.TypeName.Unambiguity

/-!
# Normal forms of names

One type has many names: a tuple may stand in braces, numbers may have zeros in front, and two words
stand for the same with a width behind them.  These liberties can be taken away without reading the
name, by a pass over its runs of letters and of digits (`normalForm`).

`canonical_eq_normalForm` says that this is what reading a name and writing its type anew comes to.
The one follows the runs of a text, the other the parts of a type; they meet in the fact that a
bracket or a comma ends every run (`normalForm_append_mark`), so that the pass goes through the
grammar part by part.

What is read has numbers that fit (`numbersFit_of_readWithin`), so that only the room counts where
its type is written anew (`canonicalWithin_of_read`).
-/

namespace ContractAbi.TypeName

/-! ## 1. Runs -/

/-- The letters of words. -/
def isLetter (c : CodePoint) : Bool :=
  (65 ≤ c.val && c.val ≤ 90) || (97 ≤ c.val && c.val ≤ 122)

/-- No digit is a letter. -/
theorem isLetter_of_isDigit {c : CodePoint} (h : Decimal.isDigit c = true) :
    isLetter c = false := by
  simp only [Decimal.isDigit, Bool.and_eq_true, decide_eq_true_eq] at h
  simp only [isLetter, Bool.or_eq_false_iff, Bool.and_eq_false_iff, decide_eq_false_iff_not]
  omega

/-- Two code points that stand in one run if they stand side by side. -/
def sameRun (c d : CodePoint) : Bool :=
  (isLetter c && isLetter d) || (Decimal.isDigit c && Decimal.isDigit d)

/-- The longest runs of letters and of digits.  Whatever is neither stands alone. -/
def runs (name : Text) : List Text := name.splitBy sameRun

/-- A code point that is neither letter nor digit, and so ends every run. -/
def isMark (c : CodePoint) : Bool := !isLetter c && !Decimal.isDigit c

theorem isMark_iff {c : CodePoint} :
    isMark c = true ↔ isLetter c = false ∧ Decimal.isDigit c = false := by
  simp [isMark]

theorem runs_append_mark {c : CodePoint} (hc : isMark c = true) (s t : Text) :
    runs (s ++ c :: t) = runs s ++ [c] :: runs t := by
  obtain ⟨hl, hd⟩ := isMark_iff.mp hc
  have hbefore : ∀ d, sameRun d c = false := fun d => by simp [sameRun, hl, hd]
  have hbehind : ∀ d, sameRun c d = false := fun d => by simp [sameRun, hl, hd]
  have hmark : runs (c :: t) = [c] :: runs t :=
    List.splitBy_append (l := [c]) (m := t) fun x hx y _ => by
      obtain rfl : c = x := by simpa using hx
      exact hbehind y
  rw [← hmark]
  exact List.splitBy_append_cons t fun x _ => hbefore x

/-- A text of which all neighbours belong together is one run. -/
theorem runs_of_sameRun {s : Text} (hne : s ≠ []) (h : ∀ c ∈ s, ∀ d ∈ s, sameRun c d = true) :
    runs s = [s] := by
  exact List.splitBy_of_isChain hne (List.pairwise_of_forall_mem_list h).isChain

/-! ## 2. Normal forms -/

/-- A square bracket in the place of a brace. -/
def square (c : CodePoint) : CodePoint :=
  if c = CodePoint.ofChar '{' then CodePoint.ofChar '['
  else if c = CodePoint.ofChar '}' then CodePoint.ofChar ']'
  else c

/-- Whether the first of some runs is one of digits. -/
def beginsWithDigit : List Text → Bool
  | (c :: _) :: _ => Decimal.isDigit c
  | _ => false

/-- A run as it is written anew, in front of some others: a number has no zeros in front, and a word
that takes a width has one. -/
def renew (run : Text) (rest : List Text) : Text :=
  if run = ("int" : Text) ∨ run = ("uint" : Text) then
    if beginsWithDigit rest then run else run ++ ("256" : Text)
  else if run.all Decimal.isDigit then Decimal.trim run
  else run

/-- Runs as they are written anew. -/
def renewAll : List Text → Text
  | [] => []
  | run :: rest => renew run rest ++ renewAll rest

/-- The normal form of a name, from its runs. -/
def normalForm (name : Text) : Text := renewAll (runs (name.map square))

/-! ## 3. Normal forms of parts -/

theorem isMark_of_mem_pairs {o c : CodePoint} (h : (o, c) ∈ bracketPairs) :
    isMark o = true ∧ isMark c = true := by
  have hall : ∀ p ∈ bracketPairs, isMark p.1 = true ∧ isMark p.2 = true := by decide
  exact hall (o, c) h

/-- Brackets of either shape become square ones. -/
theorem square_of_mem_pairs {o c : CodePoint} (h : (o, c) ∈ bracketPairs) :
    square o = CodePoint.ofChar '[' ∧ square c = CodePoint.ofChar ']' := by
  have hall : ∀ p ∈ bracketPairs,
      square p.1 = CodePoint.ofChar '[' ∧ square p.2 = CodePoint.ofChar ']' := by decide
  exact hall (o, c) h

theorem square_of_not_isMark {c : CodePoint} (h : isMark c = false) : square c = c := by
  have hne : ∀ d : Char, isMark (CodePoint.ofChar d) = true → c ≠ CodePoint.ofChar d := by
    rintro d hd rfl
    rw [hd] at h
    cases h
  rw [square, if_neg (hne '{' rfl), if_neg (hne '}' rfl)]

theorem isMark_square {c : CodePoint} (h : isMark c = true) : isMark (square c) = true := by
  unfold square
  split
  · rfl
  · split
    · rfl
    · exact h

/-- A run that is no word takes no width. -/
theorem renew_of_not_isLetter {run : Text} {c : CodePoint} (hc : c ∈ run)
    (hl : isLetter c = false) (rest : List Text) :
    renew run rest = if run.all Decimal.isDigit then Decimal.trim run else run := by
  have hword : ∀ w : Text, (∀ d ∈ w, isLetter d = true) → run ≠ w := by
    rintro w hw rfl
    rw [hw c hc] at hl
    cases hl
  have hint : run ≠ ("int" : Text) := hword _ (by decide)
  have huint : run ≠ ("uint" : Text) := hword _ (by decide)
  rw [renew, if_neg (by simp [hint, huint])]

/-- What stands behind a mark says nothing about the runs in front of it. -/
theorem renewAll_append_mark {c : CodePoint} (hc : isMark c = true) (rs ts : List Text) :
    renewAll (rs ++ [c] :: ts) = renewAll rs ++ c :: renewAll ts := by
  obtain ⟨hl, hd⟩ := isMark_iff.mp hc
  induction rs with
  | nil =>
    have hmark : renew [c] ts = [c] := by
      rw [renew_of_not_isLetter (List.mem_singleton_self c) hl, if_neg (by simp [hd])]
    change renew [c] ts ++ renewAll ts = c :: renewAll ts
    rw [hmark]
    rfl
  | cons r rs ih =>
    have hbegins : beginsWithDigit (rs ++ [c] :: ts) = beginsWithDigit rs := by
      cases rs with
      | nil => exact hd
      | cons r' rs => cases r' <;> rfl
    have hrenew : renew r (rs ++ [c] :: ts) = renew r rs := by
      rw [renew, renew, hbegins]
    rw [List.cons_append, renewAll, renewAll, ih, hrenew, List.append_assoc]

/-- **A mark stands between the normal forms of what is on its two sides.** -/
theorem normalForm_append_mark {c : CodePoint} (hc : isMark c = true) (s t : Text) :
    normalForm (s ++ c :: t) = normalForm s ++ square c :: normalForm t := by
  unfold normalForm
  rw [List.map_append, List.map_cons, runs_append_mark (isMark_square hc),
    renewAll_append_mark (isMark_square hc)]

theorem normalForm_nil : normalForm [] = [] := rfl

/-- Elements are put into normal form one by one. -/
theorem normalForm_join (ps : List Text) :
    normalForm (Text.join "," ps) = Text.join "," (ps.map normalForm) := by
  induction ps with
  | nil => rfl
  | cons p ps ih =>
    cases ps with
    | nil => rfl
    | cons q qs =>
      have hcomma := normalForm_append_mark (c := comma) rfl p (Text.join "," (q :: qs))
      rw [ih] at hcomma
      rw [Text.join_cons_cons, List.append_assoc, List.map_cons, List.map_cons,
        Text.join_cons_cons, List.append_assoc, ← List.map_cons]
      exact hcomma

/-! ## 4. Normal forms of words -/

theorem map_square {s : Text} (h : ∀ c ∈ s, isMark c = false) : s.map square = s :=
  (List.map_congr_left fun c hc => square_of_not_isMark (h c hc)).trans (List.map_id s)

theorem isMark_of_isDigit {c : CodePoint} (h : Decimal.isDigit c = true) : isMark c = false := by
  simp [isMark, h]

theorem runs_numeral {ds : Text} (h : Decimal.IsNumeral ds) : runs ds = [ds] :=
  runs_of_sameRun h.1 fun c hc d hd => by simp [sameRun, h.2 c hc, h.2 d hd]

theorem renew_numeral {ds : Text} (h : Decimal.IsNumeral ds) (rest : List Text) :
    renew ds rest = Decimal.trim ds := by
  obtain ⟨c, hc⟩ := List.exists_mem_of_ne_nil ds h.1
  rw [renew_of_not_isLetter hc (isLetter_of_isDigit (h.2 c hc)),
    if_pos (List.all_eq_true.mpr h.2)]

theorem normalForm_numeral {ds : Text} (h : Decimal.IsNumeral ds) :
    normalForm ds = Decimal.trim ds := by
  rw [normalForm, map_square fun c hc => isMark_of_isDigit (h.2 c hc), runs_numeral h, renewAll,
    renew_numeral h, renewAll, List.append_nil]

/-- A word that has its width keeps it, without zeros in front. -/
theorem normalForm_sized (k : Sized) {ds : Text} (h : Decimal.IsNumeral ds) :
    normalForm (k.keyword ++ ds) = k.keyword ++ Decimal.trim ds := by
  have hletters : ∀ c ∈ k.keyword, isLetter c = true ∧ Decimal.isDigit c = false ∧
      isMark c = false := by
    cases k <;> decide
  have hsquare : (k.keyword ++ ds).map square = k.keyword ++ ds := by
    refine map_square fun c hc => ?_
    rcases List.mem_append.mp hc with hc | hc
    · exact (hletters c hc).2.2
    · exact isMark_of_isDigit (h.2 c hc)
  have hkeyword : runs k.keyword = [k.keyword] := by
    cases k <;> decide
  have hruns : runs (k.keyword ++ ds) = [k.keyword, ds] := by
    have hsplit := List.splitBy_append (r := sameRun) (l := k.keyword) (m := ds)
      fun c hc d hd => by
        have hletter := isLetter_of_isDigit (h.2 d (List.mem_of_mem_head? hd))
        have hdigit := (hletters c (List.mem_of_mem_getLast? hc)).2.1
        simp [sameRun, hletter, hdigit]
    exact hsplit.trans (by rw [← runs, ← runs, hkeyword, runs_numeral h]; rfl)
  obtain ⟨d, ds', rfl⟩ := List.exists_cons_of_ne_nil h.1
  have hd : Decimal.isDigit d = true := h.2 d (List.mem_cons_self ..)
  have hrenew : renew k.keyword [d :: ds'] = k.keyword := by
    have hbegins : beginsWithDigit [d :: ds'] = true := hd
    cases k with
    | fixedBytes => rfl
    | _ => rw [renew, if_pos (by decide), if_pos hbegins]
  rw [normalForm, hsquare, hruns, renewAll, hrenew, renewAll, renew_numeral h, renewAll,
    List.append_nil]

/-- **The normal form of a word is the name of its type.** -/
theorem normalForm_word {s : Text} {t : AbiType} (h : Word s t) : normalForm s = t.canonical := by
  cases h with
  | @sized k ds hds hpos =>
    rw [normalForm_sized k hds, ← Decimal.render_value hds]
    cases k <;> rfl
  | _ => decide +kernel

/-! ## 5. Normal forms of names -/

/-- An array suffix is put into normal form by itself. -/
theorem normalForm_suffix (s body : Text) :
    normalForm (s ++ CodePoint.ofChar '[' :: (body ++ [CodePoint.ofChar ']'])) =
      normalForm s ++ ("[" : Text) ++ normalForm body ++ ("]" : Text) := by
  rw [normalForm_append_mark rfl, normalForm_append_mark rfl, List.append_assoc, List.append_assoc]
  rfl

/-- A group is put into normal form as its body is, between square brackets. -/
theorem normalForm_group {o c : CodePoint} (hp : (o, c) ∈ bracketPairs) (body : Text) :
    normalForm (o :: (body ++ [c])) = ("[" : Text) ++ normalForm body ++ ("]" : Text) := by
  have hgroup := normalForm_append_mark (isMark_of_mem_pairs hp).1 [] (body ++ [c])
  rw [normalForm_append_mark (isMark_of_mem_pairs hp).2, (square_of_mem_pairs hp).1,
    (square_of_mem_pairs hp).2] at hgroup
  rw [List.append_assoc]
  exact hgroup

/-- **The normal form of a derived name is the canonical name of its type.** -/
theorem canonical_eq_normalForm {s : Text} {t : AbiType} (h : Derives s t) :
    t.canonical = normalForm s := by
  induction h with
  | word h => exact (normalForm_word h).symm
  | @array s t _ ih =>
    have hsuffix := normalForm_suffix s []
    rw [normalForm_nil, List.append_nil, List.append_assoc] at hsuffix
    rw [AbiType.canonical, ih]
    exact hsuffix.symm
  | @fixedArray s ds t _ hds ih =>
    have hsuffix := normalForm_suffix s ds
    rw [normalForm_numeral hds, List.append_assoc, List.append_assoc] at hsuffix
    rw [AbiType.canonical, ih, AbiType.suffix, Decimal.render_value hds, List.append_assoc,
      List.append_assoc, List.append_assoc]
    exact hsuffix.symm
  | @tuple o c elems hp hne _ ih =>
    have hnames : (elems.map (·.1)).map normalForm = (elems.map (·.2)).map AbiType.canonical := by
      rw [List.map_map, List.map_map]
      exact List.map_congr_left fun e he => (ih e he).symm
    obtain ⟨t, ts, hts⟩ := List.exists_cons_of_ne_nil (mt List.map_eq_nil_iff.mp hne)
    rw [normalForm_group hp, normalForm_join, hnames, hts, AbiType.canonical,
      AbiType.canonicals_eq, List.map_cons]

/-- The zeros of a length go, and so does the zero of a width that is written. -/
example : normalForm "\x7bint,uint016\x7d[00][]" = "[int256,uint16][0][]" := by decide +kernel

/-! ## 6. Numbers of what is read -/

theorem length_trim_le {ds : Text} (h : ds ≠ []) : (Decimal.trim ds).length ≤ ds.length := by
  unfold Decimal.trim
  split
  · exact List.length_pos_of_ne_nil h
  · next c rest hdrop =>
    rw [← hdrop]
    exact (List.dropWhile_suffix _).length_le

/-- A number that is read is written with no more digits than it was read from. -/
theorem fits_of_number {ds name : Text} {n : Nat} (h : number ds name = .ok n) :
    Decimal.Fits n := by
  obtain ⟨hds, hlen, rfl⟩ := number_eq_ok_iff.mp h
  rw [Decimal.Fits, Decimal.render_value hds]
  exact Nat.le_trans (length_trim_le hds.1) hlen

theorem numbersFit_of_readScalar {name : Text} {t : AbiType} (h : readScalar name = .ok t) :
    t.NumbersFit := by
  have hkeywords : ∀ p ∈ keywords, p.2.NumbersFit := by decide +kernel
  unfold readScalar at h
  split at h
  · next t' hlookup =>
    cases h
    obtain ⟨before, after, heq, -⟩ := List.lookup_eq_some_iff.mp hlookup
    exact hkeywords (name, t) (heq ▸ List.mem_append_right _ (List.mem_cons_self ..))
  · split at h
    · next k suffix _ =>
      unfold readSized at h
      split at h
      · cases h
      · split at h
        · obtain ⟨width, hwidth, h⟩ := Outcome.bind_eq_ok_iff.mp h
          split at h
          · cases h
          · next hpos =>
            rw [readWidth_eq hpos] at h
            cases h
            have hfits : ∀ n ∈ [width], Decimal.Fits n := by simpa using fits_of_number hwidth
            cases k <;> exact hfits
        · cases h
    · cases h

/-- A name has a type whose numbers fit, if the parts of the name have. -/
theorem numbersFit_of_readEnd {inner piece : Text → Except Failure AbiType} {name : Text}
    {t : AbiType}
    (hinner : ∀ before body u, ending name = .suffix before body → inner before = .ok u →
      u.NumbersFit)
    (hpiece : ∀ p u, piece p = .ok u → u.NumbersFit) (h : readEnd inner piece name = .ok t) :
    t.NumbersFit := by
  unfold readEnd at h
  split at h
  · exact numbersFit_of_readScalar h
  · cases h
  · split at h
    · cases h
    · obtain ⟨ts, hts, rfl⟩ := Outcome.map_eq_ok_iff.mp h
      refine AbiType.numbersFit_tuple.mpr fun u hu => ?_
      obtain ⟨p, -, hp⟩ := (Outcome.mem_iff_of_mapM_eq_ok hts).mp hu
      exact hpiece p u hp
  · next before body hend =>
    obtain ⟨dim, hdim, h⟩ := Outcome.bind_eq_ok_iff.mp h
    obtain ⟨u, hu, rfl⟩ := Outcome.map_eq_ok_iff.mp h
    have hfit := hinner before body u hend hu
    rcases dimension_eq_ok_iff.mp hdim with ⟨-, rfl⟩ | ⟨n, hn, rfl⟩
    · exact AbiType.numbersFit_array.mpr hfit
    · exact AbiType.numbersFit_fixedArray.mpr ⟨fits_of_number hn, hfit⟩
  · cases h

/-- **The numbers of a type that is read fit**, whatever the ceiling and the budget. -/
theorem numbersFit_of_readWithin {ceiling : Ceiling} {budget : Nat} {name : Text} {depth : Int}
    {t : AbiType} (h : readWithin ceiling budget name depth = .ok t) : t.NumbersFit := by
  induction budget, name, depth using reading_induction generalizing t with
  | zero name depth => cases h
  | succ budget name depth hinner hpiece =>
    rw [readWithin_succ] at h
    obtain ⟨_, -, h⟩ := Outcome.bind_eq_ok_iff.mp h
    exact numbersFit_of_readEnd (fun before body u hend hu => hinner before body hend _ hu)
      (fun p u hu => hpiece p _ hu) h

/-! ## 7. Normal forms of what is read -/

/-- **Reading a name and writing its type anew is a pass over the runs of the name**, where there is
room for the writing; where there is none, nothing is written.  Two names are read as one type
exactly if they have one normal form. -/
theorem canonicalWithin_of_read {s : Text} {t : AbiType} {limit : Nat}
    (h : read .unlimited s limit = .ok t) :
    (∀ room, (t.canonicalCalls ≤ room → t.canonicalWithin room = .ok (normalForm s)) ∧
        (room < t.canonicalCalls → t.canonicalWithin room = .error .nesting)) ∧
      ∀ s' t' limit', read .unlimited s' limit' = .ok t' →
        (t = t' ↔ normalForm s = normalForm s') := by
  have hder := derives_of_readWithin h
  refine ⟨fun room => ?_, fun s' t' limit' h' => ?_⟩
  · rw [AbiType.canonicalWithin_of_fits (numbersFit_of_readWithin h), canonical_eq_normalForm hder]
    exact ⟨fun h => if_pos h, fun h => if_neg (Nat.not_le.mpr h)⟩
  · have hder' := derives_of_readWithin h'
    rw [← canonical_eq_normalForm hder, ← canonical_eq_normalForm hder']
    exact ⟨congrArg _, canonical_injective (wellFormed_of_derives hder)
      (wellFormed_of_derives hder')⟩

/-- A tuple in braces, with zeros in front of a width and a length, and with a width left out. -/
theorem canonicalWithin_of_read_braces :
    let s : Text := "\x7buint008,int\x7d[03]"
    let t : AbiType := .fixedArray (.tuple [.leaf (.uint 8), .leaf (.int 256)]) 3
    read .unlimited s = .ok t ∧ t.canonicalWithin 6 = .ok (normalForm s) ∧
      t.canonicalWithin 5 = .error .nesting ∧ normalForm s = normalForm "[uint8,int256][3]" := by
  intro s t
  have hread : read .unlimited s = .ok t := Outcome.toOption_eq_some_iff.mp (by decide +kernel)
  have hread' : read .unlimited "[uint8,int256][3]" = .ok t :=
    Outcome.toOption_eq_some_iff.mp (by decide +kernel)
  obtain ⟨hcanonical, hsame⟩ := canonicalWithin_of_read hread
  exact ⟨hread, (hcanonical 6).1 (by decide), (hcanonical 5).2 (by decide),
    (hsame _ t _ hread').mp rfl⟩

/-- A name of many array suffixes is read, but the type that it is read as has no canonical name. -/
theorem not_canonicalWithin_of_read_suffixes :
    let s : Text := ("bool" : Text) ++ (List.replicate 1200 ("[]" : Text)).flatten
    read .unlimited s = .ok AbiType.deepArray ∧
      AbiType.deepArray.canonicalWithin callRoom ≠ .ok (normalForm s) := by
  intro s
  have hname : AbiType.deepArray.canonical = s :=
    AbiType.canonical_wrap_replicate 1200 (.leaf .bool)
  refine ⟨?_, ?_⟩
  · rw [← hname]
    exact readAt_canonical AbiType.wellFormed_deepArray AbiType.numbersFit_deepArray
      (AbiType.bracketDepth_deepArray ▸ Nat.zero_le _) 0
  · rw [AbiType.canonicalWithin_deepArray]
    intro h
    cases h

end ContractAbi.TypeName
