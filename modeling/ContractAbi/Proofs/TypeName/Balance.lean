import ContractAbi.Proofs.Outcome
import ContractAbi.TypeName

/-!
# Balanced brackets

The reader finds its way through a name by two scans that count brackets, one from the right
(`scanBack`) and one from the left (`split`).  Neither looks at what stands between the brackets,
and neither tells the two shapes of brackets apart while it counts.  Here both scans are tied to one
count from the left, `level`:

* `scanBack_eq_ok_iff`: what the scan from the right returns is the shortest balanced text behind
  a bracket of the shape that was wanted.
* `split_join` and `join_of_split`: the scan from the left cuts a text exactly where pieces that are
  balanced and hide their commas were joined.

The pieces of a name are always balanced, which is why the two scans never get into each other's
way.
-/

namespace ContractAbi.TypeName

/-! ## 1. Brackets -/

/-- The bracket that opens a group and the one that closes it, of either shape. -/
def bracketPairs : List (CodePoint × CodePoint) :=
  [(CodePoint.ofChar '[', CodePoint.ofChar ']'), (CodePoint.ofChar '{', CodePoint.ofChar '}')]

theorem openerOf?_eq_some_iff {c o : CodePoint} : openerOf? c = some o ↔ (o, c) ∈ bracketPairs := by
  unfold openerOf? bracketPairs
  simp only [List.mem_cons, Prod.mk.injEq, List.not_mem_nil, or_false]
  split
  · next h =>
    subst h
    simp [eq_comm]
  · next h =>
    split
    · next h' =>
      subst h'
      simp [eq_comm]
    · next h' => simp [h, h']

theorem isCloser_of_mem_pairs {o c : CodePoint} (h : (o, c) ∈ bracketPairs) :
    isCloser c = true := by
  rw [isCloser, openerOf?_eq_some_iff.mpr h]
  rfl

theorem isOpener_of_mem_pairs {o c : CodePoint} (h : (o, c) ∈ bracketPairs) :
    isOpener o = true := by
  simp only [bracketPairs, List.mem_cons, Prod.mk.injEq, List.not_mem_nil, or_false] at h
  rcases h with ⟨rfl, -⟩ | ⟨rfl, -⟩ <;> rfl

/-- No bracket both opens and closes a group. -/
theorem isCloser_eq_false_of_isOpener {c : CodePoint} (h : isOpener c = true) :
    isCloser c = false := by
  simp only [isOpener, Bool.or_eq_true, decide_eq_true_eq] at h
  rcases h with rfl | rfl <;> rfl

/-- A code point that neither scan stops at. -/
def isPlain (c : CodePoint) : Bool := !isOpener c && !isCloser c && c ≠ CodePoint.ofChar ','

theorem isPlain_iff {c : CodePoint} :
    isPlain c = true ↔ isOpener c = false ∧ isCloser c = false ∧ c ≠ CodePoint.ofChar ',' := by
  simp [isPlain, and_assoc]

/-- What a code point is to the two scans. -/
theorem bracket_cases (c : CodePoint) :
    isOpener c = true ∨ (isOpener c = false ∧ isCloser c = true) ∨
      (isOpener c = false ∧ isCloser c = false) := by
  cases isOpener c <;> cases isCloser c <;> simp

/-! ## 2. The level -/

/-- The number of brackets that are open behind a code point, if `n` are open in front of it. -/
def turn (n : Nat) (c : CodePoint) : Option Nat :=
  if isOpener c then some (n + 1)
  else if isCloser c then
    match n with
    | 0 => none
    | n + 1 => some n
  else some n

/-- The number of brackets that are open behind a text, if `n` are open in front of it.  There is
none if a bracket closes what is not open. -/
def level (n : Nat) (t : Text) : Option Nat := t.foldlM turn n

/-- `Balanced t`: every bracket of `t` is closed in `t`, and none closes what is not open. -/
def Balanced (t : Text) : Prop := level 0 t = some 0

@[simp] theorem level_nil (n : Nat) : level n [] = some n := rfl

theorem level_cons_opener {n : Nat} {c : CodePoint} {t : Text} (h : isOpener c = true) :
    level n (c :: t) = level (n + 1) t := by
  simp [level, turn, h]

theorem level_cons_closer {n : Nat} {c : CodePoint} {t : Text} (h : isCloser c = true) :
    level (n + 1) (c :: t) = level n t := by
  have ho : isOpener c = false := by
    cases ho : isOpener c
    · rfl
    · exact absurd h (by simp [isCloser_eq_false_of_isOpener ho])
  simp [level, turn, ho, h]

theorem level_cons_stray {c : CodePoint} {t : Text} (ho : isOpener c = false)
    (hc : isCloser c = true) : level 0 (c :: t) = none := by
  simp [level, turn, ho, hc]

theorem level_cons_other {n : Nat} {c : CodePoint} {t : Text} (ho : isOpener c = false)
    (hc : isCloser c = false) : level n (c :: t) = level n t := by
  simp [level, turn, ho, hc]

/-- The level of a text is counted on through the text behind it. -/
theorem level_append (n : Nat) (s t : Text) :
    level n (s ++ t) = (level n s).bind fun m => level m t :=
  List.foldlM_append

/-- Brackets that stay open all the way through only raise the level. -/
theorem level_add {n m : Nat} {t : Text} (k : Nat) (h : level n t = some m) :
    level (n + k) t = some (m + k) := by
  induction t generalizing n with
  | nil =>
    cases h
    rfl
  | cons c t ih =>
    rcases bracket_cases c with ho | ⟨ho, hc⟩ | ⟨ho, hc⟩
    · rw [level_cons_opener ho] at h ⊢
      rw [Nat.add_right_comm]
      exact ih h
    · cases n with
      | zero =>
        rw [level_cons_stray ho hc] at h
        cases h
      | succ n =>
        rw [level_cons_closer hc] at h
        rw [Nat.add_right_comm, level_cons_closer hc]
        exact ih h
    · rw [level_cons_other ho hc] at h ⊢
      exact ih h

/-- A text without brackets changes no level. -/
theorem level_of_plain {t : Text} (h : ∀ c ∈ t, isPlain c = true) (n : Nat) :
    level n t = some n := by
  induction t with
  | nil => rfl
  | cons c t ih =>
    obtain ⟨ho, hc, -⟩ := isPlain_iff.mp (h c (List.mem_cons_self ..))
    rw [level_cons_other ho hc]
    exact ih fun d hd => h d (List.mem_cons_of_mem _ hd)

theorem Balanced.level_eq {t : Text} (h : Balanced t) (n : Nat) : level n t = some n := by
  simpa using level_add n h

theorem balanced_nil : Balanced [] := level_nil 0

theorem Balanced.append {s t : Text} (hs : Balanced s) (ht : Balanced t) : Balanced (s ++ t) := by
  rw [Balanced, level_append, hs]
  exact ht

/-- A balanced text between two brackets, of whatever shapes, is balanced. -/
theorem Balanced.group {o c : CodePoint} {t : Text} (ho : isOpener o = true)
    (hc : isCloser c = true) (h : Balanced t) : Balanced (o :: (t ++ [c])) := by
  rw [Balanced, level_cons_opener ho, level_append, h.level_eq]
  exact level_cons_closer hc

/-! ## 3. The scan from the right -/

theorem scanBack_closer {want c : CodePoint} {n : Nat} {body before : Text}
    (h : isCloser c = true) :
    scanBack want n body (c :: before) = scanBack want (n + 1) (c :: body) before := by
  rw [scanBack.eq_def]
  simp [h]

theorem scanBack_opener {want c : CodePoint} {n : Nat} {body before : Text}
    (h : isOpener c = true) :
    scanBack want (n + 1) body (c :: before) = scanBack want n (c :: body) before := by
  rw [scanBack.eq_def]
  simp [h, isCloser_eq_false_of_isOpener h]

theorem scanBack_other {want c : CodePoint} {n : Nat} {body before : Text}
    (ho : isOpener c = false) (hc : isCloser c = false) :
    scanBack want n body (c :: before) = scanBack want n (c :: body) before := by
  rw [scanBack.eq_def]
  simp [ho, hc]

/-- The scan from the right passes a text and owes what the text does not close. -/
theorem scanBack_reverse_append {want : CodePoint} {n m : Nat} {t : Text} (h : level n t = some m)
    (body before : Text) :
    scanBack want m body (t.reverse ++ before) = scanBack want n (t ++ body) before := by
  induction t generalizing n before with
  | nil =>
    cases h
    rfl
  | cons c t ih =>
    rw [List.reverse_cons, List.append_assoc, List.singleton_append]
    rcases bracket_cases c with ho | ⟨ho, hc⟩ | ⟨ho, hc⟩
    · rw [level_cons_opener ho] at h
      rw [ih h, scanBack_opener ho, List.cons_append]
    · cases n with
      | zero =>
        rw [level_cons_stray ho hc] at h
        cases h
      | succ n =>
        rw [level_cons_closer hc] at h
        rw [ih h, scanBack_closer hc, List.cons_append]
    · rw [level_cons_other ho hc] at h
      rw [ih h, scanBack_other ho hc, List.cons_append]

/-- What the scan from the right returns was passed on the way. -/
theorem exists_of_scanBack {want : CodePoint} {n : Nat} {body reversed body' before : Text}
    (h : scanBack want n body reversed = .ok (body', before)) :
    ∃ t, body' = t ++ body ∧ reversed = t.reverse ++ want :: before ∧ level 0 t = some n := by
  fun_induction scanBack want n body reversed with
  | case1 => cases h
  | case2 n body c rest hc ih =>
    obtain ⟨t, rfl, rfl, ht⟩ := ih h
    refine ⟨t ++ [c], by simp, by simp, ?_⟩
    rw [level_append, ht]
    exact level_cons_closer hc
  | case3 body rest hc ho =>
    cases h
    exact ⟨[], rfl, rfl, rfl⟩
  | case4 => cases h
  | case5 body c rest hc ho n ih =>
    obtain ⟨t, rfl, rfl, ht⟩ := ih h
    refine ⟨t ++ [c], by simp, by simp, ?_⟩
    rw [level_append, ht]
    exact level_cons_opener ho
  | case6 n body c rest hc ho ih =>
    obtain ⟨t, rfl, rfl, ht⟩ := ih h
    refine ⟨t ++ [c], by simp, by simp, ?_⟩
    rw [level_append, ht]
    exact level_cons_other (by simpa using ho) (by simpa using hc)

/-- **The scan from the right finds the group that a bracket closes.**  Its body is balanced, and
the bracket in front of it is the one that was wanted. -/
theorem scanBack_eq_ok_iff {want : CodePoint} (hw : isOpener want = true)
    {reversed body before : Text} :
    scanBack want 0 [] reversed = .ok (body, before) ↔
      reversed = body.reverse ++ want :: before ∧ Balanced body := by
  constructor
  · intro h
    obtain ⟨t, rfl, rfl, ht⟩ := exists_of_scanBack h
    rw [List.append_nil]
    exact ⟨rfl, ht⟩
  · rintro ⟨rfl, hb⟩
    rw [scanBack_reverse_append hb, List.append_nil, scanBack.eq_def]
    simp [hw, isCloser_eq_false_of_isOpener hw]

/-! ## 4. The scan from the left -/

/-- The comma between the elements of a tuple. -/
def comma : CodePoint := CodePoint.ofChar ','

/-- `Hidden n t`: with `n` brackets open in front of `t`, some bracket is open at every comma. -/
def Hidden (n : Nat) (t : Text) : Prop := ∀ s u, t = s ++ comma :: u → level n s ≠ some 0

theorem Hidden.tail {n m : Nat} {c : CodePoint} {t : Text} (h : Hidden n (c :: t))
    (hl : ∀ s, level n (c :: s) = level m s) : Hidden m t := by
  intro s u hs
  rw [← hl]
  exact h (c :: s) u (by rw [hs, List.cons_append])

/-- A comma in front is hidden only inside a bracket. -/
theorem Hidden.pos {n : Nat} {t : Text} (h : Hidden n (comma :: t)) : n ≠ 0 := by
  rintro rfl
  exact h [] t rfl rfl

theorem hidden_of_plain {t : Text} (h : ∀ c ∈ t, isPlain c = true) (n : Nat) : Hidden n t := by
  rintro s u rfl
  exact absurd rfl (isPlain_iff.mp (h comma (by simp))).2.2

/-- Commas in a bracket are hidden, as long as the bracket stays open. -/
theorem hidden_of_level {n m : Nat} {t : Text} (h : level n t = some m) : Hidden (n + 1) t := by
  rintro s u rfl hs
  rw [level_append] at h
  cases hl : level n s with
  | none =>
    rw [hl] at h
    cases h
  | some k =>
    rw [level_add 1 hl] at hs
    cases hs

theorem hidden_singleton {n : Nat} {c : CodePoint} (h : c ≠ comma) : Hidden n [c] := by
  intro s u hs
  cases s with
  | nil => exact absurd (List.cons.inj hs).1 h
  | cons d s => simp at hs

theorem Hidden.append {n m : Nat} {s t : Text} (hs : Hidden n s) (hl : level n s = some m)
    (ht : Hidden m t) : Hidden n (s ++ t) := by
  intro a b hab
  rcases List.append_eq_append_iff.mp hab with ⟨d, rfl, hd⟩ | ⟨d, rfl, hd⟩
  · rw [level_append, hl]
    exact ht d b hd
  · cases d with
    | nil =>
      rw [List.append_nil] at hl
      rw [hl]
      exact ht [] b (by simpa using hd.symm)
    | cons e d =>
      obtain ⟨rfl, rfl⟩ := List.cons.inj hd
      exact hs a d rfl

/-- The scan from the left passes a text that hides its commas. -/
theorem split_append {n m : Nat} {t : Text} (hl : level n t = some m) (hh : Hidden n t)
    (rest : Text) : split n (t ++ rest) = (split m rest).map fun ps => t.foldr consFirst ps := by
  induction t generalizing n with
  | nil =>
    cases hl
    rw [List.nil_append]
    cases split m rest <;> rfl
  | cons c t ih =>
    rcases bracket_cases c with ho | ⟨ho, hc⟩ | ⟨ho, hc⟩
    · have ht := hh.tail fun s => level_cons_opener ho
      rw [level_cons_opener ho] at hl
      rw [List.cons_append, split.eq_def]
      simp only [ho, if_true]
      rw [ih hl ht]
      cases split m rest <;> rfl
    · cases n with
      | zero =>
        rw [level_cons_stray ho hc] at hl
        cases hl
      | succ n =>
        have ht := hh.tail fun s => level_cons_closer hc
        rw [level_cons_closer hc] at hl
        rw [List.cons_append, split.eq_def]
        simp only [ho, hc, if_true, Bool.false_eq_true, if_false]
        rw [ih hl ht]
        cases split m rest <;> rfl
    · have ht := hh.tail fun s => level_cons_other ho hc
      rw [level_cons_other ho hc] at hl
      have hcomma : ¬ (c = CodePoint.ofChar ',' ∧ n = 0) := by
        rintro ⟨rfl, hn⟩
        exact hh.pos hn
      rw [List.cons_append, split.eq_def]
      simp only [ho, hc, Bool.false_eq_true, if_false, hcomma]
      rw [ih hl ht]
      cases split m rest <;> rfl

/-- Putting a text in front of the first piece, one code point after the other. -/
theorem foldr_consFirst (t p : Text) (ps : List Text) :
    t.foldr consFirst (p :: ps) = (t ++ p) :: ps := by
  induction t with
  | nil => rfl
  | cons c t ih => rw [List.foldr_cons, ih, consFirst, List.cons_append]

/-- `Element p`: `p` is balanced and hides its commas, so it can be an element of a tuple. -/
structure Element (p : Text) : Prop where
  balanced : Balanced p
  hidden : Hidden 0 p

theorem Element.append {s t : Text} (hs : Element s) (ht : Element t) : Element (s ++ t) :=
  ⟨hs.balanced.append ht.balanced, hs.hidden.append hs.balanced ht.hidden⟩

theorem element_of_plain {s : Text} (h : ∀ c ∈ s, isPlain c = true) : Element s :=
  ⟨level_of_plain h 0, hidden_of_plain h 0⟩

/-- A group is an element, whatever its body is, as long as that is balanced. -/
theorem element_group {o c : CodePoint} (hp : (o, c) ∈ bracketPairs) {body : Text}
    (hb : Balanced body) : Element (o :: (body ++ [c])) := by
  have ho : isOpener o = true := isOpener_of_mem_pairs hp
  have hc : isCloser c = true := isCloser_of_mem_pairs hp
  refine ⟨hb.group ho hc, ?_⟩
  have hopen : Hidden 0 [o] := hidden_singleton fun h => by simp [h, comma, isOpener] at ho
  have hclose : Hidden 1 [c] := by
    refine hidden_singleton fun h => ?_
    simp [h, comma, isCloser, openerOf?] at hc
  have hone : level 0 [o] = some 1 := level_cons_opener ho
  exact hopen.append hone ((hidden_of_level hb).append (hb.level_eq 1) hclose)

/-- The elements of a tuple, joined by commas, leave no bracket open. -/
theorem balanced_join {ps : List Text} (h : ∀ p ∈ ps, Balanced p) :
    Balanced (Text.join "," ps) := by
  induction ps with
  | nil => exact balanced_nil
  | cons p ps ih =>
    have hp := h p (List.mem_cons_self ..)
    have hps := ih fun q hq => h q (List.mem_cons_of_mem _ hq)
    cases ps with
    | nil => exact hp
    | cons q qs =>
      have hcomma : Balanced (("," : String) : Text) := rfl
      exact (hp.append hcomma).append hps

/-- **Joined elements are taken apart again.** -/
theorem split_join {ps : List Text} (hne : ps ≠ []) (h : ∀ p ∈ ps, Element p) :
    split 0 (Text.join "," ps) = .ok ps := by
  induction ps with
  | nil => exact absurd rfl hne
  | cons p ps ih =>
    have hp := h p (List.mem_cons_self ..)
    cases ps with
    | nil =>
      have hs := split_append hp.balanced hp.hidden []
      rw [List.append_nil] at hs
      rw [Text.join_singleton, hs]
      exact congrArg Except.ok ((foldr_consFirst p [] []).trans (by rw [List.append_nil]))
    | cons q qs =>
      have hqs := ih (by simp) fun r hr => h r (List.mem_cons_of_mem _ hr)
      have hrest : split 0 (comma :: Text.join "," (q :: qs)) = .ok ([] :: q :: qs) := by
        rw [split.eq_def]
        simp only [comma, hqs]
        rfl
      rw [Text.join_cons_cons, List.append_assoc]
      change split 0 (p ++ comma :: Text.join "," (q :: qs)) = _
      rw [split_append hp.balanced hp.hidden, hrest]
      exact congrArg Except.ok ((foldr_consFirst p [] (q :: qs)).trans (by rw [List.append_nil]))

/-- What is cut off in front of a piece belongs to the piece. -/
theorem join_consFirst (sep : Text) (c : CodePoint) (ps : List Text) :
    Text.join sep (consFirst c ps) = c :: Text.join sep ps := by
  match ps with
  | [] => rfl
  | [p] => rfl
  | p :: q :: qs => rfl

theorem consFirst_ne_nil (c : CodePoint) (ps : List Text) : consFirst c ps ≠ [] := by
  cases ps <;> simp [consFirst]

/-- The pieces of a text make up the text. -/
theorem join_of_split {n : Nat} {t : Text} {ps : List Text} (h : split n t = .ok ps) :
    Text.join "," ps = t ∧ ps ≠ [] := by
  fun_induction split n t generalizing ps with
  | case1 =>
    cases h
    exact ⟨rfl, by simp⟩
  | case2 n c rest ho ih =>
    obtain ⟨qs, hq, rfl⟩ := Outcome.map_eq_ok_iff.mp h
    exact ⟨by rw [join_consFirst, (ih hq).1], consFirst_ne_nil c qs⟩
  | case3 => cases h
  | case4 c rest ho hc n ih =>
    obtain ⟨qs, hq, rfl⟩ := Outcome.map_eq_ok_iff.mp h
    exact ⟨by rw [join_consFirst, (ih hq).1], consFirst_ne_nil c qs⟩
  | case5 n c rest ho hc hcomma ih =>
    obtain ⟨qs, hq, rfl⟩ := Outcome.map_eq_ok_iff.mp h
    obtain ⟨hjoin, hne⟩ := ih hq
    obtain ⟨q, qs, rfl⟩ := List.exists_cons_of_ne_nil hne
    refine ⟨?_, by simp⟩
    rw [Text.join_cons_cons, hjoin, hcomma.1]
    rfl
  | case6 n c rest ho hc hcomma ih =>
    obtain ⟨qs, hq, rfl⟩ := Outcome.map_eq_ok_iff.mp h
    exact ⟨by rw [join_consFirst, (ih hq).1], consFirst_ne_nil c qs⟩

theorem pieces_eq_ok_iff {body : Text} {ps : List Text} :
    pieces body = .ok ps ↔ split 0 body = .ok ps ∧ ∀ p ∈ ps, p ≠ [] := by
  unfold pieces
  cases split 0 body with
  | error f => simp
  | ok qs =>
    simp only [Except.ok.injEq]
    by_cases h : qs.any (·.isEmpty) = true
    · rw [if_pos h]
      obtain ⟨p, hp, hnil⟩ := List.any_eq_true.mp h
      refine iff_of_false (fun h' => by cases h') ?_
      rintro ⟨rfl, hne⟩
      exact hne p hp (List.isEmpty_iff.mp hnil)
    · rw [if_neg h, Except.ok.injEq]
      refine ⟨?_, And.left⟩
      rintro rfl
      refine ⟨rfl, fun p hp hnil => h (List.any_eq_true.mpr ⟨p, hp, List.isEmpty_iff.mpr hnil⟩)⟩

end ContractAbi.TypeName
