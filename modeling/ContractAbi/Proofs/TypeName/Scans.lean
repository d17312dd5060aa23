import ContractAbi.Proofs.TypeName.LookUps

/-!
# How the two scans fit together

The scan from the right finds a bracket and the scan from the left cuts what stands behind it.  They
count in opposite directions, and neither tells the two shapes of brackets apart while it counts.
That the second never comes to a bracket that closes nothing is no accident of the reader, and here
it is said by counting alone: `openers` and `closers` are the numbers of brackets in a text.

* The scan from the right returns the one place from which on as many brackets open as close, while
  behind it more close than open (`matchingOpener?_eq_ok_iff`), if the bracket there has the right
  shape; otherwise it returns none.
* What stands behind a bracket at the very front is then balanced, so that the scan from the left
  cuts it (`exists_pieces`), and its pieces are the only ones that there can be.

What carries both is `level_eq_some_iff`: a level exists where no beginning of a text closes more
brackets than are open.
-/

namespace ContractAbi.TypeName

/-! ## 1. Numbers of brackets -/

/-- The number of brackets in a text that open a group, of either shape. -/
def openers (t : Text) : Nat := t.countP isOpener

/-- The number of brackets in a text that close a group, of either shape. -/
def closers (t : Text) : Nat := t.countP isCloser

@[simp] theorem openers_nil : openers [] = 0 := rfl

@[simp] theorem closers_nil : closers [] = 0 := rfl

theorem openers_append (s t : Text) : openers (s ++ t) = openers s + openers t :=
  List.countP_append

theorem closers_append (s t : Text) : closers (s ++ t) = closers s + closers t :=
  List.countP_append

theorem openers_cons (c : CodePoint) (t : Text) :
    openers (c :: t) = openers t + if isOpener c = true then 1 else 0 := List.countP_cons

theorem closers_cons (c : CodePoint) (t : Text) :
    closers (c :: t) = closers t + if isCloser c = true then 1 else 0 := List.countP_cons

/-- The beginnings of a text are the empty one and those that begin with its first code point. -/
theorem forall_prefix_cons {P : Text → Prop} {c : CodePoint} {t : Text} :
    (∀ s, s <+: c :: t → P s) ↔ P [] ∧ ∀ s, s <+: t → P (c :: s) := by
  constructor
  · intro h
    exact ⟨h [] List.nil_prefix, fun s hs => h _ (List.cons_prefix_cons.mpr ⟨rfl, hs⟩)⟩
  · rintro ⟨hnil, hcons⟩ s hs
    cases s with
    | nil => exact hnil
    | cons d s =>
      obtain ⟨rfl, htail⟩ := List.cons_prefix_cons.mp hs
      exact hcons s htail

/-- **When there is a level**, and which: no beginning of the text closes more brackets than are
open, and at the end so many are left. -/
theorem level_eq_some_iff {n m : Nat} {t : Text} :
    level n t = some m ↔
      (∀ s, s <+: t → closers s ≤ n + openers s) ∧ n + openers t = m + closers t := by
  induction t generalizing n with
  | nil => simp [List.prefix_nil]
  | cons c t ih =>
    rw [forall_prefix_cons]
    rcases bracket_cases c with ho | ⟨ho, hc⟩ | ⟨ho, hc⟩
    · have hc := isCloser_eq_false_of_isOpener ho
      rw [level_cons_opener ho, ih]
      simp only [openers_cons, closers_cons, ho, hc, if_true, Bool.false_eq_true, if_false,
        closers_nil, Nat.add_zero, Nat.zero_le, true_and, ← Nat.add_assoc, Nat.add_right_comm n 1]
    · cases n with
      | zero =>
        rw [level_cons_stray ho hc]
        refine iff_of_false nofun fun h => ?_
        have hstray := h.1.2 [] List.nil_prefix
        simp [openers_cons, closers_cons, ho, hc] at hstray
      | succ n =>
        rw [level_cons_closer hc, ih]
        simp only [openers_cons, closers_cons, ho, hc, if_true, Bool.false_eq_true, if_false,
          closers_nil, Nat.add_zero, Nat.zero_le, true_and, ← Nat.add_assoc, Nat.add_right_comm n 1,
          Nat.add_le_add_iff_right, Nat.add_right_cancel_iff]
    · rw [level_cons_other ho hc, ih]
      simp only [openers_cons, closers_cons, ho, hc, Bool.false_eq_true, if_false, closers_nil,
        Nat.add_zero, Nat.zero_le, true_and]

/-- A balanced text has as many brackets of both kinds, and no beginning of it closes more than it
opens. -/
theorem balanced_iff {t : Text} :
    Balanced t ↔ openers t = closers t ∧ ∀ s, s <+: t → closers s ≤ openers s := by
  rw [Balanced, level_eq_some_iff, and_comm]
  simp only [Nat.zero_add]

/-- In a text at a level, what stands before a comma is at level zero if it opens no more than it
closes. -/
theorem hidden_zero_iff {n : Nat} {t : Text} (h : level 0 t = some n) :
    Hidden 0 t ↔ ∀ s u, t = s ++ comma :: u → closers s < openers s := by
  refine forall_congr' fun s => forall_congr' fun u => imp_congr_right fun ht => ?_
  subst ht
  rw [level_append] at h
  obtain ⟨m, hm, -⟩ := Option.bind_eq_some_iff.mp h
  have hcount := (level_eq_some_iff.mp hm).2
  rw [hm, ne_eq, Option.some.injEq]
  omega

/-- What an element of a tuple is, by counting: it has as many brackets of both kinds, no beginning
of it closes more than it opens, and every comma in it stands inside of brackets of its own. -/
structure Piece (p : Text) : Prop where
  even : openers p = closers p
  ahead : ∀ s, s <+: p → closers s ≤ openers s
  inside : ∀ s u, p = s ++ comma :: u → closers s < openers s

theorem piece_iff_element {p : Text} : Piece p ↔ Element p := by
  constructor
  · rintro ⟨heven, hahead, hinside⟩
    have hbalanced : Balanced p := balanced_iff.mpr ⟨heven, hahead⟩
    exact ⟨hbalanced, (hidden_zero_iff hbalanced).mpr hinside⟩
  · rintro ⟨hbalanced, hhidden⟩
    obtain ⟨heven, hahead⟩ := balanced_iff.mp hbalanced
    exact ⟨heven, hahead, (hidden_zero_iff hbalanced).mp hhidden⟩

/-! ## 2. The scan from the right -/

/-- `OpensEnd name p`: from the place `p` to the end of the name as many brackets open as close, and
from every place behind it more close than open. -/
structure OpensEnd (name : Text) (p : Nat) : Prop where
  even : openers (name.drop p) = closers (name.drop p)
  owed : ∀ q, p < q → q < name.length → openers (name.drop q) < closers (name.drop q)

theorem drop_behind (before s u : Text) (o c : CodePoint) :
    (before ++ o :: (s ++ u ++ [c])).drop (before.length + 1 + s.length) = u ++ [c] := by
  rw [Nat.add_assoc, List.drop_length_add_append, Nat.add_comm, List.drop_succ_cons,
    List.append_assoc, List.drop_left]

/-- **A bracket opens the end of a name exactly if what is between is balanced.** -/
theorem opensEnd_iff {before body : Text} {o c : CodePoint} (ho : isOpener o = true)
    (hc : isCloser c = true) :
    OpensEnd (before ++ o :: (body ++ [c])) before.length ↔ Balanced body := by
  have hoc := isCloser_eq_false_of_isOpener ho
  have hco : isOpener c = false := by
    cases h : isOpener c with
    | false => rfl
    | true => exact absurd hc (by simp [isCloser_eq_false_of_isOpener h])
  have hend (t : Text) : openers (t ++ [c]) = openers t ∧ closers (t ++ [c]) = closers t + 1 := by
    simp [openers_append, closers_append, openers_cons, closers_cons, hc, hco]
  have hwhole : openers (o :: (body ++ [c])) = openers body + 1 ∧
      closers (o :: (body ++ [c])) = closers body + 1 := by
    simp [openers_cons, closers_cons, ho, hoc, hend]
  rw [balanced_iff]
  constructor
  · rintro ⟨heven, howed⟩
    rw [List.drop_left, hwhole.1, hwhole.2, Nat.add_right_cancel_iff] at heven
    refine ⟨heven, ?_⟩
    rintro s ⟨u, rfl⟩
    have hbehind := howed (before.length + 1 + s.length) (by omega) (by simp; omega)
    rw [drop_behind, (hend u).1, (hend u).2] at hbehind
    rw [openers_append, closers_append] at heven
    omega
  · rintro ⟨heven, hahead⟩
    refine ⟨by rw [List.drop_left, hwhole.1, hwhole.2, heven], fun q hq hlt => ?_⟩
    obtain ⟨k, rfl⟩ : ∃ k, q = before.length + 1 + k := ⟨q - (before.length + 1), by omega⟩
    have hk : k ≤ body.length := by
      simp only [List.length_append, List.length_cons, List.length_nil] at hlt
      omega
    obtain ⟨s, u, rfl, rfl⟩ : ∃ s u, body = s ++ u ∧ s.length = k :=
      ⟨body.take k, body.drop k, (List.take_append_drop k body).symm, List.length_take_of_le hk⟩
    have hs := hahead s (List.prefix_append s u)
    rw [openers_append, closers_append] at heven
    rw [drop_behind, (hend u).1, (hend u).2]
    omega

/-- What stands at a place of a name other than the last one has something in front and behind. -/
theorem exists_of_getElem?_concat {name : Text} {c d : CodePoint} {p : Nat}
    (h : (name ++ [c])[p]? = some d) (hne : c ≠ d) :
    ∃ before body, name = before ++ d :: body ∧ before.length = p := by
  rcases Nat.lt_or_ge p name.length with hlt | hge
  · rw [List.getElem?_append_left hlt] at h
    obtain ⟨_, rfl⟩ := List.getElem?_eq_some_iff.mp h
    refine ⟨name.take p, name.drop (p + 1), ?_, List.length_take_of_le (Nat.le_of_lt hlt)⟩
    rw [List.getElem_cons_drop, List.take_append_drop]
  · rw [List.getElem?_append_right hge, List.getElem?_singleton] at h
    split at h
    · exact absurd (Option.some.inj h) hne
    · cases h

/-- **The scan from the right returns the place that opens the end of a name**, if the bracket there
has the shape that is wanted, and no place otherwise. -/
theorem matchingOpener?_eq_ok_iff {name : Text} {c want : CodePoint} (h : openerOf? c = some want)
    {p : Nat} :
    matchingOpener? (name ++ [c]) = some (.ok p) ↔
      OpensEnd (name ++ [c]) p ∧ (name ++ [c])[p]? = some want := by
  have hp := openerOf?_eq_some_iff.mp h
  have ho := isOpener_of_mem_pairs hp
  have hc := isCloser_of_mem_pairs hp
  rw [matchingOpener?_eq h, Option.some.injEq, Outcome.map_eq_ok_iff]
  constructor
  · rintro ⟨⟨body, before⟩, hscan, rfl⟩
    obtain ⟨hrev, hbalanced⟩ := (scanBack_eq_ok_iff ho).mp hscan
    obtain rfl : name = before.reverse ++ want :: body := by
      rw [← List.reverse_reverse name, hrev]
      simp
    rw [List.append_assoc, List.cons_append, ← List.length_reverse]
    refine ⟨(opensEnd_iff ho hc).mpr hbalanced, ?_⟩
    rw [List.getElem?_append_right (Nat.le_refl _), Nat.sub_self]
    rfl
  · rintro ⟨hopens, hwant⟩
    obtain ⟨before, body, rfl, rfl⟩ := exists_of_getElem?_concat hwant fun hcw => by
      rw [hcw, isCloser_eq_false_of_isOpener ho] at hc
      cases hc
    rw [List.append_assoc, List.cons_append, opensEnd_iff ho hc] at hopens
    exact ⟨(body, before.reverse), (scanBack_eq_ok_iff ho).mpr ⟨by simp, hopens⟩,
      List.length_reverse⟩

/-! ## 3. The scan from the left -/

/-- `Cut n r`: `r` is a text cut into pieces, with `n` brackets open in front of it.  The first
piece closes these, and whatever it opens itself; the other pieces are elements. -/
inductive Cut (n : Nat) : Except NameFault (List Text) → Prop
  | intro {p : Text} {ps : List Text} (hlevel : level n p = some 0) (hhidden : Hidden n p)
    (helements : ∀ q ∈ ps, Element q) : Cut n (.ok (p :: ps))

/-- A code point at which the scan does not cut goes in front of the first piece. -/
theorem Cut.consFirst {n m : Nat} {c : CodePoint} {r : Except NameFault (List Text)} (h : Cut m r)
    (hl : level n [c] = some m) (hc : c = comma → n ≠ 0) :
    Cut n (r.map (TypeName.consFirst c)) := by
  obtain ⟨hlevel, hhidden, helements⟩ := h
  have hhead : Hidden n [c] := by
    by_cases h : c = comma
    · intro s u hs
      cases s with
      | nil => exact fun hn => hc h (Option.some.inj hn)
      | cons d s => simp at hs
    · exact hidden_singleton h
  refine .intro ?_ (hhead.append hl hhidden) helements
  rw [← List.singleton_append, level_append, hl]
  exact hlevel

/-- Where the scan does cut, a piece begins. -/
theorem Cut.consNil {r : Except NameFault (List Text)} (h : Cut 0 r) :
    Cut 0 (r.map ([] :: ·)) := by
  obtain ⟨hlevel, hhidden, helements⟩ := h
  refine .intro (level_nil 0) (hidden_of_plain (by simp) 0) ?_
  rw [List.forall_mem_cons]
  exact ⟨⟨hlevel, hhidden⟩, helements⟩

/-- **A text that closes what is open, and closes no more, is cut.** -/
theorem cut_split {n : Nat} {t : Text} (h : level n t = some 0) : Cut n (split n t) := by
  fun_induction split n t with
  | case1 n => exact .intro h (hidden_of_plain (by simp) n) (by simp)
  | case2 n c rest ho ih =>
    rw [level_cons_opener ho] at h
    refine (ih h).consFirst (level_cons_opener ho) ?_
    rintro rfl
    cases ho
  | case3 c rest ho hc =>
    rw [level_cons_stray (by simpa using ho) hc] at h
    cases h
  | case4 c rest ho hc n ih =>
    rw [level_cons_closer hc] at h
    exact (ih h).consFirst (level_cons_closer hc) fun _ => Nat.succ_ne_zero n
  | case5 n c rest ho hc hcomma ih =>
    obtain ⟨rfl, rfl⟩ := hcomma
    rw [level_cons_other rfl rfl] at h
    exact (ih h).consNil
  | case6 n c rest ho hc hcomma ih =>
    rw [level_cons_other (by simpa using ho) (by simpa using hc)] at h
    refine (ih h).consFirst (level_cons_other (by simpa using ho) (by simpa using hc)) ?_
    exact fun hc hn => hcomma ⟨hc, hn⟩

/-- **A balanced text is cut into pieces**, which make it up, and it can be cut so in one way
only. -/
theorem exists_pieces {body : Text} (h : Balanced body) :
    ∃ ps, split 0 body = .ok ps ∧ ps ≠ [] ∧ Text.join "," ps = body ∧ (∀ p ∈ ps, Piece p) ∧
      ∀ qs, qs ≠ [] → Text.join "," qs = body → (∀ q ∈ qs, Piece q) → qs = ps := by
  obtain ⟨p, ps, hsplit, hps⟩ :
      ∃ p ps, split 0 body = .ok (p :: ps) ∧ ∀ q ∈ p :: ps, Element q := by
    have hcut := cut_split h
    generalize split 0 body = r at hcut
    obtain ⟨hlevel, hhidden, helements⟩ := hcut
    exact ⟨_, _, rfl, List.forall_mem_cons.mpr ⟨⟨hlevel, hhidden⟩, helements⟩⟩
  obtain ⟨hjoin, hne⟩ := join_of_split hsplit
  refine ⟨p :: ps, hsplit, hne, hjoin, fun q hq => piece_iff_element.mpr (hps q hq), ?_⟩
  rintro qs hqs rfl hpieces
  have hagain := split_join hqs fun q hq => piece_iff_element.mp (hpieces q hq)
  exact Except.ok.inj (hagain.symm.trans hsplit)

/-- What is refused of pieces is that one of them is empty. -/
theorem pieces_of_split {body : Text} {ps : List Text} (h : split 0 body = .ok ps) :
    pieces body = if [] ∈ ps then .error .emptyElement else .ok ps := by
  have hany : ps.any (·.isEmpty) = true ↔ [] ∈ ps := by
    simp [List.any_eq_true, List.isEmpty_iff]
  unfold pieces
  rw [h]
  simp only [hany]

/-! ## 4. Both scans -/

/-- **The two scans fit together.**  On a name that ends with a closing bracket the scan from the
right comes to one place exactly: from there to the end as many brackets open as close, behind it
more close than open, and the bracket there has the shape of the one at the end.  It fails if there
is no such place.  If the place is the front of the name, the scan from the left never meets a
bracket that closes nothing: it cuts the body into pieces, the only ones that there are, and nothing
is refused of them but that one is empty. -/
theorem scans_fit {name : Text} {c : CodePoint} (hlast : name.getLast? = some c)
    (hcloser : isCloser c = true) :
    matchingOpener? name = some ((lastGroup name).map fun g => g.1.length) ∧
      (∀ p, matchingOpener? name = some (.ok p) ↔
        OpensEnd name p ∧ name[p]? = openerOf? c) ∧
      (matchingOpener? name = some (.ok 0) →
        ∃ ps, ps ≠ [] ∧ Text.join "," ps = bodyFrom name 0 ∧ (∀ p ∈ ps, Piece p) ∧
          (∀ qs, qs ≠ [] → Text.join "," qs = bodyFrom name 0 → (∀ q ∈ qs, Piece q) → qs = ps) ∧
          lastGroup name = .ok ([], bodyFrom name 0) ∧
          pieces (bodyFrom name 0) = if [] ∈ ps then .error .emptyElement else .ok ps) := by
  obtain ⟨name, rfl⟩ := List.getLast?_eq_some_iff.mp hlast
  obtain ⟨want, hopen⟩ := Option.isSome_iff_exists.mp hcloser
  have hgroup : lastGroup (name ++ [c]) =
      (scanBack want 0 [] name.reverse).map fun g => (g.2.reverse, g.1) := by
    rw [lastGroup, List.reverse_append, List.reverse_singleton, List.singleton_append]
    simp only [hopen]
  refine ⟨?_, fun p => ?_, fun h => ?_⟩
  · rw [matchingOpener?_eq hopen, hgroup]
    cases scanBack want 0 [] name.reverse with
    | error f => rfl
    | ok g => exact congrArg (fun n => some (Except.ok n)) List.length_reverse.symm
  · rw [matchingOpener?_eq_ok_iff hopen, hopen]
  · rw [matchingOpener?_eq hopen, Option.some.injEq, Outcome.map_eq_ok_iff] at h
    obtain ⟨⟨body, before⟩, hscan, hlength⟩ := h
    obtain rfl : before = [] := List.length_eq_zero_iff.mp hlength
    have hbody : bodyFrom (name ++ [c]) 0 = body := (bodyFrom_of_scanBack (c := c) hscan).1
    have hwant := isOpener_of_mem_pairs (openerOf?_eq_some_iff.mp hopen)
    obtain ⟨ps, hsplit, hne, hjoin, hpieces, hunique⟩ :=
      exists_pieces ((scanBack_eq_ok_iff hwant).mp hscan).2
    rw [hbody, hgroup, hscan]
    exact ⟨ps, hne, hjoin, hpieces, hunique, rfl, pieces_of_split hsplit⟩

/-- A tuple in whose pieces brackets of one shape close those of the other, and an array suffix; a
brace behind a square bracket that it does not close. -/
theorem scans_fit_mixed :
    let tuple : Text := "\x7b[a,b\x7d,\x7bc]\x7d"
    let parts : List Text := ["[a,b\x7d", "\x7bc]"]
    let array : Text := "bool[3]"
    let stray : Text := "[a\x7d"
    (pieces (bodyFrom tuple 0) = .ok parts ∧ ∀ p ∈ parts, Piece p) ∧ OpensEnd array 4 ∧
      ∀ p, ¬ (OpensEnd stray p ∧ stray[p]? = some (CodePoint.ofChar '\x7b')) := by
  intro tuple parts array stray
  refine ⟨?_, ?_, fun p hp => ?_⟩
  · obtain ⟨ps, -, -, hpieces, -, -, hread⟩ :=
      (@scans_fit tuple (CodePoint.ofChar '\x7d') rfl rfl).2.2 rfl
    have hcut : pieces (bodyFrom tuple 0) = .ok parts := rfl
    rw [hcut] at hread
    split at hread
    · cases hread
    · cases hread
      exact ⟨hcut, hpieces⟩
  · exact (((@scans_fit array (CodePoint.ofChar ']') rfl rfl).2.1 4).mp rfl).1
  · have hnone : matchingOpener? stray = some (.error .mismatched) := rfl
    have hsome := ((@scans_fit stray (CodePoint.ofChar '\x7d') rfl rfl).2.1 p).mpr hp
    cases hnone.symm.trans hsome

end ContractAbi.TypeName
