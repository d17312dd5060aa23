import ContractAbi.Json.Decode
import ContractAbi.Proofs.Outcome
import ContractAbi.Proofs.Text.Runs

/-!
# Whole numbers that end the decoding

A whole number of too many digits is a word of a JSON text like any other, and the machine stops at
it only where it expects a value: further in front the text may be at fault in another way, and
elsewhere the word is out of place whatever its length.

`MeetsLong` says that the machine comes to such a number, and the decoding ends for it exactly then
(`decodeSource_eq_longNumber_iff`).
-/

namespace ContractAbi.Json

/-! ## 1. The word for a long number -/

/-- `Begins here ds`: a text begins with some digits, perhaps behind a minus sign. -/
def Begins (here ds : Text) : Prop := ds <+: here ∨ CodePoint.ofChar '-' :: ds <+: here

/-- The digits of a whole number are a numeral. -/
theorem isNumeral_wholeDigits {t : Text} (h : (wholeDigits t).1 ≠ []) :
    Decimal.IsNumeral (wholeDigits t).1 ∧ (wholeDigits t).1 <+: t := by
  refine ⟨⟨h, ?_⟩, ?_⟩
  · unfold wholeDigits
    split
    · split
      · next hc =>
        intro d hd
        rw [List.mem_singleton.mp hd, hc]
        exact Decimal.isDigit_digit 0
      · exact List.all_eq_true.mp (List.all_takeWhile ..)
    · exact fun d hd => absurd hd List.not_mem_nil
  · unfold wholeDigits
    split
    · split
      · exact ⟨_, rfl⟩
      · exact List.takeWhile_prefix _
    · exact List.prefix_rfl

theorem of_number_eq_longNumber {neg : Bool} {whole frac : Text} {exp : Option Int} {n : Nat}
    (h : number neg whole frac exp = .longNumber n) :
    Decimal.digitLimit < whole.length ∧ whole.length = n := by
  unfold number at h
  split at h
  · split at h
    · next hread =>
      cases h
      obtain ⟨hlen, rfl⟩ := Decimal.read_eq_error_iff.mp hread
      exact ⟨hlen, rfl⟩
    · cases h
  · cases h

theorem of_unsignedNumber_eq_longNumber {neg : Bool} {t more : Text} {n : Nat}
    (h : unsignedNumber neg t = some (.longNumber n, more)) :
    ∃ ds, Decimal.IsNumeral ds ∧ ds <+: t ∧ Decimal.digitLimit < ds.length ∧ ds.length = n := by
  unfold unsignedNumber at h
  dsimp only at h
  split at h
  · cases h
  · next hne =>
    obtain ⟨hds, hpre⟩ := isNumeral_wholeDigits hne
    exact ⟨_, hds, hpre, of_number_eq_longNumber (Prod.mk.inj (Option.some.inj h)).1⟩

theorem of_signedNumber_eq_longNumber {t more : Text} {n : Nat}
    (h : signedNumber t = some (.longNumber n, more)) :
    ∃ ds, Decimal.IsNumeral ds ∧ Begins t ds ∧ Decimal.digitLimit < ds.length ∧
      ds.length = n := by
  unfold signedNumber at h
  split at h
  · split at h
    · next hc =>
      obtain ⟨ds, hds, hpre, hlen⟩ := of_unsignedNumber_eq_longNumber h
      exact ⟨ds, hds, Or.inr (List.cons_prefix_cons.mpr ⟨hc.symm, hpre⟩), hlen⟩
    · obtain ⟨ds, hds, hpre, hlen⟩ := of_unsignedNumber_eq_longNumber h
      exact ⟨ds, hds, Or.inl hpre, hlen⟩
  · cases h

/-- The word for a long number stands where a long number is written. -/
theorem of_word_eq_longNumber {c : CodePoint} {rest : Text} {n : Nat}
    (h : (word c rest).1 = .longNumber n) :
    ∃ ds, Decimal.IsNumeral ds ∧ Begins (c :: rest) ds ∧ Decimal.digitLimit < ds.length ∧
      ds.length = n := by
  unfold word at h
  split at h
  · next l hmark =>
    subst h
    unfold mark? at hmark
    repeat' split at hmark
    all_goals cases hmark
  · split at h
    · split at h <;> cases h
    · cases hconst : constant? (c :: rest) with
      | some r =>
        obtain ⟨⟨name, v⟩, -, hp⟩ := List.exists_of_findSome?_eq_some hconst
        obtain ⟨more, -, rfl⟩ := Option.map_eq_some_iff.mp hp
        rw [hconst] at h
        cases h
      | none =>
        rw [hconst, Option.none_or] at h
        cases hnum : signedNumber (c :: rest) with
        | none =>
          rw [hnum] at h
          cases h
        | some r =>
          obtain ⟨l, more⟩ := r
          rw [hnum] at h
          obtain rfl : l = .longNumber n := h
          exact of_signedNumber_eq_longNumber hnum

theorem of_mem_lexemes {t here : Text} {n : Nat} (h : (Lexeme.longNumber n, here) ∈ lexemes t) :
    ∃ ds, Decimal.IsNumeral ds ∧ Begins here ds ∧ Decimal.digitLimit < ds.length ∧
      ds.length = n := by
  fun_induction lexemes t with
  | case1 => cases h
  | case2 t c rest hdrop ih =>
    rcases List.mem_cons.mp h with h | h
    · obtain ⟨hword, rfl⟩ := Prod.mk.inj h
      exact of_word_eq_longNumber hword.symm
    · exact ih h

/-! ## 2. The machine -/

/-- The states in which a value may come next. -/
def State.ExpectsValue : State → Prop
  | .value _ | .firstItem _ => True
  | _ => False

/-- The machine takes the words one by one, and then looks at what is missing. -/
theorem run_eq_foldlM (limit : Nat) (s : State) (ws : List (Lexeme × Text)) :
    run limit s ws = ws.foldlM (step limit) s >>= finish := by
  induction ws generalizing s with
  | nil => rfl
  | cons w ws ih =>
    rw [run, List.foldlM_cons]
    cases step limit s w with
    | ok s' => exact ih s'
    | error h => rfl

theorem stepValue_eq_longNumber_iff {limit : Nat} {fs : List Frame} {here : Text} {l : Lexeme}
    {n : Nat} : stepValue limit fs here l = .error (.longNumber n) ↔ l = .longNumber n := by
  cases l with
  | openList | openRecord =>
    simp only [stepValue, enter]
    split <;> simp
  | _ => simp [stepValue]

/-- The machine stops at a long number where it expects a value, and nowhere else. -/
theorem step_eq_longNumber_iff {limit : Nat} {s : State} {l : Lexeme} {here : Text} {n : Nat} :
    step limit s (l, here) = .error (.longNumber n) ↔ l = .longNumber n ∧ s.ExpectsValue := by
  have hname : ∀ done fs, stepName done fs here l ≠ .error (.longNumber n) := by
    intro done fs
    cases l <;> simp [stepName]
  cases s with
  | value fs => simp [step, State.ExpectsValue, stepValue_eq_longNumber_iff]
  | firstItem fs =>
    cases l with
    | closeList => simp [step]
    | _ => simp [step, State.ExpectsValue, stepValue_eq_longNumber_iff]
  | name done fs => simp [step, State.ExpectsValue, hname]
  | firstName fs =>
    cases l with
    | closeRecord => simp [step]
    | _ => simpa [step, State.ExpectsValue] using hname [] fs
  | afterItem done fs => cases l <;> simp [step, State.ExpectsValue]
  | colon done key fs => cases l <;> simp [step, State.ExpectsValue]
  | afterField done fs => cases l <;> simp [step, State.ExpectsValue]
  | finished v => simp [step, State.ExpectsValue]

theorem finish_ne_longNumber (s : State) (n : Nat) : finish s ≠ .error (.longNumber n) := by
  cases s <;> simp [finish]

/-! ## 3. Decoding -/

/-- `MeetsLong t ds`: the machine that decodes `t` comes to the whole number `ds`, which has too
many digits, and expects a value there. -/
def MeetsLong (t ds : Text) : Prop :=
  Decimal.IsNumeral ds ∧ Decimal.digitLimit < ds.length ∧
    ∃ before here after s, lexemes t = before ++ (.longNumber ds.length, here) :: after ∧
      Begins here ds ∧ before.foldlM (step depthLimit) (.value []) = .ok s ∧ s.ExpectsValue

theorem decodeWords_eq_longNumber_iff {t : Text} {n : Nat} :
    decodeWords t = .error (.longNumber n) ↔ ∃ ds, MeetsLong t ds ∧ ds.length = n := by
  have hfault : ∀ h : Halt, h.toFault t = .longNumber n ↔ h = .longNumber n := by
    intro h
    cases h <;> simp [Halt.toFault]
  rw [decodeWords, Outcome.mapError_eq_error_iff]
  simp only [hfault, exists_eq_right, run_eq_foldlM, Outcome.bind_eq_error_iff,
    finish_ne_longNumber, and_false, exists_false, or_false, Outcome.foldlM_eq_error_iff]
  constructor
  · rintro ⟨before, ⟨l, here⟩, after, s, hwords, hrun, hstep⟩
    obtain ⟨rfl, hexpects⟩ := step_eq_longNumber_iff.mp hstep
    have hmem : (Lexeme.longNumber n, here) ∈ lexemes t := by
      rw [hwords]
      exact List.mem_append_right _ (List.mem_cons_self ..)
    obtain ⟨ds, hds, hbegins, hlong, rfl⟩ := of_mem_lexemes hmem
    exact ⟨ds, ⟨hds, hlong, before, here, after, s, hwords, hbegins, hrun, hexpects⟩, rfl⟩
  · rintro ⟨ds, ⟨-, -, before, here, after, s, hwords, -, hrun, hexpects⟩, rfl⟩
    exact ⟨before, _, after, s, hwords, hrun, step_eq_longNumber_iff.mpr ⟨rfl, hexpects⟩⟩

/-- The text that a source is decoded as.  Octets may be none, and a text does not begin with a byte
order mark. -/
def sourceText? : Value → Option Text
  | .text t => if t.head?.any (·.val = 0xFEFF) then none else some t
  | .octets bs => (Encoding.decode bs).toOption
  | _ => none

/-- **A whole number of too many digits ends the decoding exactly if the machine comes to it.** -/
theorem decodeSource_eq_longNumber_iff {v : Value} {n : Nat} :
    decodeSource v = .error (.longNumber n) ↔
      ∃ t ds, sourceText? v = some t ∧ MeetsLong t ds ∧ ds.length = n := by
  cases v with
  | text t =>
    rw [decodeSource, decode.eq_def, sourceText?]
    cases t with
    | nil => simp [decodeWords_eq_longNumber_iff]
    | cons c rest => by_cases hc : c.val = 0xFEFF <;> simp [hc, decodeWords_eq_longNumber_iff]
  | octets bs =>
    rw [decodeSource, decodeOctets, sourceText?]
    cases Encoding.decode bs with
    | ok t => simp [Except.toOption, decodeWords_eq_longNumber_iff]
    | error f => simp [Except.toOption]
  | _ => simp [decodeSource, sourceText?]

/-- Text and octets are sources. -/
theorem decodeSource_ne_noSource {v : Value} (h : (∃ t, v = .text t) ∨ ∃ bs, v = .octets bs)
    (kind : Text) : decodeSource v ≠ .error (.noSource kind) := by
  have hwords : ∀ t, decodeWords t ≠ .error (.noSource kind) := by
    intro t ht
    obtain ⟨h, -, hfault⟩ := Outcome.mapError_eq_error_iff.mp ht
    cases h <;> simp [Halt.toFault] at hfault
  rcases h with ⟨t, rfl⟩ | ⟨bs, rfl⟩
  · rw [decodeSource, decode.eq_def]
    split
    · split
      · simp
      · exact hwords _
    · exact hwords _
  · rw [decodeSource, decodeOctets]
    split
    · exact hwords _
    · simp

end ContractAbi.Json
