import ContractAbi.Encoding
import ContractAbi.Value

/-!
# The words of a JSON text

A JSON text falls into punctuation marks, strings, numbers and the names of constants, between which
blanks do not count.  Besides the numbers of the standard there are `NaN`, `Infinity` and
`-Infinity`; a number with a fraction or an exponent is a double, any other a whole number.

Reading never fails as a whole: where no word can be read the list ends in a lexeme that says so,
because whether that is the first fault of the text depends on what stands before it.  Every lexeme
comes with the text that was left at its beginning, from which its place can be found.
-/

namespace ContractAbi.Json

/-! ## 1. Faults -/

/-- What can be wrong at some place of a JSON text. -/
inductive Problem where
  | expectingValue
  | expectingName
  | expectingColon
  | expectingComma
  | extraData
  | unterminatedText
  | controlCharacter
  | unknownEscape
  | malformedEscape
  | byteOrderMark
deriving DecidableEq

/-- A problem in words. -/
def Problem.phrase : Problem → Text
  | .expectingValue => "Expecting value"
  | .expectingName => "Expecting property name enclosed in double quotes"
  | .expectingColon => "Expecting ':' delimiter"
  | .expectingComma => "Expecting ',' delimiter"
  | .extraData => "Extra data"
  | .unterminatedText => "Unterminated string starting at"
  | .controlCharacter => "Invalid control character at"
  | .unknownEscape => "Invalid \\escape"
  | .malformedEscape => "Invalid \\uXXXX escape"
  | .byteOrderMark => "Unexpected UTF-8 BOM (decode using utf-8-sig)"

/-- A problem and the text that was left where it arose. -/
structure Fault where
  problem : Problem
  left : Text
deriving DecidableEq

/-! ## 2. Lexemes -/

/-- A word of a JSON text. -/
inductive Lexeme where
  | openList | closeList | openRecord | closeRecord | colon | comma
  /-- A string. -/
  | text (t : Text)
  /-- A constant or a number. -/
  | atom (v : Value)
  /-- A whole number of too many digits. -/
  | longNumber (digits : Nat)
  /-- Something that begins like a string and is none. -/
  | badText (f : Fault)
  /-- Something that begins no word. -/
  | unreadable

/-- The blanks between words. -/
def isBlank (c : CodePoint) : Bool := c.val = 32 || c.val = 9 || c.val = 10 || c.val = 13

/-- What follows the blanks at the beginning of a text. -/
def dropBlanks (t : Text) : Text := t.dropWhile isBlank

theorem length_dropBlanks_le (t : Text) : (dropBlanks t).length ≤ t.length :=
  (List.dropWhile_suffix _).length_le

/-! ## 3. Strings -/

/-- The code point that a backslash and one letter stand for. -/
def shortEscape? (c : CodePoint) : Option CodePoint :=
  if c = CodePoint.ofChar '"' ∨ c = CodePoint.ofChar '\\' ∨ c = CodePoint.ofChar '/' then some c
  else if c = CodePoint.ofChar 'b' then some (CodePoint.ofChar '\x08')
  else if c = CodePoint.ofChar 'f' then some (CodePoint.ofChar '\x0c')
  else if c = CodePoint.ofChar 'n' then some (CodePoint.ofChar '\n')
  else if c = CodePoint.ofChar 'r' then some (CodePoint.ofChar '\r')
  else if c = CodePoint.ofChar 't' then some (CodePoint.ofChar '\t')
  else none

/-- The code point that four hexadecimal digits stand for. -/
def longEscape? (a b c d : CodePoint) : Option CodePoint :=
  match Hex.value? a, Hex.value? b, Hex.value? c, Hex.value? d with
  | some w, some x, some y, some z => CodePoint.ofNat? (((w * 16 + x) * 16 + y) * 16 + z)
  | _, _, _, _ => none

/-- One code point of a string, and whether it was written by its number. -/
abbrev Piece := CodePoint × Bool

/-- A piece in front of those that follow. -/
def consPiece (p : Piece) (r : List Piece × Text) : List Piece × Text := (p :: r.1, r.2)

/-- The pieces of a string up to its closing quote, and the text behind that.  `start` is the text
from the opening quote on.  A numbered escape at the very end of the text counts as malformed. -/
def pieces (start : Text) : Text → Except Fault (List Piece × Text)
  | [] => .error ⟨.unterminatedText, start⟩
  | c :: rest =>
    if c = CodePoint.ofChar '"' then .ok ([], rest)
    else if c = CodePoint.ofChar '\\' then
      match rest with
      | [] => .error ⟨.unterminatedText, start⟩
      | e :: rest' =>
        if e = CodePoint.ofChar 'u' then
          match rest' with
          | w :: x :: y :: z :: next :: more =>
            match longEscape? w x y z with
            | some p => (pieces start (next :: more)).map (consPiece (p, true))
            | none => .error ⟨.malformedEscape, e :: rest'⟩
          | _ => .error ⟨.malformedEscape, e :: rest'⟩
        else match shortEscape? e with
          | some p => (pieces start rest').map (consPiece (p, false))
          | none => .error ⟨.unknownEscape, c :: rest⟩
    else if c.val < 32 then .error ⟨.controlCharacter, c :: rest⟩
    else (pieces start rest).map (consPiece (c, false))

/-- The text of pieces: the two halves of a surrogate pair are one code point if both were written
by their numbers. -/
def joinPieces : List Piece → Text
  | [] => []
  | [(c, _)] => [c]
  | (c, b) :: (d, b') :: rest =>
    if b && b' && c.isHighSurrogate && d.isLowSurrogate then
      Encoding.paired c d :: joinPieces rest
    else c :: joinPieces ((d, b') :: rest)

/-- A piece in front changes nothing about the text behind the string. -/
theorem of_map_consPiece {p : Piece} {e : Except Fault (List Piece × Text)} {ps : List Piece}
    {rest : Text} (h : e.map (consPiece p) = .ok (ps, rest)) : ∃ qs, e = .ok (qs, rest) := by
  cases e with
  | error f => cases h
  | ok r => cases h; exact ⟨r.1, rfl⟩

/-- What stands behind a string is shorter than the string and that together. -/
theorem length_le_of_pieces {start t rest : Text} {ps : List Piece}
    (h : pieces start t = .ok (ps, rest)) : rest.length ≤ t.length := by
  fun_induction pieces start t generalizing ps with
  | case2 => cases h; simp
  | case4 | case7 | case10 =>
    rename_i ih
    obtain ⟨qs, hq⟩ := of_map_consPiece h
    have := ih hq
    simp only [List.length_cons] at this ⊢
    omega
  | case1 | case3 | case5 | case6 | case8 | case9 => cases h

/-! ## 4. Numbers -/

/-- The digits at the beginning of a text, and what follows them. -/
def digits (t : Text) : Text × Text := (t.takeWhile Decimal.isDigit, t.dropWhile Decimal.isDigit)

/-- The digits of a whole number: a zero stands alone. -/
def wholeDigits (t : Text) : Text × Text :=
  match t with
  | c :: rest => if c = Decimal.digit 0 then ([c], rest) else digits t
  | [] => ([], [])

/-- The digits of a fraction, if a point and one digit at least follow. -/
def fraction (t : Text) : Text × Text :=
  match t with
  | c :: rest =>
    if c = CodePoint.ofChar '.' ∧ (digits rest).1 ≠ [] then digits rest else ([], t)
  | [] => ([], [])

/-- A sign at the beginning of a text, and what follows it. -/
def sign (t : Text) : Bool × Text :=
  match t with
  | c :: rest =>
    if c = CodePoint.ofChar '-' then (true, rest)
    else if c = CodePoint.ofChar '+' then (false, rest)
    else (false, t)
  | [] => (false, [])

/-- An exponent, if its letter and one digit at least follow. -/
def exponent (t : Text) : Option Int × Text :=
  match t with
  | c :: rest =>
    if c = CodePoint.ofChar 'e' ∨ c = CodePoint.ofChar 'E' then
      let (neg, rest') := sign rest
      let (ds, more) := digits rest'
      if ds = [] then (none, t)
      else
        let n : Int := Decimal.value ds
        (some (if neg then -n else n), more)
    else (none, t)
  | [] => (none, [])

/-- The number that some digits, a fraction and an exponent write. -/
def number (neg : Bool) (whole frac : Text) (exp : Option Int) : Lexeme :=
  if frac = [] ∧ exp = none then
    match Decimal.read whole with
    | .error n => .longNumber n
    | .ok n => .atom (.int (if neg then -(n : Int) else n))
  else
    .atom (.float (Binary64.ofDecimal neg (Decimal.value (whole ++ frac))
      (exp.getD 0 - (frac.length : Int))))

/-- The number at the beginning of a text without sign, and what follows it. -/
def unsignedNumber (neg : Bool) (t : Text) : Option (Lexeme × Text) :=
  let (whole, t₁) := wholeDigits t
  if whole = [] then none
  else
    let (frac, t₂) := fraction t₁
    let (exp, t₃) := exponent t₂
    some (number neg whole frac exp, t₃)

/-- The number at the beginning of a text, and what follows it. -/
def signedNumber (t : Text) : Option (Lexeme × Text) :=
  match t with
  | c :: rest =>
    if c = CodePoint.ofChar '-' then unsignedNumber true rest else unsignedNumber false t
  | [] => none

/-! ## 5. Words -/

/-- The named constants. -/
def constants : List (Text × Value) := [
  ("null", .null), ("true", .bool true), ("false", .bool false), ("NaN", .float .nan),
  ("Infinity", .float (.infinity false)), ("-Infinity", .float (.infinity true))]

/-- The constant at the beginning of a text, and what follows it. -/
def constant? (t : Text) : Option (Lexeme × Text) :=
  constants.findSome? fun (name, v) => (Text.dropPrefix? name t).map (Lexeme.atom v, ·)

/-- The punctuation mark that a code point is. -/
def mark? (c : CodePoint) : Option Lexeme :=
  if c = CodePoint.ofChar '[' then some .openList
  else if c = CodePoint.ofChar ']' then some .closeList
  else if c.val = 123 then some .openRecord
  else if c.val = 125 then some .closeRecord
  else if c = CodePoint.ofChar ':' then some .colon
  else if c = CodePoint.ofChar ',' then some .comma
  else none

/-- The word that a text begins with, and what follows it; behind a word that cannot be read nothing
follows. -/
def word (c : CodePoint) (rest : Text) : Lexeme × Text :=
  match mark? c with
  | some l => (l, rest)
  | none =>
    if c = CodePoint.ofChar '"' then
      match pieces (c :: rest) rest with
      | .ok (ps, more) => (.text (joinPieces ps), more)
      | .error f => (.badText f, [])
    else ((constant? (c :: rest)).or (signedNumber (c :: rest))).getD (.unreadable, [])

/-! ## 6. The words of a text

A word takes one code point at least, which is why a text has an end of words. -/

theorem length_digits_le (t : Text) : (digits t).2.length ≤ t.length :=
  (List.dropWhile_suffix _).length_le

theorem length_wholeDigits_lt {t : Text} (h : (wholeDigits t).1 ≠ []) :
    (wholeDigits t).2.length < t.length := by
  cases t with
  | nil => exact absurd rfl h
  | cons c rest =>
    by_cases hc : c = Decimal.digit 0
    · simp [wholeDigits, hc]
    · by_cases hd : Decimal.isDigit c = true
      · have := (List.dropWhile_suffix Decimal.isDigit (l := rest)).length_le
        simp only [wholeDigits, if_neg hc, digits, List.dropWhile_cons, hd, if_true,
          List.length_cons]
        omega
      · simp [wholeDigits, hc, digits, hd] at h

theorem length_fraction_le (t : Text) : (fraction t).2.length ≤ t.length := by
  unfold fraction
  split
  · split
    · exact Nat.le_succ_of_le (length_digits_le _)
    · exact Nat.le_refl _
  · exact Nat.le_refl _

theorem length_sign_le (t : Text) : (sign t).2.length ≤ t.length := by
  unfold sign
  split
  · split
    · simp
    · split <;> simp
  · simp

theorem length_exponent_le (t : Text) : (exponent t).2.length ≤ t.length := by
  unfold exponent
  split
  · rename_i c rest
    split
    · dsimp only
      split
      · exact Nat.le_refl _
      · have h₁ := length_digits_le (sign rest).2
        have h₂ := length_sign_le rest
        simp only [List.length_cons]
        omega
    · exact Nat.le_refl _
  · exact Nat.le_refl _

theorem length_of_unsignedNumber {neg : Bool} {t more : Text} {l : Lexeme}
    (h : unsignedNumber neg t = some (l, more)) : more.length < t.length := by
  unfold unsignedNumber at h
  dsimp only at h
  split at h
  · cases h
  · rename_i hw
    cases h
    have h₁ := length_wholeDigits_lt hw
    have h₂ := length_fraction_le (wholeDigits t).2
    have h₃ := length_exponent_le (fraction (wholeDigits t).2).2
    omega

theorem length_of_signedNumber {t more : Text} {l : Lexeme}
    (h : signedNumber t = some (l, more)) : more.length < t.length := by
  unfold signedNumber at h
  split at h
  · split at h
    · exact Nat.lt_succ_of_lt (length_of_unsignedNumber h)
    · exact length_of_unsignedNumber h
  · cases h

theorem length_of_constant? {t more : Text} {l : Lexeme} (h : constant? t = some (l, more)) :
    more.length < t.length := by
  obtain ⟨⟨name, v⟩, hmem, hp⟩ := List.exists_of_findSome?_eq_some h
  obtain ⟨rest, hr, he⟩ := Option.map_eq_some_iff.1 hp
  cases he
  have hname : 0 < name.length := by
    have : ∀ p ∈ constants, 0 < p.1.length := by decide
    exact this _ hmem
  rw [Text.dropPrefix?_eq_some_iff.1 hr, List.length_append]
  omega

/-- What follows a word is no longer than what follows its first code point. -/
theorem length_word_le (c : CodePoint) (rest : Text) : (word c rest).2.length ≤ rest.length := by
  unfold word
  split
  · exact Nat.le_refl _
  · split
    · split
      · rename_i h
        exact length_le_of_pieces h
      · simp
    · cases hc : constant? (c :: rest) with
      | some r => exact Nat.le_of_lt_succ (length_of_constant? hc)
      | none =>
        cases hn : signedNumber (c :: rest) with
        | some r => exact Nat.le_of_lt_succ (length_of_signedNumber hn)
        | none => simp

/-- The words of a text in order, each with the text from its beginning on. -/
def lexemes (t : Text) : List (Lexeme × Text) :=
  match _h : dropBlanks t with
  | [] => []
  | c :: rest => ((word c rest).1, c :: rest) :: lexemes (word c rest).2
termination_by t.length
decreasing_by
  have h₁ := length_dropBlanks_le t
  have h₂ := length_word_le c rest
  rw [_h, List.length_cons] at h₁
  omega

end ContractAbi.Json
