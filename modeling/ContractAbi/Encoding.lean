import ContractAbi.Text.Decimal
import ContractAbi.Text.Quoted

/-!
# Text in octets

A text arrives as octets in UTF-8, UTF-16 or UTF-32.  Which of them it is shows in the byte order
mark or, without one, in where the zeros of the first four octets stand (`Encoding.detect`): the
first two characters of a JSON text are ASCII.

Octets that are no text are refused with the place and the extent of the first fault.  In UTF-8 a
fault extends over the octets that did begin a character, and a text that ends in the middle of one
is faulty from its beginning on.  Surrogates that stand alone are a fault in UTF-8 only, and there
only where the reader does not keep them.
-/

namespace ContractAbi

/-- The ways in which text is written in octets. -/
inductive Encoding where
  | utf8
  | utf16 (bigEndian : Bool)
  | utf32 (bigEndian : Bool)
deriving DecidableEq

/-- Why octets are no text. -/
inductive EncodingFault.Reason where
  | invalidStart
  | invalidContinuation
  | unexpectedEnd
  | truncated
  | outOfRange
deriving DecidableEq

/-- The first fault in a run of octets: the octets at fault, and how many stand before them. -/
structure EncodingFault where
  encoding : Encoding
  position : Nat
  octets : List UInt8
  reason : EncodingFault.Reason
deriving DecidableEq

namespace Encoding

/-! ## 1. Names -/

/-- The name of an encoding. -/
def label : Encoding → Text
  | .utf8 => "utf-8"
  | .utf16 big => if big then "utf-16-be" else "utf-16-le"
  | .utf32 big => if big then "utf-32-be" else "utf-32-le"

end Encoding

namespace EncodingFault

/-- A reason in words. -/
def Reason.phrase : Reason → Text
  | .invalidStart => "invalid start byte"
  | .invalidContinuation => "invalid continuation byte"
  | .unexpectedEnd => "unexpected end of data"
  | .truncated => "truncated data"
  | .outOfRange => "code point not in range(0x110000)"

/-- The place of a fault in words: a single octet is shown, several are given by their ends. -/
def place (f : EncodingFault) : Text :=
  match f.octets with
  | [b] =>
    ("byte 0x" : Text) ++ Hex.digits 2 b.toNat ++ (" in position " : Text) ++
      Decimal.render f.position
  | bs =>
    ("bytes in position " : Text) ++ Decimal.render f.position ++ ("-" : Text) ++
      Decimal.render (f.position + bs.length - 1)

/-- The message of a fault. -/
def message (f : EncodingFault) : Text :=
  ("'" : Text) ++ f.encoding.label ++ ("' codec can't decode " : Text) ++ f.place ++
    (": " : Text) ++ f.reason.phrase

end EncodingFault

namespace Encoding

/-! ## 2. UTF-8 -/

/-- Whether an octet lies in a range. -/
def within (low high : Nat) (b : UInt8) : Bool := low ≤ b.toNat && b.toNat ≤ high

/-- Whether an octet continues a character. -/
def isTail : UInt8 → Bool := within 0x80 0xBF

/-- The number of octets that follow a first octet, and the range of the first of them. -/
def tailsAfter (lead : UInt8) : Option (Nat × Nat × Nat) :=
  if within 0xC2 0xDF lead then some (1, 0x80, 0xBF)
  else if lead = 0xE0 then some (2, 0xA0, 0xBF)
  else if lead = 0xED then some (2, 0x80, 0x9F)
  else if within 0xE1 0xEF lead then some (2, 0x80, 0xBF)
  else if lead = 0xF0 then some (3, 0x90, 0xBF)
  else if lead = 0xF4 then some (3, 0x80, 0x8F)
  else if within 0xF1 0xF3 lead then some (3, 0x80, 0xBF)
  else none

/-- Reads the octets that continue a character: `n` are owed, `read` were read, the next must lie
between `low` and `high`.  A fault comes with the number of octets that did continue it. -/
def tails (low high : Nat) : (owed read value : Nat) → List UInt8 →
    Except (Nat × EncodingFault.Reason) Nat
  | 0, _, value, _ => .ok value
  | _ + 1, read, _, [] => .error (read, .unexpectedEnd)
  | owed + 1, read, value, b :: bs =>
    if within low high b then tails 0x80 0xBF owed (read + 1) (64 * value + b.toNat % 64) bs
    else .error (read, .invalidContinuation)

/-- The surrogate at the beginning of some octets, written as if it were a character. -/
def surrogate? (lead : UInt8) (bs : List UInt8) : Option Nat :=
  match bs with
  | b :: c :: _ =>
    if lead = 0xED && within 0xA0 0xBF b && isTail c then
      some (0xD000 + 64 * (b.toNat % 64) + c.toNat % 64)
    else none
  | _ => none

/-- The first character of some octets, and the number of octets that continue it. -/
def leading (keepSurrogates : Bool) (lead : UInt8) (bs : List UInt8) :
    Except (Nat × EncodingFault.Reason) (Nat × Nat) :=
  if lead < 0x80 then .ok (lead.toNat, 0)
  else match (if keepSurrogates then surrogate? lead bs else none), tailsAfter lead with
    | some s, _ => .ok (s, 2)
    | none, none => .error (0, .invalidStart)
    | none, some (owed, low, high) =>
      let bits := lead.toNat % (if owed = 1 then 32 else if owed = 2 then 16 else 8)
      (tails low high owed 0 bits bs).map (·, owed)

/-- The text of UTF-8 octets, of which `position` have been read. -/
def decodeUtf8 (keepSurrogates : Bool) (position : Nat) : List UInt8 → Except EncodingFault Text
  | [] => .ok []
  | b :: bs =>
    match leading keepSurrogates b bs with
    | .error (more, reason) => .error ⟨.utf8, position, b :: bs.take more, reason⟩
    | .ok (n, more) =>
      match CodePoint.ofNat? n with
      | none => .error ⟨.utf8, position, [b], .invalidStart⟩
      | some c => (decodeUtf8 keepSurrogates (position + 1 + more) (bs.drop more)).map (c :: ·)
termination_by bs => bs.length
decreasing_by
  simp only [List.length_cons, List.length_drop]
  omega

/-! ## 3. UTF-16 and UTF-32 -/

/-- The number that some octets write, the first of them of the highest value if `bigEndian`. -/
def number (bigEndian : Bool) (bs : List UInt8) : Nat :=
  (if bigEndian then bs else bs.reverse).foldl (fun n b => 256 * n + b.toNat) 0

/-- A code unit of 16 bits. -/
def unit16 (bigEndian : Bool) (a b : UInt8) : CodePoint :=
  ⟨number bigEndian [a, b] % 0x10000, by omega⟩

/-- The units of UTF-16 octets. -/
def units16 (bigEndian : Bool) (position : Nat) : List UInt8 → Except EncodingFault Text
  | [] => .ok []
  | [b] => .error ⟨.utf16 bigEndian, position, [b], .truncated⟩
  | a :: b :: bs => (units16 bigEndian (position + 2) bs).map (unit16 bigEndian a b :: ·)

/-- The code point of a surrogate pair. -/
def paired (high low : CodePoint) : CodePoint :=
  ⟨0x10000 + 0x400 * ((high.val - 0xD800) % 0x400) + (low.val - 0xDC00) % 0x400, by omega⟩

/-- Joins the surrogate pairs of a text; a surrogate that stands alone is kept. -/
def joinPairs : Text → Text
  | [] => []
  | [c] => [c]
  | c :: d :: rest =>
    if c.isHighSurrogate && d.isLowSurrogate then paired c d :: joinPairs rest
    else c :: joinPairs (d :: rest)

/-- The text of UTF-16 octets. -/
def decodeUtf16 (bigEndian : Bool) (position : Nat) (bs : List UInt8) : Except EncodingFault Text :=
  (units16 bigEndian position bs).map joinPairs

/-- The text of UTF-32 octets. -/
def decodeUtf32 (bigEndian : Bool) (position : Nat) : List UInt8 → Except EncodingFault Text
  | [] => .ok []
  | a :: b :: c :: d :: bs =>
    match CodePoint.ofNat? (number bigEndian [a, b, c, d]) with
    | none => .error ⟨.utf32 bigEndian, position, [a, b, c, d], .outOfRange⟩
    | some p => (decodeUtf32 bigEndian (position + 4) bs).map (p :: ·)
  | bs => .error ⟨.utf32 bigEndian, position, bs, .truncated⟩

/-! ## 4. Detection -/

/-- How octets that arrive without a label are written: the encoding, the place from which positions
count, and the octets behind the byte order mark.  A mark of UTF-8 is not counted in positions, the
other marks are. -/
def detect (bs : List UInt8) : Encoding × Nat × List UInt8 :=
  match bs with
  | 0 :: 0 :: 0xFE :: 0xFF :: rest => (.utf32 true, 4, rest)
  | 0xFF :: 0xFE :: 0 :: 0 :: rest => (.utf32 false, 4, rest)
  | 0xFE :: 0xFF :: rest => (.utf16 true, 2, rest)
  | 0xFF :: 0xFE :: rest => (.utf16 false, 2, rest)
  | 0xEF :: 0xBB :: 0xBF :: rest => (.utf8, 0, rest)
  | a :: b :: c :: d :: _ =>
    if a = 0 then (if b = 0 then .utf32 true else .utf16 true, 0, bs)
    else if b = 0 then (if c = 0 && d = 0 then .utf32 false else .utf16 false, 0, bs)
    else (.utf8, 0, bs)
  | [a, b] =>
    if a = 0 then (.utf16 true, 0, bs) else if b = 0 then (.utf16 false, 0, bs)
    else (.utf8, 0, bs)
  | _ => (.utf8, 0, bs)

/-- The text of octets in one of the encodings. -/
def decode (bs : List UInt8) : Except EncodingFault Text :=
  match detect bs with
  | (.utf8, position, rest) => decodeUtf8 true position rest
  | (.utf16 big, position, rest) => decodeUtf16 big position rest
  | (.utf32 big, position, rest) => decodeUtf32 big position rest

end Encoding

end ContractAbi
