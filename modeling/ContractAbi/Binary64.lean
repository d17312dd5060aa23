/-!
# Binary floating point numbers of 64 bits

A number in a JSON text that has a fraction or an exponent stands for the nearest double.  Doubles
are kept as what they are, a sign, a significand and a power of two, and all arithmetic on them is
on natural numbers: nothing rounds but `Ratio.roundHalfEven`, and that once per number read.
-/

namespace ContractAbi

/-! ## 1. Ratios -/

/-- A ratio of natural numbers; the denominator is positive wherever one is used. -/
structure Ratio where
  num : Nat
  den : Nat
deriving DecidableEq

namespace Ratio

/-- `r · b ^ e`. -/
def scale (r : Ratio) (b : Nat) (e : Int) : Ratio :=
  if 0 ≤ e then ⟨r.num * Nat.pow b e.toNat, r.den⟩ else ⟨r.num, r.den * Nat.pow b (-e).toNat⟩

/-- The greatest natural number that is not above a ratio. -/
def floor (r : Ratio) : Nat := r.num / r.den

/-- The nearest natural number; a half goes to the even neighbour. -/
def roundHalfEven (r : Ratio) : Nat :=
  let f := r.floor
  match compare (2 * (r.num % r.den)) r.den with
  | .lt => f
  | .gt => f + 1
  | .eq => if f % 2 = 0 then f else f + 1

end Ratio

/-! ## 2. Doubles -/

/-- A double.  `finite neg m q` is `m · 2 ^ q`, negated if `neg`; the significand stays below
`2 ^ 53`, and below `2 ^ 52` only where `q` has its least value. -/
inductive Binary64 where
  | nan
  | infinity (neg : Bool)
  | finite (neg : Bool) (significand : Nat) (exponent : Int)
deriving DecidableEq

namespace Binary64

/-- The least exponent of a finite double. -/
def minExponent : Int := -1074

/-- The greatest exponent of a finite double. -/
def maxExponent : Int := 971

/-- The significands of most doubles lie from here, `2 ^ 52`, up to twice as much. -/
def leastSignificand : Nat := 0x10000000000000

/-- Zero of either sign. -/
def zero (neg : Bool) : Binary64 := .finite neg 0 minExponent

/-- Whether the number is zero. -/
def isZero : Binary64 → Bool
  | .finite _ 0 _ => true
  | _ => false

/-- The double nearest to a positive ratio: the exponent is the one that leaves 53 binary digits
before the point, unless that is below the least. -/
def ofRatio (neg : Bool) (r : Ratio) : Binary64 :=
  let magnitude : Int := (Nat.log2 r.num : Int) - (Nat.log2 r.den : Int)
  let q := max (magnitude - 53) minExponent
  let q := if 2 * leastSignificand ≤ (r.scale 2 (-q)).floor then q + 1 else q
  let m := (r.scale 2 (-q)).roundHalfEven
  let (m, q) := if m = 2 * leastSignificand then (leastSignificand, q + 1) else (m, q)
  if maxExponent < q then .infinity neg else .finite neg m q

/-- The double nearest to `n · 10 ^ e`.  An exponent that leaves the range whatever the other digits
are is not raised to a power: `10 ^ e` lies beyond `2 ^ (3 * e)`, on the far side from one. -/
def ofDecimal (neg : Bool) (n : Nat) (e : Int) : Binary64 :=
  if n = 0 then zero neg
  else
    let bits : Int := Nat.log2 n
    if 1030 < bits + 3 * e ∧ 0 ≤ e then .infinity neg
    else if bits + 3 * e < -1090 ∧ e < 0 then zero neg
    else ofRatio neg (Ratio.scale ⟨n, 1⟩ 10 e)

/-- The magnitude of a finite double. -/
def ratio (significand : Nat) (exponent : Int) : Ratio := Ratio.scale ⟨significand, 1⟩ 2 exponent

/-- The integer that a double is, if it is one. -/
def toInt? : Binary64 → Option Int
  | .finite neg m q =>
    let r := ratio m q
    if r.num % r.den = 0 then some (if neg then -(r.floor : Int) else r.floor) else none
  | _ => none

end Binary64

end ContractAbi
