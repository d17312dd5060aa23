import ContractAbi.Binary64
import ContractAbi.Text.Decimal

/-!
# The shortest decimal of a double

A double is written with the fewest significant digits that read back as the same double, and among
those with the nearest.  The reals that round to `m · 2 ^ q` form an interval around it, its ends
included when `m` is even.  If any decimal with `n` digits lies in the interval, one of the two
neighbours of the double among those decimals does, so two candidates per digit count are enough.
-/

namespace ContractAbi.Binary64

/-! ## 1. The interval -/

/-- The reals that round to a double, in quarters of the unit of its significand: `low` and `high`
are the ends, `closed` says whether they belong to the interval. -/
structure Interval where
  low : Nat
  high : Nat
  closed : Bool
deriving DecidableEq

/-- Below a power of two doubles lie twice as close, so the lower half gap is a quarter there. -/
def interval (m : Nat) (q : Int) : Interval where
  low := if m = leastSignificand ∧ minExponent < q then 4 * m - 1 else 4 * m - 2
  high := 4 * m + 2
  closed := m % 2 = 0

/-- Whether `c` units lie in the interval of `m · 2 ^ q`, where `scaled` is `m · 2 ^ q` counted in
the same units. -/
def Interval.holds (i : Interval) (m : Nat) (scaled : Ratio) (c : Nat) : Bool :=
  let here := c * (4 * m) * scaled.den
  let low := i.low * scaled.num
  let high := i.high * scaled.num
  if i.closed then low ≤ here && here ≤ high else low < here && here < high

/-! ## 2. The digits -/

/-- The number of decimal digits before the point of a ratio, or, below one, the number of zeros
after the point, negated.  It is at least `-324` for a double, which bounds the search. -/
def decimalMagnitude (r : Ratio) : Int :=
  if r.den ≤ r.num then (Decimal.render r.floor).length
  else match (List.range 330).find? fun k => r.den ≤ r.num * Nat.pow 10 (k + 1) with
    | some k => -(k : Int)
    | none => -330

/-- The neighbour of a double on the grid of one digit count that lies in its interval; of two the
nearer, of two at one distance the even. -/
def candidate? (i : Interval) (m : Nat) (scaled : Ratio) : Option Nat :=
  let f := scaled.floor
  match i.holds m scaled f, i.holds m scaled (f + 1) with
  | true, true => some scaled.roundHalfEven
  | true, false => some f
  | false, true => some (f + 1)
  | false, false => none

/-- The shortest decimal of a positive double: a number and the power of ten that goes with it. -/
def shortest (m : Nat) (q : Int) : Nat × Int :=
  let r := ratio m q
  let magnitude := decimalMagnitude r
  let i := interval m q
  let attempt (digits : Nat) : Option (Nat × Int) :=
    let unit := magnitude - (digits : Int)
    (candidate? i m (r.scale 10 (-unit))).map (·, unit)
  ((List.range' 1 17).findSome? attempt).getD (m, 0)

/-! ## 3. The notation -/

/-- The digits without trailing zeros. -/
def significant (c : Nat) : Text :=
  ((Decimal.render c).reverse.dropWhile (· = Decimal.digit 0)).reverse

/-- `n` zeros. -/
def zeros (n : Nat) : Text := List.replicate n (Decimal.digit 0)

/-- Positional notation: `point` digits stand before the point, and one digit at least after it. -/
def positional (ds : Text) (point : Int) : Text :=
  if point ≤ 0 then ("0." : Text) ++ zeros (-point).toNat ++ ds
  else if ds.length ≤ point.toNat then ds ++ zeros (point.toNat - ds.length) ++ (".0" : Text)
  else ds.take point.toNat ++ ("." : Text) ++ ds.drop point.toNat

/-- Exponent notation: the exponent has a sign and two digits at least. -/
def scientific (ds : Text) (exponent : Int) : Text :=
  let size := Decimal.render exponent.natAbs
  ds.take 1 ++ (if 1 < ds.length then ("." : Text) ++ ds.drop 1 else []) ++
    ((if exponent < 0 then "e-" else "e+") : Text) ++ zeros (2 - size.length) ++ size

/-- The text of a double.  Positional notation serves from `0.0001` up to sixteen digits before the
point. -/
def text : Binary64 → Text
  | .nan => "nan"
  | .infinity neg => if neg then "-inf" else "inf"
  | .finite neg m q =>
    let sign : Text := if neg then "-" else ""
    if m = 0 then sign ++ ("0.0" : Text)
    else
      let (c, unit) := shortest m q
      let point := (Decimal.render c).length + unit
      let ds := significant c
      sign ++ if -4 < point ∧ point ≤ 16 then positional ds point else scientific ds (point - 1)

end ContractAbi.Binary64
