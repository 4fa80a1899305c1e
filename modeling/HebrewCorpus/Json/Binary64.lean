import HebrewCorpus.Numeral.Decimal

/-! # Numbers of double precision

A number with a fraction is held as the nearest binary number of double precision, a tie going to
the even one, and is written with the fewest decimal digits that read back as the same number.

* **`Binary64`**: a sign, a whole significand below `2 ^ 53` and a power of two, or one of the
  values that are no number.
* **`Binary64.ofDecimal`**: the nearest value to a decimal number.
* **`Binary64.shortest`**: the fewest digits that read back; **`Binary64.text`** writes them. -/

namespace HebrewCorpus

/-- **A binary number of double precision**: `significand * 2 ^ exponent` with a sign. -/
inductive Binary64
  | nan
  | infinite (negative : Bool)
  | finite (negative : Bool) (significand : Nat) (exponent : Int)
  deriving DecidableEq, Repr

namespace Binary64

/-- Zero of either sign. -/
def isZero : Binary64 → Bool
  | .finite _ 0 _ => true
  | _ => false

/-- Numerator and denominator of `num / den / base ^ power`. -/
def scaled (base num den : Nat) (power : Int) : Nat × Nat :=
  if 0 ≤ power then (num, den * Nat.pow base power.toNat)
  else (num * Nat.pow base (-power).toNat, den)

/-- The whole number nearest to `num / den`, a tie going to the even one. -/
def roundRatio (num den : Nat) : Nat :=
  let q := num / den
  let r := 2 * (num % den)
  if den < r ∨ (r = den ∧ q % 2 = 1) then q + 1 else q

/-- The least power of two of a value, in the gap between zero and the least normal number. -/
def leastExponent : Int := -1074

/-- The greatest power of two of a finite value. -/
def greatestExponent : Int := 971

/-- The least significand of a normal number; twice as much is one digit too many. -/
def leastNormal : Nat := Nat.pow 2 52

/-- The nearest value to the positive number `num / den`. -/
def ofRatio (negative : Bool) (num den : Nat) : Binary64 :=
  -- the quotient at the guess has 53 binary digits, or 52 when the numerator is the smaller one
  let guess : Int := max ((num.log2 : Int) - den.log2 - 52) leastExponent
  let (n, d) := scaled 2 num den guess
  let exponent := if n / d < leastNormal ∧ leastExponent < guess then guess - 1 else guess
  let (n, d) := scaled 2 num den exponent
  let m := roundRatio n d
  -- rounding up may carry into one more digit
  let (m, exponent) := if m = 2 * leastNormal then (leastNormal, exponent + 1) else (m, exponent)
  if greatestExponent < exponent then .infinite negative else .finite negative m exponent

/-- **The nearest value to `digits * 10 ^ scale`.** Far beyond the range of finite values the answer
is known from the number of digits alone. -/
def ofDecimal (negative : Bool) (digits : Nat) (scale : Int) : Binary64 :=
  let magnitude : Int := (decimalNat digits).length + scale
  if digits = 0 ∨ magnitude < -330 then .finite negative 0 leastExponent
  else if 310 < magnitude then .infinite negative
  else
    let (num, den) := scaled 10 digits 1 (-scale)
    ofRatio negative num den

/-- The number of digits before the decimal point of a positive number `num / den`; below one, less
the number of zeros that follow the point. -/
def pointPlace (num den : Nat) : Int :=
  let place : Int := (decimalNat num).length - (decimalNat den).length
  let (n, d) := scaled 10 num den place
  if n < d then place else place + 1

/-- The digits of the nearer of the two neighbours of `num / den` among the multiples of
`10 ^ scale` that read back as `x`. -/
def nearestOnGrid? (x : Binary64) (num den : Nat) (scale : Int) : Option Nat :=
  let (n, d) := scaled 10 num den scale
  let below := n / d
  let nearer := roundRatio n d
  let other := if nearer = below then below + 1 else below
  if ofDecimal false nearer scale = x then some nearer
  else if ofDecimal false other scale = x then some other
  else none

/-- **The fewest digits that read back as a positive value**, with the power of ten they are to be
multiplied by. Seventeen digits always suffice. -/
def shortest (significand : Nat) (exponent : Int) : Nat × Int :=
  let (num, den) := scaled 2 significand 1 (-exponent)
  let place := pointPlace num den
  let counts := (List.range 17).map (· + 1)
  (counts.findSome? fun (count : Nat) =>
    (nearestOnGrid? (.finite false significand exponent) num den (place - count)).map
      (·, place - count)).getD (significand, 0)

/-- The digits without the zeros at their end. -/
def dropTrailingZeros (digits : Text) : Text := (digits.reverse.dropWhile (· = '0')).reverse

/-- A power of ten with its sign and at least two digits. -/
def powerText (power : Int) : Text :=
  let digits := decimalNat power.natAbs
  'e' :: (if power < 0 then '-' else '+') :: (if digits.length < 2 then '0' :: digits else digits)

/-- Digits with the decimal point at a place: positional from `0.0001` up to sixteen digits before
the point, else one digit before the point and a power of ten. -/
def layOut (digits : Text) (place : Int) : Text :=
  if -4 < place ∧ place ≤ 16 then
    if place ≤ 0 then "0.".toList ++ List.replicate (-place).toNat '0' ++ digits
    else if digits.length ≤ place.toNat then
      digits ++ List.replicate (place.toNat - digits.length) '0' ++ ".0".toList
    else digits.take place.toNat ++ '.' :: digits.drop place.toNat
  else
    match digits with
    | [] => []
    | [d] => d :: powerText (place - 1)
    | d :: rest => d :: '.' :: rest ++ powerText (place - 1)

/-- **A value in decimal digits**, the fewest that read back as the same value. -/
def text : Binary64 → Text
  | .nan => "nan".toList
  | .infinite negative => (if negative then "-inf" else "inf").toList
  | .finite negative significand exponent =>
    (if negative then ['-'] else []) ++
      if significand = 0 then "0.0".toList
      else
        let (digits, scale) := shortest significand exponent
        let shown := decimalNat digits
        layOut (dropTrailingZeros shown) (shown.length + scale)

/-- The whole number that a value is, when it is one. -/
def toInt? : Binary64 → Option Int
  | .finite negative significand exponent =>
    let (n, d) := scaled 2 significand 1 (-exponent)
    if n % d = 0 then some (if negative then -((n / d : Nat) : Int) else (n / d : Nat)) else none
  | _ => none

end Binary64

end HebrewCorpus
