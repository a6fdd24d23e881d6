import Cadence.Text.Numeral

/-!
# Binary floating-point numbers

The numbers of the 64-bit binary format, held as sign, mantissa and exponent so that all arithmetic
on them is exact arithmetic on whole numbers. A decimal is read as the nearest such number, a tie
going to the even mantissa (`Binary64.ofDecimal`), and a number is written with the fewest digits
that read back as the same number (`Binary64.text`).
-/

namespace Cadence

/-- A number of the 64-bit binary format: `mantissa · 2 ^ exponent`, infinite, or none. -/
inductive Binary64 where
  | nan
  | infinity (negative : Bool)
  | finite (negative : Bool) (mantissa : Nat) (exponent : Int)
  deriving DecidableEq, Repr, Inhabited

namespace Binary64

/-- The least exponent of a finite number. -/
def leastExponent : Int := -1074

/-- The greatest exponent of a finite number. -/
def greatestExponent : Int := 971

/-- The quotient of two numbers counted in units of `base ^ place`: numerator and denominator of
    `num / den / base ^ place`. -/
def inUnits (base num den : Nat) (place : Int) : Nat × Nat :=
  if 0 ≤ place then (num, den * Nat.pow base place.toNat) else (num * Nat.pow base (-place).toNat, den)

/-- The nearest whole number to a quotient, a tie going to the even one. -/
def nearestEven (num den : Nat) : Nat :=
  let q := num / den
  let twice := 2 * (num % den)
  if twice < den then q else if den < twice then q + 1 else q + q % 2

/-- The exponent that gives the positive quotient `num / den` a mantissa of 53 digits. -/
def normalExponent (num den : Nat) : Int :=
  let guess : Int := (num.log2 : Int) - den.log2 - 52
  let quotient := inUnits 2 num den guess
  if quotient.1 < quotient.2 * Nat.pow 2 52 then guess - 1 else guess

/-- The number with a mantissa and an exponent, infinite if the exponent is too large. -/
def bounded (negative : Bool) (mantissa : Nat) (exponent : Int) : Binary64 :=
  if greatestExponent < exponent then .infinity negative else .finite negative mantissa exponent

/-- The number with a mantissa of 53 digits, or one more where it has been rounded up. -/
def rounded (negative : Bool) (mantissa : Nat) (exponent : Int) : Binary64 :=
  if mantissa = Nat.pow 2 53 then bounded negative (Nat.pow 2 52) (exponent + 1) else bounded negative mantissa exponent

/-- The number nearest to the positive quotient `num / den`. -/
def ofQuotient (negative : Bool) (num den : Nat) : Binary64 :=
  let exponent := max leastExponent (normalExponent num den)
  let quotient := inUnits 2 num den exponent
  rounded negative (nearestEven quotient.1 quotient.2) exponent

/-- The number nearest to `digits · 10 ^ exponent`. -/
def ofDecimal (negative : Bool) (digits : Nat) (exponent : Int) : Binary64 :=
  if digits = 0 then .finite negative 0 leastExponent
  else
    let size := exponent + (Text.ofNat digits).length
    if 400 < size then .infinity negative
    else if size < -400 then .finite negative 0 leastExponent
    else
      let quotient := inUnits 10 digits 1 (-exponent)
      ofQuotient negative quotient.1 quotient.2

/-- The number is one of the two zeros. -/
def isZero : Binary64 → Bool
  | finite _ 0 _ => true
  | _ => false

/-- The whole part, towards zero; none for what is not finite. -/
def truncate? : Binary64 → Option Int
  | finite negative m e =>
    let size : Int := if 0 ≤ e then m * Nat.pow 2 e.toNat else m / Nat.pow 2 (-e).toNat
    some (if negative then -size else size)
  | _ => none

/-- The number is a whole number. -/
def isWhole : Binary64 → Bool
  | finite _ m e => 0 ≤ e || m % Nat.pow 2 (-e).toNat = 0
  | _ => false

/-- The two are the same number; the two zeros are, and what is no number is the same as itself. -/
def same : Binary64 → Binary64 → Bool
  | finite n₁ m₁ e₁, finite n₂ m₂ e₂ => (m₁ = 0 && m₂ = 0) || (n₁ = n₂ && m₁ = m₂ && e₁ = e₂)
  | a, b => a = b

/-! ### Writing -/

/-- The number is at least `10 ^ k`, for `num / den` positive. -/
def reaches (num den : Nat) (k : Int) : Bool :=
  let quotient := inUnits 10 num den k
  quotient.2 ≤ quotient.1

/-- The greatest `k` with `10 ^ k ≤ num / den`, searched downwards from `start`. -/
def leadingPlace (num den : Nat) (start : Int) : Nat → Int
  | 0 => start
  | fuel + 1 => if reaches num den start then start else leadingPlace num den (start - 1) fuel

/-- The decimal `digits · 10 ^ last` is read as `x`. -/
def isReadFrom (x : Binary64) (digits : Nat) (last : Int) : Bool := (ofDecimal false digits last).same x

/-- The fewest digits that read back as `x`, tried from `count` digits on, with the place of the last
    digit. Of the two decimals next to the number on each grid the nearer one wins. -/
def shortestFrom (x : Binary64) (num den : Nat) (place : Int) (count : Nat) : Nat → Nat × Int
  | 0 => (0, 0)
  | fuel + 1 =>
    let last := place + 1 - count
    let quotient := inUnits 10 num den last
    let below := quotient.1 / quotient.2
    let twice := 2 * (quotient.1 % quotient.2)
    let lowNearer := twice < quotient.2 || (twice = quotient.2 && below % 2 = 0)
    if x.isReadFrom below last && (lowNearer || ! x.isReadFrom (below + 1) last) then (below, last)
    else if x.isReadFrom (below + 1) last then (below + 1, last)
    else shortestFrom x num den place (count + 1) fuel

/-- The digits without the zeros at their end. -/
def significant (digits : Text) : Text := Text.dropTrailing '0' digits

/-- Digits with the first of them at a place: positional from a ten-thousandth up to sixteen places
    before the point, otherwise with a power of ten. -/
def placed (shown : Text) (first : Int) : Text :=
  if -4 ≤ first ∧ first < 16 then
    if first < 0 then
      ("0." : Text) ++ List.replicate (-first - 1).toNat '0' ++ shown
    else
      let whole := Text.padRight (first.toNat + 1) '0' (shown.take (first.toNat + 1))
      let rest := shown.drop (first.toNat + 1)
      whole ++ '.' :: (if rest.isEmpty then ['0'] else rest)
  else
    let rest := shown.drop 1
    shown.take 1 ++ (if rest.isEmpty then [] else '.' :: rest) ++
      (if first < 0 then ['e', '-'] else ['e', '+']) ++ Text.ofNatPadded 2 first.natAbs

/-- The decimal `digits · 10 ^ last` as it is written. -/
def decimalText (digits : Nat) (last : Int) : Text :=
  let all := Text.ofNat digits
  placed (significant all) (last + all.length - 1)

/-- A finite number other than zero in the fewest digits that read back as it. -/
def finiteText (mantissa : Nat) (exponent : Int) : Text :=
  let quotient := inUnits 2 mantissa 1 (-exponent)
  let place := leadingPlace quotient.1 quotient.2 309 640
  let decimal := shortestFrom (.finite false mantissa exponent) quotient.1 quotient.2 place 1 17
  decimalText decimal.1 decimal.2

/-- A number as text that reads back as the same number. -/
def text (notNumber infinite : Text) : Binary64 → Text
  | nan => notNumber
  | infinity negative => if negative then '-' :: infinite else infinite
  | finite negative m e =>
    let size : Text := if m = 0 then "0.0" else finiteText m e
    if negative then '-' :: size else size

end Binary64

end Cadence
