/-!
# Shortest decimal of a binary floating-point number

A finite double is `m · 2^q` with natural `m`.  The reals that round to it form
an interval around it, whose ends belong to it exactly when `m` is even.  Among
the decimals in that interval we choose one with the fewest digits, and of
those the one nearest to the number; the even digit wins a tie.  All tests are
exact: both sides are brought to a common denominator and compared as natural
numbers.
-/

namespace StackLang.Decimal

/-- A positive number `significand · 2^exponent`, with a flag for the powers of
two at which the spacing of doubles changes. -/
structure Binary where
  significand : Nat
  exponent : Int
  /-- The next smaller double is only half as far away as the next larger one. -/
  atBinade : Bool
  deriving Repr, DecidableEq

/-- Decimal digits and the power of ten they are multiplied with. -/
structure Digits where
  coefficient : Nat
  exponent : Int
  deriving Repr, DecidableEq

/-- `base ^ exponent`, and one for a negative exponent. -/
def powerPart (base : Nat) (exponent : Int) : Nat :=
  Nat.pow base exponent.toNat

/-- A quarter unit of the last place of `x`, over the common denominator of
`x` and `10^k`. -/
def quarterUnit (x : Binary) (k : Int) : Nat :=
  powerPart 2 (x.exponent - 2) * powerPart 10 (-k)

/-- One step of the decimal grid `10^k`, over the same denominator. -/
def gridStep (x : Binary) (k : Int) : Nat :=
  powerPart 2 (2 - x.exponent) * powerPart 10 k

/-- Distance from `x` to the lower end of its interval, in quarter units. -/
def lowerGap (x : Binary) : Nat :=
  if x.atBinade then 1 else 2

/-- Whether `c · 10^k` rounds to `x`. -/
def roundsTo (x : Binary) (k : Int) (c : Nat) : Bool :=
  let point := c * gridStep x k
  let low := (4 * x.significand - lowerGap x) * quarterUnit x k
  let high := (4 * x.significand + 2) * quarterUnit x k
  if x.significand % 2 = 0 then low ≤ point && point ≤ high
  else low < point && point < high

/-- The chosen multiple of `10^k` that rounds to `x`, if there is one. -/
def onGrid (x : Binary) (k : Int) : Option Nat :=
  let value := 4 * x.significand * quarterUnit x k
  let step := gridStep x k
  let below := value / step
  let above := below + 1
  match roundsTo x k below, roundsTo x k above with
  | true, false => some below
  | false, true => some above
  | false, false => none
  | true, true =>
    let toBelow := value - below * step
    let toAbove := above * step - value
    if toBelow < toAbove then some below
    else if toAbove < toBelow then some above
    else if below % 2 = 0 then some below else some above

/-- Tries the grids from `10^k` downwards. -/
def searchFrom (x : Binary) : Nat → Int → Option Digits
  | 0, _ => none
  | tries + 1, k =>
    match onGrid x k with
    | some c => some ⟨c, k⟩
    | none => searchFrom x tries (k - 1)

/-- A power of ten above `x`, from its length in bits: `30103 / 100000` is a
little more than the logarithm of two. -/
def gridAbove (x : Binary) : Int :=
  (Nat.log2 x.significand + 1 + x.exponent) * 30103 / 100000 + 2

/-- The shortest decimal that reads back as `x`.  Seventeen digits always
suffice, so the search from a grid above `x` ends within its bound. -/
def shortest (x : Binary) : Digits :=
  (searchFrom x 24 (gridAbove x)).getD ⟨0, 0⟩

end StackLang.Decimal
