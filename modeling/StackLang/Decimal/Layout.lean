import StackLang.Decimal.Shortest

/-!
# How doubles are written

A double is written with the fewest digits that read back.  The point stays
within the digits, or is reached by zeros, while the number is below `10^16`
and not below `10^-5`; otherwise the digits are scientific, with a bare
exponent.  A number written with a point always has a digit after it.
-/

namespace StackLang.Decimal

/-- The digits of a natural number. -/
def digitsOf (n : Nat) : List Char :=
  Nat.toDigits 10 n

/-- A run of zeros. -/
def zeros (n : Nat) : List Char :=
  List.replicate n '0'

/-- An integer in decimal. -/
def ofInt : Int → List Char
  | .ofNat n => digitsOf n
  | .negSucc n => '-' :: digitsOf (n + 1)

/-- Places the point.  With `digits` and `exponent` for `coefficient · 10^exponent`,
the point belongs `digits + exponent` places after the start. -/
def place (digits : List Char) (exponent : Int) : List Char :=
  let point : Int := digits.length + exponent
  if 0 ≤ exponent ∧ point ≤ 16 then digits ++ zeros exponent.toNat ++ ['.', '0']
  else if 0 < point ∧ point ≤ 16 then
    digits.take point.toNat ++ ['.'] ++ digits.drop point.toNat
  else if -5 < point ∧ point ≤ 0 then ['0', '.'] ++ zeros (-point).toNat ++ digits
  else
    match digits with
    | [d] => [d, 'e'] ++ ofInt (point - 1)
    | d :: more => [d, '.'] ++ more ++ ['e'] ++ ofInt (point - 1)
    | [] => []

/-- The sign bit of a double. -/
def isNegative (x : Float) : Bool :=
  x.toBits >>> 63 == 1

/-- The biased exponent of a double. -/
def exponentField (x : Float) : Nat :=
  ((x.toBits >>> 52) &&& 0x7FF).toNat

/-- The fraction bits of a double. -/
def fractionField (x : Float) : Nat :=
  (x.toBits &&& 0xFFFFFFFFFFFFF).toNat

/-- The magnitude of a finite double; zero has significand zero. -/
def magnitude (x : Float) : Binary :=
  let field := exponentField x
  let fraction := fractionField x
  if field = 0 then ⟨fraction, -1074, false⟩
  else ⟨Nat.pow 2 52 + fraction, (field : Int) - 1075, fraction == 0 && field > 1⟩

/-- A double as text. -/
def ofFloat (x : Float) : String :=
  let sign := if isNegative x then ['-'] else []
  if exponentField x = 0x7FF then
    if fractionField x = 0 then String.ofList (sign ++ ['i', 'n', 'f']) else "NaN"
  else
    let magnitude := magnitude x
    if magnitude.significand = 0 then String.ofList (sign ++ ['0', '.', '0'])
    else
      let decimal := shortest magnitude
      String.ofList (sign ++ place (digitsOf decimal.coefficient) decimal.exponent)

/-- A machine integer as text. -/
def ofInt64 (n : Int64) : String :=
  String.ofList (ofInt n.toInt)

end StackLang.Decimal
