import CallAtlas.Text.Digit

/-!
# Doubles

Numbers with a fraction: 53 binary digits and an exponent. A decimal is rounded
to the nearest double, a tie going to the even neighbour. All arithmetic is
exact.
-/

namespace CallAtlas

inductive Double where
  /-- Plus or minus `mantissa · 2 ^ exponent`. -/
  | finite (isNegative : Bool) (mantissa : Nat) (exponent : Int)
  | infinite (isNegative : Bool)
deriving DecidableEq, Repr

namespace Double

/-- The quotient rounded to the nearest number, a tie to the even one. -/
def divEven (num den : Nat) : Nat :=
  let q := num / den
  let r := num % den
  if 2 * r < den ∨ (2 * r = den ∧ q % 2 = 0) then q else q + 1

/-- The quotient rounded to the nearest number, a tie upwards. -/
def divUp (num den : Nat) : Nat :=
  (2 * num + den) / (2 * den)

/-- `num / den · base ^ exponent` as a quotient. -/
def scale (base : Nat) (num den : Nat) (exponent : Int) : Nat × Nat :=
  (num * Nat.pow base exponent.toNat, den * Nat.pow base (-exponent).toNat)

/-- The largest `e` with `2 ^ e ≤ num / den`. -/
def log2Ratio (num den : Nat) : Int :=
  let e : Int := num.log2 - den.log2
  let (n, d) := scale 2 num den (-e)
  if d ≤ n then e else e - 1

/-- The largest `e` with `10 ^ e ≤ num / den`. -/
def log10Ratio (num den : Nat) : Int :=
  let e : Int := (Text.digitsOf num).length - (Text.digitsOf den).length
  let (n, d) := scale 10 num den (-e)
  if d ≤ n then e else e - 1

def leastMantissa : Nat := 0x10000000000000

def ofRatio (isNegative : Bool) (num den : Nat) : Double :=
  let exponent := max (log2Ratio num den) (-1022) - 52
  let (n, d) := scale 2 num den (-exponent)
  let mantissa := divEven n d
  let (mantissa, exponent) :=
    if mantissa = 2 * leastMantissa then (leastMantissa, exponent + 1) else (mantissa, exponent)
  if exponent > 971 then infinite isNegative
  else if mantissa = 0 then finite false 0 0
  else finite isNegative mantissa exponent

/-- The double nearest to `digits · 10 ^ exponent`. What is far too large or
too small for a double is recognised by its size. -/
def ofDecimal (isNegative : Bool) (digits : Nat) (exponent : Int) : Double :=
  let magnitude : Int := (Text.digitsOf digits).length + exponent
  if digits = 0 ∨ magnitude < -330 then finite false 0 0
  else if magnitude > 310 then infinite isNegative
  else
    let (num, den) := scale 10 digits 1 exponent
    ofRatio isNegative num den

/-- The double with these 64 bits, unless they are those of no number. -/
def ofBits? (bits : Nat) : Option Double :=
  let isNegative : Bool := 0x8000000000000000 ≤ bits
  let power : Nat := bits / leastMantissa % 2048
  let fraction : Nat := bits % leastMantissa
  if power = 2047 then if fraction = 0 then some (infinite isNegative) else none
  else if power = 0 then some (finite isNegative fraction (-1074))
  else some (finite isNegative (leastMantissa + fraction) ((power : Int) - 1075))

def isInfinite : Double → Bool
  | infinite _ => true
  | finite _ _ _ => false

/-- The integer that a double is, if 64 bits hold it and its neighbours. -/
def toInt? : Double → Option Int
  | infinite _ => none
  | finite isNegative mantissa exponent =>
      let (num, den) := scale 2 mantissa 1 exponent
      let n := num / den
      if num % den = 0 ∧ n < 0x7FFFFFFFFFFFFFFF then some (if isNegative then -n else n) else none

/-! ## Text -/

def dropZeros (digits : List Char) : List Char :=
  (digits.reverse.dropWhile (· = '0')).reverse

/-- A decimal point and the digits behind it, at least one. -/
def fraction (digits : List Char) : List Char :=
  '.' :: (if digits.isEmpty then ['0'] else digits)

/-- Digits whose first stands for the power `exponent` of ten, written out. -/
def positional (digits : List Char) (exponent : Int) : List Char :=
  if exponent < 0 then
    '0' :: fraction (List.replicate ((-exponent).toNat - 1) '0' ++ digits)
  else
    let whole := exponent.toNat + 1
    digits.take whole ++ List.replicate (whole - digits.length) '0' ++ fraction (digits.drop whole)

/-- The same digits with the exponent behind them, which has two digits or
more. -/
def scientific (digits : List Char) (exponent : Int) : List Char :=
  let power := Text.digitsOf exponent.natAbs
  digits.take 1 ++ fraction (digits.drop 1) ++ ['e', if exponent < 0 then '-' else '+'] ++
    List.replicate (2 - power.length) '0' ++ power

/-- The text of a double: its first fifteen digits, without zeros at the end
but with a fraction, positional between one ten-thousandth and the fifteenth
power of ten. -/
def text : Double → String
  | infinite isNegative => if isNegative then "-Inf" else "Inf"
  | finite isNegative mantissa exponent =>
      if mantissa = 0 then "0.0"
      else
        let (num, den) := scale 2 mantissa 1 exponent
        let power := log10Ratio num den
        let (n, d) := scale 10 num den (14 - power)
        let rounded := divUp n d
        let power := if rounded = 1000000000000000 then power + 1 else power
        let digits := dropZeros (Text.digitsOf rounded)
        let unsigned :=
          if power < -4 ∨ power > 14 then scientific digits power else positional digits power
        String.ofList (if isNegative then '-' :: unsigned else unsigned)

end Double

end CallAtlas
