import CallAtlas.Double

/-!
# Cells

What a table holds in one place, and what a column makes of a value that is put
into it: a column of texts writes numbers out, a column of numbers takes a text
that is a number for that number, and a fraction that is whole for an integer.
-/

namespace CallAtlas.Store

inductive Cell where
  | null
  | integer (n : Int)
  | real (x : Double)
  | text (content : String)
  | blob (bytes : List UInt8)
deriving DecidableEq, Repr

inductive Affinity where
  | text
  | number
deriving DecidableEq, Repr

structure Numeral where
  isNegative : Bool
  /-- The digits of its integer and fraction, as one number. -/
  digits : Nat
  exponent : Int
  isInteger : Bool
deriving DecidableEq, Repr

namespace Numeral

def isSpace (c : Char) : Bool :=
  c = ' ' || (0x9 ≤ c.toNat && c.toNat ≤ 0xD)

/-- Drops a sign; the flag says whether it was a minus. -/
def sign : List Char → Bool × List Char
  | '-' :: rest => (true, rest)
  | '+' :: rest => (false, rest)
  | text => (false, text)

def spanDigits (text : List Char) : List Char × List Char :=
  (text.takeWhile Char.isDigit, text.dropWhile Char.isDigit)

/-- The power of ten behind a number, which has to end there. -/
def power? : List Char → Option Int
  | c :: rest =>
      if c = 'e' ∨ c = 'E' then
        let (isNegative, rest) := sign rest
        let (digits, rest) := spanDigits rest
        if digits.isEmpty || !rest.isEmpty then none
        else
          let n : Int := Nat.ofDigitChars 10 digits 0
          some (if isNegative then -n else n)
      else none
  | [] => none

def read? (text : String) : Option Numeral :=
  let text := text.toList.dropWhile isSpace
  let text := (text.reverse.dropWhile isSpace).reverse
  let (isNegative, text) := sign text
  let (whole, rest) := spanDigits text
  let (point, rest) :=
    match rest with
    | '.' :: rest => (true, rest)
    | rest => (false, rest)
  let (fraction, rest) := if point then spanDigits rest else ([], rest)
  let digits := whole ++ fraction
  if digits.isEmpty then none
  else
    let numeral (exponent : Int) (isInteger : Bool) : Numeral :=
      ⟨isNegative, Nat.ofDigitChars 10 digits 0, exponent - fraction.length, isInteger⟩
    if rest.isEmpty then some (numeral 0 !point)
    else (power? rest).map fun exponent => numeral exponent false

def toInt? (n : Numeral) : Option Int :=
  let value : Int := if n.isNegative then -n.digits else n.digits
  if n.isInteger ∧ -0x8000000000000000 ≤ value ∧ value < 0x8000000000000000 then some value else none

def cell (n : Numeral) : Cell :=
  match n.toInt? with
  | some value => .integer value
  | none =>
      let x := Double.ofDecimal n.isNegative n.digits n.exponent
      match x.toInt? with
      | some value => .integer value
      | none => .real x

end Numeral

def Affinity.store : Affinity → Cell → Cell
  | text, .integer n => .text (toString n)
  | text, .real x => .text x.text
  | text, c => c
  | number, .real x =>
      match x.toInt? with
      | some n => .integer n
      | none => .real x
  | number, .text content =>
      match Numeral.read? content with
      | some n => n.cell
      | none => .text content
  | number, c => c

end CallAtlas.Store
