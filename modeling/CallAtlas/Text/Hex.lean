/-!
# Hexadecimal digits
-/

namespace CallAtlas.Text

def hexValue? (c : Char) : Option Nat :=
  if '0' ≤ c ∧ c ≤ '9' then some (c.toNat - '0'.toNat)
  else if 'a' ≤ c ∧ c ≤ 'f' then some (c.toNat - 'a'.toNat + 10)
  else if 'A' ≤ c ∧ c ≤ 'F' then some (c.toNat - 'A'.toNat + 10)
  else none

/-- The number that a run of hexadecimal digits continues from `acc`. -/
def hexFrom? (acc : Nat) : List Char → Option Nat
  | [] => some acc
  | c :: rest =>
      match hexValue? c with
      | some v => hexFrom? (16 * acc + v) rest
      | none => none

/-- The last `count` lower-case hexadecimal digits of a number, the most
significant first. -/
def hexDigits : (count n : Nat) → List Char
  | 0, _ => []
  | count + 1, n => hexDigits count (n / 16) ++ [Nat.digitChar (n % 16)]

def hexOf (n : Nat) : List Char :=
  Nat.toDigits 16 n

end CallAtlas.Text
