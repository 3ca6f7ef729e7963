/-!
# Decimal digits

The characters with the Unicode property `Nd`. They come in runs of ten, so
the table lists the first of each run. Only the run that starts at `0` has
values here: a numeral with a digit of another script is recognised and then
refused.
-/

namespace CallAtlas.Text

/-- The zero of each run of ten decimal digits. -/
def digitZeros : List Nat :=
  [0x30, 0x660, 0x6F0, 0x7C0, 0x966, 0x9E6, 0xA66, 0xAE6, 0xB66, 0xBE6, 0xC66, 0xCE6, 0xD66,
   0xDE6, 0xE50, 0xED0, 0xF20, 0x1040, 0x1090, 0x17E0, 0x1810, 0x1946, 0x19D0, 0x1A80, 0x1A90,
   0x1B50, 0x1BB0, 0x1C40, 0x1C50, 0xA620, 0xA8D0, 0xA900, 0xA9D0, 0xA9F0, 0xAA50, 0xABF0,
   0xFF10, 0x104A0, 0x10D30, 0x10D40, 0x11066, 0x110F0, 0x11136, 0x111D0, 0x112F0, 0x11450,
   0x114D0, 0x11650, 0x116C0, 0x116D0, 0x116DA, 0x11730, 0x118E0, 0x11950, 0x11BF0, 0x11C50,
   0x11D50, 0x11DA0, 0x11DE0, 0x11F50, 0x16130, 0x16A60, 0x16AC0, 0x16B50, 0x16D70, 0x1CCF0,
   0x1D7CE, 0x1D7D8, 0x1D7E2, 0x1D7EC, 0x1D7F6, 0x1E140, 0x1E2F0, 0x1E4F0, 0x1E5F1, 0x1E950,
   0x1FBF0]

/-- Whether a character is a decimal digit of any script. -/
def isDigit (c : Char) : Bool :=
  digitZeros.any fun first => first ≤ c.toNat && c.toNat < first + 10

/-- The number that a nonempty run of the digits `0` to `9` writes. -/
def natOfDigits? (digits : List Char) : Option Nat :=
  if digits.isEmpty || !digits.all Char.isDigit then none
  else some (Nat.ofDigitChars 10 digits 0)

/-- The number that such a run writes, if it fits 32 bits. -/
def wordOfDigits? (digits : List Char) : Option UInt32 :=
  match natOfDigits? digits with
  | some n => if n < 0x100000000 then some n.toUInt32 else none
  | none => none

def digitsOf (n : Nat) : List Char :=
  Nat.toDigits 10 n

theorem natOfDigits?_digitsOf (n : Nat) : natOfDigits? (digitsOf n) = some n := by
  have hall : ∀ c ∈ Nat.toDigits 10 n, c.isDigit = true :=
    fun _ h => Nat.isDigit_of_mem_toDigits (by decide) (by decide) h
  simp [natOfDigits?, digitsOf, Nat.ofDigitChars_toDigits]
  exact hall

end CallAtlas.Text
