import CallAtlas.Double
import CallAtlas.Json.Node

/-!
# JSON numbers

A number is scanned by its parts: integer, fraction and exponent. An integer
keeps its value if 64 bits hold it; of every other number only this is kept,
whether a double can hold it.
-/

namespace CallAtlas.Json

def spanDigits (text : List Char) : List Char × List Char :=
  (text.takeWhile Char.isDigit, text.dropWhile Char.isDigit)

def ofDouble (x : Double) : Node :=
  if x.isInfinite then .unbounded else .real

/-- An integer as a value. Minus zero, and what 64 bits do not hold, is kept as
a double. -/
def integer (isNegative : Bool) (n : Nat) : Node :=
  if isNegative then
    if n = 0 ∨ 0x8000000000000000 < n then ofDouble (.ofDecimal true n 0) else .negative n
  else if n < 0x10000000000000000 then .natural n
  else ofDouble (.ofDecimal false n 0)

def decimal (digits : List Char) (exponent : Int) : Node :=
  ofDouble (.ofDecimal false (Nat.ofDigitChars 10 digits 0) exponent)

/-- A number that stops where a digit has to follow. -/
def cutNumber (rest : List Char) : Break :=
  ⟨if rest.isEmpty then .unfinished else .malformed, .malformed⟩

def exponentSign : List Char → Bool × List Char
  | '+' :: rest => (false, rest)
  | '-' :: rest => (true, rest)
  | text => (false, text)

/-- Scans what follows the digits of a number: an exponent, or nothing more.
`scale` counts the digits of the fraction. -/
def scanExponent (digits : List Char) (scale : Nat) : List Char → Node × List Char
  | c :: text =>
      if c = 'e' ∨ c = 'E' then
        let (down, text) := exponentSign text
        let (power, rest) := spanDigits text
        if power.isEmpty then (.broken (cutNumber rest), rest)
        else
          let n : Int := Nat.ofDigitChars 10 power 0
          (decimal digits ((if down then -n else n) - scale), rest)
      else (decimal digits (-scale), c :: text)
  | [] => (decimal digits (-scale), [])

def scanNumber (isNegative : Bool) (text : List Char) : Node × List Char :=
  let (digits, rest) := spanDigits text
  if digits.isEmpty then (.broken (cutNumber rest), rest)
  else if digits.head? = some '0' ∧ 1 < digits.length then (.broken (.both .malformed), rest)
  else
    match rest with
    | '.' :: more =>
        let (fraction, rest) := spanDigits more
        if fraction.isEmpty then (.broken (cutNumber rest), rest)
        else scanExponent (digits ++ fraction) fraction.length rest
    | 'e' :: _ => scanExponent digits 0 rest
    | 'E' :: _ => scanExponent digits 0 rest
    | _ => (integer isNegative (Nat.ofDigitChars 10 digits 0), rest)

theorem length_spanDigits_le (text : List Char) :
    (spanDigits text).2.length ≤ text.length :=
  (List.dropWhile_suffix _).length_le

theorem length_exponentSign_le (text : List Char) :
    (exponentSign text).2.length ≤ text.length := by
  fun_cases exponentSign text <;> simp

theorem length_scanExponent_le (digits : List Char) (scale : Nat) (text : List Char) :
    (scanExponent digits scale text).2.length ≤ text.length := by
  fun_cases scanExponent digits scale text with
  | case1 _ text _ _ more hs _ _ hd =>
      have h₁ := length_exponentSign_le text
      have h₂ := length_spanDigits_le more
      rw [hs] at h₁
      rw [hd] at h₂
      exact Nat.le_trans h₂ (Nat.le_trans h₁ (Nat.le_succ _))
  | case2 _ text _ _ more hs _ _ hd =>
      have h₁ := length_exponentSign_le text
      have h₂ := length_spanDigits_le more
      rw [hs] at h₁
      rw [hd] at h₂
      exact Nat.le_trans h₂ (Nat.le_trans h₁ (Nat.le_succ _))
  | case3 => exact Nat.le_refl _
  | case4 => exact Nat.le_refl _

/-- Scanning a number gives back no more than what follows its first digits. -/
theorem length_scanNumber_le_span (isNegative : Bool) (text : List Char) :
    (scanNumber isNegative text).2.length ≤ (spanDigits text).2.length := by
  unfold scanNumber
  dsimp only
  split
  · exact Nat.le_refl _
  · split
    · exact Nat.le_refl _
    · split
      · rename_i more hrest
        have h₂ := length_spanDigits_le more
        rw [hrest, List.length_cons]
        split
        · exact Nat.le_trans h₂ (by omega)
        · exact Nat.le_trans (length_scanExponent_le ..) (Nat.le_trans h₂ (by omega))
      · exact length_scanExponent_le ..
      · exact length_scanExponent_le ..
      · exact Nat.le_refl _

theorem length_scanNumber_le (isNegative : Bool) (text : List Char) :
    (scanNumber isNegative text).2.length ≤ text.length :=
  Nat.le_trans (length_scanNumber_le_span ..) (length_spanDigits_le _)

theorem length_scanNumber_lt (isNegative : Bool) {c : Char} (h : c.isDigit) (text : List Char) :
    (scanNumber isNegative (c :: text)).2.length < (c :: text).length := by
  refine Nat.lt_of_le_of_lt (length_scanNumber_le_span ..) ?_
  simp only [spanDigits, List.dropWhile_cons, h, if_true, List.length_cons]
  exact Nat.lt_succ_of_le (List.dropWhile_suffix _).length_le

end CallAtlas.Json
