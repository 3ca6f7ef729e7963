import CallAtlas.Double
import CallAtlas.Toml.Text

/-!
# TOML numbers, dates and words

The values that are written without marks. They are told from other text by
their form and range; what they are worth does not matter here.
-/

namespace CallAtlas.Toml

def isBare (c : Char) : Bool :=
  c.isAlphanum || c = '_' || c = '+' || c = '-' || c = '.' || c = ':'

/-! ## Numbers -/

/-- Digits, between any two of which an underscore may stand. -/
def isRun (isDigit : Char → Bool) (text : List Char) : Bool :=
  (text.splitOnP (· = '_')).all fun part => !part.isEmpty && part.all isDigit

def runValue (base : Nat) (text : List Char) : Nat :=
  Nat.ofDigitChars base (text.filter (· ≠ '_')) 0

/-- A decimal integer without sign: a run that starts with zero only if it is
zero. -/
def isWhole (text : List Char) : Bool :=
  isRun Char.isDigit text && (text.head? ≠ some '0' || text.length = 1)

def dropSign : List Char → List Char
  | '+' :: rest => rest
  | '-' :: rest => rest
  | text => text

/-- The least number that 64 bits with a sign do not hold. -/
def integerLimit : Nat := 0x8000000000000000

def isDecimal (text : List Char) : Bool :=
  let digits := dropSign text
  isWhole digits &&
    runValue 10 digits < (if text.head? = some '-' then integerLimit + 1 else integerLimit)

def isRadix : List Char → Bool
  | '0' :: 'x' :: digits => isRun (fun c => (Text.hexValue? c).isSome) digits &&
      (Text.hexFrom? 0 (digits.filter (· ≠ '_'))).any (· < integerLimit)
  | '0' :: 'o' :: digits =>
      isRun (fun c => '0' ≤ c && c ≤ '7') digits && runValue 8 digits < integerLimit
  | '0' :: 'b' :: digits =>
      isRun (fun c => c = '0' || c = '1') digits && runValue 2 digits < integerLimit
  | _ => false

def cut (p : Char → Bool) (text : List Char) : List Char × Option (List Char) :=
  (text.takeWhile (!p ·), (text.dropWhile (!p ·)).tail?)

/-- A number with a fraction, an exponent or both, that is not beyond every
positive double. -/
def isFraction (text : List Char) : Bool :=
  let (mantissa, exponent) := cut (fun c => c = 'e' || c = 'E') (dropSign text)
  let (whole, fraction) := cut (· = '.') mantissa
  let isForm := isWhole whole && (exponent.isSome || fraction.isSome) &&
    fraction.all (isRun Char.isDigit) && exponent.all fun e => isRun Char.isDigit (dropSign e)
  let behind := (fraction.getD []).filter (· ≠ '_')
  let power : Int := runValue 10 (dropSign (exponent.getD []))
  let power := if (exponent.getD []).head? = some '-' then -power else power
  let digits := whole.filter (· ≠ '_') ++ behind
  isForm && (text.head? = some '-' ||
    !(Double.ofDecimal false (runValue 10 digits) (power - behind.length)).isInfinite)

def isNumberWord (text : List Char) : Bool :=
  let word := dropSign text
  word = "inf".toList || word = "nan".toList

/-! ## Dates and times -/

def twoDigits? (a b : Char) : Option Nat :=
  if a.isDigit && b.isDigit then some (Nat.ofDigitChars 10 [a, b] 0) else none

def isLeap (year : Nat) : Bool :=
  year % 4 = 0 && (year % 100 ≠ 0 || year % 400 = 0)

def daysOf (year month : Nat) : Nat :=
  if month = 2 then (if isLeap year then 29 else 28)
  else if month = 4 || month = 6 || month = 9 || month = 11 then 30
  else 31

def afterDate? : List Char → Option (List Char)
  | a :: b :: c :: d :: '-' :: m :: n :: '-' :: x :: y :: rest => do
      let year := 100 * (← twoDigits? a b) + (← twoDigits? c d)
      let month ← twoDigits? m n
      let day ← twoDigits? x y
      if 1 ≤ month ∧ month ≤ 12 ∧ 1 ≤ day ∧ day ≤ daysOf year month then some rest else none
  | _ => none

def afterFraction : List Char → List Char
  | '.' :: d :: rest => if d.isDigit then rest.dropWhile Char.isDigit else '.' :: d :: rest
  | text => text

def afterTime? : List Char → Option (List Char)
  | a :: b :: ':' :: c :: d :: ':' :: e :: f :: rest => do
      let hour ← twoDigits? a b
      let minute ← twoDigits? c d
      let second ← twoDigits? e f
      if hour < 24 ∧ minute < 60 ∧ second ≤ 60 then some (afterFraction rest) else none
  | _ => none

/-- An offset from universal time, or none. -/
def isOffset : List Char → Bool
  | [] => true
  | ['Z'] => true
  | ['z'] => true
  | [s, a, b, ':', c, d] =>
      (s = '+' || s = '-') && (twoDigits? a b).any (· < 24) && (twoDigits? c d).any (· < 60)
  | _ => false

def isClock (text : List Char) : Bool :=
  (afterTime? text).any isOffset

def isMoment (text : List Char) : Bool :=
  match afterDate? text with
  | some [] => true
  | some (t :: time) => (t = 'T' || t = 't') && isClock time
  | none => afterTime? text = some []

/-! ## All of them -/

def isScalar (text : List Char) : Bool :=
  isDecimal text || isRadix text || isFraction text || isNumberWord text || isMoment text ||
    text = "true".toList || text = "false".toList

/-- What follows a time that stands behind a date and one blank. -/
def afterSpacedTime (date text : List Char) : List Char :=
  match text with
  | ' ' :: time =>
      if afterDate? date = some [] && isClock (time.takeWhile isBare) then time.dropWhile isBare
      else text
  | _ => text

theorem length_afterSpacedTime_le (date text : List Char) :
    (afterSpacedTime date text).length ≤ text.length := by
  unfold afterSpacedTime
  split
  · split
    · exact Nat.le_succ_of_le (List.dropWhile_suffix _).length_le
    · exact Nat.le_refl _
  · exact Nat.le_refl _

/-- What follows the value without marks that starts a text. -/
def scanScalar? (text : List Char) : Option (Rest text) :=
  match text with
  | [] => none
  | c :: rest =>
      if isBare c then
        let token := c :: rest.takeWhile isBare
        let behind := rest.dropWhile isBare
        have hbehind : behind.length ≤ rest.length := (List.dropWhile_suffix isBare).length_le
        if isScalar token then
          some ⟨afterSpacedTime token behind,
            Nat.lt_succ_of_le (Nat.le_trans (length_afterSpacedTime_le ..) hbehind)⟩
        else none
      else none

end CallAtlas.Toml
