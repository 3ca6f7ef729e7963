import CallAtlas.Text.Blank
import CallAtlas.Text.Digit
import CallAtlas.Text.Lines

/-!
# Header lines of a diff

What the lines between hunks say: the paths of a file, and the ranges of a
hunk.
-/

namespace CallAtlas.Patch

open Text (dropHead? splitAt? trimEnd)

def beforeTab (text : List Char) : List Char :=
  text.takeWhile (· ≠ '\t')

/-- The path in a `---` or `+++` line. A time stamp may follow it behind a tab,
one of the letters `a` and `b` may stand before it as a directory, and
`/dev/null` is no path. -/
def headerPath? (raw : List Char) : Option String :=
  let raw := trimEnd (beforeTab raw)
  if raw = "/dev/null".toList then none
  else
    match (dropHead? "a/".toList raw).or (dropHead? "b/".toList raw) with
    | some path => some (String.ofList path)
    | none => some (String.ofList raw)

def gitPaths? (rest : List Char) : Option (String × String) :=
  let halves :=
    match dropHead? "a/".toList rest with
    | some rest => splitAt? " b/".toList rest
    | none => splitAt? [' '] rest
  halves.map fun (old, new) => (String.ofList old, String.ofList new)

/-! ## Hunk headers -/

/-- The lines of one side that are still to come: the number of the next one
and how many there are. -/
structure Range where
  next : UInt32
  left : UInt32
deriving DecidableEq, Repr, Inhabited

namespace Range

def take? (r : Range) : Option (UInt32 × Range) :=
  if r.left = 0 then none else some (r.next, ⟨r.next + 1, r.left - 1⟩)

/-- Whether all its lines have numbers of 32 bits. -/
def inBounds (r : Range) : Bool :=
  r.next.toNat + r.left.toNat < 0x100000000

end Range

structure RangeText where
  start : List Char
  count : Option (List Char)

def scanDigits? (text : List Char) : Option (List Char × List Char) :=
  match text.takeWhile Text.isDigit with
  | [] => none
  | digits => some (digits, text.dropWhile Text.isDigit)

def scanRange? (text : List Char) : Option (RangeText × List Char) := do
  let (start, rest) ← scanDigits? text
  match dropHead? [','] rest with
  | none => return (⟨start, none⟩, rest)
  | some more =>
      let (count, rest) ← scanDigits? more
      return (⟨start, some count⟩, rest)

def scanHunk? (text : List Char) : Option (RangeText × RangeText) := do
  let (old, rest) ← scanRange? (← dropHead? "@@ -".toList text)
  let (new, rest) ← scanRange? (← dropHead? " +".toList rest)
  let _ ← dropHead? " @@".toList rest
  return (old, new)

/-- The range that a text writes; a missing count is one. -/
def RangeText.range? (r : RangeText) : Option Range := do
  let next ← Text.wordOfDigits? r.start
  let left ← match r.count with
    | some count => Text.wordOfDigits? count
    | none => some 1
  let range : Range := ⟨next, left⟩
  if range.inBounds then some range else none

end CallAtlas.Patch
