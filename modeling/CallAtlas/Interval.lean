/-!
# Line intervals

Where a function body stands in its file: its first and last line, both
inclusive, as 32-bit numbers.
-/

namespace CallAtlas

structure Interval where
  first : UInt32
  last : UInt32
deriving DecidableEq, Repr, Inhabited

namespace Interval

def contains (i : Interval) (line : UInt32) : Bool :=
  i.first ≤ line && line ≤ i.last

/-- The number of lines of the body, if 32 bits hold it. A body whose last line
stands before its first counts as one line. -/
def span? (i : Interval) : Option UInt32 :=
  let distance := if i.first ≤ i.last then i.last - i.first else 0
  if distance.toNat + 1 < UInt32.size then some (distance + 1) else none

instance : Ord Interval where
  compare := compareLex (compareOn first) (compareOn last)

instance : Std.TransOrd Interval :=
  inferInstanceAs (Std.TransCmp (compareLex _ _))

instance : Std.LawfulEqOrd Interval where
  eq_of_compare {a b} h := by
    obtain ⟨h₁, h₂⟩ := compareLex_eq_eq.mp h
    cases a
    cases b
    exact congr (congrArg mk (Std.LawfulEqOrd.eq_of_compare h₁))
      (Std.LawfulEqOrd.eq_of_compare h₂)

end Interval

end CallAtlas
