import CallAtlas.Interval
import CallAtlas.Key

/-!
# Ordinals

Functions of one file that share a signature are told apart by their ordinal:
they are ranked by interval, and where intervals agree by their place in the
list. `rank` says so directly; `ordinals` finds all of them by sorting the
places once and counting names along the way.
-/

namespace CallAtlas.Key

/-- What the key of a function is derived from, but for the ordinal. -/
structure Source where
  path : String
  signature : Signature
  lines : Interval
deriving DecidableEq, Repr, Inhabited

/-- What functions have in common when ordinals tell them apart. -/
def Source.name (s : Source) : String × Signature :=
  (s.path, s.signature)

abbrev Placed := Source × Nat

/-- `a` comes before `b`, or is `b`: by interval, then by place. -/
def Placed.before (a b : Placed) : Bool :=
  (compareLex (compareOn fun p => p.1.lines) (compareOn Prod.snd) a b).isLE

/-- How many sources with the name of `p` come strictly before it. -/
def rank (sources : List Source) (p : Placed) : Nat :=
  sources.zipIdx.countP fun q => q.1.name = p.1.name ∧ Placed.before q p ∧ q ≠ p

/-- Numbers each source by how often its name was seen before it. -/
def numberFrom (seen : List (String × Signature)) : List Placed → List (Placed × Nat)
  | [] => []
  | p :: rest => (p, seen.count p.1.name) :: numberFrom (p.1.name :: seen) rest

def ordinals (sources : List Source) : List Nat :=
  let numbered := numberFrom [] (sources.zipIdx.mergeSort Placed.before)
  (numbered.mergeSort fun a b => a.1.2 ≤ b.1.2).map (·.2)

def assign (sources : List Source) : List Key :=
  (sources.zip (ordinals sources)).map fun (s, n) => derive s.path s.signature n

end CallAtlas.Key
