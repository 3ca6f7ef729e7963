import CallAtlas.Extraction.Binding

/-!
# Override classes

The recorded pairs of overriding functions, read in both directions. The class
of a function holds every function that was paired with it, and the function
itself only if it was paired with itself; pairs are not chained.
-/

namespace CallAtlas.Extraction

instance : Ord (RowId × RowId) where
  compare := compareLex (compareOn Prod.fst) (compareOn Prod.snd)

instance : Std.TransOrd (RowId × RowId) :=
  inferInstanceAs (Std.TransCmp (compareLex _ _))

instance : Std.LawfulEqOrd (RowId × RowId) where
  eq_of_compare {a b} h := by
    obtain ⟨h₁, h₂⟩ := compareLex_eq_eq.mp h
    exact Prod.ext (Std.LawfulEqOrd.eq_of_compare h₁) (Std.LawfulEqOrd.eq_of_compare h₂)

/-- The override relation: ascending pairs, each with its converse. -/
structure Overrides where
  pairs : List (RowId × RowId)
deriving DecidableEq, Repr, Inhabited

namespace Overrides

/-- The pair of a row whose second side `resolve` turns into a definition. -/
def pairOf (resolve : RowId → Option RowId) (row : OverrideRow) : Option (RowId × RowId) := do
  return (← row.base, ← resolve (← row.other))

def recorded (resolved unresolved : List OverrideRow) (d : Declarations) :
    List (RowId × RowId) :=
  resolved.filterMap (pairOf some) ++ unresolved.filterMap (pairOf d.resolve)

def ofRows (resolved unresolved : List OverrideRow) (d : Declarations) : Overrides :=
  let pairs := recorded resolved unresolved d
  ⟨Ascending.ofList (pairs ++ pairs.map Prod.swap)⟩

def ids (o : Overrides) : List RowId :=
  Ascending.ofList (o.pairs.map Prod.fst)

def members (o : Overrides) (id : RowId) : List RowId :=
  (o.pairs.filter (·.1 = id)).map Prod.snd

def class? (o : Overrides) (id : RowId) : Option (List RowId) :=
  match o.members id with
  | [] => none
  | members => some members

def size (o : Overrides) : Nat :=
  o.ids.length

end Overrides

end CallAtlas.Extraction
