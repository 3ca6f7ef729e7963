import CallAtlas.Key

/-!
# Call edges

A call site inside a function body. Its callee is one known function, or, for a
virtual call, every function that may override the one named.
-/

namespace CallAtlas

inductive Callee where
  | single (key : Key)
  | candidates (keys : List Key)
deriving DecidableEq, Repr, Inhabited

namespace Callee

/-- The callee for an override class: none for an empty class, and a class of
one member is that member. -/
def ofClass? : List Key → Option Callee
  | [] => none
  | [key] => some (single key)
  | keys => some (candidates keys)

def keys : Callee → List Key
  | single key => [key]
  | candidates keys => keys

def isAmbiguous : Callee → Bool
  | single _ => false
  | candidates _ => true

end Callee

structure Edge where
  callee : Callee
  line : UInt32
  col : UInt32
deriving DecidableEq, Repr, Inhabited

end CallAtlas
