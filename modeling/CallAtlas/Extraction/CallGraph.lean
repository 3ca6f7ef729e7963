import CallAtlas.Edge
import CallAtlas.Extraction.Override

/-!
# Call graphs

The call edges between known definitions, each with the row id of its caller.
A call through a declaration reaches the definition the declaration is bound
to, and a virtual call reaches the override class of its callee. A call with an
end that is no known definition is dropped.
-/

namespace CallAtlas.Extraction

structure Linker where
  keys : List (RowId × Key)
  declarations : Declarations
  overrides : Overrides

namespace Linker

def key? (l : Linker) (id : RowId) : Option Key :=
  l.keys.lookup id

/-- The callee of a virtual call: the known members of the override class. -/
def widen? (l : Linker) (callee : RowId) : Option Callee :=
  Callee.ofClass? ((l.overrides.members callee).filterMap l.key?)

def edge? (l : Linker) (row : CallRow) (callee : Option RowId) : Option (RowId × Edge) := do
  let caller ← row.caller
  let _ ← l.key? caller
  let target ← callee
  let key ← l.key? target
  let reached :=
    if row.isVirtual then (l.widen? target).getD (.single key) else .single key
  return (caller, ⟨reached, row.line, row.col⟩)

def resolvedEdge? (l : Linker) (row : CallRow) : Option (RowId × Edge) :=
  l.edge? row row.callee

def declaredEdge? (l : Linker) (row : CallRow) : Option (RowId × Edge) :=
  l.edge? row (row.callee.bind l.declarations.resolve)

end Linker

structure CallGraph where
  edges : List (RowId × Edge)
deriving DecidableEq, Repr, Inhabited

namespace CallGraph

def callers (g : CallGraph) : List RowId :=
  Ascending.ofList (g.edges.map (·.1))

def edgesOf (g : CallGraph) (caller : RowId) : List Edge :=
  (g.edges.filter (·.1 = caller)).map (·.2)

def without (g : CallGraph) (caller : RowId) : CallGraph :=
  ⟨g.edges.filter (·.1 ≠ caller)⟩

/-- The edges of each caller in turn, each edge given out once. -/
def takeAll (g : CallGraph) : List RowId → List (List Edge) × CallGraph
  | [] => ([], g)
  | caller :: rest =>
      let (others, left) := (g.without caller).takeAll rest
      (g.edgesOf caller :: others, left)

def edgeCount (g : CallGraph) : Nat :=
  g.edges.length

end CallGraph

structure CallCounts where
  resolved : Nat
  viaDeclaration : Nat
  /-- Edges with several callees. -/
  expanded : Nat
  dropped : Nat
deriving DecidableEq, Repr, Inhabited

namespace CallCounts

def kept (c : CallCounts) : Nat :=
  c.resolved + c.viaDeclaration

def text (c : CallCounts) : String :=
  s!"Call Graph Stats:\n  ✅ Resolved: {c.resolved}\n" ++
    s!"  🔗 Via declaration: {c.viaDeclaration}\n  🔀 Virtual expansions: {c.expanded}\n" ++
    s!"  🗑  Dropped: {c.dropped}\n"

end CallCounts

namespace Linker

/-- The graph of both call tables, resolved rows first. -/
def graph (l : Linker) (resolved unresolved : List CallRow) : CallGraph :=
  ⟨resolved.filterMap l.resolvedEdge? ++ unresolved.filterMap l.declaredEdge?⟩

def counts (l : Linker) (resolved unresolved : List CallRow) : CallCounts where
  resolved := resolved.countP (l.resolvedEdge? · |>.isSome)
  viaDeclaration := unresolved.countP (l.declaredEdge? · |>.isSome)
  expanded := (l.graph resolved unresolved).edges.countP (·.2.callee.isAmbiguous)
  dropped :=
    resolved.countP (l.resolvedEdge? · |>.isNone) +
      unresolved.countP (l.declaredEdge? · |>.isNone)

end Linker

end CallAtlas.Extraction
