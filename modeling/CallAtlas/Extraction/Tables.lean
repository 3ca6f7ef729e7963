import CallAtlas.Interval

/-!
# Extraction tables

What is recorded while a tree is compiled: function definitions and
declarations, call sites and override pairs. A row of another table names a
definition or a declaration by its row id. Calls and overrides come in two
tables each: in the resolved one the second side is a definition, in the
unresolved one a declaration. Either side is missing when it was not found.
-/

namespace CallAtlas.Extraction

abbrev RowId := Int

/-- A function body, its signature as the compiler printed it. -/
structure DefinitionRow where
  id : RowId
  path : String
  signature : String
  lines : Interval
deriving DecidableEq, Repr, Inhabited

structure DeclarationRow extends DefinitionRow where
  /-- The definition, where it was visible. -/
  definition : Option RowId
deriving DecidableEq, Repr, Inhabited

structure CallRow where
  caller : Option RowId
  callee : Option RowId
  line : UInt32
  col : UInt32
  isVirtual : Bool
deriving DecidableEq, Repr, Inhabited

structure OverrideRow where
  base : Option RowId
  other : Option RowId
deriving DecidableEq, Repr, Inhabited

structure Tables where
  definitions : List DefinitionRow
  declarations : List DeclarationRow
  callsResolved : List CallRow
  callsUnresolved : List CallRow
  overridesResolved : List OverrideRow
  overridesUnresolved : List OverrideRow
deriving DecidableEq, Repr, Inhabited

def Tables.rowCount (t : Tables) : Nat :=
  t.definitions.length + t.declarations.length + t.callsResolved.length +
    t.callsUnresolved.length + t.overridesResolved.length + t.overridesUnresolved.length

end CallAtlas.Extraction
