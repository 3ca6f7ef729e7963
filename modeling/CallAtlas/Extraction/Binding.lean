import CallAtlas.Extraction.Inventory

/-!
# Declaration binding

A declaration stands for the definition recorded with it. Without one it stands
for the only definition that has its signature; with none or several such
definitions it stays unbound, since a wrong link is worse than none.
-/

namespace CallAtlas.Extraction

inductive Binding where
  | explicit (definition : RowId)
  | bySignature (definition : RowId)
  | ambiguous
  | unknown
deriving DecidableEq, Repr

namespace Binding

def ofRow (inv : Inventory) (row : DeclarationRow) : Binding :=
  match row.definition with
  | some definition => explicit definition
  | none =>
      match inv.candidates (.canonical row.signature) with
      | [] => unknown
      | [only] => bySignature only
      | _ :: _ :: _ => ambiguous

def target? : Binding → Option RowId
  | explicit definition => some definition
  | bySignature definition => some definition
  | ambiguous => none
  | unknown => none

end Binding

structure Declarations where
  bindings : List (RowId × Binding)
deriving DecidableEq, Repr, Inhabited

structure BindingCounts where
  explicit : Nat
  bySignature : Nat
  ambiguous : Nat
  unknown : Nat
deriving DecidableEq, Repr, Inhabited

namespace Declarations

def bind (rows : List DeclarationRow) (inv : Inventory) : Declarations :=
  ⟨rows.map fun row => (row.id, .ofRow inv row)⟩

/-- The definition a declaration is bound to; of rows with the same id the last
decides. -/
def resolve (d : Declarations) (id : RowId) : Option RowId :=
  (d.bindings.reverse.lookup id).bind Binding.target?

/-- The number of declarations with different ids. -/
def size (d : Declarations) : Nat :=
  (d.bindings.map (·.1)).eraseDups.length

def counts (d : Declarations) : BindingCounts where
  explicit := d.bindings.countP fun (_, b) => b matches .explicit _
  bySignature := d.bindings.countP fun (_, b) => b matches .bySignature _
  ambiguous := d.bindings.countP fun (_, b) => b matches .ambiguous
  unknown := d.bindings.countP fun (_, b) => b matches .unknown

end Declarations

namespace BindingCounts

def total (c : BindingCounts) : Nat :=
  c.explicit + c.bySignature + c.ambiguous + c.unknown

def text (c : BindingCounts) : String :=
  s!"Declaration Linker Stats:\n  Total Declarations: {c.total}\n  ✅ Explicit: {c.explicit}\n" ++
    s!"  🔗 By signature: {c.bySignature}\n  🤔 Ambiguous: {c.ambiguous}\n" ++
    s!"  🌍 Unknown: {c.unknown}\n"

end BindingCounts

end CallAtlas.Extraction
