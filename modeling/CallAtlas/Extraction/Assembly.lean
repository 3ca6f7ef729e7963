import CallAtlas.Extraction.CallGraph
import CallAtlas.Snapshot

/-!
# Assembly

From the six tables of a build to the snapshot of its revision: one record for
each definition, by ascending row id.
-/

namespace CallAtlas.Extraction

structure AssemblyCounts where
  files : Nat
  functions : Nat
  overrideClasses : Nat
  declarations : BindingCounts
  calls : CallCounts
deriving DecidableEq, Repr, Inhabited

def AssemblyCounts.text (c : AssemblyCounts) : String :=
  s!"Assembly Stats:\n  Files: {c.files}\n  Functions: {c.functions}\n" ++
    s!"  Override classes: {c.overrideClasses}\n" ++ c.declarations.text ++ c.calls.text

structure Assembly where
  snapshot : Snapshot
  counts : AssemblyCounts
deriving DecidableEq, Repr, Inhabited

namespace Inventory

def sources (inv : Inventory) : List Key.Source :=
  inv.definitions.map fun (_, d) => ⟨inv.pathOf d, d.signature, d.lines⟩

def keys (inv : Inventory) : List (RowId × Key) :=
  (inv.definitions.map (·.1)).zip (Key.assign inv.sources)

end Inventory

namespace Tables

def inventory (t : Tables) : Inventory :=
  .extract t.definitions

def linker (t : Tables) : Linker :=
  let declarations := Declarations.bind t.declarations t.inventory
  ⟨t.inventory.keys, declarations,
    .ofRows t.overridesResolved t.overridesUnresolved declarations⟩

def callGraph (t : Tables) : CallGraph :=
  t.linker.graph t.callsResolved t.callsUnresolved

/-- The record of each definition, but for its key. The edges of each are taken
out of the graph in turn. -/
def bodies (t : Tables) : List Body :=
  let definitions := t.inventory.definitions
  let (edges, _) := t.callGraph.takeAll (definitions.map (·.1))
  List.zipWith (fun (_, d) callees => ⟨d.file, d.signature, d.lines, callees⟩) definitions edges

def counts (t : Tables) : AssemblyCounts where
  files := t.inventory.files.length
  functions := t.inventory.definitions.length
  overrideClasses := t.linker.overrides.size
  declarations := t.linker.declarations.counts
  calls := t.linker.counts t.callsResolved t.callsUnresolved

def assembly (t : Tables) (revision : String) : Except Snapshot.Defect Assembly := do
  let snapshot ← Snapshot.build t.inventory.files t.bodies revision
  return ⟨snapshot, t.counts⟩

def assemble (t : Tables) (revision : String) : Except Snapshot.Defect Snapshot :=
  Snapshot.build t.inventory.files t.bodies revision

end Tables

end CallAtlas.Extraction
