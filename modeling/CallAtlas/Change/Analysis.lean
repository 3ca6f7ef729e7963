import CallAtlas.Change
import CallAtlas.Patch
import CallAtlas.Snapshot

/-!
# From changed lines to changed functions

A function is touched when a line is put into its body in the later snapshot or
taken out of it in the earlier one. A touched function that both snapshots know
is modified, and reported with its earlier lines; one that only one of them
knows is removed or added.
-/

namespace CallAtlas

/-- The functions of a file with their lines, in the order of its records. Of
functions with the same signature the last stands for all. -/
structure Outline where
  rows : List (Signature × Interval)
deriving DecidableEq, Repr, Inhabited

namespace Outline

/-- The outline of a file of a snapshot; without a path it is empty. -/
def ofFile (s : Snapshot) : Option String → Outline
  | some path => ⟨(s.functionsIn path).map fun r => (r.signature, r.lines)⟩
  | none => ⟨[]⟩

def lines? (o : Outline) (signature : Signature) : Option Interval :=
  o.rows.reverse.lookup signature

def functionsAt (o : Outline) (line : UInt32) : List Signature :=
  (o.rows.map (·.1)).filter fun signature => (o.lines? signature).any (·.contains line)

end Outline

namespace LineChange

def touched (before after : Outline) : LineChange → List Signature
  | insertion new => after.functionsAt new
  | deletion old => before.functionsAt old
  | context _ _ => []

end LineChange

namespace FileChanges

/-- The functions among `touched` for which `pick`, given their lines before
and after, has lines to report. -/
def report (before after : Outline) (touched : List Signature)
    (pick : Option Interval → Option Interval → Option Interval) : List FunctionChange :=
  touched.filterMap fun signature =>
    (pick (before.lines? signature) (after.lines? signature)).map (⟨signature, ·⟩)

def ofTouched (before after : Outline) (touched : List Signature) : FileChanges where
  added := report before after touched fun
    | none, new => new
    | some _, _ => none
  removed := report before after touched fun
    | old, none => old
    | _, some _ => none
  modified := report before after touched fun
    | some old, some _ => some old
    | _, _ => none

def ofPatch (before after : Snapshot) (f : FilePatch) : FileChanges :=
  let before := Outline.ofFile before f.old
  let after := Outline.ofFile after f.new
  ofTouched before after (Ascending.ofList (f.changes.flatMap (·.touched before after)))

end FileChanges

namespace ChangeSet

def ofPatch (before after : Snapshot) (patch : Patch) : ChangeSet :=
  patch.files.foldl
    (fun s f =>
      match f.reportPath? with
      | some path => s.insert path (.ofPatch before after f)
      | none => s)
    empty

end ChangeSet

end CallAtlas
