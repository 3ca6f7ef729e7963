import CallAtlas.Change.Wire
import CallAtlas.Text.Blank
import CallAtlas.Text.Lines

/-!
# The change log

A log has one line for each report. A report says what a revision changed, who
made it and what for. Lines are only ever added, and blank ones are skipped when
a log is read.
-/

namespace CallAtlas

open Json (Value Decoder)

structure Report where
  revision : String
  author : String
  description : String
  changes : ChangeSet
deriving DecidableEq, Repr, Inhabited

namespace Report

def toValue (r : Report) : Value :=
  .object [
    ("revision", .text r.revision),
    ("author", .text r.author),
    ("description", .text r.description),
    ("changes", r.changes.toValue)]

structure SomeFields where
  revision : Option String
  author : Option String
  description : Option String
  changes : Option ChangeSet

def fields : List (Decoder.Field SomeFields) := [
  ⟨"revision", (·.revision.isSome), fun s =>
    Decoder.text.map fun revision => { s with revision := some revision }⟩,
  ⟨"author", (·.author.isSome), fun s =>
    Decoder.text.map fun author => { s with author := some author }⟩,
  ⟨"description", (·.description.isSome), fun s =>
    Decoder.text.map fun description => { s with description := some description }⟩,
  ⟨"changes", (·.changes.isSome), fun s =>
    ChangeSet.decode.map fun changes => { s with changes := some changes }⟩]

def SomeFields.finish (s : SomeFields) : Option Report := do
  return ⟨← s.revision, ← s.author, ← s.description, ← s.changes⟩

def decode : Decoder Report :=
  .record fields ⟨none, none, none, none⟩ SomeFields.finish

/-- The line of a report in a log, with its end. -/
def line (r : Report) : String :=
  r.toValue.render ++ "\n"

end Report

namespace ChangeLog

def read (text : String) : Except Json.Fault (List Report) :=
  ((Text.lines text.toList).filter fun line => !Text.allBlank line).mapM fun line =>
    Json.read Report.decode (String.ofList line)

end ChangeLog

end CallAtlas
