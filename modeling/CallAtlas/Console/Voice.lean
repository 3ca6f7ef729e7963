import CallAtlas.Change
import CallAtlas.Console.Style

/-!
# What is printed

The lines that a program prints besides its answer. They are left out when it is
to be quiet; a warning is not.
-/

namespace CallAtlas.Console

/-- A time given in billionths of a second, with two places. -/
def duration (nanos : Nat) : String :=
  let (unit, size) :=
    if nanos < 1000 then ("ns", 1)
    else if nanos < 1000000 then ("µs", 1000)
    else if nanos < 1000000000 then ("ms", 1000000)
    else ("s", 1000000000)
  let hundredths := (200 * nanos + size) / (2 * size)
  let places := hundredths % 100
  toString (hundredths / 100) ++ (if places < 10 then ".0" else ".") ++ toString places ++ unit

structure Voice where
  isQuiet : Bool
  theme : Theme
deriving DecidableEq, Repr

namespace Voice

def unlessQuiet (v : Voice) (text : String) : String :=
  if v.isQuiet then "" else text

/-- A text behind a sign, on a line of its own. -/
def line (sign text : String) : String :=
  sign ++ " " ++ text ++ "\n"

def header (v : Voice) (text : String) : String :=
  v.unlessQuiet (line "🚀" (v.theme.paint .header text))

def status (v : Voice) (sign label value : String) : String :=
  v.unlessQuiet (line sign (v.theme.paint .dim label ++ ": " ++ value))

def success (v : Voice) (text : String) : String :=
  v.unlessQuiet (line "✅" (v.theme.paint .success text))

def warning (v : Voice) (text : String) : String :=
  line "⚠️" (v.theme.paint .warn text)

def sectionTitle (v : Voice) (title : String) : String :=
  v.unlessQuiet ("\n━" ++ v.theme.paint .header title ++ "━\n")

def timing (v : Voice) (elapsed : String) : String :=
  v.unlessQuiet (line (v.theme.paint .dim "⏱️") elapsed)

def functionLine (v : Voice) (sign : String) (role : Role) (c : FunctionChange) : String :=
  let lines := s!"{c.lines.first.toNat}-{c.lines.last.toNat}"
  "    " ++ line sign (v.theme.paint role c.signature.text ++ " " ++ v.theme.paint .muted lines)

def fileLines (v : Voice) (path : String) (c : FileChanges) : String :=
  line (v.theme.paint .info "📄") path ++
    String.join (c.added.map (v.functionLine "✨" .added)) ++
    String.join (c.removed.map (v.functionLine "🗑️" .removed)) ++
    String.join (c.modified.map (v.functionLine "📝" .modified))

def changes (v : Voice) (s : ChangeSet) : String :=
  v.unlessQuiet <|
    if s.isEmpty then "  " ++ v.theme.paint .muted "no function-level changes" ++ "\n"
    else String.join (s.entries.map fun (path, c) => v.fileLines path c)

end Voice

end CallAtlas.Console
