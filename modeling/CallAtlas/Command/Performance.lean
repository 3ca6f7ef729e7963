import CallAtlas.Command.Arguments
import CallAtlas.Console.Grid
import CallAtlas.Console.Voice
import CallAtlas.Pipeline
import CallAtlas.Settings.File

/-!
# Doing commands

A command is done on a disk, and says things on the way. When it fails, what was
said before stays said, and a complaint follows.
-/

namespace CallAtlas

structure Transcript where
  out : String
  err : String
deriving DecidableEq, Repr, Inhabited

/-- What a program says when it gives up, the nearest cause first. -/
structure Complaint where
  message : String
  causes : List String
deriving DecidableEq, Repr, Inhabited

namespace Complaint

def ofFailure (why : Failure) : Complaint :=
  ⟨why.message, why.causes⟩

/-- A text whose lines behind the first one begin with blanks. -/
def indented (blanks : Nat) (text : String) : String :=
  String.ofList (text.toList.flatMap fun c =>
    if c = '\n' then '\n' :: List.replicate blanks ' ' else [c])

def text (c : Complaint) : String :=
  let reasons :=
    match c.causes with
    | [] => []
    | [cause] => ["", "Caused by:", "    " ++ indented 4 cause]
    | causes =>
        ["", "Caused by:"] ++ causes.zipIdx.map fun (cause, n) =>
          s!"    {n}: " ++ indented 7 cause
  "Error: " ++ "\n".intercalate (c.message :: reasons) ++ "\n"

end Complaint

abbrev Performance (m : Type → Type) :=
  ExceptT Complaint (StateT Transcript m)

namespace Performance

variable {m : Type → Type} [Monad m]

def say (text : String) : Performance m Unit :=
  modify fun t => { t with out := t.out ++ text }

def warn (text : String) : Performance m Unit :=
  modify fun t => { t with err := t.err ++ text }

def silently (work : m α) : Performance m α :=
  ExceptT.lift (StateT.lift work)

def attempt (complain : ε → Complaint) (work : m (Except ε α)) : Performance m α := do
  match ← silently work with
  | .ok a => return a
  | .error why => throw (complain why)

def perform (work : ExceptT Failure m α) : Performance m α :=
  attempt .ofFailure work.run

variable [MonadDisk m]

/-- The diff at a place, which may be the input. -/
def readDiff (input : m String) (source : String) : Performance m String :=
  if source = "-" then silently input
  else attempt (fun why => ⟨s!"reading diff {source}", [why.message]⟩)
    (MonadDisk.readText ⟨source⟩)

def readSnapshot (p : Path) : Performance m Snapshot := do
  let some s ← perform (Snapshot.load? p) | throw ⟨s!"no snapshot at {p.text}", []⟩
  return s

def writeText (p : Path) (content : String) : Performance m Unit :=
  attempt (fun why => ⟨why.message, []⟩) (MonadDisk.writeText p content)

def deliver (output : Option Path) (answer : String) : Performance m Unit :=
  match output with
  | some p => writeText p answer
  | none => say (answer ++ "\n")

end Performance

def Snapshot.measures (s : Snapshot) : List (String × String) := [
  ("Revision", s.revision),
  ("Files", toString s.files.length),
  ("Functions", toString s.records.length),
  ("Call edges", toString s.edgeCount),
  ("Virtual (ambiguous) edges", toString s.ambiguousEdgeCount),
  ("Dangling edges", toString s.danglingEdges.length)]

namespace Command

open Performance Console

variable {m : Type → Type} [Monad m] [MonadDisk m]

def sayUpdate (v : Voice) (s : Pipeline.Summary) : Performance m Unit := do
  let after := s.outcome.snapshot
  let partition := s.outcome.partition
  if s.isFirst then
    warn (v.warning "No rolling snapshot yet: this build became the baseline")
  else
    say (v.status "🔀" "Deleted" (toString partition.deleted.length))
    say (v.status "✨" "Inserted" (toString partition.inserted.length))
    say (v.status "📝" "Modified" (toString partition.modified.length))
    say (v.sectionTitle "Changes")
    say (v.changes s.outcome.changes)
  let dangling := after.danglingEdges.length
  if dangling > 0 then
    warn (v.warning s!"{dangling} call edges point at removed functions")
  let functions := after.records.length
  let files := after.files.length
  say (v.success s!"Revision {s.revision}: {functions} functions in {files} files")

/-- Does a command with the settings that hold. `place` is where they are, and
`input` what the program is given to read. -/
def perform (v : Voice) (s : Settings) (place : Path) (input : m String) :
    Command → Performance m Unit
  | assemble database revision output => do
      let assembly ← Performance.perform (Extraction.assembleFile database revision)
      deliver output assembly.snapshot.toJson
      if output.isSome then
        let functions := assembly.counts.functions
        let files := assembly.counts.files
        say (v.success s!"Assembled {functions} functions in {files} files")
  | merge before after diff output changes => do
      let before ← readSnapshot before
      let after ← readSnapshot after
      let diff ← readDiff input diff
      let outcome ← Performance.perform (MonadExcept.ofExcept (Merge.alongDiff before after diff))
      deliver output outcome.snapshot.toJson
      if let some p := changes then writeText p outcome.changes.toJson
      if output.isSome then
        say (v.sectionTitle "Changes")
        say (v.changes outcome.changes)
  | prepare database revision => do
      say (v.header s!"Preparing revision {revision}")
      let snapshot ← Performance.perform ((Pipeline.silent s).prepare database revision)
      say (v.status "📄" "Files" (toString snapshot.files.length))
      say (v.status "🔗" "Functions" (toString snapshot.records.length))
      say (v.success "Rolling snapshot ready")
  | update database revision diff author message => do
      let diff ← readDiff input diff
      say (v.header s!"Updating to revision {revision}")
      let summary ← Performance.perform
        ((Pipeline.reporting s).update database ⟨revision, author, message⟩ diff)
      sayUpdate v summary
  | stats snapshot => do
      let p := snapshot.getD (Workspace.rollingFile s.cache)
      let snapshot ← readSnapshot p
      say (v.status "🗄️" "Snapshot" p.text)
      say (Grid.render snapshot.measures ++ "\n")
  | init force => do
      Performance.perform (Settings.save place { s with cacheDir := some s.cache } force)
      say (v.success s!"Wrote {place.text}")

end Command

/-! ## Whole runs -/

structure Answer where
  exit : Nat
  transcript : Transcript
  isTimed : Bool
deriving DecidableEq, Repr

namespace Command

def environmentNames : List String :=
  ["REVGRAPH_CACHE_DIR", "REVGRAPH_WORK_DIR", "REVGRAPH_SNAPSHOT_DIR", "REVGRAPH_CHANGES_LOG",
    "REVGRAPH_QUIET"]

def isQuietIn (env : Settings.Environment) : Bool :=
  match env.lookup "REVGRAPH_QUIET" with
  | some value => value = "1" || value.toLower = "true"
  | none => false

def voice (i : Invocation) (env : Settings.Environment) (theme : Console.Theme) :
    Console.Voice :=
  ⟨i.isQuiet || isQuietIn env, theme⟩

def usage : String :=
  "Usage: revgraph [-v] [-q] [-c CONFIG] COMMAND\n\n" ++
  "Commands:\n" ++
  "  assemble -d DATABASE -r REVISION [-o OUTPUT]\n" ++
  "  merge -b BEFORE -a AFTER -d DIFF [-o OUTPUT] [--changes CHANGES]\n" ++
  "  prepare -d DATABASE -r REVISION\n" ++
  "  update -d DATABASE -r REVISION --diff DIFF [--author AUTHOR] [-m MESSAGE]\n" ++
  "  stats [-s SNAPSHOT]\n" ++
  "  init [--force]\n"

def Stop.answer : Stop → Answer
  | .help => ⟨0, ⟨usage, ""⟩, false⟩
  | .version => ⟨0, ⟨"revgraph 0.0.1\n", ""⟩, false⟩
  | .refused => ⟨2, ⟨"", usage⟩, false⟩

variable {m : Type → Type} [Monad m] [MonadDisk m]

def invoke (i : Invocation) (env : Settings.Environment) (theme : Console.Theme)
    (input : m String) : Performance m Unit := do
  let place := i.settings.getD Settings.defaultFile
  let s ← Performance.perform (Settings.resolve place env)
  i.command.perform (voice i env theme) s place input

def run (args : List String) (env : Settings.Environment) (theme : Console.Theme)
    (input : m String) : m Answer := do
  match read args with
  | .error stop => return stop.answer
  | .ok i =>
      let (result, said) ← (invoke i env theme input).run ⟨"", ""⟩
      match result with
      | .ok () => return ⟨0, said, !(voice i env theme).isQuiet⟩
      | .error complaint =>
          return ⟨1, { said with err := said.err ++ complaint.text }, false⟩

end Command

end CallAtlas
