import CallAtlas.Patch
import CallAtlas.Patch.Header

/-!
# Reading a diff

A diff is read line by line. Between hunks a line may open a file, name its
paths, open a hunk, or be none of the diff's business. Inside a hunk every line
belongs to it until both of its ranges are used up, whatever the line looks
like.
-/

namespace CallAtlas.Patch

open Text (dropHead? startsWith)

/-- The file that is being read, its changes in reverse. -/
structure Section where
  old : Option String
  new : Option String
  seen : List LineChange
deriving DecidableEq, Repr, Inhabited

namespace Section

def hasPath (s : Section) : Bool :=
  s.old.isSome || s.new.isSome

def close (s : Section) : FilePatch :=
  ⟨s.old, s.new, s.seen.reverse⟩

end Section

inductive Mode where
  | between
  /-- Behind a `---` line, whose number and path these are. -/
  | afterOld (line : Nat) (old : Option String)
  | inside (old new : Range)
deriving DecidableEq, Repr

structure Reader where
  /-- The closed files, the latest first. -/
  files : List FilePatch
  current : Option Section
  /-- The current file has had its `---` and `+++` lines. -/
  named : Bool
  /-- The last line that counts ended a hunk of the current file. -/
  afterHunk : Bool
  mode : Mode
deriving DecidableEq, Repr

namespace Reader

def start : Reader :=
  ⟨[], none, false, false, .between⟩

/-- The files once the current one is closed; one without any path is left
out. -/
def closed (r : Reader) : List FilePatch :=
  match r.current with
  | some s => if s.hasPath then s.close :: r.files else r.files
  | none => r.files

def opened (r : Reader) (old new : Option String) : Reader :=
  { r with files := r.closed, current := some ⟨old, new, []⟩, named := false, afterHunk := false }

def adjust (r : Reader) (f : Section → Section) : Reader :=
  { r with current := r.current.map f }

/-- Gives the paths of a `---` and a `+++` line to the current file, if it has
no changes and no such lines yet, and otherwise to a new one. -/
def headed (r : Reader) (old new : Option String) : Reader :=
  let reuse := !r.named && r.current.any (·.seen.isEmpty)
  let r := if reuse then r.adjust fun s => { s with old, new } else r.opened old new
  { r with named := true, afterHunk := false, mode := .between }

/-- Whether a line looks like part of a hunk. The line of two hyphens, with or
without a blank, that ends a mailed patch does not. -/
def looksLikeBody (line : List Char) : Bool :=
  match line with
  | ['-', '-'] => false
  | ['-', '-', ' '] => false
  | '+' :: _ => true
  | '-' :: _ => true
  | ' ' :: _ => true
  | _ => false

/-- Goes into a hunk, or past it if it has no lines. -/
def into (r : Reader) (old new : Range) : Reader :=
  if old.left = 0 ∧ new.left = 0 then { r with afterHunk := true, mode := .between }
  else { r with mode := .inside old new }

def hunkHeader (r : Reader) (line : List Char) : Except Reason Reader :=
  match scanHunk? line with
  | none => .error .badHunkHeader
  | some (old, new) =>
      match old.range?, new.range? with
      | some old, some new =>
          if r.current.any Section.hasPath then .ok (r.into old new)
          else .error .hunkBeforeFile
      | _, _ => .error .rangeOutOfBounds

/-- What a line between hunks does that names no paths and opens nothing. -/
def passed (r : Reader) (line : List Char) : Reader :=
  if line.isEmpty || line.head? = some '\\' then r else { r with afterHunk := false }

def extendedHeader (r : Reader) (line : List Char) : Reader :=
  match dropHead? "rename from ".toList line with
  | some path => r.adjust fun s => { s with old := some (String.ofList path) }
  | none =>
      match dropHead? "rename to ".toList line with
      | some path => r.adjust fun s => { s with new := some (String.ofList path) }
      | none =>
          if startsWith "new file mode".toList line then r.adjust fun s => { s with old := none }
          else if startsWith "deleted file mode".toList line then
            r.adjust fun s => { s with new := none }
          else r.passed line

def between (r : Reader) (number : Nat) (line : List Char) : Except Reason Reader :=
  match dropHead? "diff --git ".toList line with
  | some rest =>
      match gitPaths? rest with
      | some (old, new) => .ok (r.opened (some old) (some new))
      | none => .error .badGitHeader
  | none =>
      if startsWith "diff ".toList line then .ok (r.opened none none)
      else
        match dropHead? "--- ".toList line with
        | some rest => .ok { r with mode := .afterOld number (headerPath? rest) }
        | none =>
            if startsWith "@@".toList line then r.hunkHeader line
            else if r.afterHunk && looksLikeBody line then .error .bodyTooLong
            else .ok (r.extendedHeader line)

def inside (r : Reader) (old new : Range) (line : List Char) : Except Reason Reader :=
  let changed (change : LineChange) : Reader :=
    r.adjust fun s => { s with seen := change :: s.seen }
  let kept : Except Reason Reader :=
    match old.take?, new.take? with
    | some (m, old), some (n, new) => .ok ((changed (.context m n)).into old new)
    | _, _ => .error .bodyTooLong
  match line with
  | [] => kept
  | ' ' :: _ => kept
  | '-' :: _ =>
      match old.take? with
      | some (m, old) => .ok ((changed (.deletion m)).into old new)
      | none => .error .bodyTooLong
  | '+' :: _ =>
      match new.take? with
      | some (n, new) => .ok ((changed (.insertion n)).into old new)
      | none => .error .bodyTooLong
  | '\\' :: _ => .ok r
  | _ => .error .strayLine

def step (r : Reader) (number : Nat) (line : List Char) : Except Malformed Reader :=
  match r.mode with
  | .between => (r.between number line).mapError (⟨number, ·⟩)
  | .inside old new => (r.inside old new line).mapError (⟨number, ·⟩)
  | .afterOld above old =>
      match dropHead? "+++ ".toList line with
      | some rest => .ok (r.headed old (headerPath? rest))
      | none => .error ⟨above, .unpairedHeader⟩

/-- The patch that has been read when the diff ends behind `count` lines. -/
def finish (r : Reader) (count : Nat) : Except Malformed Patch :=
  match r.mode with
  | .between => .ok ⟨r.closed.reverse⟩
  | .inside _ _ => .error ⟨count, .truncatedHunk⟩
  | .afterOld above _ => .error ⟨above, .unpairedHeader⟩

/-- Reads the lines behind the first `count` ones. -/
def run (r : Reader) (count : Nat) : List (List Char) → Except Malformed Patch
  | [] => r.finish count
  | line :: rest =>
      match r.step (count + 1) line with
      | .ok r => r.run (count + 1) rest
      | .error malformed => .error malformed

end Reader

def parse (text : String) : Except Malformed Patch :=
  Reader.start.run 0 (Text.lines text.toList)

end CallAtlas.Patch
