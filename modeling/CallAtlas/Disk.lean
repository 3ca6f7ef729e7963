import CallAtlas.Ascending
import CallAtlas.Path
import CallAtlas.Store.Load

/-!
# Disks

A disk is a tree of directories and files, kept as a flat list of what stands at
which address. Paths are followed step by step: every step but the last has to
lead to a directory that exists, and a step back from the top stays there. A
file holds text or a database, and may be locked by a program that runs.
-/

namespace CallAtlas

/-- The names from the top of the disk on. -/
abbrev Disk.Address := List String

namespace Disk

inductive Content where
  | text (content : String)
  | database (content : Store.Database)
deriving DecidableEq, Repr

structure File where
  content : Content
  isLocked : Bool
deriving DecidableEq, Repr

def File.empty : File :=
  ⟨.text "", false⟩

inductive Entry where
  | directory
  | file (file : File)
deriving DecidableEq, Repr

inductive Fault where
  | notFound
  | notADirectory
  | occupied
  | isADirectory
  | nameTooLong
  /-- A file is to take the place of a path that ends in `.` or `..`. -/
  | busy
  | nulInName
  /-- A database is read as a text. -/
  | notText
  | system (words : String)
deriving DecidableEq, Repr

def Fault.message : Fault → String
  | notFound => "No such file or directory (os error 2)"
  | notADirectory => "Not a directory (os error 20)"
  | occupied => "File exists (os error 17)"
  | isADirectory => "Is a directory (os error 21)"
  | nameTooLong => "File name too long (os error 36)"
  | busy => "Device or resource busy (os error 16)"
  | nulInName => "file name contained an unexpected NUL byte"
  | notText => "stream did not contain valid UTF-8"
  | system words => words

end Disk

structure Disk where
  entries : List (Disk.Address × Disk.Entry)
  /-- Where paths start that do not start at the top. -/
  home : Disk.Address
deriving DecidableEq, Repr

namespace Disk

/-! ## Entries -/

/-- What stands at an address. The top is a directory. -/
def entryAt? (d : Disk) (a : Address) : Option Entry :=
  if a.isEmpty then some .directory else d.entries.lookup a

def isDirectoryAt (d : Disk) (a : Address) : Bool :=
  d.entryAt? a = some .directory

/-- Puts an entry in the place of the one at its address, or behind all. -/
def setEntry (a : Address) (e : Entry) : List (Address × Entry) → List (Address × Entry)
  | [] => [(a, e)]
  | (b, f) :: rest => if b = a then (a, e) :: rest else (b, f) :: setEntry a e rest

def set (d : Disk) (a : Address) (e : Entry) : Disk :=
  { d with entries := setEntry a e d.entries }

def erase (d : Disk) (a : Address) : Disk :=
  { d with entries := d.entries.filter (·.1 ≠ a) }

def eraseTree (d : Disk) (a : Address) : Disk :=
  { d with entries := d.entries.filter fun entry => !a.isPrefixOf entry.1 }

/-! ## Following paths -/

/-- The longest name in bytes, and one more than the longest path. -/
def nameLimit : Nat := 255

def pathLimit : Nat := 4096

def pathFault? (p : Path) : Option Fault :=
  if p.text.toList.contains '\x00' then some .nulInName
  else if p.text.isEmpty then some .notFound
  else if pathLimit ≤ p.text.utf8ByteSize then some .nameTooLong
  else none

def next (a : Address) (step : String) : Except Fault Address :=
  if step = "." then .ok a
  else if step = ".." then .ok a.dropLast
  else if nameLimit < step.utf8ByteSize then .error .nameTooLong
  else .ok (a ++ [step])

def step (d : Disk) (a : Address) (step : String) : Except Fault Address := do
  unless d.isDirectoryAt a do throw .notADirectory
  let b ← next a step
  if (d.entryAt? b).isSome then return b else throw .notFound

def start (d : Disk) (p : Path) : Address :=
  if p.isAbsolute then [] else d.home

def find (d : Disk) (p : Path) : Except Fault Address := do
  if let some fault := pathFault? p then throw fault
  let a ← p.steps.foldlM d.step (d.start p)
  if p.endsInSlash ∧ !d.isDirectoryAt a then throw .notADirectory
  return a

/-- Where something may be made: all steps but the last exist. There is no
address if the last step is no name. -/
def place (d : Disk) (p : Path) : Except Fault (Option Address) := do
  if let some fault := pathFault? p then throw fault
  let a ← p.steps.dropLast.foldlM d.step (d.start p)
  unless d.isDirectoryAt a do throw .notADirectory
  match p.steps.getLast? with
  | some last =>
      if last = "." ∨ last = ".." then return none else some <$> next a last
  | none => return none

/-! ## Looking -/

def has (d : Disk) (p : Path) : Bool :=
  (d.find p).toOption.isSome

def hasDirectory (d : Disk) (p : Path) : Bool :=
  match d.find p with
  | .ok a => d.isDirectoryAt a
  | .error _ => false

def file (d : Disk) (p : Path) : Except Fault File := do
  match d.entryAt? (← d.find p) with
  | some (.file f) => return f
  | some .directory => throw .isADirectory
  | none => throw .notFound

def readText (d : Disk) (p : Path) : Except Fault String := do
  match (← d.file p).content with
  | .text content => return content
  | .database _ => throw .notText

def openDatabase (d : Disk) (p : Path) : Except Store.Fault Store.Database :=
  if Store.Database.isTransient p.text then .ok .void
  else
    match d.file p with
    | .ok ⟨.database db, _⟩ => .ok db
    | .ok ⟨.text content, _⟩ => Store.Database.ofText content
    | .error .isADirectory => .error .unreadable
    | .error _ => .error (.cannotOpen p.text)

def files (d : Disk) : List (Path × File) :=
  d.entries.filterMap fun
    | (a, .file f) =>
        if d.home.isPrefixOf a then some (.ofSteps false (a.drop d.home.length), f) else none
    | (_, .directory) => none

/-! ## Changing -/

def makeDirectory (d : Disk) (p : Path) : Except Fault Disk := do
  match ← d.place p with
  | none => throw .occupied
  | some a => if (d.entryAt? a).isSome then throw .occupied else return d.set a .directory

/-- Changes the file at a path, which is made if there is none. -/
def change (d : Disk) (p : Path) (f : File → File) : Except Fault Disk := do
  match ← d.place p with
  | none => throw .isADirectory
  | some a =>
      if p.endsInSlash then throw .isADirectory
      match d.entryAt? a with
      | some .directory => throw .isADirectory
      | some (.file old) => return d.set a (.file (f old))
      | none => return d.set a (.file (f .empty))

def writeText (d : Disk) (p : Path) (content : String) : Except Fault Disk :=
  d.change p fun f => { f with content := .text content }

/-- What is written behind a database is no part of it. -/
def Content.append (content : Content) (more : String) : Content :=
  match content with
  | .text content => .text (content ++ more)
  | .database db => .database db

def appendText (d : Disk) (p : Path) (more : String) : Except Fault Disk :=
  d.change p fun f => { f with content := f.content.append more }

/-- Moves a file. A file at its new path is no more. -/
def rename (d : Disk) (p q : Path) : Except Fault Disk := do
  let a ← d.find p
  let f ← d.file p
  match ← d.place q with
  | none => throw .busy
  | some b =>
      if q.endsInSlash then throw .notADirectory
      if d.isDirectoryAt b then throw .isADirectory
      return (d.erase a).set b (.file f)

def remove (d : Disk) (p : Path) : Except Fault Disk := do
  let a ← d.find p
  let _ ← d.file p
  return d.erase a

/-- Locks a file, which is made if there is none. The answer is whether it was
free. -/
def lock (d : Disk) (p : Path) : Except Fault (Bool × Disk) := do
  let opened ← d.change p id
  if (← opened.file p).isLocked then return (false, opened)
  return (true, ← opened.change p fun f => { f with isLocked := true })

def unlock (d : Disk) (p : Path) : Disk :=
  match d.file p with
  | .ok _ => (d.change p fun f => { f with isLocked := false }).toOption.getD d
  | .error _ => d

/-- The directory for what is gone when a program ends. -/
def scratchHome : Address :=
  ["tmp"]

def makeScratch (d : Disk) : Path × Disk :=
  let names := (List.range (d.entries.length + 1)).map fun n => scratchHome ++ [s!"scratch-{n}"]
  let a := (names.find? fun a => (d.entryAt? a).isNone).getD scratchHome
  (.ofSteps true a, (d.set scratchHome .directory).set a .directory)

def dropScratch (d : Disk) (p : Path) : Disk :=
  match d.find p with
  | .ok a => d.eraseTree a
  | .error _ => d

def blank : Disk :=
  ⟨[(["home"], .directory)], ["home"]⟩

end Disk

end CallAtlas
