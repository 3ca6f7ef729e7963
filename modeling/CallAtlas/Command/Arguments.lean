import CallAtlas.Command

/-!
# Arguments

A command is given by its name and by switches, some of which take a value: the
next argument, or what follows the switch itself. Switches of one letter may
stand together. Those that go with every command may stand before its name as
well as behind it; what stands behind counts. No switch is given twice in one
place. Arguments are read from left to right, and the first one that asks for
help, or that is wrong, ends the reading.
-/

namespace CallAtlas.Command

inductive Stop where
  | help
  | version
  | refused
deriving DecidableEq, Repr

inductive Kind where
  | flag
  | help
  | version
  | text
  /-- A text that is not empty. -/
  | path
deriving DecidableEq, Repr

namespace Kind

def takesValue : Kind → Bool
  | text => true
  | path => true
  | _ => false

end Kind

structure Switch where
  name : String
  letter : Option Char
  kind : Kind
deriving DecidableEq, Repr

abbrev Given := List (String × String)

/-! ## Switches by command -/

def commonSwitches : List Switch :=
  [⟨"verbose", some 'v', .flag⟩, ⟨"quiet", some 'q', .flag⟩, ⟨"config", some 'c', .path⟩,
    ⟨"help", some 'h', .help⟩]

def databaseSwitches : List Switch :=
  [⟨"database", some 'd', .path⟩, ⟨"revision", some 'r', .text⟩]

def switches? : String → Option (List Switch)
  | "assemble" => some (databaseSwitches ++ [⟨"output", some 'o', .path⟩])
  | "merge" => some
      [⟨"before", some 'b', .path⟩, ⟨"after", some 'a', .path⟩, ⟨"diff", some 'd', .text⟩,
        ⟨"output", some 'o', .path⟩, ⟨"changes", none, .path⟩]
  | "prepare" => some databaseSwitches
  | "update" => some (databaseSwitches ++
      [⟨"diff", none, .text⟩, ⟨"author", none, .text⟩, ⟨"message", some 'm', .text⟩])
  | "stats" => some [⟨"snapshot", some 's', .path⟩]
  | "init" => some [⟨"force", none, .flag⟩]
  | _ => none

/-! ## Reading -/

def give (s : Switch) (value : String) (given : Given) : Except Stop Given :=
  match s.kind with
  | .help => .error .help
  | .version => .error .version
  | kind =>
      if (given.lookup s.name).isSome ∨ (kind = .path ∧ value.isEmpty) then .error .refused
      else .ok ((s.name, value) :: given)

/-- Reads a switch by its name. The second answer is a switch that waits for its
value. -/
def readLong (switches : List Switch) (given : Given) (body : List Char) :
    Except Stop (Given × Option Switch) := do
  let name := body.takeWhile (· ≠ '=')
  let some s := switches.find? fun s => s.name.toList = name | throw .refused
  match body.drop name.length with
  | [] => if s.kind.takesValue then return (given, some s) else return (← give s "" given, none)
  | _ :: value =>
      if s.kind.takesValue then return (← give s (String.ofList value) given, none)
      else throw .refused

/-- Reads switches by their letters. The second answer is a switch that waits for
its value. -/
def readLetters (switches : List Switch) (given : Given) :
    List Char → Except Stop (Given × Option Switch)
  | [] => return (given, none)
  | letter :: rest => do
      let some s := switches.find? (·.letter = some letter) | throw .refused
      if s.kind.takesValue then
        match rest with
        | [] => return (given, some s)
        | '=' :: value => return (← give s (String.ofList value) given, none)
        | value => return (← give s (String.ofList value) given, none)
      else readLetters switches (← give s "" given) rest

def isSwitch (arg : String) : Bool :=
  match arg.toList with
  | '-' :: _ :: _ => true
  | _ => false

/-- Reads switches up to an argument that is none. The second answer is what
follows from there on. -/
def readSwitches (switches : List Switch) (given : Given) :
    List String → Except Stop (Given × List String)
  | [] => return (given, [])
  | arg :: rest =>
      if arg = "--" ∨ !isSwitch arg then return (given, arg :: rest)
      else do
        let (given, waiting) ←
          match arg.toList.drop 1 with
          | '-' :: body => readLong switches given body
          | letters => readLetters switches given letters
        match waiting, rest with
        | none, rest => readSwitches switches given rest
        | some s, value :: rest =>
            if isSwitch value then throw .refused
            else readSwitches switches (← give s value given) rest
        | some _, [] => throw .refused

/-! ## Commands -/

def Given.has (given : Given) (name : String) : Bool :=
  (given.lookup name).isSome

def Given.path? (given : Given) (name : String) : Option Path :=
  (given.lookup name).map Path.mk

def ofGiven? (name : String) (given : Given) : Option Command :=
  match name with
  | "assemble" => do
      return assemble (← given.path? "database") (← given.lookup "revision")
        (given.path? "output")
  | "merge" => do
      return merge (← given.path? "before") (← given.path? "after") (← given.lookup "diff")
        (given.path? "output") (given.path? "changes")
  | "prepare" => do return prepare (← given.path? "database") (← given.lookup "revision")
  | "update" => do
      return update (← given.path? "database") (← given.lookup "revision")
        (← given.lookup "diff") ((given.lookup "author").getD "")
        ((given.lookup "message").getD "")
  | "stats" => return stats (given.path? "snapshot")
  | "init" => return init (given.has "force")
  | _ => none

def readHelp : List String → Stop
  | [] => .help
  | [name] => if name = "help" ∨ (switches? name).isSome then .help else .refused
  | _ => .refused

def read (args : List String) : Except Stop Invocation := do
  let versionSwitch : Switch := ⟨"version", some 'V', .version⟩
  let (before, rest) ← readSwitches (versionSwitch :: commonSwitches) [] args
  match rest with
  | [] => throw .refused
  | "help" :: rest => throw (readHelp rest)
  | name :: rest =>
      let some switches := switches? name | throw .refused
      let (own, rest) ← readSwitches (switches ++ commonSwitches) [] rest
      unless rest.isEmpty ∨ rest = ["--"] do throw .refused
      let some command := ofGiven? name own | throw .refused
      let given := own ++ before
      return ⟨given.has "verbose", given.has "quiet", given.path? "config", command⟩

end CallAtlas.Command
