/-!
# Paths

A path is kept as it is written. Slashes part it into steps; repeated slashes
count once. What a path means is up to the disk it is followed on: here paths
are only taken apart and put together.
-/

namespace CallAtlas

structure Path where
  text : String
deriving DecidableEq, Repr, Inhabited

namespace Path

def isAbsolute (p : Path) : Bool :=
  p.text.toList.head? == some '/'

/-- It ends in a slash, so that only a directory can be meant. -/
def endsInSlash (p : Path) : Bool :=
  p.text.toList.getLast? == some '/'

def steps (p : Path) : List String :=
  ((p.text.toList.splitOnP (· = '/')).filter fun step => !step.isEmpty).map String.ofList

/-- The steps without those that stay where they are. Such a step counts only at
the head of a path that does not start at the top. -/
def names (p : Path) : List String :=
  match p.steps with
  | [] => []
  | first :: rest =>
      (if first = "." ∧ p.isAbsolute then [] else [first]) ++ rest.filter (· ≠ ".")

def ofSteps (isAbsolute : Bool) (steps : List String) : Path :=
  ⟨(if isAbsolute then "/" else "") ++ "/".intercalate steps⟩

/-- A path seen from a directory. One that starts at the top stays as it is. -/
def join (p q : Path) : Path :=
  if q.isAbsolute then q
  else if p.text.isEmpty ∨ p.endsInSlash then ⟨p.text ++ q.text⟩
  else ⟨p.text ++ "/" ++ q.text⟩

def child (p : Path) (name : String) : Path :=
  p.join ⟨name⟩

/-- The directory of what a path leads to. A path without a name has none. -/
def parent? (p : Path) : Option Path :=
  if p.names.isEmpty then none else some (ofSteps p.isAbsolute p.names.dropLast)

/-- The path and all directories above it, the nearest first. -/
def ancestors (p : Path) : List Path :=
  let names := p.names
  p :: (List.range names.length).reverse.map fun n => ofSteps p.isAbsolute (names.take n)

/-- A name without what follows its last dot. A dot at its head does not count. -/
def stem (name : List Char) : List Char :=
  match (name.reverse.dropWhile (· ≠ '.')) with
  | _ :: before => if before.isEmpty then name else before.reverse
  | [] => name

/-- The path beside another one at which its new content is prepared. -/
def draft (p : Path) : Path :=
  match p.names.getLast? with
  | some name =>
      if name = "." ∨ name = ".." then p
      else
        let draft := String.ofList (stem name.toList) ++ ".tmp"
        ofSteps p.isAbsolute (p.names.dropLast ++ [draft])
  | none => p

end Path

end CallAtlas
