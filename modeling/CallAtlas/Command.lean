import CallAtlas.Path

/-!
# Commands

What the program can be asked to do, and the settings that go with every
command.
-/

namespace CallAtlas

inductive Command where
  | assemble (database : Path) (revision : String) (output : Option Path)
  | merge (before after : Path) (diff : String) (output changes : Option Path)
  | prepare (database : Path) (revision : String)
  | update (database : Path) (revision diff author message : String)
  | stats (snapshot : Option Path)
  | init (force : Bool)
deriving DecidableEq, Repr

structure Invocation where
  isVerbose : Bool
  isQuiet : Bool
  settings : Option Path
  command : Command
deriving DecidableEq, Repr

end CallAtlas
