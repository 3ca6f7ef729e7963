/-!
# Terminal styles

What a piece of terminal output is decides how it is set off: by a colour, and
for some roles by an effect. Where output goes to no terminal nothing is set
off.
-/

namespace CallAtlas.Console

inductive Role where
  | header
  | success
  | warn
  | info
  | dim
  | muted
  | added
  | removed
  | modified
deriving DecidableEq, Repr

namespace Role

/-- The codes of a role, the colour before the effect. -/
def codes : Role → String
  | header => "36;1"
  | success => "32;1"
  | warn => "33;1"
  | info => "35"
  | dim => "37;2"
  | muted => "90"
  | added => "32"
  | removed => "31"
  | modified => "33"

end Role

inductive Theme where
  | plain
  | colored
deriving DecidableEq, Repr

def Theme.paint (theme : Theme) (role : Role) (text : String) : String :=
  match theme with
  | .plain => text
  | .colored => s!"\x1b[{role.codes}m{text}\x1b[0m"

end CallAtlas.Console
